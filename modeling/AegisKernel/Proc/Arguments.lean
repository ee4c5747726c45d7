import AegisKernel.Proc.Definitions
import AegisKernel.Vfs.Table

/-!
# Process server — the two strings of a `PROC_SPAWN`

The path and the name lie one behind the other in `data`, and every loop over them
stops at a NUL only. The loops again, on a pointer into `data`: it is what `data` holds
from there on, and a loop that reads behind the last byte has no result.

* `spawnCase s data` — the case `PROC_SPAWN` of the main loop. What it gives is what
  `handle` gives (`spawnCase_eq_handle`).
* `StaysInside s data` — nothing behind `data` is read, and a name of at most 31 bytes
  is the name of the new process.
* `stays_inside_iff` — this holds exactly when `data` has a NUL for each of the strings
  that are read; without a free slot only the path is.
-/

namespace AegisKernel.Proc

open Library

/-- The size of `data` in `aegis_msg_t`. -/
def MSG_DATA_SIZE : Nat := 256

namespace Checked

/-- `while (*s++) len++;` -/
def strlen : Bytes → Option Nat
  | [] => none
  | c :: s => if c = 0 then some 0 else (strlen s).map (· + 1)

/-- The bytes that `strncpy` writes; the first loop reads each of its characters. -/
def strncpyBytes : Bytes → Nat → Option Bytes
  | _, 0 => some []
  | [], _ + 1 => none
  | c :: src, n + 1 =>
    if c = 0 then some (0 :: List.replicate (n + 1) 0) else (strncpyBytes src n).map (c :: ·)

/-- `for (int i = 0; s[i] && i < 256; i++) msg.data[i] = s[i];` from `i` on: the bytes
that are sent to the console. -/
def procWrite : Bytes → Nat → Option Bytes
  | [], _ => none
  | c :: s, i =>
    -- the character is read first, and the index compared afterwards
    if c ≠ 0 ∧ i < MSG_DATA_SIZE then (procWrite s (i + 1)).map (c :: ·) else some []

/-- `proc_spawn`; the name is read when a slot is free. -/
def procSpawn (s : State) (name : Bytes) : Option (List Printed × State) :=
  match findPid s 0#64 with
  | none => some ([.text "[proc] No free process slots\n"], s)
  | some i => do
    let copied ← strncpyBytes name 31
    let shown ← procWrite name 0
    some ([.text "[proc] Spawned process ", .str shown, .text " with PID ", .dec s.nextPid,
        .text "\n"],
      setProcess { s with nextPid := s.nextPid + 1#64 } i fun p =>
        { p with
          pid := s.nextPid
          name := (copied ++ p.name.drop copied.length).set 31 0
          state := .ready
          parentPid := 0#64
          exitCode := 0 })

/-- `case PROC_SPAWN:` -/
def spawnCase (s : State) (data : Bytes) : Option (List Printed × State) := do
  let len ← strlen data
  procSpawn s (data.drop (len + 1))

end Checked

/-- The request reads bytes of `data` only, and the new process gets its second string
for a name. -/
structure StaysInside (s : State) (data : Bytes) : Prop where
  reads : (Checked.spawnCase s data).isSome
  name : ∀ p q rest, 0 ∉ p → 0 ∉ q → q.length ≤ 31 → data = p ++ 0 :: (q ++ 0 :: rest) →
    ∀ i, findPid s 0#64 = some i →
      ∃ out s', Checked.spawnCase s data = some (out, s') ∧
        Vfs.cstring (s'.processTable i).name = q

/-- The number of strings that are read: without a free slot, the name is not. -/
def stringsRead (s : State) : Nat := if findPid s 0#64 = none then 1 else 2

-- ---------------------------------------------------------------------------
-- One string
-- ---------------------------------------------------------------------------

section Strings

variable {p q rest : Bytes} {i n : Nat}

theorem Checked.strlen_append (hp : 0 ∉ p) :
    Checked.strlen (p ++ 0 :: rest) = some p.length := by
  induction p with
  | nil => rfl
  | cons c p ih =>
    have hc : c ≠ 0 := fun h => hp (h ▸ List.mem_cons_self ..)
    rw [List.cons_append, Checked.strlen, if_neg hc, ih fun h => hp (List.mem_cons_of_mem _ h)]
    rfl

theorem Checked.strlen_of_notMem (hp : 0 ∉ p) : Checked.strlen p = none := by
  induction p with
  | nil => rfl
  | cons c p ih =>
    have hc : c ≠ 0 := fun h => hp (h ▸ List.mem_cons_self ..)
    rw [Checked.strlen, if_neg hc, ih fun h => hp (List.mem_cons_of_mem _ h)]
    rfl

theorem strncpyBytes_append_nul (hq : 0 ∉ q) :
    Vfs.strncpyBytes (q ++ 0 :: rest) n = Vfs.strncpyBytes q n := by
  induction q generalizing n with
  | nil => cases n <;> rfl
  | cons c q ih =>
    have hc : c ≠ 0 := fun h => hq (h ▸ List.mem_cons_self ..)
    cases n with
    | zero => rfl
    | succ n =>
      rw [List.cons_append, Vfs.strncpyBytes, Vfs.strncpyBytes, if_neg hc, if_neg hc,
        ih fun h => hq (List.mem_cons_of_mem _ h)]

theorem strncpy_append_nul (dest : Bytes) (hq : 0 ∉ q) :
    strncpy dest (q ++ 0 :: rest) n = strncpy dest q n := by
  show Vfs.strncpyBytes (q ++ 0 :: rest) n ++ _ = _
  rw [strncpyBytes_append_nul hq]
  rfl

theorem Checked.strncpyBytes_append (hq : 0 ∉ q) :
    Checked.strncpyBytes (q ++ 0 :: rest) n = some (Vfs.strncpyBytes q n) := by
  induction q generalizing n with
  | nil => cases n <;> rfl
  | cons c q ih =>
    have hc : c ≠ 0 := fun h => hq (h ▸ List.mem_cons_self ..)
    cases n with
    | zero => rfl
    | succ n =>
      rw [List.cons_append, Checked.strncpyBytes, Vfs.strncpyBytes, if_neg hc, if_neg hc,
        ih fun h => hq (List.mem_cons_of_mem _ h)]
      rfl

/-- The bound is never met by a string of `data`. -/
theorem Checked.procWrite_append (hq : 0 ∉ q) (hlen : i + q.length ≤ MSG_DATA_SIZE) :
    Checked.procWrite (q ++ 0 :: rest) i = some q := by
  induction q generalizing i with
  | nil => rfl
  | cons c q ih =>
    have hc : c ≠ 0 := fun h => hq (h ▸ List.mem_cons_self ..)
    rw [List.length_cons] at hlen
    rw [List.cons_append, Checked.procWrite, if_pos ⟨hc, by omega⟩,
      ih (fun h => hq (List.mem_cons_of_mem _ h)) (by omega)]
    rfl

theorem Checked.procWrite_of_notMem (hq : 0 ∉ q) (hlen : i + q.length ≤ MSG_DATA_SIZE) :
    Checked.procWrite q i = none := by
  induction q generalizing i with
  | nil => rfl
  | cons c q ih =>
    have hc : c ≠ 0 := fun h => hq (h ▸ List.mem_cons_self ..)
    rw [List.length_cons] at hlen
    rw [Checked.procWrite, if_pos ⟨hc, by omega⟩,
      ih (fun h => hq (List.mem_cons_of_mem _ h)) (by omega)]
    rfl

end Strings

-- ---------------------------------------------------------------------------
-- The request
-- ---------------------------------------------------------------------------

section Request

variable {s : State} {data p q rest : Bytes} {i : Nat}

theorem Checked.spawnCase_append (hp : 0 ∉ p) :
    Checked.spawnCase s (p ++ 0 :: rest) = Checked.procSpawn s rest := by
  have hdrop : (p ++ 0 :: rest).drop (p.length + 1) = rest := by
    rw [List.append_cons, List.drop_left' (by simp)]
  rw [Checked.spawnCase, Checked.strlen_append hp]
  show Checked.procSpawn s ((p ++ 0 :: rest).drop (p.length + 1)) = _
  rw [hdrop]

theorem Checked.spawnCase_of_notMem (hdata : 0 ∉ data) : Checked.spawnCase s data = none := by
  rw [Checked.spawnCase, Checked.strlen_of_notMem hdata]
  rfl

/-- Without a free slot, the name is not read. -/
theorem Checked.procSpawn_full (hfull : findPid s 0#64 = none) (path name : Bytes) :
    Checked.procSpawn s name = some (Proc.procSpawn s path name) := by
  rw [Checked.procSpawn, Proc.procSpawn, hfull]

/-- A name that ends inside `data`. -/
theorem Checked.procSpawn_append (hq : 0 ∉ q) (hlen : q.length ≤ MSG_DATA_SIZE) (path : Bytes) :
    Checked.procSpawn s (q ++ 0 :: rest) = some (Proc.procSpawn s path (q ++ 0 :: rest)) := by
  rcases hfind : findPid s 0#64 with _ | i
  · exact Checked.procSpawn_full hfind path _
  · rw [Checked.procSpawn, Proc.procSpawn, hfind, Checked.strncpyBytes_append hq,
      Checked.procWrite_append hq (by omega), Vfs.cstring_append_nul hq]
    simp only [strncpy_append_nul _ hq]
    rfl

/-- Printing the name leaves `data`, if copying it has not. -/
theorem Checked.procSpawn_of_notMem (hfind : findPid s 0#64 = some i) (hq : 0 ∉ q)
    (hlen : q.length ≤ MSG_DATA_SIZE) : Checked.procSpawn s q = none := by
  rw [Checked.procSpawn, hfind, Checked.procWrite_of_notMem hq (by omega)]
  cases Checked.strncpyBytes q 31 <;> rfl

theorem handle_spawn (hp : 0 ∉ p) (arg0 : Word) :
    handle s ⟨PROC_SPAWN, arg0, p ++ 0 :: rest⟩ = procSpawn s (p ++ 0 :: rest) rest := by
  have hdrop : (p ++ 0 :: rest).drop (strlen (p ++ 0 :: rest) + 1) = rest := by
    rw [strlen, Vfs.cstring_append_nul hp, List.append_cons, List.drop_left' (by simp)]
  rw [handle, if_pos rfl]
  dsimp only
  rw [hdrop]

/-- The number of NULs behind the path. -/
theorem count_append_nul (hp : 0 ∉ p) : (p ++ 0 :: rest).count 0 = rest.count 0 + 1 := by
  rw [List.count_append, List.count_eq_zero_of_not_mem hp, Nat.zero_add, List.count_cons_self]

/-- The request is handled without leaving `data`, or it leaves it. -/
theorem spawnCase_cases (s : State) (arg0 : Word) (hlen : data.length = MSG_DATA_SIZE) :
    (stringsRead s ≤ data.count 0 ∧
        Checked.spawnCase s data = some (handle s ⟨PROC_SPAWN, arg0, data⟩)) ∨
      (¬ stringsRead s ≤ data.count 0 ∧ Checked.spawnCase s data = none) := by
  by_cases hdata : (0 : UInt8) ∈ data
  · obtain ⟨p, rest, rfl, hp⟩ := List.eq_append_cons_of_mem hdata
    rw [count_append_nul hp, Checked.spawnCase_append hp, handle_spawn hp]
    rw [List.length_append, List.length_cons] at hlen
    rcases hfind : findPid s 0#64 with _ | i
    · refine .inl ⟨?_, Checked.procSpawn_full hfind _ _⟩
      rw [stringsRead, if_pos hfind]
      omega
    · have htwo : stringsRead s = 2 := by rw [stringsRead, hfind, if_neg (by simp)]
      by_cases hrest : (0 : UInt8) ∈ rest
      · obtain ⟨q, rest, rfl, hq⟩ := List.eq_append_cons_of_mem hrest
        rw [List.length_append] at hlen
        refine .inl ⟨?_, Checked.procSpawn_append hq (by omega) _⟩
        rw [htwo, count_append_nul hq]
        omega
      · refine .inr ⟨?_, Checked.procSpawn_of_notMem hfind hrest (by omega)⟩
        rw [htwo, List.count_eq_zero_of_not_mem hrest]
        omega
  · refine .inr ⟨?_, Checked.spawnCase_of_notMem hdata⟩
    rw [List.count_eq_zero_of_not_mem hdata, stringsRead]
    split <;> omega

/-- A request that stays inside `data` is the one `handle` describes. -/
theorem spawnCase_eq_handle (s : State) (arg0 : Word) (hlen : data.length = MSG_DATA_SIZE)
    {r : List Printed × State} (h : Checked.spawnCase s data = some r) :
    handle s ⟨PROC_SPAWN, arg0, data⟩ = r := by
  rcases spawnCase_cases s arg0 hlen with ⟨-, hsome⟩ | ⟨-, hnone⟩
  · exact Option.some.inj (hsome.symm.trans h)
  · exact absurd (hnone.symm.trans h) (by simp)

/-- The name of the process that has been entered into slot `i`. -/
theorem procSpawn_name (hfind : findPid s 0#64 = some i) (hq : 0 ∉ q) (path rest : Bytes) :
    Vfs.cstring ((procSpawn s path (q ++ 0 :: rest)).2.processTable i).name = q.take 31 := by
  rw [procSpawn, hfind]
  simp only [setProcess, Function.update_self]
  rw [strncpy_append_nul _ hq]
  exact Vfs.cstring_strncpy_set hq _ 31

end Request

/-- **Spawn arguments.** Whatever the 256 bytes of `data` are, a `PROC_SPAWN` reads no
byte behind them exactly when they have a NUL for each string that is read. Nothing else
ends the loops. -/
theorem stays_inside_iff (s : State) (data : Bytes) (hlen : data.length = MSG_DATA_SIZE) :
    StaysInside s data ↔ stringsRead s ≤ data.count 0 := by
  constructor
  · intro h
    rcases spawnCase_cases s 0#64 hlen with ⟨hcount, -⟩ | ⟨-, hnone⟩
    · exact hcount
    · exact absurd h.reads (by simp [hnone])
  · intro hcount
    rcases spawnCase_cases s 0#64 hlen with ⟨-, hsome⟩ | ⟨hfew, -⟩
    · refine ⟨by rw [hsome]; rfl, ?_⟩
      rintro p q rest hp hq hshort rfl i hfind
      refine ⟨_, _, hsome, ?_⟩
      have hname := procSpawn_name hfind hq (p ++ 0 :: (q ++ 0 :: rest)) rest
      rw [← handle_spawn hp 0#64, List.take_of_length_le hshort] at hname
      exact hname
    · exact absurd hcount hfew

/-- A path of one character, a name of two, and zeros. -/
def twoStrings : Bytes := [47, 0, 115, 104] ++ List.replicate 252 0

theorem stays_inside_iff_two_strings :
    StaysInside start twoStrings ↔ stringsRead start ≤ twoStrings.count 0 :=
  stays_inside_iff start _ (by rw [twoStrings, List.length_append, List.length_replicate]; rfl)

/-- 256 characters: already the length of the path is looked for behind `data`. -/
theorem unterminated_path_leaves_data :
    ¬ ∀ (s : State) (data : Bytes), data.length = MSG_DATA_SIZE → StaysInside s data := by
  intro h
  have hreads := (h start (List.replicate 256 97) (List.length_replicate ..)).reads
  have hfree : (0 : UInt8) ∉ List.replicate 256 97 := fun hmem =>
    absurd (List.eq_of_mem_replicate hmem) (by decide)
  rw [Checked.spawnCase_of_notMem hfree] at hreads
  exact absurd hreads (by simp)

end AegisKernel.Proc
