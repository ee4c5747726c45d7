import AegisKernel.Shell.LineEditing

/-!
# Shell — the arguments of a command

`shell_parse_cmd` with the array its pointers go to: `argv` is the list of its
entries, NULL is `none`, and storing outside of it has no result.

* `shellParseArgv` — the function, from a pointer into any memory.
* `parseArgv_eq` — its loop stores what `parseLoop` returns, one entry after the
  other.
* `tokenisation` — which words the entries point to, and where the NULL is.
-/

namespace AegisKernel.Shell

open Library

/-- `argv[i] = q` -/
def storeArg (argv : List (Option Nat)) (i : Nat) (q : Option Nat) : Option (List (Option Nat)) :=
  if i < argv.length then some (argv.set i q) else none

/-- The loop of `shell_parse_cmd`, with `n = max_args - 1 - argc`. -/
def parseArgv (buf : Bytes) (p argc : Nat) (argv : List (Option Nat)) :
    Nat → Option (Nat × List (Option Nat) × Bytes)
  | 0 => do
    let _ ← buf[p]?
    return (argc, argv, buf)
  | n + 1 => do
    let c ← buf[p]?
    if c = 0 then return (argc, argv, buf)
    let word ← scan (fun c => !isBlank c) buf p
    let c ← buf[word]?
    if c = 0 then return (argc, argv, buf)
    let argv₁ ← storeArg argv argc (some word)
    let stop ← scan (fun c => c == 0 || isBlank c) buf word
    let c ← buf[stop]?
    if c = 0 then parseArgv buf stop (argc + 1) argv₁ n
    else
      let buf₁ ← poke buf stop 0
      parseArgv buf₁ (stop + 1) (argc + 1) argv₁ n

/-- `shell_parse_cmd(p, argv, max_args)` -/
def shellParseArgv (buf : Bytes) (p : Nat) (argv : List (Option Nat)) (maxArgs : Nat) :
    Option (Nat × List (Option Nat) × Bytes) := do
  let (argc, argv₁, buf') ← parseArgv buf p 0 argv (maxArgs - 1)
  let argv' ← storeArg argv₁ argc none
  return (argc, argv', buf')

theorem storeArg_at (stored free : List (Option Nat)) (x q : Option Nat) :
    storeArg (stored ++ x :: free) stored.length q = some (stored ++ q :: free) := by
  unfold storeArg
  rw [if_pos (by simp), List.set_append_right _ _ (Nat.le_refl _), Nat.sub_self, List.set_cons_zero]

/-- What the loop returns for the pointers and the memory of `parseLoop`, in an array whose
first entries are taken. -/
def withArgs (stored free : List (Option Nat)) (r : List Nat × Bytes) :
    Nat × List (Option Nat) × Bytes :=
  (stored.length + r.1.length, stored ++ (r.1.map some ++ free.drop r.1.length), r.2)

/-- One pointer more is one entry more that is taken. -/
theorem withArgs_cons (stored free : List (Option Nat)) (x : Option Nat) (word : Nat)
    (r : List Nat × Bytes) :
    withArgs stored (x :: free) (word :: r.1, r.2) = withArgs (stored ++ [some word]) free r := by
  simp [withArgs, Nat.add_assoc, Nat.add_comm 1]

theorem parseArgv_eq (n : Nat) (buf : Bytes) (p : Nat) (stored free : List (Option Nat))
    (hroom : n ≤ free.length) :
    parseArgv buf p stored.length (stored ++ free) n =
      (parseLoop buf p n).map (withArgs stored free) := by
  induction n generalizing buf p stored free with
  | zero =>
    rw [parseArgv, parseLoop]
    cases buf[p]? with
    | none => rfl
    | some c => rfl
  | succ n ih =>
    obtain ⟨x, free, rfl⟩ := List.exists_cons_of_length_pos (Nat.lt_of_lt_of_le n.succ_pos hroom)
    -- the rest of the loop, with one entry more
    have hnext : ∀ buf p word, parseArgv buf p (stored.length + 1) (stored ++ some word :: free) n =
        ((parseLoop buf p n).map fun r => (word :: r.1, r.2)).map
          (withArgs stored (x :: free)) := by
      intro buf p word
      have hstep := ih buf p (stored ++ [some word]) free (Nat.le_of_succ_le_succ hroom)
      rw [List.length_append, List.length_singleton, List.append_assoc, List.singleton_append]
        at hstep
      rw [hstep, Option.map_map]
      exact Option.map_congr fun r _ => (withArgs_cons stored free x word r).symm
    rw [parseArgv, parseLoop]
    cases hc : buf[p]? with
    | none => rfl
    | some c =>
      simp only [Option.bind_eq_bind, Option.bind_some]
      by_cases hc0 : c = 0
      · rw [if_pos hc0, if_pos hc0]
        rfl
      rw [if_neg hc0, if_neg hc0]
      cases hword : scan (fun c => !isBlank c) buf p with
      | none => rfl
      | some word =>
        simp only [Option.bind_some]
        cases hfirst : buf[word]? with
        | none => rfl
        | some c =>
          simp only [Option.bind_some, storeArg_at]
          by_cases hc0 : c = 0
          · rw [if_pos hc0, if_pos hc0]
            rfl
          rw [if_neg hc0, if_neg hc0]
          cases hstop : scan (fun c => c == 0 || isBlank c) buf word with
          | none => rfl
          | some stop =>
            simp only [Option.bind_some]
            cases hlast : buf[stop]? with
            | none => rfl
            | some c =>
              simp only [Option.bind_some]
              by_cases hc0 : c = 0
              · rw [if_pos hc0, if_pos hc0, hnext]
                cases parseLoop buf stop n with
                | none => rfl
                | some r => rfl
              rw [if_neg hc0, if_neg hc0]
              cases poke buf stop 0 with
              | none => rfl
              | some buf₁ =>
                rw [Option.bind_some, Option.bind_some, hnext]
                cases parseLoop buf₁ (stop + 1) n with
                | none => rfl
                | some r => rfl

/-- Reading a string at each pointer. -/
theorem forall₂_of_mapM {buf : Bytes} {ptrs : List Nat} {words : List Bytes}
    (h : ptrs.mapM (stringAt buf) = some words) :
    List.Forall₂ (fun p w => stringAt buf p = some w) ptrs words := by
  induction ptrs generalizing words with
  | nil =>
    obtain rfl := Option.some.inj h
    exact .nil
  | cons p ptrs ih =>
    rw [List.mapM_cons, Option.bind_eq_bind, Option.bind_eq_some_iff] at h
    obtain ⟨w, hw, h⟩ := h
    rw [Option.bind_eq_bind, Option.bind_eq_some_iff] at h
    obtain ⟨words', hwords', h⟩ := h
    obtain rfl := Option.some.inj h
    exact .cons hw (ih hwords')

/-- **Command tokenisation.** In any memory with a string at its pointer, and with an
array of at least `max_args` entries, `shell_parse_cmd` ends without leaving either.
Its entries point to the words of the line in turn, as far as there is room for them
and the NULL; nothing else is written. -/
theorem tokenisation (pre line rest : Bytes) (argv : List (Option Nat)) (maxArgs : Nat)
    (hline : 0 ∉ line) (hmax : 1 ≤ maxArgs) (hargv : maxArgs ≤ argv.length) :
    ∃ argc argv' line', shellParseArgv (pre ++ (line ++ 0 :: rest)) pre.length argv maxArgs =
        some (argc, argv', pre ++ (line' ++ 0 :: rest)) ∧
      line'.length = line.length ∧
      argc = min (fields isBlank line).length (maxArgs - 1) ∧
      (∀ i, i < argc → ∃ p word, argv'[i]? = some (some p) ∧
        (fields isBlank line)[i]? = some word ∧
        stringAt (pre ++ (line' ++ 0 :: rest)) p = some word) ∧
      argv'[argc]? = some none ∧
      argv'.length = argv.length ∧
      ∀ i, argc < i → argv'[i]? = argv[i]? := by
  obtain ⟨ptrs, line', hloop, hlen, hstrings⟩ := parseLoop_words (maxArgs - 1) pre line rest hline
  have hall := forall₂_of_mapM hstrings
  have hcount : ptrs.length = min (fields isBlank line).length (maxArgs - 1) := by
    rw [hall.length_eq, List.length_take, Nat.min_comm]
  have hlt : ptrs.length < argv.length := by omega
  have hpre : ∀ i, i < ptrs.length →
      (ptrs.map some ++ none :: argv.drop (ptrs.length + 1))[i]? = (ptrs.map some)[i]? :=
    fun i hi => List.getElem?_append_left (by simpa using hi)
  have hbehind : ∀ i, ptrs.length ≤ i →
      (ptrs.map some ++ none :: argv.drop (ptrs.length + 1))[i]? =
        (none :: argv.drop (ptrs.length + 1))[i - ptrs.length]? := by
    intro i hi
    rw [List.getElem?_append_right (by simpa using hi), List.length_map]
  refine ⟨ptrs.length, ptrs.map some ++ none :: argv.drop (ptrs.length + 1), line', ?_, hlen,
    hcount, ?_, ?_, ?_, ?_⟩
  · have hstored := parseArgv_eq (maxArgs - 1) (pre ++ (line ++ 0 :: rest)) pre.length [] argv
      (by omega)
    rw [hloop, Option.map_some, withArgs, List.drop_eq_getElem_cons hlt] at hstored
    simp only [List.nil_append, List.length_nil, Nat.zero_add] at hstored
    have hnull := storeArg_at (ptrs.map some) (argv.drop (ptrs.length + 1)) argv[ptrs.length] none
    rw [List.length_map] at hnull
    unfold shellParseArgv
    simp only [hstored, hnull, Option.bind_eq_bind, Option.bind_some]
    rfl
  · intro i hi
    have hword : i < ((fields isBlank line).take (maxArgs - 1)).length := hall.length_eq ▸ hi
    refine ⟨ptrs[i], ((fields isBlank line).take (maxArgs - 1))[i], ?_, ?_, ?_⟩
    · rw [hpre i hi]
      simp [hi]
    · rw [List.getElem_take, List.getElem?_eq_getElem]
    · exact hall.get hi hword
  · rw [hbehind _ (Nat.le_refl _), Nat.sub_self, List.getElem?_cons_zero]
  · simp
    omega
  · intro i hi
    obtain ⟨k, hk⟩ : ∃ k, i - ptrs.length = k + 1 := ⟨i - ptrs.length - 1, by omega⟩
    rw [hbehind i (by omega), hk, List.getElem?_cons_succ, List.getElem?_drop]
    congr 1
    omega

/-- Two words of three have room beside the NULL; the rest is left as it was. -/
theorem tokenisation_three :
    ∃ argc argv' line', shellParseArgv ([7] ++ ([32, 97, 9, 32, 98, 99, 32, 100] ++ 0 :: [8])) 1
        [some 5, some 5, some 5, some 5] 3 =
        some (argc, argv', [7] ++ (line' ++ 0 :: [8])) ∧
      line'.length = 8 ∧
      argc = min (fields isBlank ([32, 97, 9, 32, 98, 99, 32, 100] : Bytes)).length (3 - 1) ∧
      (∀ i, i < argc → ∃ p word, argv'[i]? = some (some p) ∧
        (fields isBlank ([32, 97, 9, 32, 98, 99, 32, 100] : Bytes))[i]? = some word ∧
        stringAt ([7] ++ (line' ++ 0 :: [8])) p = some word) ∧
      argv'[argc]? = some none ∧
      argv'.length = 4 ∧
      ∀ i, argc < i → argv'[i]? = [some 5, some 5, some 5, some 5][i]? :=
  tokenisation [7] [32, 97, 9, 32, 98, 99, 32, 100] [8] [some 5, some 5, some 5, some 5] 3
    (by decide) (by omega) (by decide)

end AegisKernel.Shell
