import AegisKernel.Library.Stores
import AegisKernel.Vfs.Table

/-!
# VFS server — which bytes `strncpy` writes

`strncpy` of `vfs.c`, and of `proc.c`, which repeats it. Source and destination are
given by their cells, so that those behind the destination have a value too.

* `copyLoop`, `fillLoop` — the two loops, as the stores they make. The count wraps
  behind the second one, where nothing looks at it any more.
* `strncpyStores_eq` — the stores are those of `strncpyBytes`, one behind the other.
* `strncpy_exact_iff` — the first `n` bytes are always right, and one byte more is
  written unless the source has at least `n` characters.
-/

namespace AegisKernel.Vfs

open Library

/-- `while (n && (*d++ = *s++)) n--;` from character `i` on: the stores, where `d` is
behind the loop, and what is left of `n`. -/
def copyLoop (src : Nat → UInt8) (i : Nat) : Nat → List (Nat × UInt8) × Nat × Nat
  | 0 => ([], i, 0)
  | n + 1 =>
    -- the NUL is copied, and not counted
    if src i = 0 then ([(i, 0)], i + 1, n + 1)
    else
      let (stores, d, n') := copyLoop src (i + 1) n
      ((i, src i) :: stores, d, n')

/-- `while (n--) *d++ = '\0';` -/
def fillLoop (d : Nat) : Nat → List (Nat × UInt8)
  | 0 => []
  | n + 1 => (d, 0) :: fillLoop (d + 1) n

/-- The stores of `strncpy(dest, src, n)`. -/
def strncpyStores (src : Nat → UInt8) (n : Nat) : List (Nat × UInt8) :=
  let (stores, d, n') := copyLoop src 0 n
  stores ++ fillLoop d n'

/-- `dest[0..n)` becomes the source of `len` characters, cut off or filled up with NULs,
and nothing else is written. -/
def CopiesExactly (dest src : Nat → UInt8) (n len : Nat) : Prop :=
  (∀ i < n, applyStores dest (strncpyStores src n) i = if i < min n len then src i else 0) ∧
    StoresWithin n (strncpyStores src n)

section Loops

variable {src : Nat → UInt8} {i n len : Nat}

/-- The first loop stops at the NUL, or with the count. -/
theorem copyLoop_eq (hlen : ∀ j < len, src (i + j) ≠ 0) (hnul : src (i + len) = 0) :
    copyLoop src i n =
      if n ≤ len then (storesAt i ((List.range n).map fun j => src (i + j)), i + n, 0)
      else
        (storesAt i ((List.range (len + 1)).map fun j => src (i + j)), i + len + 1, n - len) := by
  induction n generalizing i len with
  | zero => rw [if_pos (Nat.zero_le len)]; rfl
  | succ n ih =>
    cases len with
    | zero =>
      have hzero : src i = 0 := hnul
      rw [copyLoop, if_pos hzero, if_neg (by omega), List.range_one, List.map_singleton, hnul]
      rfl
    | succ len =>
      have hshift : ∀ j, i + 1 + j = i + (j + 1) := fun j => by omega
      have hfirst : src i ≠ 0 := hlen 0 (by omega)
      have hrest : copyLoop src (i + 1) n = _ :=
        ih (fun j hj => hshift j ▸ hlen (j + 1) (by omega)) (hshift len ▸ hnul)
      simp only [hshift] at hrest
      have hrange : ∀ k, (List.range (k + 1)).map (fun j => src (i + j)) =
          src i :: (List.range k).map fun j => src (i + (j + 1)) := by
        intro k
        rw [List.range_succ_eq_map, List.map_cons, List.map_map]
        rfl
      rw [copyLoop, if_neg hfirst, hrest]
      by_cases hle : n ≤ len
      · rw [if_pos hle, if_pos (by omega), hrange, storesAt]
      · rw [if_neg hle, if_neg (by omega), hrange (len + 1), storesAt, Nat.add_sub_add_right]

theorem fillLoop_eq (d n : Nat) : fillLoop d n = storesAt d (List.replicate n 0) := by
  induction n generalizing d with
  | zero => rfl
  | succ n ih => rw [fillLoop, ih, List.replicate_succ, storesAt]

theorem zero_notMem_map (hlen : ∀ j < len, src j ≠ 0) : 0 ∉ (List.range len).map src := by
  intro hmem
  obtain ⟨j, hj, hzero⟩ := List.mem_map.mp hmem
  exact hlen j (List.mem_range.mp hj) hzero

/-- The two loops write what `strncpyBytes` lists. -/
theorem strncpyStores_eq (hlen : ∀ j < len, src j ≠ 0) (hnul : src len = 0) :
    strncpyStores src n = storesAt 0 (strncpyBytes ((List.range len).map src) n) := by
  have hfree := zero_notMem_map hlen
  have hloop := copyLoop_eq (n := n) (i := 0) (fun j hj => (Nat.zero_add j).symm ▸ hlen j hj)
    ((Nat.zero_add len).symm ▸ hnul)
  simp only [Nat.zero_add] at hloop
  rw [strncpyStores, hloop, strncpyBytes_eq hfree, List.length_map, List.length_range]
  by_cases hle : n ≤ len
  · rw [if_pos hle, if_neg (by omega), ← List.map_take, List.take_range, Nat.min_eq_left hle]
    exact List.append_nil _
  · rw [if_neg hle, if_pos (by omega)]
    dsimp only
    -- the NUL of the first loop stands in front of the zeros of the second
    rw [fillLoop_eq, List.replicate_succ, List.append_cons, storesAt_append, List.range_succ,
      List.map_append, List.map_singleton, hnul, List.length_append, List.length_map,
      List.length_range, List.length_singleton, Nat.zero_add]

/-- The first `n` bytes are the source and zeros, whatever its length. -/
theorem getD_strncpyBytes {p : Bytes} (hp : 0 ∉ p) (hi : i < n) :
    (strncpyBytes p n).getD i 0 = p.getD i 0 := by
  rw [strncpyBytes_eq hp]
  by_cases hlt : p.length < n
  · rw [if_pos hlt]
    by_cases hin : i < p.length
    · exact List.getD_append _ _ _ _ hin
    · rw [List.getD_append_right _ _ _ _ (by omega), List.getD_replicate 0 (by omega),
        List.getD_eq_default _ _ (by omega)]
  · rw [if_neg hlt, List.getD_eq_getElem _ _ (by rw [List.length_take]; omega),
      List.getElem_take, List.getD_eq_getElem]

/-- Character `i` of the source, as a list. -/
theorem getD_map_range (src : Nat → UInt8) (len i : Nat) :
    ((List.range len).map src).getD i 0 = if i < len then src i else 0 := by
  by_cases hi : i < len
  · rw [if_pos hi, List.getD_eq_getElem _ _ (by simpa using hi)]
    simp
  · rw [if_neg hi, List.getD_eq_default _ _ (by simpa using hi)]

/-- The first `n` bytes are always right. -/
theorem applyStores_strncpy (dest : Nat → UInt8) (hlen : ∀ j < len, src j ≠ 0)
    (hnul : src len = 0) (hi : i < n) :
    applyStores dest (strncpyStores src n) i = if i < min n len then src i else 0 := by
  have hfree := zero_notMem_map hlen
  have hindex : i < (strncpyBytes ((List.range len).map src) n).length := by
    rw [length_strncpyBytes hfree]
    split <;> omega
  have hcell := applyStores_storesAt dest 0 hindex
  rw [Nat.zero_add] at hcell
  rw [strncpyStores_eq hlen hnul, hcell, ← List.getD_eq_getElem _ 0, getD_strncpyBytes hfree hi,
    getD_map_range]
  exact if_congr (by omega) rfl rfl

end Loops

/-- The NUL is copied without being counted, so that the second loop writes one zero too
many behind it: a source of fewer than `n` characters reaches `dest[n]`. -/
theorem strncpy_exact_iff (dest src : Nat → UInt8) (n len : Nat) (hlen : ∀ i < len, src i ≠ 0)
    (hnul : src len = 0) : CopiesExactly dest src n len ↔ n ≤ len := by
  have hfree := zero_notMem_map hlen
  have hlength := length_strncpyBytes hfree n
  rw [List.length_map, List.length_range] at hlength
  constructor
  · rintro ⟨-, hwithin⟩
    rw [strncpyStores_eq hlen hnul] at hwithin
    by_contra hlt
    rw [if_neg hlt] at hlength
    -- store number `n` is the one behind the destination
    have hindex : n < (storesAt 0 (strncpyBytes ((List.range len).map src) n)).length := by
      rw [length_storesAt]
      omega
    have hstore := hwithin _ (List.getElem_mem hindex)
    rw [getElem_storesAt 0 hindex (by omega)] at hstore
    omega
  · intro hle
    rw [if_pos hle] at hlength
    refine ⟨fun i hi => applyStores_strncpy dest hlen hnul hi, ?_⟩
    rw [strncpyStores_eq hlen hnul]
    exact storesWithin_storesAt (by omega)

/-- Two of the three characters. -/
theorem strncpy_exact_iff_cut :
    CopiesExactly (fun _ => 255) (fun i => [97, 98, 99].getD i 0) 2 3 ↔ 2 ≤ 3 :=
  strncpy_exact_iff _ _ 2 3 (by decide) rfl

/-- The one character and three zeros fill the four bytes, and `dest[4]` is overwritten
by a fourth. -/
theorem strncpy_overruns :
    ¬ ∀ (dest src : Nat → UInt8) (n len : Nat), (∀ i < len, src i ≠ 0) → src len = 0 →
      CopiesExactly dest src n len := by
  intro h
  have hwithin := (h (fun _ => 255) (fun i => [97].getD i 0) 4 1 (by decide) rfl).2
  exact absurd (hwithin (4, 0) (by decide)) (by decide)

end AegisKernel.Vfs
