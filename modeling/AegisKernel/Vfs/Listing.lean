import AegisKernel.Library.Prefixes
import AegisKernel.Library.Stores
import AegisKernel.Vfs.Table

/-!
# VFS server — what READDIR lists

`handle_readdir` puts one line for each used entry into the reply, and stops at the
first that would leave no room for the NUL behind them.

* `usedNames t`, `listing ns` — the names in slot order, and the lines for names.
* `readdirLoop_eq` — the loop takes names as long as their lines fit (`fitting`).
* `readdirStores` — the stores of the function into the reply, in order;
  `readdirStores_eq` says that they are the lines and a NUL.
* `readdir_longest_prefix` — the lines of the longest prefix of at most 510 bytes.
-/

namespace AegisKernel.Vfs

open Library

/-- The names of these slots, as far as they are used. -/
def namesOf (t : Table) (is : List Nat) : List Bytes :=
  (is.filter fun i => (t i).used).map fun i => cstring (t i).name

/-- The names of the used entries in slot order. -/
def usedNames (t : Table) : List Bytes := namesOf t (List.range MAX_FILES)

/-- One line for each name. -/
def listing (ns : List Bytes) : Bytes := ns.flatMap fun n => n ++ [10]

/-- The length of a line. -/
def lineLength (n : Bytes) : Nat := n.length + 1

/-- The stores of `handle_readdir` into `reply.data` from a slot on. -/
def readdirStores (t : Table) : List Nat → Nat → List (Nat × UInt8)
  | [], written => [(written, 0)]
  | i :: is, written =>
    if (t i).used then
      let name := cstring (t i).name
      if written + name.length + 2 ≥ 512 then [(written, 0)]
      else
        storesAt written name ++
          (written + name.length, 10) :: readdirStores t is (written + name.length + 1)
    else readdirStores t is written

section Loop

variable {t : Table} {i : Nat} {is : List Nat} {ns : List Bytes} {out : Bytes}

theorem listing_cons (n : Bytes) (ns : List Bytes) :
    listing (n :: ns) = n ++ 10 :: listing ns := by
  rw [listing, List.flatMap_cons, List.append_assoc, List.singleton_append, listing]

theorem length_listing (ns : List Bytes) : (listing ns).length = (ns.map lineLength).sum := by
  induction ns with
  | nil => rfl
  | cons n ns ih =>
    rw [listing_cons, List.length_append, List.length_cons, ih, List.map_cons, List.sum_cons,
      lineLength]
    omega

theorem namesOf_cons_used (h : (t i).used = true) :
    namesOf t (i :: is) = cstring (t i).name :: namesOf t is := by
  simp [namesOf, h]

theorem namesOf_cons_unused (h : ¬ (t i).used = true) : namesOf t (i :: is) = namesOf t is := by
  simp [namesOf, h]

/-- The loop adds the lines that fit, with a byte to spare for the NUL. -/
theorem readdirLoop_eq (hout : out.length ≤ 510) :
    readdirLoop t is out =
      out ++ listing (fitting lineLength (510 - out.length) (namesOf t is)) := by
  induction is generalizing out with
  | nil => exact (List.append_nil out).symm
  | cons i is ih =>
    rw [readdirLoop]
    by_cases hused : (t i).used = true
    · rw [if_pos hused, namesOf_cons_used hused]
      set name := cstring (t i).name
      by_cases hfull : out.length + name.length + 2 ≥ 512
      · have hline : 510 - out.length < lineLength name := by
          unfold lineLength
          omega
        rw [if_pos hfull, fitting_cons_of_lt hline]
        exact (List.append_nil out).symm
      · have hline : lineLength name ≤ 510 - out.length := by
          unfold lineLength
          omega
        have hlen : (out ++ name ++ [10]).length = out.length + lineLength name := by
          simp [lineLength]
        rw [if_neg hfull, ih (by omega), hlen, fitting_cons_of_le hline, Nat.sub_add_eq,
          listing_cons]
        simp
    · rw [if_neg hused, namesOf_cons_unused hused]
      exact ih hout

/-- The stores are those lines one behind the other, and the NUL. -/
theorem readdirStores_eq (hi : i ≤ 510) :
    readdirStores t is i =
      storesAt i (listing (fitting lineLength (510 - i) (namesOf t is)) ++ [0]) := by
  induction is generalizing i with
  | nil => rfl
  | cons j is ih =>
    rw [readdirStores]
    by_cases hused : (t j).used = true
    · rw [if_pos hused, namesOf_cons_used hused]
      set name := cstring (t j).name
      by_cases hfull : i + name.length + 2 ≥ 512
      · have hline : 510 - i < lineLength name := by
          unfold lineLength
          omega
        rw [if_pos hfull, fitting_cons_of_lt hline]
        rfl
      · have hline : lineLength name ≤ 510 - i := by
          unfold lineLength
          omega
        have hrest : 510 - i - lineLength name = 510 - (i + name.length + 1) := by
          unfold lineLength
          omega
        rw [if_neg hfull, ih (by omega), fitting_cons_of_le hline, hrest, listing_cons,
          List.append_assoc, storesAt_append i name, List.cons_append, storesAt]
    · rw [if_neg hused, namesOf_cons_unused hused]
      exact ih hi

end Loop

/-- The reply holds the lines of the longest prefix that fits into 510 bytes. -/
theorem readdir_longest_prefix (t : Table) (m : Msg) :
    ∃ ns, ns <+: usedNames t ∧ (listing ns).length ≤ 510 ∧
      (∀ ns', ns' <+: usedNames t → (listing ns').length ≤ 510 → ns' <+: ns) ∧
      ((List.range ((listing ns).length + 1)).map (handleReaddir t m).1.data =
        listing ns ++ [0]) ∧
      (handleReaddir t m).1.arg0.toNat = (listing ns).length ∧
      (handleReaddir t m).1.data =
        applyStores (fun _ => 0) (readdirStores t (List.range MAX_FILES) 0) ∧
      StoresWithin 512 (readdirStores t (List.range MAX_FILES) 0) ∧
      (ns = usedNames t ↔ (listing (usedNames t)).length ≤ 510) := by
  set ns := fitting lineLength 510 (usedNames t) with hns
  have hfits : (listing ns).length ≤ 510 := by
    rw [length_listing]
    exact sum_fitting_le
  have hloop : readdirLoop t (List.range MAX_FILES) [] = listing ns :=
    readdirLoop_eq (Nat.zero_le 510)
  have hstores : readdirStores t (List.range MAX_FILES) 0 = storesAt 0 (listing ns ++ [0]) :=
    readdirStores_eq (Nat.zero_le 510)
  -- the NUL changes nothing in a cleared reply
  have hdata : (handleReaddir t m).1.data = fun i => (listing ns ++ [0]).getD i 0 := by
    funext i
    show (readdirLoop t (List.range MAX_FILES) []).getD i 0 = _
    rw [hloop]
    rcases Nat.lt_trichotomy i (listing ns).length with hi | rfl | hi
    · rw [List.getD_append _ _ _ _ hi]
    · simp
    · rw [List.getD_eq_default _ _ (by omega), List.getD_eq_default _ _ (by simp; omega)]
  refine ⟨ns, fitting_prefix, hfits, ?_, ?_, ?_, ?_, ?_, ?_⟩
  · intro ns' hpre hle
    rw [length_listing] at hle
    exact prefix_fitting hpre hle
  · rw [hdata]
    apply List.ext_getElem (by simp)
    intro i hi hi'
    rw [List.getElem_map, List.getElem_range, List.getD_eq_getElem _ _ hi']
  · show (BitVec.ofNat 64 (readdirLoop t (List.range MAX_FILES) []).length).toNat = _
    rw [hloop, BitVec.toNat_ofNat]
    omega
  · rw [hdata, hstores, applyStores_blank]
  · rw [hstores]
    refine storesWithin_storesAt ?_
    rw [List.length_append, List.length_singleton]
    omega
  · rw [length_listing]
    exact fitting_eq_self_iff

end AegisKernel.Vfs
