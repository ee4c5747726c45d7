import Mathlib.Data.Finmap
import AegisKernel.Vfs.Table

/-!
# VFS server — the namespace is a finite map

`directory t` is the finite map from paths to table slots that the lookups of a
table realise. The module compares every request with what it should do to that
map:

* `lookup_directory` — looking a path up in the map is `file_find`.
* `card_directory_lt_iff` — there is room in the map exactly when
  `file_find_free` finds a slot.
* `Follows` — a request does to the map, and replies, what a finite map from
  full paths would.
* `namespace_refines_iff` — a run follows the map throughout exactly when no
  CREATE stores a path of more than 63 bytes and every READ stays in its file.

A longer path is the one thing the table cannot represent: `handle_create` cuts
it off at 63 bytes, `file_find` compares all of it.
-/

namespace AegisKernel.Vfs

open Library

/-! ## The map a table realises -/

/-- A path, as a C string without its NUL. -/
abbrev Path := { p : Bytes // 0 ∉ p }

-- unfolding the path of a request would list its 512 bytes
attribute [local irreducible] Msg.path

/-- The path a request names. -/
def Msg.target (m : Msg) : Path := ⟨m.path, m.path_nul_free⟩

/-- The path under which an entry is found. -/
def FileEntry.path (f : FileEntry) : Path := ⟨cstring f.name, cstring_nul_free _⟩

/-- Paths and the slots of their files. -/
abbrev Directory := Finmap fun _ : Path => Nat

/-- The files of the slots in `is`; of two with one name, the first counts. -/
def directoryOf (t : Table) : List Nat → Directory
  | [] => ∅
  | i :: is =>
    if (t i).used then (directoryOf t is).insert (t i).path i else directoryOf t is

/-- The map the lookups of `t` realise. -/
def directory (t : Table) : Directory := directoryOf t (List.range MAX_FILES)

theorem lookup_directory (t : Table) (p : Path) : (directory t).lookup p = fileFind t p.1 := by
  unfold directory fileFind
  induction List.range MAX_FILES with
  | nil => exact Finmap.lookup_empty p
  | cons i is ih =>
    have htest := fileFind_test (t := t) (i := i) p.2
    rw [directoryOf, List.find?_cons]
    by_cases hused : (t i).used = true
    · by_cases hname : (t i).path = p
      · -- slot `i` has the name: both sides answer with it
        rw [if_pos hused, htest.mpr ⟨hused, congrArg Subtype.val hname⟩, hname,
          Finmap.lookup_insert]
      · have hno : ¬ ((t i).used && strcmp (t i).name p.1 == 0) = true := fun h =>
          hname (Subtype.ext (htest.mp h).2)
        rw [if_pos hused, Finmap.lookup_insert_of_ne _ (Ne.symm hname), ih,
          Bool.eq_false_iff.mpr hno]
    · have hno : ¬ ((t i).used && strcmp (t i).name p.1 == 0) = true := fun h =>
        hused (htest.mp h).1
      rw [if_neg hused, ih, Bool.eq_false_iff.mpr hno]

theorem mem_directory_iff (t : Table) (p : Path) : p ∈ directory t ↔ fileFind t p.1 ≠ none := by
  rw [← lookup_directory, Ne, Finmap.lookup_eq_none, not_not]

theorem target_mem_directory {t : Table} {m : Msg} {i : Nat} (h : fileFind t m.path = some i) :
    m.target ∈ directory t := by
  rw [mem_directory_iff]
  exact fun hnone => Option.some_ne_none i (h.symm.trans hnone)

theorem target_not_mem_directory {t : Table} {m : Msg} (h : fileFind t m.path = none) :
    m.target ∉ directory t := by
  rw [mem_directory_iff]
  exact fun hne => hne h

/-- Two tables with the same lookups realise the same map. -/
theorem directory_congr {t t' : Table} (h : ∀ p : Path, fileFind t' p.1 = fileFind t p.1) :
    directory t' = directory t := by
  refine Finmap.ext_lookup fun p => ?_
  rw [lookup_directory, lookup_directory, h]

/-! ## Counting files -/

section Counting

variable {t : Table}

/-- Different paths are found in different slots. -/
theorem fileFind_injOn {p q : Path} {i : Nat} (hp : fileFind t p.1 = some i)
    (hq : fileFind t q.1 = some i) : p = q :=
  Subtype.ext ((fileFind_some p.2 hp).2.2.symm.trans (fileFind_some q.2 hq).2.2)

/-- An edit of the file of one path leaves the files of other paths alone. -/
theorem setEntry_other {m : Msg} {i j : Nat} {f : FileEntry → FileEntry} {q : Path}
    (hfind : fileFind t m.path = some i) (hq : q ≠ m.target)
    (hj : (directory t).lookup q = some j) : setEntry t i f j = t j := by
  rw [lookup_directory] at hj
  refine setEntry_of_ne fun hji => hq ?_
  exact fileFind_injOn (hji ▸ hj) hfind

/-- The slots of the used entries. -/
def usedSlots (t : Table) : Finset Nat := {i ∈ Finset.range MAX_FILES | (t i).used = true}

/-- While names are distinct, the map has as many entries as slots are used. -/
theorem card_directory (hd : NamesDistinct t) :
    (directory t).keys.card = (usedSlots t).card := by
  symm
  -- used slots and paths correspond one to one
  refine Finset.card_bij (fun i _ => (t i).path) ?_ ?_ ?_
  · intro i hi
    obtain ⟨hlt, hused⟩ := Finset.mem_filter.mp hi
    have hnamed : Named t (t i).path.1 i := ⟨Finset.mem_range.mp hlt, hused, rfl⟩
    rw [Finmap.mem_keys, mem_directory_iff, (fileFind_eq_some_iff hd (t i).path.2).mpr hnamed]
    exact Option.some_ne_none i
  · intro i hi j hj hij
    obtain ⟨hlti, husedi⟩ := Finset.mem_filter.mp hi
    obtain ⟨hltj, husedj⟩ := Finset.mem_filter.mp hj
    exact hd _ i j ⟨Finset.mem_range.mp hlti, husedi, rfl⟩
      ⟨Finset.mem_range.mp hltj, husedj, (congrArg Subtype.val hij).symm⟩
  · intro p hp
    rw [Finmap.mem_keys, mem_directory_iff] at hp
    obtain ⟨i, hi⟩ := Option.ne_none_iff_exists'.mp hp
    obtain ⟨hlt, hused, hname⟩ := fileFind_some p.2 hi
    exact ⟨i, Finset.mem_filter.mpr ⟨Finset.mem_range.mpr hlt, hused⟩, Subtype.ext hname⟩

theorem card_directory_le (hd : NamesDistinct t) : (directory t).keys.card ≤ MAX_FILES := by
  rw [card_directory hd]
  exact (Finset.card_filter_le _ _).trans_eq (Finset.card_range _)

theorem card_directory_lt_iff (hd : NamesDistinct t) :
    (directory t).keys.card < MAX_FILES ↔ fileFindFree t ≠ none := by
  rw [card_directory hd, Ne, fileFindFree_eq_none_iff]
  constructor
  · intro hlt hall
    have huse : usedSlots t = Finset.range MAX_FILES :=
      Finset.filter_true_of_mem fun i hi => hall i (Finset.mem_range.mp hi)
    rw [huse, Finset.card_range] at hlt
    exact Nat.lt_irrefl _ hlt
  · intro hfree
    simp only [not_forall] at hfree
    obtain ⟨i, hi, hused⟩ := hfree
    -- a free slot is missing from the used ones
    have hsub : usedSlots t ⊂ Finset.range MAX_FILES := by
      refine Finset.filter_ssubset.mpr ⟨i, Finset.mem_range.mpr hi, hused⟩
    exact (Finset.card_lt_card hsub).trans_eq (Finset.card_range _)

end Counting

/-! ## Creating and deleting -/

section Edits

variable {t : Table} {m : Msg} {i : Nat}

/-- After a CREATE with a path of at most 63 bytes the new slot has that name. -/
theorem named_created (hf : Fields t) (hi : i < MAX_FILES) (hshort : m.path.length ≤ 63)
    {q : Bytes} {j : Nat} :
    Named (setEntry t i (created m)) q j ↔ (j = i ∧ q = m.path) ∨ (j ≠ i ∧ Named t q j) := by
  by_cases hj : j = i
  · subst hj
    have hname := (storedName_spec (hf.name_length j hi) m.path_nul_free).2
    rw [List.take_of_length_le hshort] at hname
    rw [Named, setEntry_self, created_name, hname]
    constructor
    · intro h
      exact Or.inl ⟨rfl, h.2.2.symm⟩
    · rintro (⟨-, hq⟩ | ⟨hne, -⟩)
      · exact ⟨hi, rfl, hq.symm⟩
      · exact absurd rfl hne
  · rw [Named, setEntry_of_ne hj]
    simp only [hj, false_and, false_or, ne_eq, not_false_eq_true, true_and]
    exact Iff.rfl

theorem named_deleted {q : Bytes} {j : Nat} :
    Named (setEntry t i deleted) q j ↔ j ≠ i ∧ Named t q j := by
  by_cases hj : j = i
  · subst hj
    rw [Named, setEntry_self]
    simp [deleted]
  · rw [Named, setEntry_of_ne hj]
    simp only [hj, ne_eq, not_false_eq_true, true_and]
    exact Iff.rfl

theorem namesDistinct_created (hf : Fields t) (hd : NamesDistinct t) (hi : i < MAX_FILES)
    (hshort : m.path.length ≤ 63) (hfind : fileFind t m.path = none) :
    NamesDistinct (setEntry t i (created m)) := by
  have habsent := (fileFind_eq_none_iff m.path_nul_free).mp hfind
  intro q j k hj hk
  rcases (named_created hf hi hshort).mp hj with ⟨hji, hq⟩ | ⟨-, hj⟩
  · rcases (named_created hf hi hshort).mp hk with ⟨hki, -⟩ | ⟨-, hk⟩
    · rw [hji, hki]
    · exact absurd (hq ▸ hk) (habsent k)
  · rcases (named_created hf hi hshort).mp hk with ⟨-, hq⟩ | ⟨-, hk⟩
    · exact absurd (hq ▸ hj) (habsent j)
    · exact hd q j k hj hk

theorem namesDistinct_deleted (hd : NamesDistinct t) :
    NamesDistinct (setEntry t i deleted) := by
  intro q j k hj hk
  exact hd q j k (named_deleted.mp hj).2 (named_deleted.mp hk).2

/-- Names stay distinct as long as none is cut off. -/
theorem NamesDistinct.step (hd : NamesDistinct t) (hf : Fields t)
    (hb : m.type = VFS_WRITE → InBounds m)
    (hshort : m.type = VFS_CREATE → fileFind t m.path = none → fileFindFree t ≠ none →
      m.path.length ≤ 63) : NamesDistinct (step t m) := by
  have hchange := step_change (t := t) hb
  generalize Vfs.step t m = t' at hchange ⊢
  cases hchange with
  | same => exact hd
  | write i hw hfind =>
    have hnames := setEntry_names (t := t) (i := i) (f := written m) rfl rfl
    exact fun p j k hj hk => hd p j k ((named_congr hnames).mp hj) ((named_congr hnames).mp hk)
  | create i hc hfind hfree =>
    have hfree' : fileFindFree t ≠ none := hfree ▸ Option.some_ne_none i
    exact namesDistinct_created hf hd (fileFindFree_some hfree).1 (hshort hc hfind hfree') hfind
  | delete i hdel hfind => exact namesDistinct_deleted hd
  | truncate i ht hfind =>
    have hnames := setEntry_names (t := t) (i := i) (f := truncated m) rfl rfl
    exact fun p j k hj hk => hd p j k ((named_congr hnames).mp hj) ((named_congr hnames).mp hk)

/-- Lookups of `q` agree once the entries named `q` do. -/
theorem fileFind_eq_of_named {t' : Table} (hd : NamesDistinct t) (hd' : NamesDistinct t')
    {q : Bytes} (hq : 0 ∉ q) (h : ∀ j, Named t' q j ↔ Named t q j) :
    fileFind t' q = fileFind t q := by
  refine Option.ext fun j => ?_
  rw [fileFind_eq_some_iff hd' hq, fileFind_eq_some_iff hd hq, h]

/-- A CREATE inserts its path in the map. -/
theorem directory_created (hf : Fields t) (hd : NamesDistinct t) (hshort : m.path.length ≤ 63)
    (hfind : fileFind t m.path = none) (hfree : fileFindFree t = some i) :
    directory (setEntry t i (created m)) = (directory t).insert m.target i := by
  obtain ⟨hi, hunused⟩ := fileFindFree_some hfree
  have hd' := namesDistinct_created hf hd hi hshort hfind
  refine Finmap.ext_lookup fun q => ?_
  rw [lookup_directory]
  by_cases hq : q = m.target
  · rw [hq, Finmap.lookup_insert, fileFind_eq_some_iff hd' m.target.2]
    exact (named_created hf hi hshort).mpr (Or.inl ⟨rfl, rfl⟩)
  · rw [Finmap.lookup_insert_of_ne _ hq, lookup_directory]
    refine fileFind_eq_of_named hd hd' q.2 fun j => ?_
    rw [named_created hf hi hshort]
    constructor
    · rintro (⟨-, h⟩ | ⟨-, h⟩)
      · exact absurd (Subtype.ext h) hq
      · exact h
    · intro h
      -- slot `i` was free, so it had no name before
      exact Or.inr ⟨fun hji => by simp [hji ▸ h.2.1] at hunused, h⟩

/-- A DELETE removes its path from the map. -/
theorem directory_deleted (hd : NamesDistinct t) (hfind : fileFind t m.path = some i) :
    directory (setEntry t i deleted) = (directory t).erase m.target := by
  have hd' := namesDistinct_deleted (i := i) hd
  have hnamed := fileFind_some m.path_nul_free hfind
  refine Finmap.ext_lookup fun q => ?_
  rw [lookup_directory]
  by_cases hq : q = m.target
  · rw [hq, Finmap.lookup_erase, fileFind_eq_none_iff m.target.2]
    intro j hj
    obtain ⟨hji, hj⟩ := named_deleted.mp hj
    exact hji (hd m.path j i hj hnamed)
  · rw [Finmap.lookup_erase_ne hq, lookup_directory]
    refine fileFind_eq_of_named hd hd' q.2 fun j => ?_
    rw [named_deleted]
    constructor
    · exact fun h => h.2
    · intro h
      refine ⟨fun hji => hq (Subtype.ext ?_), h⟩
      exact (hji ▸ h).2.2.symm.trans hnamed.2.2

end Edits

/-! ## What a request should do -/

/-- The request was carried out; failures reply with -1. -/
def Succeeds (r : Reply) : Prop := r.arg0 ≠ -1#64

/-- A request for file `f` in slot `i` replies from it and edits it, as its type
says. -/
def ActsOn (m : Msg) (i : Nat) (f : FileEntry) (r : Reply) (f' : FileEntry) : Prop :=
  if m.type = VFS_READ then
    f' = f ∧ r.arg0.toNat = readSize f m ∧
      ∀ k < readSize f m, r.data k = f.data (m.arg0.toNat + k)
  else if m.type = VFS_WRITE then f' = written m f ∧ r.arg0 = m.arg1
  else if m.type = VFS_TRUNCATE then f' = truncated m f
  else if m.type = VFS_STAT then
    f' = f ∧ r.arg1 = f.size ∧ r.arg2 = f.flags.setWidth 64 ∧ ∀ k, r.data k = f.name.getD k 0
  else f' = f ∧ r.arg0 = BitVec.ofNat 64 i

/-- When a request succeeds, and what becomes of the map and of its file. -/
def Outcome (t : Table) (m : Msg) (r : Reply) (t' : Table) : Prop :=
  if m.type = VFS_CREATE then
    (Succeeds r ↔ m.target ∉ directory t ∧ (directory t).keys.card < MAX_FILES) ∧
      (Succeeds r → ∃ i, directory t' = (directory t).insert m.target i ∧
        (t' i).size = 0#64 ∧ (t' i).flags = m.arg0.setWidth 32)
  else if m.type = VFS_DELETE then
    (Succeeds r ↔ m.target ∈ directory t) ∧
      (Succeeds r → directory t' = (directory t).erase m.target)
  else if m.type = VFS_READDIR then Succeeds r ∧ t' = t
  else
    (Succeeds r ↔ m.target ∈ directory t) ∧ directory t' = directory t ∧
      ∀ i, (directory t).lookup m.target = some i → ActsOn m i (t i) r (t' i)

/-- The reply and the new table are those of a finite map from full paths with
at most `MAX_FILES` entries. -/
structure FollowsMap (t : Table) (m : Msg) (r : Reply) (t' : Table) : Prop where
  distinct : NamesDistinct t'
  bounded : (directory t').keys.card ≤ MAX_FILES
  outcome : Outcome t m r t'
  /-- Files of other paths stay where and as they are. -/
  others : ∀ q ≠ m.target, (directory t').lookup q = (directory t).lookup q ∧
    ∀ i, (directory t).lookup q = some i → t' i = t i
  failed : ¬ Succeeds r → t' = t

/-- A request is answered as `FollowsMap` says. -/
def Follows (t : Table) (m : Msg) : Prop :=
  ∃ r t', handle t m = some (r, t') ∧ FollowsMap t m r t'

/-- The requests of a run: a path that ends in `msg.data`, WRITEs in bounds. -/
def Considered (m : Msg) : Prop :=
  m.type ∈ [VFS_CREATE, VFS_DELETE, VFS_TRUNCATE, VFS_STAT, VFS_OPEN, VFS_READ, VFS_WRITE,
    VFS_READDIR] ∧ m.path.length ≤ 511 ∧ (m.type = VFS_WRITE → InBounds m)

/-- No CREATE that takes a slot has a path of more than 63 bytes, and a READ of
an existing file copies a range inside the file and the reply. -/
def KeepsNamespace (t : Table) (m : Msg) : Prop :=
  (m.type = VFS_CREATE → fileFind t m.path = none → fileFindFree t ≠ none →
    m.path.length ≤ 63) ∧
  (m.type = VFS_READ → ∀ i, fileFind t m.path = some i → ReadOk (t i) m)

instance (m : Msg) : Decidable (Considered m) :=
  inferInstanceAs (Decidable (_ ∧ _ ∧ (_ → _ ∧ _)))

theorem not_succeeds_failure : ¬ Succeeds failure := fun h => h rfl

theorem succeeds_reply_zero (arg1 : Word) : Succeeds (reply 0#64 arg1) := by
  show (0#64 : Word) ≠ -1#64
  decide

theorem succeeds_of_lt {r : Reply} (h : r.arg0.toNat ≤ 4096) : Succeeds r := by
  intro heq
  rw [heq] at h
  exact absurd h (by decide)

section Requests

variable {t : Table} {m : Msg} {i : Nat}

/-- The request replies from an existing file or edits it. -/
def OnFile (m : Msg) : Prop :=
  m.type ≠ VFS_CREATE ∧ m.type ≠ VFS_DELETE ∧ m.type ≠ VFS_READDIR

theorem onFile_of_type {type : Word} (h : m.type = type)
    (htype : type ≠ VFS_CREATE ∧ type ≠ VFS_DELETE ∧ type ≠ VFS_READDIR) : OnFile m := by
  rw [OnFile, h]
  exact htype

theorem followsMap_of_edit (hd : NamesDistinct t) {r : Reply} {f : FileEntry → FileEntry}
    (hon : OnFile m) (hfind : fileFind t m.path = some i) (hr : Succeeds r)
    (hused : (f (t i)).used = (t i).used) (hname : (f (t i)).name = (t i).name)
    (hacts : ActsOn m i (t i) r (f (t i))) : FollowsMap t m r (setEntry t i f) := by
  have hsame := setEntry_names (t := t) (i := i) hused hname
  have hdir' : directory (setEntry t i f) = directory t :=
    directory_congr fun p => fileFind_congr hsame p.1
  have hd' : NamesDistinct (setEntry t i f) := fun p j k hj hk =>
    hd p j k ((named_congr hsame).mp hj) ((named_congr hsame).mp hk)
  have hmem := target_mem_directory hfind
  refine ⟨hd', card_directory_le hd', ?_, fun q hq => ⟨by rw [hdir'], ?_⟩, fun h => absurd hr h⟩
  · unfold Outcome
    rw [if_neg hon.1, if_neg hon.2.1, if_neg hon.2.2]
    refine ⟨iff_of_true hr hmem, hdir', fun j hj => ?_⟩
    rw [lookup_directory] at hj
    obtain rfl : i = j := Option.some_inj.mp (hfind.symm.trans hj)
    rw [setEntry_self]
    exact hacts
  · exact fun j hj => setEntry_other hfind hq hj

/-- A request on an absent path fails and changes nothing. -/
theorem followsMap_of_absent (hd : NamesDistinct t) (hc : m.type ≠ VFS_CREATE)
    (hdir : m.type ≠ VFS_READDIR) (hfind : fileFind t m.path = none) :
    FollowsMap t m failure t := by
  have hmem := target_not_mem_directory hfind
  have hiff := iff_of_false not_succeeds_failure hmem
  refine ⟨hd, card_directory_le hd, ?_, fun q _ => ⟨rfl, fun _ _ => rfl⟩, fun _ => rfl⟩
  unfold Outcome
  rw [if_neg hc]
  by_cases hdel : m.type = VFS_DELETE
  · rw [if_pos hdel]
    exact ⟨hiff, fun h => absurd h not_succeeds_failure⟩
  · rw [if_neg hdel, if_neg hdir]
    refine ⟨hiff, rfl, fun i hi => ?_⟩
    rw [lookup_directory] at hi
    exact absurd (hfind.symm.trans hi) (Option.some_ne_none i).symm

theorem followsMap_create (hf : Fields t) (hd : NamesDistinct t) (hc : m.type = VFS_CREATE)
    (hfind : fileFind t m.path = none) (hfree : fileFindFree t = some i)
    (hshort : m.path.length ≤ 63) :
    FollowsMap t m (reply 0#64 0#64) (setEntry t i (created m)) := by
  obtain ⟨hi, hunused⟩ := fileFindFree_some hfree
  have hd' := namesDistinct_created hf hd hi hshort hfind
  have hdir := directory_created hf hd hshort hfind hfree
  have hsucc := succeeds_reply_zero 0#64
  have habsent := target_not_mem_directory hfind
  have hroom : (directory t).keys.card < MAX_FILES := by
    rw [card_directory_lt_iff hd, hfree]
    exact Option.some_ne_none i
  refine ⟨hd', card_directory_le hd', ?_, fun q hq => ⟨?_, ?_⟩, fun h => absurd hsucc h⟩
  · unfold Outcome
    rw [if_pos hc]
    refine ⟨iff_of_true hsucc ⟨habsent, hroom⟩, fun _ => ⟨i, hdir, ?_, ?_⟩⟩
    · rw [setEntry_self]
      rfl
    · rw [setEntry_self]
      rfl
  · rw [hdir, Finmap.lookup_insert_of_ne _ hq]
  · -- the slot taken was nobody's
    intro j hj
    rw [lookup_directory] at hj
    refine setEntry_of_ne fun hji => ?_
    have hused := (fileFind_some q.2 hj).2.1
    rw [hji, hunused] at hused
    exact Bool.false_ne_true hused

theorem followsMap_create_failed (hd : NamesDistinct t) (hc : m.type = VFS_CREATE)
    (hfail : fileFind t m.path ≠ none ∨ fileFindFree t = none) : FollowsMap t m failure t := by
  refine ⟨hd, card_directory_le hd, ?_, fun q _ => ⟨rfl, fun _ _ => rfl⟩, fun _ => rfl⟩
  unfold Outcome
  rw [if_pos hc]
  refine ⟨iff_of_false not_succeeds_failure ?_, fun h => absurd h not_succeeds_failure⟩
  rw [mem_directory_iff, card_directory_lt_iff hd]
  rintro ⟨habsent, hroom⟩
  rcases hfail with hfind | hfree
  · exact habsent hfind
  · exact hroom hfree

theorem followsMap_delete (hd : NamesDistinct t) (hdel : m.type = VFS_DELETE)
    (hfind : fileFind t m.path = some i) :
    FollowsMap t m (reply 0#64 0#64) (setEntry t i deleted) := by
  have hd' := namesDistinct_deleted (i := i) hd
  have hdir := directory_deleted hd hfind
  have hsucc := succeeds_reply_zero 0#64
  have hc : m.type ≠ VFS_CREATE := by
    rw [hdel]
    decide
  have hmem := target_mem_directory hfind
  refine ⟨hd', card_directory_le hd', ?_, fun q hq => ⟨?_, ?_⟩, fun h => absurd hsucc h⟩
  · unfold Outcome
    rw [if_neg hc, if_pos hdel]
    exact ⟨iff_of_true hsucc hmem, fun _ => hdir⟩
  · rw [hdir, Finmap.lookup_erase_ne hq]
  · exact fun j hj => setEntry_other hfind hq hj

/-- A request on an existing path that only replies. -/
theorem followsMap_of_reply (hd : NamesDistinct t) {r : Reply} (hon : OnFile m)
    (hfind : fileFind t m.path = some i) (hr : Succeeds r)
    (hacts : ActsOn m i (t i) r (t i)) : FollowsMap t m r t := by
  have hsame : setEntry t i id = t := Function.update_eq_self i t
  have h := followsMap_of_edit (f := id) hd hon hfind hr rfl rfl hacts
  rwa [hsame] at h

theorem follows_read (hf : Fields t) (hd : NamesDistinct t) (hr : m.type = VFS_READ)
    (hok : ∀ i, fileFind t m.path = some i → ReadOk (t i) m) : Follows t m := by
  have hon : OnFile m := onFile_of_type hr (by decide)
  rcases hfind : fileFind t m.path with _ | i
  · exact ⟨_, _, (handle_read hr).trans (handleRead_none hfind),
      followsMap_of_absent hd hon.1 hon.2.2 hfind⟩
  · have hsize := hf.size_le i (fileFind_some m.path_nul_free hfind).1
    obtain ⟨r, hres, harg0, -, hdata⟩ := handleRead_some hfind hsize (hok i hfind)
    have hle : readSize (t i) m ≤ 4096 := (Nat.min_le_right _ _).trans (by omega)
    have hcount : r.arg0.toNat = readSize (t i) m := by
      rw [harg0, BitVec.toNat_ofNat]
      omega
    refine ⟨r, t, (handle_read hr).trans hres, ?_⟩
    refine followsMap_of_reply hd hon hfind (succeeds_of_lt (hcount ▸ hle)) ?_
    unfold ActsOn
    rw [if_pos hr]
    refine ⟨rfl, hcount, fun k hk => ?_⟩
    rw [hdata, copyInto, if_pos ⟨Nat.zero_le k, by omega⟩]
    rfl

theorem follows_write (hd : NamesDistinct t) (hw : m.type = VFS_WRITE) (hb : InBounds m) :
    Follows t m := by
  have hon : OnFile m := onFile_of_type hw (by decide)
  rcases hfind : fileFind t m.path with _ | i
  · exact ⟨_, _, (handle_write hw).trans (handleWrite_none hfind),
      followsMap_of_absent hd hon.1 hon.2.2 hfind⟩
  · refine ⟨_, _, (handle_write hw).trans (handleWrite_some hfind hb), ?_⟩
    have hsmall : (reply m.arg1 0#64).arg0.toNat ≤ 4096 := hb.2.trans (by omega)
    refine followsMap_of_edit hd hon hfind (succeeds_of_lt hsmall) rfl rfl ?_
    unfold ActsOn
    rw [if_neg (by rw [hw]; decide), if_pos hw]
    exact ⟨rfl, rfl⟩

theorem follows_truncate (hd : NamesDistinct t) (ht : m.type = VFS_TRUNCATE) : Follows t m := by
  have hon : OnFile m := onFile_of_type ht (by decide)
  rcases hfind : fileFind t m.path with _ | i
  · exact ⟨_, _, (handle_truncate ht).trans (congrArg some (handleTruncate_none hfind)),
      followsMap_of_absent hd hon.1 hon.2.2 hfind⟩
  · refine ⟨_, _, (handle_truncate ht).trans (congrArg some (handleTruncate_some hfind)), ?_⟩
    refine followsMap_of_edit hd hon hfind (succeeds_reply_zero _) rfl rfl ?_
    unfold ActsOn
    rw [if_neg (by rw [ht]; decide), if_neg (by rw [ht]; decide), if_pos ht]

theorem follows_stat (hd : NamesDistinct t) (hs : m.type = VFS_STAT) : Follows t m := by
  have hon : OnFile m := onFile_of_type hs (by decide)
  have hres : handle t m = some (handleStat t m) := handle_stat hs
  rcases hfind : fileFind t m.path with _ | i
  · refine ⟨_, _, hres.trans (congrArg some ?_), followsMap_of_absent hd hon.1 hon.2.2 hfind⟩
    unfold handleStat
    rw [hfind]
  · have hstat : handleStat t m = ({ reply 0#64 (t i).size with
        arg2 := (t i).flags.setWidth 64
        data := fun i_1 => (t i).name.getD i_1 0 }, t) := by
      unfold handleStat
      rw [hfind]
    refine ⟨_, _, hres.trans (congrArg some hstat), ?_⟩
    refine followsMap_of_reply hd hon hfind ?_ ?_
    · exact succeeds_reply_zero 0#64
    · unfold ActsOn
      rw [if_neg (by rw [hs]; decide), if_neg (by rw [hs]; decide), if_neg (by rw [hs]; decide),
        if_pos hs]
      exact ⟨rfl, rfl, rfl, fun _ => rfl⟩

theorem follows_open (hd : NamesDistinct t) (ho : m.type = VFS_OPEN) : Follows t m := by
  have hon : OnFile m := onFile_of_type ho (by decide)
  have hres : handle t m = some (handleOpen t m) := handle_open ho
  rcases hfind : fileFind t m.path with _ | i
  · refine ⟨_, _, hres.trans (congrArg some ?_), followsMap_of_absent hd hon.1 hon.2.2 hfind⟩
    unfold handleOpen
    rw [hfind]
  · have hopen : handleOpen t m = (reply (BitVec.ofNat 64 i) 0#64, t) := by
      unfold handleOpen
      rw [hfind]
    have hi : i < 64 := (fileFind_some m.path_nul_free hfind).1
    refine ⟨_, _, hres.trans (congrArg some hopen), ?_⟩
    refine followsMap_of_reply hd hon hfind (succeeds_of_lt ?_) ?_
    · show (BitVec.ofNat 64 i).toNat ≤ 4096
      rw [BitVec.toNat_ofNat]
      omega
    · unfold ActsOn
      rw [if_neg (by rw [ho]; decide), if_neg (by rw [ho]; decide), if_neg (by rw [ho]; decide),
        if_neg (by rw [ho]; decide)]
      exact ⟨rfl, rfl⟩

theorem length_readdirLoop_le (is : List Nat) (out : Bytes) (h : out.length ≤ 512) :
    (readdirLoop t is out).length ≤ 512 := by
  induction is generalizing out with
  | nil => exact h
  | cons i is ih =>
    rw [readdirLoop]
    by_cases hused : (t i).used = true
    · rw [if_pos hused]
      dsimp only
      by_cases hfull : out.length + (cstring (t i).name).length + 2 ≥ 512
      · rw [if_pos hfull]
        exact h
      · rw [if_neg hfull]
        refine ih _ ?_
        simp only [List.length_append, List.length_cons, List.length_nil]
        omega
    · rw [if_neg hused]
      exact ih out h

theorem follows_readdir (hd : NamesDistinct t) (hl : m.type = VFS_READDIR) : Follows t m := by
  have hres : handle t m = some (handleReaddir t m) := handle_readdir hl
  have hsucc : Succeeds (handleReaddir t m).1 := by
    refine succeeds_of_lt ?_
    have hlen := length_readdirLoop_le (t := t) (List.range MAX_FILES) [] (Nat.zero_le _)
    show (BitVec.ofNat 64 (readdirLoop t (List.range MAX_FILES) []).length).toNat ≤ 4096
    rw [BitVec.toNat_ofNat]
    omega
  refine ⟨_, t, hres, hd, card_directory_le hd, ?_, fun q _ => ⟨rfl, fun _ _ => rfl⟩, fun _ => rfl⟩
  unfold Outcome
  rw [if_neg (by rw [hl]; decide), if_neg (by rw [hl]; decide), if_pos hl]
  exact ⟨hsucc, rfl⟩

theorem follows_create (hf : Fields t) (hd : NamesDistinct t) (hc : m.type = VFS_CREATE)
    (hshort : fileFind t m.path = none → fileFindFree t ≠ none → m.path.length ≤ 63) :
    Follows t m := by
  by_cases hfail : fileFind t m.path ≠ none ∨ fileFindFree t = none
  · exact ⟨_, _, (handle_create hc).trans (congrArg some (handleCreate_failed hfail)),
      followsMap_create_failed hd hc hfail⟩
  · obtain ⟨hfind, hfree⟩ := not_or.mp hfail
    have hfind := not_not.mp hfind
    obtain ⟨i, hi⟩ := Option.ne_none_iff_exists'.mp hfree
    exact ⟨_, _, (handle_create hc).trans (congrArg some (handleCreate_some hfind hi)),
      followsMap_create hf hd hc hfind hi (hshort hfind hfree)⟩

theorem follows_delete (hd : NamesDistinct t) (hdel : m.type = VFS_DELETE) : Follows t m := by
  rcases hfind : fileFind t m.path with _ | i
  · exact ⟨_, _, (handle_delete hdel).trans (congrArg some (handleDelete_none hfind)),
      followsMap_of_absent hd (by rw [hdel]; decide) (by rw [hdel]; decide) hfind⟩
  · exact ⟨_, _, (handle_delete hdel).trans (congrArg some (handleDelete_some hfind)),
      followsMap_delete hd hdel hfind⟩

theorem follows_of_keepsNamespace (hf : Fields t) (hd : NamesDistinct t) (hm : Considered m)
    (hk : KeepsNamespace t m) : Follows t m := by
  obtain ⟨htype, -, hb⟩ := hm
  simp only [List.mem_cons, List.not_mem_nil, or_false] at htype
  -- one handler each
  rcases htype with h | h | h | h | h | h | h | h
  · exact follows_create hf hd h (hk.1 h)
  · exact follows_delete hd h
  · exact follows_truncate hd h
  · exact follows_stat hd h
  · exact follows_open hd h
  · exact follows_read hf hd h (hk.2 h)
  · exact follows_write hd h (hb h)
  · exact follows_readdir hd h

/-- A CREATE that stores a longer path succeeds, but the path is not found. -/
theorem not_follows_of_long_path (hf : Fields t) (hc : m.type = VFS_CREATE)
    (hfind : fileFind t m.path = none) (hfree : fileFindFree t = some i)
    (hlong : 63 < m.path.length) : ¬ Follows t m := by
  rintro ⟨r, t', hres, hfollows⟩
  have hf' : Fields t' := step_of_handle hres ▸ hf.step m
  have hcreate := (handle_create hc).trans (congrArg some (handleCreate_some hfind hfree))
  have hreply : reply 0#64 0#64 = r :=
    congrArg Prod.fst (Option.some_inj.mp (hcreate.symm.trans hres))
  have hout := hfollows.outcome
  unfold Outcome at hout
  rw [if_pos hc] at hout
  have hsucc : Succeeds r := hreply ▸ succeeds_reply_zero 0#64
  obtain ⟨j, hdir, -, -⟩ := hout.2 hsucc
  -- the map says the path is there, so some entry has a name of 64 bytes or more
  have hfound : fileFind t' m.path = some j := by
    have h := lookup_directory t' m.target
    rw [hdir, Finmap.lookup_insert] at h
    exact h.symm
  obtain ⟨hj, -, hname⟩ := fileFind_some m.path_nul_free hfound
  have hle := hf'.name_short j hj
  rw [hname] at hle
  omega

theorem keepsNamespace_of_follows (hf : Fields t) (h : Follows t m) : KeepsNamespace t m := by
  refine ⟨fun hc hfind hfree => ?_, fun hr i hfind => ?_⟩
  · obtain ⟨i, hi⟩ := Option.ne_none_iff_exists'.mp hfree
    by_contra hlong
    exact not_follows_of_long_path hf hc hfind hi (Nat.lt_of_not_le hlong) h
  · obtain ⟨r, t', hres, -⟩ := h
    by_contra hbad
    have hsize := hf.size_le i (fileFind_some m.path_nul_free hfind).1
    rw [handle_read hr, handleRead_fault hfind hsize hbad] at hres
    exact absurd hres.symm (Option.some_ne_none _)

theorem follows_iff (hf : Fields t) (hd : NamesDistinct t) (hm : Considered m) :
    Follows t m ↔ KeepsNamespace t m :=
  ⟨keepsNamespace_of_follows hf, follows_of_keepsNamespace hf hd hm⟩

end Requests

/-- A run from `t` starts with a proper map and follows it at every step. -/
def RefinesMap (t : Table) (ms : List Msg) : Prop :=
  NamesDistinct t ∧ (directory t).keys.card ≤ MAX_FILES ∧ Meets step Follows t ms

/-- **The namespace refines a finite map.** A run of requests on the initial
table follows the map at every step exactly when every CREATE that takes a slot
has a path of at most 63 bytes and every READ of an existing file stays inside
the file and the reply. -/
theorem namespace_refines_iff (ms : List Msg) (hms : ∀ m ∈ ms, Considered m) :
    RefinesMap vfsInitRamfs ms ↔ Meets step KeepsNamespace vfsInitRamfs ms := by
  have hdomain : Meets step (fun _ m => Considered m) vfsInitRamfs ms :=
    meets_of_forall fun m hm _ => hms m hm
  -- names are distinct in every state reached, by the steps before
  have hexact : ∀ t m, Fields t ∧ NamesDistinct t → Considered m →
      (Follows t m ↔ KeepsNamespace t m) := fun t m hinv hm => follows_iff hinv.1 hinv.2 hm
  have hkeep : ∀ t m, Fields t ∧ NamesDistinct t → Considered m → KeepsNamespace t m →
      Fields (step t m) ∧ NamesDistinct (step t m) := by
    intro t m hinv hm hk
    exact ⟨hinv.1.step m, hinv.2.step hinv.1 hm.2.2 hk.1⟩
  have hdistinct := namesDistinct_vfsInitRamfs
  have hiff := meets_congr hexact hkeep ⟨fields_vfsInitRamfs, hdistinct⟩ hdomain
  exact ⟨fun h => hiff.mp h.2.2, fun h => ⟨hdistinct, card_directory_le hdistinct, hiff.mpr h⟩⟩

def createNotes : Msg := request VFS_CREATE 0#64 0#64 (ascii ['/', 'n', 'o', 't', 'e', 's'])

def readVersion : Msg := request VFS_READ 0#64 15#64 versionName

theorem namespace_refines_createNotes :
    (∀ m ∈ [createNotes, readVersion], Considered m) ∧
      Meets step KeepsNamespace vfsInitRamfs [createNotes, readVersion] ∧
      RefinesMap vfsInitRamfs [createNotes, readVersion] := by
  have hms : ∀ m ∈ [createNotes, readVersion], Considered m := by decide +kernel
  have hcreate : KeepsNamespace vfsInitRamfs createNotes :=
    ⟨fun _ _ _ => by decide +kernel, fun h => absurd h (by decide)⟩
  have hread : KeepsNamespace (step vfsInitRamfs createNotes) readVersion := by
    have hfind : fileFind (step vfsInitRamfs createNotes) readVersion.path = some 2 := by
      decide +kernel
    refine ⟨fun h => absurd h (by decide), fun _ i hi => ?_⟩
    obtain rfl : 2 = i := Option.some_inj.mp (hfind.symm.trans hi)
    decide +kernel
  have hkeeps : Meets step KeepsNamespace vfsInitRamfs [createNotes, readVersion] :=
    ⟨hcreate, hread, trivial⟩
  exact ⟨hms, hkeeps, (namespace_refines_iff _ hms).mpr hkeeps⟩

/-- A path of 64 bytes. -/
def longPath : Bytes := List.replicate 64 97

def createLong : Msg := request VFS_CREATE 0#64 0#64 longPath

def openLong : Msg := request VFS_OPEN 0#64 0#64 longPath

/-- The CREATE of a path of 64 bytes succeeds, the OPEN of that path then fails. -/
theorem long_path_lost :
    (∀ m ∈ [createLong, openLong], Considered m) ∧
    ¬ RefinesMap vfsInitRamfs [createLong, openLong] ∧
    ∃ r t', handle vfsInitRamfs createLong = some (r, t') ∧ Succeeds r ∧
      ∃ r', handle t' openLong = some (r', t') ∧ ¬ Succeeds r' := by
  have hfind : fileFind vfsInitRamfs createLong.path = none := by decide +kernel
  have hfree : fileFindFree vfsInitRamfs = some 3 := by decide +kernel
  have hlost : fileFind (setEntry vfsInitRamfs 3 (created createLong)) openLong.path = none := by
    decide +kernel
  refine ⟨by decide +kernel, fun h => ?_, ?_⟩
  · have hlong : 63 < createLong.path.length := by decide +kernel
    exact not_follows_of_long_path fields_vfsInitRamfs rfl hfind hfree hlong h.2.2.1
  · refine ⟨_, _, (handle_create rfl).trans (congrArg some (handleCreate_some hfind hfree)),
      succeeds_reply_zero _, failure, ?_, not_succeeds_failure⟩
    have hopen : handleOpen (setEntry vfsInitRamfs 3 (created createLong)) openLong =
        (failure, setEntry vfsInitRamfs 3 (created createLong)) := by
      unfold handleOpen
      rw [hlost]
    exact (handle_open rfl).trans (congrArg some hopen)

end AegisKernel.Vfs
