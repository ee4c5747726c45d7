import AegisKernel.Vfs.FileSystem

/-!
# VFS — what one path's user learns of the others

Seen from one path, requests on other paths are hidden unless they create or
delete files: those change how many there are, and a CREATE can tell. As an
unwinding over file systems: two of them look alike from `p` if they have the
same paths and the same file at `p`.

`paths_isolated`: the replies about `p` do not depend on what is read from,
written to or cut off other files.
-/

namespace AegisKernel.Vfs

open Library

/-- A request on another path that neither creates nor deletes. -/
def elsewhere (p : Path) (m : Msg) : Bool :=
  m.target ≠ p && m.type ≠ VFS_CREATE && m.type ≠ VFS_DELETE

/-- The same paths, and the same file at `p`. -/
def SameAt (p : Path) (fs fs' : FileSystem) : Prop :=
  fs.paths = fs'.paths ∧ fs.lookup p = fs'.lookup p

section Requests

variable {fs fs' : FileSystem} {p q : Path} {m : Msg} {f f' : File}

theorem SameAt.symm (h : SameAt p fs fs') : SameAt p fs' fs := ⟨h.1.symm, h.2.symm⟩

theorem SameAt.trans {fs'' : FileSystem} (h : SameAt p fs fs') (h' : SameAt p fs' fs'') :
    SameAt p fs fs'' := ⟨h.1.trans h'.1, h.2.trans h'.2⟩

/-- Replacing another file. -/
theorem sameAt_insert (hq : p ≠ q) (hf : fs.lookup q = some f) : SameAt p (fs.insert q f') fs := by
  have hmem : q ∈ fs.paths := (fs.mem_paths q).mpr (by simp [hf])
  exact ⟨Finset.insert_eq_of_mem hmem, Function.update_of_ne hq _ _⟩

/-- A hidden request. -/
theorem sameAt_respond (h : elsewhere p m = true) : SameAt p (fs.respond m).2 fs := by
  rw [elsewhere, Bool.and_eq_true, Bool.and_eq_true, decide_eq_true_iff, decide_eq_true_iff,
    decide_eq_true_iff] at h
  obtain ⟨⟨hp, hcreate⟩, hdelete⟩ := h
  rw [FileSystem.respond, if_neg hcreate]
  split
  case isTrue => exact ⟨rfl, rfl⟩
  case isFalse =>
    cases hf : fs.lookup m.target with
    | none => exact ⟨rfl, rfl⟩
    | some f =>
      dsimp only
      rw [FileSystem.respondFile, if_neg hdelete]
      split
      · exact ⟨rfl, rfl⟩
      split
      · exact sameAt_insert hp.symm hf
      split
      · exact sameAt_insert hp.symm hf
      split
      · exact ⟨rfl, rfl⟩
      · exact ⟨rfl, rfl⟩

/-- The file stays or is replaced at its path, or is deleted. -/
theorem respondFile_sameAt (h : SameAt p fs fs') (f : File) :
    (fs.respondFile p f m).1 = (fs'.respondFile p f m).1 ∧
      SameAt p (fs.respondFile p f m).2 (fs'.respondFile p f m).2 := by
  have hinsert : ∀ g, SameAt p (fs.insert p g) (fs'.insert p g) := by
    intro g
    refine ⟨?_, ?_⟩
    · rw [FileSystem.insert_paths, FileSystem.insert_paths, h.1]
    · rw [FileSystem.insert_lookup, FileSystem.insert_lookup, Function.update_self,
        Function.update_self]
  have herase : SameAt p (fs.erase p) (fs'.erase p) := by
    refine ⟨?_, ?_⟩
    · rw [FileSystem.erase_paths, FileSystem.erase_paths, h.1]
    · rw [FileSystem.erase_lookup, FileSystem.erase_lookup, Function.update_self,
        Function.update_self]
  unfold FileSystem.respondFile
  split
  · exact ⟨rfl, herase⟩
  split
  · exact ⟨rfl, h⟩
  split
  · exact ⟨rfl, hinsert _⟩
  split
  · exact ⟨rfl, hinsert _⟩
  split
  · exact ⟨rfl, h⟩
  · exact ⟨rfl, h⟩

/-- A visible request is answered alike. -/
theorem respond_sameAt (h : SameAt p fs fs') (hm : elsewhere p m = false) :
    (fs.respond m).1 = (fs'.respond m).1 ∧ SameAt p (fs.respond m).2 (fs'.respond m).2 := by
  by_cases hcreate : m.type = VFS_CREATE
  · rw [FileSystem.respond, FileSystem.respond, if_pos hcreate, if_pos hcreate, h.1]
    split
    case isFalse => exact ⟨rfl, h⟩
    case isTrue =>
      refine ⟨rfl, ?_, ?_⟩
      · rw [FileSystem.insert_paths, FileSystem.insert_paths, h.1]
      · rw [FileSystem.insert_lookup, FileSystem.insert_lookup]
        by_cases hp : p = m.target
        · rw [hp, Function.update_self, Function.update_self]
        · rw [Function.update_of_ne hp, Function.update_of_ne hp, h.2]
  rw [FileSystem.respond, FileSystem.respond, if_neg hcreate, if_neg hcreate]
  by_cases hdir : m.type = VFS_READDIR
  · rw [if_pos hdir, if_pos hdir]
    exact ⟨rfl, h⟩
  rw [if_neg hdir, if_neg hdir]
  by_cases hp : m.target = p
  · rw [hp, h.2]
    cases fs'.lookup p with
    | none => exact ⟨rfl, h⟩
    | some f => exact respondFile_sameAt h f
  · -- a DELETE of another path: there or not there on both sides
    have hdelete : m.type = VFS_DELETE := by
      by_contra hne
      simp [elsewhere, hp, hcreate, hne] at hm
    have hpresent : fs.lookup m.target ≠ none ↔ fs'.lookup m.target ≠ none := by
      rw [← fs.mem_paths, ← fs'.mem_paths, h.1]
    cases hf : fs.lookup m.target with
    | none =>
      have hf' : fs'.lookup m.target = none := by
        by_contra hne
        exact hpresent.mpr hne hf
      rw [hf']
      exact ⟨rfl, h⟩
    | some f =>
      have hne : fs'.lookup m.target ≠ none := hpresent.mp (by simp [hf])
      obtain ⟨f', hf'⟩ := Option.ne_none_iff_exists'.mp hne
      rw [hf']
      dsimp only
      rw [FileSystem.respondFile, FileSystem.respondFile, if_pos hdelete, if_pos hdelete]
      refine ⟨rfl, ?_, ?_⟩
      · rw [FileSystem.erase_paths, FileSystem.erase_paths, h.1]
      · have hne' : p ≠ m.target := fun h => hp h.symm
        rw [FileSystem.erase_lookup, FileSystem.erase_lookup, Function.update_of_ne hne',
          Function.update_of_ne hne', h.2]

end Requests

theorem unwinding_paths (p : Path) :
    Unwinding FileSystem.respond (elsewhere p) (SameAt p) where
  left _ _ _ h hm := (sameAt_respond hm).trans h
  right _ _ _ h hm := h.trans (sameAt_respond hm).symm
  reply _ _ _ h hm := (respond_sameAt h hm).1
  next _ _ _ h hm := (respond_sameAt h hm).2

theorem seen_map {α ρ τ : Type} (hidden : α → Bool) (g : ρ → τ) (cs : List (α × ρ)) :
    seen hidden (cs.map fun ca => (ca.1, g ca.2)) =
      (seen hidden cs).map fun ca => (ca.1, g ca.2) := by
  rw [seen, seen, List.filter_map]
  rfl

/-- **Paths are isolated.** Leaving out any requests on paths other than `p` that
create and delete nothing changes no reply about `p`, nor whether any CREATE or
DELETE succeeds. -/
theorem paths_isolated (p : Path) {ms ms' : List Msg} (h : Pruned (elsewhere p) ms ms')
    (hms : Meets step Plain vfsInitRamfs ms) (hms' : Meets step Plain vfsInitRamfs ms') :
    seen (elsewhere p) (trace answer vfsInitRamfs ms) =
      seen (elsewhere p) (trace answer vfsInitRamfs ms') := by
  rw [(refines_files ms hms).1, (refines_files ms' hms').1, seen_map, seen_map]
  exact congrArg _ ((unwinding_paths p).seen_eq h ⟨rfl, rfl⟩)

/-- WRITE of the first six bytes of `/notes`. -/
def writeNotes : Msg := request VFS_WRITE 0#64 6#64 (ascii ['/', 'n', 'o', 't', 'e', 's'])

/-- The reader of `/version` does not notice that `/notes` is written to. -/
theorem version_isolated :
    seen (elsewhere ⟨versionName, by decide⟩)
        (trace answer vfsInitRamfs [createNotes, writeNotes, readVersion]) =
      seen (elsewhere ⟨versionName, by decide⟩)
        (trace answer vfsInitRamfs [createNotes, readVersion]) := by
  have hcreate : Plain vfsInitRamfs createNotes :=
    plain_create (by decide +kernel) rfl (by decide +kernel)
  have hwrite : Plain (step vfsInitRamfs createNotes) writeNotes := by
    refine ⟨by decide +kernel, ⟨fun h => absurd h (by decide), fun h => absurd h (by decide)⟩, ?_⟩
    intro i _ k _ hk
    exact absurd hk (Nat.not_lt_zero k)
  have hread : ∀ t, fileFind t readVersion.path = some 2 → (t 2).size = 15#64 →
      Plain t readVersion := by
    intro t hfind hsize
    refine plain_read (by decide +kernel) rfl fun i hi => ?_
    obtain rfl : 2 = i := Option.some_inj.mp (hfind.symm.trans hi)
    rw [ReadOk, hsize]
    decide
  have hpruned : Pruned (elsewhere ⟨versionName, by decide⟩)
      [createNotes, writeNotes, readVersion] [createNotes, readVersion] :=
    .keep _ (.drop (by decide +kernel) (.keep _ .nil))
  exact paths_isolated _ hpruned
    ⟨hcreate, hwrite, hread _ (by decide +kernel) (by decide +kernel), trivial⟩
    ⟨hcreate, hread _ (by decide +kernel) (by decide +kernel), trivial⟩

end AegisKernel.Vfs
