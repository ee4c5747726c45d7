import AegisKernel.Library.Cuts
import AegisKernel.Vfs.Exact
import AegisKernel.Vfs.Storable

/-!
# VFS server — repeated truncation

`handle_truncate` clears the bytes between the new and the old end of a file, and
only where the file shrinks. A run of such requests for one file is a sequence of
cuts of its canvas (`Library.Cuts`).

* `clearedRange` — where the `memset` of a request starts, and how long it is;
  `truncated_cleared` says that it is what the request does to the bytes.
* `truncations_spec` — a run of truncations of one file.
* `repeated_truncation` — its size, its bytes, the ranges cleared, and the other
  entries.
-/

namespace AegisKernel.Vfs

open Library

/-- The `memset` of a TRUNCATE, if it makes one: its start in `data` and its length. -/
def clearedRange (m : Msg) (f : FileEntry) : Option (Nat × Nat) :=
  if truncateSize m < f.size then some ((truncateSize m).toNat, (f.size - truncateSize m).toNat)
  else none

/-- The requests are TRUNCATEs that name file `i`. -/
def Truncates (t : Table) (i : Nat) (ms : List Msg) : Prop :=
  ∀ m ∈ ms, m.type = VFS_TRUNCATE ∧ fileFind t m.path = some i

/-- One request gains byte `k` and a later one loses it. -/
def GainedAndLost (ms : List Msg) (k : Nat) : Prop :=
  ∃ m m', [m, m'].Sublist ms ∧ k < m.arg0.toNat ∧ m'.arg0.toNat ≤ k

/-- The size a TRUNCATE asks for, at most 4096. -/
def cutSize (m : Msg) : Nat := min m.arg0.toNat 4096

theorem gainedAndLost_iff {ms : List Msg} {k : Nat} (hk : k < 4096) :
    GainedAndLost ms k ↔ ¬ (ms.map cutSize).Pairwise fun n n' => k < n → k < n' := by
  rw [List.pairwise_map, List.pairwise_iff_forall_sublist]
  unfold GainedAndLost cutSize
  constructor
  · rintro ⟨m, m', hsub, hgained, hlost⟩ hpair
    have hkept := hpair hsub (by omega)
    omega
  · intro hno
    push Not at hno
    obtain ⟨m, m', hsub, hgained, hlost⟩ := hno
    exact ⟨m, m', hsub, by omega, by omega⟩

section Runs

variable {t : Table} {ms : List Msg} {m : Msg} {i k : Nat}

theorem truncated_cleared (m : Msg) (f : FileEntry) :
    (truncated m f).data =
      (clearedRange m f).elim f.data fun r => clearFrom f.data r.1 r.2 := by
  unfold truncated clearedRange
  dsimp only
  split <;> rfl

/-- The range ends where the file ended. -/
theorem clearedRange_end {f : FileEntry} {start n : Nat} (h : clearedRange m f = some (start, n)) :
    start + n = f.size.toNat := by
  unfold clearedRange at h
  split at h
  · rename_i hlt
    have hlt' : (truncateSize m).toNat < f.size.toNat := hlt
    have hpair := Prod.ext_iff.mp (Option.some.inj h)
    have hdiff : (f.size - truncateSize m).toNat = f.size.toNat - (truncateSize m).toNat :=
      BitVec.toNat_sub_of_le (BitVec.le_of_lt hlt)
    have hstart : (truncateSize m).toNat = start := hpair.1
    have hn : (f.size - truncateSize m).toNat = n := hpair.2
    omega
  · exact absurd h (by simp)

theorem step_truncation (h : m.type = VFS_TRUNCATE) (hfind : fileFind t m.path = some i) :
    step t m = setEntry t i (truncated m) :=
  step_of_handle ((handle_truncate h).trans (congrArg some (handleTruncate_some hfind)))

/-- Run lemma: the names stay, the file is cut, and other entries stay as they are. -/
theorem truncations_spec (h : Truncates t i ms) :
    (∀ j, (run step t ms j).used = (t j).used ∧ (run step t ms j).name = (t j).name) ∧
      canvas (run step t ms i) = (canvas (t i)).cuts 0 (ms.map cutSize) ∧
      ∀ j, j ≠ i → run step t ms j = t j := by
  induction ms generalizing t with
  | nil => exact ⟨fun _ => ⟨rfl, rfl⟩, rfl, fun _ _ => rfl⟩
  | cons m ms ih =>
    obtain ⟨hm, hms⟩ := List.forall_mem_cons.mp h
    have hstep := step_truncation hm.1 hm.2
    have hnames : ∀ j, (step t m j).used = (t j).used ∧ (step t m j).name = (t j).name := by
      rw [hstep]
      exact setEntry_names rfl rfl
    have hrest : Truncates (step t m) i ms := fun m' hm' =>
      ⟨(hms m' hm').1, (fileFind_congr hnames _).trans (hms m' hm').2⟩
    obtain ⟨hnames', hcanvas, hothers⟩ := ih hrest
    refine ⟨fun j => ?_, ?_, fun j hj => ?_⟩
    · exact ⟨(hnames' j).1.trans (hnames j).1, (hnames' j).2.trans (hnames j).2⟩
    · rw [run_cons, hcanvas, hstep, setEntry_self, canvas_truncated]
      rfl
    · rw [run_cons, hothers j hj, hstep, setEntry_of_ne hj]

/-- The size after some truncations is that of the file or one that was asked for. -/
theorem truncations_size_le (hsize : (t i).size.toNat ≤ 4096) (h : Truncates t i ms) :
    (run step t ms i).size.toNat ≤ 4096 := by
  have hcanvas := congrArg Canvas.size (truncations_spec h).2.1
  change (run step t ms i).size.toNat = _ at hcanvas
  rw [hcanvas]
  refine size_cuts_le hsize fun n hn => ?_
  obtain ⟨m, -, rfl⟩ := List.mem_map.mp hn
  exact Nat.min_le_right _ _

end Runs

/-- **Repeated truncation.** After a run of TRUNCATEs of file `i`, it has the size of
the last one, the bytes it had from the start are those below every size asked for,
and those behind it are 0 where one request gained them and a later one lost them.
Every `memset` stays inside of `data`, and no other entry changes. -/
theorem repeated_truncation (t : Table) (i : Nat) (ms : List Msg)
    (hsizes : ∀ j < MAX_FILES, (t j).size.toNat ≤ 4096) (hms : Truncates t i ms) (hne : ms ≠ []) :
    let t' := run step t ms
    (t' i).size.toNat = min (ms.getLast hne).arg0.toNat 4096 ∧
      (∀ k < (t i).size.toNat, (t' i).data k =
        if ∀ m ∈ ms, k < min m.arg0.toNat 4096 then (t i).data k else 0) ∧
      (∀ k, (t i).size.toNat ≤ k → k < 4096 →
        (GainedAndLost ms k → (t' i).data k = 0) ∧
          (¬ GainedAndLost ms k → (t' i).data k = (t i).data k)) ∧
      (∀ pre m post, ms = pre ++ m :: post → ∀ start n,
        clearedRange m (run step t pre i) = some (start, n) → start + n ≤ 4096) ∧
      (∀ k, 4096 ≤ k → (t' i).data k = (t i).data k) ∧
      ∀ j, j ≠ i → t' j = t j := by
  intro t'
  obtain ⟨-, hcanvas, hothers⟩ := truncations_spec hms
  have hfind : fileFind t (ms.getLast hne).path = some i := (hms _ (List.getLast_mem hne)).2
  have hsize : (t i).size.toNat ≤ 4096 :=
    hsizes i (fileFind_some (ms.getLast hne).path_nul_free hfind).1
  have hdata : ∀ k, (t' i).data k = ((canvas (t i)).cuts 0 (ms.map cutSize)).data k :=
    congrFun (congrArg Canvas.data hcanvas)
  refine ⟨?_, fun k hk => ?_, fun k hk hlt => ?_, fun pre m post hsplit start n hrange => ?_,
    fun k hk => ?_, hothers⟩
  · have hlast : ms = ms.dropLast ++ [ms.getLast hne] := (List.dropLast_append_getLast hne).symm
    have hlen := congrArg Canvas.size hcanvas
    rw [hlast, List.map_append, List.map_singleton, size_cuts_concat, ← hlast] at hlen
    exact hlen
  · rw [hdata, data_cuts_inside hk]
    simp only [List.forall_mem_map, cutSize]
    rfl
  · rw [hdata, data_cuts_outside hk]
    refine ⟨fun h => if_neg ((gainedAndLost_iff hlt).mp h), fun h => if_pos ?_⟩
    exact not_not.mp fun hno => h ((gainedAndLost_iff hlt).mpr hno)
  · rw [hsplit] at hms
    have hpre : Truncates t i pre := fun m' hm' => hms m' (List.mem_append_left _ hm')
    rw [clearedRange_end hrange]
    exact truncations_size_le hsize hpre
  · rw [hdata, data_cuts_outside (hsize.trans hk)]
    refine if_pos (List.pairwise_iff_forall_sublist.mpr fun {n n'} hsub hlt => ?_)
    -- no size asked for is above 4096
    obtain ⟨m, -, rfl⟩ := List.mem_map.mp (hsub.subset List.mem_cons_self)
    unfold cutSize at hlt
    omega

/-- `/version` cut to three bytes and grown to 20 again. -/
theorem repeated_truncation_version :
    let ms := [versionRequest VFS_TRUNCATE 3#64 0#64, versionRequest VFS_TRUNCATE 20#64 0#64]
    (run step vfsInitRamfs ms 2).size.toNat = 20 ∧
      (run step vfsInitRamfs ms 2).data 2 = (vfsInitRamfs 2).data 2 ∧
      (run step vfsInitRamfs ms 2).data 5 = 0 := by
  intro ms
  have hms : Truncates vfsInitRamfs 2 ms := by
    intro m hm
    rcases List.mem_pair.mp hm with rfl | rfl
    · exact ⟨rfl, find_versionRequest _ _ _⟩
    · exact ⟨rfl, find_versionRequest _ _ _⟩
  have hsize : (vfsInitRamfs 2).size.toNat = 15 := by decide +kernel
  obtain ⟨hlast, hinside, -⟩ := repeated_truncation vfsInitRamfs 2 ms sizes_vfsInitRamfs hms
    (List.cons_ne_nil _ _)
  rw [hsize] at hinside
  exact ⟨hlast, hinside 2 (by omega), hinside 5 (by omega)⟩

end AegisKernel.Vfs
