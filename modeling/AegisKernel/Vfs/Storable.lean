import AegisKernel.Library.Stamps
import AegisKernel.Vfs.Table

/-!
# VFS server — which contents can be stored

A WRITE takes its bytes from the start of `msg.data`, where its path is: every
WRITE to a file first stores the file's name and a NUL. The contents that
WRITEs and TRUNCATEs can give a file are those of a canvas with stamped writes
(`Library.Stamps`), the stamp being name and NUL.

* `path_eq_iff` — a request names a path exactly when its data begins with this
  stamp.
* `storable_iff_composable` — the simulation both ways.
* `storable_iff` — the same for the files of every reachable table.
-/

namespace AegisKernel.Vfs

open Library

attribute [local irreducible] Msg.path

/-- The bytes every request that names `nm` begins with. -/
def stamp (nm : Bytes) : Bytes := nm ++ [0]

/-! ## A request's data begins with its path -/

theorem cstring_split {bs p : Bytes} (h : cstring bs = p) (hlen : p.length < bs.length) :
    ∃ rest, bs = p ++ 0 :: rest := by
  induction bs generalizing p with
  | nil => exact absurd hlen (Nat.not_lt_zero _)
  | cons b bs ih =>
    by_cases hb : b = 0
    · have hp : p = [] := by
        rw [← h, hb]
        simp [cstring]
      exact ⟨bs, by rw [hp, hb]; rfl⟩
    · rw [cstring_cons hb] at h
      subst h
      obtain ⟨rest, hrest⟩ := ih rfl (Nat.lt_of_succ_lt_succ hlen)
      refine ⟨rest, ?_⟩
      rw [List.cons_append, ← hrest]

theorem path_eq_iff {m : Msg} {nm : Bytes} (hnm : 0 ∉ nm) (hlen : nm.length ≤ 511) :
    m.path = nm ↔ ∀ p, Allowed (stamp nm) p (m.data p) := by
  have hmsg : MSG_DATA_SIZE = 512 := rfl
  have hdata : ∀ p < MSG_DATA_SIZE,
      ((List.range MSG_DATA_SIZE).map m.data)[p]? = some (m.data p) := by
    intro p hp
    rw [List.getElem?_map, List.getElem?_range hp]
    rfl
  have hstamp : (stamp nm).length = nm.length + 1 := List.length_append
  unfold Msg.path
  constructor
  · intro h p s hs
    have hp : p < (stamp nm).length := (List.getElem?_eq_some_iff.mp hs).1
    obtain ⟨rest, hrest⟩ := cstring_split h (by
      rw [List.length_map, List.length_range]
      omega)
    have happ : nm ++ 0 :: rest = stamp nm ++ rest := by simp [stamp]
    have hat := hdata p (by omega)
    rw [hrest, happ, List.getElem?_append_left hp, hs] at hat
    exact Option.some_inj.mp hat
  · intro h
    -- the first `nm.length + 1` bytes are the stamp, and the string ends there
    have htake : ((List.range MSG_DATA_SIZE).map m.data).take (nm.length + 1) = stamp nm := by
      refine List.ext_getElem? fun p => ?_
      by_cases hp : p < nm.length + 1
      · rw [List.getElem?_take_of_lt hp, hdata p (by omega)]
        have hs := List.getElem?_eq_getElem (hstamp ▸ hp)
        rw [hs, h p _ hs]
      · have hshort := List.length_take_le (nm.length + 1) ((List.range MSG_DATA_SIZE).map m.data)
        rw [List.getElem?_eq_none (by omega), List.getElem?_eq_none (by omega)]
    rw [← List.take_append_drop (nm.length + 1) ((List.range MSG_DATA_SIZE).map m.data), htake,
      stamp, List.append_assoc]
    exact cstring_append_nul hnm _

/-! ## Requests are moves on a canvas -/

/-- What of a file WRITEs and TRUNCATEs change. -/
def canvas (f : FileEntry) : Canvas UInt8 := ⟨f.data, f.size.toNat⟩

theorem canvas_truncated (m : Msg) (f : FileEntry) :
    canvas (truncated m f) = (canvas f).cut 0 (min m.arg0.toNat 4096) :=
  Canvas.ext (funext (truncated_data m f)) (truncateSize_toNat m)

theorem canvas_written {m : Msg} (hb : InBounds m) (f : FileEntry) :
    canvas (written m f) = (canvas f).put m.arg0.toNat m.data m.arg1.toNat :=
  Canvas.ext rfl (written_size hb f)

/-- A WRITE in bounds or a TRUNCATE of the file `nm`. -/
def Edits (nm : Bytes) (m : Msg) : Prop :=
  m.path = nm ∧ (m.type = VFS_WRITE ∧ InBounds m ∨ m.type = VFS_TRUNCATE)

section Steps

variable {t : Table} {nm : Bytes} {m : Msg} {i : Nat}

theorem step_write (hpath : m.path = nm) (hw : m.type = VFS_WRITE) (hb : InBounds m)
    (hfind : fileFind t nm = some i) :
    fileFind (step t m) nm = some i ∧
      canvas (step t m i) = (canvas (t i)).put m.arg0.toNat m.data m.arg1.toNat := by
  subst hpath
  rw [step_of_handle ((handle_write hw).trans (handleWrite_some hfind hb)), setEntry_self]
  exact ⟨(fileFind_congr (setEntry_names rfl rfl) _).trans hfind, canvas_written hb _⟩

theorem step_truncate (hpath : m.path = nm) (ht : m.type = VFS_TRUNCATE)
    (hfind : fileFind t nm = some i) :
    fileFind (step t m) nm = some i ∧
      canvas (step t m i) = (canvas (t i)).cut 0 (min m.arg0.toNat 4096) := by
  subst hpath
  have hres := (handle_truncate ht).trans (congrArg some (handleTruncate_some hfind))
  rw [step_of_handle hres, setEntry_self]
  exact ⟨(fileFind_congr (setEntry_names rfl rfl) _).trans hfind, canvas_truncated m _⟩

/-- Run lemma: edits reach a canvas. -/
theorem reach_of_edits (hnm : 0 ∉ nm) (hlen : nm.length ≤ 511) {x : Canvas UInt8} {ms : List Msg}
    (hms : ∀ m ∈ ms, Edits nm m) (hfind : fileFind t nm = some i)
    (hreach : Reach 0 (stamp nm) 4096 512 x (canvas (t i))) :
    fileFind (run step t ms) nm = some i ∧
      Reach 0 (stamp nm) 4096 512 x (canvas (run step t ms i)) := by
  induction ms generalizing t with
  | nil => exact ⟨hfind, hreach⟩
  | cons m ms ih =>
    obtain ⟨hpath, hedit⟩ := hms m (List.mem_cons_self ..)
    have hms := fun m' hm' => hms m' (List.mem_cons_of_mem _ hm')
    rcases hedit with ⟨hw, hb⟩ | ht
    · obtain ⟨hfind', hcanvas⟩ := step_write hpath hw hb hfind
      refine ih hms hfind' (hcanvas ▸ .put _ _ _ hreach hb.1 hb.2 fun p _ => ?_)
      exact (path_eq_iff hnm hlen).mp hpath p
    · obtain ⟨hfind', hcanvas⟩ := step_truncate hpath ht hfind
      exact ih hms hfind' (hcanvas ▸ .cut _ hreach (Nat.min_le_right _ _))

/-- A TRUNCATE of `nm` to `n` bytes. -/
def truncateTo (nm : Bytes) (n : Nat) : Msg := request VFS_TRUNCATE (BitVec.ofNat 64 n) 0#64 nm

/-- A WRITE to `nm` of the bytes `bs`, of which the stamp takes the first. -/
def writeAt (nm : Bytes) (a : Nat) (bs : Nat → UInt8) (n : Nat) : Msg :=
  ⟨VFS_WRITE, BitVec.ofNat 64 a, BitVec.ofNat 64 n, fun p => (stamp nm).getD p (bs p)⟩

theorem toNat_ofNat_of_le {n : Nat} (hn : n ≤ 4096) : (BitVec.ofNat 64 n).toNat = n := by
  rw [BitVec.toNat_ofNat]
  omega

theorem truncateTo_path (hnm : 0 ∉ nm) (hlen : nm.length ≤ 511) (n : Nat) :
    (truncateTo nm n).path = nm := by
  refine (path_eq_iff hnm hlen).mpr fun p s hs => ?_
  show s = nm.getD p 0
  rw [stamp] at hs
  by_cases hp : p < nm.length
  · rw [List.getElem?_append_left hp] at hs
    rw [List.getD_eq_getElem?_getD, hs]
    rfl
  · rw [List.getElem?_append_right (by omega)] at hs
    have hs0 : s = 0 := List.mem_singleton.mp (List.mem_of_getElem? hs)
    rw [List.getD_eq_getElem?_getD, List.getElem?_eq_none (by omega), hs0]
    rfl

theorem writeAt_path (hnm : 0 ∉ nm) (hlen : nm.length ≤ 511) (a : Nat) (bs : Nat → UInt8)
    (n : Nat) : (writeAt nm a bs n).path = nm := by
  refine (path_eq_iff hnm hlen).mpr fun p s hs => ?_
  show s = (stamp nm).getD p (bs p)
  rw [List.getD_eq_getElem?_getD, hs]
  rfl

/-- What a stamped row stores is what the WRITE of it stores. -/
theorem put_writeAt {x : Canvas UInt8} {a n : Nat} {bs : Nat → UInt8}
    (hbs : ∀ p < n, Allowed (stamp nm) p (bs p)) :
    x.put a (fun p => (stamp nm).getD p (bs p)) n = x.put a bs n := by
  refine Canvas.ext (funext fun k => ?_) rfl
  show (if a ≤ k ∧ k < a + n then (stamp nm).getD (k - a) (bs (k - a)) else x.data k) =
    if a ≤ k ∧ k < a + n then bs (k - a) else x.data k
  by_cases hk : a ≤ k ∧ k < a + n
  · rw [if_pos hk, if_pos hk, List.getD_eq_getElem?_getD]
    rcases hs : (stamp nm)[k - a]? with _ | s
    · rfl
    · exact hbs _ (by omega) s hs
  · rw [if_neg hk, if_neg hk]

/-- Every reachable canvas is reached by requests. -/
theorem edits_of_reach (hnm : 0 ∉ nm) (hlen : nm.length ≤ 511) (hfind : fileFind t nm = some i)
    {z : Canvas UInt8} (hreach : Reach 0 (stamp nm) 4096 512 (canvas (t i)) z) :
    ∃ ms, (∀ m ∈ ms, Edits nm m) ∧ fileFind (run step t ms) nm = some i ∧
      canvas (run step t ms i) = z := by
  -- each move is realised by one more request at the end
  induction hreach with
  | refl => exact ⟨[], fun m hm => absurd hm List.not_mem_nil, hfind, rfl⟩
  | cut n _ hn ih =>
    obtain ⟨ms, hms, hfound, hcanvas⟩ := ih
    have hpath := truncateTo_path hnm hlen n
    obtain ⟨hfound', hcanvas'⟩ := step_truncate hpath rfl hfound
    have hmin : min (truncateTo nm n).arg0.toNat 4096 = n := by
      show min (BitVec.ofNat 64 n).toNat 4096 = n
      rw [toNat_ofNat_of_le hn]
      exact Nat.min_eq_left hn
    refine ⟨ms ++ [truncateTo nm n], ?_, ?_, ?_⟩
    · exact List.forall_mem_append.mpr ⟨hms, List.forall_mem_singleton.mpr ⟨hpath, Or.inr rfl⟩⟩
    · rw [run_append]
      exact hfound'
    · rw [run_append, run_cons, run_nil, hcanvas', hcanvas, hmin]
  | put a bs n _ hcap hwidth hbs ih =>
    obtain ⟨ms, hms, hfound, hcanvas⟩ := ih
    have hpath := writeAt_path hnm hlen a bs n
    have ha : (writeAt nm a bs n).arg0.toNat = a := toNat_ofNat_of_le (by omega)
    have hn : (writeAt nm a bs n).arg1.toNat = n := toNat_ofNat_of_le (by omega)
    have hb : InBounds (writeAt nm a bs n) := by
      rw [InBounds, ha, hn]
      exact ⟨hcap, hwidth⟩
    obtain ⟨hfound', hcanvas'⟩ := step_write hpath rfl hb hfound
    refine ⟨ms ++ [writeAt nm a bs n], ?_, ?_, ?_⟩
    · exact List.forall_mem_append.mpr
        ⟨hms, List.forall_mem_singleton.mpr ⟨hpath, Or.inl ⟨rfl, hb⟩⟩⟩
    · rw [run_append]
      exact hfound'
    · rw [run_append, run_cons, run_nil, hcanvas', hcanvas, ha, hn]
      exact put_writeAt hbs

end Steps

/-! ## Contents -/

/-- File `nm` has content `c`. -/
def HasContent (t : Table) (nm c : Bytes) : Prop :=
  ∃ i, fileFind t nm = some i ∧ (t i).size.toNat = c.length ∧
    ∀ k < c.length, (t i).data k = c.getD k 0

/-- Some sequence of WRITEs in bounds and TRUNCATEs gives file `nm` content `c`. -/
def Storable (t : Table) (nm c : Bytes) : Prop :=
  ∃ ms, (∀ m ∈ ms, Edits nm m) ∧ HasContent (run step t ms) nm c

/-- The contents that can be composed from the bytes of file `f` and the stamp
of its name. -/
def ComposableFrom (nm : Bytes) (f : FileEntry) (c : Bytes) : Prop :=
  Composable 0 (stamp nm) (canvas f) c.length fun k => c.getD k 0

theorem storable_iff_composable {t : Table} (hf : Fields t) {nm c : Bytes} (hnm : 0 ∉ nm)
    (hc : c.length ≤ 4096) {i : Nat} (hfind : fileFind t nm = some i) :
    Storable t nm c ↔ ComposableFrom nm (t i) c := by
  obtain ⟨hi, -, hname⟩ := fileFind_some hnm hfind
  have hshort : nm.length ≤ 63 := hname ▸ hf.name_short i hi
  have hsize : (canvas (t i)).size ≤ 4096 := hf.size_le i hi
  have hwidth : (stamp nm).length + 1 ≤ 512 := by
    rw [stamp, List.length_append, List.length_singleton]
    omega
  rw [ComposableFrom, ← reach_iff hsize hc hwidth]
  constructor
  · rintro ⟨ms, hms, j, hj, hlen, hdata⟩
    obtain ⟨hfind', hreach⟩ := reach_of_edits hnm (by omega) hms hfind .refl
    obtain rfl : i = j := Option.some_inj.mp (hfind'.symm.trans hj)
    exact ⟨_, hreach, hlen, hdata⟩
  · rintro ⟨z, hreach, hlen, hdata⟩
    obtain ⟨ms, hms, hfind', hcanvas⟩ := edits_of_reach hnm (by omega) hfind hreach
    subst hcanvas
    exact ⟨ms, hms, i, hfind', hlen, hdata⟩

/-- **Storable contents.** For a file of any table the server can be in, the
contents that WRITEs in bounds and TRUNCATEs can give it are exactly those that
can be composed from what it holds and the stamp of its name. -/
theorem storable_iff (ms : List Msg) {nm c : Bytes} (hnm : 0 ∉ nm) (hc : c.length ≤ 4096)
    {i : Nat} (hfind : fileFind (run step vfsInitRamfs ms) nm = some i) :
    Storable (run step vfsInitRamfs ms) nm c ↔
      ComposableFrom nm (run step vfsInitRamfs ms i) c :=
  storable_iff_composable (fields_run ms) hnm hc hfind

theorem find_version : fileFind vfsInitRamfs versionName = some 2 := by decide +kernel

/-- The name itself can be stored in `/version`. -/
theorem name_storable : Storable vfsInitRamfs versionName versionName := by
  refine (storable_iff [] (by decide) (by decide) find_version).mpr ?_
  refine ⟨0, Nat.zero_le _, fun k hk => Or.inr ⟨0, Nat.zero_le k, fun j _ hjk => ?_⟩⟩
  refine ⟨j, Nat.le_refl _, fun s hs => ?_⟩
  have hj : j < versionName.length := by omega
  rw [stamp, List.getElem?_append_left hj] at hs
  show s = versionName.getD j 0
  rw [List.getD_eq_getElem?_getD, hs]
  rfl

/-- The one-byte content `B` cannot: that byte is always the `/` of the name, the
`A` the file starts with, or 0. -/
theorem letter_not_storable :
    fileFind vfsInitRamfs versionName = some 2 ∧ 0 ∉ versionName ∧ versionName ≠ [] ∧
      versionName.length ≤ 63 ∧ ¬ Storable vfsInitRamfs versionName [66] := by
  refine ⟨find_version, by decide, by decide, by decide, fun h => ?_⟩
  have hcomp := (storable_iff_composable fields_vfsInitRamfs (by decide) (by decide)
    find_version).mp h
  obtain ⟨y, -, hcells⟩ := hcomp
  rcases hcells 0 (by decide) with hkept | ⟨b, hb, hall⟩
  · have hfirst : (vfsInitRamfs 2).data 0 = 65 := by decide +kernel
    have hsize : 0 < (vfsInitRamfs 2).size.toNat := by decide +kernel
    have hsize : 0 < (canvas (vfsInitRamfs 2)).size := hsize
    unfold Kept at hkept
    by_cases hy : 0 < y
    · rw [if_pos hy] at hkept
      exact absurd (hkept.trans hfirst) (by decide)
    · rw [if_neg hy, if_pos hsize] at hkept
      exact absurd hkept (by decide)
  · obtain ⟨p, hp, hallowed⟩ := hall 0 hb (Nat.le_refl 0)
    obtain rfl : p = 0 := by omega
    exact absurd (hallowed 47 (by decide)) (by decide)

end AegisKernel.Vfs
