import AegisKernel.Elf.Frame

/-!
# ELF loader — when the heap is exhausted

`elf_load` asks `mm_alloc` for the memory of every segment and ignores the answer.
The segment is copied whether the request was granted or not, and the result is 0.

* `ReportsExhaustion` — a refused request makes `elf_load` return -1 with
  `*entry_point` as it was, and nothing is written after it.
* `Granted off zs` — from `heap_offset` `off` on, all requests are granted.
* `requests vs` — the sizes that are asked for.
* `reports_exhaustion_iff` — a refused request is reported only where there is none.
-/

namespace AegisKernel.Elf

open Library

/-- After a refused request `elf_load` writes nothing more, returns -1 and leaves
`*entry_point` alone. -/
def ReportsExhaustion (s : State) (elfData : Word) : Prop :=
  ∀ pre z post, (elfLoad s elfData).2.log = pre ++ .alloc z none :: post →
    (elfLoad s elfData).1 = -1 ∧ (elfLoad s elfData).2.entryPoint = s.entryPoint ∧
      ∀ a, .write a ∉ post

/-- `mm_alloc` grants requests of these sizes, one after the other. -/
def Granted : Word → List Word → Prop
  | _, [] => True
  | off, z :: zs =>
    Mm.alignUp off 4096#64 + z ≤ Mm.KERNEL_HEAP_SIZE ∧ Granted (Mm.alignUp off 4096#64 + z) zs

/-- The sizes the visits ask for. -/
def requests (vs : List Visit) : List Word :=
  (vs.filter fun v => v.hdr.Loads).map fun v => v.hdr.memsz

section Requests

variable {m : Memory} {heap : Mm.State} {entryPoint elfData z : Word} {v : Visit} {r : Option Word}

theorem alloc_not_mem_copyEvents {dst src : Word} {n : Nat} :
    .alloc z r ∉ copyEvents dst src n := by
  induction n generalizing dst src with
  | zero => exact List.not_mem_nil
  | succ n ih => simp [copyEvents, ih]

/-- The one request of a visit. -/
theorem alloc_mem_events_iff :
    .alloc z r ∈ v.events elfData ↔ v.hdr.Loads ∧ v.hdr.memsz = z ∧ v.granted = r := by
  unfold Visit.events
  by_cases hloads : v.hdr.Loads
  · rw [if_pos hloads]
    simp only [Visit.segmentEvents, List.mem_append, List.mem_map, List.mem_singleton,
      alloc_not_mem_copyEvents, Event.alloc.injEq, reduceCtorEq, and_false, exists_false,
      false_or, or_false, hloads, true_and, eq_comm]
  · simp [hloads]

theorem alloc_mem_log_iff (h : Accepted m elfData) :
    .alloc z r ∈ (elfLoad (start m heap entryPoint) elfData).2.log ↔
      ∃ v ∈ loadVisits m heap elfData, v.hdr.Loads ∧ v.hdr.memsz = z ∧ v.granted = r := by
  rw [elfLoad_accepted h]
  unfold loopEvents phnumReads
  simp only [List.mem_append, List.mem_flatMap, List.mem_map, reduceCtorEq, and_false,
    exists_false, false_or, or_false, alloc_mem_events_iff]

theorem alloc_not_mem_rejected (h : ¬ Accepted m elfData) :
    .alloc z r ∉ (elfLoad (start m heap entryPoint) elfData).2.log := by
  rw [elfLoad_rejected h, List.mem_map]
  rintro ⟨b, -, hb⟩
  exact absurd hb (by simp)

/-- An accepted image has its exhaustion reported only by having none. -/
theorem reports_iff_granted (h : Accepted m elfData) :
    ReportsExhaustion (start m heap entryPoint) elfData ↔
      ∀ v ∈ loadVisits m heap elfData, v.hdr.Loads → v.granted ≠ none := by
  constructor
  · intro hreports v hv hloads hnone
    obtain ⟨pre, post, hsplit⟩ := List.append_of_mem
      ((alloc_mem_log_iff h).mpr ⟨v, hv, hloads, rfl, hnone⟩)
    exact elfLoad_ne_of_accepted h (hreports _ _ _ hsplit).1
  · intro hgranted pre z post hsplit
    have hmem : .alloc z none ∈ (elfLoad (start m heap entryPoint) elfData).2.log := by
      rw [hsplit]
      exact List.mem_append_right _ List.mem_cons_self
    obtain ⟨v, hv, hloads, -, hnone⟩ := (alloc_mem_log_iff h).mp hmem
    exact absurd hnone (hgranted v hv hloads)

theorem granted_ne_none_iff :
    v.granted ≠ none ↔
      Mm.alignUp v.heap.heapOffset 4096#64 + v.hdr.memsz ≤ Mm.KERNEL_HEAP_SIZE := by
  unfold Visit.granted Mm.mmAlloc
  dsimp only
  split
  · rename_i hgt
    exact ⟨fun hne => absurd rfl hne, fun hle => absurd hgt (BitVec.not_lt.mpr hle)⟩
  · rename_i hle
    exact ⟨fun _ => BitVec.not_lt.mp hle, fun _ => Option.some_ne_none _⟩

/-- After a request that was granted. -/
theorem heapOffset_after (hloads : v.hdr.Loads) (h : v.granted ≠ none) :
    v.heapAfter.heapOffset = Mm.alignUp v.heap.heapOffset 4096#64 + v.hdr.memsz := by
  have hle := granted_ne_none_iff.mp h
  unfold Visit.heapAfter Mm.mmAlloc
  rw [if_pos hloads]
  dsimp only
  rw [if_neg (BitVec.not_lt.mpr hle)]

theorem requests_cons_of_loads {vs : List Visit} (h : v.hdr.Loads) :
    requests (v :: vs) = v.hdr.memsz :: requests vs := by
  rw [requests, List.filter_cons_of_pos (by simpa using h), List.map_cons, requests]

theorem requests_cons_of_not_loads {vs : List Visit} (h : ¬ v.hdr.Loads) :
    requests (v :: vs) = requests vs := by
  rw [requests, List.filter_cons_of_neg (by simpa using h), requests]

/-- The visits are granted their requests when the heap has room for one after the
other. -/
theorem visits_granted_iff {phdrs : Word} {n : Nat} :
    (∀ v ∈ visits elfData phdrs n m heap, v.hdr.Loads → v.granted ≠ none) ↔
      Granted heap.heapOffset (requests (visits elfData phdrs n m heap)) := by
  induction n generalizing m heap with
  | zero => exact ⟨fun _ => trivial, fun _ v hv => absurd hv List.not_mem_nil⟩
  | succ n ih =>
    rw [visits]
    split
    · set v : Visit := ⟨phdrAddr phdrs (65535 - (n + 1)), m, heap⟩ with hv
      rw [List.forall_mem_cons, ih]
      by_cases hloads : v.hdr.Loads
      · rw [requests_cons_of_loads hloads, Granted, ← granted_ne_none_iff (v := v)]
        constructor
        · rintro ⟨hgranted, hrest⟩
          refine ⟨hgranted hloads, ?_⟩
          rwa [heapOffset_after hloads (hgranted hloads)] at hrest
        · rintro ⟨hgranted, hrest⟩
          refine ⟨fun _ => hgranted, ?_⟩
          rwa [heapOffset_after hloads hgranted]
      · have hheap : v.heapAfter = heap := if_neg hloads
        rw [requests_cons_of_not_loads hloads, hheap]
        exact ⟨fun h => h.2, fun h => ⟨fun hl => absurd hl hloads, h⟩⟩
    · exact ⟨fun _ => trivial, fun _ v hv => absurd hv List.not_mem_nil⟩

/-- Where the headers stay as they are, the segments of the image are asked for. -/
theorem requests_loadVisits (heap : Mm.State)
    (hspares : Spares m elfData (tableBytes m elfData)) :
    requests (loadVisits m heap elfData) = (loads m elfData).map Phdr.memsz := by
  obtain ⟨-, -, hhdrs⟩ := loadVisits_spec heap (List.Subset.refl _) hspares
  rw [loads, ← hhdrs, List.filter_map, List.map_map]
  rfl

end Requests

-- ---------------------------------------------------------------------------
-- When exhaustion is reported
-- ---------------------------------------------------------------------------

/-- A refused request is reported if and only if there is none: the image is rejected,
or the heap has room for the segments one after the other, with the sizes the loader
finds. Where no segment is written over the headers, these are the sizes in the image. -/
theorem reports_exhaustion_iff (m : Memory) (heap : Mm.State) (entryPoint elfData : Word) :
    (ReportsExhaustion (start m heap entryPoint) elfData ↔
      ¬ Accepted m elfData ∨ Granted heap.heapOffset (requests (loadVisits m heap elfData))) ∧
    (Spares m elfData (tableBytes m elfData) →
      (ReportsExhaustion (start m heap entryPoint) elfData ↔
        ¬ Accepted m elfData ∨ Granted heap.heapOffset ((loads m elfData).map Phdr.memsz))) := by
  have hall : ReportsExhaustion (start m heap entryPoint) elfData ↔
      ¬ Accepted m elfData ∨ Granted heap.heapOffset (requests (loadVisits m heap elfData)) := by
    by_cases hacc : Accepted m elfData
    · rw [reports_iff_granted hacc, loadVisits, visits_granted_iff]
      exact ⟨.inr, fun h => h.resolve_left (not_not.mpr hacc)⟩
    · refine ⟨fun _ => .inl hacc, fun _ pre z post hsplit => ?_⟩
      have hmem : .alloc z none ∈ (elfLoad (start m heap entryPoint) elfData).2.log := by
        rw [hsplit]
        exact List.mem_append_right _ List.mem_cons_self
      exact absurd hmem (alloc_not_mem_rejected hacc)
  refine ⟨hall, fun hspares => ?_⟩
  rw [hall, requests_loadVisits heap hspares]

/-- A heap with room for the segment. -/
theorem reports_exhaustion_small :
    ReportsExhaustion (start (small 120 0x400000 1 2) (heapUsed 0#64) 0#64) 0x1000#64 := by
  refine ((reports_exhaustion_iff _ (heapUsed 0#64) 0#64 _).2 (by decide)).mpr (.inr ?_)
  rw [loads_small]
  exact ⟨by decide, trivial⟩

/-- The heap is full: the segment is written and `elf_load` returns 0. -/
theorem exhaustion_ignored :
    let m := small 120 0x400000 1 1
    let s := start m (heapUsed Mm.KERNEL_HEAP_SIZE) 0#64
    .alloc 1#64 none ∈ (elfLoad s 0x1000#64).2.log ∧
      .write 0x400000#64 ∈ (elfLoad s 0x1000#64).2.log ∧
      (elfLoad s 0x1000#64).1 = 0 ∧ (elfLoad s 0x1000#64).2.entryPoint = 0x400000#64 ∧
      ¬ ReportsExhaustion s 0x1000#64 := by
  intro m s
  have hacc : Accepted m 0x1000#64 := by decide
  have hcode : (elfLoad s 0x1000#64).1 = 0 := (elfLoad_code ..).trans (if_pos hacc)
  have hphnum : 0 < phnum m 0x1000#64 := by decide
  have hvisit := first_visit (heapUsed Mm.KERNEL_HEAP_SIZE) hphnum
  have hrefused : .alloc 1#64 none ∈ (elfLoad s 0x1000#64).2.log :=
    (alloc_mem_log_iff hacc).mpr ⟨_, hvisit, by decide, by decide, by decide⟩
  have hwrite : .write 0x400000#64 ∈ (elfLoad s 0x1000#64).2.log :=
    (write_mem_log_iff hacc).mpr ⟨_, hvisit, by decide, by decide⟩
  have hentry : (elfLoad s 0x1000#64).2.entryPoint = 0x400000#64 := by
    rw [elfLoad_accepted hacc]
    decide
  refine ⟨hrefused, hwrite, hcode, hentry, fun hreports => ?_⟩
  obtain ⟨pre, post, hsplit⟩ := List.append_of_mem hrefused
  exact elfLoad_ne_of_accepted hacc (hreports _ _ _ hsplit).1

end AegisKernel.Elf
