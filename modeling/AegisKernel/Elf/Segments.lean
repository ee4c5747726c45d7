import AegisKernel.Elf.Definitions

/-!
# ELF loader — header by header

`elf_load` as a list of visits: which program header it comes to with which memory
and heap.

* `Visit` — a program header when its turn comes. What happens there depends on it
  alone: the memory and the heap it leaves (`memAfter`, `heapAfter`) and the part of
  the log it adds (`events`).
* `phdrStep_eq`, `phdrLoop_eq` — the loop does its visits one after the other.
* `Accepted` — the header checks succeed; `elfLoad_rejected` and
  `elfLoad_accepted` are `elf_load` on either side.
* `read_mem_loopEvents_iff`, `write_mem_loopEvents_iff` — the bytes the loop reads and
  writes.
-/

namespace AegisKernel.Elf

open Library

-- ---------------------------------------------------------------------------
-- Program headers
-- ---------------------------------------------------------------------------

/-- The fields of a program header that are used. -/
structure Phdr where
  type : Nat
  offset : Word
  vaddr : Word
  filesz : Word
  memsz : Word
deriving DecidableEq

def wordAt (m : Memory) (a : Word) : Word := BitVec.ofNat 64 (fetch m a 8)

def phdrAt (m : Memory) (p : Word) : Phdr :=
  ⟨fetch m p 4, wordAt m (p + 8#64), wordAt m (p + 16#64), wordAt m (p + 32#64),
    wordAt m (p + 40#64)⟩

def Phdr.Loads (h : Phdr) : Prop := h.type = ELF_PT_LOAD

instance (h : Phdr) : Decidable h.Loads := inferInstanceAs (Decidable (_ = _))

/-- The bytes of a program header that are read to load its segment, besides its
type. -/
def fieldBytes (p : Word) : List Word :=
  span (p + 8#64) 8 ++ span (p + 16#64) 8 ++ span (p + 32#64) 8 ++ span (p + 40#64) 8

/-- `e_phnum` -/
def phnum (m : Memory) (elfData : Word) : Nat := fetch m (elfData + 56#64) 2

/-- `e_phoff` -/
def phoff (m : Memory) (elfData : Word) : Word := wordAt m (elfData + 32#64)

/-- `e_entry` -/
def entry (m : Memory) (elfData : Word) : Word := wordAt m (elfData + 24#64)

def phnumReads (elfData : Word) : List Event := (span (elfData + 56#64) 2).map .read

/-- What `memcpy` does, in order. -/
def copyEvents (dst src : Word) : Nat → List Event
  | 0 => []
  | n + 1 => .read src :: .write dst :: copyEvents (dst + 1#64) (src + 1#64) n

-- ---------------------------------------------------------------------------
-- Visits
-- ---------------------------------------------------------------------------

/-- A program header, with memory and heap as they are when its turn comes. -/
structure Visit where
  addr : Word
  mem : Memory
  heap : Mm.State

namespace Visit

variable (elfData : Word) (v : Visit)

def hdr : Phdr := phdrAt v.mem v.addr

/-- Memory after the copy. -/
def copied : Memory := copyUp v.mem v.hdr.vaddr (elfData + v.hdr.offset) v.hdr.filesz.toNat

/-- The header after the copy. -/
def hdr' : Phdr := phdrAt (v.copied elfData) v.addr

/-- Where the zeros begin, and how many there are. -/
def bss : Word := v.hdr.vaddr + (v.hdr' elfData).filesz

def bssSize : Nat :=
  if (v.hdr' elfData).memsz > (v.hdr' elfData).filesz then
    ((v.hdr' elfData).memsz - (v.hdr' elfData).filesz).toNat
  else 0

def memAfter : Memory :=
  if v.hdr.Loads then fillUp (v.copied elfData) (v.bss elfData) 0 (v.bssSize elfData) else v.mem

def heapAfter : Mm.State :=
  if v.hdr.Loads then (Mm.mmAlloc v.heap v.hdr.memsz 4096#64).2 else v.heap

/-- The answer of `mm_alloc`. -/
def granted : Option Word := (Mm.mmAlloc v.heap v.hdr.memsz 4096#64).1

/-- The bytes the segment is copied from, and the bytes it is written to. -/
def source : List Word := span (elfData + v.hdr.offset) v.hdr.filesz.toNat

def target : List Word :=
  span v.hdr.vaddr v.hdr.filesz.toNat ++ span (v.bss elfData) (v.bssSize elfData)

/-- What is done for a `PT_LOAD` header, in order. -/
def segmentEvents : List Event :=
  (span (v.addr + 16#64) 8 ++ span (v.addr + 40#64) 8 ++ span (v.addr + 8#64) 8).map .read ++
    [.alloc v.hdr.memsz v.granted] ++ (span (v.addr + 32#64) 8).map .read ++
    copyEvents v.hdr.vaddr (elfData + v.hdr.offset) v.hdr.filesz.toNat ++
    (span (v.addr + 40#64) 8 ++ span (v.addr + 32#64) 8).map .read ++
    (span (v.bss elfData) (v.bssSize elfData)).map .write

def events : List Event :=
  [.phdr v.addr] ++ (span v.addr 4).map .read ++
    if v.hdr.Loads then v.segmentEvents elfData else []

end Visit

/-- The visits of the loop from memory `m` and heap `heap` on. -/
def visits (elfData phdrs : Word) : Nat → Memory → Mm.State → List Visit
  | 0, _, _ => []
  | n + 1, m, heap =>
    let v : Visit := ⟨phdrAddr phdrs (65535 - (n + 1)), m, heap⟩
    if 65535 - (n + 1) < phnum m elfData then
      v :: visits elfData phdrs n (v.memAfter elfData) v.heapAfter
    else []

/-- Memory and heap after the visits. -/
def memAfterAll (elfData : Word) (m : Memory) (vs : List Visit) : Memory :=
  vs.foldl (fun _ v => v.memAfter elfData) m

def heapAfterAll (heap : Mm.State) (vs : List Visit) : Mm.State :=
  vs.foldl (fun _ v => v.heapAfter) heap

/-- The log of the loop. -/
def loopEvents (elfData : Word) (vs : List Visit) : List Event :=
  (vs.flatMap fun v => phnumReads elfData ++ v.events elfData) ++ phnumReads elfData

section Loop

variable {s : State} {elfData phdrs dst src p : Word} {n : Nat}

@[simp] theorem load_eq (s : State) (a : Word) (n : Nat) :
    s.load a n = (fetch s.mem a n, { s with log := s.log ++ (span a n).map .read }) := rfl

@[simp] theorem loadWord_eq (s : State) (a : Word) :
    s.loadWord a = (wordAt s.mem a, { s with log := s.log ++ (span a 8).map .read }) := rfl

theorem memcpy_eq (s : State) (dst src : Word) (n : Nat) :
    s.memcpy dst src n =
      { s with mem := copyUp s.mem dst src n, log := s.log ++ copyEvents dst src n } := by
  induction n generalizing s dst src with
  | zero => simp [State.memcpy, copyUp, copyEvents]
  | succ n ih =>
    rw [State.memcpy, ih]
    simp [State.note, copyUp, copyEvents]

theorem memset_eq (s : State) (dst : Word) (c : UInt8) (n : Nat) :
    s.memset dst c n =
      { s with mem := fillUp s.mem dst c n, log := s.log ++ (span dst n).map .write } := by
  induction n generalizing s dst with
  | zero => simp [State.memset, fillUp, span]
  | succ n ih =>
    rw [State.memset, ih]
    simp [State.note, fillUp, span]

/-- A segment without zeros behind the file bytes is one with none of them. -/
theorem memset_bss (elfData : Word) (v : Visit) (s : State) :
    (if (v.hdr' elfData).memsz > (v.hdr' elfData).filesz then
        s.memset (v.bss elfData) 0 ((v.hdr' elfData).memsz - (v.hdr' elfData).filesz).toNat
      else s) =
      { s with mem := fillUp s.mem (v.bss elfData) 0 (v.bssSize elfData),
               log := s.log ++ (span (v.bss elfData) (v.bssSize elfData)).map .write } := by
  unfold Visit.bssSize
  split
  · exact memset_eq ..
  · simp [fillUp, span]

theorem loadSegment_eq (s : State) (elfData p : Word) :
    let v : Visit := ⟨p, s.mem, s.heap⟩
    loadSegment elfData p s =
      { s with mem := fillUp (v.copied elfData) (v.bss elfData) 0 (v.bssSize elfData),
               heap := (Mm.mmAlloc s.heap v.hdr.memsz 4096#64).2,
               log := s.log ++ v.segmentEvents elfData } := by
  intro v
  unfold loadSegment
  simp only [loadWord_eq, State.alloc, State.note, memcpy_eq]
  refine (memset_bss elfData v _).trans ?_
  simp only [Visit.segmentEvents, List.map_append, List.append_assoc]
  rfl

/-- One round of the loop is a visit. -/
theorem phdrStep_eq (s : State) (elfData p : Word) :
    let v : Visit := ⟨p, s.mem, s.heap⟩
    phdrStep elfData p s =
      { s with mem := v.memAfter elfData, heap := v.heapAfter,
               log := s.log ++ v.events elfData } := by
  intro v
  unfold phdrStep Visit.memAfter Visit.heapAfter Visit.events
  by_cases hloads : v.hdr.Loads
  · simp only [if_pos hloads]
    refine (if_neg (not_not.mpr hloads)).trans ((loadSegment_eq _ _ _).trans ?_)
    simp only [load_eq, State.note, List.append_assoc]
    rfl
  · simp only [if_neg hloads]
    refine (if_pos hloads).trans ?_
    simp only [load_eq, State.note, List.append_assoc, List.append_nil]
    rfl

theorem phdrLoop_eq (s : State) (elfData phdrs : Word) (n : Nat) :
    let vs := visits elfData phdrs n s.mem s.heap
    phdrLoop elfData phdrs n s =
      { s with mem := memAfterAll elfData s.mem vs, heap := heapAfterAll s.heap vs,
               log := s.log ++ loopEvents elfData vs } := by
  induction n generalizing s with
  | zero => simp [phdrLoop, visits, memAfterAll, heapAfterAll, loopEvents, phnumReads]
  | succ n ih =>
    intro vs
    have hvs : vs = visits elfData phdrs (n + 1) s.mem s.heap := rfl
    rw [visits] at hvs
    rw [phdrLoop]
    simp only [load_eq]
    by_cases hi : 65535 - (n + 1) < phnum s.mem elfData
    · rw [if_pos hi] at hvs
      refine (if_pos hi).trans ?_
      rw [ih, phdrStep_eq, hvs]
      simp [memAfterAll, heapAfterAll, loopEvents, phnumReads]
    · rw [if_neg hi] at hvs
      refine (if_neg hi).trans ?_
      rw [hvs]
      simp [memAfterAll, heapAfterAll, loopEvents, phnumReads]

end Loop

-- ---------------------------------------------------------------------------
-- The whole loader
-- ---------------------------------------------------------------------------

/-- The field has the value it must have. -/
def Check.Holds (m : Memory) (elfData : Word) (c : Check) : Prop :=
  fetch m (elfData + BitVec.ofNat 64 c.offset) c.size = c.value

instance (m : Memory) (elfData : Word) (c : Check) : Decidable (c.Holds m elfData) :=
  inferInstanceAs (Decidable (_ = _))

/-- The ELF header passes all checks. -/
def Accepted (m : Memory) (elfData : Word) : Prop := ∀ c ∈ headerChecks, c.Holds m elfData

instance (m : Memory) (elfData : Word) : Decidable (Accepted m elfData) :=
  inferInstanceAs (Decidable (∀ c ∈ headerChecks, _))

/-- The bytes read by the checks. -/
def checkReads (m : Memory) (elfData : Word) : List Check → List Word
  | [] => []
  | c :: cs =>
    span (elfData + BitVec.ofNat 64 c.offset) c.size ++
      if c.Holds m elfData then checkReads m elfData cs else []

/-- The visits of `elf_load`. -/
def loadVisits (m : Memory) (heap : Mm.State) (elfData : Word) : List Visit :=
  visits elfData (elfData + phoff m elfData) 65535 m heap

/-- The bytes of the ELF header that are read besides the checks and `e_phnum`. -/
def startReads (elfData : Word) : List Word := span (elfData + 24#64) 8 ++ span (elfData + 32#64) 8

/-- The loader's variables at the start of a call. -/
def start (m : Memory) (heap : Mm.State) (entryPoint : Word) : State := ⟨m, heap, entryPoint, []⟩

section Load

variable {m : Memory} {heap : Mm.State} {entryPoint elfData a : Word}

theorem checkHeader_cons (s : State) (c : Check) (cs : List Check) :
    let s₁ := s.note ((span (elfData + BitVec.ofNat 64 c.offset) c.size).map .read)
    checkHeader elfData (c :: cs) s =
      if c.Holds s.mem elfData then checkHeader elfData cs s₁ else (false, s₁) := by
  intro s₁
  by_cases hc : c.Holds s.mem elfData
  · exact (if_neg (not_not.mpr hc)).trans (if_pos hc).symm
  · exact (if_pos hc).trans (if_neg hc).symm

theorem checkHeader_fst (s : State) (cs : List Check) :
    (checkHeader elfData cs s).1 = true ↔ ∀ c ∈ cs, c.Holds s.mem elfData := by
  induction cs generalizing s with
  | nil => simp [checkHeader]
  | cons c cs ih =>
    rw [checkHeader_cons, List.forall_mem_cons]
    by_cases hc : c.Holds s.mem elfData
    · rw [if_pos hc, ih]
      exact ⟨fun h => ⟨hc, h⟩, fun h => h.2⟩
    · rw [if_neg hc]
      exact ⟨fun h => absurd h (by simp), fun h => absurd h.1 hc⟩

theorem checkHeader_snd (s : State) (cs : List Check) :
    (checkHeader elfData cs s).2 =
      { s with log := s.log ++ (checkReads s.mem elfData cs).map .read } := by
  induction cs generalizing s with
  | nil => simp [checkHeader, checkReads]
  | cons c cs ih =>
    rw [checkHeader_cons, checkReads]
    by_cases hc : c.Holds s.mem elfData
    · rw [if_pos hc, if_pos hc, ih]
      simp [State.note]
    · rw [if_neg hc, if_neg hc]
      simp [State.note]

theorem elfLoad_rejected (h : ¬ Accepted m elfData) :
    elfLoad (start m heap entryPoint) elfData =
      (-1, { start m heap entryPoint with
              log := (checkReads m elfData headerChecks).map .read }) := by
  have hno : (!(checkHeader elfData headerChecks (start m heap entryPoint)).1) = true := by
    rw [Bool.not_eq_true', Bool.eq_false_iff]
    exact fun hok => h ((checkHeader_fst _ _).mp hok)
  unfold elfLoad
  dsimp only
  rw [if_pos hno, checkHeader_snd]
  simp [start]

theorem elfLoad_accepted (h : Accepted m elfData) :
    elfLoad (start m heap entryPoint) elfData =
      (0, { mem := memAfterAll elfData m (loadVisits m heap elfData),
            heap := heapAfterAll heap (loadVisits m heap elfData),
            entryPoint := entry m elfData,
            log := (checkReads m elfData headerChecks ++ startReads elfData).map .read ++
              loopEvents elfData (loadVisits m heap elfData) }) := by
  have hok : ¬ (!(checkHeader elfData headerChecks (start m heap entryPoint)).1) = true := by
    have htrue := (checkHeader_fst (start m heap entryPoint) headerChecks).mpr h
    rw [htrue]
    exact Bool.false_ne_true
  unfold elfLoad
  dsimp only
  rw [if_neg hok, checkHeader_snd]
  simp only [start, loadWord_eq, phdrLoop_eq]
  simp [loadVisits, startReads, phoff, entry]

/-- The result of the loader. -/
theorem elfLoad_code (m : Memory) (heap : Mm.State) (entryPoint elfData : Word) :
    (elfLoad (start m heap entryPoint) elfData).1 = if Accepted m elfData then 0 else -1 := by
  by_cases h : Accepted m elfData
  · rw [elfLoad_accepted h, if_pos h]
  · rw [elfLoad_rejected h, if_neg h]

theorem elfLoad_ne_of_accepted (h : Accepted m elfData) :
    (elfLoad (start m heap entryPoint) elfData).1 ≠ -1 := by
  rw [elfLoad_code, if_pos h]
  omega

/-! The bytes the loader reads and writes. -/

/-- The bytes a visit reads. -/
def Visit.Reads (elfData : Word) (v : Visit) (a : Word) : Prop :=
  a ∈ span v.addr 4 ∨ (v.hdr.Loads ∧ (a ∈ fieldBytes v.addr ∨ a ∈ v.source elfData))

/-- The bytes a visit writes. -/
def Visit.Writes (elfData : Word) (v : Visit) (a : Word) : Prop :=
  v.hdr.Loads ∧ a ∈ v.target elfData

theorem read_mem_copyEvents {dst src : Word} {n : Nat} :
    .read a ∈ copyEvents dst src n ↔ a ∈ span src n := by
  induction n generalizing dst src with
  | zero => simp [copyEvents, span]
  | succ n ih => simp [copyEvents, span, ih]

theorem write_mem_copyEvents {dst src : Word} {n : Nat} :
    .write a ∈ copyEvents dst src n ↔ a ∈ span dst n := by
  induction n generalizing dst src with
  | zero => simp [copyEvents, span]
  | succ n ih => simp [copyEvents, span, ih]

theorem read_mem_events_iff {v : Visit} : .read a ∈ v.events elfData ↔ v.Reads elfData a := by
  unfold Visit.events Visit.Reads
  by_cases hloads : v.hdr.Loads
  · rw [if_pos hloads]
    simp only [Visit.segmentEvents, fieldBytes, Visit.source, List.mem_append, List.mem_map,
      List.mem_singleton, read_mem_copyEvents, Event.read.injEq, exists_eq_right, reduceCtorEq,
      false_or, or_false, and_false, exists_false, hloads, true_and]
    -- the same spans, some of them read twice
    generalize (a ∈ span v.addr 4) = type, (a ∈ span (v.addr + 8#64) 8) = offset,
      (a ∈ span (v.addr + 16#64) 8) = vaddr, (a ∈ span (v.addr + 32#64) 8) = filesz,
      (a ∈ span (v.addr + 40#64) 8) = memsz,
      (a ∈ span (elfData + v.hdr.offset) v.hdr.filesz.toNat) = source
    grind
  · simp [hloads]

theorem write_mem_events_iff {v : Visit} : .write a ∈ v.events elfData ↔ v.Writes elfData a := by
  unfold Visit.events Visit.Writes
  by_cases hloads : v.hdr.Loads
  · rw [if_pos hloads]
    simp only [Visit.segmentEvents, Visit.target, List.mem_append, List.mem_map,
      List.mem_singleton, write_mem_copyEvents, Event.write.injEq, exists_eq_right, reduceCtorEq,
      false_or, or_false, and_false, exists_false, hloads, true_and]
  · simp [hloads]

theorem read_mem_loopEvents_iff {vs : List Visit} :
    .read a ∈ loopEvents elfData vs ↔
      a ∈ span (elfData + 56#64) 2 ∨ ∃ v ∈ vs, v.Reads elfData a := by
  unfold loopEvents phnumReads
  simp only [List.mem_append, List.mem_flatMap, List.mem_map, Event.read.injEq, exists_eq_right,
    read_mem_events_iff]
  constructor
  · rintro (⟨v, hv, ha | ha⟩ | ha)
    · exact .inl ha
    · exact .inr ⟨v, hv, ha⟩
    · exact .inl ha
  · rintro (ha | ⟨v, hv, ha⟩)
    · exact .inr ha
    · exact .inl ⟨v, hv, .inr ha⟩

theorem write_mem_loopEvents_iff {vs : List Visit} :
    .write a ∈ loopEvents elfData vs ↔ ∃ v ∈ vs, v.Writes elfData a := by
  unfold loopEvents phnumReads
  simp only [List.mem_append, List.mem_flatMap, List.mem_map, reduceCtorEq, and_false,
    exists_false, false_or, or_false, write_mem_events_iff]

end Load

end AegisKernel.Elf
