import AegisKernel.Virtio.BlkStatus

/-!
# Virtio — what the disk is to the callers

The data of every request is one buffer inside of the queue. A read brings its
sector there, and a write takes from there what an earlier read has left: the disk
and the buffer together are a clipboard, into which a sector is copied and from
which it is pasted.

* `Clipboard` — the abstract disk, and its requests.
* `clipboard_complete` — a completion performs the request posted last.
* `disk_is_clipboard` — every history in which the device is quick enough is a run
  of the abstract disk.
* `sectors_among_initial` — and in every history, a sector holds zeros or what some
  sector held at the start.
-/

namespace AegisKernel.Virtio.Blk

open Library

-- ---------------------------------------------------------------------------
-- The abstract disk
-- ---------------------------------------------------------------------------

/-- The sectors, and the sector last copied. -/
structure Clipboard where
  sectors : Nat → Bytes
  held : Bytes

inductive Edit
  | copy (sector : Nat)
  | paste (sector : Nat)
  | sync

def Clipboard.perform (d : Clipboard) : Edit → Clipboard
  | .copy n => { d with held := d.sectors n }
  | .paste n => { d with sectors := Function.update d.sectors n d.held }
  | .sync => d

/-- `P` holds of every sector and of what is held. -/
structure Clipboard.All (P : Bytes → Prop) (d : Clipboard) : Prop where
  sectors : ∀ n, P (d.sectors n)
  held : P d.held

/-- Nothing else is there at the start. -/
theorem Clipboard.all_start (sectors : Nat → Bytes) (held : Bytes) :
    Clipboard.All (fun bs => bs = held ∨ ∃ k, bs = sectors k) ⟨sectors, held⟩ :=
  ⟨fun k => .inr ⟨k, rfl⟩, .inl rfl⟩

theorem Clipboard.All.perform {P : Bytes → Prop} {d : Clipboard} (h : d.All P) (r : Edit) :
    (d.perform r).All P := by
  cases r with
  | copy n => exact ⟨h.sectors, h.sectors n⟩
  | paste n =>
    refine ⟨fun k => ?_, h.held⟩
    show P (Function.update d.sectors n d.held k)
    by_cases hk : k = n
    · rw [hk, Function.update_self]
      exact h.held
    · rw [Function.update_of_ne hk]
      exact h.sectors k
  | sync => exact h

-- ---------------------------------------------------------------------------
-- The disk of a machine
-- ---------------------------------------------------------------------------

/-- A sector of zeros. -/
def blank : Bytes := List.replicate 512 0

def sectorOf (s : State) (n : Nat) : Bytes := (List.range 512).map (s.disk n)

def clipboard (s : State) : Clipboard where
  sectors := sectorOf s
  held := Library.read s.mem (s.queue + 512) 512

/-- What the device makes of the fields of a request. -/
def asked (type sector : Nat) : Edit :=
  if type = VIRTIO_BLK_T_IN then .copy sector
  else if type = VIRTIO_BLK_T_OUT then .paste sector
  else .sync

/-- The request that descriptor 0 leads to. -/
def pending (s : State) : Edit :=
  let header := (readDesc s.mem s.queue 0).addr
  asked (load s.mem header 4) (load s.mem (header + 8) 8)

/-- What a call asks for. The field `sector` has 64 bits. -/
def Call.edit : Call → Edit
  | .read sector _ _ => .copy (sector % 2 ^ 64)
  | .write sector _ _ => .paste (sector % 2 ^ 64)
  | .flush => .sync

/-- The request of an operation that submits one. -/
def requested : Option State → Op → Option Edit
  | some s, .call c _ =>
    match begin s c with
    | .done _ _ => none
    | .waiting _ => some c.edit
  | _, _ => none

section Machine

variable {s w : State} {c : Completion}

/-- The buffer and the disk after a transfer. -/
theorem clipboard_transfer (s : State) (type sector : Nat) :
    Library.read (transfer s type sector (s.queue + 512)).1 (s.queue + 512) 512 =
        ((clipboard s).perform (asked type sector)).held ∧
      (fun n => (List.range 512).map ((transfer s type sector (s.queue + 512)).2 n)) =
        ((clipboard s).perform (asked type sector)).sectors := by
  have hsame : (fun n => (List.range 512).map (s.disk n)) = sectorOf s := by
    funext n
    unfold sectorOf
    rfl
  unfold transfer asked clipboard
  by_cases hin : type = VIRTIO_BLK_T_IN
  · rw [if_pos hin, if_pos hin]
    dsimp only [Clipboard.perform]
    exact ⟨read_put _, hsame⟩
  · rw [if_neg hin, if_neg hin]
    by_cases hout : type = VIRTIO_BLK_T_OUT
    · rw [if_pos hout, if_pos hout]
      dsimp only [Clipboard.perform]
      refine ⟨rfl, funext fun n => ?_⟩
      by_cases hn : n = sector
      · rw [hn, Function.update_self, Function.update_self, Library.read]
      · rw [Function.update_of_ne hn, Function.update_of_ne hn, ← hsame]
    · rw [if_neg hout, if_neg hout]
      dsimp only [Clipboard.perform]
      exact ⟨rfl, hsame⟩

/-- A completion performs the request posted last. -/
theorem clipboard_complete (h : Inv s) (hbusy : ¬ Idle s) (c : Completion) :
    clipboard (complete s c) = (clipboard s).perform (pending s) := by
  have hw := h.wired hbusy
  have hhead : nextHead s.mem s.queue = 0 := h.ring _ (slot_lt _)
  obtain ⟨hheld, hsectors⟩ := clipboard_transfer s (load s.mem (readDesc s.mem s.queue 0).addr 4)
    (load s.mem ((readDesc s.mem s.queue 0).addr + 8) 8)
  have hbusy : usedIdx s.mem s.queue ≠ availIdx s.mem s.queue := hbusy
  unfold complete
  dsimp only
  rw [if_neg hbusy, hhead, hw.header, hw.data, hw.data_next, hw.status]
  unfold pending
  dsimp only
  generalize transfer s _ _ (s.queue + 512) = moved at hheld hsectors ⊢
  -- the status byte and the used element lie behind the buffer
  have hbuffer : Library.read (publish (put moved.1 (usedRingAt s.queue 0) 1 fun _ => c.status)
      s.queue 0 c.len) (s.queue + 512) 512 = Library.read moved.1 (s.queue + 512) 512 := by
    refine read_congr fun i hi => ?_
    have hused : ¬ UsedArea s.queue (s.queue + 512 + i) := by
      unfold UsedArea
      omega
    rw [within_publish _ _ _ _ _ hused, put_outside (by unfold usedRingAt; omega)]
  unfold clipboard sectorOf
  rw [hbuffer, hheld, hsectors]
  rfl

/-- The fields of a request, after its descriptors have been filled in and posted. -/
theorem fields_submit {req : Nat} (hc : Clear s req) (type sector : Nat) :
    load (virtioSubmitRequest s req type sector).mem req 4 = type % 2 ^ 32 ∧
      load (virtioSubmitRequest s req type sector).mem (req + 8) 8 = sector % 2 ^ 64 := by
  have hapart := hc.1
  unfold REQ_SIZE at hapart
  -- the descriptors and the ring are in the queue
  have hwithin : Within (fun x => s.queue ≤ x ∧ x < s.queue + 4096)
      (store (store (store s.mem req 4 type) (req + 4) 4 0) (req + 8) 8 sector)
      (virtioSubmitRequest s req type sector).mem := by
    have hdesc : ∀ i < 3, ∀ x, DescArea s.queue i x → s.queue ≤ x ∧ x < s.queue + 4096 := by
      intro i hi x hx
      unfold DescArea at hx
      exact ⟨by omega, by omega⟩
    unfold virtioSubmitRequest
    refine Within.trans ?_ ((within_post _ _).mono fun x hx => ?_)
    · refine Within.trans ?_ ((within_writeDesc _ _ 2 _).mono (hdesc 2 (by omega)))
      refine Within.trans ?_ ((within_writeDesc _ _ 1 _).mono (hdesc 1 (by omega)))
      exact (within_writeDesc _ _ 0 _).mono (hdesc 0 (by omega))
    · unfold AvailArea at hx
      exact ⟨by omega, by omega⟩
  constructor
  · rw [hwithin.load fun i hi hx => by omega, load_store_of_disjoint (by omega),
      load_store_of_disjoint (by omega), load_store]
    rfl
  · rw [hwithin.load fun i hi hx => by omega, load_store]
    rfl

/-- Submitting a request moves nothing, and the device will find its type and its
sector. -/
theorem clipboard_submit (h : Inv s) {req : Nat} (hc : Clear s req) (type sector : Nat) :
    clipboard (virtioSubmitRequest s req type sector) = clipboard s ∧
      pending (virtioSubmitRequest s req type sector) =
        asked (type % 2 ^ 32) (sector % 2 ^ 64) := by
  obtain ⟨htype, hsector⟩ := fields_submit hc type sector
  obtain ⟨m, heq, hwithin, h₀, -, -⟩ := submit_spec s req type sector
  have hfit := hc.2
  have hq := h.queue_lt
  rw [heq] at htype hsector ⊢
  dsimp only at htype hsector
  -- the address of the request is kept whole
  have hheader : (readDesc (post m s.queue) s.queue 0).addr = req := by
    rw [readDesc_post (by omega), h₀]
    show req % 2 ^ 64 = req
    unfold REQ_SIZE at hfit
    exact Nat.mod_eq_of_lt (by omega)
  have hbuffer : Library.read (post m s.queue) (s.queue + 512) 512 =
      Library.read s.mem (s.queue + 512) 512 := by
    refine read_congr fun i hi => ?_
    have havail : ¬ AvailArea s.queue (s.queue + 512 + i) := by
      unfold AvailArea
      omega
    rw [within_post m s.queue _ havail, hwithin _ (hc.not_requestArea (by omega) (by omega))]
  refine ⟨?_, ?_⟩
  · unfold clipboard
    dsimp only
    rw [hbuffer]
    rfl
  · unfold pending
    dsimp only
    rw [hheader, htype, hsector]

/-- A call that submits a request asks for what it was given. -/
theorem clipboard_begin (h : Inv s) {call : Call} (hw : begin s call = .waiting w) :
    clipboard w = clipboard s ∧ pending w = call.edit := by
  have hmmio : s.mmio = true := by
    by_contra hoff
    have hoff : s.mmio = false := by simpa using hoff
    cases call <;>
      simp [Blk.begin, virtioBlkRead, virtioBlkWrite, virtioBlkFlush, hoff] at hw
  have hon : ¬ (!s.mmio) = true := by simp [hmmio]
  cases call with
  | read sector buf count =>
    have hw : virtioBlkRead s sector buf count = .waiting w := hw
    unfold virtioBlkRead at hw
    rw [if_neg hon] at hw
    by_cases hcount : count = 0
    · rw [if_pos hcount] at hw
      exact absurd hw (by simp)
    rw [if_neg hcount] at hw
    rcases h.alloc with hres | ⟨start, heap, hres, hinv, hclear, -⟩
    · rw [hres] at hw
      exact absurd hw (by simp)
    · rw [hres] at hw
      obtain rfl := Begun.waiting.inj hw
      -- the allocator moves on, and memory stays as it is
      exact clipboard_submit hinv hclear VIRTIO_BLK_T_IN sector
  | write sector buf count =>
    have hw : virtioBlkWrite s sector buf count = .waiting w := hw
    unfold virtioBlkWrite at hw
    rw [if_neg hon] at hw
    by_cases hcount : count = 0
    · rw [if_pos hcount] at hw
      exact absurd hw (by simp)
    rw [if_neg hcount] at hw
    obtain rfl := Begun.waiting.inj hw
    exact clipboard_submit h (h.clear_of_apart h.linked.writeReq) VIRTIO_BLK_T_OUT sector
  | flush =>
    have hw : virtioBlkFlush s = .waiting w := hw
    unfold virtioBlkFlush at hw
    rw [if_neg hon] at hw
    obtain rfl := Begun.waiting.inj hw
    exact clipboard_submit h (h.clear_of_apart h.linked.flushReq) VIRTIO_BLK_T_FLUSH 0

/-- Callers store elsewhere. -/
theorem clipboard_caller {a : Nat} {bs : Bytes} (hown : OwnStore (some s) (.caller a bs)) :
    clipboard { s with mem := write s.mem a bs } = clipboard s := by
  have hown : a + bs.length ≤ s.queue ∨ s.queue + 4096 ≤ a := hown
  have hbuffer : Library.read (write s.mem a bs) (s.queue + 512) 512 =
      Library.read s.mem (s.queue + 512) 512 := by
    refine read_congr fun i hi => ?_
    unfold write
    exact put_outside (by omega)
  unfold clipboard
  dsimp only
  rw [hbuffer]
  rfl

/-- After `virtio_init` the buffer is empty, and the disk is as it was. -/
theorem clipboard_init {base : Nat} {regs : Nat → Nat} (hcode : (virtioInit s base regs).1 = 0)
    (hqueue : (virtioInit s base regs).2.queue ≠ 0) :
    clipboard (virtioInit s base regs).2 = ⟨sectorOf s, blank⟩ := by
  rw [init_eq hcode] at hqueue ⊢
  dsimp only at hqueue ⊢
  unfold virtioQueueSetup at hqueue ⊢
  dsimp only at hqueue ⊢
  rcases hres : Mm.mmAlloc s.heap Mm.AEGIS_PAGE_SIZE Mm.AEGIS_PAGE_SIZE with ⟨start, heap⟩
  cases start with
  | none =>
    rw [hres] at hqueue
    exact absurd rfl hqueue
  | some start =>
    have hzero : Library.read (clearQueue s.mem (s.heap.heapArea + start).toNat)
        ((s.heap.heapArea + start).toNat + 512) 512 = blank := by
      refine List.eq_replicate_iff.mpr ⟨length_read, fun b hb => ?_⟩
      obtain ⟨i, hi, rfl⟩ := List.mem_map.mp hb
      have hi := List.mem_range.mp hi
      unfold clearQueue
      rw [put_outside (by omega), put_outside (by omega)]
      exact if_pos ⟨by omega, by omega⟩
    unfold clipboard
    dsimp only
    rw [hzero]
    rfl

end Machine

-- ---------------------------------------------------------------------------
-- A quick device
-- ---------------------------------------------------------------------------

section Quick

variable {s s' : State}

theorem requested_done {c : Call} {polls : List (List Completion)} {code : Int}
    (h : begin s c = .done code s') : requested (some s) (.call c polls) = none := by
  simp [requested, h]

theorem requested_waiting {c : Call} {polls : List (List Completion)}
    (h : begin s c = .waiting s') : requested (some s) (.call c polls) = some c.edit := by
  simp [requested, h]

/-- A call that waits for its request performs it, and no other. -/
theorem clipboard_exec (h : Inv s) (hidle : Idle s) {call : Call} {w : State}
    {polls : List (List Completion)} {code : Int} (hw : begin s call = .waiting w)
    (hexec : exec s call polls = some (code, s')) (hdone : Idle s') :
    clipboard s' = (clipboard s).perform call.edit := by
  obtain ⟨hinv, -, -, hone⟩ := submit_one h hidle hw
  obtain ⟨hsame, hpending⟩ := clipboard_begin h hw
  have hbusy := not_idle_one hone
  unfold Blk.exec at hexec
  rw [hw] at hexec
  obtain ⟨s₁, hwait, heq⟩ := Option.map_eq_some_iff.mp hexec
  obtain ⟨-, rfl⟩ := Prod.mk.inj heq
  have hend := wait_eq hwait
  -- nothing is outstanding at the end, so the device has completed something
  cases hseen : seen w polls with
  | nil =>
    rw [hseen, List.foldl_nil] at hend
    rw [hend] at hdone
    exact absurd hdone hbusy
  | cons c cs =>
    have hfirst : Idle (complete w c) := idle_foldl_one hinv hone c []
    rw [hseen, List.foldl_cons, foldl_idle hfirst] at hend
    rw [hend, clipboard_complete hinv hbusy c, hsame, hpending]

/-- A step of a history, in which the device is quick enough, performs what it has
submitted. -/
theorem clipboard_step {op : Op} (h : RunIdle (some s)) (hown : OwnStore (some s) op)
    (hprompt : Prompt (some s) op) (hstep : step (some s) op = some s') :
    clipboard s' = (requested (some s) op).toList.foldl Clipboard.perform (clipboard s) := by
  obtain ⟨hinv, hidle⟩ := h s rfl
  cases op with
  | device c =>
    rw [← Option.some.inj hstep, complete_idle hidle]
    rfl
  | caller a bs =>
    rw [← Option.some.inj hstep]
    exact clipboard_caller hown
  | call c polls =>
    have hwaited := (waited_iff h _).mpr hprompt
    obtain ⟨⟨code, s₁⟩, hexec, rfl⟩ := Option.map_eq_some_iff.mp hstep
    cases hbegin : begin s c with
    | done code' s₂ =>
      -- nothing has changed
      rw [requested_done hbegin, Option.toList_none, List.foldl_nil]
      rcases hinv.begin_cases c with ⟨code'', hdone⟩ | ⟨heap, req, type, sector, hwait, -⟩
      · unfold Blk.exec at hexec
        rw [hdone] at hexec
        obtain ⟨-, rfl⟩ := Prod.mk.inj (Option.some.inj hexec)
        rfl
      · rw [hwait] at hbegin
        exact absurd hbegin (by simp)
    | waiting w =>
      rw [requested_waiting hbegin, Option.toList_some, List.foldl_cons, List.foldl_nil]
      exact clipboard_exec hinv hidle hbegin hexec (hwaited ⟨w, hbegin⟩ code s₁ hexec)

theorem clipboard_run {ops : List Op} (h : RunIdle (some s))
    (hown : Meets step OwnStore (some s) ops) (hprompt : Meets step Prompt (some s) ops)
    (hrun : run step (some s) ops = some s') :
    clipboard s' = (outputs step requested (some s) ops).foldl Clipboard.perform (clipboard s) := by
  induction ops generalizing s with
  | nil =>
    rw [← Option.some.inj hrun]
    rfl
  | cons op ops ih =>
    obtain ⟨hop, hown⟩ := hown
    obtain ⟨hquick, hprompt⟩ := hprompt
    obtain ⟨s₁, hnext, hrun⟩ := run_cons_some hrun
    have hkeep := runIdle_step h hop ((waited_iff h op).mpr hquick)
    rw [hnext] at hown hprompt hkeep
    rw [ih hkeep hown hprompt hrun, clipboard_step h hop hquick hnext, outputs, List.foldl_append,
      hnext]

end Quick

-- ---------------------------------------------------------------------------
-- Any device
-- ---------------------------------------------------------------------------

section Any

variable {s s' : State} {P : Bytes → Prop}

theorem all_foldl (h : Inv s) (hP : (clipboard s).All P) (cs : List Completion) :
    (clipboard (cs.foldl complete s)).All P := by
  induction cs generalizing s with
  | nil => exact hP
  | cons c cs ih =>
    rw [List.foldl_cons]
    by_cases hidle : Idle s
    · rw [complete_idle hidle]
      exact ih h hP
    · refine ih (deviceRun_complete h c).inv ?_
      rw [clipboard_complete h hidle c]
      exact hP.perform _

/-- Whatever the device completes, and when, no step brings other bytes to the disk or
to the buffer. -/
theorem all_step (h : Inv s) (hP : (clipboard s).All P) {op : Op}
    (hown : OwnStore (some s) op) (hstep : step (some s) op = some s') :
    (clipboard s').All P := by
  cases op with
  | device c =>
    rw [← Option.some.inj hstep]
    exact all_foldl h hP [c]
  | caller a bs =>
    rw [← Option.some.inj hstep, clipboard_caller hown]
    exact hP
  | call c polls =>
    obtain ⟨⟨code, s₁⟩, hexec, rfl⟩ := Option.map_eq_some_iff.mp hstep
    unfold Blk.exec at hexec
    cases hbegin : begin s c with
    | done code' s₂ =>
      rcases h.begin_cases c with ⟨code'', hdone⟩ | ⟨heap, req, type, sector, hwait, -⟩
      · rw [hdone] at hexec
        obtain ⟨-, rfl⟩ := Prod.mk.inj (Option.some.inj hexec)
        exact hP
      · rw [hwait] at hbegin
        exact absurd hbegin (by simp)
    | waiting w =>
      rw [hbegin] at hexec
      obtain ⟨s₂, hwait, heq⟩ := Option.map_eq_some_iff.mp hexec
      obtain ⟨-, rfl⟩ := Prod.mk.inj heq
      rw [wait_eq hwait]
      refine all_foldl (h.submitted hbegin).1 ?_ _
      rw [(clipboard_begin h hbegin).1]
      exact hP

theorem all_run (h : Inv s) (hP : (clipboard s).All P) {ops : List Op}
    (hown : Meets step OwnStore (some s) ops) (hrun : run step (some s) ops = some s') :
    (clipboard s').All P := by
  induction ops generalizing s with
  | nil =>
    rw [← Option.some.inj hrun]
    exact hP
  | cons op ops ih =>
    obtain ⟨hop, hown⟩ := hown
    obtain ⟨s₁, hnext, hrun⟩ := run_cons_some hrun
    rw [hnext] at hown
    exact ih (inv_step h hop hnext) (all_step h hP hop hnext) hown hrun

end Any

-- ---------------------------------------------------------------------------
-- Histories
-- ---------------------------------------------------------------------------

/-- Sector 3 is read to a buffer, a byte is stored there, and the buffer is written to
sector 0. -/
def copySector : List Op :=
  [.call (.read 3 0x300000 1) [[⟨0, 0⟩]], .caller 0x300000 [1],
    .call (.write 0 0x300000 1) [[⟨0, 0⟩]]]

theorem exists_copySector :
    Meets step OwnStore (some (virtioInit bootState 0x10001000 bootRegs).2) copySector ∧
      Meets step Prompt (some (virtioInit bootState 0x10001000 bootRegs).2) copySector ∧
      ∃ s', run step (some (virtioInit bootState 0x10001000 bootRegs).2) copySector = some s' := by
  obtain ⟨hmmio, -, -, -, hoffset, -⟩ := boot_spec
  obtain ⟨hinv, -, hidle⟩ := init_spec linked_boot code_boot queue_boot_ne_zero
  have hq := queue_boot
  generalize (virtioInit bootState 0x10001000 bootRegs).2 = s at *
  -- the read
  have halloc : Mm.mmAlloc s.heap 529#64 16#64 =
      (some 4096#64, { s.heap with heapOffset := 4625#64 }) := by
    unfold Mm.mmAlloc
    rw [hoffset]
    rfl
  obtain ⟨s₁, hread, hinv₁, hidle₁, hdriver, -⟩ :=
    step_prompt hinv hidle (begin_read_of_alloc hmmio halloc 3 0x300000)
  -- the store
  have hq₁ : s₁.queue = 0x200000 := hdriver.queue.trans hq
  have hown : OwnStore (some s₁) (.caller 0x300000 [1]) := .inr (by rw [hq₁]; decide)
  obtain ⟨hinv₂, havail, hused⟩ := inv_caller hinv₁ hown
  have hidle₂ : Idle { s₁ with mem := write s₁.mem 0x300000 [1] } :=
    hused.trans (hidle₁.trans havail.symm)
  -- the write
  have hmmio₁ : s₁.mmio = true := hdriver.mmio.trans hmmio
  obtain ⟨s₃, hwrite, -⟩ := step_prompt hinv₂ hidle₂
    (begin_write (s := { s₁ with mem := write s₁.mem 0x300000 [1] }) hmmio₁ 0 0x300000)
  refine ⟨⟨trivial, ?_⟩, ⟨fun _ _ => by simp, ?_⟩, s₃, ?_⟩
  · rw [hread]
    exact ⟨hown, trivial, trivial⟩
  · rw [hread]
    exact ⟨trivial, fun _ _ => by simp, trivial⟩
  · rw [copySector, run_cons, hread]
    exact hwrite

/-- **The disk as a clipboard.** From a successful `virtio_init` on, in every history
in which each request that makes `avail.idx` wrap is completed at once: the sectors and
the buffer hold what a run of the submitted requests, in their order, makes of an
abstract clipboard that starts with the sectors of the disk and with zeros. -/
theorem disk_is_clipboard (s : State) (base : Nat) (regs : Nat → Nat) (ops : List Op)
    (hl : Linked s.heap s.writeReq s.flushReq) (hcode : (virtioInit s base regs).1 = 0)
    (hqueue : (virtioInit s base regs).2.queue ≠ 0)
    (hown : Meets step OwnStore (some (virtioInit s base regs).2) ops)
    (hprompt : Meets step Prompt (some (virtioInit s base regs).2) ops) (s' : State)
    (hrun : run step (some (virtioInit s base regs).2) ops = some s') :
    clipboard s' = (outputs step requested (some (virtioInit s base regs).2) ops).foldl
      Clipboard.perform ⟨sectorOf s, blank⟩ := by
  obtain ⟨hinv, -, hidle⟩ := init_spec hl hcode hqueue
  rw [clipboard_run (runIdle_some hinv hidle) hown hprompt hrun, clipboard_init hcode hqueue]

theorem disk_is_clipboard_copySector :
    ∃ s', run step (some (virtioInit bootState 0x10001000 bootRegs).2) copySector = some s' ∧
      clipboard s' = (outputs step requested
        (some (virtioInit bootState 0x10001000 bootRegs).2) copySector).foldl
          Clipboard.perform ⟨sectorOf bootState, blank⟩ := by
  obtain ⟨hown, hprompt, s', hrun⟩ := exists_copySector
  exact ⟨s', hrun, disk_is_clipboard bootState 0x10001000 bootRegs copySector linked_boot code_boot
    queue_boot_ne_zero hown hprompt s' hrun⟩

/-- **No new bytes on the disk.** From a successful `virtio_init` on, in every history
of calls and whatever the device completes when: each sector holds zeros or what
one of the sectors held at the start. No byte of a caller's buffer is ever stored. -/
theorem sectors_among_initial (s : State) (base : Nat) (regs : Nat → Nat) (ops : List Op)
    (hl : Linked s.heap s.writeReq s.flushReq) (hcode : (virtioInit s base regs).1 = 0)
    (hqueue : (virtioInit s base regs).2.queue ≠ 0)
    (hown : Meets step OwnStore (some (virtioInit s base regs).2) ops) (s' : State)
    (hrun : run step (some (virtioInit s base regs).2) ops = some s') (n : Nat) :
    sectorOf s' n = blank ∨ ∃ k, sectorOf s' n = sectorOf s k := by
  have hstart : (clipboard (virtioInit s base regs).2).All
      fun bs => bs = blank ∨ ∃ k, bs = sectorOf s k := by
    rw [clipboard_init hcode hqueue]
    exact Clipboard.all_start _ _
  have hend := (all_run (init_spec hl hcode hqueue).1 hstart hown hrun).sectors n
  unfold clipboard at hend
  dsimp only at hend
  exact hend

/-- What the caller stored and wrote is not on the disk. -/
theorem sectors_among_initial_copySector :
    ∃ s', run step (some (virtioInit bootState 0x10001000 bootRegs).2) copySector = some s' ∧
      (sectorOf s' 0 = blank ∨ ∃ k, sectorOf s' 0 = sectorOf bootState k) := by
  obtain ⟨hown, -, s', hrun⟩ := exists_copySector
  exact ⟨s', hrun, sectors_among_initial bootState 0x10001000 bootRegs copySector linked_boot
    code_boot queue_boot_ne_zero hown s' hrun 0⟩

end AegisKernel.Virtio.Blk
