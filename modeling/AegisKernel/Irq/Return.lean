import Mathlib.Data.Set.Defs
import AegisKernel.Irq.Dispatch

/-!
# Interrupts — the way back

The second half of `irq_common`: the fourteen pops, `add rsp, 16` and `iretq`,
and around both halves what the processor does when it takes an interrupt: it
aligns the stack pointer, pushes `ss`, `rsp`, `rflags`, `cs` and `rip`, and on
`iretq` takes them back. Vectors go through interrupt gates, so an interrupt is
taken only while the interrupt flag is set.

The C handler between the two halves is any code that keeps to the calling
convention (`Handler`): it restores the registers a callee has to, and apart
from the stack below its return address it writes only words of its own, the
set `owned`.

`interrupt_returns`: the interrupted code resumes with every register as it
was, and with every word above its stack pointer that is not the handlers'.
-/

namespace AegisKernel.Irq

/-! ## The return path -/

namespace Cpu

/-- The effect of `pop r`. -/
def pop (c : Cpu) (r : Reg) : Cpu :=
  let sp := c.regs .rsp
  { c with regs := Function.update (Function.update c.regs .rsp (sp + 8#64)) r (c.mem sp) }

/-- `add rsp, v` -/
def addRsp (c : Cpu) (v : Word) : Cpu :=
  { c with regs := Function.update c.regs .rsp (c.regs .rsp + v) }

end Cpu

/-- `irq_common` after its `call irq_handler`, up to `iretq`. -/
def irqCommonReturn (c : Cpu) : Cpu := (savedRegs.reverse.foldl Cpu.pop c).addRsp 16#64

/-- The registers of the processor: what an interrupt has to bring back. -/
structure Core where
  regs : Reg → Word
  rip : Word
  cs : Word
  rflags : Word
  ss : Word

structure Machine where
  core : Core
  mem : Word → Word

/-- The stack pointer the processor aligns down before it pushes. -/
def aligned (sp : Word) : Word := sp - sp % 16#64

/-- The machine with its stack pointer aligned, before the pushes. -/
def base (m : Machine) : Cpu :=
  ⟨Function.update m.core.regs .rsp (aligned (m.core.regs .rsp)), m.mem⟩

/-- What the processor pushes, first pushed first. -/
def deliveredWords (m : Machine) : List Word :=
  [m.core.ss, m.core.regs .rsp, m.core.rflags, m.core.cs, m.core.rip]

/-- The processor takes an interrupt. -/
def deliver (m : Machine) : Cpu := pushAll (base m) (deliveredWords m)

/-- `iretq` -/
def iretq (c : Cpu) : Machine :=
  let sp := c.regs .rsp
  { core :=
      { regs := Function.update c.regs .rsp (c.mem (sp + 24#64))
        rip := c.mem sp
        cs := c.mem (sp + 8#64)
        rflags := c.mem (sp + 16#64)
        ss := c.mem (sp + 32#64) }
    mem := c.mem }

/-- The interrupt flag of `rflags` -/
def interruptFlag (m : Machine) : Bool := m.core.rflags.getLsbD 9

/-- The registers a called function has to bring back. -/
def calleeSaved : List Reg := [.rbx, .rbp, .r12, .r13, .r14, .r15]

/-- A C function that keeps to the calling convention, from its first
instruction to after its `ret`. -/
structure Handler (owned : Set Word) where
  run : Cpu → Cpu
  keeps : ∀ c, ∀ r ∈ calleeSaved, (run c).regs r = c.regs r
  returns : ∀ c, (run c).regs .rsp = c.regs .rsp + 8#64
  writes : ∀ c a, a ∉ owned → c.regs .rsp < a → (run c).mem a = c.mem a

/-- Vector `n` fires; `returnAddr` is the address after the call. While
interrupts are off it stays pending, and the machine goes on. -/
def interrupt {owned : Set Word} (h : Handler owned) (returnAddr : Word) (m : Machine) (n : Nat) :
    Machine :=
  if interruptFlag m then
    iretq (irqCommonReturn (h.run (handlerEntry (deliver m) n returnAddr)))
  else m

/-! ## Pops -/

@[simp] theorem pop_mem (c : Cpu) (r : Reg) : (c.pop r).mem = c.mem := rfl

theorem pop_rsp (c : Cpu) {r : Reg} (hr : r ≠ .rsp) : (c.pop r).regs .rsp = c.regs .rsp + 8#64 := by
  simp [Cpu.pop, hr.symm]

theorem pop_self (c : Cpu) (r : Reg) : (c.pop r).regs r = c.mem (c.regs .rsp) := by
  simp [Cpu.pop]

theorem pop_regs_of_ne (c : Cpu) {r r' : Reg} (hr : r' ≠ r) (hsp : r' ≠ .rsp) :
    (c.pop r).regs r' = c.regs r' := by
  simp [Cpu.pop, hr, hsp]

theorem eight_mul_succ (k : Nat) :
    8#64 * BitVec.ofNat 64 (k + 1) = 8#64 + 8#64 * BitVec.ofNat 64 k := by
  rw [BitVec.ofNat_add]
  bv_omega

/-- A row of pops leaves the stack pointer above the words it read. -/
theorem foldl_pop_rsp (rs : List Reg) (hrs : ∀ r ∈ rs, r ≠ .rsp) (c : Cpu) :
    (rs.foldl Cpu.pop c).regs .rsp = c.regs .rsp + 8#64 * BitVec.ofNat 64 rs.length := by
  induction rs generalizing c with
  | nil => simp
  | cons r rs ih =>
    obtain ⟨hr, hrest⟩ := List.forall_mem_cons.mp hrs
    rw [List.foldl_cons, ih hrest, pop_rsp c hr, List.length_cons, eight_mul_succ, BitVec.add_assoc]

theorem foldl_pop_mem (rs : List Reg) (c : Cpu) : (rs.foldl Cpu.pop c).mem = c.mem := by
  induction rs generalizing c with
  | nil => rfl
  | cons r rs ih => rw [List.foldl_cons, ih, pop_mem]

/-- A row of pops changes no other register. -/
theorem foldl_pop_of_notMem (rs : List Reg) (c : Cpu) {r : Reg} (hr : r ∉ rs) (hsp : r ≠ .rsp) :
    (rs.foldl Cpu.pop c).regs r = c.regs r := by
  induction rs generalizing c with
  | nil => rfl
  | cons r' rs ih =>
    obtain ⟨hne, hrest⟩ := List.ne_and_not_mem_of_not_mem_cons hr
    rw [List.foldl_cons, ih _ hrest, pop_regs_of_ne c hne hsp]

/-- If the stack holds the values `f` gives the registers, in the order they are
popped, each register gets its value. -/
theorem foldl_pop_mem_of (rs : List Reg) (hrs : ∀ r ∈ rs, r ≠ .rsp) (c : Cpu) (f : Reg → Word)
    (hf : ∀ k r, rs[k]? = some r → c.mem (c.regs .rsp + 8#64 * BitVec.ofNat 64 k) = f r) :
    ∀ r ∈ rs, (rs.foldl Cpu.pop c).regs r = f r := by
  induction rs generalizing c with
  | nil => exact fun r hr => absurd hr List.not_mem_nil
  | cons r rs ih =>
    obtain ⟨hr, hrest⟩ := List.forall_mem_cons.mp hrs
    have hfirst : c.mem (c.regs .rsp) = f r := by simpa using hf 0 r rfl
    have hnext : ∀ k r', rs[k]? = some r' →
        (c.pop r).mem ((c.pop r).regs .rsp + 8#64 * BitVec.ofNat 64 k) = f r' := by
      intro k r' hk
      rw [pop_mem, pop_rsp c hr, BitVec.add_assoc, ← eight_mul_succ]
      exact hf (k + 1) r' hk
    intro r' hr'
    rw [List.foldl_cons]
    by_cases hlater : r' ∈ rs
    · exact ih hrest _ hnext r' hlater
    · -- popped here and not again
      have hnow : r' = r := (List.mem_cons.mp hr').resolve_right hlater
      subst hnow
      rw [foldl_pop_of_notMem _ _ hlater hr, pop_self, hfirst]

/-! ## The frame -/

/-- All the words an interrupt puts on the stack, first pushed first. -/
def frameWords (m : Machine) (n : Nat) : List Word :=
  deliveredWords m ++ ([0#64, BitVec.ofNat 64 n] ++ savedRegs.map m.core.regs)

theorem frameWords_length (m : Machine) (n : Nat) : (frameWords m n).length = 21 := by
  simp [frameWords, deliveredWords, savedRegs]

theorem pushAll_append (c : Cpu) (vs ws : List Word) :
    pushAll c (vs ++ ws) = pushAll (pushAll c vs) ws := by
  simp [pushAll, List.foldl_append]

theorem pushAll_regs (c : Cpu) (vs : List Word) {r : Reg} (hr : r ≠ .rsp) :
    (pushAll c vs).regs r = c.regs r := by
  induction vs using List.reverseRecOn with
  | nil => rfl
  | append_singleton vs v ih => rw [pushAll_concat, push_regs_of_ne _ _ hr, ih]

theorem deliver_regs (m : Machine) {r : Reg} (hr : r ≠ .rsp) :
    (deliver m).regs r = m.core.regs r := by
  rw [deliver, pushAll_regs _ _ hr, base]
  exact Function.update_of_ne hr _ _

theorem pushAll_rsp (c : Cpu) (vs : List Word) :
    (pushAll c vs).regs .rsp = c.regs .rsp - 8#64 * BitVec.ofNat 64 vs.length := by
  induction vs using List.reverseRecOn with
  | nil => simp [pushAll]
  | append_singleton vs v ih =>
    rw [pushAll_concat, List.length_append, List.length_singleton, eight_mul_succ]
    simp only [Cpu.push, Function.update_self, ih]
    bv_omega

/-- Words that no push reaches keep their values. -/
theorem pushAll_mem_of (c : Cpu) (vs : List Word) {a : Word}
    (hroom : 8 * vs.length ≤ (c.regs .rsp).toNat) (ha : c.regs .rsp ≤ a) : (pushAll c vs).mem a = c.mem a := by
  induction vs using List.reverseRecOn with
  | nil => rfl
  | append_singleton vs v ih =>
    rw [List.length_append, List.length_singleton] at hroom
    rw [pushAll_concat, Cpu.push]
    simp only
    rw [Function.update_of_ne, ih (by omega)]
    rw [pushAll_rsp]
    intro heq
    have hlt := (c.regs .rsp).isLt
    have hat : a.toNat = (c.regs .rsp).toNat - 8 * (vs.length + 1) := by
      rw [heq]
      have hlen : (8#64 * BitVec.ofNat 64 vs.length).toNat = 8 * vs.length := by
        simp only [BitVec.toNat_mul, BitVec.toNat_ofNat]
        omega
      bv_omega
    rw [BitVec.le_def] at ha
    omega

/-- The stack pointer when the handler has returned. -/
def frameTop (m : Machine) : Word := aligned (m.core.regs .rsp) - 168#64

theorem savedRegs_ne_rsp : ∀ r ∈ savedRegs, r ≠ .rsp := by decide

theorem stub_pushes (m : Machine) (n : Nat) :
    pushAll (deliver m) (pushedWords (deliver m) n) = pushAll (base m) (frameWords m n) := by
  have hregs : savedRegs.map (deliver m).regs = savedRegs.map m.core.regs :=
    List.map_congr_left fun r hr => deliver_regs m (savedRegs_ne_rsp r hr)
  rw [pushedWords, hregs, frameWords, pushAll_append (base m), ← deliver]

theorem pushAll_frame_rsp (m : Machine) (n : Nat) :
    (pushAll (base m) (frameWords m n)).regs .rsp = frameTop m := by
  rw [pushAll_rsp, frameWords_length, frameTop, base]
  simp only [Function.update_self]
  rfl

/-- The stub changes no register but `rdi` and the stack pointer. -/
theorem irqStub_regs (c : Cpu) (n : Nat) {r : Reg} (hsp : r ≠ .rsp) (hdi : r ≠ .rdi) :
    ((irqStub n).foldl exec c).regs r = c.regs r := by
  rw [irqStub, irqCommon, List.foldl_append, List.foldl_append,
    foldl_push_regs _ _ savedRegs_ne_rsp]
  simp only [List.foldl_cons, List.foldl_nil, exec]
  rw [Function.update_of_ne hdi, pushAll_regs _ _ hsp, push_regs_of_ne _ _ hsp,
    push_regs_of_ne _ _ hsp]

theorem handlerEntry_rsp (m : Machine) (n : Nat) (returnAddr : Word) :
    (handlerEntry (deliver m) n returnAddr).regs .rsp = frameTop m - 8#64 := by
  obtain ⟨-, -, hrsp⟩ := irqStub_state (deliver m) n
  rw [handlerEntry, call, Cpu.push]
  simp only [Function.update_self]
  rw [hrsp, stub_pushes, pushAll_frame_rsp]

theorem handlerEntry_regs (m : Machine) (n : Nat) (returnAddr : Word) {r : Reg}
    (hsp : r ≠ .rsp) (hdi : r ≠ .rdi) :
    (handlerEntry (deliver m) n returnAddr).regs r = m.core.regs r := by
  rw [handlerEntry, call, push_regs_of_ne _ _ hsp, irqStub_regs _ _ hsp hdi, deliver_regs m hsp]

/-- Only the return address is below the frame. -/
theorem handlerEntry_mem (m : Machine) (n : Nat) (returnAddr : Word) {a : Word}
    (ha : a ≠ frameTop m - 8#64) :
    (handlerEntry (deliver m) n returnAddr).mem a = (pushAll (base m) (frameWords m n)).mem a := by
  obtain ⟨hmem, -, hrsp⟩ := irqStub_state (deliver m) n
  rw [handlerEntry, call, Cpu.push]
  simp only
  rw [hrsp, hmem, stub_pushes, pushAll_frame_rsp, Function.update_of_ne ha]

/-! ## One interrupt -/

/-- The interrupted code has room on its stack for what an interrupt pushes,
and no word of the handlers lies there. -/
structure OnStack (owned : Set Word) (c : Core) : Prop where
  room : 192 ≤ (c.regs .rsp).toNat
  clear : ∀ a ∈ owned, a.toNat + 192 ≤ (c.regs .rsp).toNat ∨ c.regs .rsp ≤ a

theorem aligned_toNat (sp : Word) : (aligned sp).toNat = sp.toNat - sp.toNat % 16 := by
  rw [aligned, BitVec.toNat_sub_of_le]
  · rw [BitVec.toNat_umod]
    rfl
  · rw [BitVec.le_def, BitVec.toNat_umod]
    exact Nat.mod_le _ _

theorem frameTop_toNat {m : Machine} (hroom : 192 ≤ (m.core.regs .rsp).toNat) :
    (frameTop m).toNat + 168 = (aligned (m.core.regs .rsp)).toNat ∧
      (aligned (m.core.regs .rsp)).toNat ≤ (m.core.regs .rsp).toNat ∧
      (m.core.regs .rsp).toNat < (aligned (m.core.regs .rsp)).toNat + 16 ∧
      24 ≤ (frameTop m).toNat := by
  have ha := aligned_toNat (m.core.regs .rsp)
  have hlt := (m.core.regs .rsp).isLt
  have hmod := Nat.mod_lt (m.core.regs .rsp).toNat (show 16 > 0 by decide)
  have htop : (frameTop m).toNat = (aligned (m.core.regs .rsp)).toNat - 168 := by
    rw [frameTop, BitVec.toNat_sub_of_le]
    · rfl
    · rw [BitVec.le_def, ha]
      simp only [BitVec.toNat_ofNat]
      omega
  omega

variable {owned : Set Word}

/-- When the handler has returned, the frame is as it was pushed. -/
theorem handler_frame (h : Handler owned) (returnAddr : Word) {m : Machine} (n : Nat)
    (hm : OnStack owned m.core) {k : Nat} (hk : k < 21) :
    (frameWords m n).reverse[k]? =
      some ((h.run (handlerEntry (deliver m) n returnAddr)).mem
        (frameTop m + 8#64 * BitVec.ofNat 64 k)) := by
  obtain ⟨htop, hle, hlt, h24⟩ := frameTop_toNat hm.room
  have hlen := frameWords_length m n
  have hpushed := pushAll_mem (base m) (frameWords m n) (by omega) (k := k) (by omega)
  rw [pushAll_frame_rsp] at hpushed
  have hoff : (8#64 * BitVec.ofNat 64 k).toNat = 8 * k := by
    simp only [BitVec.toNat_mul, BitVec.toNat_ofNat]
    omega
  have haddr : (frameTop m + 8#64 * BitVec.ofNat 64 k).toNat = (frameTop m).toNat + 8 * k := by
    rw [BitVec.toNat_add, hoff]
    have := (m.core.regs .rsp).isLt
    omega
  have hbelow : (frameTop m - 8#64).toNat = (frameTop m).toNat - 8 := by
    rw [BitVec.toNat_sub_of_le]
    · rfl
    · rw [BitVec.le_def]
      simp only [BitVec.toNat_ofNat]
      omega
  rw [hpushed, h.writes]
  · rw [handlerEntry_mem]
    intro heq
    have := congrArg BitVec.toNat heq
    omega
  · -- the frame is on the stack of the interrupted code
    intro howned
    have hclear := hm.clear _ howned
    rw [BitVec.le_def] at hclear
    omega
  · rw [handlerEntry_rsp, BitVec.lt_def]
    omega

/-- The pops give every register but the stack pointer its value back. -/
theorem returned_regs (h : Handler owned) (returnAddr : Word) {m : Machine} (n : Nat)
    (hm : OnStack owned m.core) {r : Reg} (hr : r ≠ .rsp) :
    (irqCommonReturn (h.run (handlerEntry (deliver m) n returnAddr))).regs r =
      m.core.regs r := by
  set c := h.run (handlerEntry (deliver m) n returnAddr) with hc
  have hsp : c.regs .rsp = frameTop m := by
    rw [hc, h.returns, handlerEntry_rsp]
    bv_omega
  rw [irqCommonReturn, Cpu.addRsp]
  simp only
  rw [Function.update_of_ne hr]
  by_cases hsaved : r ∈ savedRegs.reverse
  · refine foldl_pop_mem_of _ (by decide) c m.core.regs (fun k r' hk => ?_) r hsaved
    have hk14 : k < 14 := (List.getElem?_eq_some_iff.mp hk).1
    have hword := handler_frame h returnAddr n hm (k := k) (by omega)
    rw [← hc, ← hsp] at hword
    rw [frameWords, List.reverse_append, List.reverse_append, ← List.map_reverse, List.append_assoc,
      List.getElem?_append_left (by simpa [savedRegs] using hk14), List.getElem?_map, hk] at hword
    exact (Option.some.inj hword).symm
  · -- `rbx` only, which the handler brings back
    have hbx : r = .rbx := by
      cases r <;> first | rfl | exact absurd rfl hr | exact absurd (by decide) hsaved
    subst hbx
    rw [foldl_pop_of_notMem _ _ hsaved hr, hc, h.keeps _ _ (by decide),
      handlerEntry_regs m n returnAddr hr (by decide)]

theorem returned_rsp (h : Handler owned) (returnAddr : Word) (m : Machine) (n : Nat) :
    (irqCommonReturn (h.run (handlerEntry (deliver m) n returnAddr))).regs .rsp =
      frameTop m + 128#64 := by
  rw [irqCommonReturn, Cpu.addRsp]
  simp only [Function.update_self]
  rw [foldl_pop_rsp _ (by decide), h.returns, handlerEntry_rsp]
  have hlen : 8#64 * BitVec.ofNat 64 savedRegs.reverse.length = 112#64 := by decide
  rw [hlen]
  bv_omega

/-- `iretq` finds what the processor pushed. -/
theorem returned_word (h : Handler owned) (returnAddr : Word) {m : Machine} (n : Nat)
    (hm : OnStack owned m.core) {k : Nat} (hk : k < 5) :
    (irqCommonReturn (h.run (handlerEntry (deliver m) n returnAddr))).mem
        (frameTop m + 128#64 + 8#64 * BitVec.ofNat 64 k) =
      [m.core.rip, m.core.cs, m.core.rflags, m.core.regs .rsp, m.core.ss].getD k 0#64 := by
  have hword := handler_frame h returnAddr n hm (k := 16 + k) (by omega)
  have haddr : frameTop m + 8#64 * BitVec.ofNat 64 (16 + k) =
      frameTop m + 128#64 + 8#64 * BitVec.ofNat 64 k := by
    rw [BitVec.ofNat_add]
    bv_omega
  have hpops : (frameWords m n).reverse[16 + k]? =
      [m.core.rip, m.core.cs, m.core.rflags, m.core.regs .rsp, m.core.ss][k]? := by
    rw [frameWords, deliveredWords, List.reverse_append,
      List.getElem?_append_right (by simp [savedRegs])]
    simp [savedRegs]
  rw [hpops, haddr] at hword
  rw [irqCommonReturn, Cpu.addRsp]
  simp only
  rw [foldl_pop_mem, List.getD_eq_getElem?_getD, hword, Option.getD_some]

/-- **One interrupt.** The interrupted code resumes with every register as it
was, and with every word from its stack pointer up that is not the handlers'. -/
theorem interrupt_returns (h : Handler owned) (returnAddr : Word) {m : Machine} (n : Nat)
    (hm : OnStack owned m.core) :
    (interrupt h returnAddr m n).core = m.core ∧
      ∀ a, a ∉ owned → m.core.regs .rsp ≤ a → (interrupt h returnAddr m n).mem a = m.mem a := by
  rw [interrupt]
  split
  case isFalse => exact ⟨rfl, fun _ _ _ => rfl⟩
  case isTrue =>
    have hword := fun k (hk : k < 5) => returned_word h returnAddr n hm hk
    have hsp := returned_rsp h returnAddr m n
    have hregs := fun r (hr : r ≠ Reg.rsp) => returned_regs h returnAddr n hm hr
    set c := irqCommonReturn (h.run (handlerEntry (deliver m) n returnAddr)) with hc
    constructor
    · have hrip : c.mem (frameTop m + 128#64) = m.core.rip := by simpa using hword 0 (by decide)
      have hcs : c.mem (frameTop m + 128#64 + 8#64) = m.core.cs := hword 1 (by decide)
      have hrflags : c.mem (frameTop m + 128#64 + 16#64) = m.core.rflags := hword 2 (by decide)
      have hrsp : c.mem (frameTop m + 128#64 + 24#64) = m.core.regs .rsp := hword 3 (by decide)
      have hss : c.mem (frameTop m + 128#64 + 32#64) = m.core.ss := hword 4 (by decide)
      have hall : Function.update c.regs .rsp (m.core.regs .rsp) = m.core.regs := by
        funext r
        by_cases hr : r = .rsp
        · rw [hr, Function.update_self]
        · rw [Function.update_of_ne hr, hregs r hr]
      simp only [iretq, hsp, hrip, hcs, hrflags, hrsp, hss, hall]
    · intro a hfree ha
      obtain ⟨htop, hle, -, h24⟩ := frameTop_toNat hm.room
      rw [BitVec.le_def] at ha
      have hbelow : (frameTop m - 8#64).toNat = (frameTop m).toNat - 8 := by
        rw [BitVec.toNat_sub_of_le]
        · rfl
        · rw [BitVec.le_def]
          simp only [BitVec.toNat_ofNat]
          omega
      have habove : (handlerEntry (deliver m) n returnAddr).regs .rsp < a := by
        rw [handlerEntry_rsp, BitVec.lt_def]
        omega
      have hne : a ≠ frameTop m - 8#64 := by
        intro heq
        have := congrArg BitVec.toNat heq
        omega
      have hbase : (base m).regs .rsp = aligned (m.core.regs .rsp) := by
        simp [base]
      rw [iretq, hc, irqCommonReturn, Cpu.addRsp]
      simp only
      rw [foldl_pop_mem, h.writes _ _ hfree habove, handlerEntry_mem m n returnAddr hne,
        pushAll_mem_of]
      · rfl
      · rw [hbase, frameWords_length]
        omega
      · rw [hbase, BitVec.le_def]
        omega

end AegisKernel.Irq
