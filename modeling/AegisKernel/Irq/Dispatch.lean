import Mathlib.Algebra.Group.Nat.Defs
import Mathlib.Data.List.Induction
import AegisKernel.Irq.Definitions

/-!
# Interrupts — which vector the handler sees

`irq_handler` reads the word its argument points to. `irq_common` passes it
the stack pointer after fourteen pushes, so that word is the register pushed
last. The vector the stub pushed lies fourteen words higher.

* `frame_layout` — the words above the handler's argument, in order: `r15`
  down to `rax`, then the vector and the dummy error code.
* `dispatch_iff` — the handler acts on the vector that fired exactly when
  `r15` happens to hold it.
-/

namespace AegisKernel.Irq

/-! ## The stack -/

/-- Push a list of words, first word first. -/
def pushAll (c : Cpu) (vs : List Word) : Cpu := vs.foldl Cpu.push c

theorem pushAll_concat (c : Cpu) (vs : List Word) (v : Word) :
    pushAll c (vs ++ [v]) = (pushAll c vs).push v := by
  simp [pushAll, List.foldl_append]

theorem push_regs_of_ne (c : Cpu) (v : Word) {r : Reg} (hr : r ≠ .rsp) :
    (c.push v).regs r = c.regs r := by
  simp [Cpu.push, hr]

/-- Word `k` above the stack pointer is the word pushed `k` pushes ago. -/
theorem pushAll_mem (c : Cpu) (vs : List Word) (hlen : vs.length ≤ 2 ^ 60) {k : Nat}
    (hk : k < vs.length) :
    vs.reverse[k]? =
      some ((pushAll c vs).mem ((pushAll c vs).regs .rsp + 8#64 * BitVec.ofNat 64 k)) := by
  induction vs using List.reverseRecOn generalizing k with
  | nil => simp at hk
  | append_singleton vs v ih =>
    rw [List.length_append, List.length_singleton] at hk hlen
    rw [pushAll_concat, List.reverse_append, List.reverse_singleton, List.singleton_append]
    set c' := pushAll c vs with hc'
    cases k with
    | zero => simp [Cpu.push]
    | succ k =>
      -- an older word: the push wrote one word below it
      have haddr : c'.regs .rsp - 8#64 + 8#64 * BitVec.ofNat 64 (k + 1) =
          c'.regs .rsp + 8#64 * BitVec.ofNat 64 k := by
        rw [BitVec.ofNat_add]
        bv_omega
      have hne : c'.regs .rsp + 8#64 * BitVec.ofNat 64 k ≠ c'.regs .rsp - 8#64 := by
        intro h
        have h8 : 8#64 * BitVec.ofNat 64 k = 0#64 - 8#64 := by bv_omega
        have hnat := congrArg BitVec.toNat h8
        simp only [BitVec.toNat_mul, BitVec.toNat_ofNat, BitVec.toNat_sub] at hnat
        omega
      rw [List.getElem?_cons_succ, ih (by omega) (by omega)]
      simp only [Cpu.push, Function.update_self, haddr]
      rw [Function.update_of_ne hne]

/-! ## The frame `irq_handler` is given -/

/-- The stub and the pushes of `irq_common` put these words on the stack. -/
def pushedWords (c : Cpu) (n : Nat) : List Word :=
  [0#64, BitVec.ofNat 64 n] ++ savedRegs.map c.regs

theorem foldl_push_regs (c : Cpu) (rs : List Reg) (hrs : ∀ r ∈ rs, r ≠ .rsp) :
    (rs.map Instr.push).foldl exec c = pushAll c (rs.map c.regs) := by
  induction rs generalizing c with
  | nil => rfl
  | cons r rs ih =>
    have hrest : ∀ r' ∈ rs, r' ≠ .rsp := fun r' hr' => hrs r' (List.mem_cons_of_mem _ hr')
    rw [List.map_cons, List.foldl_cons, exec, ih _ hrest]
    -- pushing changes no register but `rsp`, so the later words are the same
    have hsame : rs.map (c.push (c.regs r)).regs = rs.map c.regs :=
      List.map_congr_left fun r' hr' => push_regs_of_ne c _ (hrest r' hr')
    rw [hsame]
    rfl

/-- At the call, `rdi` is the stack pointer after all the pushes, and memory
above it is what was pushed. -/
theorem irqStub_state (c : Cpu) (n : Nat) :
    ((irqStub n).foldl exec c).mem = (pushAll c (pushedWords c n)).mem ∧
      ((irqStub n).foldl exec c).regs .rdi = (pushAll c (pushedWords c n)).regs .rsp ∧
      ((irqStub n).foldl exec c).regs .rsp = (pushAll c (pushedWords c n)).regs .rsp := by
  set c₂ := (c.push 0#64).push (BitVec.ofNat 64 n) with hc₂
  have hsaved : ∀ r ∈ savedRegs, r ≠ .rsp := by decide
  have hregs : savedRegs.map c₂.regs = savedRegs.map c.regs := by
    refine List.map_congr_left fun r hr => ?_
    rw [hc₂, push_regs_of_ne _ _ (hsaved r hr), push_regs_of_ne _ _ (hsaved r hr)]
  have hstub : (irqStub n).foldl exec c =
      exec (pushAll c₂ (savedRegs.map c₂.regs)) (.mov .rdi .rsp) := by
    rw [← foldl_push_regs c₂ savedRegs hsaved]
    simp [irqStub, irqCommon, exec, List.foldl_append, hc₂]
  have hall : pushAll c (pushedWords c n) = pushAll c₂ (savedRegs.map c₂.regs) := by
    rw [hregs, pushedWords, hc₂]
    simp [pushAll]
  rw [hstub, hall]
  simp [exec]

/-- **Frame layout.** The words from the handler's argument upwards are the
saved registers, last pushed first, then the vector and the error code. -/
theorem frame_layout (c : Cpu) (n : Nat) (returnAddr : Word) {k : Nat} (hk : k < 16) :
    (pushedWords c n).reverse[k]? =
      some ((handlerEntry c n returnAddr).mem
        ((handlerEntry c n returnAddr).regs .rdi + 8#64 * BitVec.ofNat 64 k)) := by
  obtain ⟨hmem, hrdi, hrsp⟩ := irqStub_state c n
  have hlen : (pushedWords c n).length = 16 := by simp [pushedWords, savedRegs]
  have hlayout := pushAll_mem c (pushedWords c n) (by omega) (k := k) (by omega)
  rw [hlayout]
  unfold handlerEntry call Cpu.push
  simp only [Function.update_of_ne (show Reg.rdi ≠ Reg.rsp by decide), hmem, hrdi, hrsp]
  -- the return address goes below the frame
  rw [Function.update_of_ne]
  bv_omega

/-- The handler takes `r15` for the interrupt number. -/
theorem handledIrq_eq (c : Cpu) (n : Nat) (returnAddr : Word) :
    handledIrq c n returnAddr = c.regs .r15 := by
  have h0 := frame_layout c n returnAddr (k := 0) (by decide)
  simp [pushedWords, savedRegs] at h0
  rw [handledIrq, irqNumber]
  exact h0.symm

/-! ## Dispatch -/

/-- The handler acts on vector `n`: it switches on it, runs the timer and the
keyboard handler for their vectors only, and acknowledges the second
controller for vectors from 8 on. -/
structure ActsOn (c : Cpu) (n : Nat) (returnAddr : Word) : Prop where
  number : handledIrq c n returnAddr = BitVec.ofNat 64 n
  timer : .timerHandler ∈ dispatched c n returnAddr ↔ BitVec.ofNat 64 n = IRQ_TIMER
  keyboard : .keyboardHandler ∈ dispatched c n returnAddr ↔ BitVec.ofNat 64 n = IRQ_KEYBOARD
  secondEoi : .outb 0xA0 0x20 ∈ dispatched c n returnAddr ↔ 8 ≤ n

/-- What the handler does with the number it has read. -/
def effectsOf (irq : Word) : List Effect :=
  (if irq = IRQ_TIMER then [.timerHandler]
   else if irq = IRQ_KEYBOARD then [.keyboardHandler]
   else []) ++
  [.outb 0x20 0x20] ++ (if irq ≥ 8#64 then [.outb 0xA0 0x20] else [])

theorem dispatched_eq (c : Cpu) (n : Nat) (returnAddr : Word) :
    dispatched c n returnAddr = effectsOf (handledIrq c n returnAddr) := rfl

/-- On the sixteen vectors the effects are the right ones. -/
theorem effectsOf_vector (n : Fin 16) :
    (.timerHandler ∈ effectsOf (BitVec.ofNat 64 n) ↔ BitVec.ofNat 64 n = IRQ_TIMER) ∧
      (.keyboardHandler ∈ effectsOf (BitVec.ofNat 64 n) ↔ BitVec.ofNat 64 n = IRQ_KEYBOARD) ∧
      (.outb 0xA0 0x20 ∈ effectsOf (BitVec.ofNat 64 n) ↔ 8 ≤ n.val) := by
  revert n
  decide

/-- **Dispatch.** For every vector and every machine state in which its stub is
entered, `irq_handler` acts on that vector if and only if `r15` holds it. -/
theorem dispatch_iff (n : Fin 16) (c : Cpu) (returnAddr : Word) :
    ActsOn c n returnAddr ↔ c.regs .r15 = BitVec.ofNat 64 n := by
  have hread := handledIrq_eq c n returnAddr
  constructor
  · intro h
    rw [← hread]
    exact h.number
  · intro h15
    have hn : handledIrq c n returnAddr = BitVec.ofNat 64 n := hread.trans h15
    obtain ⟨htimer, hkeyboard, heoi⟩ := effectsOf_vector n
    refine ⟨hn, ?_, ?_, ?_⟩
    · rw [dispatched_eq, hn]
      exact htimer
    · rw [dispatched_eq, hn]
      exact hkeyboard
    · rw [dispatched_eq, hn]
      exact heoi

/-- A timer interrupt that finds 1 in `r15` runs the keyboard handler, and not
the timer handler. -/
theorem timer_runs_keyboard :
    let c : Cpu := ⟨fun r => if r = .r15 then 1#64 else 0x8000#64, fun _ => 0#64⟩
    dispatched c 0 0#64 = [.keyboardHandler, .outb 0x20 0x20] ∧ ¬ ActsOn c 0 0#64 := by
  intro c
  have hread : handledIrq c 0 0#64 = 1#64 := handledIrq_eq c 0 0#64
  refine ⟨?_, fun h => ?_⟩
  · rw [dispatched_eq, hread]
    decide
  · have hnumber := h.number
    rw [hread] at hnumber
    revert hnumber
    decide

end AegisKernel.Irq
