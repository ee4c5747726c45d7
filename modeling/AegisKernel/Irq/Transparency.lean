import AegisKernel.Library.Unwinding
import AegisKernel.Library.Runs
import AegisKernel.Irq.Return

/-!
# Interrupts — what interrupted code notices

Interrupts as an unwinding: the observer is the interrupted code, the hidden
events are the interrupts, each by a vector and a handler of its own. Hidden
events keep `Alike` by `interrupt_returns`, and the code's own steps keep it
because they read nothing but registers and `live` words.
-/

namespace AegisKernel.Irq

open AegisKernel.Library

variable {owned : Set Word}

/-! ## Interrupted code -/

/-- Code that may be interrupted, one step at a time. `live` are the words it
can still read before it writes them: none of the handlers', none below its
stack pointer. -/
structure Program (owned : Set Word) (ρ : Type) where
  step : Machine → ρ × Machine
  live : Core → Set Word
  clear : ∀ c, ∀ a ∈ live c, a ∉ owned ∧ c.regs .rsp ≤ a
  stack : ∀ m, OnStack owned m.core → OnStack owned (step m).2.core
  reads : ∀ m m', m.core = m'.core → (∀ a ∈ live m.core, m.mem a = m'.mem a) →
    (step m).1 = (step m').1 ∧ (step m).2.core = (step m').2.core ∧
      ∀ a ∈ live (step m).2.core, (step m).2.mem a = (step m').2.mem a

/-- What happens next: a step of the program, or vector `n`, whose handler is
`h` this time. -/
inductive Event (owned : Set Word)
  | step
  | interrupt (n : Nat) (h : Handler owned) (returnAddr : Word)

def Event.isInterrupt : Event owned → Bool
  | .step => false
  | .interrupt .. => true

variable {ρ : Type}

/-- One event, and what the program computes in it. -/
def Program.exec (p : Program owned ρ) (m : Machine) : Event owned → Option ρ × Machine
  | .step => (some (p.step m).1, (p.step m).2)
  | .interrupt n h returnAddr => (none, interrupt h returnAddr m n)

/-- Two machines the program does not tell apart. -/
structure Alike (p : Program owned ρ) (m m' : Machine) : Prop where
  stack : OnStack owned m.core
  core : m.core = m'.core
  mem : ∀ a ∈ p.live m.core, m.mem a = m'.mem a

theorem Alike.symm {p : Program owned ρ} {m m' : Machine} (h : Alike p m m') : Alike p m' m :=
  ⟨h.core ▸ h.stack, h.core.symm, fun a ha => (h.mem a (h.core ▸ ha)).symm⟩

theorem Alike.trans {p : Program owned ρ} {m₁ m₂ m₃ : Machine} (h : Alike p m₁ m₂)
    (h' : Alike p m₂ m₃) : Alike p m₁ m₃ :=
  ⟨h.stack, h.core.trans h'.core, fun a ha => (h.mem a ha).trans (h'.mem a (h.core ▸ ha))⟩

/-- An interrupt goes unnoticed. -/
theorem alike_interrupt (p : Program owned ρ) {m : Machine} (hm : OnStack owned m.core) (n : Nat)
    (h : Handler owned) (returnAddr : Word) : Alike p (interrupt h returnAddr m n) m := by
  obtain ⟨hcore, hmem⟩ := interrupt_returns h returnAddr n hm
  refine ⟨hcore ▸ hm, hcore, fun a ha => ?_⟩
  rw [hcore] at ha
  obtain ⟨hfree, hsp⟩ := p.clear _ a ha
  exact hmem a hfree hsp

theorem unwinding_interrupts (p : Program owned ρ) :
    Unwinding p.exec Event.isInterrupt (Alike p) where
  left m m' e hmm he := by
    cases e with
    | step => exact absurd he Bool.false_ne_true
    | interrupt n h returnAddr => exact (alike_interrupt p hmm.stack n h returnAddr).trans hmm
  right m m' e hmm he := by
    cases e with
    | step => exact absurd he Bool.false_ne_true
    | interrupt n h returnAddr =>
      exact hmm.trans (alike_interrupt p hmm.symm.stack n h returnAddr).symm
  reply m m' e hmm he := by
    cases e with
    | step => exact congrArg some (p.reads m m' hmm.core hmm.mem).1
    | interrupt n h returnAddr => exact absurd he Bool.noConfusion
  next m m' e hmm he := by
    cases e with
    | step =>
      obtain ⟨-, hcore, hmem⟩ := p.reads m m' hmm.core hmm.mem
      exact ⟨p.stack m hmm.stack, hcore, hmem⟩
    | interrupt n h returnAddr => exact absurd he Bool.noConfusion

/-- **Transparency.** However often, wherever and by whichever vectors a run of
the program is interrupted, it computes what it computes with any of the
interrupts left out, and ends with the same registers. -/
theorem interrupts_transparent (p : Program owned ρ) {m : Machine} (hm : OnStack owned m.core)
    {es es' : List (Event owned)} (h : Pruned Event.isInterrupt es es') :
    seen Event.isInterrupt (trace p.exec m es) = seen Event.isInterrupt (trace p.exec m es') ∧
      (run (fun m e => (p.exec m e).2) m es).core =
        (run (fun m e => (p.exec m e).2) m es').core := by
  have hU := unwinding_interrupts p
  have hself : Alike p m m := ⟨hm, rfl, fun _ _ => rfl⟩
  exact ⟨hU.seen_eq h hself, (hU.run_related h hself).core⟩

/-- A handler that counts its calls at 0x7000 and loses the register `rax`. -/
def tickHandler : Handler {0x7000#64} where
  run c :=
    { regs := Function.update (Function.update c.regs .rsp (c.regs .rsp + 8#64)) .rax 0#64
      mem := Function.update c.mem 0x7000#64 (c.mem 0x7000#64 + 1#64) }
  keeps c r hr := by
    have hne : r ≠ .rsp ∧ r ≠ .rax := by
      revert hr
      cases r <;> decide
    simp [hne.1, hne.2]
  returns c := by simp
  writes c a ha _ := Function.update_of_ne (show a ≠ 0x7000#64 from ha) _ _

/-- A loop that increments the word on top of its stack, in `rax`. -/
def counter : Program {0x7000#64} Word where
  step m :=
    if m.core.regs .rsp = 0x9000#64 then
      let v := m.mem 0x9000#64 + 1#64
      (v, { core := { m.core with regs := Function.update m.core.regs .rax v }
            mem := Function.update m.mem 0x9000#64 v })
    else (0#64, m)
  live c := {a | a = 0x9000#64 ∧ c.regs .rsp = 0x9000#64}
  clear c a ha := by
    obtain ⟨rfl, hsp⟩ := ha
    exact ⟨show ¬ 0x9000#64 = 0x7000#64 by decide, by rw [hsp, BitVec.le_def]⟩
  stack m hm := by
    dsimp only
    split
    · exact ⟨hm.room, hm.clear⟩
    · exact hm
  reads m m' hcore hmem := by
    dsimp only
    rw [← hcore]
    split
    · next hsp =>
      have hword : m.mem 0x9000#64 = m'.mem 0x9000#64 := hmem _ ⟨rfl, hsp⟩
      rw [hword]
      refine ⟨rfl, rfl, fun a ha => ?_⟩
      obtain ⟨rfl, -⟩ := ha
      simp
    · exact ⟨rfl, hcore, hmem⟩

theorem counter_interrupted :
    let m : Machine := ⟨⟨fun r => if r = .rsp then 0x9000#64 else 0#64, 0x8000#64, 8#64, 0x202#64,
      16#64⟩, fun _ => 0#64⟩
    (seen Event.isInterrupt (trace counter.exec m
      [.step, .interrupt 0 tickHandler 0x100#64, .step, .interrupt 1 tickHandler 0x100#64,
        .interrupt 0 tickHandler 0x100#64, .step])).map Prod.snd =
      [some 1#64, some 2#64, some 3#64] := by
  intro m
  have hm : OnStack {0x7000#64} m.core := by
    refine ⟨by decide, fun a ha => Or.inl ?_⟩
    obtain rfl := ha
    decide
  have hpruned : Pruned Event.isInterrupt
      [.step, .interrupt 0 tickHandler 0x100#64, .step, .interrupt 1 tickHandler 0x100#64,
        .interrupt 0 tickHandler 0x100#64, .step] [.step, .step, .step] :=
    .keep _ (.drop rfl (.keep _ (.drop rfl (.drop rfl (.keep _ .nil)))))
  rw [(interrupts_transparent counter hm hpruned).1]
  decide

end AegisKernel.Irq
