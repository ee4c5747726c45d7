import Mathlib.Logic.Function.Basic

/-!
# Interrupts — executable model of `isr.asm` and `irq_handler`

The part of the machine the interrupt path uses: the sixteen general-purpose
registers, memory as a map from addresses to 64-bit words, and the three
instructions up to the call of the C handler. The stack pointer the processor
delivers is 8-byte aligned, so every access is to a whole word.

`irqStub n` is the macro `IRQ_STUB n` followed by `irq_common`. A handler's
effects are the functions it calls and the ports it writes, in order.
-/

namespace AegisKernel.Irq

abbrev Word := BitVec 64

inductive Reg
  | rax | rbx | rcx | rdx | rsi | rdi | rbp | rsp
  | r8 | r9 | r10 | r11 | r12 | r13 | r14 | r15
deriving DecidableEq, Repr

structure Cpu where
  regs : Reg → Word
  mem : Word → Word

namespace Cpu

/-- The effect of `push`: the stack grows downwards by one word. -/
def push (c : Cpu) (v : Word) : Cpu :=
  let sp := c.regs .rsp - 8#64
  { regs := Function.update c.regs .rsp sp, mem := Function.update c.mem sp v }

end Cpu

inductive Instr
  | pushImm (v : Word)
  | push (r : Reg)
  | mov (dst src : Reg)

def exec (c : Cpu) : Instr → Cpu
  | .pushImm v => c.push v
  | .push r => c.push (c.regs r)
  | .mov dst src => { c with regs := Function.update c.regs dst (c.regs src) }

/-- The registers `irq_common` saves, in the order it pushes them; `rbx` is
not among them. -/
def savedRegs : List Reg :=
  [.rax, .rcx, .rdx, .rsi, .rdi, .rbp, .r8, .r9, .r10, .r11, .r12, .r13, .r14, .r15]

/-- `irq_common` up to its `call irq_handler`. -/
def irqCommon : List Instr := savedRegs.map .push ++ [.mov .rdi .rsp]

/-- `IRQ_STUB n` -/
def irqStub (n : Nat) : List Instr :=
  [.pushImm 0#64, .pushImm (BitVec.ofNat 64 n)] ++ irqCommon

/-- `call`: the return address goes onto the stack. -/
def call (c : Cpu) (returnAddr : Word) : Cpu := c.push returnAddr

def IRQ_TIMER : Word := 0#64
def IRQ_KEYBOARD : Word := 1#64

/-- What `irq_handler` does to the outside. -/
inductive Effect
  | timerHandler
  | keyboardHandler
  | outb (port val : Nat)
deriving DecidableEq, Repr

/-- `uint64_t irq = *(uint64_t*)regs;` -/
def irqNumber (c : Cpu) (regs : Word) : Word := c.mem regs

/-- `irq_handler` -/
def irqHandler (c : Cpu) (regs : Word) : List Effect :=
  let irq := irqNumber c regs
  -- the `switch`, then the end-of-interrupt commands
  (if irq = IRQ_TIMER then [.timerHandler]
   else if irq = IRQ_KEYBOARD then [.keyboardHandler]
   else []) ++
  [.outb 0x20 0x20] ++ (if irq ≥ 8#64 then [.outb 0xA0 0x20] else [])

/-- The machine when `irq_handler` is entered from `irq_stub_n`. -/
def handlerEntry (c : Cpu) (n : Nat) (returnAddr : Word) : Cpu :=
  call ((irqStub n).foldl exec c) returnAddr

/-- The value `irq_handler` takes for the interrupt number. -/
def handledIrq (c : Cpu) (n : Nat) (returnAddr : Word) : Word :=
  let entry := handlerEntry c n returnAddr
  irqNumber entry (entry.regs .rdi)

/-- The effects of `irq_handler` when `irq_stub_n` is entered on machine `c`. -/
def dispatched (c : Cpu) (n : Nat) (returnAddr : Word) : List Effect :=
  let entry := handlerEntry c n returnAddr
  irqHandler entry (entry.regs .rdi)

end AegisKernel.Irq
