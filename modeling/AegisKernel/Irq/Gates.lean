import Mathlib.Tactic.IntervalCases
import AegisKernel.Irq.Return

/-!
# Interrupts — from a line to its stub

`idt_init` in `idt.c`: the 256 gates, and the two interrupt controllers it
programs. The loop takes 256 addresses from `isr_stub_table`, which has 32 of
them; `isr.asm` puts the sixteen of `irq_stub_table` right behind, and what
follows those is not known (`Layout.beyond`).

The processor and the controllers are the documented ones: a gate is read from
its sixteen bytes (`Gate.bits`, `enter`), and a controller takes its four
initialisation words in order (`Pic.data`).

`lines_reach_stubs`: whatever the controllers and the table held before, every
line leads to its own stub through an interrupt gate.
-/

namespace AegisKernel.Irq

/-! ## Gates -/

/-- `idt_entry_t` -/
structure Gate where
  offsetLow : BitVec 16
  selector : BitVec 16
  ist : BitVec 8
  typeAttr : BitVec 8
  offsetMid : BitVec 16
  offsetHigh : BitVec 32
  zero : BitVec 32

def IDT_ENTRIES : Nat := 256

/-- `idt` -/
abbrev Idt := BitVec 8 → Gate

/-- `idt_set_gate` -/
def idtSetGate (idt : Idt) (num : BitVec 8) (handler : Word) (selector : BitVec 16)
    (flags : BitVec 8) : Idt :=
  Function.update idt num
    { offsetLow := (handler &&& 0xFFFF#64).setWidth 16
      selector := selector
      ist := 0#8
      typeAttr := flags
      offsetMid := ((handler >>> 16) &&& 0xFFFF#64).setWidth 16
      offsetHigh := ((handler >>> 32) &&& 0xFFFFFFFF#64).setWidth 32
      zero := 0#32 }

/-- A gate as the number its sixteen bytes are, the first field lowest. -/
def Gate.bits (g : Gate) : BitVec 128 :=
  g.zero ++ g.offsetHigh ++ g.offsetMid ++ g.typeAttr ++ g.ist ++ g.selector ++ g.offsetLow

/-- Where the processor goes, and on which stack: 0 is the current one. -/
structure Target where
  rip : Word
  cs : BitVec 16
  stack : BitVec 3
deriving DecidableEq

/-- The processor takes vector `v` through a present 64-bit interrupt gate: type
14, system bit clear. -/
def enter (idt : Idt) (v : BitVec 8) : Option Target :=
  let d := (idt v).bits
  if d.extractLsb' 40 5 = 14#5 ∧ d.extractLsb' 47 1 = 1#1 then
    some
      { rip := d.extractLsb' 64 32 ++ d.extractLsb' 48 16 ++ d.extractLsb' 0 16
        cs := d.extractLsb' 16 16
        stack := d.extractLsb' 32 3 }
  else none

/-! ## The controllers -/

/-- An 8259: the vector of its line 0, where it is cascaded, its mask, and which
initialisation word it expects next on its data port. -/
structure Pic where
  base : BitVec 8
  cascade : BitVec 8
  mask : BitVec 8
  expects : Option (Fin 3)
  single : Bool
  wantsIcw4 : Bool

/-- A byte at the command port. -/
def Pic.command (p : Pic) (v : BitVec 8) : Pic :=
  if v.getLsbD 4 then
    { p with mask := 0#8, expects := some 0, single := v.getLsbD 1, wantsIcw4 := v.getLsbD 0 }
  else p

/-- A byte at the data port. -/
def Pic.data (p : Pic) (v : BitVec 8) : Pic :=
  let last := if p.wantsIcw4 then some 2 else none
  match p.expects with
  | some 0 => { p with base := v &&& 0xF8#8, expects := if p.single then last else some 1 }
  | some 1 => { p with cascade := v, expects := last }
  | some 2 => { p with expects := none }
  | none => { p with mask := v }

structure Pics where
  master : Pic
  slave : Pic

/-- `outb`, as far as the controllers are concerned. -/
def Pics.outb (p : Pics) (out : Nat × BitVec 8) : Pics :=
  match out.1 with
  | 0x20 => { p with master := p.master.command out.2 }
  | 0x21 => { p with master := p.master.data out.2 }
  | 0xA0 => { p with slave := p.slave.command out.2 }
  | 0xA1 => { p with slave := p.slave.data out.2 }
  | _ => p

/-- The vector the processor is given for line `n` of the pair. The lines from 8
on come in over the line of the first controller that the second is wired to. -/
def Pics.vector (p : Pics) (n : Nat) : Option (BitVec 8) :=
  if n < 8 then
    if p.master.mask.getLsbD n || p.master.cascade.getLsbD n then none
    else some (p.master.base + BitVec.ofNat 8 n)
  else
    let line := (p.slave.cascade &&& 7#8).toNat
    if p.slave.mask.getLsbD (n - 8) || p.master.mask.getLsbD line || !p.master.cascade.getLsbD line
    then none
    else some (p.slave.base + BitVec.ofNat 8 (n - 8))

/-! ## `idt_init` -/

/-- Where the stubs are, and what lies behind their tables. -/
structure Layout where
  isr : Nat → Word
  irq : Nat → Word
  beyond : Nat → Word

/-- `isr_stub_table[i]` -/
def Layout.isrStubTable (l : Layout) (i : Nat) : Word :=
  if i < 32 then l.isr i else if i < 48 then l.irq (i - 32) else l.beyond i

/-- `irq_stub_table[i]` -/
def Layout.irqStubTable (l : Layout) (i : Nat) : Word := l.isrStubTable (32 + i)

/-- The loop of `idt_init` -/
def setGates (l : Layout) (idt : Idt) (n : Nat) : Idt :=
  (List.range n).foldl
    (fun idt i => idtSetGate idt (BitVec.ofNat 8 i) (l.isrStubTable i) 0x08#16 0x8E#8) idt

def PIT_FREQUENCY : BitVec 32 := 1193182#32

/-- `timer_init`: the ports it writes. -/
def timerInit (frequency : BitVec 32) : List (Nat × BitVec 8) :=
  let frequency := if frequency = 0#32 then 1000#32 else frequency
  let divisor := PIT_FREQUENCY / frequency
  [(0x43, 0x36#8), (0x40, (divisor &&& 0xFF#32).setWidth 8),
    (0x40, ((divisor >>> 8) &&& 0xFF#32).setWidth 8)]

/-- `keyboard_init` -/
def keyboardInit : List (Nat × BitVec 8) := [(0x64, 0xAE#8)]

/-- `idt_init`: the gates, and the ports it writes. -/
def idtInit (l : Layout) (idt : Idt) : Idt × List (Nat × BitVec 8) :=
  let idt := setGates l idt IDT_ENTRIES
  let idt := idtSetGate idt (IRQ_TIMER.setWidth 8 + 32#8) (l.irqStubTable IRQ_TIMER.toNat)
    0x08#16 0x8E#8
  let idt := idtSetGate idt (IRQ_KEYBOARD.setWidth 8 + 32#8) (l.irqStubTable IRQ_KEYBOARD.toNat)
    0x08#16 0x8E#8
  (idt,
    [(0x20, 0x11#8), (0xA0, 0x11#8), (0x21, 0x20#8), (0xA1, 0x28#8), (0x21, 0x04#8),
      (0xA1, 0x02#8), (0x21, 0x01#8), (0xA1, 0x01#8), (0x21, 0x00#8), (0xA1, 0x00#8)] ++
    timerInit 1000#32 ++ keyboardInit)

/-! ## Gates read back -/

/-- The target of a gate that `idt_init` sets. -/
def stubTarget (handler : Word) : Target := ⟨handler, 0x08#16, 0#3⟩

theorem setWidth_and_mask (x : Word) (w : Nat) :
    (x &&& BitVec.ofNat 64 (2 ^ w - 1)).setWidth w = x.setWidth w := by
  ext i hi
  simp only [BitVec.getElem_setWidth, BitVec.getLsbD_and, BitVec.getLsbD_ofNat,
    Nat.testBit_two_pow_sub_one]
  by_cases h64 : i < 64
  · simp [hi, h64]
  · rw [BitVec.getLsbD_of_ge x i (by omega), Bool.false_and]

/-- The three parts of an address, put together again. -/
theorem offset_parts (handler : Word) :
    ((handler >>> 32) &&& 0xFFFFFFFF#64).setWidth 32 ++
      ((handler >>> 16) &&& 0xFFFF#64).setWidth 16 ++ (handler &&& 0xFFFF#64).setWidth 16 =
      handler := by
  have hhigh : ((handler >>> 32) &&& 0xFFFFFFFF#64).setWidth 32 = handler.extractLsb' 32 32 := by
    rw [show 0xFFFFFFFF#64 = BitVec.ofNat 64 (2 ^ 32 - 1) from rfl, setWidth_and_mask]
    rfl
  have hmid : ((handler >>> 16) &&& 0xFFFF#64).setWidth 16 = handler.extractLsb' 16 16 := by
    rw [show 0xFFFF#64 = BitVec.ofNat 64 (2 ^ 16 - 1) from rfl, setWidth_and_mask]
    rfl
  have hlow : (handler &&& 0xFFFF#64).setWidth 16 = handler.extractLsb' 0 16 := by
    rw [show 0xFFFF#64 = BitVec.ofNat 64 (2 ^ 16 - 1) from rfl, setWidth_and_mask]
    rfl
  rw [hhigh, hmid, hlow,
    BitVec.extractLsb'_append_extractLsb'_eq_extractLsb' (show 32 = 16 + 16 from rfl)]
  exact (BitVec.extractLsb'_append_extractLsb'_eq_extractLsb' (show 16 = 0 + 16 from rfl)).trans
    BitVec.extractLsb'_eq_self

/-- Each field is read where it was put. -/
theorem Gate.fields (g : Gate) :
    g.bits.extractLsb' 0 16 = g.offsetLow ∧ g.bits.extractLsb' 16 16 = g.selector ∧
      g.bits.extractLsb' 32 3 = g.ist.extractLsb' 0 3 ∧
      g.bits.extractLsb' 40 5 = g.typeAttr.extractLsb' 0 5 ∧
      g.bits.extractLsb' 47 1 = g.typeAttr.extractLsb' 7 1 ∧
      g.bits.extractLsb' 48 16 = g.offsetMid ∧ g.bits.extractLsb' 64 32 = g.offsetHigh := by
  unfold Gate.bits
  refine ⟨?_, ?_, ?_, ?_, ?_, ?_, ?_⟩
  · exact BitVec.extractLsb'_append_eq_right
  · rw [BitVec.extractLsb'_append_eq_of_le (by decide)]
    exact BitVec.extractLsb'_append_eq_right
  · iterate 2 rw [BitVec.extractLsb'_append_eq_of_le (by decide)]
    rw [BitVec.extractLsb'_append_eq_of_add_le (by decide)]
  · iterate 3 rw [BitVec.extractLsb'_append_eq_of_le (by decide)]
    rw [BitVec.extractLsb'_append_eq_of_add_le (by decide)]
  · iterate 3 rw [BitVec.extractLsb'_append_eq_of_le (by decide)]
    rw [BitVec.extractLsb'_append_eq_of_add_le (by decide)]
  · iterate 4 rw [BitVec.extractLsb'_append_eq_of_le (by decide)]
    exact BitVec.extractLsb'_append_eq_right
  · iterate 5 rw [BitVec.extractLsb'_append_eq_of_le (by decide)]
    exact BitVec.extractLsb'_append_eq_right

theorem enter_setGate (idt : Idt) (num : BitVec 8) (handler : Word) :
    enter (idtSetGate idt num handler 0x08#16 0x8E#8) num = some (stubTarget handler) := by
  rw [enter, idtSetGate, Function.update_self]
  obtain ⟨hlow, hselector, hist, htype, hpresent, hmid, hhigh⟩ := Gate.fields
    { offsetLow := (handler &&& 0xFFFF#64).setWidth 16
      selector := 0x08#16
      ist := 0#8
      typeAttr := 0x8E#8
      offsetMid := ((handler >>> 16) &&& 0xFFFF#64).setWidth 16
      offsetHigh := ((handler >>> 32) &&& 0xFFFFFFFF#64).setWidth 32
      zero := 0#32 }
  simp only [hlow, hselector, hist, htype, hpresent, hmid, hhigh, offset_parts]
  rfl

theorem enter_setGate_of_ne (idt : Idt) {num v : BitVec 8} (hne : v ≠ num) (handler : Word) :
    enter (idtSetGate idt num handler 0x08#16 0x8E#8) v = enter idt v := by
  rw [enter, enter, idtSetGate, Function.update_of_ne hne]

/-- The loop sets the gate of every vector it has come to. -/
theorem enter_setGates (l : Layout) (idt : Idt) {n : Nat} (hn : n ≤ 256) {i : Nat} (hi : i < n) :
    enter (setGates l idt n) (BitVec.ofNat 8 i) = some (stubTarget (l.isrStubTable i)) := by
  induction n with
  | zero => exact absurd hi (Nat.not_lt_zero i)
  | succ n ih =>
    rw [setGates, List.range_succ, List.foldl_append, List.foldl_cons, List.foldl_nil,
      ← setGates]
    by_cases hlast : i = n
    · rw [hlast, enter_setGate]
    · rw [enter_setGate_of_ne, ih (by omega) (by omega)]
      intro heq
      have := congrArg BitVec.toNat heq
      simp only [BitVec.toNat_ofNat] at this
      omega

/-- **Gates.** Vector `i` is entered at the `i`-th address behind
`isr_stub_table`; the two gates set after the loop are set to what they were. -/
theorem enter_idtInit (l : Layout) (idt : Idt) {i : Nat} (hi : i < 256) :
    enter (idtInit l idt).1 (BitVec.ofNat 8 i) = some (stubTarget (l.isrStubTable i)) := by
  have hloop := enter_setGates l idt (n := IDT_ENTRIES) (le_refl _) hi
  simp only [idtInit]
  by_cases hkeyboard : i = 33
  · rw [hkeyboard]
    exact enter_setGate _ _ _
  · rw [enter_setGate_of_ne]
    · by_cases htimer : i = 32
      · rw [htimer]
        exact enter_setGate _ _ _
      · rw [enter_setGate_of_ne, hloop]
        intro heq
        have := congrArg BitVec.toNat heq
        simp [IRQ_TIMER] at this
        omega
    · intro heq
      have := congrArg BitVec.toNat heq
      simp [IRQ_KEYBOARD] at this
      omega

/-! ## The controllers programmed -/

/-- Whatever the controllers were in the middle of, afterwards both are
initialised: vectors from 32 and from 40, cascaded over line 2, nothing masked. -/
theorem pics_idtInit (l : Layout) (idt : Idt) (p : Pics) :
    (idtInit l idt).2.foldl Pics.outb p =
      { master := ⟨0x20#8, 0x04#8, 0#8, none, false, true⟩
        slave := ⟨0x28#8, 0x02#8, 0#8, none, false, true⟩ } := rfl

/-- **From a line to its stub.** After `idt_init`, whatever the table and the
controllers held before, each line other than the one the second controller
hangs on gives the processor the vector 32 above its number, and the gate of
that vector leads to the line's own stub. -/
theorem lines_reach_stubs (l : Layout) (idt : Idt) (p : Pics) (n : Nat) (hn : n < 16)
    (hcascade : n ≠ 2) :
    ∃ v, ((idtInit l idt).2.foldl Pics.outb p).vector n = some v ∧ v.toNat = 32 + n ∧
      enter (idtInit l idt).1 v = some (stubTarget (l.irq n)) := by
  have hgate := enter_idtInit l idt (show 32 + n < 256 by omega)
  have hstub : l.isrStubTable (32 + n) = l.irq n := by
    rw [Layout.isrStubTable, if_neg (by omega), if_pos (by omega), Nat.add_sub_cancel_left]
  refine ⟨BitVec.ofNat 8 (32 + n), ?_, ?_, by rw [hgate, hstub]⟩
  · rw [pics_idtInit]
    interval_cases n <;> first | rfl | exact absurd rfl hcascade
  · rw [BitVec.toNat_ofNat]
    omega

/-- The keyboard's line, from controllers in the middle of an initialisation. -/
theorem keyboard_line_reaches_stub :
    let l : Layout :=
      ⟨fun i => 0x1000#64 + BitVec.ofNat 64 i, fun i => 0x2000#64 + BitVec.ofNat 64 i, fun _ => 0#64⟩
    let idt : Idt := fun _ => ⟨0#16, 0#16, 0#8, 0#8, 0#16, 0#32, 0#32⟩
    let pic : Pic := ⟨8#8, 0#8, 0xFF#8, some 1, true, false⟩
    ∃ v, ((idtInit l idt).2.foldl Pics.outb ⟨pic, pic⟩).vector 1 = some v ∧ v.toNat = 33 ∧
      enter (idtInit l idt).1 v = some (stubTarget 0x2001#64) :=
  lines_reach_stubs _ _ _ 1 (by decide) (by decide)

end AegisKernel.Irq
