import AegisKernel.Irq.Gates

/-!
# Interrupts — the rate of the timer

`timer_init` divides the frequency of the interval timer by the frequency it is
asked for and loads the quotient into channel 0, low byte first. The channel
counts sixteen bits, and a count of 0 stands for 65536 (`Pit.period`).

`timer_rate_iff`: the period is the right one exactly for the frequencies from
19 Hz to that of the interval timer. Below, the quotient loses its upper bits;
above, it is 0 and the timer runs at its slowest.
-/

namespace AegisKernel.Irq

/-- Channel 0 of the 8254: which bytes of the count it is loaded with, the low
byte already written, and the count. -/
structure Pit where
  access : BitVec 2
  low : Option (BitVec 8)
  count : BitVec 16

/-- `outb`, as far as channel 0 is concerned. -/
def Pit.outb (p : Pit) (out : Nat × BitVec 8) : Pit :=
  let v := out.2
  match out.1 with
  | 0x43 =>
    -- a control word for this channel, unless it only latches the count
    if v.extractLsb' 6 2 = 0#2 ∧ v.extractLsb' 4 2 ≠ 0#2 then
      { p with access := v.extractLsb' 4 2, low := none }
    else p
  | 0x40 =>
    if p.access = 1#2 then { p with count := 0#8 ++ v }
    else if p.access = 2#2 then { p with count := v ++ 0#8 }
    else
      match p.low with
      | none => { p with low := some v }
      | some low => { p with low := none, count := v ++ low }
  | _ => p

/-- Pulses of the timer's own clock between two ticks. -/
def Pit.period (p : Pit) : Nat := if p.count = 0#16 then 65536 else p.count.toNat

/-- `timer_init` loads the low sixteen bits of the quotient. -/
theorem timerInit_count (p : Pit) {frequency : BitVec 32} (hf : frequency ≠ 0#32) :
    ((timerInit frequency).foldl Pit.outb p).count.toNat =
      1193182 / frequency.toNat % 65536 := by
  have hload : ((timerInit frequency).foldl Pit.outb p).count =
      (((PIT_FREQUENCY / frequency) >>> 8) &&& 0xFF#32).setWidth 8 ++
        ((PIT_FREQUENCY / frequency) &&& 0xFF#32).setWidth 8 := by
    rw [timerInit, if_neg hf]
    rfl
  have hdiv : (PIT_FREQUENCY / frequency).toNat = 1193182 / frequency.toNat := BitVec.toNat_udiv
  have hmask : ∀ x : Nat, x &&& 255 = x % 256 := fun x => Nat.and_two_pow_sub_one_eq_mod x 8
  rw [hload, BitVec.toNat_append]
  simp only [BitVec.toNat_setWidth, BitVec.toNat_and, BitVec.toNat_ushiftRight, BitVec.toNat_ofNat,
    hdiv, Nat.reduceMod, Nat.reducePow, hmask]
  rw [← Nat.shiftLeft_add_eq_or_of_lt (by omega), Nat.shiftLeft_eq, Nat.shiftRight_eq_div_pow]
  omega

/-- The frequency asked for; 0 stands for 1000. -/
def requested (frequency : BitVec 32) : Nat := if frequency = 0#32 then 1000 else frequency.toNat

theorem requested_pos (frequency : BitVec 32) : 0 < requested frequency := by
  rw [requested]
  split
  case isTrue => decide
  case isFalse h =>
    have : frequency.toNat ≠ 0 := fun h0 => h (BitVec.eq_of_toNat_eq h0)
    omega

theorem timerInit_period (p : Pit) (frequency : BitVec 32) :
    ((timerInit frequency).foldl Pit.outb p).period =
      if 1193182 / requested frequency % 65536 = 0 then 65536
      else 1193182 / requested frequency % 65536 := by
  have hcount : ((timerInit frequency).foldl Pit.outb p).count.toNat =
      1193182 / requested frequency % 65536 := by
    rw [requested]
    split
    · next h0 =>
      subst h0
      rfl
    · next h0 => exact timerInit_count p h0
  rw [Pit.period, ← hcount]
  refine if_congr ⟨fun h => ?_, fun h => ?_⟩ rfl rfl
  · rw [h]
    rfl
  · exact BitVec.eq_of_toNat_eq h

/-- **The rate of the timer.** Whatever channel 0 was doing, the period that
`timer_init` sets is the longest one that is not below the frequency asked for
if and only if that frequency is from 19 Hz to 1193182 Hz. -/
theorem timer_rate_iff (p : Pit) (frequency : BitVec 32) :
    let f := requested frequency
    let period := ((timerInit frequency).foldl Pit.outb p).period
    (period * f ≤ 1193182 ∧ 1193182 < (period + 1) * f) ↔ 19 ≤ f ∧ f ≤ 1193182 := by
  intro f period
  have hpos : 0 < f := requested_pos frequency
  have hquotient : (period * f ≤ 1193182 ∧ 1193182 < (period + 1) * f) ↔ 1193182 / f = period := by
    rw [Nat.div_eq_iff hpos, Nat.succ_mul]
    omega
  have hperiod : period = if 1193182 / f % 65536 = 0 then 65536 else 1193182 / f % 65536 :=
    timerInit_period p frequency
  rw [hquotient]
  constructor
  · intro hq
    have hlow : ¬ f < 19 := by
      intro hlt
      have hbig : 1193182 / 18 ≤ 1193182 / f := Nat.div_le_div_left (by omega) hpos
      split at hperiod <;> omega
    have hhigh : ¬ 1193182 < f := by
      intro hlt
      have hzero : 1193182 / f = 0 := Nat.div_eq_of_lt hlt
      rw [hzero] at hperiod hq
      simp at hperiod
      omega
    omega
  · rintro ⟨hlow, hhigh⟩
    have hsmall : 1193182 / f ≤ 1193182 / 19 := Nat.div_le_div_left hlow (by decide)
    have hone : 0 < 1193182 / f := Nat.div_pos hhigh hpos
    have hmod : 1193182 / f % 65536 = 1193182 / f := Nat.mod_eq_of_lt (by omega)
    rw [hperiod, hmod, if_neg (by omega)]

end AegisKernel.Irq
