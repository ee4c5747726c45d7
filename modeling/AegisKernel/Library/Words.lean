import Mathlib.Data.Nat.Bitwise

/-!
# Machine words

Facts about unsigned words as bit vectors: clearing the low bits of a word is
rounding down to a power of two, and `(x + a - 1) & ~(a - 1)` is rounding up as
long as the addition does not wrap.
-/

namespace AegisKernel.Library

/-- The least multiple of `a` that is not below `n`, for `0 < a`. -/
def roundUp (a n : Nat) : Nat := (n + a - 1) / a * a

theorem le_roundUp {a n : Nat} (ha : 0 < a) : n ≤ roundUp a n := by
  unfold roundUp
  have h := Nat.lt_div_mul_add ha (a := n + a - 1)
  omega

theorem roundUp_le {a n : Nat} : roundUp a n ≤ n + a - 1 := Nat.div_mul_le_self _ _

theorem dvd_roundUp (a n : Nat) : a ∣ roundUp a n := Dvd.intro_left _ rfl

theorem roundUp_lt {a n : Nat} (ha : 0 < a) : roundUp a n < n + a := by
  have h := roundUp_le (a := a) (n := n)
  omega

/-- No multiple of `a` lies between. -/
theorem roundUp_least {a n m : Nat} (hm : a ∣ m) (hn : n ≤ m) : roundUp a n ≤ m := by
  obtain ⟨k, rfl⟩ := hm
  unfold roundUp
  rw [Nat.mul_comm a k] at hn ⊢
  refine Nat.mul_le_mul_right a ?_
  rcases Nat.eq_zero_or_pos a with rfl | ha
  · simp
  · rw [← Nat.lt_succ_iff, Nat.div_lt_iff_lt_mul ha, Nat.succ_mul]
    omega

theorem roundUp_mono {a n m : Nat} (ha : 0 < a) (h : n ≤ m) : roundUp a n ≤ roundUp a m :=
  roundUp_least (dvd_roundUp a m) (h.trans (le_roundUp ha))

theorem roundUp_eq_self {a n : Nat} (ha : 0 < a) (h : a ∣ n) : roundUp a n = n :=
  Nat.le_antisymm (roundUp_least h (Nat.le_refl n)) (le_roundUp ha)

section BitVectors

variable {w : Nat}

/-- Clearing the low `k` bits. -/
theorem toNat_and_not_mask (x m : BitVec w) (k : Nat) (hm : m.toNat = 2 ^ k - 1) :
    (x &&& ~~~m).toNat = x.toNat / 2 ^ k * 2 ^ k := by
  refine Nat.eq_of_testBit_eq fun i => ?_
  rw [Nat.testBit_mul_two_pow, Nat.testBit_div_two_pow, BitVec.testBit_toNat,
    BitVec.getLsbD_and, BitVec.getLsbD_not, ← BitVec.testBit_toNat m, hm,
    Nat.testBit_two_pow_sub_one]
  -- bit by bit: below `k` both sides are 0, from `k` on both are the bit of `x`
  by_cases hik : i < k
  · simp [hik]
  · have hki : k ≤ i := by omega
    rw [Nat.sub_add_cancel hki, BitVec.testBit_toNat]
    by_cases hiw : i < w
    · simp [hik, hki, hiw]
    · simp [hik, hki, BitVec.getLsbD_of_ge x i (by omega)]

/-- The low bits a mask keeps. -/
theorem toNat_and_mask (x m : BitVec w) (k : Nat) (hm : m.toNat = 2 ^ k - 1) :
    (x &&& m).toNat = x.toNat % 2 ^ k := by
  rw [BitVec.toNat_and, hm, Nat.and_two_pow_sub_one_eq_mod]

/-- `(x + a - 1) & ~(a - 1)` rounds up when `x + a - 1` does not wrap. -/
theorem toNat_add_sub_one_and_not (x a : BitVec w) {k : Nat} (ha : a.toNat = 2 ^ k)
    (hx : x.toNat + a.toNat - 1 < 2 ^ w) :
    ((x + a - 1) &&& ~~~(a - 1)).toNat = roundUp a.toNat x.toNat := by
  have hpos : 0 < 2 ^ k := Nat.two_pow_pos k
  -- words of no bits are a case of their own: there `1` is `0`
  have hone : 1 < 2 ^ w ∨ w = 0 := by
    rcases Nat.eq_zero_or_pos w with h | h
    · exact .inr h
    · exact .inl (Nat.one_lt_two_pow (by omega))
  rcases hone with hone | rfl
  · have h1 : (1 : BitVec w).toNat = 1 := by
      simp [Nat.mod_eq_of_lt hone]
    have halt := a.isLt
    have hmask : (a - 1).toNat = 2 ^ k - 1 := by
      rw [BitVec.toNat_sub, h1, ha]
      rw [ha] at halt
      rw [show 2 ^ w - 1 + 2 ^ k = 2 ^ k - 1 + 2 ^ w by omega, Nat.add_mod_right,
        Nat.mod_eq_of_lt (by omega)]
    have hsum : (x + a - 1).toNat = x.toNat + a.toNat - 1 := by
      rw [BitVec.toNat_sub, BitVec.toNat_add, h1]
      rw [show 2 ^ w - 1 + (x.toNat + a.toNat) % 2 ^ w =
        (x.toNat + a.toNat) % 2 ^ w + (2 ^ w - 1) by omega, Nat.mod_add_mod,
        show x.toNat + a.toNat + (2 ^ w - 1) = x.toNat + a.toNat - 1 + 2 ^ w by omega,
        Nat.add_mod_right, Nat.mod_eq_of_lt hx]
    rw [toNat_and_not_mask _ _ k hmask, hsum, roundUp, ha]
  · have := a.isLt
    omega

end BitVectors

end AegisKernel.Library
