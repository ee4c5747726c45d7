import Mathlib.Data.BitVec
import AegisKernel.Library.Spans

/-!
# Copies onto themselves

`copyUp` reads each byte after it has written those before it. Where the destination
begins `d` bytes behind the source, from the `d`-th byte on it reads what it has
written itself, and so repeats the first `d` bytes.

* `copyUp_repeat` — byte `k` is byte `k % d` of the source.
* `copyUp_exact_iff` — it is byte `k` for all of them if what is overwritten before it
  is read is overwritten with itself.
-/

namespace AegisKernel.Library

variable {w : Nat} {m : BitVec w → UInt8} {p dst src : BitVec w} {n k : Nat}

/-- A span behind `p` does not come back to it. -/
theorem not_mem_span_succ (hn : n + 1 ≤ 2 ^ w) : p ∉ span (p + 1) n := by
  intro h
  obtain ⟨i, hi, heq⟩ := mem_span.mp h
  rw [add_one_add_ofNat] at heq
  have hzero : BitVec.ofNat w (i + 1) = 0#w := BitVec.add_right_eq_self.mp heq.symm
  have hnat := congrArg BitVec.toNat hzero
  rw [BitVec.toNat_ofNat, Nat.mod_eq_of_lt (by omega), BitVec.toNat_ofNat, Nat.zero_mod] at hnat
  omega

/-- The byte of the source that is the first of the destination. -/
theorem add_ofNat_eq_iff {i : Nat} (hi : i < 2 ^ w) :
    src + BitVec.ofNat w i = dst ↔ i = (dst - src).toNat := by
  constructor
  · rintro rfl
    rw [BitVec.add_comm, BitVec.add_sub_cancel, BitVec.toNat_ofNat, Nat.mod_eq_of_lt hi]
  · rintro rfl
    rw [BitVec.ofNat_toNat, BitVec.setWidth_eq, BitVec.add_comm, BitVec.sub_add_cancel]

theorem succ_mod_of_eq {d : Nat} (h : k % d + 1 = d) : (k + 1) % d = 0 := by
  rw [← Nat.mod_add_mod, h, Nat.mod_self]

theorem succ_mod_of_ne {d : Nat} (h : k % d + 1 ≠ d) : (k + 1) % d = k % d + 1 := by
  rcases Nat.eq_zero_or_pos d with rfl | hd
  · rw [Nat.mod_zero, Nat.mod_zero]
  · have hlt := Nat.mod_lt k hd
    rw [← Nat.mod_add_mod, Nat.mod_eq_of_lt (by omega)]

/-- Every copy, wherever source and destination lie. -/
theorem copyUp_repeat (hn : n ≤ 2 ^ w) (hk : k < n) :
    copyUp m dst src n (dst + BitVec.ofNat w k) =
      m (src + BitVec.ofNat w (k % (dst - src).toNat)) := by
  induction n generalizing m dst src k with
  | zero => omega
  | succ n ih =>
    rw [copyUp]
    cases k with
    | zero =>
      rw [BitVec.add_zero, copyUp_outside (not_mem_span_succ hn), Function.update_self,
        Nat.zero_mod, BitVec.add_zero]
    | succ k =>
      have hd : dst + 1 - (src + 1) = dst - src := add_sub_add_right_eq_sub dst src 1
      have hlt : k % (dst - src).toNat + 1 < 2 ^ w := by
        have hle := Nat.mod_le k (dst - src).toNat
        omega
      rw [← add_one_add_ofNat dst, ih (by omega) (by omega), hd, add_one_add_ofNat src]
      by_cases hwrap : k % (dst - src).toNat + 1 = (dst - src).toNat
      · -- the first byte written is read
        rw [(add_ofNat_eq_iff hlt).mpr hwrap, Function.update_self, succ_mod_of_eq hwrap,
          BitVec.add_zero]
      · rw [Function.update_of_ne fun heq => hwrap ((add_ofNat_eq_iff hlt).mp heq),
          succ_mod_of_ne hwrap]

/-- When a copy is one. -/
theorem copyUp_exact_iff (hn : n ≤ 2 ^ w) :
    (∀ k < n, copyUp m dst src n (dst + BitVec.ofNat w k) = m (src + BitVec.ofNat w k)) ↔
      ∀ k, k + (dst - src).toNat < n → m (dst + BitVec.ofNat w k) = m (src + BitVec.ofNat w k) := by
  have hshift : ∀ k, src + BitVec.ofNat w (k + (dst - src).toNat) = dst + BitVec.ofNat w k := by
    intro k
    rw [BitVec.ofNat_add, BitVec.ofNat_toNat, BitVec.setWidth_eq]
    ring
  have hcopy : ∀ k < n, copyUp m dst src n (dst + BitVec.ofNat w k) =
      m (src + BitVec.ofNat w (k % (dst - src).toNat)) := fun k hk => copyUp_repeat hn hk
  constructor
  · intro h k hk
    -- bytes `k` and `k + d` are both byte `k % d`
    have hfar := (hcopy _ hk).symm.trans (h _ hk)
    have hnear := (hcopy k (by omega)).symm.trans (h k (by omega))
    rw [Nat.add_mod_right, hshift] at hfar
    exact hfar.symm.trans hnear
  · intro h k hk
    rw [hcopy k hk]
    induction k using Nat.strong_induction_on with
    | h k ih =>
      rcases Nat.lt_or_ge k (dst - src).toNat with hlt | hge
      · rw [Nat.mod_eq_of_lt hlt]
      rcases Nat.eq_zero_or_pos (dst - src).toNat with hzero | hpos
      · rw [hzero, Nat.mod_zero]
      · obtain ⟨j, rfl⟩ : ∃ j, k = j + (dst - src).toNat := ⟨k - (dst - src).toNat, by omega⟩
        rw [Nat.add_mod_right, hshift, ih j (by omega) (by omega), h j hk]

end AegisKernel.Library
