import Mathlib.Logic.Function.Basic
import AegisKernel.Library.Bytes

/-!
# Spans of wrapping memory

Byte memory whose addresses are words: `p + 1` of the last address is the first.

* `span p n` — the `n` addresses from `p` on. An address is in it when its
  distance from `p` is below `n` (`mem_span_iff`).
* `fetch m p n` — the little-endian number in a span; it depends on the span only
  (`fetch_congr`).
* `copyUp` and `fillUp` — the byte loops of `memcpy` and `memset`, lowest address
  first. Both leave what is outside of the destination alone, and a copy from a
  span off the destination brings that span over (`copyUp_apart`).
-/

namespace AegisKernel.Library

variable {w : Nat}

def span (p : BitVec w) : Nat → List (BitVec w)
  | 0 => []
  | n + 1 => p :: span (p + 1) n

/-- Bytes from `p` on, and zeros elsewhere. -/
def bytesAt (p : BitVec w) (bs : Bytes) : BitVec w → UInt8 := fun a => bs.getD (a - p).toNat 0

def fetch (m : BitVec w → UInt8) (p : BitVec w) (n : Nat) : Nat := unle ((span p n).map m)

def copyUp (m : BitVec w → UInt8) (dst src : BitVec w) : Nat → BitVec w → UInt8
  | 0 => m
  | n + 1 => copyUp (Function.update m dst (m src)) (dst + 1) (src + 1) n

def fillUp (m : BitVec w → UInt8) (dst : BitVec w) (c : UInt8) : Nat → BitVec w → UInt8
  | 0 => m
  | n + 1 => fillUp (Function.update m dst c) (dst + 1) c n

section Spans

variable {m m' : BitVec w → UInt8} {p q a dst src : BitVec w} {n k : Nat} {c : UInt8}

@[simp] theorem length_span (p : BitVec w) (n : Nat) : (span p n).length = n := by
  induction n generalizing p with
  | zero => rfl
  | succ n ih => rw [span, List.length_cons, ih]

theorem add_one_add_ofNat (p : BitVec w) (k : Nat) :
    p + 1 + BitVec.ofNat w k = p + BitVec.ofNat w (k + 1) := by
  rw [BitVec.ofNat_add, BitVec.add_assoc]
  exact congrArg (p + ·) (BitVec.add_comm _ _)

theorem span_eq_map (p : BitVec w) (n : Nat) :
    span p n = (List.range n).map fun i => p + BitVec.ofNat w i := by
  induction n generalizing p with
  | zero => rfl
  | succ n ih =>
    rw [span, ih, List.range_succ_eq_map, List.map_cons, List.map_map, BitVec.add_zero]
    exact congrArg _ (List.map_congr_left fun i _ => add_one_add_ofNat p i)

theorem mem_span : a ∈ span p n ↔ ∃ i < n, a = p + BitVec.ofNat w i := by
  rw [span_eq_map]
  simp only [List.mem_map, List.mem_range, eq_comm]

/-- The addresses of a span by their distance from its first one. -/
theorem mem_span_iff (hn : n ≤ 2 ^ w) : a ∈ span p n ↔ (a - p).toNat < n := by
  rw [mem_span]
  constructor
  · rintro ⟨i, hi, rfl⟩
    rw [BitVec.add_comm, BitVec.add_sub_cancel, BitVec.toNat_ofNat, Nat.mod_eq_of_lt (by omega)]
    exact hi
  · intro h
    refine ⟨(a - p).toNat, h, ?_⟩
    rw [BitVec.ofNat_toNat, BitVec.setWidth_eq, BitVec.add_comm, BitVec.sub_add_cancel]

/-- A span that starts some way behind `p` and ends no further than `b` behind it. -/
theorem sub_lt_of_mem_span {b : Nat} (hb : b ≤ 2 ^ w) (hk : k + n ≤ b)
    (h : a ∈ span (p + BitVec.ofNat w k) n) : (a - p).toNat < b := by
  obtain ⟨i, hi, rfl⟩ := mem_span.mp h
  rw [BitVec.add_assoc, ← BitVec.ofNat_add, BitVec.add_comm, BitVec.add_sub_cancel,
    BitVec.toNat_ofNat, Nat.mod_eq_of_lt (by omega)]
  omega

/-- What is fetched depends on the span only. -/
theorem fetch_congr (h : ∀ a ∈ span p n, m' a = m a) : fetch m' p n = fetch m p n :=
  congrArg unle (List.map_congr_left h)

theorem fetch_lt : fetch m p n < 256 ^ n := by
  have h := Nat.ofDigits_lt_base_pow_length (b := 256)
    (l := ((span p n).map m).map UInt8.toNat) (by decide) fun x hx => by
      obtain ⟨b, -, rfl⟩ := List.mem_map.mp hx
      exact b.toNat_lt
  simpa [fetch, unle] using h

/-! ## Copying and filling -/

theorem fillUp_outside (h : a ∉ span dst n) : fillUp m dst c n a = m a := by
  induction n generalizing m dst with
  | zero => rfl
  | succ n ih =>
    rw [fillUp, ih (List.not_mem_of_not_mem_cons h),
      Function.update_of_ne (List.ne_of_not_mem_cons h)]

theorem fillUp_inside (h : a ∈ span dst n) : fillUp m dst c n a = c := by
  induction n generalizing m dst with
  | zero => exact absurd h List.not_mem_nil
  | succ n ih =>
    rw [fillUp]
    by_cases hrest : a ∈ span (dst + 1) n
    · exact ih hrest
    · obtain rfl : a = dst := (List.mem_cons.mp h).resolve_right hrest
      rw [fillUp_outside hrest, Function.update_self]

theorem copyUp_outside (h : a ∉ span dst n) : copyUp m dst src n a = m a := by
  induction n generalizing m dst src with
  | zero => rfl
  | succ n ih =>
    rw [copyUp, ih (List.not_mem_of_not_mem_cons h),
      Function.update_of_ne (List.ne_of_not_mem_cons h)]

/-- The bytes of a source that the copy does not overwrite. -/
theorem copyUp_apart (hn : n ≤ 2 ^ w) (hapart : ∀ x ∈ span src n, x ∉ span dst n) (hk : k < n) :
    copyUp m dst src n (dst + BitVec.ofNat w k) = m (src + BitVec.ofNat w k) := by
  induction n generalizing m dst src k with
  | zero => omega
  | succ n ih =>
    rw [copyUp]
    cases k with
    | zero =>
      -- the rest of the destination does not come back to its first byte
      have hfirst : dst ∉ span (dst + 1) n := fun hmem => by
        obtain ⟨i, hi, heq⟩ := mem_span.mp hmem
        have hzero : (1 : BitVec w) + BitVec.ofNat w i = 0 := by
          rw [BitVec.add_assoc] at heq
          exact BitVec.add_right_eq_self.mp heq.symm
        have hnat := congrArg BitVec.toNat hzero
        simp only [BitVec.toNat_add, BitVec.toNat_ofNat, BitVec.ofNat_eq_ofNat] at hnat
        rw [← Nat.add_mod, Nat.zero_mod, Nat.mod_eq_of_lt (by omega)] at hnat
        omega
      rw [BitVec.add_zero, BitVec.add_zero, copyUp_outside hfirst, Function.update_self]
    | succ k =>
      have hsrc : src + BitVec.ofNat w (k + 1) ∈ span src (n + 1) :=
        mem_span.mpr ⟨k + 1, hk, rfl⟩
      have hne : src + BitVec.ofNat w (k + 1) ≠ dst := fun heq =>
        hapart _ hsrc (heq ▸ List.mem_cons_self ..)
      rw [← add_one_add_ofNat dst, ih (by omega) (fun x hx hmem => ?_) (by omega),
        add_one_add_ofNat src, Function.update_of_ne hne]
      exact hapart x (List.mem_cons_of_mem _ hx) (List.mem_cons_of_mem _ hmem)

/-- What a copy from elsewhere leaves at an address. -/
theorem copyUp_eq (hn : n ≤ 2 ^ w) (hapart : ∀ x ∈ span src n, x ∉ span dst n) (a : BitVec w) :
    copyUp m dst src n a = if (a - dst).toNat < n then m (src + (a - dst)) else m a := by
  by_cases ha : (a - dst).toNat < n
  · have heq : ∀ x : BitVec w, x + BitVec.ofNat w (a - dst).toNat = x + (a - dst) := fun x => by
      rw [BitVec.ofNat_toNat, BitVec.setWidth_eq]
    have h := copyUp_apart (m := m) hn hapart ha
    rw [heq, heq, BitVec.add_comm dst, BitVec.sub_add_cancel] at h
    rw [if_pos ha, h]
  · rw [if_neg ha, copyUp_outside fun hmem => ha ((mem_span_iff hn).mp hmem)]

theorem fillUp_eq (hn : n ≤ 2 ^ w) (a : BitVec w) :
    fillUp m dst c n a = if (a - dst).toNat < n then c else m a := by
  by_cases ha : (a - dst).toNat < n
  · rw [if_pos ha, fillUp_inside ((mem_span_iff hn).mpr ha)]
  · rw [if_neg ha, fillUp_outside fun hmem => ha ((mem_span_iff hn).mp hmem)]

end Spans

end AegisKernel.Library
