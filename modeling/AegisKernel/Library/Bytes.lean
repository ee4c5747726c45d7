import Mathlib.Data.Nat.Digits.Lemmas
import Mathlib.Data.List.TakeWhile

/-!
# Byte strings

Little-endian numbers and slices of byte strings.

* `le n v` — the `n` low bytes of `v`, least significant first; `unle` reads
  them back (`unle_le`).
* `slice bs pos n` — `bs[pos .. pos + n)`, when it lies inside `bs`; the lemmas
  find a part of a concatenation.
* `packWords ws` — 64-bit words one behind the other, as a packed record of
  words lies in memory; `wordAt bs k` reads the `k`-th word back
  (`wordAt_packWords`), and reading and writing back changes no byte
  (`packWords_wordAt`).
-/

namespace AegisKernel.Library

abbrev Bytes := List UInt8

/-! ## Little-endian numbers -/

def le : Nat → Nat → Bytes
  | 0, _ => []
  | n + 1, v => UInt8.ofNat v :: le n (v / 256)

def unle (bs : Bytes) : Nat := Nat.ofDigits 256 (bs.map UInt8.toNat)

@[simp] theorem length_le (n v : Nat) : (le n v).length = n := by
  induction n generalizing v with
  | zero => rfl
  | succ n ih => simp [le, ih]

theorem unle_le (n v : Nat) : unle (le n v) = v % 256 ^ n := by
  induction n generalizing v with
  | zero => simp [unle, le, Nat.mod_one]
  | succ n ih =>
    have hrest : Nat.ofDigits 256 ((le n (v / 256)).map UInt8.toNat) = v / 256 % 256 ^ n := ih _
    unfold unle
    rw [le, List.map_cons, Nat.ofDigits_cons, hrest, UInt8.toNat_ofNat']
    show v % 256 + 256 * (v / 256 % 256 ^ n) = v % 256 ^ (n + 1)
    rw [Nat.pow_succ', Nat.mod_mul]

theorem unle_le_of_lt {n v : Nat} (h : v < 256 ^ n) : unle (le n v) = v := by
  rw [unle_le, Nat.mod_eq_of_lt h]

/-- Every byte string is the number it denotes. -/
theorem le_unle (bs : Bytes) : le bs.length (unle bs) = bs := by
  induction bs with
  | nil => rfl
  | cons b bs ih =>
    have hcons : unle (b :: bs) = b.toNat + 256 * unle bs := by
      unfold unle
      rw [List.map_cons, Nat.ofDigits_cons]
    have hb : b.toNat < 256 := b.toNat_lt
    rw [hcons, List.length_cons, le, show (b.toNat + 256 * unle bs) / 256 = unle bs by omega, ih]
    congr 1
    refine UInt8.toNat_inj.mp ?_
    rw [UInt8.toNat_ofNat']
    omega

/-! ## Slices -/

/-- `bs[pos .. pos + n)`, or nothing if it reaches past the end. -/
def slice (bs : Bytes) (pos n : Nat) : Option Bytes :=
  if pos + n ≤ bs.length then some ((bs.drop pos).take n) else none

/-- A part of a concatenation, found by the lengths before it. -/
theorem slice_append (xs ys zs : Bytes) (pos n : Nat) (hpos : pos = xs.length)
    (hn : n = ys.length) : slice (xs ++ ys ++ zs) pos n = some ys := by
  subst hpos hn
  unfold slice
  rw [if_pos (by simp)]
  simp [List.append_assoc]

/-- A slice of an inner part is a slice of the whole. -/
theorem slice_of_inner (xs ys zs : Bytes) {pos n : Nat} {out : Bytes}
    (h : slice ys pos n = some out) :
    slice (xs ++ ys ++ zs) (xs.length + pos) n = some out := by
  unfold slice at h ⊢
  split at h
  · rename_i hlen
    obtain rfl := Option.some.inj h
    rw [if_pos (by simp only [List.length_append]; omega), List.append_assoc, List.drop_append,
      List.drop_eq_nil_of_le (by omega), List.nil_append, Nat.add_sub_cancel_left,
      List.drop_append_of_le_length (by omega),
      List.take_append_of_le_length (by rw [List.length_drop]; omega)]
  · exact absurd h (by simp)

theorem length_of_slice {bs out : Bytes} {pos n : Nat} (h : slice bs pos n = some out) :
    out.length = n ∧ pos + n ≤ bs.length := by
  unfold slice at h
  split at h
  · rename_i hlen
    obtain rfl := Option.some.inj h
    refine ⟨?_, hlen⟩
    rw [List.length_take, List.length_drop]
    omega
  · exact absurd h (by simp)

/-- A slice that lies inside a block of equal bytes. -/
theorem slice_replicate (xs zs : Bytes) (b : UInt8) {k pos n : Nat} (hlo : xs.length ≤ pos)
    (hhi : pos + n ≤ xs.length + k) :
    slice (xs ++ List.replicate k b ++ zs) pos n = some (List.replicate n b) := by
  have hinner : slice (List.replicate k b) (pos - xs.length) n = some (List.replicate n b) := by
    unfold slice
    rw [if_pos (by rw [List.length_replicate]; omega), List.drop_replicate, List.take_replicate,
      Nat.min_eq_left (by omega)]
  have hwhole := slice_of_inner xs _ zs hinner
  rwa [Nat.add_sub_cancel' hlo] at hwhole

/-! ## Records of words -/

/-- Words one behind the other, each little-endian. -/
def packWords (ws : List (BitVec 64)) : Bytes := ws.flatMap fun w => le 8 w.toNat

/-- The `k`-th word of a byte string. -/
def wordAt (bs : Bytes) (k : Nat) : BitVec 64 := BitVec.ofNat 64 (unle ((bs.drop (8 * k)).take 8))

@[simp] theorem length_packWords (ws : List (BitVec 64)) :
    (packWords ws).length = 8 * ws.length := by
  induction ws with
  | nil => rfl
  | cons w ws ih =>
    rw [packWords, List.flatMap_cons, List.length_append, length_le, ← packWords, ih,
      List.length_cons]
    omega

theorem wordAt_packWords (ws : List (BitVec 64)) (rest : Bytes) {k : Nat} {w : BitVec 64}
    (hk : ws[k]? = some w) : wordAt (packWords ws ++ rest) k = w := by
  induction ws generalizing k with
  | nil => simp at hk
  | cons v ws ih =>
    have hcons : packWords (v :: ws) ++ rest = le 8 v.toNat ++ (packWords ws ++ rest) := by
      rw [packWords, List.flatMap_cons, List.append_assoc]
      rfl
    rw [hcons]
    cases k with
    | zero =>
      obtain rfl : v = w := by simpa using hk
      unfold wordAt
      rw [Nat.mul_zero, List.drop_zero, List.take_append_of_le_length (by simp),
        List.take_of_length_le (by simp), unle_le_of_lt v.isLt, BitVec.ofNat_toNat,
        BitVec.setWidth_eq]
    | succ k =>
      rw [← ih (by simpa using hk)]
      unfold wordAt
      rw [show 8 * (k + 1) = (le 8 v.toNat).length + 8 * k by simp; omega, ← List.drop_drop,
        List.drop_left]

/-- Reading the words of a byte string and writing them back changes nothing. -/
theorem packWords_wordAt (bs : Bytes) (n : Nat) (h : 8 * n ≤ bs.length) :
    packWords ((List.range n).map (wordAt bs)) = bs.take (8 * n) := by
  induction n with
  | zero => simp [packWords]
  | succ n ih =>
    have hlen : ((bs.drop (8 * n)).take 8).length = 8 := by
      rw [List.length_take, List.length_drop]
      omega
    -- a word read from eight bytes is those eight bytes
    have hword : le 8 (wordAt bs n).toNat = (bs.drop (8 * n)).take 8 := by
      have hlt : unle ((bs.drop (8 * n)).take 8) < 2 ^ 64 := by
        have hmod := unle_le 8 (unle ((bs.drop (8 * n)).take 8))
        have hback := le_unle ((bs.drop (8 * n)).take 8)
        rw [hlen] at hback
        rw [hback] at hmod
        rw [hmod]
        exact Nat.mod_lt _ (by norm_num)
      have hback := le_unle ((bs.drop (8 * n)).take 8)
      rw [hlen] at hback
      rw [wordAt, BitVec.toNat_ofNat, Nat.mod_eq_of_lt hlt, hback]
    rw [List.range_succ, List.map_append, packWords, List.flatMap_append, ← packWords,
      ih (by omega), List.map_singleton, List.flatMap_singleton, hword,
      show 8 * (n + 1) = 8 * n + 8 by omega, List.take_add]

end AegisKernel.Library
