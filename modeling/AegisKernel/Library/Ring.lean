import Mathlib.Logic.Function.Basic
import Mathlib.Data.List.Range

/-!
# Ring buffers

A ring of `size` cells with two indices that wrap around: values are written
at `tail` and read at `head`, and `head = tail` means empty. One cell always
stays unused, so that a full ring is not taken for an empty one.

* `waiting size cells head tail` — the values in the ring, oldest first.
* `waiting_write`, `waiting_read` — a write appends, a read takes the first.
* `next_tail_eq_head_iff` — the ring is full when `size - 1` values wait.
-/

namespace AegisKernel.Library

variable {α : Type*} {size head tail : Nat} (cells : Nat → α)

/-- How many values the ring holds. -/
def ringCount (size head tail : Nat) : Nat := (tail + size - head) % size

/-- The values in the ring, oldest first. -/
def waiting (size : Nat) (cells : Nat → α) (head tail : Nat) : List α :=
  (List.range (ringCount size head tail)).map fun k => cells ((head + k) % size)

/-- An index less than two rounds from the start wraps at most once. -/
theorem mod_eq_of_lt_two_mul {i n : Nat} (hi : i < 2 * n) : i % n = if i < n then i else i - n := by
  split
  · exact Nat.mod_eq_of_lt (by omega)
  · rw [Nat.mod_eq_sub_mod (by omega), Nat.mod_eq_of_lt (by omega)]

theorem ringCount_eq (hh : head < size) (ht : tail < size) :
    ringCount size head tail = if head ≤ tail then tail - head else tail + size - head := by
  unfold ringCount
  rw [mod_eq_of_lt_two_mul (by omega)]
  split <;> split <;> omega

@[simp] theorem length_waiting :
    (waiting size cells head tail).length = ringCount size head tail := by
  simp [waiting]

theorem waiting_eq_nil_iff (hh : head < size) (ht : tail < size) :
    waiting size cells head tail = [] ↔ head = tail := by
  rw [← List.length_eq_zero_iff, length_waiting, ringCount_eq hh ht]
  split <;> omega

/-- The next write would make the ring look empty exactly when all cells but
one are taken. -/
theorem next_tail_eq_head_iff (hh : head < size) (ht : tail < size) :
    (tail + 1) % size = head ↔ ¬ (waiting size cells head tail).length < size - 1 := by
  rw [length_waiting, ringCount_eq hh ht, mod_eq_of_lt_two_mul (by omega)]
  split <;> split <;> omega

/-- Writing at the tail of a ring that is not full appends. -/
theorem waiting_write (hh : head < size) (ht : tail < size) (hroom : (tail + 1) % size ≠ head)
    (x : α) :
    waiting size (Function.update cells tail x) head ((tail + 1) % size) =
      waiting size cells head tail ++ [x] := by
  have hcount : ringCount size head ((tail + 1) % size) = ringCount size head tail + 1 := by
    rw [ringCount_eq hh (Nat.mod_lt _ (by omega)), ringCount_eq hh ht]
    rw [mod_eq_of_lt_two_mul (by omega)] at hroom ⊢
    split_ifs at hroom ⊢ <;> omega
  have hlt : ringCount size head tail < size := by
    rw [ringCount_eq hh ht]
    split <;> omega
  unfold waiting
  rw [hcount, List.range_succ, List.map_append, List.map_singleton]
  congr 1
  · refine List.map_congr_left fun k hk => ?_
    -- the cells in use are not the one written
    rw [List.mem_range, ringCount_eq hh ht] at hk
    refine Function.update_of_ne ?_ _ _
    split at hk <;> rw [mod_eq_of_lt_two_mul (by omega)] <;> split <;> omega
  · have hcell : (head + ringCount size head tail) % size = tail := by
      rw [mod_eq_of_lt_two_mul (by omega), ringCount_eq hh ht]
      split <;> split <;> omega
    rw [hcell, Function.update_self]

/-- Reading at the head of a ring that is not empty takes the oldest value. -/
theorem waiting_read (hh : head < size) (ht : tail < size) (hne : head ≠ tail) :
    waiting size cells head tail = cells head :: waiting size cells ((head + 1) % size) tail := by
  have hcount : ringCount size head tail = ringCount size ((head + 1) % size) tail + 1 := by
    rw [ringCount_eq (Nat.mod_lt _ (by omega)) ht, ringCount_eq hh ht]
    rw [mod_eq_of_lt_two_mul (by omega)]
    split <;> split <;> split <;> omega
  unfold waiting
  rw [hcount, List.range_succ_eq_map, List.map_cons, List.map_map, Nat.add_zero,
    Nat.mod_eq_of_lt hh]
  congr 1
  refine List.map_congr_left fun k _ => ?_
  show cells ((head + (k + 1)) % size) = cells (((head + 1) % size + k) % size)
  rw [Nat.mod_add_mod, show head + (k + 1) = head + 1 + k by omega]

end AegisKernel.Library
