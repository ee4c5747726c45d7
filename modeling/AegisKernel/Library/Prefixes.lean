import Mathlib.Data.List.Infix
import Mathlib.Algebra.GroupWithZero.Nat
import Mathlib.Algebra.BigOperators.Group.List.Basic

/-!
# The longest prefix that fits

Items of some weight are taken from the front of a list as long as they fit, up to
the first one that does not.

* `fitting weight cap xs` — the items taken.
* `sum_fitting_le` and `prefix_fitting` — they fit, and every prefix that fits is a
  prefix of them: theirs is the longest.
* `fitting_eq_self_iff` — all are taken when all fit together.
-/

namespace AegisKernel.Library

variable {α : Type*} {weight : α → Nat} {cap : Nat} {x : α} {xs ys : List α}

def fitting (weight : α → Nat) : Nat → List α → List α
  | _, [] => []
  | cap, x :: xs => if weight x ≤ cap then x :: fitting weight (cap - weight x) xs else []

theorem fitting_cons_of_le (h : weight x ≤ cap) :
    fitting weight cap (x :: xs) = x :: fitting weight (cap - weight x) xs := if_pos h

theorem fitting_cons_of_lt (h : cap < weight x) : fitting weight cap (x :: xs) = [] :=
  if_neg (Nat.not_le.mpr h)

theorem fitting_prefix : fitting weight cap xs <+: xs := by
  induction xs generalizing cap with
  | nil => exact List.prefix_rfl
  | cons x xs ih =>
    by_cases hx : weight x ≤ cap
    · rw [fitting_cons_of_le hx]
      exact (List.prefix_cons_inj x).mpr ih
    · rw [fitting_cons_of_lt (by omega)]
      exact List.nil_prefix

theorem sum_fitting_le : ((fitting weight cap xs).map weight).sum ≤ cap := by
  induction xs generalizing cap with
  | nil => exact Nat.zero_le cap
  | cons x xs ih =>
    by_cases hx : weight x ≤ cap
    · have hrest : _ ≤ cap - weight x := ih
      rw [fitting_cons_of_le hx, List.map_cons, List.sum_cons]
      omega
    · rw [fitting_cons_of_lt (by omega)]
      exact Nat.zero_le cap

/-- Every prefix that fits is taken. -/
theorem prefix_fitting (hys : ys <+: xs) (hfits : (ys.map weight).sum ≤ cap) :
    ys <+: fitting weight cap xs := by
  induction xs generalizing cap ys with
  | nil =>
    rw [List.prefix_nil.mp hys]
    exact List.nil_prefix
  | cons x xs ih =>
    rcases List.prefix_cons_iff.mp hys with rfl | ⟨zs, rfl, hzs⟩
    · exact List.nil_prefix
    · rw [List.map_cons, List.sum_cons] at hfits
      rw [fitting_cons_of_le (by omega)]
      exact (List.prefix_cons_inj x).mpr (ih hzs (by omega))

theorem fitting_eq_self_iff : fitting weight cap xs = xs ↔ (xs.map weight).sum ≤ cap := by
  constructor
  · intro h
    rw [← h]
    exact sum_fitting_le
  · intro h
    exact fitting_prefix.eq_of_length_le (prefix_fitting List.prefix_rfl h).length_le

end AegisKernel.Library
