import Mathlib.Data.List.Basic

/-!
# The latest event of a kind

* `latest p xs` — the last of the events `xs` with `p`, if any.
* `latest_concat` and `latest_append` — one event more, and events of other kinds.
* `latest_eq_some_iff` — where the latest event stands.
-/

namespace AegisKernel.Library

variable {α : Type*} {p q : α → Bool} {x : α} {xs ys : List α}

def latest (p : α → Bool) (xs : List α) : Option α := xs.reverse.find? p

theorem latest_concat : latest p (xs ++ [x]) = if p x then some x else latest p xs := by
  unfold latest
  rw [List.reverse_append, List.reverse_singleton, List.singleton_append, List.find?_cons]
  cases p x with
  | true => rfl
  | false => rfl

theorem latest_eq_none_iff : latest p xs = none ↔ ∀ x ∈ xs, p x = false := by
  unfold latest
  simp

/-- Events of other kinds behind change nothing. -/
theorem latest_append (h : ∀ y ∈ ys, p y = false) : latest p (xs ++ ys) = latest p xs := by
  have hnone : latest p ys = none := latest_eq_none_iff.mpr h
  unfold latest at hnone ⊢
  rw [List.reverse_append, List.find?_append, hnone, Option.none_or]

theorem latest_eq_some_iff :
    latest p xs = some x ↔
      p x = true ∧ ∃ before after, xs = before ++ x :: after ∧ ∀ y ∈ after, p y = false := by
  constructor
  · intro h
    obtain ⟨hx, after, before, hsplit, hafter⟩ := List.find?_eq_some_iff_append.mp h
    refine ⟨hx, before.reverse, after.reverse, ?_, fun y hy => ?_⟩
    · rw [← List.reverse_reverse xs, hsplit]
      simp
    · simpa using hafter y (List.mem_reverse.mp hy)
  · rintro ⟨hx, before, after, rfl, hafter⟩
    have hcons : before ++ x :: after = (before ++ [x]) ++ after := by simp
    rw [hcons, latest_append hafter, latest_concat, if_pos hx]

end AegisKernel.Library
