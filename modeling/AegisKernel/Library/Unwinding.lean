import AegisKernel.Library.Runs

/-!
# Unwinding

What one observer of a machine can learn from calls that are none of its
business. A machine answers calls: `exec : σ → α → ρ × σ`. Some calls are
*hidden* from the observer; what it sees of a run are the other calls and their
replies.

* `trace exec s cs` — the calls of a run with their replies.
* `Pruned hidden cs cs'` — `cs'` is `cs` with any of its hidden calls deleted.
* `Unwinding exec hidden R` — a relation between states that hidden calls keep
  on either side, and under which visible calls are answered alike.

`Unwinding.seen_eq` is the rule: from related states, a run and a pruned run
look the same. `Unwinding.run_related` says that they end in related states.
-/

namespace AegisKernel.Library

variable {σ α ρ : Type*}

/-- The calls of a run with their replies, first call first. -/
def trace (exec : σ → α → ρ × σ) (s : σ) : List α → List (α × ρ)
  | [] => []
  | c :: cs => (c, (exec s c).1) :: trace exec (exec s c).2 cs

/-- The calls that are not hidden, with their replies. -/
def seen (hidden : α → Bool) (cs : List (α × ρ)) : List (α × ρ) := cs.filter fun cr => !hidden cr.1

/-- Deleting some of the hidden calls of a run. -/
inductive Pruned (hidden : α → Bool) : List α → List α → Prop
  | nil : Pruned hidden [] []
  | keep {cs cs' : List α} (c : α) (h : Pruned hidden cs cs') : Pruned hidden (c :: cs) (c :: cs')
  | drop {cs cs' : List α} {c : α} (hc : hidden c = true) (h : Pruned hidden cs cs') :
      Pruned hidden (c :: cs) cs'

/-- Hidden calls go unnoticed, and visible calls do not tell related states
apart. -/
structure Unwinding (exec : σ → α → ρ × σ) (hidden : α → Bool) (R : σ → σ → Prop) : Prop where
  left : ∀ s t c, R s t → hidden c = true → R (exec s c).2 t
  right : ∀ s t c, R s t → hidden c = true → R s (exec t c).2
  reply : ∀ s t c, R s t → hidden c = false → (exec s c).1 = (exec t c).1
  next : ∀ s t c, R s t → hidden c = false → R (exec s c).2 (exec t c).2

variable {exec : σ → α → ρ × σ} {hidden : α → Bool} {R : σ → σ → Prop}

/-- **Unwinding.** A run and the run pruned of hidden calls look the same. -/
theorem Unwinding.seen_eq (hU : Unwinding exec hidden R) {cs cs' : List α}
    (h : Pruned hidden cs cs') {s t : σ} (hR : R s t) :
    seen hidden (trace exec s cs) = seen hidden (trace exec t cs') := by
  induction h generalizing s t with
  | nil => rfl
  | keep c _ ih =>
    unfold seen at ih ⊢
    rw [trace, trace]
    by_cases hc : hidden c = true
    · -- kept on both sides, seen on neither
      rw [List.filter_cons_of_neg (by simp [hc]), List.filter_cons_of_neg (by simp [hc])]
      exact ih (hU.right _ _ c (hU.left _ _ c hR hc) hc)
    · have hc : hidden c = false := by simpa using hc
      rw [List.filter_cons_of_pos (by simp [hc]), List.filter_cons_of_pos (by simp [hc]),
        hU.reply _ _ c hR hc, ih (hU.next _ _ c hR hc)]
  | drop hc _ ih =>
    unfold seen at ih ⊢
    rw [trace, List.filter_cons_of_neg (by simp [hc])]
    exact ih (hU.left _ _ _ hR hc)

/-- The states a run and a pruned run end in are related again. -/
theorem Unwinding.run_related (hU : Unwinding exec hidden R) {cs cs' : List α}
    (h : Pruned hidden cs cs') {s t : σ} (hR : R s t) :
    R (run (fun s c => (exec s c).2) s cs) (run (fun s c => (exec s c).2) t cs') := by
  induction h generalizing s t with
  | nil => exact hR
  | keep c _ ih =>
    rw [run_cons, run_cons]
    by_cases hc : hidden c = true
    · exact ih (hU.right _ _ c (hU.left _ _ c hR hc) hc)
    · exact ih (hU.next _ _ c hR (by simpa using hc))
  | drop hc _ ih => exact ih (hU.left _ _ _ hR hc)

end AegisKernel.Library
