import AegisKernel.Library.Runs

/-!
# Code that checks its accesses

Code whose accesses are checked has no result where one fails, so it is an `Option` of
the state it ends in. `Safe inv o s` says that none fails and that the code ends in `s`,
where `inv` holds. The rules follow the code: `Safe.read` for an access that only reads,
`Safe.bind` for a step, `Safe.ite` for a branch, `Safe.foldlM` for a loop over a list.
-/

namespace AegisKernel.Library

variable {σ β : Type} {α : Type*} {inv : σ → Prop} {o : Option σ} {s : σ}

structure Safe (inv : σ → Prop) (o : Option σ) (s : σ) : Prop where
  eq : o = some s
  inv : inv s

theorem Safe.pure (h : inv s) : Safe inv (some s) s := ⟨rfl, h⟩

theorem Safe.read {r : Option β} {b : β} {k : β → Option σ} (hr : r = some b)
    (h : Safe inv (k b) s) : Safe inv (r >>= k) s :=
  ⟨by rw [hr]; exact h.eq, h.inv⟩

theorem Safe.bind {s₁ : σ} {k : σ → Option σ} (h₁ : Safe inv o s₁)
    (h : inv s₁ → Safe inv (k s₁) s) : Safe inv (o >>= k) s :=
  (h h₁.inv).read h₁.eq

theorem Safe.ite {c : Prop} [Decidable c] {o' : Option σ} {s' : σ} (h : c → Safe inv o s)
    (h' : ¬ c → Safe inv o' s') : Safe inv (if c then o else o') (if c then s else s') := by
  by_cases hc : c
  · rw [if_pos hc, if_pos hc]
    exact h hc
  · rw [if_neg hc, if_neg hc]
    exact h' hc

/-- The loop, from what its body does in every state with `inv`. -/
theorem Safe.foldlM {f : σ → α → σ} {g : σ → α → Option σ} {xs : List α}
    (hbody : ∀ s, inv s → ∀ x ∈ xs, Safe inv (g s x) (f s x)) (hs : inv s) :
    Safe inv (xs.foldlM g s) (run f s xs) := by
  induction xs generalizing s with
  | nil => exact .pure hs
  | cons x xs ih =>
    have hx := hbody s hs x (List.mem_cons_self ..)
    have hrest := ih (fun s hs y hy => hbody s hs y (List.mem_cons_of_mem _ hy)) hx.inv
    rw [List.foldlM_cons, run_cons]
    exact hx.bind fun _ => hrest

/-- A search that reads every element up to the one it finds. -/
theorem findM?_eq_some {q : β → Bool} {g : β → Option Bool} {xs : List β}
    (h : ∀ x ∈ xs, g x = some (q x)) : xs.findM? g = some (xs.find? q) := by
  induction xs with
  | nil => rfl
  | cons x xs ih =>
    rw [List.findM?, h x (List.mem_cons_self ..), List.find?_cons,
      ih fun y hy => h y (List.mem_cons_of_mem _ hy)]
    cases q x <;> rfl

end AegisKernel.Library
