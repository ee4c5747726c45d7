import AegisKernel.Library.Runs

/-!
# What flows through the queues of a machine

Each operation of a run contributes a list of items, `flow` is what a whole run
contributes. A machine with a family of queues takes items in and lets items out;
if every single operation treats its queues as queues, so does the run:
`flow_fifo`.
-/

namespace AegisKernel.Library

variable {σ α β ι : Type*}

/-- The items the operations of a run contribute, in order. -/
def flow (step : σ → α → σ) (f : σ → α → List β) (s : σ) : List α → List β
  | [] => []
  | op :: ops => f s op ++ flow step f (step s op) ops

section Rules

variable {step : σ → α → σ} {f : σ → α → List β} {s : σ}

theorem flow_append {xs ys : List α} :
    flow step f s (xs ++ ys) = flow step f s xs ++ flow step f (run step s xs) ys := by
  induction xs generalizing s with
  | nil => rfl
  | cons x xs ih => rw [List.cons_append, flow, flow, ih, run_cons, List.append_assoc]

/-- The flow of a machine each of whose steps is a run of small ones. -/
theorem flow_flatMap {γ : Type*} (g : γ → List α) {xs : List γ} :
    flow (fun s x => run step s (g x)) (fun s x => flow step f s (g x)) s xs =
      flow step f s (xs.flatMap g) := by
  induction xs generalizing s with
  | nil => rfl
  | cons x xs ih => rw [flow, ih, List.flatMap_cons, flow_append]

theorem run_flatMap {γ : Type*} (g : γ → List α) {xs : List γ} :
    run (fun s x => run step s (g x)) s xs = run step s (xs.flatMap g) := by
  induction xs generalizing s with
  | nil => rfl
  | cons x xs ih => rw [run_cons, ih, List.flatMap_cons, run_append]

/-- First in, first out: `H s L` says that queue `p` contains `L p`. If every
operation appends what it takes in and removes what it lets out at the front, then
what the queues held and took in is what they let out and hold, in this order. -/
theorem flow_fifo {H : σ → (ι → List β) → Prop} {C : σ → α → Prop} {I : ι → Prop}
    {ins outs : ι → σ → α → List β}
    (hstep : ∀ s op L, H s L → C s op → ∃ L', H (step s op) L' ∧
      ∀ p, I p → L p ++ ins p s op = outs p s op ++ L' p)
    {L : ι → List β} {ops : List α} (hs : H s L) (hC : Meets step C s ops) :
    ∃ L', H (run step s ops) L' ∧
      ∀ p, I p → L p ++ flow step (ins p) s ops = flow step (outs p) s ops ++ L' p := by
  induction ops generalizing s L with
  | nil => exact ⟨L, hs, fun p _ => by rw [flow, flow, List.append_nil, List.nil_append]⟩
  | cons op ops ih =>
    obtain ⟨L₁, h₁, hfirst⟩ := hstep s op L hs hC.1
    obtain ⟨L₂, h₂, hrest⟩ := ih h₁ hC.2
    refine ⟨L₂, h₂, fun p hp => ?_⟩
    calc L p ++ (ins p s op ++ flow step (ins p) (step s op) ops)
        = outs p s op ++ (L₁ p ++ flow step (ins p) (step s op) ops) := by
          rw [← List.append_assoc, hfirst p hp, List.append_assoc]
      _ = outs p s op ++ flow step (outs p) (step s op) ops ++ L₂ p := by
          rw [hrest p hp, List.append_assoc]

end Rules

end AegisKernel.Library
