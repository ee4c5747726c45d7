import Mathlib.Logic.Basic
import Mathlib.Data.List.Infix

/-!
# Runs of a state machine

A component is a state type `σ` with a total `step : σ → α → σ`; a *run* is
the fold of a finite list of operations over an initial state. This module
fixes the two ways a development speaks about runs and the one rule that
connects them:

* `Throughout step P s ops` — `P` holds in every state the run passes
  through, the first and the last included;
* `Meets step C s ops` — every operation of the run meets `C` in the state
  it is performed in.

What the operations of a run put out is listed by `outputs`; `outputs_project` says when
it is the same without some of them.

`meets_congr` is the exactness rule: if, under an invariant that conforming
steps keep, one operation has property `G` exactly when it meets `C`, then a
whole run has property `G` exactly when it meets `C`. `throughout_iff_meets`
is the same rule for a property of states, and `throughout_of_meets` the plain
invariant rule. Exactness is relative to a side condition `D` on operations that
the runs under consideration meet anyway; `meets_of_forall` discharges it when
it does not depend on the state.
-/

namespace AegisKernel.Library

variable {σ α : Type*}

/-- The state after performing `ops`, first operation first. -/
def run (step : σ → α → σ) (s : σ) (ops : List α) : σ := ops.foldl step s

@[simp] theorem run_nil (step : σ → α → σ) (s : σ) : run step s [] = s := rfl

@[simp] theorem run_cons (step : σ → α → σ) (s : σ) (op : α) (ops : List α) :
    run step s (op :: ops) = run step (step s op) ops := rfl

theorem run_append (step : σ → α → σ) (s : σ) (xs ys : List α) :
    run step s (xs ++ ys) = run step (run step s xs) ys := by
  simp [run, List.foldl_append]

/-- `P` holds in every state a run passes through. -/
def Throughout (step : σ → α → σ) (P : σ → Prop) (s : σ) : List α → Prop
  | [] => P s
  | op :: ops => P s ∧ Throughout step P (step s op) ops

/-- Every operation of a run meets `C` in the state it is performed in. -/
def Meets (step : σ → α → σ) (C : σ → α → Prop) (s : σ) : List α → Prop
  | [] => True
  | op :: ops => C s op ∧ Meets step C (step s op) ops

/-- What the operations of a run put out, in order. -/
def outputs {β : Type*} (step : σ → α → σ) (out : σ → α → Option β) (s : σ) : List α → List β
  | [] => []
  | op :: ops => (out s op).toList ++ outputs step out (step s op) ops

section Rules

variable {step : σ → α → σ} {Inv : σ → Prop} {C D G : σ → α → Prop} {P : σ → Prop}

theorem meets_of_forall {s : σ} {ops : List α} (h : ∀ op ∈ ops, ∀ s, C s op) :
    Meets step C s ops := by
  induction ops generalizing s with
  | nil => exact trivial
  | cons op ops ih =>
    refine ⟨h op (List.mem_cons_self ..) s, ih fun op' hop' => ?_⟩
    exact h op' (List.mem_cons_of_mem _ hop')

/-- Exactness rule for properties of single operations. -/
theorem meets_congr
    (hExact : ∀ s op, Inv s → D s op → (G s op ↔ C s op))
    (hKeep : ∀ s op, Inv s → D s op → C s op → Inv (step s op))
    {s : σ} {ops : List α} (hInv : Inv s) (hD : Meets step D s ops) :
    Meets step G s ops ↔ Meets step C s ops := by
  induction ops generalizing s with
  | nil => exact Iff.rfl
  | cons op ops ih =>
    obtain ⟨hd, hD⟩ := hD
    have hop := hExact s op hInv hd
    constructor
    · rintro ⟨hG, hRest⟩
      have hC := hop.mp hG
      exact ⟨hC, (ih (hKeep s op hInv hd hC) hD).mp hRest⟩
    · rintro ⟨hC, hRest⟩
      exact ⟨hop.mpr hC, (ih (hKeep s op hInv hd hC) hD).mpr hRest⟩

/-- Invariant rule: a property that follows from an invariant which conforming
steps keep holds throughout a conforming run. -/
theorem throughout_of_meets
    (hGood : ∀ s, Inv s → P s)
    (hKeep : ∀ s op, Inv s → C s op → Inv (step s op))
    {s : σ} {ops : List α} (hInv : Inv s) (hC : Meets step C s ops) :
    Throughout step P s ops := by
  induction ops generalizing s with
  | nil => exact hGood s hInv
  | cons op ops ih =>
    obtain ⟨hop, hC⟩ := hC
    exact ⟨hGood s hInv, ih (hKeep s op hInv hop) hC⟩

/-- Two conditions met by a run are met together. -/
theorem meets_and {s : σ} {ops : List α} :
    Meets step (fun s op => C s op ∧ D s op) s ops ↔ Meets step C s ops ∧ Meets step D s ops := by
  induction ops generalizing s with
  | nil => simp [Meets]
  | cons op ops ih =>
    rw [Meets, Meets, Meets, ih]
    exact and_and_and_comm

/-- A property of whatever one operation can put out. -/
theorem forall_mem_outputs {β : Type*} {out : σ → α → Option β} {Q : β → Prop}
    (h : ∀ s op b, out s op = some b → Q b) {s : σ} {ops : List α} :
    ∀ b ∈ outputs step out s ops, Q b := by
  induction ops generalizing s with
  | nil => exact fun b hb => absurd hb List.not_mem_nil
  | cons op ops ih =>
    intro b hb
    rcases List.mem_append.mp hb with hb | hb
    · exact h s op b (Option.mem_toList.mp hb)
    · exact ih b hb

/-- A property of all that is put out is a condition on the operations. -/
theorem forall_outputs_iff_meets {β : Type*} {out : σ → α → Option β} {Q : β → Prop} {s : σ}
    {ops : List α} : (∀ b ∈ outputs step out s ops, Q b) ↔
      Meets step (fun s op => ∀ b ∈ out s op, Q b) s ops := by
  induction ops generalizing s with
  | nil => simp [outputs, Meets]
  | cons op ops ih =>
    rw [outputs, Meets, List.forall_mem_append, ih]
    simp only [Option.mem_toList, Option.mem_def]

theorem filter_outputs {β : Type*} {out : σ → α → Option β} (q : β → Bool) {s : σ}
    {ops : List α} : (outputs step out s ops).filter q =
      outputs step (fun s op => (out s op).filter q) s ops := by
  induction ops generalizing s with
  | nil => rfl
  | cons op ops ih =>
    rw [outputs, outputs, List.filter_append, ih]
    cases out s op with
    | none => rfl
    | some b => by_cases hb : q b <;> simp [Option.filter, hb]

/-- Projection rule: if the operations outside of `p` put out nothing and are not noticed
by the second machine, and the others do the same in both, then the second machine puts
out the same without them. -/
theorem outputs_project {τ β : Type*} {step' : τ → α → τ} {out : σ → α → Option β}
    {out' : τ → α → Option β} {R : σ → τ → Prop} {p : α → Bool}
    (hkeep : ∀ s t op, R s t → C s op → p op = true →
      out s op = out' t op ∧ R (step s op) (step' t op))
    (hskip : ∀ s t op, R s t → C s op → p op = false → out s op = none ∧ R (step s op) t)
    {s : σ} {t : τ} {ops : List α} (hR : R s t) (hC : Meets step C s ops) :
    outputs step out s ops = outputs step' out' t (ops.filter p) := by
  induction ops generalizing s t with
  | nil => rfl
  | cons op ops ih =>
    obtain ⟨hop, hC⟩ := hC
    cases hp : p op with
    | true =>
      obtain ⟨hout, hR'⟩ := hkeep s t op hR hop hp
      rw [List.filter_cons_of_pos hp, outputs, outputs, hout, ih hR' hC]
    | false =>
      obtain ⟨hout, hR'⟩ := hskip s t op hR hop hp
      rw [List.filter_cons_of_neg (by simp [hp]), outputs, hout, Option.toList_none,
        List.nil_append, ih hR' hC]

/-- A conforming run keeps the invariant. -/
theorem run_of_meets (hKeep : ∀ s op, Inv s → C s op → Inv (step s op)) {s : σ} {ops : List α}
    (hInv : Inv s) (hC : Meets step C s ops) : Inv (run step s ops) := by
  induction ops generalizing s with
  | nil => exact hInv
  | cons op ops ih => exact ih (hKeep s op hInv hC.1) hC.2

theorem meets_append {s : σ} {xs ys : List α} :
    Meets step C s (xs ++ ys) ↔ Meets step C s xs ∧ Meets step C (run step s xs) ys := by
  induction xs generalizing s with
  | nil => simp [Meets]
  | cons op xs ih =>
    rw [List.cons_append, Meets, Meets, ih, run_cons, and_assoc]

/-- A condition on the small steps of a machine, seen from a machine each of
whose steps is a run of small ones. -/
theorem meets_flatMap {τ β : Type*} {big : τ → β → τ} (f : τ → σ) (g : β → List α)
    (hf : ∀ t b, f (big t b) = run step (f t) (g b)) {t : τ} {bs : List β} :
    Meets step C (f t) (bs.flatMap g) ↔
      Meets big (fun t b => Meets step C (f t) (g b)) t bs := by
  induction bs generalizing t with
  | nil => exact Iff.rfl
  | cons b bs ih => rw [List.flatMap_cons, meets_append, Meets, ← hf, ih]

/-- A condition on the image of a state under a map that commutes with the
steps, such as forgetting a component. -/
theorem meets_map {τ : Type*} {step' : τ → α → τ} {C' : τ → α → Prop} (f : σ → τ)
    (hf : ∀ s op, f (step s op) = step' (f s) op) {s : σ} {ops : List α} :
    Meets step (fun s op => C' (f s) op) s ops ↔ Meets step' C' (f s) ops := by
  induction ops generalizing s with
  | nil => exact Iff.rfl
  | cons op ops ih => rw [Meets, Meets, ih, hf]

/-- A state property along a run is a property of its start and of each
operation's outcome. -/
theorem throughout_iff_start_and_meets {s : σ} {ops : List α} :
    Throughout step P s ops ↔ P s ∧ Meets step (fun s op => P (step s op)) s ops := by
  induction ops generalizing s with
  | nil => simp [Throughout, Meets]
  | cons op ops ih =>
    rw [Throughout, Meets, ih]

/-- A state property along a run is a property of the state after each initial
part of it. -/
theorem throughout_iff_initial {s : σ} {ops : List α} :
    Throughout step P s ops ↔ ∀ pre, pre <+: ops → P (run step s pre) := by
  induction ops generalizing s with
  | nil => simp [Throughout]
  | cons op ops ih =>
    rw [Throughout, ih]
    constructor
    · rintro ⟨hs, hrest⟩ pre hpre
      cases pre with
      | nil => exact hs
      | cons op' pre =>
        obtain ⟨rfl, hpre'⟩ := List.cons_prefix_cons.mp hpre
        exact hrest pre hpre'
    · intro h
      refine ⟨h [] List.nil_prefix, fun pre hpre => ?_⟩
      exact h (op :: pre) (List.cons_prefix_cons.mpr ⟨rfl, hpre⟩)

/-- Exactness rule for properties of states: if, under the invariant, the
outcome of an operation is good exactly when the operation meets `C`, then a
run is good throughout exactly when all of its operations meet `C`. -/
theorem throughout_iff_meets
    (hGood : ∀ s, Inv s → P s)
    (hExact : ∀ s op, Inv s → D s op → (P (step s op) ↔ C s op))
    (hKeep : ∀ s op, Inv s → D s op → C s op → Inv (step s op))
    {s : σ} {ops : List α} (hInv : Inv s) (hD : Meets step D s ops) :
    Throughout step P s ops ↔ Meets step C s ops := by
  rw [throughout_iff_start_and_meets, meets_congr hExact hKeep hInv hD]
  exact ⟨fun h => h.2, fun h => ⟨hGood s hInv, h⟩⟩

end Rules

end AegisKernel.Library
