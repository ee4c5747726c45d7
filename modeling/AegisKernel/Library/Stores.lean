import Mathlib.Data.List.GetD
import Mathlib.Logic.Function.Basic

/-!
# Stores into an array

What a function writes into an array is the list of its stores, index and value, in
the order they are made; the cells are a function of the index, so that those behind
the array have a value too.

* `applyStores cells ws` — the cells after the stores.
* `storesAt start bs` — storing `bs` from `start` on, one after the other;
  `applyStores_storesAt` says what they leave.
* `StoresWithin n ws` — no store leaves an array of `n` cells.
-/

namespace AegisKernel.Library

variable {α : Type*} {cells : Nat → α} {ws : List (Nat × α)} {bs : List α} {start n i : Nat}

def applyStores (cells : Nat → α) (ws : List (Nat × α)) : Nat → α :=
  ws.foldl (fun m w => Function.update m w.1 w.2) cells

def storesAt : Nat → List α → List (Nat × α)
  | _, [] => []
  | start, b :: bs => (start, b) :: storesAt (start + 1) bs

def StoresWithin (n : Nat) (ws : List (Nat × α)) : Prop := ∀ w ∈ ws, w.1 < n

@[simp] theorem applyStores_nil (cells : Nat → α) : applyStores cells [] = cells := rfl

@[simp] theorem applyStores_cons (cells : Nat → α) (w : Nat × α) (ws : List (Nat × α)) :
    applyStores cells (w :: ws) = applyStores (Function.update cells w.1 w.2) ws := rfl

theorem applyStores_append (cells : Nat → α) (ws ws' : List (Nat × α)) :
    applyStores cells (ws ++ ws') = applyStores (applyStores cells ws) ws' := List.foldl_append

/-- A cell that is not stored to. -/
theorem applyStores_of_notMem (h : ∀ w ∈ ws, w.1 ≠ i) : applyStores cells ws i = cells i := by
  induction ws generalizing cells with
  | nil => rfl
  | cons w ws ih =>
    rw [applyStores_cons, ih fun w' hw' => h w' (List.mem_cons_of_mem _ hw')]
    exact Function.update_of_ne (h w (List.mem_cons_self ..)).symm _ _

theorem storesAt_append (start : Nat) (as bs : List α) :
    storesAt start (as ++ bs) = storesAt start as ++ storesAt (start + as.length) bs := by
  induction as generalizing start with
  | nil => rfl
  | cons a as ih =>
    rw [List.cons_append, storesAt, storesAt, ih, List.cons_append, List.length_cons,
      Nat.add_assoc, Nat.add_comm 1]

theorem length_storesAt : (storesAt start bs).length = bs.length := by
  induction bs generalizing start with
  | nil => rfl
  | cons b bs ih => rw [storesAt, List.length_cons, ih, List.length_cons]

theorem getElem_storesAt (start : Nat) (hi : i < (storesAt start bs).length)
    (hi' : i < bs.length) : (storesAt start bs)[i] = (start + i, bs[i]) := by
  induction bs generalizing start i with
  | nil => simp [storesAt] at hi
  | cons b bs ih =>
    cases i with
    | zero => rfl
    | succ i =>
      have hnext := ih (start + 1) (Nat.lt_of_succ_lt_succ hi) (Nat.lt_of_succ_lt_succ hi')
      rw [Nat.add_assoc, Nat.add_comm 1] at hnext
      exact hnext

theorem index_storesAt : ∀ w ∈ storesAt start bs, start ≤ w.1 ∧ w.1 < start + bs.length := by
  induction bs generalizing start with
  | nil => simp [storesAt]
  | cons b bs ih =>
    intro w hw
    rw [List.length_cons]
    rcases List.mem_cons.mp hw with rfl | hw
    · exact ⟨Nat.le_refl start, by show start < _; omega⟩
    · have hrest := ih w hw
      omega

theorem storesWithin_storesAt (h : start + bs.length ≤ n) : StoresWithin n (storesAt start bs) :=
  fun w hw => Nat.lt_of_lt_of_le (index_storesAt w hw).2 h

/-- The cells stored to. -/
theorem applyStores_storesAt (cells : Nat → α) (start : Nat) (hi : i < bs.length) :
    applyStores cells (storesAt start bs) (start + i) = bs[i] := by
  induction bs generalizing cells start i with
  | nil => simp at hi
  | cons b bs ih =>
    rw [storesAt, applyStores_cons]
    cases i with
    | zero =>
      rw [applyStores_of_notMem fun w hw => ?_]
      · exact Function.update_self _ _ _
      · have hindex := index_storesAt w hw
        omega
    | succ i =>
      have hi' : i < bs.length := Nat.lt_of_succ_lt_succ hi
      rw [← Nat.add_assoc, Nat.add_right_comm, ih _ _ hi']
      rfl

/-- Storing from the start of cells that all hold `d`. -/
theorem applyStores_blank (d : α) (bs : List α) :
    applyStores (fun _ => d) (storesAt 0 bs) = fun i => bs.getD i d := by
  funext i
  by_cases hi : i < bs.length
  · have hcell := applyStores_storesAt (fun _ => d) 0 hi
    rw [Nat.zero_add] at hcell
    rw [hcell, List.getD_eq_getElem bs d hi]
  · rw [List.getD_eq_default bs d (by omega)]
    refine applyStores_of_notMem fun w hw => ?_
    have hindex := index_storesAt w hw
    omega

end AegisKernel.Library
