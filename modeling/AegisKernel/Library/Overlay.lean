import Mathlib.Data.List.Basic

/-!
# Overlays

Layers are put on a base one after the other. A layer has a value at some places
and none at the others, where what is below shows through.

`overlay val base layers` is the result. At a place it shows the last layer that
has a value there (`overlay_last`), and the base where no layer has one
(`overlay_of_none`).
-/

namespace AegisKernel.Library

variable {α β γ : Type*}

/-- One layer over what is there. -/
def cover (val : β → α → Option γ) (base : α → γ) (b : β) : α → γ := fun a =>
  (val b a).getD (base a)

def overlay (val : β → α → Option γ) (base : α → γ) (layers : List β) : α → γ :=
  layers.foldl (cover val) base

section Overlay

variable {val : β → α → Option γ} {base : α → γ} {b : β} {layers : List β} {a : α}

@[simp] theorem overlay_cons :
    overlay val base (b :: layers) = overlay val (cover val base b) layers := rfl

/-- The last layer with a value at a place shows there. -/
theorem overlay_eq (a : α) :
    overlay val base layers a = (layers.reverse.findSome? fun b => val b a).getD (base a) := by
  induction layers generalizing base with
  | nil => rfl
  | cons b layers ih =>
    rw [overlay_cons, ih, List.reverse_cons, List.findSome?_append, List.findSome?_singleton]
    cases layers.reverse.findSome? fun b => val b a with
    | none => rfl
    | some v => rfl

/-- Layers without a value at a place leave the base to be seen. -/
theorem overlay_of_none (h : ∀ b ∈ layers, val b a = none) :
    overlay val base layers a = base a := by
  rw [overlay_eq, List.findSome?_eq_none_iff.mpr fun b hb => h b (List.mem_reverse.mp hb)]
  rfl

/-- A layer shows at the places where no later layer has a value. -/
theorem overlay_last {pre post : List β} {x : γ} (hb : val b a = some x)
    (hpost : ∀ b' ∈ post, val b' a = none) : overlay val base (pre ++ b :: post) a = x := by
  have hsplit : overlay val base (pre ++ b :: post) =
      overlay val (cover val (overlay val base pre) b) post := by
    rw [overlay, List.foldl_append, List.foldl_cons]
    rfl
  rw [hsplit, overlay_of_none hpost, cover, hb]
  rfl

end Overlay

end AegisKernel.Library
