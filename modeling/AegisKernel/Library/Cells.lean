import AegisKernel.Library.Links

/-!
# Chains kept in memory

Memory holds a word at every address, and a word is an address again. The
pointer to the successor of a node `p` is kept in the cell `link p`.

`CellChain nil link mem c l` says that the pointer in cell `c` begins a finished
chain through exactly the nodes of `l`. A program that walks with a pointer to a
pointer moves from cell to cell, so a chain is taken apart at its first cell
(`cellChain_cons_iff`); it reads the cells `c` and `link p` for `p` in `l` and no
others (`CellChain.congr`). `CellChain.push` and `CellChain.skip` are the two
writes to the first cell that put a node in front and take the first one out.
-/

namespace AegisKernel.Library

variable {α : Type*} {nil : α} {link mem mem' : α → α} {c p : α} {l l' : List α}

def CellChain (nil : α) (link mem : α → α) (c : α) (l : List α) : Prop :=
  Linked nil (fun p => mem (link p)) (mem c) l

@[simp] theorem cellChain_nil_iff : CellChain nil link mem c [] ↔ mem c = nil := seg_nil_iff

@[simp] theorem cellChain_cons_iff :
    CellChain nil link mem c (p :: l) ↔
      mem c = p ∧ p ≠ nil ∧ CellChain nil link mem (link p) l := seg_cons_iff

theorem CellChain.unique (h : CellChain nil link mem c l) (h' : CellChain nil link mem c l') :
    l = l' := Linked.unique h h'

theorem CellChain.nodup (h : CellChain nil link mem c l) : l.Nodup := Linked.nodup h

theorem CellChain.ne_nil (h : CellChain nil link mem c l) : ∀ p ∈ l, p ≠ nil := Seg.ne_nil h

/-- The first cell holds the first node. -/
theorem CellChain.first (h : CellChain nil link mem c l) : mem c = l.headD nil := by
  cases l with
  | nil => exact cellChain_nil_iff.mp h
  | cons p l => exact (cellChain_cons_iff.mp h).1

theorem CellChain.congr (h : CellChain nil link mem c l) (hc : mem' c = mem c)
    (hl : ∀ p ∈ l, mem' (link p) = mem (link p)) : CellChain nil link mem' c l := by
  unfold CellChain
  rw [hc]
  exact Seg.congr h hl

/-- A new node in front. -/
theorem CellChain.push (h : CellChain nil link mem c l) (hp : p ≠ nil) (hc : mem' c = p)
    (hlink : mem' (link p) = mem c) (hl : ∀ q ∈ l, mem' (link q) = mem (link q)) :
    CellChain nil link mem' c (p :: l) := by
  refine cellChain_cons_iff.mpr ⟨hc, hp, ?_⟩
  unfold CellChain
  rw [hlink]
  exact Seg.congr h hl

/-- The first cell made to point behind the first node. -/
theorem CellChain.skip (h : CellChain nil link mem c (p :: l)) (hc : mem' c = mem (link p))
    (hl : ∀ q ∈ l, mem' (link q) = mem (link q)) : CellChain nil link mem' c l := by
  obtain ⟨-, -, hrest⟩ := cellChain_cons_iff.mp h
  unfold CellChain
  rw [hc]
  exact Seg.congr hrest hl

end AegisKernel.Library
