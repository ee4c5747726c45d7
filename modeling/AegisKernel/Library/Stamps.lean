import Mathlib.Logic.Basic

/-!
# Stamped writes

A *canvas* is an unbounded row of cells with a size: the first `size` cells are
its content. It is changed by two kinds of moves,

* `cut n` — set the size to `n`; cells cut off are blanked, cells gained come
  back as they are;
* `put a bs n` — store `bs 0 … bs (n - 1)` from cell `a` on, where the first
  cells stored are those of a fixed stamp `h`.

The question is which contents can be reached. A cell that no `put` touches
keeps its value or is blanked (`Kept`). A cell that is stored needs the cell of
the stamp that falls on it to agree, and all the cells the stamp covers on the
way must be stored again later, so they must be storable themselves
(`Stampable`). `reach_iff` says that this is all.
-/

namespace AegisKernel.Library

variable {α : Type*}

@[ext] structure Canvas (α : Type*) where
  data : Nat → α
  size : Nat

section Moves

variable (blank : α) (h : List α) (cap width : Nat)

def Canvas.cut (x : Canvas α) (n : Nat) : Canvas α :=
  ⟨fun k => if n ≤ k ∧ k < x.size then blank else x.data k, n⟩

def Canvas.put (x : Canvas α) (a : Nat) (bs : Nat → α) (n : Nat) : Canvas α :=
  ⟨fun k => if a ≤ k ∧ k < a + n then bs (k - a) else x.data k, max x.size (a + n)⟩

/-- Cell `p` of a stored row may hold `b`: the stamp has nothing else there. -/
def Allowed (p : Nat) (b : α) : Prop := ∀ s, h[p]? = some s → s = b

/-- The canvases reached by cuts and stamped puts below `cap`, the latter of at
most `width` cells. -/
inductive Reach (x : Canvas α) : Canvas α → Prop
  | refl : Reach x x
  | cut {y : Canvas α} (n : Nat) : Reach x y → n ≤ cap → Reach x (y.cut blank n)
  | put {y : Canvas α} (a : Nat) (bs : Nat → α) (n : Nat) : Reach x y → a + n ≤ cap →
      n ≤ width → (∀ p < n, Allowed h p (bs p)) → Reach x (y.put a bs n)

/-- `b` can be at cell `k` without being stored there, if `y` is the smallest
size the canvas has had. -/
def Kept (x : Canvas α) (y k : Nat) (b : α) : Prop :=
  if k < y then b = x.data k
  else if k < x.size then b = blank
  else b = blank ∨ b = x.data k

/-- Row `c` can be stored at cell `k`, and from some cell `b` up to it. -/
def Stampable (c : Nat → α) (k : Nat) : Prop :=
  ∃ b ≤ k, ∀ j, b ≤ j → j ≤ k → ∃ p ≤ j - b, Allowed h p (c j)

/-- The rows of length `n` that can be composed on canvas `x`. -/
def Composable (x : Canvas α) (n : Nat) (c : Nat → α) : Prop :=
  ∃ y ≤ x.size, ∀ k < n, Kept blank x y k (c k) ∨ Stampable h c k

end Moves

variable {blank : α} {h : List α} {cap width : Nat} {x z : Canvas α}

theorem Reach.trans {y z : Canvas α} (hxy : Reach blank h cap width x y)
    (hyz : Reach blank h cap width y z) : Reach blank h cap width x z := by
  induction hyz with
  | refl => exact hxy
  | cut n _ hn ih => exact .cut n ih hn
  | put a bs n _ hcap hwidth hstamp ih => exact .put a bs n ih hcap hwidth hstamp

/-! ## Nothing else is reached -/

/-- What every reached canvas looks like. -/
structure Layered (blank : α) (h : List α) (x : Canvas α) (y : Nat) (z : Canvas α) : Prop where
  le_size : y ≤ z.size
  le_start : y ≤ x.size
  beyond : ∀ k, z.size ≤ k → Kept blank x y k (z.data k)
  inside : ∀ k, Kept blank x y k (z.data k) ∨ Stampable h z.data k

theorem Kept.mono {y y' k : Nat} {b : α} (hk : Kept blank x y k b) (hle : y' ≤ y)
    (hlt : k < y → k < y') : Kept blank x y' k b := by
  unfold Kept at *
  by_cases hy : k < y
  · rw [if_pos hy] at hk
    rw [if_pos (hlt hy)]
    exact hk
  · rw [if_neg hy] at hk
    rw [if_neg (by omega)]
    exact hk

theorem kept_blank {y k : Nat} (hk : y ≤ k) : Kept blank x y k blank := by
  unfold Kept
  rw [if_neg (by omega)]
  by_cases hs : k < x.size
  · rw [if_pos hs]
  · rw [if_neg hs]
    exact Or.inl rfl

/-- Stampability of a cell looks at the cells up to it. -/
theorem Stampable.congr {c c' : Nat → α} {k : Nat} (hc : Stampable h c k)
    (heq : ∀ j ≤ k, c' j = c j) : Stampable h c' k := by
  obtain ⟨b, hb, hall⟩ := hc
  refine ⟨b, hb, fun j hbj hjk => ?_⟩
  rw [heq j hjk]
  exact hall j hbj hjk

theorem layered_refl (x : Canvas α) : Layered blank h x x.size x := by
  have hkept : ∀ k, Kept blank x x.size k (x.data k) := by
    intro k
    unfold Kept
    by_cases hk : k < x.size
    · rw [if_pos hk]
    · rw [if_neg hk, if_neg hk]
      exact Or.inr rfl
  exact ⟨Nat.le_refl _, Nat.le_refl _, fun k _ => hkept k, fun k => Or.inl (hkept k)⟩

theorem Layered.cut {y : Nat} (hz : Layered blank h x y z) (n : Nat) :
    Layered blank h x (min y n) (z.cut blank n) := by
  have hbeyond : ∀ k, n ≤ k → Kept blank x (min y n) k ((z.cut blank n).data k) := by
    intro k hk
    by_cases hin : k < z.size
    · -- cut off just now
      have hdata : (z.cut blank n).data k = blank := if_pos ⟨hk, hin⟩
      rw [hdata]
      exact kept_blank (by omega)
    · have hdata : (z.cut blank n).data k = z.data k := if_neg (by omega)
      rw [hdata]
      have hle := hz.le_size
      exact (hz.beyond k (by omega)).mono (by omega) (by omega)
  refine ⟨Nat.min_le_right _ _, Nat.le_trans (Nat.min_le_left _ _) hz.le_start, hbeyond,
    fun k => ?_⟩
  by_cases hk : n ≤ k
  · exact Or.inl (hbeyond k hk)
  · have hdata : ∀ j ≤ k, (z.cut blank n).data j = z.data j := fun j hj => if_neg (by omega)
    rw [hdata k (Nat.le_refl k)]
    rcases hz.inside k with hkept | hstamp
    · exact Or.inl (hkept.mono (by omega) (by omega))
    · exact Or.inr (hstamp.congr hdata)

theorem Layered.put {y : Nat} (hz : Layered blank h x y z) {a n : Nat} {bs : Nat → α}
    (hbs : ∀ p < n, Allowed h p (bs p)) : Layered blank h x y (z.put a bs n) := by
  have hout : ∀ k, ¬ (a ≤ k ∧ k < a + n) → (z.put a bs n).data k = z.data k := fun k hk => if_neg hk
  have hin : ∀ k, a ≤ k → k < a + n → Allowed h (k - a) ((z.put a bs n).data k) := by
    intro k hak hkn
    have hdata : (z.put a bs n).data k = bs (k - a) := if_pos ⟨hak, hkn⟩
    rw [hdata]
    exact hbs _ (by omega)
  have hsize : (z.put a bs n).size = max z.size (a + n) := rfl
  refine ⟨?_, hz.le_start, fun k hk => ?_, fun k => ?_⟩
  · rw [hsize]
    exact Nat.le_trans hz.le_size (Nat.le_max_left _ _)
  · rw [hsize] at hk
    rw [hout k (by omega)]
    exact hz.beyond k (by omega)
  · by_cases hk : a ≤ k ∧ k < a + n
    · -- the new stamp itself reaches back to `a`
      exact Or.inr ⟨a, hk.1, fun j haj hjk => ⟨j - a, Nat.le_refl _, hin j haj (by omega)⟩⟩
    · rw [hout k hk]
      rcases hz.inside k with hkept | ⟨b, hbk, hall⟩
      · exact Or.inl hkept
      · right
        by_cases hover : b < a + n ∧ a ≤ k
        · -- the old stretch and the new stamp together
          refine ⟨min a b, by omega, fun j hj hjk => ?_⟩
          by_cases hjin : a ≤ j ∧ j < a + n
          · exact ⟨j - a, by omega, hin j hjin.1 hjin.2⟩
          · rw [hout j hjin]
            obtain ⟨p, hp, hallowed⟩ := hall j (by omega) hjk
            exact ⟨p, by omega, hallowed⟩
        · refine ⟨b, hbk, fun j hbj hjk => ?_⟩
          rw [hout j (by omega)]
          exact hall j hbj hjk

theorem Reach.layered (hz : Reach blank h cap width x z) : ∃ y, Layered blank h x y z := by
  induction hz with
  | refl => exact ⟨x.size, layered_refl x⟩
  | cut n _ _ ih =>
    obtain ⟨y, hy⟩ := ih
    exact ⟨min y n, hy.cut n⟩
  | put a bs n _ _ _ hbs ih =>
    obtain ⟨y, hy⟩ := ih
    exact ⟨y, hy.put hbs⟩

/-! ## All of it is reached -/

section Build

variable (blank h cap width)

/-- A single cell beyond the content can be blanked. -/
theorem reach_blank {k : Nat} (hk : z.size ≤ k) (hcap : k + 1 ≤ cap) :
    ∃ z', Reach blank h cap width z z' ∧ z'.size = k ∧ z'.data k = blank ∧
      ∀ j ≠ k, z'.data j = z.data j := by
  -- grow over the cell, then cut it off
  refine ⟨(z.cut blank (k + 1)).cut blank k, .cut k (.cut (k + 1) .refl hcap) (by omega), rfl,
    if_pos ⟨Nat.le_refl k, Nat.lt_succ_self k⟩, fun j hj => ?_⟩
  have houter : ((z.cut blank (k + 1)).cut blank k).data j = (z.cut blank (k + 1)).data j :=
    if_neg fun hin => hj (Nat.le_antisymm (Nat.le_of_lt_succ hin.2) hin.1)
  rw [houter]
  exact if_neg (by omega)

/-- The cells that are kept, blanked ones included, can be put in place. -/
theorem reach_kept {y n : Nat} {c : Nat → α} (hy : y ≤ x.size) (hx : x.size ≤ cap)
    (hn : n ≤ cap) :
    ∃ z, Reach blank h cap width x z ∧ ∀ k < n, Kept blank x y k (c k) → z.data k = c k := by
  -- cell by cell from the old end on; up to there one cut does it
  suffices hsteps : ∀ m, x.size + m ≤ cap →
      ∃ z, Reach blank h cap width x z ∧ z.size ≤ x.size + m ∧
        (∀ k, x.size + m ≤ k → z.data k = x.data k) ∧
        ∀ k < x.size + m, Kept blank x y k (c k) → z.data k = c k by
    obtain ⟨z, hreach, -, hrest, hdone⟩ := hsteps (n - x.size) (by omega)
    refine ⟨z, hreach, fun k hk hkept => hdone k (by omega) hkept⟩
  intro m
  induction m with
  | zero =>
    intro _
    refine ⟨x.cut blank y, .cut y .refl (by omega), hy, fun k hk => if_neg (by omega), ?_⟩
    intro k hk hkept
    have hk : k < x.size := hk
    unfold Kept at hkept
    by_cases hky : k < y
    · rw [if_pos hky] at hkept
      rw [hkept]
      exact if_neg (by omega)
    · rw [if_neg hky, if_pos hk] at hkept
      rw [hkept]
      exact if_pos ⟨by omega, hk⟩
  | succ m ih =>
    intro hcap
    obtain ⟨z, hreach, hsize, hrest, hdone⟩ := ih (by omega)
    by_cases hnow : z.data (x.size + m) = c (x.size + m)
    · refine ⟨z, hreach, by omega, fun k hk => hrest k (by omega), fun k hk hkept => ?_⟩
      by_cases hlast : k = x.size + m
      · rw [hlast]
        exact hnow
      · exact hdone k (by omega) hkept
    · -- the cell holds the old value, so if it is kept it is to be blank
      obtain ⟨z', hreach', hsize', hblank, hothers⟩ := reach_blank blank h cap width hsize hcap
      refine ⟨z', hreach.trans hreach', by omega, fun k hk => ?_, fun k hk hkept => ?_⟩
      · rw [hothers k (by omega)]
        exact hrest k (by omega)
      · by_cases hlast : k = x.size + m
        · subst hlast
          unfold Kept at hkept
          rw [if_neg (by omega), if_neg (by omega)] at hkept
          rw [hblank]
          rcases hkept with hc | hc
          · exact hc.symm
          · exact absurd ((hrest _ (Nat.le_refl _)).trans hc.symm) hnow
        · rw [hothers k hlast]
          exact hdone k (by omega) hkept

/-- One stamped put that ends at cell `m` stores `c m` there and touches cells
that can be stored again. -/
theorem reach_stamp {c : Nat → α} {m : Nat} (hm : Stampable h c m) (hcap : m + 1 ≤ cap)
    (hwidth : h.length + 1 ≤ width) :
    ∃ z', Reach blank h cap width z z' ∧ z'.data m = c m ∧
      ∀ k, z'.data k = z.data k ∨ k = m ∨ (k < m ∧ Stampable h c k) := by
  obtain ⟨b, hbm, hall⟩ := hm
  obtain ⟨p', hp', hallowed'⟩ := hall m hbm (Nat.le_refl m)
  -- right behind the stamp any value will do
  obtain ⟨p, hp, hlen, hallowed⟩ : ∃ p ≤ m - b, p ≤ h.length ∧ Allowed h p (c m) := by
    by_cases hlong : p' ≤ h.length
    · exact ⟨p', hp', hlong, hallowed'⟩
    · refine ⟨h.length, by omega, Nat.le_refl _, fun s hs => ?_⟩
      rw [List.getElem?_eq_none (Nat.le_refl _)] at hs
      cases hs
  let bs : Nat → α := fun q => h.getD q (c m)
  have hbs : ∀ q, Allowed h q (bs q) := by
    intro q s hs
    show s = h.getD q (c m)
    rw [List.getD_eq_getElem?_getD, hs]
    rfl
  have hlast : bs p = c m := by
    show h.getD p (c m) = c m
    rw [List.getD_eq_getElem?_getD]
    rcases hp : h[p]? with _ | s
    · rfl
    · exact hallowed s hp
  refine ⟨z.put (m - p) bs (p + 1), .put _ bs _ .refl (by omega) (by omega) fun q _ => hbs q,
    ?_, fun k => ?_⟩
  · have hdata : (z.put (m - p) bs (p + 1)).data m = bs (m - (m - p)) := if_pos (by omega)
    rw [hdata, show m - (m - p) = p by omega]
    exact hlast
  · by_cases hk : m - p ≤ k ∧ k < m - p + (p + 1)
    · by_cases hkm : k = m
      · exact Or.inr (Or.inl hkm)
      · refine Or.inr (Or.inr ⟨by omega, b, by omega, fun j hbj hjk => ?_⟩)
        exact hall j hbj (by omega)
    · exact Or.inl (if_neg hk)

/-- Storing the stampable cells from the last to the first. -/
theorem reach_stamped {c : Nat → α} (hwidth : h.length + 1 ≤ width) (n : Nat) :
    ∀ m ≤ n, n ≤ cap → (∀ k < n, z.data k = c k ∨ (k < m ∧ Stampable h c k)) →
      ∃ z', Reach blank h cap width z z' ∧ ∀ k < n, z'.data k = c k := by
  intro m
  induction m generalizing z with
  | zero =>
    intro _ _ hcells
    refine ⟨z, .refl, fun k hk => (hcells k hk).resolve_right fun hlt => ?_⟩
    exact Nat.not_lt_zero k hlt.1
  | succ m ih =>
    intro hmn hcap hcells
    rcases hcells m (by omega) with hnow | ⟨-, hstamp⟩
    · refine ih (by omega) hcap fun k hk => ?_
      rcases hcells k hk with hdone | ⟨hlt, hstamp⟩
      · exact Or.inl hdone
      · by_cases hkm : k = m
        · exact Or.inl (hkm ▸ hnow)
        · exact Or.inr ⟨by omega, hstamp⟩
    -- the put may spoil cells below `m`, but only ones whose turn is still to come
    · obtain ⟨z₁, hreach₁, hm, hothers⟩ :=
        reach_stamp blank h cap width (z := z) hstamp (by omega) hwidth
      have hcells₁ : ∀ k < n, z₁.data k = c k ∨ (k < m ∧ Stampable h c k) := by
        intro k hk
        rcases hothers k with hsame | hkm | hstamped
        · by_cases hkm : k = m
          · exact Or.inl (hkm ▸ hm)
          · rw [hsame]
            rcases hcells k hk with hdone | ⟨hlt, hstamp'⟩
            · exact Or.inl hdone
            · exact Or.inr ⟨by omega, hstamp'⟩
        · exact Or.inl (hkm ▸ hm)
        · exact Or.inr hstamped
      obtain ⟨z₂, hreach₂, hdone⟩ := ih (by omega) hcap hcells₁
      exact ⟨z₂, hreach₁.trans hreach₂, hdone⟩

end Build

/-- **Reachable contents.** Row `c` of length `n` is the content of a reachable
canvas exactly when every cell of it is kept or can be stored. -/
theorem reach_iff {n : Nat} {c : Nat → α} (hx : x.size ≤ cap) (hn : n ≤ cap)
    (hwidth : h.length + 1 ≤ width) :
    (∃ z, Reach blank h cap width x z ∧ z.size = n ∧ ∀ k < n, z.data k = c k) ↔
      Composable blank h x n c := by
  constructor
  · rintro ⟨z, hreach, -, hdata⟩
    -- every reached canvas is layered, so its content is composable
    obtain ⟨y, hlayered⟩ := hreach.layered
    refine ⟨y, hlayered.le_start, fun k hk => ?_⟩
    rcases hlayered.inside k with hkept | hstamp
    · rw [hdata k hk] at hkept
      exact Or.inl hkept
    · exact Or.inr (hstamp.congr fun j hj => (hdata j (by omega)).symm)
  · rintro ⟨y, hy, hcells⟩
    -- first the cells that are kept, then the others from the last to the first,
    -- and at the end the size
    obtain ⟨z₁, hreach₁, hkept⟩ := reach_kept blank h cap width (c := c) hy hx hn
    have hcells₁ : ∀ k < n, z₁.data k = c k ∨ (k < n ∧ Stampable h c k) := by
      intro k hk
      rcases hcells k hk with hk' | hstamp
      · exact Or.inl (hkept k hk hk')
      · exact Or.inr ⟨hk, hstamp⟩
    obtain ⟨z₂, hreach₂, hdone⟩ :=
      reach_stamped blank h cap width hwidth n n (Nat.le_refl n) hn hcells₁
    refine ⟨z₂.cut blank n, .cut n (hreach₁.trans hreach₂) hn, rfl, fun k hk => ?_⟩
    have hdata : (z₂.cut blank n).data k = z₂.data k := if_neg (by omega)
    rw [hdata]
    exact hdone k hk

end AegisKernel.Library
