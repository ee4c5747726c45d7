import Mathlib.Data.List.Induction
import AegisKernel.Library.Stamps

/-!
# Repeated cuts

A canvas that is only cut, to one size after the other. A cell of its content stays
until some cut takes it off, and is blank from then on, also when a later cut is
longer again. A cell behind the content is blanked when it is gained by one cut and
lost by a later one.
-/

namespace AegisKernel.Library

variable {α : Type*} {blank : α} {x : Canvas α} {ns : List Nat} {k n : Nat}

def Canvas.cuts (blank : α) (x : Canvas α) (ns : List Nat) : Canvas α :=
  ns.foldl (Canvas.cut blank) x

theorem cuts_concat : x.cuts blank (ns ++ [n]) = (x.cuts blank ns).cut blank n := by
  rw [Canvas.cuts, List.foldl_append]
  rfl

theorem size_cuts_concat : (x.cuts blank (ns ++ [n])).size = n := by
  rw [cuts_concat]
  rfl

theorem data_cut (k : Nat) :
    (x.cut blank n).data k = if n ≤ k ∧ k < x.size then blank else x.data k := rfl

/-- A cell is behind the content after the cuts when the last one took it off. -/
theorem size_cuts_le (hk : x.size ≤ k) (h : ∀ n ∈ ns, n ≤ k) : (x.cuts blank ns).size ≤ k := by
  induction ns using List.reverseRecOn with
  | nil => exact hk
  | append_singleton ns n _ =>
    rw [size_cuts_concat]
    exact h n (List.mem_append_right _ List.mem_cons_self)

theorem lt_size_cuts (hk : k < x.size) (h : ∀ n ∈ ns, k < n) : k < (x.cuts blank ns).size := by
  induction ns using List.reverseRecOn with
  | nil => exact hk
  | append_singleton ns n _ =>
    rw [size_cuts_concat]
    exact h n (List.mem_append_right _ List.mem_cons_self)

/-- A cell of the content stays as long as no cut takes it off. -/
theorem data_cuts_inside (hk : k < x.size) :
    (x.cuts blank ns).data k = if ∀ n ∈ ns, k < n then x.data k else blank := by
  induction ns using List.reverseRecOn with
  | nil => rw [if_pos fun n hn => absurd hn List.not_mem_nil]; rfl
  | append_singleton ns n ih =>
    rw [cuts_concat, data_cut, ih]
    by_cases hall : ∀ n' ∈ ns, k < n'
    · have hsize : k < (x.cuts blank ns).size := lt_size_cuts hk hall
      rw [if_pos hall]
      by_cases hn : n ≤ k
      · have hlost : ¬ ∀ n' ∈ ns ++ [n], k < n' := fun h =>
          absurd (h n (List.mem_append_right _ List.mem_cons_self)) (by omega)
        rw [if_pos ⟨hn, hsize⟩, if_neg hlost]
      · have hkept : ∀ n' ∈ ns ++ [n], k < n' := fun n' hn' => by
          rcases List.mem_append.mp hn' with hn' | hn'
          · exact hall n' hn'
          · rw [List.mem_singleton.mp hn']
            omega
        rw [if_neg fun h => hn h.1, if_pos hkept]
    · have hlost : ¬ ∀ n' ∈ ns ++ [n], k < n' := fun h =>
        hall fun n' hn' => h n' (List.mem_append_left _ hn')
      rw [if_neg hall, if_neg hlost, ite_self]

/-- A cell behind the content is blanked when a cut that gains it is followed by one
that loses it. -/
theorem data_cuts_outside (hk : x.size ≤ k) :
    (x.cuts blank ns).data k =
      if ns.Pairwise fun n n' => k < n → k < n' then x.data k else blank := by
  induction ns using List.reverseRecOn with
  | nil => rw [if_pos List.Pairwise.nil]; rfl
  | append_singleton ns n ih =>
    have hconcat : (ns ++ [n]).Pairwise (fun n n' => k < n → k < n') ↔
        ns.Pairwise (fun n n' => k < n → k < n') ∧ ∀ n' ∈ ns, k < n' → k < n := by
      rw [List.pairwise_append]
      simp
    rw [cuts_concat, data_cut, ih]
    by_cases hpair : ns.Pairwise fun n n' => k < n → k < n'
    · rw [if_pos hpair]
      by_cases hgained : ∃ n' ∈ ns, k < n'
      · -- the cell is part of the content by now
        obtain ⟨n', hn', hlt⟩ := hgained
        have hsize : k < (x.cuts blank ns).size := by
          obtain ⟨pre, last, rfl⟩ := (List.eq_nil_or_concat ns).resolve_left
            (List.ne_nil_of_mem hn')
          rw [List.concat_eq_append] at hpair hn' ⊢
          rw [size_cuts_concat]
          rcases List.mem_append.mp hn' with hn' | hn'
          · exact (List.pairwise_append.mp hpair).2.2 n' hn' last List.mem_cons_self hlt
          · rwa [← List.mem_singleton.mp hn']
        by_cases hn : n ≤ k
        · rw [if_pos ⟨hn, hsize⟩, if_neg]
          exact fun h => absurd ((hconcat.mp h).2 n' hn' hlt) (by omega)
        · rw [if_neg fun h => hn h.1, if_pos]
          exact hconcat.mpr ⟨hpair, fun _ _ _ => by omega⟩
      · have hnone : ∀ n' ∈ ns, n' ≤ k := fun n' hn' =>
          Nat.not_lt.mp fun hlt => hgained ⟨n', hn', hlt⟩
        have hsize : (x.cuts blank ns).size ≤ k := size_cuts_le hk hnone
        rw [if_neg fun h => absurd h.2 (by omega), if_pos]
        exact hconcat.mpr ⟨hpair, fun n' hn' hlt => absurd (hnone n' hn') (by omega)⟩
    · rw [if_neg hpair, ite_self, if_neg fun h => hpair (hconcat.mp h).1]

end AegisKernel.Library
