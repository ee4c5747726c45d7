import Mathlib.Data.List.Basic
import Mathlib.Data.List.Induction

/-!
# Forests of linked nodes

Nodes of type `N` have children at indices of type `I`, given by
`child : N → I → Option N`; several trees, named by keys of type `K`, hang at the
nodes `root k`. `node child root k is` is the node at the path `is` of the tree `k`.

Only some paths are looked at: those with `Key k is`, a condition that initial parts
inherit.

* `Forest` — at different places there are different nodes, all of them `Node`s.
* `node_congr` — a change at other indices.
* `node_link` — a new node, linked at a place that was empty.
* `node_plant` — a new tree, of one node.
* `Forest.grow` — either gives a forest.
-/

namespace AegisKernel.Library

variable {K N I : Type*}

/-- The node at a path from `t`. -/
def follow (child : N → I → Option N) : N → List I → Option N
  | t, [] => some t
  | t, i :: is => (child t i).bind fun u => follow child u is

/-- The node at a path of a tree. -/
def node (child : N → I → Option N) (root : K → Option N) (k : K) (is : List I) : Option N :=
  (root k).bind fun t => follow child t is

section Paths

variable {child child' : N → I → Option N} {root root' : K → Option N} {k : K} {t u : N}
  {is ps : List I} {i : I}

theorem follow_concat :
    follow child t (is ++ [i]) = (follow child t is).bind fun u => child u i := by
  induction is generalizing t with
  | nil =>
    rw [List.nil_append, follow, follow, Option.bind_some]
    exact Option.bind_fun_some (child t i)
  | cons j is ih =>
    rw [List.cons_append, follow, follow, Option.bind_assoc]
    simp only [ih]

theorem node_nil : node child root k [] = root k := by
  unfold node follow
  exact Option.bind_fun_some (root k)

theorem node_concat :
    node child root k (is ++ [i]) = (node child root k is).bind fun u => child u i := by
  unfold node
  rw [Option.bind_assoc]
  simp only [follow_concat]

theorem node_of_follow (hroot : root k = some t) : node child root k is = follow child t is := by
  rw [node, hroot, Option.bind_some]

end Paths

/-- At different places there are different nodes. -/
structure Forest (child : N → I → Option N) (root : K → Option N) (Key : K → List I → Prop)
    (Node : N → Prop) : Prop where
  closed : ∀ k is t, Key k is → node child root k is = some t → Node t
  distinct : ∀ k is k' is' t, Key k is → Key k' is' → node child root k is = some t →
    node child root k' is' = some t → k = k' ∧ is = is'

section Changes

variable {child child' : N → I → Option N} {root root' : K → Option N}
  {Key : K → List I → Prop} {Node : N → Prop} {k : K} {t u : N} {ps : List I} {i : I}

/-- Nodes are where they were if no child on the way changes. -/
theorem node_congr (hkey : ∀ k is i, Key k (is ++ [i]) → Key k is)
    (h : ∀ k is i t, Key k (is ++ [i]) → node child root k is = some t → child' t i = child t i)
    {k : K} {is : List I} (hk : Key k is) : node child' root k is = node child root k is := by
  induction is using List.reverseRecOn with
  | nil => rw [node_nil, node_nil]
  | append_singleton is i ih =>
    rw [node_concat, node_concat, ih (hkey k is i hk)]
    cases hnode : node child root k is with
    | none => rfl
    | some t => exact h k is i t hk hnode

/-- A new node, without children, linked at a place that was empty. -/
theorem node_link [DecidableEq K] [DecidableEq I] (hF : Forest child root Key Node)
    (hkey : ∀ k is i, Key k (is ++ [i]) → Key k is) (hps : Key k ps)
    (hat : node child root k ps = some t) (habsent : child t i = none)
    (hnew : child' t i = some u) (hempty : ∀ k is j, Key k (is ++ [j]) → child' u j = none)
    (hother : ∀ k is j w, Key k (is ++ [j]) → Node w → ¬ (w = t ∧ j = i) →
      child' w j = child w j) {k' : K} {is : List I} (hk' : Key k' is) :
    node child' root k' is = if k' = k ∧ is = ps ++ [i] then some u else node child root k' is := by
  have hgone : node child root k (ps ++ [i]) = none := by
    rw [node_concat, hat, Option.bind_some, habsent]
  induction is using List.reverseRecOn with
  | nil => rw [node_nil, node_nil, if_neg (by simp)]
  | append_singleton is j ih =>
    have his := hkey k' is j hk'
    rw [node_concat, node_concat, ih his]
    by_cases hbelow : k' = k ∧ is = ps ++ [i]
    · -- below the new node
      obtain ⟨rfl, rfl⟩ := hbelow
      rw [if_pos ⟨rfl, rfl⟩, hgone, if_neg (by simp)]
      exact hempty k' _ j hk'
    · rw [if_neg hbelow]
      cases hnode : node child root k' is with
      | none =>
        have hplace : ¬ (k' = k ∧ is ++ [j] = ps ++ [i]) := by
          rintro ⟨rfl, heq⟩
          obtain ⟨rfl, -⟩ := List.append_inj' heq rfl
          rw [hat] at hnode
          exact absurd hnode (by simp)
        rw [if_neg hplace]
        rfl
      | some w =>
        rw [Option.bind_some, Option.bind_some]
        by_cases hplace : w = t ∧ j = i
        · obtain ⟨rfl, rfl⟩ := hplace
          obtain ⟨rfl, rfl⟩ := hF.distinct _ _ _ _ _ his hps hnode hat
          rw [if_pos ⟨rfl, rfl⟩, hnew]
        · have hne : ¬ (k' = k ∧ is ++ [j] = ps ++ [i]) := by
            rintro ⟨rfl, heq⟩
            obtain ⟨rfl, hij⟩ := List.append_inj' heq rfl
            rw [hat] at hnode
            exact hplace ⟨(Option.some.inj hnode).symm, by simpa using hij⟩
          rw [if_neg hne]
          exact hother k' is j w hk' (hF.closed _ _ _ his hnode) hplace

/-- With a node more, at one place, there is a forest again if it was none of the
nodes before. -/
theorem Forest.grow [DecidableEq K] [DecidableEq I] {Node' : N → Prop}
    (hF : Forest child root Key Node) (hfresh : ¬ Node u) (hu : Node' u)
    (hkeeps : ∀ w, Node w → Node' w)
    (hnode : ∀ k' is, Key k' is → node child' root' k' is =
      if k' = k ∧ is = ps then some u else node child root k' is) :
    Forest child' root' Key Node' := by
  constructor
  · intro k' is w hk' hw
    rw [hnode k' is hk'] at hw
    split at hw
    · exact Option.some.inj hw ▸ hu
    · exact hkeeps w (hF.closed k' is w hk' hw)
  · intro k₁ is₁ k₂ is₂ w hk₁ hk₂ hw₁ hw₂
    rw [hnode k₁ is₁ hk₁] at hw₁
    rw [hnode k₂ is₂ hk₂] at hw₂
    split at hw₁
    · rename_i h₁
      split at hw₂
      · rename_i h₂
        exact ⟨h₁.1.trans h₂.1.symm, h₁.2.trans h₂.2.symm⟩
      · exact absurd (Option.some.inj hw₁ ▸ hF.closed _ _ _ hk₂ hw₂) hfresh
    · split at hw₂
      · exact absurd (Option.some.inj hw₂ ▸ hF.closed _ _ _ hk₁ hw₁) hfresh
      · exact hF.distinct _ _ _ _ _ hk₁ hk₂ hw₁ hw₂

/-- A new tree of one node. -/
theorem node_plant [DecidableEq K] (hkey : ∀ k is i, Key k (is ++ [i]) → Key k is)
    (hF : Forest child root Key Node) (hnone : root k = none)
    (hroot : ∀ k', root' k' = if k' = k then some u else root k')
    (hempty : ∀ k is j, Key k (is ++ [j]) → child' u j = none)
    (hother : ∀ k is j w, Key k (is ++ [j]) → Node w → child' w j = child w j) {k' : K}
    {is : List I} (hk' : Key k' is) :
    node child' root' k' is = if k' = k ∧ is = [] then some u else node child root k' is := by
  induction is using List.reverseRecOn with
  | nil =>
    rw [node_nil, node_nil, hroot]
    by_cases hkk : k' = k
    · rw [if_pos hkk, if_pos ⟨hkk, rfl⟩]
    · rw [if_neg hkk, if_neg fun h => hkk h.1]
  | append_singleton is j ih =>
    have his := hkey k' is j hk'
    have hne : ¬ (k' = k ∧ is ++ [j] = []) := by simp
    rw [if_neg hne, node_concat, node_concat, ih his]
    by_cases hbelow : k' = k ∧ is = []
    · obtain ⟨rfl, rfl⟩ := hbelow
      rw [if_pos ⟨rfl, rfl⟩, node_nil, hnone, Option.bind_some, Option.bind_none]
      exact hempty k' [] j hk'
    · rw [if_neg hbelow]
      cases hnode : node child root k' is with
      | none => rfl
      | some w =>
        exact hother k' is j w hk' (hF.closed _ _ _ his hnode)

end Changes

end AegisKernel.Library
