import Mathlib.Data.List.Nodup
import Mathlib.Logic.Function.Basic
import Mathlib.Tactic.Common

/-!
# Singly linked chains

Nodes live in an arbitrary type `α` with one distinguished value `nil`; the
links are a function `next : α → α`. A chain is described by the list of
nodes it visits:

* `Seg nil next h l e` — following `next` from `h` visits exactly the nodes of
  `l`, none of them `nil`, and then arrives at `e`;
* `Linked nil next h l` — the segment that arrives at `nil`: a finished chain;
* `Reaches nil next h a` — the traversal a program performs, which follows
  `next` from `h` until `nil`, visits `a`.

On a finished chain the traversal visits exactly the list, so the list is
determined by the links (`Linked.unique`) and has no duplicates
(`Linked.nodup`).

A queue is a chain with a pointer to its last node. `OpenQueue` says that the
first and last pointers and the links between them agree, and leaves open
where the last node points; a queue whose last node points to `nil` is a
finished chain (`OpenQueue.linked`). `OpenQueue.requeue` is the effect of
clearing a node's link and appending the node behind the last one, whether or
not it was on the queue already; `OpenQueue.dropHead` and `Linked.bypass` are
the two ways of taking a node out.
-/

namespace AegisKernel.Library

variable {α : Type*} {nil : α} {next next' : α → α}

/-- Following `next` from `h` visits exactly `l` and then arrives at `e`. -/
inductive Seg (nil : α) (next : α → α) : α → List α → α → Prop
  | stop {e : α} : Seg nil next e [] e
  | visit {a e : α} {l : List α} :
      a ≠ nil → Seg nil next (next a) l e → Seg nil next a (a :: l) e

/-- The chain from `h` visits exactly `l` and then reaches `nil`. -/
def Linked (nil : α) (next : α → α) (h : α) (l : List α) : Prop :=
  Seg nil next h l nil

/-- Following `next` from the first argument, and stopping at `nil`, visits
the second. -/
inductive Reaches (nil : α) (next : α → α) : α → α → Prop
  | here {a : α} : a ≠ nil → Reaches nil next a a
  | there {a b : α} : a ≠ nil → Reaches nil next (next a) b → Reaches nil next a b

/-! ## Segments -/

@[simp] theorem seg_nil_iff {h e : α} : Seg nil next h [] e ↔ h = e := by
  constructor
  · rintro ⟨⟩
    rfl
  · rintro rfl
    exact .stop

@[simp] theorem seg_cons_iff {h a e : α} {l : List α} :
    Seg nil next h (a :: l) e ↔ h = a ∧ a ≠ nil ∧ Seg nil next (next a) l e := by
  constructor
  · rintro (_ | ⟨hne, hrest⟩)
    exact ⟨rfl, hne, hrest⟩
  · rintro ⟨rfl, hne, hrest⟩
    exact .visit hne hrest

/-- Segments compose and split at any point. -/
theorem seg_append_iff {h e : α} {l₁ l₂ : List α} :
    Seg nil next h (l₁ ++ l₂) e ↔ ∃ m, Seg nil next h l₁ m ∧ Seg nil next m l₂ e := by
  induction l₁ generalizing h with
  | nil => simp
  | cons a l₁ ih =>
    simp only [List.cons_append, seg_cons_iff, ih]
    constructor
    · rintro ⟨rfl, hne, m, h₁, h₂⟩
      exact ⟨m, ⟨rfl, hne, h₁⟩, h₂⟩
    · rintro ⟨m, ⟨rfl, hne, h₁⟩, h₂⟩
      exact ⟨rfl, hne, m, h₁, h₂⟩

/-- Splitting a segment at one of its nodes. -/
theorem seg_middle_iff {h a e : α} {l₁ l₂ : List α} :
    Seg nil next h (l₁ ++ a :: l₂) e ↔
      Seg nil next h l₁ a ∧ a ≠ nil ∧ Seg nil next (next a) l₂ e := by
  rw [seg_append_iff]
  constructor
  · rintro ⟨m, h₁, h₂⟩
    obtain ⟨rfl, hne, hrest⟩ := seg_cons_iff.mp h₂
    exact ⟨h₁, hne, hrest⟩
  · rintro ⟨h₁, hne, hrest⟩
    exact ⟨a, h₁, .visit hne hrest⟩

theorem Seg.ne_nil {h e : α} {l : List α} (hl : Seg nil next h l e) :
    ∀ a ∈ l, a ≠ nil := by
  intro a ha
  obtain ⟨l₁, l₂, rfl⟩ := List.append_of_mem ha
  exact (seg_middle_iff.mp hl).2.1

/-- Links outside a segment do not matter to it. -/
theorem Seg.congr {h e : α} {l : List α} (hl : Seg nil next h l e)
    (heq : ∀ a ∈ l, next' a = next a) : Seg nil next' h l e := by
  induction hl with
  | stop => exact .stop
  | @visit a e l hne _ ih =>
    refine .visit hne ?_
    rw [heq a (List.mem_cons_self ..)]
    exact ih fun b hb => heq b (List.mem_cons_of_mem _ hb)

/-! ## Finished chains -/

theorem Linked.head_eq_nil_iff {h : α} {l : List α} (hl : Linked nil next h l) :
    h = nil ↔ l = [] := by
  cases hl with
  | stop => simp
  | visit hne _ => simp [hne]

theorem Linked.head_mem {h : α} {l : List α} (hl : Linked nil next h l)
    (hne : h ≠ nil) : h ∈ l := by
  cases hl with
  | stop => exact absurd rfl hne
  | visit _ _ => exact List.mem_cons_self ..

/-- The links determine the list. -/
theorem Linked.unique {h : α} {l l' : List α} (hl : Linked nil next h l)
    (hl' : Linked nil next h l') : l = l' := by
  induction l generalizing h l' with
  | nil =>
    obtain rfl := seg_nil_iff.mp hl
    exact (hl'.head_eq_nil_iff.mp rfl).symm
  | cons a l ih =>
    obtain ⟨rfl, hne, hrest⟩ := seg_cons_iff.mp hl
    cases hl' with
    | stop => exact absurd rfl hne
    | visit _ hrest' => rw [ih hrest hrest']

/-- A finished chain visits no node twice: the rest of the chain behind a
repeated node would be a proper suffix of itself. -/
theorem Linked.nodup {h : α} {l : List α} (hl : Linked nil next h l) : l.Nodup := by
  induction l generalizing h with
  | nil => exact List.nodup_nil
  | cons a l ih =>
    obtain ⟨rfl, _, hrest⟩ := seg_cons_iff.mp hl
    refine List.nodup_cons.mpr ⟨fun ha => ?_, ih hrest⟩
    obtain ⟨l₁, l₂, rfl⟩ := List.append_of_mem ha
    have hl₂ : Linked nil next (next h) l₂ := (seg_middle_iff.mp hrest).2.2
    -- two lists for one chain, of different lengths
    have hlen := congrArg List.length (Linked.unique hrest hl₂)
    simp at hlen
    omega

theorem Linked.reaches_iff {h : α} {l : List α} (hl : Linked nil next h l) {a : α} :
    Reaches nil next h a ↔ a ∈ l := by
  induction l generalizing h with
  | nil =>
    obtain rfl := seg_nil_iff.mp hl
    constructor
    · rintro (⟨hne⟩ | ⟨hne, _⟩) <;> exact absurd rfl hne
    · intro ha
      simp at ha
  | cons b l ih =>
    obtain ⟨rfl, hne, hrest⟩ := seg_cons_iff.mp hl
    rw [List.mem_cons, ← ih hrest]
    constructor
    · rintro (_ | ⟨_, hr⟩)
      · exact .inl rfl
      · exact .inr hr
    · rintro (rfl | hr)
      · exact .here hne
      · exact .there hne hr

/-- A node that points to itself lies on no finished chain. -/
theorem Linked.not_mem_of_self {h : α} {l : List α} (hl : Linked nil next h l)
    {a : α} (hself : next a = a) : a ∉ l := by
  intro ha
  obtain ⟨l₁, l₂, rfl⟩ := List.append_of_mem ha
  obtain ⟨-, hne, hl₂⟩ := seg_middle_iff.mp hl
  rw [hself] at hl₂
  have hmem : a ∈ l₂ := Linked.head_mem hl₂ hne
  exact (List.nodup_cons.mp (List.nodup_append.mp hl.nodup).2.1).1 hmem

/-- A visited node that points to `i ≠ nil` is the node right before `i`. -/
theorem Linked.pred {h j i : α} {l : List α} (hl : Linked nil next h l)
    (hj : j ∈ l) (hnext : next j = i) (hi : i ≠ nil) :
    ∃ l₁ l₂, l = l₁ ++ j :: i :: l₂ := by
  obtain ⟨l₁, l₂, rfl⟩ := List.append_of_mem hj
  obtain ⟨-, -, hrest⟩ := seg_middle_iff.mp hl
  rw [hnext] at hrest
  cases hrest with
  | stop => exact absurd rfl hi
  | visit _ _ => exact ⟨l₁, _, rfl⟩

/-- Bypassing an inner node takes exactly that node out of the chain. -/
theorem Linked.bypass {h j i : α} {l₁ l₂ : List α}
    (hl : Linked nil next h (l₁ ++ j :: i :: l₂))
    (hj : next' j = next i) (heq : ∀ a ∈ l₁ ++ l₂, next' a = next a) :
    Linked nil next' h (l₁ ++ j :: l₂) := by
  obtain ⟨h₁, hjne, hrest⟩ := seg_middle_iff.mp hl
  obtain ⟨-, -, h₂⟩ := seg_cons_iff.mp hrest
  refine seg_middle_iff.mpr ⟨?_, hjne, ?_⟩
  · exact h₁.congr fun a ha => heq a (List.mem_append_left _ ha)
  · rw [hj]
    exact h₂.congr fun a ha => heq a (List.mem_append_right _ ha)

/-! ## Queues: chains with a pointer to the last node -/

/-- The first node `h`, the last node `t` and the links in between describe
the list `l`; where the last node points is left open. -/
inductive OpenQueue (nil : α) (next : α → α) : α → α → List α → Prop
  | empty : OpenQueue nil next nil nil []
  | upTo {h t : α} {l : List α} : Seg nil next h l t → t ≠ nil → (l ++ [t]).Nodup →
      OpenQueue nil next h t (l ++ [t])

theorem OpenQueue.ne_nil {h t : α} {l : List α} (hq : OpenQueue nil next h t l) :
    ∀ a ∈ l, a ≠ nil := by
  cases hq with
  | empty => simp
  | upTo hs ht _ =>
    intro a ha
    rcases List.mem_append.mp ha with ha | ha
    · exact hs.ne_nil a ha
    · rw [List.mem_singleton.mp ha]
      exact ht

theorem OpenQueue.nodup {h t : α} {l : List α} (hq : OpenQueue nil next h t l) :
    l.Nodup := by
  cases hq with
  | empty => exact List.nodup_nil
  | upTo _ _ hnd => exact hnd

theorem OpenQueue.tail_mem {h t : α} {l : List α} (hq : OpenQueue nil next h t l)
    (ht : t ≠ nil) : t ∈ l := by
  cases hq with
  | empty => exact absurd rfl ht
  | upTo _ _ _ => simp

theorem OpenQueue.getLastD {h t : α} {l : List α} (hq : OpenQueue nil next h t l) :
    l.getLastD nil = t := by
  cases hq with
  | empty => rfl
  | upTo _ _ _ => simp

/-- The last node is the one behind which there is none. -/
theorem OpenQueue.tail_eq_iff {h t a : α} (l₁ : List α) {l₂ : List α}
    (hq : OpenQueue nil next h t (l₁ ++ a :: l₂)) : t = a ↔ l₂ = [] := by
  have hlast := hq.getLastD
  have ha : a ∉ l₂ := (List.nodup_cons.mp (List.nodup_append.mp hq.nodup).2.1).1
  rcases List.eq_nil_or_concat l₂ with rfl | ⟨l, b, rfl⟩
  · rw [List.getLastD_concat] at hlast
    exact iff_of_true hlast.symm rfl
  · rw [List.concat_eq_append, ← List.cons_append, ← List.append_assoc,
      List.getLastD_concat] at hlast
    refine iff_of_false (fun ht => ha ?_) (by simp)
    rw [← ht, ← hlast]
    simp

/-- What is last in a list behind another does not depend on the other. -/
theorem getLastD_append_right (l₁ : List α) {l₂ : List α} (hne : l₂ ≠ []) (d d' : α) :
    (l₁ ++ l₂).getLastD d = l₂.getLastD d' := by
  obtain ⟨l, b, rfl⟩ := (List.eq_nil_or_concat l₂).resolve_left hne
  rw [List.concat_eq_append, ← List.append_assoc, List.getLastD_concat, List.getLastD_concat]

theorem OpenQueue.tail_eq_nil_iff {h t : α} {l : List α}
    (hq : OpenQueue nil next h t l) : t = nil ↔ l = [] := by
  cases hq with
  | empty => simp
  | upTo _ ht _ => simp [ht]

theorem OpenQueue.head_eq_nil_iff {h t : α} {l : List α}
    (hq : OpenQueue nil next h t l) : h = nil ↔ l = [] := by
  cases hq with
  | empty => simp
  | upTo hs ht _ =>
    cases hs with
    | stop => simp [ht]
    | visit hne _ => simp [hne]

theorem OpenQueue.reaches {h t a : α} {l : List α} (hq : OpenQueue nil next h t l)
    (ha : a ∈ l) : Reaches nil next h a := by
  -- along the segment, and then its end
  have key : ∀ {l : List α} {h e : α}, Seg nil next h l e → e ≠ nil →
      a ∈ l ++ [e] → Reaches nil next h a := by
    intro l h e hs he
    induction hs with
    | stop =>
      intro hmem
      rw [List.mem_singleton.mp hmem]
      exact .here he
    | visit hne _ ih =>
      intro hmem
      rcases List.mem_cons.mp hmem with rfl | hmem
      · exact .here hne
      · exact .there hne (ih he hmem)
  cases hq with
  | empty => simp at ha
  | upTo hs ht _ => exact key hs ht ha

theorem OpenQueue.congr {h t : α} {l : List α} (hq : OpenQueue nil next h t l)
    (heq : ∀ a ∈ l, next' a = next a) : OpenQueue nil next' h t l := by
  cases hq with
  | empty => exact .empty
  | upTo hs ht hnd =>
    exact .upTo (hs.congr fun a ha => heq a (List.mem_append_left _ ha)) ht hnd

/-- A queue whose last node points to `nil` is a finished chain. -/
theorem OpenQueue.linked {h t : α} {l : List α} (hq : OpenQueue nil next h t l)
    (hclosed : t ≠ nil → next t = nil) : Linked nil next h l := by
  cases hq with
  | empty => exact .stop
  | upTo hs ht _ => exact seg_middle_iff.mpr ⟨hs, ht, seg_nil_iff.mpr (hclosed ht)⟩

/-- A finished chain with its last node is a queue, and the last node points
to `nil`. -/
theorem Linked.openQueue {h : α} {l : List α} (hl : Linked nil next h l) :
    OpenQueue nil next h (l.getLastD nil) l ∧
      (l.getLastD nil ≠ nil → next (l.getLastD nil) = nil) := by
  rcases List.eq_nil_or_concat l with rfl | ⟨l', t, rfl⟩
  · obtain rfl := seg_nil_iff.mp hl
    exact ⟨.empty, fun hne => absurd rfl hne⟩
  · rw [List.concat_eq_append] at hl ⊢
    obtain ⟨hs, ht, hend⟩ := seg_middle_iff.mp hl
    rw [List.getLastD_concat]
    exact ⟨.upTo hs ht hl.nodup, fun _ => seg_nil_iff.mp hend⟩

/-- Taking the first node of a finished chain out of the queue. -/
theorem Linked.dropHead {h : α} {l : List α} (hl : Linked nil next h l)
    (hne : h ≠ nil) : ∃ l', l = h :: l' ∧ Linked nil next (next h) l' := by
  cases hl with
  | stop => exact absurd rfl hne
  | visit _ hrest => exact ⟨_, rfl, hrest⟩

section Requeue

variable [DecidableEq α]

/-- Clearing the link of `x` and appending `x` behind the last node. A node
that was on the queue already cuts off everything behind it. -/
theorem OpenQueue.requeue {h t x : α} {l : List α} (hq : OpenQueue nil next h t l)
    (hx : x ≠ nil) (hlink : l ≠ [] → next' t = x)
    (heq : ∀ a ∈ l, a ≠ x → a ≠ t → next' a = next a) :
    OpenQueue nil next' (if h = nil then x else h) x (l.takeWhile (· ≠ x) ++ [x]) := by
  have hif := hq.head_eq_nil_iff
  cases hq with
  | empty =>
    rw [if_pos rfl]
    exact .upTo .stop hx (by simp)
  | @upTo _ _ l hs ht hnd =>
    rw [if_neg (fun h0 => by simpa using hif.mp h0)]
    have hnd' := List.nodup_append.mp hnd
    have hne_t : ∀ a ∈ l, a ≠ t := fun a ha => hnd'.2.2 a ha t (by simp)
    by_cases hxl : x ∈ l
    · -- `x` is an inner node: the part of the chain before it stays
      obtain ⟨l₁, l₂, rfl⟩ := List.append_of_mem hxl
      have hx₁ : x ∉ l₁ := fun hmem =>
        (List.nodup_append.mp hnd'.1).2.2 x hmem x (by simp) rfl
      have htake : (l₁ ++ x :: l₂ ++ [t]).takeWhile (· ≠ x) = l₁ := by
        rw [List.append_assoc, List.takeWhile_append_of_pos]
        · simp
        · intro a ha
          simpa using fun hax : a = x => hx₁ (hax ▸ ha)
      rw [htake]
      refine .upTo ((seg_middle_iff.mp hs).1.congr fun a ha => ?_) hx ?_
      · exact heq a (by simp [ha]) (fun hax => hx₁ (hax ▸ ha)) (hne_t a (by simp [ha]))
      · have := (List.nodup_append.mp hnd'.1)
        exact List.nodup_append.mpr ⟨this.1, by simp, by
          intro a ha b hb
          rw [List.mem_singleton.mp hb]
          exact fun hax => hx₁ (hax ▸ ha)⟩
    -- `x` is the last node or a new one: the chain up to `t` stays
    · have hcongr : Seg nil next' h l t := hs.congr fun a ha =>
        heq a (by simp [ha]) (fun hax => hxl (hax ▸ ha)) (hne_t a ha)
      have hpos : ∀ a ∈ l, (decide (a ≠ x)) = true := fun a ha => by
        simpa using fun hax : a = x => hxl (hax ▸ ha)
      by_cases hxt : x = t
      · subst hxt
        rw [List.takeWhile_append_of_pos hpos]
        simpa using OpenQueue.upTo hcongr hx hnd
      · have htake : (l ++ [t]).takeWhile (· ≠ x) = l ++ [t] := by
          rw [List.takeWhile_append_of_pos hpos]
          simp [Ne.symm hxt]
        rw [htake]
        refine .upTo (seg_middle_iff.mpr ⟨hcongr, ht, ?_⟩) hx ?_
        · exact seg_nil_iff.mpr (hlink (by simp))
        · refine List.nodup_append.mpr ⟨hnd, by simp, ?_⟩
          intro a ha b hb hab
          rw [List.mem_singleton.mp hb] at hab
          rcases List.mem_append.mp ha with ha | ha
          · exact hxl (hab ▸ ha)
          · exact hxt (by rw [← hab, List.mem_singleton.mp ha])

end Requeue

end AegisKernel.Library
