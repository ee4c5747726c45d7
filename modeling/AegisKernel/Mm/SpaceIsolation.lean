import AegisKernel.Mm.AddressSpaces

/-!
# Memory management — page tables do not interfere

The spaces of `AddressSpaces` share the pages of the heap and nothing else. So if the
heap lasts, the calls on one table are answered as if those on the others had not been
made.

* `Served` — an answer that does not report a missing page.
* `alone k ops` — the run without the calls on other tables.
* `enter_mono`, `perform_mono` — more pages are no worse.
* `page_tables_isolated` — the result.
-/

namespace AegisKernel.Mm

open Library

/-- The answer does not say that a page was missing. -/
def Served : TableOp → Option Result → Prop
  | .create, r => r ≠ some (.created false)
  | .on _ (.map _ _ _), r => r ≠ some (.code (-1))
  | .on _ (.walk _ true), r => r ≠ some (.found none)
  | _, _ => True

/-- The answers to the calls on the `k`-th table. -/
def heard (k : Nat) : TableOp → Option Result → Option Result
  | .create, _ => none
  | .on j _, r => if j = k then r else none

/-- Without the calls on other tables. -/
def alone (k : Nat) (ops : List TableOp) : List TableOp :=
  ops.filter fun op =>
    match op with
    | .create => true
    | .on j _ => j == k

-- ---------------------------------------------------------------------------
-- The pages left
-- ---------------------------------------------------------------------------

section Pages

variable {sp : Space} {left left' : Nat} {ps is : List Word}

theorem enter_le (sp : Space) (left : Nat) (ps is : List Word) :
    (sp.enter left ps is).2.1 ≤ left := by
  induction is generalizing sp left ps with
  | nil => exact Nat.le_refl left
  | cons i is ih =>
    by_cases hmem : ps ++ [i] ∈ sp.paths
    · rw [Space.enter_of_mem hmem]
      exact ih sp left (ps ++ [i])
    · cases left with
      | zero =>
        rw [Space.enter_full hmem]
      | succ left =>
        rw [Space.enter_extend hmem]
        exact Nat.le_succ_of_le (ih _ left (ps ++ [i]))

/-- With more pages the same tables are built, and more are left. -/
theorem enter_mono (hok : (sp.enter left ps is).1 = true) (hle : left ≤ left') :
    (sp.enter left' ps is).1 = true ∧
      (sp.enter left' ps is).2.2 = (sp.enter left ps is).2.2 ∧
      (sp.enter left ps is).2.1 ≤ (sp.enter left' ps is).2.1 := by
  induction is generalizing sp left left' ps with
  | nil => exact ⟨rfl, rfl, hle⟩
  | cons i is ih =>
    by_cases hmem : ps ++ [i] ∈ sp.paths
    · rw [Space.enter_of_mem hmem] at hok
      rw [Space.enter_of_mem hmem, Space.enter_of_mem hmem]
      exact ih hok hle
    · cases left with
      | zero =>
        rw [Space.enter_full hmem] at hok
        exact absurd hok (by simp)
      | succ left =>
        obtain ⟨left'', rfl⟩ : ∃ n, left' = n + 1 := ⟨left' - 1, by omega⟩
        rw [Space.enter_extend hmem] at hok
        rw [Space.enter_extend hmem, Space.enter_extend hmem]
        exact ih hok (by omega)

theorem perform_le (sp : Space) (left : Nat) (call : TableCall) :
    (sp.perform left call).2.1 ≤ left := by
  cases call with
  | map v p flags =>
    have hle := enter_le sp left [] (tablePath v)
    rw [Space.perform]
    rcases henter : sp.enter left [] (tablePath v) with ⟨ok, l, sp'⟩
    rw [henter] at hle
    cases ok with
    | false => exact hle
    | true => exact hle
  | unmap v => exact Nat.le_refl left
  | walk v create =>
    cases create with
    | true =>
      have hle := enter_le sp left [] (tablePath v)
      rw [Space.perform]
      rcases henter : sp.enter left [] (tablePath v) with ⟨ok, l, sp'⟩
      rw [henter] at hle
      cases ok with
      | false => exact hle
      | true => exact hle
    | false => exact Nat.le_refl left
  | protect v flags =>
    rw [Space.perform]
    split
    · exact Nat.le_refl left
    · exact Nat.le_refl left

/-- With more pages a call that was served is answered the same. -/
theorem perform_mono {k : Nat} {call : TableCall}
    (hserved : Served (.on k call) (some (sp.perform left call).1)) (hle : left ≤ left') :
    (sp.perform left' call).1 = (sp.perform left call).1 ∧
      (sp.perform left' call).2.2 = (sp.perform left call).2.2 ∧
      (sp.perform left call).2.1 ≤ (sp.perform left' call).2.1 := by
  cases call with
  | map v p flags =>
    have hmono := @enter_mono sp left left' [] (tablePath v)
    rw [Served, Space.perform] at hserved
    rw [Space.perform, Space.perform]
    rcases henter : sp.enter left [] (tablePath v) with ⟨ok, l, sp'⟩
    rcases henter' : sp.enter left' [] (tablePath v) with ⟨ok', l', sp''⟩
    rw [henter] at hserved
    rw [henter, henter'] at hmono
    cases ok with
    | false => exact absurd rfl hserved
    | true =>
      obtain ⟨hok, hsp, hl⟩ := hmono rfl hle
      dsimp only at hok hsp hl
      subst hok hsp
      exact ⟨rfl, rfl, hl⟩
  | unmap v => exact ⟨rfl, rfl, hle⟩
  | walk v create =>
    cases create with
    | true =>
      have hmono := @enter_mono sp left left' [] (tablePath v)
      rw [Served, Space.perform] at hserved
      rw [Space.perform, Space.perform]
      rcases henter : sp.enter left [] (tablePath v) with ⟨ok, l, sp'⟩
      rcases henter' : sp.enter left' [] (tablePath v) with ⟨ok', l', sp''⟩
      rw [henter] at hserved
      rw [henter, henter'] at hmono
      cases ok with
      | false => exact absurd rfl hserved
      | true =>
        obtain ⟨hok, hsp, hl⟩ := hmono rfl hle
        dsimp only at hok hsp hl
        subst hok hsp
        exact ⟨rfl, rfl, hl⟩
    | false => exact ⟨rfl, rfl, hle⟩
  | protect v flags =>
    rw [Space.perform, Space.perform]
    split
    · exact ⟨rfl, rfl, hle⟩
    · exact ⟨rfl, rfl, hle⟩

end Pages

-- ---------------------------------------------------------------------------
-- Two runs
-- ---------------------------------------------------------------------------

/-- The run alone has as many tables, the same one at `k`, and no fewer pages. -/
structure Alike (k : Nat) (a b : Spaces) : Prop where
  left : a.left ≤ b.left
  length : a.spaces.length = b.spaces.length
  space : a.spaces[k]? = b.spaces[k]?

section Alike

variable {k j : Nat} {a b : Spaces} {call : TableCall}

theorem Alike.create (h : Alike k a b) (hserved : Served .create (a.answer .create)) :
    Alike k (a.step .create) (b.step .create) := by
  obtain ⟨left, spaces⟩ := a
  obtain ⟨left', spaces'⟩ := b
  obtain ⟨hleft, hlen, hspace⟩ := h
  dsimp only at hleft hlen hspace
  cases left with
  | zero => exact absurd rfl hserved
  | succ left =>
    obtain ⟨left'', rfl⟩ : ∃ n, left' = n + 1 := ⟨left' - 1, by omega⟩
    refine ⟨Nat.le_of_succ_le_succ hleft, ?_, ?_⟩
    · change (spaces ++ [Space.empty]).length = (spaces' ++ [Space.empty]).length
      rw [List.length_append, List.length_append, hlen]
    · change (spaces ++ [Space.empty])[k]? = (spaces' ++ [Space.empty])[k]?
      rw [List.getElem?_append, List.getElem?_append, hlen, hspace]

/-- A call on another table. -/
theorem Alike.other (h : Alike k a b) (hne : j ≠ k) : Alike k (a.step (.on j call)) b := by
  unfold Spaces.step Spaces.serve
  dsimp only
  cases hsp : a.spaces[j]? with
  | none => exact h
  | some sp =>
    refine ⟨Nat.le_trans (perform_le sp a.left call) h.left, ?_, ?_⟩
    · exact (List.length_set ..).trans h.length
    · exact (List.getElem?_set_ne hne).trans h.space

/-- A call on the table itself. -/
theorem Alike.own (h : Alike k a b) (hserved : Served (.on k call) (a.answer (.on k call))) :
    a.answer (.on k call) = b.answer (.on k call) ∧
      Alike k (a.step (.on k call)) (b.step (.on k call)) := by
  unfold Spaces.answer Spaces.step Spaces.serve at *
  dsimp only at hserved ⊢
  rw [← h.space]
  cases hsp : a.spaces[k]? with
  | none => exact ⟨rfl, h⟩
  | some sp =>
    rw [hsp] at hserved
    obtain ⟨hresult, hspace, hleft⟩ := perform_mono hserved h.left
    have hka := (List.getElem?_eq_some_iff.mp hsp).1
    have hkb : k < b.spaces.length := h.length ▸ hka
    refine ⟨congrArg some hresult.symm, hleft, ?_, ?_⟩
    · dsimp only
      rw [List.length_set, List.length_set, h.length]
    · dsimp only
      rw [List.getElem?_set_self hka, List.getElem?_set_self hkb, hspace]

theorem Alike.run {ops : List TableOp} (h : Alike k a b)
    (hserved : Meets Spaces.step (fun a op => Served op (a.answer op)) a ops) :
    outputs Spaces.step (fun a op => heard k op (a.answer op)) a ops =
      outputs Spaces.step (fun a op => heard k op (a.answer op)) b (alone k ops) := by
  refine outputs_project (fun a b op h hop hp => ?_) (fun a b op h _ hp => ?_) h hserved
  · cases op with
    | create => exact ⟨rfl, h.create hop⟩
    | on j call =>
      obtain rfl : j = k := by simpa using hp
      obtain ⟨hanswer, hstep⟩ := h.own hop
      exact ⟨congrArg (heard j (.on j call)) hanswer, hstep⟩
  · cases op with
    | create => exact absurd hp (by simp)
    | on j call =>
      have hj : j ≠ k := by simpa using hp
      exact ⟨if_neg hj, h.other hj⟩

end Alike

theorem split_alone {ops : List TableOp} (k : Nat) (h : Split ops) : Split (alone k ops) :=
  fun j call hcall call' hcall' =>
    h j call (List.mem_of_mem_filter hcall) call' (List.mem_of_mem_filter hcall')

/-- **Page tables are isolated.** In a run in which no index of a table is both a
top-level and a last-level index, and in which no call fails for want of a page, the
calls on each table are answered as in the run without the calls on the others. -/
theorem page_tables_isolated (s : State) (ops : List TableOp) (k : Nat) (hs : HeapZero s)
    (hsplit : Split ops)
    (hserved : Meets Client.step (fun t op => Served op (t.answer op)) ⟨s, []⟩ ops) :
    outputs Client.step (fun t op => heard k op (t.answer op)) ⟨s, []⟩ ops =
      outputs Client.step (fun t op => heard k op (t.answer op)) ⟨s, []⟩ (alone k ops) := by
  obtain ⟨hout, hmeets, -⟩ := shows_run (heard k) Served (shows_start (Directory ops) hs)
    (obeys_of_split hsplit)
  obtain ⟨hout', -, -⟩ := shows_run (heard k) Served
    (shows_start (Directory (alone k ops)) hs) (obeys_of_split (split_alone k hsplit))
  have hstart : Alike k ⟨pagesLeft s, []⟩ ⟨pagesLeft s, []⟩ := ⟨Nat.le_refl _, rfl, rfl⟩
  rw [hout, hout', hstart.run (hmeets.mp hserved)]

/-- The second of two tables. -/
theorem page_tables_isolated_two :
    outputs Client.step (fun t op => heard 1 op (t.answer op))
        ⟨boot 0x200000#64 fun _ => 0#64, []⟩ twoTables =
      outputs Client.step (fun t op => heard 1 op (t.answer op))
        ⟨boot 0x200000#64 fun _ => 0#64, []⟩ (alone 1 twoTables) := by
  refine page_tables_isolated _ twoTables 1 heapZero_boot twoTables_split
    ⟨?_, ?_, ?_, trivial, trivial⟩
  · change _ ≠ _
    decide
  · change _ ≠ _
    decide
  · change _ ≠ _
    decide

end AegisKernel.Mm
