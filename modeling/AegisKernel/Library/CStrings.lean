import AegisKernel.Library.Bytes

/-!
# Strings in an array of characters

An array is the list of its bytes, a pointer into it an index. What leaves the
array has no result.

* `poke buf p c` — the store `buf[p] = c`.
* `scan stop buf p` — the loop that moves `p` on to the first byte with `stop`.
* `stringAt buf p` — the bytes from `p` up to the first NUL; `stringAt_iff` says
  where such a string lies.
* `fields sep line` — the non-empty parts of `line` between separators, as a loop
  finds them: skip separators (`fields_cons_sep`), then take a word up to a
  separator (`fields_append_sep`) or to the end (`fields_word`).
-/

namespace AegisKernel.Library

def poke (buf : Bytes) (p : Nat) (c : UInt8) : Option Bytes :=
  if p < buf.length then some (buf.set p c) else none

def scan (stop : UInt8 → Bool) (buf : Bytes) (p : Nat) : Option Nat :=
  ((buf.drop p).findIdx? stop).map (p + ·)

def stringAt (buf : Bytes) (p : Nat) : Option Bytes :=
  (scan (· == 0) buf p).map fun q => (buf.drop p).take (q - p)

def fields {α : Type*} (sep : α → Bool) (line : List α) : List (List α) :=
  (line.splitOnP sep).filter fun w => !w.isEmpty

/-! ## Arrays -/

section Arrays

variable {stop : UInt8 → Bool} {pre xs rest : Bytes} {b c : UInt8}

@[simp] theorem getElem?_at (pre rest : Bytes) (b : UInt8) :
    (pre ++ b :: rest)[pre.length]? = some b := by
  rw [List.getElem?_append_right (Nat.le_refl _), Nat.sub_self, List.getElem?_cons_zero]

theorem poke_at (pre rest : Bytes) (b c : UInt8) :
    poke (pre ++ b :: rest) pre.length c = some (pre ++ c :: rest) := by
  unfold poke
  rw [if_pos (by simp), List.set_append_right _ _ (Nat.le_refl _), Nat.sub_self, List.set_cons_zero]

theorem scan_at (hxs : ∀ x ∈ xs, stop x = false) (hb : stop b = true) :
    scan stop (pre ++ (xs ++ b :: rest)) pre.length = some (pre.length + xs.length) := by
  have hnone : xs.findIdx? stop = none := List.findIdx?_eq_none_iff.mpr hxs
  unfold scan
  rw [List.drop_left, List.findIdx?_append, hnone, List.findIdx?_cons, if_pos hb]
  simp

theorem stringAt_at (hxs : 0 ∉ xs) :
    stringAt (pre ++ (xs ++ 0 :: rest)) pre.length = some xs := by
  have hscan : scan (· == 0) (pre ++ (xs ++ 0 :: rest)) pre.length =
      some (pre.length + xs.length) :=
    scan_at (fun x hx => by simpa using fun h : x = 0 => hxs (h ▸ hx)) rfl
  unfold stringAt
  rw [hscan, Option.map_some, Nat.add_sub_cancel_left, List.drop_left, List.take_left]

/-- Where the string at `p` lies. -/
theorem stringAt_iff {buf : Bytes} {p : Nat} :
    stringAt buf p = some xs ↔
      ∃ pre rest, buf = pre ++ (xs ++ 0 :: rest) ∧ pre.length = p ∧ 0 ∉ xs := by
  constructor
  · intro h
    unfold stringAt scan at h
    rw [Option.map_map, Option.map_eq_some_iff] at h
    obtain ⟨n, hn, htake⟩ := h
    rw [Function.comp_apply, Nat.add_sub_cancel_left] at htake
    -- the first NUL is `n` behind `p`
    obtain ⟨hlt, hzero, hbefore⟩ := List.findIdx?_eq_some_iff_getElem.mp hn
    have hp : p ≤ buf.length := by
      rw [List.length_drop] at hlt
      omega
    refine ⟨buf.take p, (buf.drop p).drop (n + 1), ?_, by simp [hp], ?_⟩
    · have hn0 : (buf.drop p)[n] = 0 := by simpa using hzero
      rw [← htake, ← hn0, ← List.drop_eq_getElem_cons hlt, List.take_append_drop,
        List.take_append_drop]
    · rw [← htake]
      intro hmem
      obtain ⟨i, hi, hget⟩ := List.getElem_of_mem hmem
      rw [List.getElem_take] at hget
      have hin : i < n := by
        rw [List.length_take] at hi
        omega
      exact hbefore i hin (by simp [hget])
  · rintro ⟨pre, rest, rfl, rfl, hxs⟩
    exact stringAt_at hxs

end Arrays

/-! ## Fields -/

section Fields

variable {α : Type*} {sep : α → Bool} {line w : List α} {b : α}

@[simp] theorem fields_nil : fields sep [] = [] := by simp [fields]

theorem fields_cons_sep (hb : sep b = true) : fields sep (b :: line) = fields sep line := by
  unfold fields
  rw [← List.nil_append (b :: line),
    List.splitOnP_append_cons_of_forall_mem (by simp) b hb]
  simp

theorem fields_append_sep (hw : ∀ x ∈ w, sep x = false) (hne : w ≠ []) (hb : sep b = true) :
    fields sep (w ++ b :: line) = w :: fields sep line := by
  unfold fields
  rw [List.splitOnP_append_cons_of_forall_mem hw b hb, List.filter_cons_of_pos (by simpa using hne)]

theorem fields_word (hw : ∀ x ∈ w, sep x = false) (hne : w ≠ []) : fields sep w = [w] := by
  unfold fields
  rw [List.splitOnP_eq_singleton hw, List.filter_cons_of_pos (by simpa using hne), List.filter_nil]

theorem fields_append_of_sep (line : List α) {ys : List α} (hys : ∀ y ∈ ys, sep y = true) :
    fields sep (ys ++ line) = fields sep line := by
  induction ys with
  | nil => rfl
  | cons y ys ih =>
    rw [List.cons_append, fields_cons_sep (hys y (List.mem_cons_self ..))]
    exact ih fun z hz => hys z (List.mem_cons_of_mem _ hz)

/-- A line is separators and nothing else, separators and one word, or
separators, a word, a separator and a rest. -/
theorem line_cases (sep : α → Bool) (line : List α) :
    ∃ ys, (∀ y ∈ ys, sep y = true) ∧
      (line = ys ∨ ∃ w, w ≠ [] ∧ (∀ x ∈ w, sep x = false) ∧
        (line = ys ++ w ∨ ∃ b rest, sep b = true ∧ line = ys ++ (w ++ b :: rest))) := by
  refine ⟨line.takeWhile sep, fun y hy => List.mem_takeWhile_imp hy, ?_⟩
  rcases hrest : line.dropWhile sep with _ | ⟨x, xs⟩
  · refine .inl ?_
    have hsplit := List.takeWhile_append_dropWhile (p := sep) (l := line)
    rw [hrest, List.append_nil] at hsplit
    exact hsplit.symm
  · have hsplit := List.takeWhile_append_dropWhile (p := sep) (l := line)
    have hx : sep x = false := by
      have hhead := List.head?_dropWhile_not sep line
      rw [hrest] at hhead
      simpa using hhead
    refine .inr ⟨(x :: xs).takeWhile (!sep ·), by simp [hx],
      fun y hy => by simpa using List.mem_takeWhile_imp hy, ?_⟩
    -- what is left begins with a word
    have hsplit' := List.takeWhile_append_dropWhile (p := (!sep ·)) (l := x :: xs)
    rcases hmore : (x :: xs).dropWhile (!sep ·) with _ | ⟨b, rest⟩
    · refine .inl ?_
      rw [hmore, List.append_nil] at hsplit'
      rw [hsplit', ← hrest, hsplit]
    · refine .inr ⟨b, rest, ?_, ?_⟩
      · have hhead := List.head?_dropWhile_not (!sep ·) (x :: xs)
        rw [hmore] at hhead
        simpa using hhead
      · rw [← hmore, hsplit', ← hrest, hsplit]

end Fields

end AegisKernel.Library
