import Mathlib.Data.List.DropRight
import AegisKernel.Ramdisk.Reader
import AegisKernel.Shell.Definitions

/-!
# Shell — line editing

The code keeps no length: each key finds the end of the line again by its NUL,
and parsing a command writes NULs into the line itself.

* `replay` — the line as the keys since the last Enter make it, without the
  array.
* `command` — a builtin as a function of its words.
* `Holds` — the array is the line, a NUL and more bytes, 256 in all.
* `parseLoop_words` — the loop of `shell_parse_cmd` leaves each word as a string
  of its own in the array.
* `holds_iterate` — one iteration on an array that holds a line.

The result is `line_editing`.
-/

namespace AegisKernel.Shell

open Library

-- ---------------------------------------------------------------------------
-- The line and the commands, without the array
-- ---------------------------------------------------------------------------

/-- The character a message brings, if any. -/
def typed : Option Ipc.Message → Option UInt8
  | none => none
  | some msg => if msg.type = 4#64 then some (charOf msg.arg0) else none

/-- A key other than Enter. -/
def edit (line : Bytes) (c : UInt8) : Bytes :=
  if c = 8 ∨ c = 127 then line.dropLast
  else if 32 ≤ c.toNat ∧ c.toNat ≤ 126 ∧ line.length < 255 then line ++ [c]
  else line

/-- The characters typed since the last Enter, replayed. -/
def replay (cs : List UInt8) : Bytes := (cs.rtakeWhile fun c => !isEnter c).foldl edit []

/-- What a command writes, given its words. -/
def command : List Bytes → List Output
  | [] => []
  | name :: args =>
    if name = HELP then helpText
    else if name = ECHO then echoText args
    else if name = CLEAR then clearText
    else if name = REBOOT then rebootText
    else unknownText name

/-- The first 15 blank-separated words. -/
def lineWords (line : Bytes) : List Bytes := (fields isBlank line).take 15

theorem replay_enter {cs : List UInt8} {c : UInt8} (hc : isEnter c = true) :
    replay (cs ++ [c]) = [] := by
  unfold replay
  rw [List.rtakeWhile_concat_neg _ _ _ (by simp [hc])]
  rfl

theorem replay_edit {cs : List UInt8} {c : UInt8} (hc : isEnter c = false) :
    replay (cs ++ [c]) = edit (replay cs) c := by
  unfold replay
  rw [List.rtakeWhile_concat_pos _ _ _ (by simp [hc]), List.foldl_append]
  rfl

-- ---------------------------------------------------------------------------
-- Arrays that hold a line
-- ---------------------------------------------------------------------------

/-- The array is `line`, a NUL and more bytes. -/
structure Holds (buf line : Bytes) : Prop where
  length : buf.length = 256
  nul_free : 0 ∉ line
  layout : ∃ rest, buf = line ++ 0 :: rest

section Holds

variable {buf line : Bytes}

theorem Holds.strlen (h : Holds buf line) : strlen buf = some line.length := by
  obtain ⟨rest, rfl⟩ := h.layout
  have hscan : scan (· == 0) ([] ++ (line ++ 0 :: rest)) ([] : Bytes).length =
      some (([] : Bytes).length + line.length) :=
    scan_at (fun x hx => by simpa using fun h0 : x = 0 => h.nul_free (h0 ▸ hx)) rfl
  simpa [Shell.strlen] using hscan

theorem Holds.length_lt (h : Holds buf line) : line.length < 256 := by
  obtain ⟨rest, rfl⟩ := h.layout
  have hlen := h.length
  rw [List.length_append, List.length_cons] at hlen
  omega

theorem Holds.string (h : Holds buf line) : stringAt buf 0 = some line := by
  obtain ⟨rest, rfl⟩ := h.layout
  exact stringAt_iff.mpr ⟨[], rest, rfl, rfl, h.nul_free⟩

theorem holds_zero : Holds (List.replicate SHELL_MAX_CMD_LEN 0) [] :=
  ⟨List.length_replicate, by simp, ⟨List.replicate 255 0, rfl⟩⟩

end Holds

-- ---------------------------------------------------------------------------
-- Parsing in place
-- ---------------------------------------------------------------------------

section Parse

variable {pre ys w more : Bytes} {b : UInt8}

theorem isBlank_ne_zero (hb : isBlank b = true) : b ≠ 0 := by
  rintro rfl
  exact absurd hb (by decide)

/-- On blanks up to a NUL the loop ends. -/
theorem parseLoop_blanks (n : Nat) (hys : ∀ y ∈ ys, isBlank y = true) :
    parseLoop (pre ++ (ys ++ 0 :: more)) pre.length (n + 1) =
      some ([], pre ++ (ys ++ 0 :: more)) := by
  cases ys with
  | nil => simp [parseLoop]
  | cons y ys =>
    have hscan : scan (fun c => !isBlank c) (pre ++ ((y :: ys) ++ 0 :: more)) pre.length =
        some (pre.length + (y :: ys).length) := scan_at (by simpa using hys) rfl
    have hnul : (pre ++ ((y :: ys) ++ 0 :: more))[pre.length + (y :: ys).length]? = some 0 := by
      rw [← List.append_assoc, ← List.length_append]
      exact getElem?_at _ _ _
    rw [parseLoop, hscan]
    simp only [Option.bind_eq_bind, Option.bind_some, hnul]
    simp

/-- Blanks and a word: its pointer is stored, and the byte after it is overwritten
unless it is the NUL. -/
theorem parseLoop_word (n : Nat) (hys : ∀ y ∈ ys, isBlank y = true)
    (hw : ∀ x ∈ w, isBlank x = false) (hne : w ≠ []) (hw0 : 0 ∉ w)
    (hb : b = 0 ∨ isBlank b = true) :
    parseLoop (pre ++ (ys ++ (w ++ b :: more))) pre.length (n + 1) =
      (parseLoop ((pre ++ ys ++ w) ++ 0 :: more)
        (if b = 0 then (pre ++ ys ++ w).length else (pre ++ ys ++ w).length + 1) n).map
        fun r => ((pre ++ ys).length :: r.1, r.2) := by
  obtain ⟨x, xs, rfl⟩ := List.exists_cons_of_ne_nil hne
  have hx : isBlank x = false := hw x (List.mem_cons_self ..)
  have hx0 : x ≠ 0 := fun h => hw0 (h ▸ List.mem_cons_self ..)
  -- the first byte is no NUL, whether it is a blank or the word's
  have hfirst : ∃ c, c ≠ 0 ∧ (pre ++ (ys ++ (x :: xs ++ b :: more)))[pre.length]? = some c := by
    cases ys with
    | nil => exact ⟨x, hx0, getElem?_at _ _ _⟩
    | cons y ys => exact ⟨y, isBlank_ne_zero (hys y (List.mem_cons_self ..)), getElem?_at _ _ _⟩
  obtain ⟨c, hc0, hc⟩ := hfirst
  have hskip : scan (fun c => !isBlank c) (pre ++ (ys ++ (x :: xs ++ b :: more))) pre.length =
      some (pre ++ ys).length := by
    rw [List.length_append]
    exact scan_at (by simpa using hys) (by simp [hx])
  have hassoc : pre ++ (ys ++ (x :: xs ++ b :: more)) = (pre ++ ys) ++ (x :: xs ++ b :: more) := by
    rw [List.append_assoc]
  have hword : (pre ++ (ys ++ (x :: xs ++ b :: more)))[(pre ++ ys).length]? = some x := by
    rw [hassoc]
    exact getElem?_at _ _ _
  have hend : scan (fun c => c == 0 || isBlank c) (pre ++ (ys ++ (x :: xs ++ b :: more)))
      (pre ++ ys).length = some (pre ++ ys ++ x :: xs).length := by
    have hlen : (pre ++ ys ++ x :: xs).length = (pre ++ ys).length + (x :: xs).length :=
      List.length_append
    rw [hassoc, hlen]
    refine scan_at (fun z hz => ?_) (by simpa using hb)
    have hz0 : z ≠ 0 := fun h => hw0 (h ▸ hz)
    simp [hz0, hw z hz]
  have hassoc' : pre ++ (ys ++ (x :: xs ++ b :: more)) = (pre ++ ys ++ x :: xs) ++ b :: more := by
    simp only [List.append_assoc]
  have hstop : (pre ++ (ys ++ (x :: xs ++ b :: more)))[(pre ++ ys ++ x :: xs).length]? =
      some b := by
    rw [hassoc']
    exact getElem?_at _ _ _
  rw [parseLoop]
  simp only [hc, hskip, hword, hend, hstop, Option.bind_eq_bind, Option.bind_some, hc0, hx0,
    if_false]
  rcases hb with rfl | hb
  · rw [if_pos rfl, if_pos rfl, hassoc']
    cases parseLoop ((pre ++ ys ++ x :: xs) ++ 0 :: more) (pre ++ ys ++ x :: xs).length n with
    | none => rfl
    | some r => rfl
  · have hb0 := isBlank_ne_zero hb
    rw [if_neg hb0, if_neg hb0, hassoc', poke_at, Option.bind_some]
    cases parseLoop ((pre ++ ys ++ x :: xs) ++ 0 :: more) ((pre ++ ys ++ x :: xs).length + 1) n with
    | none => rfl
    | some r => rfl

end Parse

/-- From a pointer to the NUL-free `line` on, the loop of `shell_parse_cmd` stays
inside the line and its NUL, and its pointers are those of the first `n` words. -/
theorem parseLoop_words (n : Nat) (pre line rest : Bytes) (h0 : 0 ∉ line) :
    ∃ argv line', parseLoop (pre ++ (line ++ 0 :: rest)) pre.length n =
        some (argv, pre ++ (line' ++ 0 :: rest)) ∧ line'.length = line.length ∧
      argv.mapM (stringAt (pre ++ (line' ++ 0 :: rest))) =
        some ((fields isBlank line).take n) := by
  induction n generalizing pre line with
  | zero =>
    refine ⟨[], line, ?_, rfl, rfl⟩
    cases line with
    | nil => simp [parseLoop]
    | cons b line => simp [parseLoop]
  | succ n ih =>
    obtain ⟨ys, hys, rfl | ⟨w, hne, hw, rfl | ⟨b, line, hb, rfl⟩⟩⟩ := line_cases isBlank line
    · -- only blanks
      refine ⟨[], line, parseLoop_blanks n hys, rfl, ?_⟩
      have hnil := fields_append_of_sep [] hys
      rw [List.append_nil] at hnil
      rw [hnil, fields_nil]
      rfl
    · -- one last word
      have hw0 : 0 ∉ w := fun h => h0 (List.mem_append_right _ h)
      obtain ⟨argv, line', hloop, hlen, hstrings⟩ := ih (pre ++ ys ++ w) [] (by simp)
      obtain rfl := List.length_eq_zero_iff.mp hlen
      have hbuf : pre ++ ys ++ w ++ ([] ++ 0 :: rest) = pre ++ (ys ++ w ++ 0 :: rest) := by
        simp only [List.append_assoc, List.nil_append]
      refine ⟨(pre ++ ys).length :: argv, ys ++ w, ?_, rfl, ?_⟩
      · rw [List.append_assoc ys, parseLoop_word n hys hw hne hw0 (.inl rfl), if_pos rfl]
        rw [List.nil_append] at hloop
        rw [hloop]
        simp only [Option.map_some, List.append_assoc]
      · have hword : stringAt (pre ++ (ys ++ w ++ 0 :: rest)) (pre ++ ys).length = some w :=
          stringAt_iff.mpr ⟨pre ++ ys, rest, by simp only [List.append_assoc], rfl, hw0⟩
        rw [hbuf] at hstrings
        rw [fields_append_of_sep _ hys, fields_word hw hne, List.mapM_cons, hword, hstrings]
        simp
    · -- a word and what follows the blank behind it
      have hw0 : 0 ∉ w := fun h => h0 (by simp [h])
      have hline0 : 0 ∉ line := fun h => h0 (by simp [h])
      obtain ⟨argv, line', hloop, hlen, hstrings⟩ := ih (pre ++ ys ++ w ++ [0]) line hline0
      have hbuf : pre ++ ys ++ w ++ [0] ++ (line' ++ 0 :: rest) =
          pre ++ (ys ++ (w ++ 0 :: line') ++ 0 :: rest) := by
        simp only [List.append_assoc, List.cons_append, List.nil_append]
      refine ⟨(pre ++ ys).length :: argv, ys ++ (w ++ 0 :: line'), ?_, by simp [hlen], ?_⟩
      · have hassoc : ys ++ (w ++ b :: line) ++ 0 :: rest =
            ys ++ (w ++ b :: (line ++ 0 :: rest)) := by
          simp only [List.append_assoc, List.cons_append]
        have hstart : pre ++ ys ++ w ++ [0] ++ (line ++ 0 :: rest) =
            pre ++ ys ++ w ++ 0 :: (line ++ 0 :: rest) := by
          simp only [List.append_assoc, List.cons_append, List.nil_append]
        have hnext : (pre ++ ys ++ w ++ [0]).length = (pre ++ ys ++ w).length + 1 :=
          List.length_append
        rw [hassoc, parseLoop_word n hys hw hne hw0 (.inr hb), if_neg (isBlank_ne_zero hb),
          ← hstart, ← hnext, hloop, hbuf]
        rfl
      · have hword : stringAt (pre ++ (ys ++ (w ++ 0 :: line') ++ 0 :: rest)) (pre ++ ys).length =
            some w := by
          refine stringAt_iff.mpr ⟨pre ++ ys, line' ++ 0 :: rest, ?_, rfl, hw0⟩
          simp only [List.append_assoc, List.cons_append]
        rw [hbuf] at hstrings
        rw [fields_append_of_sep _ hys, fields_append_sep hw hne hb, List.mapM_cons, hword,
          hstrings]
        rfl

-- ---------------------------------------------------------------------------
-- Running a command
-- ---------------------------------------------------------------------------

section Exec

variable {buf : Bytes}

theorem isWord_eq {p : Nat} {f name : Bytes} (hf : stringAt buf p = some f) (hname : 0 ∉ name) :
    isWord buf p name = some (decide (f = name)) := by
  obtain ⟨pre, rest, rfl, rfl, hf0⟩ := stringAt_iff.mp hf
  obtain ⟨c, hc, hiff⟩ := Ramdisk.strcmp_stored pre f name rest hf0 hname
  unfold isWord
  rw [hc, Option.map_some]
  congr 1
  by_cases h : f = name
  · simp [h, hiff.mpr h]
  · have hne : c ≠ 0 := fun hc0 => h (hiff.mp hc0)
    simp [h, hne]

/-- `shell_exec_builtin` runs the command its arguments spell. -/
theorem shellExecBuiltin_eq {argv : List Nat} {words : List Bytes}
    (h : argv.mapM (stringAt buf) = some words) :
    shellExecBuiltin buf argv = some (command words) := by
  cases argv with
  | nil =>
    obtain rfl := Option.some.inj h
    rfl
  | cons p ps =>
    rw [List.mapM_cons, Option.bind_eq_bind, Option.bind_eq_some_iff] at h
    obtain ⟨name, hname, h⟩ := h
    rw [Option.bind_eq_bind, Option.bind_eq_some_iff] at h
    obtain ⟨args, hargs, h⟩ := h
    obtain rfl := Option.some.inj h
    have hhelp : 0 ∉ HELP := by decide
    have hecho : 0 ∉ ECHO := by decide
    have hclear : 0 ∉ CLEAR := by decide
    have hreboot : 0 ∉ REBOOT := by decide
    simp only [shellExecBuiltin, command, isWord_eq hname hhelp, isWord_eq hname hecho,
      isWord_eq hname hclear, isWord_eq hname hreboot, hname, hargs, Option.bind_eq_bind,
      Option.bind_some, decide_eq_true_eq]
    -- the comparisons in the order of the code
    by_cases h₁ : name = HELP
    · rw [if_pos h₁, if_pos h₁]
      rfl
    rw [if_neg h₁, if_neg h₁]
    by_cases h₂ : name = ECHO
    · rw [if_pos h₂, if_pos h₂]
      rfl
    rw [if_neg h₂, if_neg h₂]
    by_cases h₃ : name = CLEAR
    · rw [if_pos h₃, if_pos h₃]
      rfl
    rw [if_neg h₃, if_neg h₃]
    by_cases h₄ : name = REBOOT
    · rw [if_pos h₄, if_pos h₄]
      rfl
    · rw [if_neg h₄, if_neg h₄]
      rfl

end Exec

-- ---------------------------------------------------------------------------
-- The three branches
-- ---------------------------------------------------------------------------

section Branches

variable {s : State} {line : Bytes} {c : UInt8}

/-- `shell_parse_cmd` on a line. -/
theorem Holds.parse {buf : Bytes} (h : Holds buf line) :
    ∃ argv buf', shellParseCmd buf SHELL_MAX_ARGS = some (argv, buf') ∧ buf'.length = 256 ∧
      argv.mapM (stringAt buf') = some (lineWords line) := by
  obtain ⟨rest, rfl⟩ := h.layout
  obtain ⟨argv, line', hloop, hlen, hstrings⟩ := parseLoop_words 15 [] line rest h.nul_free
  refine ⟨argv, line' ++ 0 :: rest, hloop, ?_, hstrings⟩
  have hlength := h.length
  rw [List.length_append] at hlength ⊢
  rw [hlen, hlength]

/-- Enter runs the line and clears the array. -/
theorem Holds.enter (h : Holds s.cmdBuffer line) :
    enter s = some ⟨List.replicate 256 0,
      s.written ++ [.text "\n"] ++ command (lineWords line) ++ [.text SHELL_PROMPT]⟩ := by
  obtain ⟨rest, hbuf⟩ := h.layout
  -- the NUL is written where there is one
  have hpoke : poke s.cmdBuffer line.length 0 = some s.cmdBuffer := by
    rw [hbuf]
    exact poke_at _ _ _ _
  have hclear : ∀ buf : Bytes, buf.length = 256 →
      memsetZero buf SHELL_MAX_CMD_LEN = some (List.replicate 256 0) := by
    intro buf hlen
    unfold memsetZero SHELL_MAX_CMD_LEN
    rw [if_pos (Nat.le_of_eq hlen.symm), List.drop_eq_nil_of_le (Nat.le_of_eq hlen),
      List.append_nil]
  unfold Shell.enter
  simp only [State.write, h.strlen, hpoke, Option.bind_eq_bind, Option.bind_some]
  by_cases hempty : line = []
  · subst hempty
    rw [if_neg (by simp), Option.pure_def, Option.bind_some, hclear _ h.length]
    rfl
  · have hpos : line.length > 0 := List.length_pos_iff.mpr hempty
    obtain ⟨argv, buf', hparse, hlen, hstrings⟩ := h.parse
    rw [if_pos hpos, hparse, Option.bind_some, shellExecBuiltin_eq hstrings, Option.bind_some,
      Option.pure_def, Option.bind_some, hclear _ hlen]
    rfl

/-- Erasing drops the last character. -/
theorem Holds.erase (h : Holds s.cmdBuffer line) :
    ∃ s', erase s = some s' ∧ Holds s'.cmdBuffer line.dropLast := by
  obtain ⟨rest, hbuf⟩ := h.layout
  unfold Shell.erase
  simp only [h.strlen, Option.bind_eq_bind, Option.bind_some]
  rcases List.eq_nil_or_concat' line with rfl | ⟨line₀, last, rfl⟩
  · exact ⟨s, rfl, h⟩
  · have hpoke : poke s.cmdBuffer ((line₀ ++ [last]).length - 1) 0 =
        some (line₀ ++ 0 :: 0 :: rest) := by
      have hassoc : line₀ ++ [last] ++ 0 :: rest = line₀ ++ last :: 0 :: rest := by simp
      rw [hbuf, hassoc, List.length_append, List.length_singleton, Nat.add_sub_cancel]
      exact poke_at _ _ _ _
    rw [if_pos (by simp), hpoke]
    refine ⟨_, rfl, ?_, ?_, ?_⟩
    · have hlen := h.length
      rw [hbuf] at hlen
      simpa [State.write] using hlen
    · rw [List.dropLast_concat]
      exact fun h0 => h.nul_free (List.mem_append_left _ h0)
    · rw [List.dropLast_concat]
      exact ⟨0 :: rest, rfl⟩

/-- A printable character is appended as long as its NUL has a place. -/
theorem Holds.insert (h : Holds s.cmdBuffer line) (hc : c ≠ 0) :
    ∃ s', insert s c = some s' ∧
      Holds s'.cmdBuffer (if line.length < 255 then line ++ [c] else line) := by
  obtain ⟨rest, hbuf⟩ := h.layout
  have hlen := h.length
  unfold Shell.insert SHELL_MAX_CMD_LEN
  simp only [h.strlen, Option.bind_eq_bind, Option.bind_some]
  by_cases hroom : line.length < 255
  · -- there is a byte behind the NUL
    obtain ⟨b, rest, rfl⟩ : ∃ b rest', rest = b :: rest' := by
      rw [hbuf, List.length_append, List.length_cons] at hlen
      exact List.exists_cons_of_length_pos (by omega)
    have hpoke : poke s.cmdBuffer line.length c = some (line ++ c :: b :: rest) := by
      rw [hbuf]
      exact poke_at _ _ _ _
    have hnul : poke (line ++ c :: b :: rest) (line.length + 1) 0 =
        some (line ++ [c] ++ 0 :: rest) := by
      have hnext := poke_at (line ++ [c]) rest b 0
      rw [List.length_append, List.length_singleton, List.append_assoc] at hnext
      exact hnext
    rw [if_pos hroom, if_pos hroom, hpoke, Option.bind_some, hnul, Option.bind_some]
    refine ⟨_, rfl, ?_, ?_, ⟨rest, rfl⟩⟩
    · rw [hbuf] at hlen
      simpa [State.write] using hlen
    · simp only [List.mem_append, List.mem_singleton, not_or]
      exact ⟨h.nul_free, hc.symm⟩
  · rw [if_neg hroom, if_neg hroom]
    exact ⟨s, rfl, h⟩

end Branches

theorem isPrintable_iff (c : UInt8) : isPrintable c = true ↔ 32 ≤ c.toNat ∧ c.toNat ≤ 126 := by
  have hlt : c.toNat < 256 := c.toNat_lt
  have hint : c.toInt8.toInt = if 2 * c.toNat < 256 then (c.toNat : Int) else c.toNat - 256 := by
    show c.toBitVec.toInt = _
    rw [BitVec.toInt_eq_toNat_cond]
    rfl
  unfold isPrintable
  rw [hint, Bool.and_eq_true, decide_eq_true_eq, decide_eq_true_eq]
  split
  · omega
  · omega

-- ---------------------------------------------------------------------------
-- The run
-- ---------------------------------------------------------------------------

/-- One iteration keeps the array in step with the keys. -/
theorem holds_iterate {s : State} {cs : List UInt8} (h : Holds s.cmdBuffer (replay cs))
    (r : Option Ipc.Message) :
    ∃ s', iterate s r = some s' ∧ Holds s'.cmdBuffer (replay (cs ++ (typed r).toList)) := by
  rcases r with _ | msg
  · exact ⟨s, rfl, by simpa [typed] using h⟩
  by_cases htype : msg.type = 4#64
  · have htyped : typed (some msg) = some (charOf msg.arg0) := if_pos htype
    rw [htyped, iterate, if_pos htype]
    dsimp only
    generalize charOf msg.arg0 = c
    -- Enter, erasing, a printable character, and keys that do nothing
    by_cases henter : isEnter c = true
    · rw [if_pos henter]
      refine ⟨_, h.enter, ?_⟩
      rw [Option.toList_some, replay_enter henter]
      exact holds_zero
    · rw [if_neg henter, Option.toList_some, replay_edit (Bool.eq_false_iff.mpr henter)]
      have herase : isErase c = true ↔ c = 8 ∨ c = 127 := by simp [isErase]
      by_cases hdel : isErase c = true
      · rw [if_pos hdel, edit, if_pos (herase.mp hdel)]
        exact h.erase
      · rw [if_neg hdel, edit, if_neg fun h' => hdel (herase.mpr h')]
        by_cases hprint : isPrintable c = true
        · have hrange := (isPrintable_iff c).mp hprint
          have hc0 : c ≠ 0 := by
            rintro rfl
            exact absurd hrange.1 (by decide)
          obtain ⟨s', hs', hholds⟩ := h.insert hc0
          refine ⟨s', by rw [if_pos hprint]; exact hs', ?_⟩
          simpa only [hrange, true_and] using hholds
        · rw [if_neg hprint, if_neg fun h' => hprint ((isPrintable_iff c).mpr ⟨h'.1, h'.2.1⟩)]
          exact ⟨s, rfl, h⟩
  · have htyped : typed (some msg) = none := if_neg htype
    rw [htyped, iterate, if_neg htype]
    exact ⟨s, rfl, by simpa using h⟩

theorem holds_run {s : State} {cs : List UInt8} (h : Holds s.cmdBuffer (replay cs))
    (received : List (Option Ipc.Message)) :
    ∃ s', received.foldlM iterate s = some s' ∧
      Holds s'.cmdBuffer (replay (cs ++ received.filterMap typed)) := by
  induction received generalizing s cs with
  | nil => exact ⟨s, rfl, by simpa using h⟩
  | cons r received ih =>
    obtain ⟨s₁, hs₁, h₁⟩ := holds_iterate h r
    obtain ⟨s', hs', h'⟩ := ih h₁
    refine ⟨s', ?_, ?_⟩
    · rw [List.foldlM_cons, hs₁]
      exact hs'
    · have hcons : (r :: received).filterMap typed =
          (typed r).toList ++ received.filterMap typed := by
        rw [List.filterMap_cons]
        cases typed r with
        | none => rfl
        | some c => rfl
      rw [hcons, ← List.append_assoc]
      exact h'

/-- **Line editing.** Whatever `ipc_recv` gives, the shell never reads or writes
outside of its 256 bytes. The string in them is the replay of the characters
since the last Enter, with its NUL behind it; and Enter on a line that is not
empty runs the command that the line's first 15 words spell, and clears the
array. -/
theorem line_editing (ep : BitVec 64) (received : List (Option Ipc.Message)) :
    ∃ s, shellMain 0 ep received = some s ∧ s.cmdBuffer.length = 256 ∧
      (replay (received.filterMap typed)).length ≤ 255 ∧
      stringAt s.cmdBuffer 0 = some (replay (received.filterMap typed)) ∧
      s.cmdBuffer[(replay (received.filterMap typed)).length]? = some 0 ∧
      ∀ msg : Ipc.Message, msg.type = 4#64 → charOf msg.arg0 = 10 ∨ charOf msg.arg0 = 13 →
        replay (received.filterMap typed) ≠ [] →
        ∃ argv buf, shellParseCmd s.cmdBuffer SHELL_MAX_ARGS = some (argv, buf) ∧
          argv.mapM (stringAt buf) = some (lineWords (replay (received.filterMap typed))) ∧
          shellMain 0 ep (received ++ [some msg]) = some ⟨List.replicate 256 0,
            s.written ++ [.text "\n"] ++ command (lineWords (replay (received.filterMap typed))) ++
              [.text SHELL_PROMPT]⟩ := by
  have hstart : Holds (shellStart 0 ep).1.cmdBuffer (replay []) := holds_zero
  obtain ⟨s, hs, h⟩ := holds_run hstart received
  rw [List.nil_append] at h
  refine ⟨s, hs, h.length, Nat.le_of_lt_succ h.length_lt, h.string, ?_,
    fun msg htype hkey _ => ?_⟩
  · obtain ⟨rest, hbuf⟩ := h.layout
    rw [hbuf]
    exact getElem?_at _ _ _
  · obtain ⟨argv, buf, hparse, -, hstrings⟩ := h.parse
    have henter : isEnter (charOf msg.arg0) = true := by simpa [isEnter] using hkey
    -- one more iteration
    have hlast : iterate s (some msg) = enter s := by
      rw [iterate, if_pos htype]
      exact if_pos henter
    refine ⟨argv, buf, hparse, hstrings, ?_⟩
    show (received ++ [some msg]).foldlM iterate (shellStart 0 ep).1 = _
    have hrun : received.foldlM iterate (shellStart 0 ep).1 = some s := hs
    rw [List.foldlM_append, hrun]
    show [some msg].foldlM iterate s = _
    rw [List.foldlM_cons, hlast, h.enter]
    rfl

end AegisKernel.Shell
