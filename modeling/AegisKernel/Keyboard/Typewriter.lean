import AegisKernel.Keyboard.Buffer
import AegisKernel.Keyboard.Modifiers

/-!
# Keyboard — the typewriter behind the driver

What is typed depends on the scancodes only: on the latest events of the shift
keys, and on how often caps lock has been pressed. The driver keeps four flags and
a ring for it.

* `typedText` — the text of a sequence of scancodes, without the driver's state.
* `modifiers_run` — the four flags as functions of the scancodes.
* `keys_typed_iff` — the keys returned and those waiting are part of that text, and
  all of it exactly when no key came while 255 others were waiting.
-/

namespace AegisKernel.Keyboard

open Library

-- ---------------------------------------------------------------------------
-- The text
-- ---------------------------------------------------------------------------

/-- The latest event of these keys is a press. -/
def down (p : Byte → Bool) (codes : List Byte) : Bool :=
  (latest p codes).elim false fun sc => !released sc

def isCapsPress (sc : Byte) : Bool := keyOf sc == KEY_CAPSLOCK && !released sc

/-- Caps lock has been pressed an odd number of times. -/
def capsOn (codes : List Byte) : Bool := codes.countP isCapsPress % 2 == 1

/-- The character of the last of these scancodes, if it is a press of a key that has
one. -/
def letterOf (codes : List Byte) (sc : Byte) : Option Keycode :=
  if released sc then none
  else
    let c :=
      if down isShift codes ^^ capsOn codes then scancodeToAsciiShift.getD (keyOf sc) 0
      else scancodeToAscii.getD (keyOf sc) 0
    if c ≠ 0 then some c else none

def typedFrom (before : List Byte) : List Byte → List Keycode
  | [] => []
  | sc :: codes => (letterOf (before ++ [sc]) sc).toList ++ typedFrom (before ++ [sc]) codes

def typedText (codes : List Byte) : List Keycode := typedFrom [] codes

theorem typedFrom_concat (before codes : List Byte) (sc : Byte) :
    typedFrom before (codes ++ [sc]) =
      typedFrom before codes ++ (letterOf (before ++ codes ++ [sc]) sc).toList := by
  induction codes generalizing before with
  | nil => simp [typedFrom]
  | cons b codes ih => simp [typedFrom, ih]

theorem typedText_concat (codes : List Byte) (sc : Byte) :
    typedText (codes ++ [sc]) = typedText codes ++ (letterOf (codes ++ [sc]) sc).toList :=
  typedFrom_concat [] codes sc

-- ---------------------------------------------------------------------------
-- The four flags
-- ---------------------------------------------------------------------------

/-- The flags are what the scancodes make of them. -/
structure Modifiers (s : State) (codes : List Byte) : Prop where
  shift : s.shiftPressed = down isShift codes
  caps : s.capsLock = capsOn codes
  ctrl : s.ctrlPressed = down (fun sc => keyOf sc == KEY_LCTRL) codes
  alt : s.altPressed = down (fun sc => keyOf sc == KEY_LALT) codes

/-- The flags, not the buffer. -/
structure SameFlags (s s' : State) : Prop where
  shift : s'.shiftPressed = s.shiftPressed
  caps : s'.capsLock = s.capsLock
  ctrl : s'.ctrlPressed = s.ctrlPressed
  alt : s'.altPressed = s.altPressed

section Flags

variable {s s' : State} {codes : List Byte} {sc : Byte} {op : Op}

theorem SameFlags.modifiers (h : SameFlags s s') (hm : Modifiers s codes) : Modifiers s' codes :=
  ⟨h.shift.trans hm.shift, h.caps.trans hm.caps, h.ctrl.trans hm.ctrl, h.alt.trans hm.alt⟩

theorem sameFlags_storeKey (s : State) (c : Nat) : SameFlags s (storeKey s c) := by
  unfold storeKey
  dsimp only
  split
  · exact ⟨rfl, rfl, rfl, rfl⟩
  · exact ⟨rfl, rfl, rfl, rfl⟩

/-- An interrupt with a scancode tracks the modifiers, and may store a key. -/
theorem step_sameFlags (h : delivered op = some sc) :
    SameFlags (trackModifiers s (keyOf sc) (released sc)) (step s op) := by
  cases op with
  | keyboardHandler status scancode =>
    obtain ⟨hstatus, rfl⟩ : ¬ status &&& 1#8 = 0#8 ∧ scancode = sc := by
      simpa [delivered] using h
    rw [step, keyboardHandler, if_neg hstatus]
    dsimp only
    split
    · split
      · exact sameFlags_storeKey _ _
      · exact ⟨rfl, rfl, rfl, rfl⟩
    · exact ⟨rfl, rfl, rfl, rfl⟩
  | keyboardGetKey => exact absurd h (by simp [delivered])
  | keyboardHasKey => exact absurd h (by simp [delivered])

theorem step_sameFlags_none (h : delivered op = none) : SameFlags s (step s op) := by
  cases op with
  | keyboardHandler status scancode =>
    have hstatus : status &&& 1#8 = 0#8 := by simpa [delivered] using h
    rw [step, keyboardHandler, if_pos hstatus]
    exact ⟨rfl, rfl, rfl, rfl⟩
  | keyboardGetKey =>
    rw [step, keyboardGetKey]
    split
    · exact ⟨rfl, rfl, rfl, rfl⟩
    · exact ⟨rfl, rfl, rfl, rfl⟩
  | keyboardHasKey => exact ⟨rfl, rfl, rfl, rfl⟩

theorem down_concat (p : Byte → Bool) (codes : List Byte) (sc : Byte) :
    down p (codes ++ [sc]) = if p sc then !released sc else down p codes := by
  unfold down
  rw [latest_concat]
  split
  · rfl
  · rfl

theorem capsOn_concat (codes : List Byte) (sc : Byte) :
    capsOn (codes ++ [sc]) = if isCapsPress sc then !capsOn codes else capsOn codes := by
  unfold capsOn
  rw [List.countP_append, List.countP_singleton]
  split
  · rcases Nat.mod_two_eq_zero_or_one (codes.countP isCapsPress) with heven | hodd
    · simp [Nat.add_mod, heven]
    · simp [Nat.add_mod, hodd]
  · rw [Nat.add_zero]

/-- One more scancode. -/
theorem Modifiers.track (h : Modifiers s codes) (sc : Byte) :
    Modifiers (trackModifiers s (keyOf sc) (released sc)) (codes ++ [sc]) := by
  have hdown : ∀ key, key ≠ keyOf sc → down (fun sc => keyOf sc == key) (codes ++ [sc]) =
      down (fun sc => keyOf sc == key) codes := by
    intro key hkey
    rw [down_concat, if_neg (by simpa using Ne.symm hkey)]
  have hdown_self : ∀ key, key = keyOf sc →
      down (fun sc => keyOf sc == key) (codes ++ [sc]) = !released sc := by
    rintro key rfl
    rw [down_concat, if_pos (by simp)]
  -- one key is one flag
  unfold trackModifiers
  by_cases hshift : keyOf sc = KEY_LSHIFT ∨ keyOf sc = KEY_RSHIFT
  · have his : isShift sc = true := by simpa [isShift] using hshift
    rw [if_pos hshift]
    unfold KEY_LSHIFT KEY_RSHIFT at hshift
    have hcaps : isCapsPress sc = false := by
      have hkey : keyOf sc ≠ KEY_CAPSLOCK := by unfold KEY_CAPSLOCK; omega
      simp [isCapsPress, hkey]
    refine ⟨?_, ?_, ?_, ?_⟩
    · rw [down_concat, if_pos his]
    · rw [capsOn_concat, hcaps]
      exact h.caps
    · rw [hdown KEY_LCTRL (by unfold KEY_LCTRL; omega)]
      exact h.ctrl
    · rw [hdown KEY_LALT (by unfold KEY_LALT; omega)]
      exact h.alt
  have his : isShift sc = false := by simpa [isShift] using hshift
  have hkeep : s.shiftPressed = down isShift (codes ++ [sc]) := by
    rw [down_concat, his]
    exact h.shift
  rw [if_neg hshift]
  by_cases hcaps : keyOf sc = KEY_CAPSLOCK
  · have hctrl := hdown KEY_LCTRL (by rw [hcaps]; decide)
    have halt := hdown KEY_LALT (by rw [hcaps]; decide)
    rw [if_pos hcaps]
    cases hrel : released sc with
    | true =>
      have hpress : isCapsPress sc = false := by simp [isCapsPress, hrel]
      refine ⟨hkeep, ?_, h.ctrl.trans hctrl.symm, h.alt.trans halt.symm⟩
      rw [capsOn_concat, hpress]
      exact h.caps
    | false =>
      have hpress : isCapsPress sc = true := by simp [isCapsPress, hrel, hcaps]
      refine ⟨hkeep, ?_, h.ctrl.trans hctrl.symm, h.alt.trans halt.symm⟩
      rw [capsOn_concat, if_pos hpress, ← h.caps]
      rfl
  have hpress : isCapsPress sc = false := by simp [isCapsPress, hcaps]
  have hsame : s.capsLock = capsOn (codes ++ [sc]) := by
    rw [capsOn_concat, hpress]
    exact h.caps
  rw [if_neg hcaps]
  by_cases hctrl : keyOf sc = KEY_LCTRL
  · rw [if_pos hctrl]
    exact ⟨hkeep, hsame, (hdown_self _ hctrl.symm).symm,
      h.alt.trans (hdown KEY_LALT (by rw [hctrl]; decide)).symm⟩
  rw [if_neg hctrl]
  have hctrl' := h.ctrl.trans (hdown KEY_LCTRL (Ne.symm hctrl)).symm
  by_cases halt : keyOf sc = KEY_LALT
  · rw [if_pos halt]
    exact ⟨hkeep, hsame, hctrl', (hdown_self _ halt.symm).symm⟩
  · rw [if_neg halt]
    exact ⟨hkeep, hsame, hctrl', h.alt.trans (hdown KEY_LALT (Ne.symm halt)).symm⟩

theorem modifiers_run (ops : List Op) : Modifiers (run step boot ops) (scancodes ops) := by
  induction ops using List.reverseRecOn with
  | nil => exact ⟨rfl, rfl, rfl, rfl⟩
  | append_singleton ops op ih =>
    rw [run_append, run_cons, run_nil, scancodes_concat]
    cases h : delivered op with
    | none =>
      rw [Option.toList_none, List.append_nil]
      exact (step_sameFlags_none h).modifiers ih
    | some sc => exact (step_sameFlags h).modifiers (ih.track sc)

end Flags

-- ---------------------------------------------------------------------------
-- The keys
-- ---------------------------------------------------------------------------

/-- A key that would be stored finds fewer than 255 waiting. -/
def Room (s : State) : Op → Prop
  | .keyboardHandler status scancode =>
    translated s status scancode ≠ none → (keysWaiting s).length < 255
  | _ => True

theorem accepted_concat (s : State) (ops : List Op) (op : Op) :
    accepted s (ops ++ [op]) = accepted s ops ++ (stored (run step s ops) op).toList := by
  induction ops generalizing s with
  | nil => simp [accepted]
  | cons op' ops ih => simp [accepted, ih]

/-- The driver translates as the text does. -/
theorem translated_run (ops : List Op) {status scancode : Byte}
    (hstatus : ¬ status &&& 1#8 = 0#8) :
    translated (run step boot ops) status scancode =
      letterOf (scancodes ops ++ [scancode]) scancode := by
  unfold translated letterOf
  cases hrel : released scancode with
  | true => rw [if_pos (.inr rfl), if_pos rfl]
  | false =>
    have hm := (modifiers_run ops).track scancode
    have hpress : ¬ (status &&& 1#8 = 0#8 ∨ false = true) := by simp [hstatus]
    rw [hrel] at hm
    rw [if_neg hpress, if_neg Bool.false_ne_true, ← hm.shift, ← hm.caps]
    rfl

/-- Two parts of two lists make the whole only if each does. -/
theorem append_eq_iff_of_sublist {α : Type} {xs ys xs' ys' : List α} (hx : xs.Sublist xs')
    (hy : ys.Sublist ys') : xs ++ ys = xs' ++ ys' ↔ xs = xs' ∧ ys = ys' := by
  constructor
  · intro h
    have hlen := congrArg List.length h
    have hxlen := hx.length_le
    have hylen := hy.length_le
    rw [List.length_append, List.length_append] at hlen
    exact ⟨hx.eq_of_length (by omega), hy.eq_of_length (by omega)⟩
  · rintro ⟨rfl, rfl⟩
    rfl

/-- One operation stores what is typed, or nothing if there is no room. -/
theorem stored_run (ops : List Op) (op : Op) :
    (stored (run step boot ops) op).toList.Sublist
        ((delivered op).bind fun sc => letterOf (scancodes ops ++ [sc]) sc).toList ∧
      ((stored (run step boot ops) op).toList =
          ((delivered op).bind fun sc => letterOf (scancodes ops ++ [sc]) sc).toList ↔
        Room (run step boot ops) op) := by
  have hinv := (run_spec bufferInv_boot ops).1
  cases op with
  | keyboardHandler status scancode =>
    obtain ⟨-, hstored, -⟩ := handler_spec hinv status scancode
    have hletter : ((delivered (.keyboardHandler status scancode)).bind fun sc =>
        letterOf (scancodes ops ++ [sc]) sc) =
          translated (run step boot ops) status scancode := by
      by_cases hstatus : status &&& 1#8 = 0#8
      · simp [delivered, translated, hstatus]
      · simp [delivered, hstatus, translated_run ops hstatus]
    rw [hletter, hstored, Room]
    split
    · rename_i hroom
      exact ⟨List.Sublist.refl _, fun _ _ => hroom, fun _ => rfl⟩
    · rename_i hfull
      refine ⟨List.nil_sublist _, fun h hsome => absurd ?_ hsome, fun h => ?_⟩
      · exact Option.toList_eq_nil_iff.mp h.symm
      · rw [not_not.mp fun hsome => hfull (h hsome)]
  | keyboardGetKey =>
    have hstored : stored (run step boot ops) .keyboardGetKey = none := by
      unfold stored
      rw [step, keyboardGetKey]
      split
      · simp
      · simp
    rw [hstored]
    exact ⟨List.Sublist.refl _, fun _ => trivial, fun _ => rfl⟩
  | keyboardHasKey =>
    have hstored : stored (run step boot ops) .keyboardHasKey = none := if_neg (by simp [step])
    rw [hstored]
    exact ⟨List.Sublist.refl _, fun _ => trivial, fun _ => rfl⟩

theorem typedText_scancodes_concat (ops : List Op) (op : Op) :
    typedText (scancodes (ops ++ [op])) = typedText (scancodes ops) ++
      ((delivered op).bind fun sc => letterOf (scancodes ops ++ [sc]) sc).toList := by
  rw [scancodes_concat]
  cases delivered op with
  | none => simp
  | some sc => simp [typedText_concat]

theorem accepted_typed (ops : List Op) :
    (accepted boot ops).Sublist (typedText (scancodes ops)) ∧
      (accepted boot ops = typedText (scancodes ops) ↔ Meets step Room boot ops) := by
  induction ops using List.reverseRecOn with
  | nil => exact ⟨List.Sublist.refl _, fun _ => trivial, fun _ => rfl⟩
  | append_singleton ops op ih =>
    obtain ⟨hsub, hiff⟩ := ih
    obtain ⟨hsub', hiff'⟩ := stored_run ops op
    rw [accepted_concat, typedText_scancodes_concat, append_eq_iff_of_sublist hsub hsub',
      meets_append, hiff, hiff']
    refine ⟨hsub.append hsub', ?_⟩
    simp [Meets]

/-- **What is typed is what is read.** The keys returned and the keys waiting are, in
order, part of the text of the scancodes delivered; they are all of it exactly when
each key stored found fewer than 255 waiting. -/
theorem keys_typed_iff (ops : List Op) :
    let keys := returned boot ops ++ keysWaiting (run step boot ops)
    keys.Sublist (typedText (scancodes ops)) ∧
      (keys = typedText (scancodes ops) ↔ Meets step Room boot ops) := by
  intro keys
  have hkeys : accepted boot ops = keys := (run_spec bufferInv_boot ops).2
  rw [← hkeys]
  exact accepted_typed ops

end AegisKernel.Keyboard
