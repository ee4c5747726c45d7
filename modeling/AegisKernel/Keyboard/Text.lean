import AegisKernel.Keyboard.Buffer

/-!
# Keyboard — shifted and plain characters

A key is looked up in one of two tables. The table is chosen by shift and caps lock
alone, whatever the key is; and the first row of the shifted table lacks the
backspace, so that its entries stand one place too early from there on.

* `TextAgrees` — what two histories deliver for the same key, when they differ in
  shift and caps lock.
* `KeepsText` — the key is delivered as it should be under these modifiers.
* `table_letters`, `table_controls`, `table_modifiers` — what the tables hold.
* `text_agrees_iff` — when two histories agree.
-/

namespace AegisKernel.Keyboard

open Library

/-- The plain character of a key, 0 if it has none. -/
def plainChar (code : Nat) : Nat := scancodeToAscii.getD code 0

/-- The character of a key in the shifted table. -/
def shiftedChar (code : Nat) : Nat := scancodeToAsciiShift.getD code 0

/-- A lower-case letter, as all letters of the plain table are. -/
def isLetter (c : Nat) : Bool := 97 ≤ c && c ≤ 122

def upperCase (c : Nat) : Nat := c - 32

/-- Backspace, tab or newline. -/
def isControl (c : Nat) : Bool := 8 ≤ c && c ≤ 10

def modifierKeys : List Nat := [KEY_LSHIFT, KEY_RSHIFT, KEY_CAPSLOCK, KEY_LCTRL, KEY_LALT]

/-- `shift_pressed ^ caps_lock` -/
def shifted (s : State) : Bool := s.shiftPressed ^^ s.capsLock

/-- The character of the key as the tables should have it. -/
def Delivers (e : State) (code : Nat) (d : Option Keycode) : Prop :=
  (isLetter (plainChar code) = true →
    d = some (if shifted e then upperCase (plainChar code) else plainChar code)) ∧
  (isControl (plainChar code) = true → e.shiftPressed = true → d = some (plainChar code)) ∧
  (code ∈ modifierKeys → d = none)

/-- Two histories that end in the same key press. The modifiers meant are those
after it. -/
def TextAgrees (ops₁ ops₂ : List Op) (status scancode : Byte) : Prop :=
  let press := Op.keyboardHandler status scancode
  let s₁ := run step boot ops₁
  let s₂ := run step boot ops₂
  Delivers (step s₁ press) (keyOf scancode) (stored s₁ press) ∧
    Delivers (step s₂ press) (keyOf scancode) (stored s₂ press) ∧
    (isLetter (plainChar (keyOf scancode)) = false →
      (step s₁ press).shiftPressed = (step s₂ press).shiftPressed →
      stored s₁ press = stored s₂ press)

/-- The state with the modifiers that a key press is translated under. -/
def pressed (s : State) (scancode : Byte) : State := trackModifiers s (keyOf scancode) false

/-- Under these modifiers the key is none that the shifted table gets wrong. -/
def KeepsText (e : State) (code : Nat) : Prop :=
  shifted e = true →
    isLetter (plainChar code) = false ∧
      (isControl (plainChar code) = true → e.shiftPressed = false) ∧
      (code ∈ modifierKeys → code = KEY_CAPSLOCK)

-- ---------------------------------------------------------------------------
-- The tables
-- ---------------------------------------------------------------------------

section Tables

variable {code : Nat}

theorem table_letters (hlt : code < 128) (h : isLetter (plainChar code) = true) :
    shiftedChar code ≠ upperCase (plainChar code) := by
  have hall : ∀ code < 128, isLetter (plainChar code) = true →
      shiftedChar code ≠ upperCase (plainChar code) := by decide +kernel
  exact hall code hlt h

theorem table_controls (hlt : code < 128) (h : isControl (plainChar code) = true) :
    shiftedChar code ≠ plainChar code := by
  have hall : ∀ code < 128, isControl (plainChar code) = true →
      shiftedChar code ≠ plainChar code := by decide +kernel
  exact hall code hlt h

theorem table_modifiers (h : code ∈ modifierKeys) :
    plainChar code = 0 ∧ (shiftedChar code = 0 ↔ code = KEY_CAPSLOCK) := by
  have hall : ∀ code ∈ modifierKeys,
      plainChar code = 0 ∧ (shiftedChar code = 0 ↔ code = KEY_CAPSLOCK) := by decide
  exact hall code h

end Tables

-- ---------------------------------------------------------------------------
-- One key press
-- ---------------------------------------------------------------------------

/-- A character, unless it is 0. -/
def character (c : Nat) : Option Keycode := if c ≠ 0 then some c else none

section Press

variable {s e e' : State} {status scancode : Byte} {code : Nat}

theorem character_injective : Function.Injective character := by
  intro a b h
  unfold character at h
  split_ifs at h with ha hb hb
  · exact Option.some.inj h
  · omega

theorem character_of_pos {c : Nat} (h : 0 < c) : character c = some c := if_pos (by omega)

theorem translate_eq (e : State) (code : Nat) :
    translate e code = if shifted e then shiftedChar code else plainChar code := rfl

theorem storeKey_modifiers (s : State) (c : Nat) :
    (storeKey s c).shiftPressed = s.shiftPressed ∧ (storeKey s c).capsLock = s.capsLock := by
  unfold storeKey
  dsimp only
  split_ifs <;> exact ⟨rfl, rfl⟩

/-- A press is translated under the modifiers it leaves. -/
theorem press_modifiers (s : State) (hstatus : status &&& 1#8 ≠ 0#8)
    (hpress : released scancode = false) :
    (step s (.keyboardHandler status scancode)).shiftPressed =
        (pressed s scancode).shiftPressed ∧
      (step s (.keyboardHandler status scancode)).capsLock = (pressed s scancode).capsLock := by
  unfold pressed
  rw [step, keyboardHandler, if_neg hstatus]
  dsimp only
  rw [hpress]
  split_ifs
  · exact storeKey_modifiers _ _
  · exact ⟨rfl, rfl⟩
  · exact ⟨rfl, rfl⟩

theorem delivers_press (hstatus : status &&& 1#8 ≠ 0#8) (hpress : released scancode = false)
    (d : Option Keycode) :
    Delivers (step s (.keyboardHandler status scancode)) code d ↔
      Delivers (pressed s scancode) code d := by
  obtain ⟨hshift, hcaps⟩ := press_modifiers s hstatus hpress
  unfold Delivers shifted
  rw [hshift, hcaps]

/-- What a press delivers when there is room. -/
theorem stored_press (hinv : BufferInv s) (hroom : (keysWaiting s).length < 255)
    (hstatus : status &&& 1#8 ≠ 0#8) (hpress : released scancode = false) :
    stored s (.keyboardHandler status scancode) =
      character (translate (pressed s scancode) (keyOf scancode)) := by
  obtain ⟨-, hstored, -⟩ := handler_spec hinv status scancode
  have hnone : ¬ (status &&& 1#8 = 0#8 ∨ released scancode = true) := by simp [hstatus, hpress]
  rw [hstored, if_pos hroom, translated, if_neg hnone]
  rfl

/-- One key press delivers its character exactly under the modifiers of `KeepsText`. -/
theorem delivers_iff (hlt : code < 128) :
    Delivers e code (character (translate e code)) ↔ KeepsText e code := by
  unfold Delivers KeepsText
  rw [translate_eq]
  cases hshift : shifted e with
  | false =>
    -- the plain table is right
    simp only [Bool.false_eq_true, if_false, false_imp_iff, iff_true]
    refine ⟨fun h => character_of_pos ?_, fun h _ => character_of_pos ?_, fun h => ?_⟩
    · have hrange : 97 ≤ plainChar code ∧ plainChar code ≤ 122 := by simpa [isLetter] using h
      omega
    · have hrange : 8 ≤ plainChar code ∧ plainChar code ≤ 10 := by simpa [isControl] using h
      omega
    · rw [(table_modifiers h).1]
      rfl
  | true =>
    simp only [if_true, true_imp_iff]
    refine and_congr ⟨fun h => ?_, fun h hletter => ?_⟩
      (and_congr ⟨fun h hcontrol => ?_, fun h hcontrol hheld => ?_⟩
        ⟨fun h hmod => ?_, fun h hmod => ?_⟩)
    · rw [Bool.eq_false_iff]
      intro hletter
      have hrange : 97 ≤ plainChar code ∧ plainChar code ≤ 122 := by
        simpa [isLetter] using hletter
      have hupper : character (upperCase (plainChar code)) = some (upperCase (plainChar code)) :=
        character_of_pos (by unfold upperCase; omega)
      rw [← hupper] at h
      exact table_letters hlt hletter (character_injective (h hletter))
    · exact absurd hletter (by simp [h])
    · rw [Bool.eq_false_iff]
      intro hheld
      have hrange : 8 ≤ plainChar code ∧ plainChar code ≤ 10 := by
        simpa [isControl] using hcontrol
      have hplain : character (plainChar code) = some (plainChar code) :=
        character_of_pos (by omega)
      rw [← hplain] at h
      exact table_controls hlt hcontrol (character_injective (h hcontrol hheld))
    · exact absurd hheld (by simp [h hcontrol])
    · refine (table_modifiers hmod).2.mp (character_injective ?_)
      rw [h hmod]
      rfl
    · rw [(table_modifiers hmod).2.mpr (h hmod)]
      rfl

/-- The same key is delivered alike under two states that differ in caps lock alone
exactly when the tables hold the same. -/
theorem character_translate_eq_iff (hheld : e.shiftPressed = e'.shiftPressed) :
    character (translate e code) = character (translate e' code) ↔
      e.capsLock = e'.capsLock ∨ shiftedChar code = plainChar code := by
  rw [character_injective.eq_iff, translate_eq, translate_eq, shifted, shifted, hheld]
  cases e'.shiftPressed with
  | true => cases e.capsLock <;> cases e'.capsLock <;> simp [eq_comm]
  | false => cases e.capsLock <;> cases e'.capsLock <;> simp [eq_comm]

end Press

/-- **Shifted and unshifted text agree** for two histories that end in the same key
press exactly when the shifted table is used, in either, for none of the keys it gets
wrong (`KeepsText`), and caps lock alone does not choose between different entries for
a key that is no letter. -/
theorem text_agrees_iff (ops₁ ops₂ : List Op) (status scancode : Byte)
    (hstatus : status &&& 1#8 ≠ 0#8) (hpress : released scancode = false)
    (hroom₁ : (keysWaiting (run step boot ops₁)).length < 255)
    (hroom₂ : (keysWaiting (run step boot ops₂)).length < 255) :
    let e₁ := pressed (run step boot ops₁) scancode
    let e₂ := pressed (run step boot ops₂) scancode
    TextAgrees ops₁ ops₂ status scancode ↔
      KeepsText e₁ (keyOf scancode) ∧ KeepsText e₂ (keyOf scancode) ∧
        (isLetter (plainChar (keyOf scancode)) = false → e₁.shiftPressed = e₂.shiftPressed →
          e₁.capsLock = e₂.capsLock ∨
            shiftedChar (keyOf scancode) = plainChar (keyOf scancode)) := by
  intro e₁ e₂
  have hinv₁ := (run_spec bufferInv_boot ops₁).1
  have hinv₂ := (run_spec bufferInv_boot ops₂).1
  unfold TextAgrees
  dsimp only
  rw [stored_press hinv₁ hroom₁ hstatus hpress, stored_press hinv₂ hroom₂ hstatus hpress,
    delivers_press hstatus hpress, delivers_press hstatus hpress,
    delivers_iff (keyOf_lt scancode), delivers_iff (keyOf_lt scancode),
    (press_modifiers _ hstatus hpress).1, (press_modifiers _ hstatus hpress).1]
  refine and_congr_right fun _ => and_congr_right fun _ => forall_congr' fun _ =>
    forall_congr' fun hheld => ?_
  exact character_translate_eq_iff hheld

/-- Two runs without shift: the digit 2, typed with caps lock off both times. -/
theorem text_agrees_digit :
    TextAgrees [] [.keyboardHandler 1#8 0x3A#8, .keyboardHandler 1#8 0x3A#8] 1#8 0x03#8 :=
  (text_agrees_iff [] [.keyboardHandler 1#8 0x3A#8, .keyboardHandler 1#8 0x3A#8] 1#8 0x03#8
    (by decide) (by decide) (by decide) (by decide)).mpr
    ⟨fun h => absurd h (by decide), fun h => absurd h (by decide), fun _ _ => .inl (by decide)⟩

/-- Caps lock turns the letter q into a capital w. -/
theorem caps_lock_shifts_letter :
    ¬ TextAgrees [] [.keyboardHandler 1#8 0x3A#8] 1#8 0x10#8 := by
  intro h
  exact absurd (h.2.1.1 (by decide)) (by decide)

end AegisKernel.Keyboard
