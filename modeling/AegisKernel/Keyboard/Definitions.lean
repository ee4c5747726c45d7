import Mathlib.Logic.Function.Basic

/-!
# Keyboard — executable model of `kernel/src/keyboard.c`

The static variables are one record `State`. `keyboard_handler` takes the two
bytes it reads from the ports, status and scancode, and returns its port writes
with the new state; the data port is only read when the status says so.

Keys are the values of `keycode_t`; the handler stores the character itself,
cast to that type. Both translation tables hold ASCII codes, shorter than their
128 entries in the source: the rest is zero. The indices are natural numbers:
both are reduced modulo `KEYBOARD_BUFFER_SIZE` before they are stored.
-/

namespace AegisKernel.Keyboard

abbrev Byte := BitVec 8

/-- `keycode_t` -/
abbrev Keycode := Nat

def KEYBOARD_BUFFER_SIZE : Nat := 256

def KEY_NONE : Keycode := 0
def KEY_LCTRL : Nat := 29
def KEY_LSHIFT : Nat := 42
def KEY_RSHIFT : Nat := 54
def KEY_LALT : Nat := 56
def KEY_CAPSLOCK : Nat := 58

/-- The static variables of `keyboard.c`. -/
structure State where
  keyBuffer : Nat → Keycode
  bufferHead : Nat
  bufferTail : Nat
  shiftPressed : Bool
  capsLock : Bool
  ctrlPressed : Bool
  altPressed : Bool

/-- The zero-initialised static data of the boot image. -/
def boot : State := ⟨fun _ => 0, 0, 0, false, false, false, false⟩

/-! ## Translation -/

def chars (cs : List Char) : List Nat := cs.map Char.toNat

/-- `scancode_to_ascii`; 8, 9, 10, 39, 92 and 96 are backspace, tab, newline,
apostrophe, backslash and backquote. -/
def scancodeToAscii : List Nat :=
  [0, 0] ++ chars ['1', '2', '3', '4', '5', '6', '7', '8', '9', '0', '-', '='] ++ [8] ++
  [9] ++ chars ['q', 'w', 'e', 'r', 't', 'y', 'u', 'i', 'o', 'p', '[', ']'] ++ [10] ++
  [0] ++ chars ['a', 's', 'd', 'f', 'g', 'h', 'j', 'k', 'l', ';'] ++ [39, 96] ++
  [0, 92] ++ chars ['z', 'x', 'c', 'v', 'b', 'n', 'm', ',', '.', '/'] ++
  [0] ++ chars ['*'] ++ [0] ++ chars [' '] ++ List.replicate 12 0 ++
  List.replicate 7 0 ++ chars ['7', '8', '9', '-', '4', '5', '6', '+'] ++
  chars ['1', '2', '3', '0', '.'] ++ List.replicate 11 0 ++
  List.replicate 16 0

/-- `scancode_to_ascii_shift`, whose first row has no backspace; 34, 123, 124,
125 and 126 are the double quote, the opening brace, the bar, the closing brace
and the tilde. -/
def scancodeToAsciiShift : List Nat :=
  [0, 0] ++ chars ['!', '@', '#', '$', '%', '^', '&', '*', '(', ')', '_', '+'] ++
  [9] ++ chars ['Q', 'W', 'E', 'R', 'T', 'Y', 'U', 'I', 'O', 'P'] ++ [123, 125] ++ [10] ++
  [0] ++ chars ['A', 'S', 'D', 'F', 'G', 'H', 'J', 'K', 'L', ':'] ++ [34, 126] ++
  [0, 124] ++ chars ['Z', 'X', 'C', 'V', 'B', 'N', 'M', '<', '>', '?'] ++
  [0] ++ chars ['*'] ++ [0] ++ chars [' '] ++ List.replicate 12 0 ++
  List.replicate 7 0 ++ chars ['7', '8', '9', '-', '4', '5', '6', '+'] ++
  chars ['1', '2', '3', '0', '.'] ++ List.replicate 11 0 ++
  List.replicate 16 0

/-- `shift_pressed ^ caps_lock ? scancode_to_ascii_shift[code] : scancode_to_ascii[code]` -/
def translate (s : State) (code : Nat) : Nat :=
  if s.shiftPressed ^^ s.capsLock then scancodeToAsciiShift.getD code 0
  else scancodeToAscii.getD code 0

/-! ## The functions of `keyboard.c` -/

/-- `bool released = scancode & 0x80;` -/
def released (scancode : Byte) : Bool := scancode &&& 0x80#8 != 0#8

/-- `uint8_t code = scancode & 0x7F;` -/
def keyOf (scancode : Byte) : Nat := (scancode &&& 0x7F#8).toNat

/-- The `switch` of `keyboard_handler`. -/
def trackModifiers (s : State) (code : Nat) (released : Bool) : State :=
  if code = KEY_LSHIFT ∨ code = KEY_RSHIFT then { s with shiftPressed := !released }
  else if code = KEY_CAPSLOCK then
    if !released then { s with capsLock := !s.capsLock } else s
  else if code = KEY_LCTRL then { s with ctrlPressed := !released }
  else if code = KEY_LALT then { s with altPressed := !released }
  else s

/-- Append a key, unless that would make the buffer look empty. -/
def storeKey (s : State) (c : Nat) : State :=
  let next := (s.bufferTail + 1) % KEYBOARD_BUFFER_SIZE
  if next ≠ s.bufferHead then
    { s with keyBuffer := Function.update s.keyBuffer s.bufferTail c, bufferTail := next }
  else s

/-- `keyboard_handler`: the ports it writes with their values, and the new
state. -/
def keyboardHandler (s : State) (status scancode : Byte) : List (Nat × Nat) × State :=
  if status &&& 1#8 = 0#8 then ([], s)
  else
    let code := keyOf scancode
    -- the modifiers are updated first: a shift key is translated shifted
    let s₁ := trackModifiers s code (released scancode)
    let s₂ :=
      if !released scancode && code < 128 then
        let c := translate s₁ code
        if c ≠ 0 then storeKey s₁ c else s₁
      else s₁
    ([(0x20, 0x20)], s₂)

/-- `keyboard_has_key` -/
def keyboardHasKey (s : State) : Bool := s.bufferHead != s.bufferTail

/-- `keyboard_get_key` -/
def keyboardGetKey (s : State) : Keycode × State :=
  if s.bufferHead = s.bufferTail then (KEY_NONE, s)
  else
    (s.keyBuffer s.bufferHead,
      { s with bufferHead := (s.bufferHead + 1) % KEYBOARD_BUFFER_SIZE })

/-! ## The driver as a state machine -/

/-- An interrupt with the bytes it finds at the ports, or a call. -/
inductive Op
  | keyboardHandler (status scancode : Byte)
  | keyboardGetKey
  | keyboardHasKey
deriving DecidableEq

def step (s : State) : Op → State
  | .keyboardHandler status scancode => (keyboardHandler s status scancode).2
  | .keyboardGetKey => (keyboardGetKey s).2
  | .keyboardHasKey => s

end AegisKernel.Keyboard
