import AegisKernel.Library.Latest
import AegisKernel.Keyboard.Buffer

/-!
# Keyboard — the shift keys

There are two shift keys and one `shift_pressed`, which takes on what the last event
of either key was.

* `scancodes ops` — the scancodes a run delivers; `Held key codes` — the latest of
  them for `key` is a press.
* `LetsGo codes sc` — `sc` lets a shift key go while the other one is held.
* `shiftPressed_run` — the flag is the latest event of the two keys.
* `shift_tracks_iff` — the flag says whether a shift key is held, unless the latest
  such event let one go beside the other.
-/

namespace AegisKernel.Keyboard

open Library

/-- The scancode an operation reads from the data port. -/
def delivered : Op → Option Byte
  | .keyboardHandler status scancode => if status &&& 1#8 = 0#8 then none else some scancode
  | _ => none

def scancodes (ops : List Op) : List Byte := ops.filterMap delivered

def isShift (sc : Byte) : Bool := keyOf sc == KEY_LSHIFT || keyOf sc == KEY_RSHIFT

/-- The latest event of the key is a press. -/
def Held (key : Nat) (codes : List Byte) : Prop :=
  ∃ sc, latest (fun sc => keyOf sc == key) codes = some sc ∧ released sc = false

/-- The other one of the two shift keys. -/
def otherShift (sc : Byte) : Nat := if keyOf sc = KEY_LSHIFT then KEY_RSHIFT else KEY_LSHIFT

/-- A shift key is let go while the other one is held. -/
def LetsGo (codes : List Byte) (sc : Byte) : Prop :=
  isShift sc = true ∧ released sc = true ∧ Held (otherShift sc) codes

/-- `shift_pressed` says whether a shift key is held. -/
def ShiftTracks (ops : List Op) : Prop :=
  (run step boot ops).shiftPressed = true ↔
    Held KEY_LSHIFT (scancodes ops) ∨ Held KEY_RSHIFT (scancodes ops)

-- ---------------------------------------------------------------------------
-- The flag
-- ---------------------------------------------------------------------------

section Flag

variable {s : State} {op : Op} {sc : Byte}

theorem trackModifiers_shiftPressed (s : State) (code : Nat) (rel : Bool) :
    (trackModifiers s code rel).shiftPressed =
      if code = KEY_LSHIFT ∨ code = KEY_RSHIFT then !rel else s.shiftPressed := by
  unfold trackModifiers
  split_ifs <;> rfl

theorem storeKey_shiftPressed (s : State) (c : Nat) :
    (storeKey s c).shiftPressed = s.shiftPressed := by
  unfold storeKey
  dsimp only
  split_ifs <;> rfl

theorem step_shiftPressed_none (h : delivered op = none) :
    (step s op).shiftPressed = s.shiftPressed := by
  cases op with
  | keyboardHandler status scancode =>
    have hstatus : status &&& 1#8 = 0#8 := by simpa [delivered] using h
    rw [step, keyboardHandler, if_pos hstatus]
  | keyboardGetKey =>
    rw [step, keyboardGetKey]
    split_ifs <;> rfl
  | keyboardHasKey => rfl

theorem step_shiftPressed_some (h : delivered op = some sc) :
    (step s op).shiftPressed = if isShift sc then !released sc else s.shiftPressed := by
  cases op with
  | keyboardHandler status scancode =>
    obtain ⟨hstatus, rfl⟩ : ¬ status &&& 1#8 = 0#8 ∧ scancode = sc := by
      simpa [delivered] using h
    have hiff : isShift scancode = true ↔
        keyOf scancode = KEY_LSHIFT ∨ keyOf scancode = KEY_RSHIFT := by simp [isShift]
    rw [step, keyboardHandler, if_neg hstatus]
    dsimp only
    split_ifs <;> simp_all [storeKey_shiftPressed, trackModifiers_shiftPressed]
  | keyboardGetKey => exact absurd h (by simp [delivered])
  | keyboardHasKey => exact absurd h (by simp [delivered])

theorem scancodes_concat (ops : List Op) (op : Op) :
    scancodes (ops ++ [op]) = scancodes ops ++ (delivered op).toList := by
  unfold scancodes
  rw [List.filterMap_append]
  cases h : delivered op with
  | none => simp [h]
  | some sc => simp [h]

/-- The flag is the latest event of either key. -/
theorem shiftPressed_run (ops : List Op) :
    (run step boot ops).shiftPressed =
      (latest isShift (scancodes ops)).elim false fun sc => !released sc := by
  induction ops using List.reverseRecOn with
  | nil => rfl
  | append_singleton ops op ih =>
    rw [run_append, run_cons, run_nil, scancodes_concat]
    cases h : delivered op with
    | none =>
      rw [step_shiftPressed_none h, ih, Option.toList_none, List.append_nil]
    | some sc =>
      rw [step_shiftPressed_some h, ih, Option.toList_some, latest_concat]
      split_ifs <;> rfl

end Flag

-- ---------------------------------------------------------------------------
-- The keys
-- ---------------------------------------------------------------------------

section Keys

variable {codes before after : List Byte} {sc : Byte} {key : Nat}

theorem isShift_of_key (h : key = KEY_LSHIFT ∨ key = KEY_RSHIFT) (hsc : (keyOf sc == key) = true) :
    isShift sc = true := by
  have hkey : keyOf sc = key := by simpa using hsc
  unfold isShift
  rcases h with rfl | rfl
  · simp [hkey]
  · simp [hkey]

/-- Events of other keys do not matter to a shift key. -/
theorem held_append_iff (h : key = KEY_LSHIFT ∨ key = KEY_RSHIFT)
    (hafter : ∀ sc ∈ after, isShift sc = false) :
    Held key (before ++ after) ↔ Held key before := by
  have hkey : ∀ sc ∈ after, (keyOf sc == key) = false := by
    intro sc hsc
    rw [Bool.eq_false_iff]
    intro heq
    have hshift := isShift_of_key h heq
    rw [hafter sc hsc] at hshift
    exact absurd hshift Bool.false_ne_true
  unfold Held
  rw [latest_append hkey]

theorem held_concat_self (codes : List Byte) (sc : Byte) :
    Held (keyOf sc) (codes ++ [sc]) ↔ released sc = false := by
  unfold Held
  rw [latest_concat, if_pos (beq_self_eq_true _)]
  simp

theorem held_concat_of_ne (h : keyOf sc ≠ key) : Held key (codes ++ [sc]) ↔ Held key codes := by
  unfold Held
  rw [latest_concat, if_neg (by simpa using h)]

theorem otherShift_cases (sc : Byte) : otherShift sc = KEY_LSHIFT ∨ otherShift sc = KEY_RSHIFT := by
  unfold otherShift
  split_ifs
  · exact .inr rfl
  · exact .inl rfl

theorem keyOf_ne_otherShift (sc : Byte) : keyOf sc ≠ otherShift sc := by
  unfold otherShift
  split_ifs with hleft
  · rw [hleft]
    decide
  · exact hleft

/-- Right after its own event, a shift key or the other one is held. -/
theorem held_concat_iff (h : isShift sc = true) :
    Held KEY_LSHIFT (codes ++ [sc]) ∨ Held KEY_RSHIFT (codes ++ [sc]) ↔
      released sc = false ∨ Held (otherShift sc) codes := by
  have hother : Held (otherShift sc) (codes ++ [sc]) ↔ Held (otherShift sc) codes :=
    held_concat_of_ne (keyOf_ne_otherShift sc)
  rw [← hother, ← held_concat_self codes]
  by_cases hleft : keyOf sc = KEY_LSHIFT
  · rw [otherShift, if_pos hleft, hleft]
  · have hright : keyOf sc = KEY_RSHIFT := by
      rcases Bool.or_eq_true .. ▸ h with h | h
      · exact absurd (by simpa using h) hleft
      · simpa using h
    rw [otherShift, if_neg hleft, hright, or_comm]

/-- The latest shift event let its key go while the other one was held. -/
theorem letsGo_last_iff :
    (∃ before sc after, codes = before ++ sc :: after ∧ LetsGo before sc ∧
        ∀ y ∈ after, isShift y = false) ↔
      ∃ sc, latest isShift codes = some sc ∧ released sc = true ∧ Held (otherShift sc) codes := by
  constructor
  · rintro ⟨before, sc, after, rfl, ⟨hshift, hrel, hheld⟩, hafter⟩
    refine ⟨sc, latest_eq_some_iff.mpr ⟨hshift, before, after, rfl, hafter⟩, hrel, ?_⟩
    have hcons : before ++ sc :: after = before ++ [sc] ++ after := by simp
    rw [hcons, held_append_iff (otherShift_cases sc) hafter,
      held_concat_of_ne (keyOf_ne_otherShift sc)]
    exact hheld
  · rintro ⟨sc, hlatest, hrel, hheld⟩
    obtain ⟨hshift, before, after, rfl, hafter⟩ := latest_eq_some_iff.mp hlatest
    refine ⟨before, sc, after, rfl, ⟨hshift, hrel, ?_⟩, hafter⟩
    have hcons : before ++ sc :: after = before ++ [sc] ++ after := by simp
    rw [hcons, held_append_iff (otherShift_cases sc) hafter,
      held_concat_of_ne (keyOf_ne_otherShift sc)] at hheld
    exact hheld

/-- Some shift key is held: the latest shift event is a press, or it let its key go
beside the other one. -/
theorem held_shift_iff :
    Held KEY_LSHIFT codes ∨ Held KEY_RSHIFT codes ↔
      ∃ sc, latest isShift codes = some sc ∧
        (released sc = false ∨ Held (otherShift sc) codes) := by
  cases hlatest : latest isShift codes with
  | none =>
    have hnone := latest_eq_none_iff.mp hlatest
    have hfree : ∀ key, key = KEY_LSHIFT ∨ key = KEY_RSHIFT → ¬ Held key codes := by
      intro key hkey hheld
      rw [← List.nil_append codes, held_append_iff hkey hnone] at hheld
      obtain ⟨sc, hsc, -⟩ := hheld
      simp [latest] at hsc
    simp [hfree KEY_LSHIFT (.inl rfl), hfree KEY_RSHIFT (.inr rfl)]
  | some sc =>
    obtain ⟨hshift, before, after, rfl, hafter⟩ := latest_eq_some_iff.mp hlatest
    have hcons : before ++ sc :: after = before ++ [sc] ++ after := by simp
    have hsome : ∀ P : Byte → Prop, (∃ x, some sc = some x ∧ P x) ↔ P sc := by simp
    rw [hsome, hcons, held_append_iff (.inl rfl) hafter, held_append_iff (.inr rfl) hafter,
      held_append_iff (otherShift_cases sc) hafter, held_concat_of_ne (keyOf_ne_otherShift sc)]
    exact held_concat_iff hshift

end Keys

-- ---------------------------------------------------------------------------
-- The flag and the keys
-- ---------------------------------------------------------------------------

theorem shiftTracks_iff (ops : List Op) :
    ShiftTracks ops ↔ ¬ ∃ before sc after, scancodes ops = before ++ sc :: after ∧
      LetsGo before sc ∧ ∀ y ∈ after, isShift y = false := by
  unfold ShiftTracks
  rw [shiftPressed_run, letsGo_last_iff, held_shift_iff]
  cases latest isShift (scancodes ops) with
  | none => simp
  | some sc =>
    cases hrel : released sc with
    | true => simp [hrel]
    | false => simp [hrel]

/-- **Shift tracks the keys**, after a run, exactly when the latest event of a shift
key did not let it go beside the other one; and all along a run exactly when no event
does. -/
theorem shift_tracks_iff (ops : List Op) :
    (ShiftTracks ops ↔ ¬ ∃ before sc after, scancodes ops = before ++ sc :: after ∧
        LetsGo before sc ∧ ∀ y ∈ after, isShift y = false) ∧
      ((∀ ops', ops' <+: ops → ShiftTracks ops') ↔
        ∀ before sc after, scancodes ops = before ++ sc :: after → ¬ LetsGo before sc) := by
  refine ⟨shiftTracks_iff ops, fun h before sc after hsplit hlets => ?_, fun h ops' hpre => ?_⟩
  · -- the run up to that event
    have hcons : scancodes ops = before ++ [sc] ++ after := by simp [hsplit]
    obtain ⟨ops₁, ops₂, rfl, hcodes, -⟩ := List.filterMap_eq_append_iff.mp hcons
    refine (shiftTracks_iff ops₁).mp (h ops₁ (List.prefix_append ops₁ ops₂)) ?_
    exact ⟨before, sc, [], hcodes, hlets, by simp⟩
  · rw [shiftTracks_iff]
    rintro ⟨before, sc, after, hsplit, hlets, -⟩
    obtain ⟨rest, rfl⟩ := hpre
    refine h before sc (after ++ scancodes rest) ?_ hlets
    have hcodes : scancodes (ops' ++ rest) = scancodes ops' ++ scancodes rest :=
      List.filterMap_append
    rw [hcodes, hsplit, List.append_assoc, List.cons_append]

/-- Both shift keys are pressed and the left one is let go. -/
theorem shift_lost :
    ¬ ShiftTracks [.keyboardHandler 1#8 0x2A#8, .keyboardHandler 1#8 0x36#8,
      .keyboardHandler 1#8 0xAA#8] := by
  intro h
  have hheld : Held KEY_RSHIFT [0x2A#8, 0x36#8, 0xAA#8] := ⟨0x36#8, by decide, by decide⟩
  exact absurd (h.mpr (.inr hheld)) (by decide)

end AegisKernel.Keyboard
