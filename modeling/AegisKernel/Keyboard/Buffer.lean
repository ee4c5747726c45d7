import AegisKernel.Library.Runs
import AegisKernel.Library.Ring
import AegisKernel.Library.Words
import AegisKernel.Keyboard.Definitions

/-!
# Keyboard — the key buffer is a bounded queue

`key_buffer` with its two indices is a ring of `KEYBOARD_BUFFER_SIZE` cells
(`Library.Ring`). Every interrupt and every call is an operation on the list of
waiting keys (`step_spec`), and along a run from boot the keys taken out are the
keys put in, in order, with those still waiting at the end: `keyboard_fifo`.

Which keys an interrupt puts in is read off the indices: the tail has moved.
-/

namespace AegisKernel.Keyboard

open Library

/-- The keys in the buffer, oldest first. -/
def keysWaiting (s : State) : List Keycode :=
  waiting KEYBOARD_BUFFER_SIZE s.keyBuffer s.bufferHead s.bufferTail

/-- The non-zero character of an interrupt, if it is a key press that has one. -/
def translated (s : State) (status scancode : Byte) : Option Keycode :=
  if status &&& 1#8 = 0#8 ∨ released scancode = true then none
  else
    let c := translate (trackModifiers s (keyOf scancode) false) (keyOf scancode)
    if c ≠ 0 then some c else none

/-- The key an operation puts into the buffer: the cell at the old tail, if the
tail has moved. -/
def stored (s : State) (op : Op) : Option Keycode :=
  if (step s op).bufferTail ≠ s.bufferTail then some ((step s op).keyBuffer s.bufferTail)
  else none

/-- The key an operation returns, `KEY_NONE` apart. -/
def taken (s : State) : Op → Option Keycode
  | .keyboardGetKey => if (keyboardGetKey s).1 ≠ KEY_NONE then some (keyboardGetKey s).1 else none
  | _ => none

/-- The keys put into the buffer along a run. -/
def accepted (s : State) : List Op → List Keycode
  | [] => []
  | op :: ops => (stored s op).toList ++ accepted (step s op) ops

/-- The keys taken out of the buffer along a run. -/
def returned (s : State) : List Op → List Keycode
  | [] => []
  | op :: ops => (taken s op).toList ++ returned (step s op) ops

/-- The buffer itself, not the modifiers. -/
structure SameBuffer (s s' : State) : Prop where
  keys : s'.keyBuffer = s.keyBuffer
  head : s'.bufferHead = s.bufferHead
  tail : s'.bufferTail = s.bufferTail

/-- Both indices are in range, and no waiting key reads as `KEY_NONE`. -/
structure BufferInv (s : State) : Prop where
  head_lt : s.bufferHead < KEYBOARD_BUFFER_SIZE
  tail_lt : s.bufferTail < KEYBOARD_BUFFER_SIZE
  keys : ∀ k ∈ keysWaiting s, k ≠ KEY_NONE

theorem bufferInv_boot : BufferInv boot := by
  refine ⟨by decide, by decide, fun k hk => ?_⟩
  have hnil : keysWaiting boot = [] := rfl
  rw [hnil] at hk
  simp at hk

theorem keyOf_lt (scancode : Byte) : keyOf scancode < 128 := by
  unfold keyOf
  rw [toNat_and_mask scancode 0x7F#8 7 rfl]
  exact Nat.mod_lt _ (by decide)

section OneStep

variable {s s' : State}

theorem SameBuffer.waiting_eq (h : SameBuffer s s') : keysWaiting s' = keysWaiting s := by
  unfold keysWaiting
  rw [h.keys, h.head, h.tail]

theorem SameBuffer.inv (h : SameBuffer s s') (hi : BufferInv s) : BufferInv s' := by
  refine ⟨h.head ▸ hi.head_lt, h.tail ▸ hi.tail_lt, ?_⟩
  rw [h.waiting_eq]
  exact hi.keys

theorem sameBuffer_trackModifiers (s : State) (code : Nat) (released : Bool) :
    SameBuffer s (trackModifiers s code released) := by
  unfold trackModifiers
  split_ifs <;> exact ⟨rfl, rfl, rfl⟩

/-- An interrupt touches the buffer only to store its character. -/
theorem handler_cases (s : State) (status scancode : Byte) :
    (translated s status scancode = none ∧
        SameBuffer s (keyboardHandler s status scancode).2) ∨
      ∃ c s₁, translated s status scancode = some c ∧ c ≠ 0 ∧ SameBuffer s s₁ ∧
        (keyboardHandler s status scancode).2 = storeKey s₁ c := by
  unfold translated keyboardHandler
  by_cases hstatus : status &&& 1#8 = 0#8
  · rw [if_pos (.inl hstatus), if_pos hstatus]
    exact .inl ⟨rfl, rfl, rfl, rfl⟩
  · rw [if_neg hstatus]
    have hmod := sameBuffer_trackModifiers s (keyOf scancode)
    cases hrel : released scancode with
    | true =>
      rw [if_pos (.inr rfl)]
      exact .inl ⟨rfl, hmod true⟩
    | false =>
      have hpress : ¬ (status &&& 1#8 = 0#8 ∨ false = true) := by simp [hstatus]
      rw [if_neg hpress]
      simp only [Bool.not_false, Bool.true_and, keyOf_lt, decide_true, if_true]
      -- a press without a character only tracks the modifiers
      by_cases hc : translate (trackModifiers s (keyOf scancode) false) (keyOf scancode) = 0
      · rw [if_neg (not_not_intro hc), if_neg (not_not_intro hc)]
        exact .inl ⟨rfl, hmod false⟩
      · rw [if_pos hc, if_pos hc]
        exact .inr ⟨_, _, rfl, hc, hmod false, rfl⟩

/-- Storing a key appends it, unless 255 keys wait already. -/
theorem storeKey_spec (hi : BufferInv s) {c : Nat} (hc : c ≠ 0) :
    BufferInv (storeKey s c) ∧
      if (keysWaiting s).length < 255 then
        keysWaiting (storeKey s c) = keysWaiting s ++ [c] ∧
          (storeKey s c).bufferTail ≠ s.bufferTail ∧
          (storeKey s c).keyBuffer s.bufferTail = c
      else storeKey s c = s := by
  have hfull : (s.bufferTail + 1) % KEYBOARD_BUFFER_SIZE = s.bufferHead ↔
      ¬ (keysWaiting s).length < 255 := next_tail_eq_head_iff s.keyBuffer hi.head_lt hi.tail_lt
  have htail := hi.tail_lt
  unfold storeKey
  dsimp only
  by_cases hroom : (s.bufferTail + 1) % KEYBOARD_BUFFER_SIZE = s.bufferHead
  · rw [if_neg (not_not_intro hroom), if_neg (hfull.mp hroom)]
    exact ⟨hi, rfl⟩
  · have hlt : (keysWaiting s).length < 255 := not_not.mp fun h => hroom (hfull.mpr h)
    have happend : keysWaiting { s with
        keyBuffer := Function.update s.keyBuffer s.bufferTail c
        bufferTail := (s.bufferTail + 1) % KEYBOARD_BUFFER_SIZE } = keysWaiting s ++ [c] :=
      waiting_write s.keyBuffer hi.head_lt hi.tail_lt hroom c
    rw [if_pos hroom, if_pos hlt]
    refine ⟨⟨hi.head_lt, Nat.mod_lt _ (by decide), fun k hk => ?_⟩, happend, ?_, ?_⟩
    · rw [happend, List.mem_append, List.mem_singleton] at hk
      rcases hk with hk | rfl
      · exact hi.keys k hk
      · exact hc
    · unfold KEYBOARD_BUFFER_SIZE at htail ⊢
      dsimp only
      omega
    · exact Function.update_self _ _ _

/-- An interrupt stores its character exactly when fewer than 255 keys wait,
and otherwise leaves the buffer alone. -/
theorem handler_spec (hi : BufferInv s) (status scancode : Byte) :
    let op := Op.keyboardHandler status scancode
    BufferInv (step s op) ∧
      stored s op = (if (keysWaiting s).length < 255 then translated s status scancode else none) ∧
      keysWaiting (step s op) = keysWaiting s ++ (stored s op).toList ∧
      (stored s op = none → SameBuffer s (step s op)) := by
  intro op
  rcases handler_cases s status scancode with ⟨hnone, hsame⟩ | ⟨c, s₁, hsome, hc, hsame, heq⟩
  · -- nothing to store
    have hstored : stored s op = none := if_neg (not_not_intro hsame.tail)
    rw [hstored, hnone, ite_self, Option.toList_none, List.append_nil]
    exact ⟨hsame.inv hi, rfl, hsame.waiting_eq, fun _ => hsame⟩
  · obtain ⟨hinv, hspec⟩ := storeKey_spec (hsame.inv hi) hc
    have hstep : step s op = storeKey s₁ c := heq
    rw [hsame.waiting_eq] at hspec
    unfold stored
    rw [hstep, hsome]
    split at hspec
    · rename_i hroom
      obtain ⟨happend, hmoved, hcell⟩ := hspec
      rw [hsame.tail] at hmoved hcell
      rw [if_pos hroom, if_pos hmoved, hcell]
      exact ⟨hinv, rfl, happend, fun h => by simp at h⟩
    · rename_i hfull
      rw [hspec, if_neg hfull, if_neg (not_not_intro hsame.tail), Option.toList_none,
        List.append_nil]
      exact ⟨hsame.inv hi, rfl, hsame.waiting_eq, fun _ => hsame⟩

theorem getKey_none_iff (hi : BufferInv s) :
    (keyboardGetKey s).1 = KEY_NONE ↔ keysWaiting s = [] := by
  have hnil := waiting_eq_nil_iff s.keyBuffer hi.head_lt hi.tail_lt
  unfold keyboardGetKey keysWaiting
  rw [hnil]
  split
  · rename_i hempty
    exact ⟨fun _ => hempty, fun _ => rfl⟩
  · rename_i hne
    have hread := waiting_read s.keyBuffer hi.head_lt hi.tail_lt hne
    have hkey := hi.keys (s.keyBuffer s.bufferHead) (by
      unfold keysWaiting
      rw [hread]
      exact List.mem_cons_self ..)
    exact ⟨fun h => absurd h hkey, fun h => absurd h hne⟩

/-- `keyboard_get_key` takes the oldest key. -/
theorem getKey_spec (hi : BufferInv s) :
    BufferInv (keyboardGetKey s).2 ∧
      keysWaiting s = (taken s .keyboardGetKey).toList ++ keysWaiting (keyboardGetKey s).2 := by
  have hnone := getKey_none_iff hi
  have hnil := waiting_eq_nil_iff s.keyBuffer hi.head_lt hi.tail_lt
  unfold taken
  by_cases hempty : s.bufferHead = s.bufferTail
  · have hwait : keysWaiting s = [] := hnil.mpr hempty
    have hsame : (keyboardGetKey s).2 = s := by simp [keyboardGetKey, hempty]
    rw [if_neg (not_not_intro (hnone.mpr hwait)), hsame]
    exact ⟨hi, rfl⟩
  · have hwait : keysWaiting s ≠ [] := fun h => hempty (hnil.mp h)
    have hread : keysWaiting s = s.keyBuffer s.bufferHead :: keysWaiting (keyboardGetKey s).2 := by
      rw [keyboardGetKey, if_neg hempty]
      exact waiting_read s.keyBuffer hi.head_lt hi.tail_lt hempty
    have hkey : (keyboardGetKey s).1 = s.keyBuffer s.bufferHead := by
      simp [keyboardGetKey, hempty]
    rw [if_pos fun h => hwait (hnone.mp h), hkey]
    refine ⟨⟨?_, ?_, fun k hk => hi.keys k ?_⟩, hread⟩
    · rw [keyboardGetKey, if_neg hempty]
      exact Nat.mod_lt _ (by decide)
    · rw [keyboardGetKey, if_neg hempty]
      exact hi.tail_lt
    · rw [hread]
      exact List.mem_cons_of_mem _ hk

theorem hasKey_iff (hi : BufferInv s) : keyboardHasKey s = true ↔ keysWaiting s ≠ [] := by
  have hnil := waiting_eq_nil_iff s.keyBuffer hi.head_lt hi.tail_lt
  unfold keyboardHasKey keysWaiting
  rw [ne_eq, hnil, bne_iff_ne]

/-- What one operation does to the waiting keys: what it stores comes in at the
end, what it returns goes out at the front. -/
theorem step_spec (hi : BufferInv s) (op : Op) :
    BufferInv (step s op) ∧
      keysWaiting s ++ (stored s op).toList = (taken s op).toList ++ keysWaiting (step s op) := by
  cases op with
  | keyboardHandler status scancode =>
    obtain ⟨hinv, -, happend, -⟩ := handler_spec hi status scancode
    exact ⟨hinv, happend.symm⟩
  | keyboardGetKey =>
    obtain ⟨hinv, htake⟩ := getKey_spec hi
    have htail : (keyboardGetKey s).2.bufferTail = s.bufferTail := by
      unfold keyboardGetKey
      split <;> rfl
    have hstored : stored s .keyboardGetKey = none := if_neg (not_not_intro htail)
    rw [hstored, Option.toList_none, List.append_nil]
    exact ⟨hinv, htake⟩
  | keyboardHasKey =>
    have hstored : stored s .keyboardHasKey = none := if_neg (not_not_intro rfl)
    rw [hstored, Option.toList_none, List.append_nil]
    exact ⟨hi, rfl⟩

end OneStep

/-- Along a run the keys put in behind those waiting are the keys taken out and
those left. -/
theorem run_spec {s : State} (hi : BufferInv s) (ops : List Op) :
    BufferInv (run step s ops) ∧
      keysWaiting s ++ accepted s ops = returned s ops ++ keysWaiting (run step s ops) := by
  induction ops generalizing s with
  | nil => exact ⟨hi, List.append_nil _⟩
  | cons op ops ih =>
    obtain ⟨hinv, hstep⟩ := step_spec hi op
    obtain ⟨hinv', hrest⟩ := ih hinv
    refine ⟨hinv', ?_⟩
    rw [accepted, returned, run_cons, ← List.append_assoc, hstep, List.append_assoc, hrest,
      List.append_assoc]

/-- **The key buffer is a bounded FIFO.** After any interrupts and calls from
boot: the indices are below 256; the keys accepted are the keys returned, in
order, followed by those waiting; the next interrupt's character is accepted
exactly when fewer than 255 keys wait, and otherwise the buffer is not touched;
`keyboard_get_key` returns `KEY_NONE`, and `keyboard_has_key` is false, exactly
when nothing waits. -/
theorem keyboard_fifo (ops : List Op) :
    let s := run step boot ops
    s.bufferHead < 256 ∧ s.bufferTail < 256 ∧
    accepted boot ops = returned boot ops ++ keysWaiting s ∧
    (∀ status scancode,
      stored s (.keyboardHandler status scancode) =
          (if (keysWaiting s).length < 255 then translated s status scancode else none) ∧
        (stored s (.keyboardHandler status scancode) = none →
          SameBuffer s (step s (.keyboardHandler status scancode)))) ∧
    ((keyboardGetKey s).1 = KEY_NONE ↔ keysWaiting s = []) ∧
    (keyboardHasKey s = true ↔ keysWaiting s ≠ []) := by
  intro s
  obtain ⟨hinv, hkeys⟩ := run_spec bufferInv_boot ops
  refine ⟨hinv.head_lt, hinv.tail_lt, hkeys, fun status scancode => ?_, getKey_none_iff hinv,
    hasKey_iff hinv⟩
  obtain ⟨-, hstored, -, hsame⟩ := handler_spec hinv status scancode
  exact ⟨hstored, hsame⟩

end AegisKernel.Keyboard
