import Mathlib.Data.List.Forall2
import AegisKernel.Vfs.Table
import AegisKernel.Vfs.Messages

/-!
# VFS server — the main loop and its replies

`_start` zeroes a message, calls `ipc_recv`, ignores what it returns, and runs
the handler of the message's type. The kernel's `ipc_recv` does not wait: with
nothing pending it returns -2 and leaves the message zero, and the loop then
serves request type 0, from endpoint 0.

* `handle_isSome_iff` — a handler replies unless its `memcpy` leaves an array.
* `replies_one_to_one_iff` — replies match the messages delivered exactly when
  every `ipc_recv` delivered one and no copy went out of bounds.
-/

namespace AegisKernel.Vfs

open Library

/-- The message as the handlers read it. -/
def AegisMsg.toMsg (m : AegisMsg) : Msg := ⟨m.type, m.arg0, m.arg1, fun i => m.data.getD i 0⟩

/-- How a call of `ipc_recv` ended. -/
inductive RecvOutcome
  | delivered (m : AegisMsg)
  | failed (code : Int)

/-- `msg` after the call; a failed one has not written to it. -/
def RecvOutcome.msg : RecvOutcome → AegisMsg
  | .delivered m => m
  | .failed _ => .zero

/-- The outcome, from what the kernel's `ipc_recv` returned and stored. -/
def RecvOutcome.ofRecv (code : Int) : Option Ipc.Message → RecvOutcome
  | some k => .delivered (received k)
  | none => .failed code

/-- The arguments of a call of `ipc_reply`. -/
structure Sent where
  dest : Word
  reply : Reply

/-- One iteration of the loop in `_start`: every branch of the `switch` ends in
`ipc_reply(msg.sender, &reply)`. -/
def iteration (t : Table) (o : RecvOutcome) : Option (Sent × Table) :=
  -- the return value of `ipc_recv` is not looked at
  (handle t o.msg.toMsg).map fun (r, t') => (⟨o.msg.sender, r⟩, t')

/-- The replies sent, iteration by iteration; after a memory fault there are
none. -/
def mainLoop (t : Table) : List RecvOutcome → List (Option Sent)
  | [] => []
  | o :: os =>
    match iteration t o with
    | some (s, t') => some s :: mainLoop t' os
    | none => none :: os.map fun _ => none

/-- A delivered message gets one reply, to its sender; a failed call gets none. -/
def Answered : RecvOutcome → Option Sent → Prop
  | .delivered m, some s => s.dest = m.sender
  | .failed _, none => True
  | _, _ => False

-- ---------------------------------------------------------------------------
-- Copies in bounds
-- ---------------------------------------------------------------------------

/-- Whether a WRITE stays inside the message and the file. -/
def WriteOk (m : Msg) : Prop :=
  m.arg0.toNat ≤ 4096 ∧ min m.arg1.toNat (4096 - m.arg0.toNat) ≤ 512 ∧
    (m.arg0.toNat + m.arg1.toNat < 2 ^ 64 ∨ 4096 < m.arg0.toNat + m.arg1.toNat - 2 ^ 64)

/-- A READ or WRITE of a file that exists copies within its arrays. -/
def CopyOk (t : Table) (m : Msg) : Prop :=
  ∀ i, fileFind t m.path = some i →
    (m.type = VFS_READ → ReadOk (t i) m) ∧ (m.type = VFS_WRITE → WriteOk m)

section Copies

variable {t : Table} {m : Msg} {i : Nat}

theorem handleRead_isSome_iff (hfind : fileFind t m.path = some i)
    (hf : (t i).size.toNat ≤ 4096) : (handleRead t m).isSome ↔ ReadOk (t i) m := by
  by_cases hok : ReadOk (t i) m
  · obtain ⟨r, hr, -⟩ := handleRead_some hfind hf hok
    simp [hr, hok]
  · simp [handleRead_fault hfind hf hok, hok]

/-- A WRITE clips its range as a READ of a full file does. -/
theorem handleWrite_isSome_iff (hfind : fileFind t m.path = some i) :
    (handleWrite t m).isSome ↔ WriteOk m := by
  have hcopy := (read_copy { t i with size := MAX_FILE_SIZE } (Nat.le_refl 4096) m).1
  unfold handleWrite
  rw [hfind]
  dsimp only
  rw [Option.isSome_ite]
  exact hcopy

/-- A handler replies unless it has to copy out of bounds. -/
theorem handle_isSome_iff (h : Fields t) : (handle t m).isSome ↔ CopyOk t m := by
  unfold CopyOk
  by_cases hr : m.type = VFS_READ
  · have hw : m.type ≠ VFS_WRITE := by
      rw [hr]
      decide
    rw [handle_read hr]
    rcases hfind : fileFind t m.path with _ | i
    · simp [handleRead_none hfind]
    · have hlt : i < MAX_FILES := (fileFind_some m.path_nul_free hfind).1
      rw [handleRead_isSome_iff hfind (h.size_le i hlt)]
      simp only [Option.some.injEq, forall_eq']
      exact ⟨fun hok => ⟨fun _ => hok, fun hw' => absurd hw' hw⟩, fun hok => hok.1 hr⟩
  by_cases hw : m.type = VFS_WRITE
  · rw [handle_write hw]
    rcases hfind : fileFind t m.path with _ | i
    · simp [handleWrite_none hfind]
    · rw [handleWrite_isSome_iff hfind]
      simp only [Option.some.injEq, forall_eq']
      exact ⟨fun hok => ⟨fun hr' => absurd hr' hr, fun _ => hok⟩, fun hok => hok.2 hw⟩
  -- the other requests copy nothing that could go out of bounds
  unfold handle
  rw [if_neg hr, if_neg hw]
  simp only [hr, hw, false_implies, and_self, implies_true, iff_true]
  split_ifs <;> rfl

end Copies

-- ---------------------------------------------------------------------------
-- The loop
-- ---------------------------------------------------------------------------

/-- The table after an iteration. -/
def serve (t : Table) (o : RecvOutcome) : Table := step t o.msg.toMsg

/-- `ipc_recv` delivered a message, and its handler copies in bounds. -/
def Serviceable (t : Table) (o : RecvOutcome) : Prop :=
  ∃ m, o = .delivered m ∧ CopyOk t m.toMsg

section Loop

variable {t : Table} {o : RecvOutcome} {os : List RecvOutcome}

/-- A failed `ipc_recv` is served all the same, as request type 0. -/
theorem iteration_failed (t : Table) (code : Int) :
    iteration t (.failed code) = some (⟨0#64, failure⟩, t) := rfl

/-- An iteration that faults had a message with a copy out of bounds. -/
theorem iteration_eq_none_iff (h : Fields t) :
    iteration t o = none ↔ ∃ m, o = .delivered m ∧ ¬ CopyOk t m.toMsg := by
  cases o with
  | failed code => simp [iteration_failed]
  | delivered m =>
    have hiff := handle_isSome_iff (m := m.toMsg) h
    simp only [iteration, RecvOutcome.msg, Option.map_eq_none_iff, RecvOutcome.delivered.injEq,
      exists_eq_left', ← hiff, Option.isSome_iff_ne_none, ne_eq, not_not]

/-- A reply goes to the sender of the message there is, the zero message
included. -/
theorem iteration_some {s : Sent} {t' : Table} (h : iteration t o = some (s, t')) :
    s.dest = o.msg.sender ∧ t' = serve t o := by
  unfold iteration at h
  obtain ⟨⟨r, t''⟩, hhandle, heq⟩ := Option.map_eq_some_iff.mp h
  cases heq
  exact ⟨rfl, (step_of_handle hhandle).symm⟩

theorem replies_iff (h : Fields t) :
    List.Forall₂ Answered os (mainLoop t os) ↔ Meets serve Serviceable t os := by
  induction os generalizing t with
  | nil => simp [mainLoop, Meets]
  | cons o os ih =>
    rcases hit : iteration t o with _ | ⟨s, t'⟩
    · -- a fault: the message delivered stays without a reply
      obtain ⟨m, rfl, hbad⟩ := (iteration_eq_none_iff h).mp hit
      have hno : ¬ Serviceable t (.delivered m) := by
        rintro ⟨m', heq, hok⟩
        cases heq
        exact hbad hok
      simp only [mainLoop, hit, List.forall₂_cons, Meets, hno, false_and, iff_false]
      rintro ⟨hans, -⟩
      exact hans
    · obtain ⟨hdest, rfl⟩ := iteration_some hit
      have hanswer : Answered o (some s) ↔ Serviceable t o := by
        cases o with
        | failed code => simp [Answered, Serviceable]
        | delivered m =>
          have hok : CopyOk t m.toMsg := by
            by_contra hbad
            rw [(iteration_eq_none_iff h).mpr ⟨m, rfl, hbad⟩] at hit
            cases hit
          constructor
          · exact fun _ => ⟨m, rfl, hok⟩
          · exact fun _ => hdest
      have hfields : Fields (serve t o) := h.step _
      simp only [mainLoop, hit, List.forall₂_cons, Meets]
      rw [hanswer, ih hfields]

end Loop

/-- **One reply a message.** The replies of the main loop match the messages
delivered to it one to one, in order and by sender, exactly when every
`ipc_recv` delivered a message whose handler copies in bounds. -/
theorem replies_one_to_one_iff (os : List RecvOutcome) :
    List.Forall₂ Answered os (mainLoop vfsInitRamfs os) ↔
      Meets serve Serviceable vfsInitRamfs os :=
  replies_iff fields_vfsInitRamfs

/-- An empty poll is answered: the kernel returns -2, and the loop sends a reply
to endpoint 0. -/
theorem empty_poll_answered :
    let recv := Ipc.ipcRecv idleEndpoints 1#64 true
    let o := RecvOutcome.ofRecv recv.1 recv.2.1
    o = .failed (-2) ∧ mainLoop vfsInitRamfs [o] = [some ⟨0#64, failure⟩] ∧
      ¬ List.Forall₂ Answered [o] (mainLoop vfsInitRamfs [o]) := by
  intro recv o
  have ho : o = .failed (-2) := rfl
  have hloop : mainLoop vfsInitRamfs [.failed (-2)] = [some ⟨0#64, failure⟩] := by
    unfold mainLoop
    rw [iteration_failed]
    rfl
  rw [ho, hloop]
  refine ⟨rfl, rfl, fun h => ?_⟩
  obtain ⟨hans, -⟩ := List.forall₂_cons.mp h
  exact hans

end AegisKernel.Vfs
