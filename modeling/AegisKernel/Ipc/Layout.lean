import Mathlib.Data.List.GetD
import AegisKernel.Library.Bytes
import AegisKernel.Ipc.Definitions

/-!
# IPC — messages in memory, and how long one stays pending

The kernel's `aegis_msg_t` is packed: five words and 48 bytes, 88 bytes in all.
`ipc_send` copies that many bytes from the sender's memory, and `ipc_recv` as
many into the receiver's (`toBytes_ofBytes`): what lies behind them is neither
read nor written.

Between the two, the message stays where it is, whatever other calls are made
(`pending_kept`).
-/

namespace AegisKernel.Ipc

open Library

/-- `sizeof(aegis_msg_t)` of `ipc.h` -/
def MSG_SIZE : Nat := 88

namespace Message

/-- The message in memory. -/
def toBytes (m : Message) : Bytes :=
  packWords [m.sender, m.type, m.arg0, m.arg1, m.arg2] ++ m.payload.toList.map UInt8.ofBitVec

/-- `*msg`: the message in the first bytes of a piece of memory. -/
def ofBytes (bs : Bytes) : Message where
  sender := wordAt bs 0
  type := wordAt bs 1
  arg0 := wordAt bs 2
  arg1 := wordAt bs 3
  arg2 := wordAt bs 4
  payload := Vector.ofFn fun i => (bs.getD (40 + i) 0).toBitVec

/-- Copying a message copies 88 bytes as they are. -/
theorem toBytes_ofBytes (bs : Bytes) (h : MSG_SIZE ≤ bs.length) :
    (ofBytes bs).toBytes = bs.take MSG_SIZE := by
  unfold MSG_SIZE at *
  have hwords : packWords [wordAt bs 0, wordAt bs 1, wordAt bs 2, wordAt bs 3, wordAt bs 4] =
      bs.take 40 := packWords_wordAt bs 5 (by omega)
  have hpayload : ((Vector.ofFn fun i : Fin AEGIS_MSG_PAYLOAD_SIZE =>
      (bs.getD (40 + i) 0).toBitVec).toList.map UInt8.ofBitVec) = (bs.drop 40).take 48 := by
    refine List.ext_getElem ?_ fun i hi _ => ?_
    · simp only [List.length_map, Vector.length_toList, List.length_take, List.length_drop,
        AEGIS_MSG_PAYLOAD_SIZE]
      omega
    · have hlt : i < 48 := by simpa [AEGIS_MSG_PAYLOAD_SIZE] using hi
      rw [List.getElem_map, Vector.getElem_toList, Vector.getElem_ofFn, List.getElem_take,
        List.getElem_drop, List.getD_eq_getElem _ _ (show 40 + i < bs.length by omega)]
  unfold toBytes ofBytes
  dsimp only
  rw [hwords, hpayload, show (88 : Nat) = 40 + 48 from rfl, List.take_add]

end Message

-- ---------------------------------------------------------------------------
-- The pending message
-- ---------------------------------------------------------------------------

/-- The call may take a message from endpoint `d`. -/
def Takes (d : EndpointId) : Call → Prop
  | .recv on _ => on = d
  | _ => False

section Pending

variable {es : Endpoints} {d : EndpointId}

/-- An endpoint with a pending message is left alone by every call that does
not receive there: it is in use, so no creation takes it, and full, so a send is
refused. -/
theorem exec_pending (hused : (es d.toNat).used = true) (hfull : (es d.toNat).hasPending = true)
    {c : Call} (hc : ¬ Takes d c) : (exec es c).2 d.toNat = es d.toNat := by
  cases c with
  | endpointCreate outId =>
    simp only [exec, ipcEndpointCreate]
    split
    · rfl
    · split
      · rename_i i hi
        have hi' : (es i).used = false := by simpa using List.find?_some hi
        have hne : d.toNat ≠ i := by
          intro hdi
          rw [hdi, hi'] at hused
          simp at hused
        exact Function.update_of_ne hne _ _
      · rfl
  | send dest msg =>
    rcases msg with _ | m
    · rfl
    · simp only [exec, ipcSend]
      split
      · rfl
      · split
        · rfl
        · rename_i hfree
          have hne : d.toNat ≠ dest.toNat := by
            intro hd
            rw [hd] at hfull
            exact hfree hfull
          exact Function.update_of_ne hne _ _
  | recv on outMsg =>
    have hne : d.toNat ≠ on.toNat := fun h => hc (BitVec.eq_of_toNat_eq h).symm
    simp only [exec, ipcRecv]
    split
    · rfl
    · split
      · rfl
      · exact Function.update_of_ne hne _ _

/-- A message stays pending until it is received. -/
theorem pending_kept (hused : (es d.toNat).used = true) (hfull : (es d.toNat).hasPending = true)
    (cs : List Call) (hcs : ∀ c ∈ cs, ¬ Takes d c) :
    (execAll es cs).2 d.toNat = es d.toNat := by
  induction cs generalizing es with
  | nil => rfl
  | cons c cs ih =>
    have hstep := exec_pending hused hfull (hcs c (List.mem_cons_self ..))
    have hused' : ((exec es c).2 d.toNat).used = true := by rw [hstep]; exact hused
    have hfull' : ((exec es c).2 d.toNat).hasPending = true := by rw [hstep]; exact hfull
    have hrest := ih hused' hfull' fun c' hc' => hcs c' (List.mem_cons_of_mem _ hc')
    show (execAll (exec es c).2 cs).2 d.toNat = es d.toNat
    rw [hrest, hstep]

/-- What is sent is what is received next. -/
theorem recv_after_send {m : Message} (hsend : (ipcSend es d (some m)).1 = 0) (cs : List Call)
    (hcs : ∀ c ∈ cs, ¬ Takes d c) :
    (ipcRecv (execAll (ipcSend es d (some m)).2 cs).2 d true).1 = 0 ∧
      (ipcRecv (execAll (ipcSend es d (some m)).2 cs).2 d true).2.1 = some m := by
  -- a send that returns 0 went to an endpoint in use, and filled it
  by_cases hbad : (decide (d.toNat ≥ AEGIS_MAX_ENDPOINTS) || !(es d.toNat).used) = true
  · simp [ipcSend, hbad] at hsend
  by_cases hfull : (es d.toNat).hasPending = true
  · simp [ipcSend, hbad, hfull] at hsend
  obtain ⟨hlt, hused⟩ : d.toNat < AEGIS_MAX_ENDPOINTS ∧ (es d.toNat).used = true := by
    simpa using hbad
  set es' := (ipcSend es d (some m)).2 with hes'
  have hentry : es' d.toNat = { es d.toNat with pending := m, hasPending := true } := by
    rw [hes', ipcSend]
    simp [hused, hfull, Nat.not_le.mpr hlt]
  have hused' : (es' d.toNat).used = true := by rw [hentry]; exact hused
  have hfull' : (es' d.toNat).hasPending = true := by rw [hentry]
  have hkept := pending_kept hused' hfull' cs hcs
  unfold ipcRecv
  rw [hkept, hentry]
  simp [hused, Nat.not_le.mpr hlt]

end Pending

end AegisKernel.Ipc
