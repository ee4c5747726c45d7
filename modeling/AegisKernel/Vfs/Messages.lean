import AegisKernel.Ipc.Layout
import AegisKernel.Vfs.Definitions

/-!
# VFS server — the message format against the kernel's

`vfs.c` and `ipc.h` declare `aegis_msg_t` independently: the server's has
`type` before `sender`, a fourth argument and 512 bytes of data, 560 bytes in
all; the kernel's has `sender` first, three arguments and 48 bytes of payload.
The kernel copies its own 88 bytes. Seen from the server these are the six words
and the first 40 data bytes.

* `received_eq` — what the receiver finds in a zeroed message.
* `arrives_iff` — it is the message sent, with the kernel's fields meaning what
  the server's mean, exactly when the data ends within 40 bytes and `type` and
  `sender` are equal.
-/

namespace AegisKernel.Vfs

open Library

/-- `aegis_msg_t` of `vfs.c` -/
@[ext] structure AegisMsg where
  type : Word
  sender : Word
  arg0 : Word
  arg1 : Word
  arg2 : Word
  arg3 : Word
  data : Bytes
  length_data : data.length = MSG_DATA_SIZE
deriving DecidableEq

namespace AegisMsg

/-- The message in memory; there is no padding between the fields. -/
def toBytes (m : AegisMsg) : Bytes :=
  packWords [m.type, m.sender, m.arg0, m.arg1, m.arg2, m.arg3] ++ m.data

/-- The message at the start of a piece of memory. -/
def ofBytes (bs : Bytes) : AegisMsg where
  type := wordAt bs 0
  sender := wordAt bs 1
  arg0 := wordAt bs 2
  arg1 := wordAt bs 3
  arg2 := wordAt bs 4
  arg3 := wordAt bs 5
  data := (List.range MSG_DATA_SIZE).map fun i => bs.getD (48 + i) 0
  length_data := by simp

/-- `aegis_msg_t msg = {0};` -/
def zero : AegisMsg :=
  ⟨0#64, 0#64, 0#64, 0#64, 0#64, 0#64, List.replicate MSG_DATA_SIZE 0, List.length_replicate⟩

end AegisMsg

/-- `*out_msg = endpoints[on].pending;` where `out_msg` points to memory `dest`:
the kernel's message overwrites the first bytes. -/
def storeMessage (k : Ipc.Message) (dest : Bytes) : Bytes := k.toBytes ++ dest.drop Ipc.MSG_SIZE

/-- What is received through a zero-initialised message. -/
def received (k : Ipc.Message) : AegisMsg := .ofBytes (storeMessage k AegisMsg.zero.toBytes)

/-- Every field and byte arrives, and `sender` and `type` are what the kernel
takes them for. -/
structure Arrives (m : AegisMsg) (k : Ipc.Message) : Prop where
  received : received k = m
  sender : k.sender = m.sender
  type : k.type = m.type

-- ---------------------------------------------------------------------------
-- What the 88 bytes are
-- ---------------------------------------------------------------------------

section Layout

variable (m : AegisMsg)

theorem length_toBytes : m.toBytes.length = 560 := by
  unfold AegisMsg.toBytes
  rw [List.length_append, length_packWords, m.length_data]
  rfl

/-- A message is read back from its words and its data. -/
theorem ofBytes_packWords (d : Bytes) (hd : d.length = MSG_DATA_SIZE) :
    AegisMsg.ofBytes (packWords [m.type, m.sender, m.arg0, m.arg1, m.arg2, m.arg3] ++ d) =
      { m with data := d, length_data := hd } := by
  have hdata : ((List.range MSG_DATA_SIZE).map fun i =>
      (packWords [m.type, m.sender, m.arg0, m.arg1, m.arg2, m.arg3] ++ d).getD (48 + i) 0) = d := by
    refine List.ext_getElem (by simp [hd]) fun i hi hi' => ?_
    have hlen : (packWords [m.type, m.sender, m.arg0, m.arg1, m.arg2, m.arg3]).length = 48 := by
      simp
    rw [List.getElem_map, List.getElem_range, List.getD_append_right _ _ _ _ (by omega), hlen,
      Nat.add_sub_cancel_left, List.getD_eq_getElem _ _ hi']
  have hword := fun k w (hk : [m.type, m.sender, m.arg0, m.arg1, m.arg2, m.arg3][k]? = some w) =>
    wordAt_packWords _ d hk
  simp only [AegisMsg.ofBytes, AegisMsg.mk.injEq]
  exact ⟨hword 0 _ rfl, hword 1 _ rfl, hword 2 _ rfl, hword 3 _ rfl, hword 4 _ rfl, hword 5 _ rfl,
    hdata⟩

/-- The kernel's fields of a server message: the first two are exchanged. -/
theorem kernel_fields :
    (Ipc.Message.ofBytes m.toBytes).sender = m.type ∧
      (Ipc.Message.ofBytes m.toBytes).type = m.sender :=
  ⟨wordAt_packWords _ _ rfl, wordAt_packWords _ _ rfl⟩

/-- The data the receiver gets: 40 bytes of it, and zeros. -/
def clipped : Bytes := m.data.take 40 ++ List.replicate 472 0

theorem length_clipped : (clipped m).length = MSG_DATA_SIZE := by
  unfold clipped
  rw [List.length_append, List.length_take, m.length_data, List.length_replicate]
  rfl

/-- The receiver gets the six words, the first 40 data bytes, and zeros. -/
theorem received_eq :
    received (Ipc.Message.ofBytes m.toBytes) =
      { m with data := clipped m, length_data := length_clipped m } := by
  set words := packWords [m.type, m.sender, m.arg0, m.arg1, m.arg2, m.arg3] with hwords
  have hlen : words.length = 48 := by simp [hwords]
  -- 48 of the 88 bytes are the words
  have hsent : m.toBytes.take 88 = words ++ m.data.take 40 := by
    show (words ++ m.data).take 88 = _
    rw [List.take_append, hlen, List.take_of_length_le (by omega)]
  -- the rest of the receiver's message stays zero
  have hrest : AegisMsg.zero.toBytes.drop 88 = List.replicate 472 0 := by decide +kernel
  unfold received storeMessage
  rw [Ipc.Message.toBytes_ofBytes _ (by rw [length_toBytes]; decide)]
  unfold Ipc.MSG_SIZE
  rw [hsent, hrest, List.append_assoc]
  exact ofBytes_packWords m (clipped m) (length_clipped m)

/-- Nothing is lost exactly when the bytes cut off were zero. -/
theorem clipped_eq_iff : clipped m = m.data ↔ ∀ b ∈ m.data.drop 40, b = 0 := by
  have hdrop : (m.data.drop 40).length = 472 := by
    rw [List.length_drop, m.length_data]
    rfl
  unfold clipped
  nth_rewrite 2 [← List.take_append_drop 40 m.data]
  rw [List.append_cancel_left_eq, eq_comm, List.eq_replicate_iff]
  simp [hdrop]

/-- A message arrives exactly when the bytes cut off were zero and the fields
exchanged are equal. -/
theorem arrives_ofBytes_iff :
    Arrives m (Ipc.Message.ofBytes m.toBytes) ↔
      (∀ b ∈ m.data.drop 40, b = 0) ∧ m.type = m.sender := by
  obtain ⟨hsender, htype⟩ := kernel_fields m
  have hdata : received (Ipc.Message.ofBytes m.toBytes) = m ↔ clipped m = m.data := by
    rw [received_eq, AegisMsg.ext_iff]
    simp
  rw [← clipped_eq_iff]
  constructor
  · intro h
    exact ⟨hdata.mp h.received, hsender.symm.trans h.sender⟩
  · rintro ⟨hkept, heq⟩
    exact ⟨hdata.mpr hkept, hsender.trans heq, htype.trans heq.symm⟩

end Layout

-- ---------------------------------------------------------------------------
-- Through the kernel
-- ---------------------------------------------------------------------------

/-- **Message format.** A server message that `ipc_send` accepts is what the
next `ipc_recv` on that endpoint delivers; it arrives as it was sent exactly when
its data bytes from the 40th on are zero and its `type` equals its `sender`. -/
theorem arrives_iff (es : Ipc.Endpoints) (dest : Ipc.EndpointId) (m : AegisMsg)
    (hsend : (Ipc.ipcSend es dest (some (.ofBytes m.toBytes))).1 = 0) (cs : List Ipc.Call)
    (hcs : ∀ c ∈ cs, ¬ Ipc.Takes dest c) :
    let es' := (Ipc.execAll (Ipc.ipcSend es dest (some (.ofBytes m.toBytes))).2 cs).2
    ∃ k, (Ipc.ipcRecv es' dest true).1 = 0 ∧ (Ipc.ipcRecv es' dest true).2.1 = some k ∧
      (Arrives m k ↔ (∀ b ∈ m.data.drop 40, b = 0) ∧ m.type = m.sender) := by
  intro es'
  obtain ⟨hcode, hmsg⟩ := Ipc.recv_after_send hsend cs hcs
  exact ⟨_, hcode, hmsg, arrives_ofBytes_iff m⟩

/-- Endpoints in use, with nothing pending. -/
def idleEndpoints : Ipc.Endpoints := fun _ => ⟨true, .ofBytes [], false⟩

/-- `VFS_OPEN` of a path of 40 bytes, from the endpoint with the number of the request. -/
def openShortPath : AegisMsg :=
  { AegisMsg.zero with
    type := VFS_OPEN
    sender := VFS_OPEN
    data := List.replicate 40 97 ++ List.replicate 472 0
    length_data := by rw [List.length_append, List.length_replicate, List.length_replicate]; rfl }

/-- A second message to the endpoint, a receive on another one, and a new endpoint. -/
def otherCalls : List Ipc.Call :=
  [.send 1#64 (some (.ofBytes AegisMsg.zero.toBytes)), .recv 2#64 true, .endpointCreate true]

/-- It arrives, whatever else is called before it is received. -/
theorem open_short_path_arrives :
    ∃ k, (Ipc.ipcRecv (Ipc.execAll (Ipc.ipcSend idleEndpoints 1#64
        (some (.ofBytes openShortPath.toBytes))).2 otherCalls).2 1#64 true).2.1 = some k ∧
      Arrives openShortPath k := by
  have hcalls : ∀ c ∈ otherCalls, ¬ Ipc.Takes 1#64 c := by simp [otherCalls, Ipc.Takes]
  obtain ⟨k, -, hmsg, hiff⟩ := arrives_iff idleEndpoints 1#64 openShortPath rfl otherCalls hcalls
  refine ⟨k, hmsg, hiff.mpr ⟨fun b hb => ?_, rfl⟩⟩
  have hrest : openShortPath.data.drop 40 = List.replicate 472 0 := List.drop_left' (by simp)
  rw [hrest] at hb
  exact List.eq_of_mem_replicate hb

/-- `VFS_OPEN` of a path of 41 bytes, from endpoint 3. -/
def openLongPath : AegisMsg :=
  { AegisMsg.zero with
    type := VFS_OPEN
    sender := 3#64
    data := List.replicate 41 97 ++ List.replicate 471 0
    length_data := by rw [List.length_append, List.length_replicate, List.length_replicate]; rfl }

/-- It arrives with its path cut off, and the kernel takes `VFS_OPEN` for the
sender. -/
theorem open_long_path_garbled :
    let sent := Ipc.ipcSend idleEndpoints 1#64 (some (.ofBytes openLongPath.toBytes))
    ∃ k, sent.1 = 0 ∧ (Ipc.ipcRecv sent.2 1#64 true).2.1 = some k ∧ k.sender = VFS_OPEN ∧
      ¬ Arrives openLongPath k := by
  intro sent
  have hsend : sent.1 = 0 := rfl
  obtain ⟨-, hmsg⟩ := Ipc.recv_after_send hsend [] (by simp)
  refine ⟨_, rfl, hmsg, (kernel_fields openLongPath).1, fun h => ?_⟩
  have htype := ((arrives_ofBytes_iff openLongPath).mp h).2
  exact absurd htype (by decide)

end AegisKernel.Vfs
