import AegisKernel.Virtio.BlkWaiting
import AegisKernel.Virtio.Net

/-!
# Virtio — the registers during initialisation

`virtio_init` and `virtio_net_init` as the device sees them: the register accesses
they make, in order. What they return and do to memory is in `Blk.virtioInit` and
`Net.virtioNetInit`; the addresses of the queues are taken from there.

* `Access` — one `mmio_read` or `mmio_write`, with the value.
* `Blk.initAccesses`, `Net.initAccesses` — the two functions.
* `Follows` — what the protocol asks of such a function.
* `code_blk`, `code_net` — the registers for which they return 0.
* `statusWrites_blk`, `statusWrites_net` — the status register over a whole run.
* `init_follows_iff` — for which register contents the two functions follow it.

Shifting `1u` by 32, as for `VIRTIO_F_VERSION_1`, is not defined in C: the value the
compiler gives it is an argument.
-/

namespace AegisKernel.Virtio

def VIRTIO_MAGIC : Nat := 0x74726976

def VIRTIO_STATUS_ACKNOWLEDGE : Nat := 1
def VIRTIO_STATUS_DRIVER : Nat := 2
def VIRTIO_STATUS_DRIVER_OK : Nat := 4
def VIRTIO_STATUS_FEATURES_OK : Nat := 8

def VIRTIO_F_RING_INDIRECT_DESC : Nat := 28
def VIRTIO_F_RING_EVENT_IDX : Nat := 29
def VIRTIO_NET_F_MAC : Nat := 5
def VIRTIO_NET_F_MRG_RXBUF : Nat := 15
def VIRTIO_NET_F_STATUS : Nat := 16

def VIRTIO_MMIO_DEVICE_FEATURES : Nat := 0x010
def VIRTIO_MMIO_DRIVER_FEATURES : Nat := 0x014
def VIRTIO_MMIO_QUEUE_SEL : Nat := 0x030
def VIRTIO_MMIO_QUEUE_NUM : Nat := 0x038
def VIRTIO_MMIO_QUEUE_READY : Nat := 0x044
def VIRTIO_MMIO_QUEUE_NOTIFY : Nat := 0x050
def VIRTIO_MMIO_STATUS : Nat := 0x070

inductive Access
  | read (offset value : Nat)
  | write (offset value : Nat)
deriving DecidableEq

/-- `mmio_read`, which accesses a whole word. -/
def mmioRead (regs : Nat → Nat) (offset : Nat) : Access := .read offset (regs (offset / 4 * 4))

/-- `mmio_read64` -/
def mmioRead64 (regs : Nat → Nat) (offset : Nat) : List Access :=
  [mmioRead regs (offset + 4), mmioRead regs offset]

/-- `mmio_write64` -/
def mmioWrite64 (offset value : Nat) : List Access :=
  [.write offset (value % 2 ^ 32), .write (offset + 4) (value / 2 ^ 32 % 2 ^ 32)]

/-- `virtio_set_status` and `virtio_net_set_status` -/
def setStatus (status : Nat) : Access := .write VIRTIO_MMIO_STATUS status

/-- The two `negotiate_features`: `features` is written whatever the device offers. -/
def negotiateFeatures (regs : Nat → Nat) (features : Nat) : List Access :=
  [mmioRead regs VIRTIO_MMIO_DEVICE_FEATURES, .write VIRTIO_MMIO_DRIVER_FEATURES features]

/-- The two `queue_setup`, where `q` is what `mm_alloc` returned. -/
def queueSetup (idx q : Nat) : List Access :=
  if q = 0 then []
  else
    [.write VIRTIO_MMIO_QUEUE_SEL idx, .write VIRTIO_MMIO_QUEUE_NUM VIRTIO_QUEUE_SIZE,
      .write VIRTIO_MMIO_QUEUE_READY 1] ++
    -- the address goes to `QUEUE_READY` as well
    mmioWrite64 VIRTIO_MMIO_QUEUE_READY q

/-- The tests at the start of the two `init` functions, and what follows them. -/
def identify (regs : Nat → Nat) (deviceId : Nat) (rest : List Access) : List Access :=
  mmioRead regs VIRTIO_MMIO_MAGIC_VALUE ::
    if regs VIRTIO_MMIO_MAGIC_VALUE ≠ VIRTIO_MMIO_MAGIC_VALUE then []
    else mmioRead regs VIRTIO_MMIO_VERSION ::
      if regs VIRTIO_MMIO_VERSION ≠ 1 ∧ regs VIRTIO_MMIO_VERSION ≠ 2 then []
      else mmioRead regs VIRTIO_MMIO_DEVICE_ID ::
        if regs VIRTIO_MMIO_DEVICE_ID ≠ deviceId then []
        else mmioRead regs VIRTIO_MMIO_VENDOR_ID ::
          if regs VIRTIO_MMIO_VENDOR_ID ≠ 0x1af4 then [] else rest

-- ---------------------------------------------------------------------------
-- The block driver
-- ---------------------------------------------------------------------------

namespace Blk

/-- The features of `virtio_negotiate_features`, with `1u << 32` given. -/
def driverFeatures (shift32 : Nat) : Nat :=
  shift32 ||| (1 <<< VIRTIO_F_RING_INDIRECT_DESC) ||| (1 <<< VIRTIO_F_RING_EVENT_IDX)

/-- `virtio_read_config` -/
def readConfig (regs : Nat → Nat) : List Access :=
  mmioRead64 regs (VIRTIO_MMIO_DEVICE_FEATURES + 0x100) ++
    [0x108, 0x10c, 0x110, 0x114, 0x114, 0x118, 0x11c, 0x120, 0x124].map fun offset =>
      mmioRead regs (VIRTIO_MMIO_DEVICE_FEATURES + offset)

/-- The accesses of `virtio_init`. -/
def initAccesses (shift32 : Nat) (s : State) (base : Nat) (regs : Nat → Nat) : List Access :=
  identify regs 2 <|
    [setStatus VIRTIO_STATUS_ACKNOWLEDGE, setStatus VIRTIO_STATUS_DRIVER] ++
    negotiateFeatures regs (driverFeatures shift32) ++
    [setStatus VIRTIO_STATUS_FEATURES_OK] ++
    queueSetup 0 (virtioInit s base regs).2.queue ++
    readConfig regs ++
    [setStatus VIRTIO_STATUS_DRIVER_OK]

end Blk

-- ---------------------------------------------------------------------------
-- The network driver
-- ---------------------------------------------------------------------------

namespace Net

/-- The features of `virtio_net_negotiate_features`, with `1u << 32` given. -/
def driverFeatures (shift32 : Nat) : Nat :=
  shift32 ||| (1 <<< VIRTIO_F_RING_INDIRECT_DESC) ||| (1 <<< VIRTIO_F_RING_EVENT_IDX) |||
    (1 <<< VIRTIO_NET_F_MAC) ||| (1 <<< VIRTIO_NET_F_STATUS) ||| (1 <<< VIRTIO_NET_F_MRG_RXBUF)

/-- `virtio_net_read_config` -/
def readConfig (regs : Nat → Nat) : List Access :=
  [0x100, 0x101, 0x102, 0x103, 0x104, 0x105, 0x106, 0x108, 0x10a].map fun offset =>
    mmioRead regs (VIRTIO_MMIO_DEVICE_FEATURES + offset)

/-- The registers `virtio_net_setup_rx` writes. -/
def setupRx (rxQueue : Nat) : List Access :=
  if rxQueue = 0 then []
  else [.write VIRTIO_MMIO_QUEUE_SEL 1, .write VIRTIO_MMIO_QUEUE_NOTIFY 1]

/-- The accesses of `virtio_net_init`. -/
def initAccesses (shift32 : Nat) (s : State) (base : Nat) (regs : Nat → Nat) : List Access :=
  let s' := (virtioNetInit s base regs).2
  identify regs 1 <|
    [setStatus VIRTIO_STATUS_ACKNOWLEDGE, setStatus VIRTIO_STATUS_DRIVER] ++
    negotiateFeatures regs (driverFeatures shift32) ++
    [setStatus VIRTIO_STATUS_FEATURES_OK] ++
    queueSetup 0 s'.txQueue ++
    queueSetup 1 s'.rxQueue ++
    readConfig regs ++
    [setStatus VIRTIO_STATUS_DRIVER_OK] ++
    setupRx s'.rxQueue

end Net

-- ---------------------------------------------------------------------------
-- The protocol
-- ---------------------------------------------------------------------------

/-- The values written to a register, in order. -/
def writesTo (offset : Nat) (accesses : List Access) : List Nat :=
  accesses.filterMap fun
    | .write o v => if o = offset then some v else none
    | .read _ _ => none

/-- Each status written holds the bits of the one before, the first those of a device
that has been reset. -/
def AddsBits (statuses : List Nat) : Prop :=
  List.IsChain (fun old new => old &&& new = old) (0 :: statuses)

/-- The registers are those of a device that the driver is for. -/
def Matches (deviceId : Nat) (regs : Nat → Nat) : Prop :=
  (regs VIRTIO_MMIO_VERSION = 1 ∨ regs VIRTIO_MMIO_VERSION = 2) ∧
    regs VIRTIO_MMIO_DEVICE_ID = deviceId ∧ regs VIRTIO_MMIO_VENDOR_ID = 0x1af4

/-- What a run that returns 0 has to do with the registers. -/
structure Handshake (regs : Nat → Nat) (accesses : List Access) (allocated : Prop) : Prop where
  status : AddsBits (writesTo VIRTIO_MMIO_STATUS accesses)
  features : ∀ f ∈ writesTo VIRTIO_MMIO_DRIVER_FEATURES accesses,
    f &&& regs VIRTIO_MMIO_DEVICE_FEATURES = f
  ready : ∀ v ∈ writesTo VIRTIO_MMIO_QUEUE_READY accesses, v = 1
  driverOk : ∀ v ∈ writesTo VIRTIO_MMIO_STATUS accesses,
    v &&& VIRTIO_STATUS_DRIVER_OK ≠ 0 → allocated

/-- The function accepts the devices it should, and initialises them as it should. -/
structure Follows (deviceId : Nat) (regs : Nat → Nat) (code : Int) (accesses : List Access)
    (allocated : Prop) : Prop where
  accepts : code = 0 ↔ regs VIRTIO_MMIO_MAGIC_VALUE = VIRTIO_MAGIC ∧ Matches deviceId regs
  handshake : code = 0 → Handshake regs accesses allocated

-- ---------------------------------------------------------------------------
-- The result
-- ---------------------------------------------------------------------------

/-- The tests of the two `init` functions, when nothing after them fails. -/
theorem tests_iff {σ : Type*} {regs : Nat → Nat} {deviceId : Nat} {s t : σ} :
    (if regs VIRTIO_MMIO_MAGIC_VALUE ≠ VIRTIO_MMIO_MAGIC_VALUE then ((-1 : Int), s)
      else if regs VIRTIO_MMIO_VERSION ≠ 1 ∧ regs VIRTIO_MMIO_VERSION ≠ 2 then (-1, s)
      else if regs VIRTIO_MMIO_DEVICE_ID ≠ deviceId then (-1, s)
      else if regs VIRTIO_MMIO_VENDOR_ID ≠ 0x1af4 then (-1, s) else (0, t)).1 = 0 ↔
    regs VIRTIO_MMIO_MAGIC_VALUE = VIRTIO_MMIO_MAGIC_VALUE ∧ Matches deviceId regs := by
  unfold Matches
  constructor
  · intro h
    split at h
    · exact absurd h (by simp)
    next hmagic =>
    split at h
    · exact absurd h (by simp)
    next hversion =>
    split at h
    · exact absurd h (by simp)
    next hid =>
    split at h
    · exact absurd h (by simp)
    next hvendor =>
    exact ⟨not_not.mp hmagic, by omega, not_not.mp hid, not_not.mp hvendor⟩
  · rintro ⟨hmagic, hversion, hid, hvendor⟩
    rw [if_neg (not_not.mpr hmagic), if_neg (by omega), if_neg (not_not.mpr hid),
      if_neg (not_not.mpr hvendor)]

theorem code_blk {s : Blk.State} {base : Nat} {regs : Nat → Nat} :
    (Blk.virtioInit s base regs).1 = 0 ↔
      regs VIRTIO_MMIO_MAGIC_VALUE = VIRTIO_MMIO_MAGIC_VALUE ∧ Matches 2 regs :=
  tests_iff

theorem code_net {s : Net.State} {base : Nat} {regs : Nat → Nat} :
    (Net.virtioNetInit s base regs).1 = 0 ↔
      regs VIRTIO_MMIO_MAGIC_VALUE = VIRTIO_MMIO_MAGIC_VALUE ∧ Matches 1 regs :=
  tests_iff

-- ---------------------------------------------------------------------------
-- The status register
-- ---------------------------------------------------------------------------

section Status

variable {regs : Nat → Nat} {accesses rest : List Access}

theorem writesTo_append {offset : Nat} {as bs : List Access} :
    writesTo offset (as ++ bs) = writesTo offset as ++ writesTo offset bs :=
  List.filterMap_append

theorem status_negotiateFeatures {features : Nat} :
    writesTo VIRTIO_MMIO_STATUS (negotiateFeatures regs features) = [] := rfl

theorem status_queueSetup {idx q : Nat} : writesTo VIRTIO_MMIO_STATUS (queueSetup idx q) = [] := by
  unfold queueSetup
  split
  · rfl
  · rfl

theorem status_setupRx {rxQueue : Nat} :
    writesTo VIRTIO_MMIO_STATUS (Net.setupRx rxQueue) = [] := by
  unfold Net.setupRx
  split
  · rfl
  · rfl

/-- Once the tests are passed, the writes are those of the rest. -/
theorem writesTo_identify {offset deviceId : Nat}
    (hmagic : regs VIRTIO_MMIO_MAGIC_VALUE = VIRTIO_MMIO_MAGIC_VALUE)
    (h : Matches deviceId regs) :
    writesTo offset (identify regs deviceId rest) = writesTo offset rest := by
  obtain ⟨hversion, hid, hvendor⟩ := h
  unfold identify
  rw [if_neg (not_not.mpr hmagic), if_neg (by omega), if_neg (not_not.mpr hid),
    if_neg (not_not.mpr hvendor)]
  rfl

theorem statusWrites_blk {shift32 base : Nat} {s : Blk.State}
    (hcode : (Blk.virtioInit s base regs).1 = 0) :
    writesTo VIRTIO_MMIO_STATUS (Blk.initAccesses shift32 s base regs) =
      [VIRTIO_STATUS_ACKNOWLEDGE, VIRTIO_STATUS_DRIVER, VIRTIO_STATUS_FEATURES_OK,
        VIRTIO_STATUS_DRIVER_OK] := by
  obtain ⟨hmagic, hmatches⟩ := code_blk.mp hcode
  have hconfig : writesTo VIRTIO_MMIO_STATUS (Blk.readConfig regs) = [] := rfl
  unfold Blk.initAccesses
  rw [writesTo_identify hmagic hmatches]
  simp only [writesTo_append, status_negotiateFeatures, status_queueSetup, hconfig]
  rfl

theorem statusWrites_net {shift32 base : Nat} {s : Net.State}
    (hcode : (Net.virtioNetInit s base regs).1 = 0) :
    writesTo VIRTIO_MMIO_STATUS (Net.initAccesses shift32 s base regs) =
      [VIRTIO_STATUS_ACKNOWLEDGE, VIRTIO_STATUS_DRIVER, VIRTIO_STATUS_FEATURES_OK,
        VIRTIO_STATUS_DRIVER_OK] := by
  obtain ⟨hmagic, hmatches⟩ := code_net.mp hcode
  have hconfig : writesTo VIRTIO_MMIO_STATUS (Net.readConfig regs) = [] := rfl
  unfold Net.initAccesses
  rw [writesTo_identify hmagic hmatches]
  simp only [writesTo_append, status_negotiateFeatures, status_queueSetup, status_setupRx, hconfig]
  rfl

/-- `DRIVER` is written without `ACKNOWLEDGE`. -/
theorem not_addsBits :
    ¬ AddsBits [VIRTIO_STATUS_ACKNOWLEDGE, VIRTIO_STATUS_DRIVER, VIRTIO_STATUS_FEATURES_OK,
      VIRTIO_STATUS_DRIVER_OK] := by
  unfold AddsBits
  decide

end Status

-- ---------------------------------------------------------------------------
-- Following the protocol
-- ---------------------------------------------------------------------------

/-- A function with these tests and these status writes follows the protocol only where
it refuses a device it has to refuse. -/
theorem follows_iff {deviceId : Nat} {regs : Nat → Nat} {code : Int} {accesses : List Access}
    {allocated : Prop}
    (hcode : code = 0 ↔
      regs VIRTIO_MMIO_MAGIC_VALUE = VIRTIO_MMIO_MAGIC_VALUE ∧ Matches deviceId regs)
    (hstatus : code = 0 → writesTo VIRTIO_MMIO_STATUS accesses =
      [VIRTIO_STATUS_ACKNOWLEDGE, VIRTIO_STATUS_DRIVER, VIRTIO_STATUS_FEATURES_OK,
        VIRTIO_STATUS_DRIVER_OK]) :
    Follows deviceId regs code accesses allocated ↔
      ¬ (Matches deviceId regs ∧ (regs VIRTIO_MMIO_MAGIC_VALUE = VIRTIO_MMIO_MAGIC_VALUE ∨
        regs VIRTIO_MMIO_MAGIC_VALUE = VIRTIO_MAGIC)) := by
  -- no run that returns 0 is as it has to be
  have hnever : code = 0 → ¬ Handshake regs accesses allocated := by
    intro h hshake
    have hadds := hshake.status
    rw [hstatus h] at hadds
    exact not_addsBits hadds
  constructor
  · rintro h ⟨hmatches, hmagic⟩
    have hzero : code = 0 := by
      rcases hmagic with hmagic | hmagic
      · exact hcode.mpr ⟨hmagic, hmatches⟩
      · exact h.accepts.mpr ⟨hmagic, hmatches⟩
    exact hnever hzero (h.handshake hzero)
  · intro h
    have hne : code ≠ 0 := fun hzero => h ⟨(hcode.mp hzero).2, .inl (hcode.mp hzero).1⟩
    exact ⟨⟨fun hzero => absurd hzero hne, fun hreal => absurd ⟨hreal.2, .inr hreal.1⟩ h⟩,
      fun hzero => absurd hzero hne⟩

/-- **Initialisation.** Each driver follows the protocol except where the registers match
its device and the magic register holds its own offset, which the driver takes for the
magic number, or the magic number, with which it refuses the device. -/
theorem init_follows_iff (shift32 : Nat) (bs : Blk.State) (ns : Net.State) (base : Nat)
    (regs : Nat → Nat) :
    (Follows 2 regs (Blk.virtioInit bs base regs).1 (Blk.initAccesses shift32 bs base regs)
        ((Blk.virtioInit bs base regs).2.queue ≠ 0) ↔
      ¬ (Matches 2 regs ∧ (regs VIRTIO_MMIO_MAGIC_VALUE = VIRTIO_MMIO_MAGIC_VALUE ∨
        regs VIRTIO_MMIO_MAGIC_VALUE = VIRTIO_MAGIC))) ∧
    (Follows 1 regs (Net.virtioNetInit ns base regs).1 (Net.initAccesses shift32 ns base regs)
        ((Net.virtioNetInit ns base regs).2.txQueue ≠ 0 ∧
          (Net.virtioNetInit ns base regs).2.rxQueue ≠ 0) ↔
      ¬ (Matches 1 regs ∧ (regs VIRTIO_MMIO_MAGIC_VALUE = VIRTIO_MMIO_MAGIC_VALUE ∨
        regs VIRTIO_MMIO_MAGIC_VALUE = VIRTIO_MAGIC))) :=
  ⟨follows_iff code_blk statusWrites_blk, follows_iff code_net statusWrites_net⟩

/-- The registers of a block device. -/
def deviceRegs (r : Nat) : Nat :=
  if r = VIRTIO_MMIO_MAGIC_VALUE then VIRTIO_MAGIC else Blk.bootRegs r

/-- A block device is refused, and what is taken for one gets a status without the bits
it had. -/
theorem block_device_refused :
    (Matches 2 deviceRegs ∧ deviceRegs VIRTIO_MMIO_MAGIC_VALUE = VIRTIO_MAGIC ∧
      (Blk.virtioInit Blk.bootState 0x10001000 deviceRegs).1 = -1 ∧
      ¬ Follows 2 deviceRegs (Blk.virtioInit Blk.bootState 0x10001000 deviceRegs).1
        (Blk.initAccesses 1 Blk.bootState 0x10001000 deviceRegs)
        ((Blk.virtioInit Blk.bootState 0x10001000 deviceRegs).2.queue ≠ 0)) ∧
    ((Blk.virtioInit Blk.bootState 0x10001000 Blk.bootRegs).1 = 0 ∧
      ¬ AddsBits (writesTo VIRTIO_MMIO_STATUS
        (Blk.initAccesses 1 Blk.bootState 0x10001000 Blk.bootRegs))) := by
  have hmatches : Matches 2 deviceRegs := ⟨.inl rfl, rfl, rfl⟩
  refine ⟨⟨hmatches, rfl, rfl, fun h => ?_⟩, Blk.code_boot, ?_⟩
  · have hzero : (Blk.virtioInit Blk.bootState 0x10001000 deviceRegs).1 = 0 :=
      h.accepts.mpr ⟨rfl, hmatches⟩
    have hcode : (Blk.virtioInit Blk.bootState 0x10001000 deviceRegs).1 = -1 := rfl
    omega
  · rw [statusWrites_blk Blk.code_boot]
    exact not_addsBits

end AegisKernel.Virtio
