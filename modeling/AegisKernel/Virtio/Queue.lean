import AegisKernel.Library.Memory

/-!
# Virtio — registers and queue of `kernel/include/virtio.h`

`virtio_queue_t` is a packed record in memory: 128 descriptors of 16 bytes, the
available ring at 2048, six bytes of padding, and the used ring at 2314. It is
modelled in memory and not as a record, because the drivers and the device both
use it there, and the block driver has its data buffer and its status byte
inside of it.

Addresses are natural numbers. A counter of 16 bits is what `load` gives of two
bytes; storing its successor wraps.

* `writeDesc`, `post` — what the drivers do with a queue.
* `nextHead`, `publish` — what a device does with it.
* `DescArea`, `AvailArea`, `UsedArea` — the parts of a queue, and with
  `within_writeDesc`, `within_post` and `within_publish` which part each of these
  changes.
-/

namespace AegisKernel.Virtio

open Library

def VIRTIO_MMIO_MAGIC_VALUE : Nat := 0x000
def VIRTIO_MMIO_VERSION : Nat := 0x004
def VIRTIO_MMIO_DEVICE_ID : Nat := 0x008
def VIRTIO_MMIO_VENDOR_ID : Nat := 0x00c

def VIRTIO_QUEUE_SIZE : Nat := 128

/-- A counter leads to a slot of a ring. -/
theorem slot_lt (n : Nat) : n % VIRTIO_QUEUE_SIZE < 128 := Nat.mod_lt _ (by decide)

def VIRTIO_DESC_F_NEXT : Nat := 1
def VIRTIO_DESC_F_WRITE : Nat := 2

/-- The tests at the start of the two `init` functions: each leaves with -1, and 0 is
returned behind the last one. -/
theorem of_tests {σ : Type*} {p₁ p₂ p₃ p₄ : Prop} [Decidable p₁] [Decidable p₂] [Decidable p₃]
    [Decidable p₄] {s t : σ}
    (h : (if p₁ then ((-1 : Int), s) else if p₂ then (-1, s) else if p₃ then (-1, s)
      else if p₄ then (-1, s) else (0, t)).1 = 0) :
    (if p₁ then ((-1 : Int), s) else if p₂ then (-1, s) else if p₃ then (-1, s)
      else if p₄ then (-1, s) else (0, t)) = (0, t) := by
  split at h
  · exact absurd h (by simp)
  split at h
  · exact absurd h (by simp)
  split at h
  · exact absurd h (by simp)
  split at h
  · exact absurd h (by simp)
  · rename_i h₁ h₂ h₃ h₄
    rw [if_neg h₁, if_neg h₂, if_neg h₃, if_neg h₄]

-- ---------------------------------------------------------------------------
-- Layout
-- ---------------------------------------------------------------------------

def descAt (q i : Nat) : Nat := q + 16 * i
def availIdxAt (q : Nat) : Nat := q + 2050
def availRingAt (q i : Nat) : Nat := q + 2052 + 2 * i
def usedIdxAt (q : Nat) : Nat := q + 2316
def usedRingAt (q i : Nat) : Nat := q + 2318 + 8 * i

/-- `virtio_desc_t` -/
structure Desc where
  addr : Nat
  len : Nat
  flags : Nat
  next : Nat
deriving DecidableEq

/-- What the fields of a descriptor keep of the values stored in them. -/
def Desc.stored (d : Desc) : Desc where
  addr := d.addr % 2 ^ 64
  len := d.len % 2 ^ 32
  flags := d.flags % 2 ^ 16
  next := d.next % 2 ^ 16

def readDesc (m : Memory) (q i : Nat) : Desc where
  addr := load m (descAt q i) 8
  len := load m (descAt q i + 8) 4
  flags := load m (descAt q i + 12) 2
  next := load m (descAt q i + 14) 2

/-- Storing the four fields of a descriptor. -/
def writeDesc (m : Memory) (q i : Nat) (d : Desc) : Memory :=
  let m₁ := store m (descAt q i) 8 d.addr
  let m₂ := store m₁ (descAt q i + 8) 4 d.len
  let m₃ := store m₂ (descAt q i + 12) 2 d.flags
  store m₃ (descAt q i + 14) 2 d.next

/-- `avail.idx` -/
def availIdx (m : Memory) (q : Nat) : Nat := load m (availIdxAt q) 2

/-- `used.idx` -/
def usedIdx (m : Memory) (q : Nat) : Nat := load m (usedIdxAt q) 2

/-- `avail.ring[i]` -/
def availRing (m : Memory) (q i : Nat) : Nat := load m (availRingAt q i) 2

-- ---------------------------------------------------------------------------
-- The driver's side
-- ---------------------------------------------------------------------------

/-- The loops of the two queue setups that clear a queue; the padding stays. -/
def clearQueue (m : Memory) (q : Nat) : Memory :=
  let m₁ := put m q 2048 fun _ => 0
  let m₂ := put m₁ (q + 2048) 260 fun _ => 0
  put m₂ (q + 2314) 1028 fun _ => 0

/-- `avail.ring[avail.idx % VIRTIO_QUEUE_SIZE] = 0; avail.idx++;` -/
def post (m : Memory) (q : Nat) : Memory :=
  let m₁ := store m (availRingAt q (availIdx m q % VIRTIO_QUEUE_SIZE)) 2 0
  store m₁ (availIdxAt q) 2 (availIdx m₁ q + 1)

-- ---------------------------------------------------------------------------
-- The device's side
-- ---------------------------------------------------------------------------

/-- The chain the device takes next, if `used.idx` is behind `avail.idx`. -/
def nextHead (m : Memory) (q : Nat) : Nat := availRing m q (usedIdx m q % VIRTIO_QUEUE_SIZE)

/-- Publishing a used element. -/
def publish (m : Memory) (q head len : Nat) : Memory :=
  let slot := usedRingAt q (usedIdx m q % VIRTIO_QUEUE_SIZE)
  let m₁ := store m slot 4 head
  let m₂ := store m₁ (slot + 4) 4 len
  store m₂ (usedIdxAt q) 2 (usedIdx m q + 1)

-- ---------------------------------------------------------------------------
-- Parts of a queue
-- ---------------------------------------------------------------------------

def DescArea (q i x : Nat) : Prop := q + 16 * i ≤ x ∧ x < q + 16 * i + 16
def AvailArea (q x : Nat) : Prop := q + 2048 ≤ x ∧ x < q + 2308
def UsedArea (q x : Nat) : Prop := q + 2314 ≤ x ∧ x < q + 3342

section Parts

variable {R : Nat → Prop} {m m' : Memory} {q i : Nat}

theorem readDesc_of_within (h : Within R m m') (hR : ∀ x, DescArea q i x → ¬ R x) :
    readDesc m' q i = readDesc m q i := by
  unfold readDesc descAt
  rw [h.load fun k hk => hR _ ⟨by omega, by omega⟩, h.load fun k hk => hR _ ⟨by omega, by omega⟩,
    h.load fun k hk => hR _ ⟨by omega, by omega⟩, h.load fun k hk => hR _ ⟨by omega, by omega⟩]

theorem availIdx_of_within (h : Within R m m') (hR : ∀ x, AvailArea q x → ¬ R x) :
    availIdx m' q = availIdx m q :=
  h.load fun k hk => hR _ ⟨by unfold availIdxAt; omega, by unfold availIdxAt; omega⟩

theorem availRing_of_within (h : Within R m m') (hR : ∀ x, AvailArea q x → ¬ R x) (hi : i < 128) :
    availRing m' q i = availRing m q i :=
  h.load fun k hk => hR _ ⟨by unfold availRingAt; omega, by unfold availRingAt; omega⟩

theorem usedIdx_of_within (h : Within R m m') (hR : ∀ x, UsedArea q x → ¬ R x) :
    usedIdx m' q = usedIdx m q :=
  h.load fun k hk => hR _ ⟨by unfold usedIdxAt; omega, by unfold usedIdxAt; omega⟩

theorem within_writeDesc (m : Memory) (q i : Nat) (d : Desc) :
    Within (DescArea q i) m (writeDesc m q i d) := by
  unfold writeDesc descAt
  refine Within.store (Within.store (Within.store (Within.store (Within.refl _ _) ?_) ?_) ?_) ?_
  · exact fun k hk => ⟨by omega, by omega⟩
  · exact fun k hk => ⟨by omega, by omega⟩
  · exact fun k hk => ⟨by omega, by omega⟩
  · exact fun k hk => ⟨by omega, by omega⟩

theorem within_post (m : Memory) (q : Nat) : Within (AvailArea q) m (post m q) := by
  have hslot := slot_lt (availIdx m q)
  unfold post availRingAt availIdxAt
  refine Within.store (Within.store (Within.refl _ _) ?_) ?_
  · exact fun k hk => ⟨by omega, by omega⟩
  · exact fun k hk => ⟨by omega, by omega⟩

theorem within_publish (m : Memory) (q head len : Nat) :
    Within (UsedArea q) m (publish m q head len) := by
  have hslot := slot_lt (usedIdx m q)
  unfold publish usedRingAt usedIdxAt
  refine Within.store (Within.store (Within.store (Within.refl _ _) ?_) ?_) ?_
  · exact fun k hk => ⟨by omega, by omega⟩
  · exact fun k hk => ⟨by omega, by omega⟩
  · exact fun k hk => ⟨by omega, by omega⟩

theorem within_clearQueue (m : Memory) (q : Nat) :
    Within (fun x => q ≤ x ∧ x < q + 4096) m (clearQueue m q) := by
  unfold clearQueue
  refine Within.put (Within.put (Within.put (Within.refl _ _) ?_) ?_) ?_
  · exact fun k hk => ⟨by omega, by omega⟩
  · exact fun k hk => ⟨by omega, by omega⟩
  · exact fun k hk => ⟨by omega, by omega⟩

end Parts

-- ---------------------------------------------------------------------------
-- What is read back
-- ---------------------------------------------------------------------------

section ReadBack

variable {m : Memory} {q i j : Nat} {d : Desc}

theorem readDesc_writeDesc : readDesc (writeDesc m q i d) q i = d.stored := by
  unfold readDesc writeDesc Desc.stored
  simp (disch := omega) only [load_store_of_disjoint, load_store, Nat.reducePow]

theorem readDesc_writeDesc_of_ne (hij : i ≠ j) :
    readDesc (writeDesc m q j d) q i = readDesc m q i := by
  refine readDesc_of_within (within_writeDesc m q j d) fun x hx hx' => ?_
  unfold DescArea at hx hx'
  omega

theorem readDesc_post (hi : i < 128) : readDesc (post m q) q i = readDesc m q i := by
  refine readDesc_of_within (within_post m q) fun x hx hx' => ?_
  unfold DescArea at hx
  unfold AvailArea at hx'
  omega

theorem availIdx_post : availIdx (post m q) q = (availIdx m q + 1) % 65536 := by
  unfold post
  dsimp only
  have hkeep : availIdx (store m (availRingAt q (availIdx m q % VIRTIO_QUEUE_SIZE)) 2 0) q =
      availIdx m q := by
    refine load_store_of_disjoint ?_
    unfold availRingAt availIdxAt
    omega
  rw [hkeep]
  exact load_store

theorem availIdx_lt : availIdx m q < 65536 := load_lt

theorem usedIdx_lt : usedIdx m q < 65536 := load_lt

theorem usedIdx_post : usedIdx (post m q) q = usedIdx m q := by
  refine usedIdx_of_within (within_post m q) fun x hx hx' => ?_
  unfold UsedArea at hx
  unfold AvailArea at hx'
  omega

/-- Posting stores the head 0 and leaves the other slots of the ring alone. -/
theorem availRing_post (hi : i < 128) :
    availRing (post m q) q i =
      if i = availIdx m q % VIRTIO_QUEUE_SIZE then 0 else availRing m q i := by
  unfold post availRing
  dsimp only
  rw [load_store_of_disjoint (by unfold availRingAt availIdxAt; omega)]
  split
  · rename_i h
    rw [← h, load_store, Nat.zero_mod]
  · refine load_store_of_disjoint ?_
    unfold availRingAt
    omega

theorem usedIdx_publish (head len : Nat) :
    usedIdx (publish m q head len) q = (usedIdx m q + 1) % 65536 := load_store

theorem availIdx_publish (head len : Nat) : availIdx (publish m q head len) q = availIdx m q := by
  refine availIdx_of_within (within_publish m q head len) fun x hx hx' => ?_
  unfold AvailArea at hx
  unfold UsedArea at hx'
  omega

theorem availIdx_clearQueue : availIdx (clearQueue m q) q = 0 := by
  unfold clearQueue availIdx availIdxAt
  rw [load_put_of_disjoint (by omega), load_put_zero (by omega) (by omega)]

theorem usedIdx_clearQueue : usedIdx (clearQueue m q) q = 0 := by
  unfold clearQueue usedIdx usedIdxAt
  rw [load_put_zero (by omega) (by omega)]

theorem availRing_clearQueue (hi : i < 128) : availRing (clearQueue m q) q i = 0 := by
  unfold clearQueue availRing availRingAt
  rw [load_put_of_disjoint (by omega), load_put_zero (by omega) (by omega)]

end ReadBack

end AegisKernel.Virtio
