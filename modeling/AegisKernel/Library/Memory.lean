import AegisKernel.Library.Bytes

/-!
# Byte memory

Memory that a program and a device share: a byte at every address. Fields of
records are little-endian numbers in it.

* `put m a n f` — the `n` bytes from `a` on become `f 0, f 1, …`; every other
  write is one of these.
* `load` and `store` — a field of `n` bytes. A store is read back modulo
  `256 ^ n` (`load_store`) and leaves other fields alone (`load_store_of_disjoint`).
* `Within R m m'` — the two memories differ at most at addresses in `R`; the
  frame conditions of a whole function are stated with it.
-/

namespace AegisKernel.Library

abbrev Memory := Nat → UInt8

def put (m : Memory) (a n : Nat) (f : Nat → UInt8) : Memory := fun x =>
  if a ≤ x ∧ x < a + n then f (x - a) else m x

def read (m : Memory) (a n : Nat) : Bytes := (List.range n).map fun i => m (a + i)

def write (m : Memory) (a : Nat) (bs : Bytes) : Memory := put m a bs.length fun i => bs.getD i 0

def load (m : Memory) (a n : Nat) : Nat := unle (read m a n)

def store (m : Memory) (a n v : Nat) : Memory := write m a (le n v)

/-- Nothing outside of `R` has changed. -/
def Within (R : Nat → Prop) (m m' : Memory) : Prop := ∀ x, ¬ R x → m' x = m x

section Fields

variable {m m' : Memory} {a b n k v : Nat} {f : Nat → UInt8} {bs : Bytes}

theorem put_outside {x : Nat} (h : x < a ∨ a + n ≤ x) : put m a n f x = m x :=
  if_neg (by omega)

theorem put_inside {i : Nat} (h : i < n) : put m a n f (a + i) = f i := by
  unfold put
  rw [if_pos ⟨by omega, by omega⟩, Nat.add_sub_cancel_left]

/-- What is read depends on the bytes read only. -/
theorem read_congr (h : ∀ i < n, m' (a + i) = m (a + i)) : read m' a n = read m a n :=
  List.map_congr_left fun i hi => h i (List.mem_range.mp hi)

theorem eq_of_read (h : read m a n = read m' b n) {i : Nat} (hi : i < n) :
    m (a + i) = m' (b + i) := List.map_inj_left.mp h i (List.mem_range.mpr hi)

theorem load_congr (h : ∀ i < n, m' (a + i) = m (a + i)) : load m' a n = load m a n :=
  congrArg unle (read_congr h)

@[simp] theorem length_read : (read m a n).length = n := by simp [read]

theorem load_lt : load m a n < 256 ^ n := by
  have h := Nat.ofDigits_lt_base_pow_length (b := 256) (l := (read m a n).map UInt8.toNat)
    (by decide) fun x hx => by
      obtain ⟨c, -, rfl⟩ := List.mem_map.mp hx
      exact c.toNat_lt
  rwa [List.length_map, length_read] at h

theorem read_take (k : Nat) : read m a (min n k) = (read m a n).take k := by
  unfold read
  rw [← List.map_take, List.take_range, Nat.min_comm]

theorem read_put (f : Nat → UInt8) : read (put m a n f) a n = (List.range n).map f :=
  List.map_congr_left fun _ hi => put_inside (List.mem_range.mp hi)

theorem read_write : read (write m a bs) a bs.length = bs := by
  unfold write
  rw [read_put]
  refine List.ext_getElem (by simp) fun i hi _ => ?_
  rw [List.length_map, List.length_range] at hi
  simp [hi]

theorem load_store : load (store m a n v) a n = v % 256 ^ n := by
  have h : read (store m a n v) a (le n v).length = le n v := read_write
  rw [length_le] at h
  unfold load
  rw [h, unle_le]

theorem store_eq : store m a n v = put m a n fun i => (le n v).getD i 0 := by
  unfold store write
  rw [length_le]

theorem store_outside {x : Nat} (h : x < a ∨ a + n ≤ x) : store m a n v x = m x := by
  rw [store_eq]
  exact put_outside h

theorem le_zero (n : Nat) : le n 0 = List.replicate n 0 := by
  induction n with
  | zero => rfl
  | succ n ih =>
    rw [le, Nat.zero_div, ih, List.replicate_succ]
    rfl

theorem store_zero_inside {x : Nat} (hlo : a ≤ x) (hhi : x < a + n) : store m a n 0 x = 0 := by
  rw [store_eq, le_zero]
  unfold put
  rw [if_pos ⟨hlo, hhi⟩]
  simp [show x - a < n by omega]

/-- A field is zero when all of its bytes are. -/
theorem load_eq_zero (h : ∀ i < n, m (a + i) = 0) : load m a n = 0 := by
  have hread : read m a n = List.replicate n 0 := by
    refine List.eq_replicate_iff.mpr ⟨length_read, fun c hc => ?_⟩
    obtain ⟨i, hi, rfl⟩ := List.mem_map.mp hc
    exact h i (List.mem_range.mp hi)
  unfold load unle
  rw [hread, List.map_replicate]
  exact Nat.ofDigits_replicate_zero

theorem load_eq_zero_iff : load m a n = 0 ↔ ∀ i < n, m (a + i) = 0 := by
  refine ⟨fun h i hi => ?_, load_eq_zero⟩
  have hread := le_unle (read m a n)
  have hzero : unle (read m a n) = 0 := h
  rw [hzero, length_read, le_zero] at hread
  have hbyte : m (a + i) ∈ read m a n := List.mem_map.mpr ⟨i, List.mem_range.mpr hi, rfl⟩
  rw [← hread] at hbyte
  exact List.eq_of_mem_replicate hbyte

theorem load_store_of_disjoint (h : b + k ≤ a ∨ a + n ≤ b) :
    load (store m a n v) b k = load m b k :=
  load_congr fun _ _ => store_outside (by omega)

theorem load_put_of_disjoint (h : b + k ≤ a ∨ a + n ≤ b) :
    load (put m a n f) b k = load m b k :=
  load_congr fun _ _ => put_outside (by omega)

/-- A field inside a block of zeros. -/
theorem load_put_zero (ha : a ≤ b) (hb : b + k ≤ a + n) :
    load (put m a n fun _ => 0) b k = 0 :=
  load_eq_zero fun _ _ => if_pos ⟨by omega, by omega⟩

end Fields

/-! ## Frames -/

section Frames

variable {R S : Nat → Prop} {m m₁ m₂ : Memory}

theorem Within.refl (R : Nat → Prop) (m : Memory) : Within R m m := fun _ _ => rfl

theorem Within.trans (h₁ : Within R m m₁) (h₂ : Within R m₁ m₂) : Within R m m₂ :=
  fun x hx => (h₂ x hx).trans (h₁ x hx)

theorem Within.mono (h : Within R m m₁) (hRS : ∀ x, R x → S x) : Within S m m₁ :=
  fun x hx => h x fun hR => hx (hRS x hR)

theorem Within.put (h : Within R m m₁) {a n : Nat} {f : Nat → UInt8}
    (hR : ∀ i < n, R (a + i)) : Within R m (put m₁ a n f) := by
  intro x hx
  rw [← h x hx]
  refine put_outside ?_
  by_contra hin
  exact hx (by simpa [show a + (x - a) = x by omega] using hR (x - a) (by omega))

theorem Within.store (h : Within R m m₁) {a n v : Nat} (hR : ∀ i < n, R (a + i)) :
    Within R m (store m₁ a n v) := by
  rw [store_eq]
  exact h.put hR

theorem Within.read (h : Within R m m₁) {a n : Nat} (hR : ∀ i < n, ¬ R (a + i)) :
    read m₁ a n = read m a n := read_congr fun i hi => h (a + i) (hR i hi)

theorem Within.load (h : Within R m m₁) {a n : Nat} (hR : ∀ i < n, ¬ R (a + i)) :
    load m₁ a n = load m a n := load_congr fun i hi => h (a + i) (hR i hi)

end Frames

end AegisKernel.Library
