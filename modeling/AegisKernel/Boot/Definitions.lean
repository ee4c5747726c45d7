import AegisKernel.Elf.Definitions
import AegisKernel.Ramdisk.Pointers

/-!
# Boot — loading the servers in `kernel/src/main.c`

`load_servers_from_ramdisk` installs the ramdisk that the linker put into the
kernel image and loads two of its files. The ramdisk and the segments are in one
memory, and `ramdisk_init`, `ramdisk_load_file` and `elf_load` are the functions of
their own modules.

* The two blocks of the function are one function with a name and two messages;
  only the first block has a message for a file that is not there.
* Of the console output, the messages of `main.c` itself are kept.
-/

namespace AegisKernel.Boot

open Library

/-- A 64-bit machine word. -/
abbrev Word := BitVec 64

/-- One call of the console. -/
inductive Print
  | text (s : String)
  | hex (v : Word)
deriving DecidableEq, Repr

structure State where
  mem : Elf.Memory
  heap : Mm.State
  ramdisk : Ramdisk.Pointers.State
  console : List Print

end AegisKernel.Boot
