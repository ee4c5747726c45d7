import Mathlib.Data.BitVec
import AegisKernel.Library.Bytes
import AegisKernel.Library.Stores

/-!
# Number printers — executable model

The printers of `kernel/src/console.c`, `servers/proc/proc.c` and
`servers/init/init.c`. Each fills a buffer on its stack, which is the list of its
stores (`Library.Stores`); what the cells hold before them is an argument, and so is
what lies behind the buffer.

* The servers send their text in a message, of which the bytes written to `data` are
  kept. The kernel writes to the serial port; waiting for the port is left out.
* A string on which `console_write` of the kernel has not come to an end after a
  number of characters has no result.
-/

namespace AegisKernel.Console

open Library

/-- The cells of a string literal. -/
def literal (s : Bytes) : Nat → UInt8 := fun i => s.getD i 0

/-- `'0' + d` -/
def decChar (d : Nat) : UInt8 := UInt8.ofNat (48 + d)

/-- `nibble < 10 ? '0' + nibble : 'a' + (nibble - 10)` -/
def hexChar (nibble : Nat) : UInt8 :=
  if nibble < 10 then decChar nibble else UInt8.ofNat (97 + (nibble - 10))

/-- `buf[0] = '0'; buf[1] = 'x';` -/
def hexPrefix : List (Nat × UInt8) := [(0, 48), (1, 120)]

/-- The digit loop of the servers, which counts `i` down in its condition. -/
def hexLoop (val : BitVec 64) : Nat → List (Nat × UInt8)
  | 0 => []
  | i + 1 => (18 - i, hexChar (val &&& 0xF#64).toNat) :: hexLoop (val >>> 4) i

/-- `while (value > 0) { buf[i++] = '0' + (value % 10); value /= 10; }` -/
def decLoop (value : BitVec 64) (i : Nat) : List (Nat × UInt8) :=
  if 0 < value then (i, decChar (value % 10#64).toNat) :: decLoop (value / 10#64) (i + 1) else []
termination_by value.toNat
decreasing_by
  have hpos : 0 < value.toNat := by simpa [BitVec.lt_def] using ‹0 < value›
  rw [BitVec.toNat_udiv]
  exact Nat.div_lt_self hpos (by decide)

/-! ## The servers -/

/-- An `aegis_msg_t` with the bytes written to its `data`. -/
structure Sent where
  endpoint : Nat
  type : Nat
  data : Bytes

/-- `for (int i = 0; s[i] && i < 256; i++) msg.data[i] = s[i];`, `n` bytes before the
end of `data`. -/
def copyText (s : Nat → UInt8) (i : Nat) : Nat → Bytes
  | 0 => []
  | n + 1 => if s i = 0 then [] else s i :: copyText s (i + 1) n

/-- The cells that loop reads: the one behind the last character too, also at the end of
`data`. -/
def copyReads (s : Nat → UInt8) (i : Nat) : Nat → List Nat
  | 0 => [i]
  | n + 1 => if s i = 0 then [i] else i :: copyReads s (i + 1) n

namespace Proc

/-- `proc_write` -/
def procWrite (s : Nat → UInt8) : Sent := ⟨2, 1, copyText s 0 256⟩

/-- The stores of `proc_write_hex` into `buf[19]`. -/
def hexStores (val : BitVec 64) : List (Nat × UInt8) := hexPrefix ++ hexLoop val 16 ++ [(18, 0)]

/-- `proc_write_hex` -/
def procWriteHex (buf : Nat → UInt8) (val : BitVec 64) : Sent :=
  procWrite (applyStores buf (hexStores val))

/-- The stores of `proc_write_dec` into `buf[32]`. -/
def reverseStores (rev : Nat → UInt8) (len : Nat) : List (Nat × UInt8) :=
  ((List.range len).map fun i => (i, rev (len - 1 - i))) ++ [(len, 0)]

/-- The cells of `rev` that are read for them. -/
def revReads (len : Nat) : List Nat := (List.range len).map fun i => len - 1 - i

/-- `proc_write_dec` -/
def procWriteDec (buf rev : Nat → UInt8) (val : BitVec 64) : Sent :=
  if val = 0 then procWrite (literal [48])
  else
    let stores := decLoop val 0
    procWrite (applyStores buf (reverseStores (applyStores rev stores) stores.length))

end Proc

namespace Init

/-- `console_write` -/
def consoleWrite (s : Nat → UInt8) : Sent := ⟨1, 1, copyText s 0 256⟩

/-- The stores of `console_write_hex` into `buf[18]`: there is no terminator. -/
def hexStores (val : BitVec 64) : List (Nat × UInt8) := hexPrefix ++ hexLoop val 16

/-- `console_write_hex` -/
def consoleWriteHex (buf : Nat → UInt8) (val : BitVec 64) : Sent :=
  consoleWrite (applyStores buf (hexStores val))

end Init

/-! ## The kernel -/

namespace Kernel

/-- What `console_write` gives to `serial_write_char` for a character. -/
def serialChars (c : UInt8) : Bytes := if c = 10 then [13, 10] else [c]

/-- The loop of `console_write` from a position on, for `n` characters at most. -/
def consoleWriteLoop (s : Nat → UInt8) (i : Nat) : Nat → Option Bytes
  | 0 => none
  | n + 1 =>
    if s i = 0 then some []
    else (consoleWriteLoop s (i + 1) n).map fun out => serialChars (s i) ++ out

/-- `console_write` -/
def consoleWrite (s : Nat → UInt8) (n : Nat) : Option Bytes := consoleWriteLoop s 0 n

/-- `digits` -/
def digits : Bytes := [48, 49, 50, 51, 52, 53, 54, 55, 56, 57, 97, 98, 99, 100, 101, 102]

/-- The digit loop of `console_write_hex`, from `i - 1` down to 0. -/
def hexLoop (value : BitVec 64) : Nat → List (Nat × UInt8)
  | 0 => []
  | i + 1 =>
    let nibble := ((value >>> (i * 4)) &&& 0xF#64).toNat
    (2 + (15 - i), digits.getD (nibble &&& 0xF) 0) :: hexLoop value i

/-- The stores of `console_write_hex` into `buf[19]`. -/
def hexStores (value : BitVec 64) : List (Nat × UInt8) :=
  hexPrefix ++ hexLoop value 16 ++ [(18, 0)]

/-- `console_write_hex` -/
def consoleWriteHex (buf : Nat → UInt8) (value : BitVec 64) (n : Nat) : Option Bytes :=
  consoleWrite (applyStores buf (hexStores value)) n

/-- The cells that `console_write_dec` reads, the last one first. -/
def decReads (value : BitVec 64) : List Nat := (List.range (decLoop value 0).length).reverse

/-- `console_write_dec`; the digits go to the serial port one by one. -/
def consoleWriteDec (buf : Nat → UInt8) (value : BitVec 64) (n : Nat) : Option Bytes :=
  if value = 0 then consoleWrite (literal [48]) n
  else some ((decReads value).map (applyStores buf (decLoop value 0)))

end Kernel

end AegisKernel.Console
