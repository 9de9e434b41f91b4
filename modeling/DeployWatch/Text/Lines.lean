/-
# Lines of a pipe

A pipe delivers bytes in pieces of any size.  A line ends after a newline byte; its text is
the lossy reading of its bytes without the newline and without one carriage return before
it.  What follows the last newline is a line too, unless it is empty.

`ofReads` works through the pieces as they come and keeps only the unfinished line;
`ofBytes` says the same of the whole content at once.
-/

import DeployWatch.Text.Pieces
import DeployWatch.Text.Utf8

namespace DeployWatch.Text.Lines

/-- The byte that ends a line. -/
def newline : UInt8 := 10

/-- Takes the newline off the end of a line, and then at most one carriage return. -/
def dropEnding (line : List Char) : List Char :=
  match line.reverse with
  | '\n' :: '\r' :: front => front.reverse
  | '\n' :: front => front.reverse
  | _ => line

/-- The text of one line. -/
def lineText (line : List UInt8) : String := String.ofList (dropEnding (Utf8.decode line))

/-- The bytes read so far of a line that has not ended, the newest first. -/
structure Reader where
  /-- The bytes after the last newline, in reverse order. -/
  pending : List UInt8 := []
  deriving Repr, DecidableEq

/-- Takes one read from the pipe and gives the lines that it completes. -/
def Reader.feed (reader : Reader) : List UInt8 → Reader × List String
  | [] => (reader, [])
  | b :: rest =>
    if b = newline then
      let (next, more) := Reader.feed ⟨[]⟩ rest
      (next, lineText (b :: reader.pending).reverse :: more)
    else Reader.feed ⟨b :: reader.pending⟩ rest

/-- The line that the end of the pipe completes, if any bytes are pending. -/
def Reader.finish (reader : Reader) : List String :=
  if reader.pending.isEmpty then [] else [lineText reader.pending.reverse]

/-- The lines of a pipe that delivers `reads` and then ends. -/
def Reader.run (reader : Reader) : List (List UInt8) → List String
  | [] => reader.finish
  | chunk :: reads =>
    let (next, lines) := reader.feed chunk
    lines ++ next.run reads

/-- The lines of a pipe, from its reads. -/
def ofReads (reads : List (List UInt8)) : List String := Reader.run ⟨[]⟩ reads

/-- The lines of a pipe, from its whole content. -/
def ofBytes (content : List UInt8) : List String := (Pieces.ending newline content).map lineText

end DeployWatch.Text.Lines
