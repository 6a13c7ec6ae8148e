import Treewalk.Syntax.Basic

/-!
# Where printed text goes

A sink takes bytes until its room is used up. A write that does not fit leaves the bytes that do,
which may cut a character, and fails; a write of nothing never fails. Every write is kept with the
line that made it, so that each byte of the output can be traced to a print statement.
-/

set_option autoImplicit false
set_option relaxedAutoImplicit false

namespace Treewalk

/-- How a sink without room turns bytes away: with an error of its own, or by taking none of
them. -/
inductive Refusal where
  | full
  | takesNothing
  deriving DecidableEq

def Refusal.message : Refusal → String
  | full => "sink full"
  | takesNothing => "failed to write whole buffer"

/-- The bytes that one write left in the sink. -/
structure Chunk where
  line : Line
  bytes : List UInt8
  deriving DecidableEq

/-- The bytes of a text in UTF-8. -/
def utf8 (text : String) : List UInt8 :=
  text.toUTF8.data.toList

structure Sink where
  /-- How many more bytes are taken; without a number, all. -/
  room : Option Nat := none
  refusal : Refusal := .full
  /-- The text with which every flush fails, if it does. -/
  flushFailure : Option String := none
  /-- What was written, in order. -/
  chunks : Array Chunk := #[]

namespace Sink

/-- The part of a write that fits. -/
def fitting (sink : Sink) (bytes : List UInt8) : List UInt8 :=
  match sink.room with
  | none => bytes
  | some room => bytes.take room

/-- Whether a write fits as a whole. -/
def fits (sink : Sink) (bytes : List UInt8) : Bool :=
  match sink.room with
  | none => true
  | some room => bytes.length ≤ room

/-- The sink after a write. -/
def write (sink : Sink) (line : Line) (bytes : List UInt8) : Sink :=
  { sink with
    room := sink.room.map (· - bytes.length)
    chunks := sink.chunks.push ⟨line, sink.fitting bytes⟩ }

/-- All bytes written after the first `count` writes. -/
def outputFrom (sink : Sink) (count : Nat) : List UInt8 :=
  (sink.chunks.toList.drop count).flatMap Chunk.bytes

/-- All bytes written. -/
def output (sink : Sink) : List UInt8 :=
  sink.outputFrom 0

end Sink

end Treewalk
