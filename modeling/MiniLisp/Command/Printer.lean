import MiniLisp.Value.Basic

/-!
# Printing values to a sink

A printer writes one value per line and flushes after each. The sink may run out of room or fail to
flush; after the first failure the printer writes nothing more.
-/

namespace MiniLisp

/-- Where bytes go. It takes `room?` bytes in all, and its flush number `badFlush?`, counted from 1,
fails. -/
structure Sink where
  room? : Option Nat
  badFlush? : Option Nat
  written : List UInt8
  flushes : Nat

namespace Sink

def fresh (room? badFlush? : Option Nat) : Sink := ⟨room?, badFlush?, [], 0⟩

/-- Writes bytes, as many as there is room for; says whether that was all. -/
def write (sink : Sink) (bytes : List UInt8) : Sink × Bool :=
  match sink.room? with
  | none => ({ sink with written := sink.written ++ bytes }, true)
  | some room =>
    let free := room - sink.written.length
    ({ sink with written := sink.written ++ bytes.take free }, decide (bytes.length ≤ free))

/-- Writes pieces in order, until one of them does not fit; says whether all did. -/
def writeAll (sink : Sink) : List (List UInt8) → Sink × Bool
  | [] => (sink, true)
  | piece :: pieces =>
    match sink.write piece with
    | (sink, true) => sink.writeAll pieces
    | (sink, false) => (sink, false)

def flush (sink : Sink) : Sink × Bool :=
  let flushes := sink.flushes + 1
  ({ sink with flushes }, sink.badFlush? != some flushes)

end Sink

structure Printer where
  sink : Sink
  failed : Bool

namespace Printer

/-- What is written for a value: its printed form, and then the end of the line. -/
def pieces (value : Value) : List (List UInt8) := [value.text.toUTF8.toList, "\n".toUTF8.toList]

def print (p : Printer) (value : Value) : Printer :=
  if p.failed then p
  else
    match p.sink.writeAll (pieces value) with
    | (sink, true) =>
      let (sink, flushed) := sink.flush
      ⟨sink, !flushed⟩
    | (sink, false) => ⟨sink, true⟩

def printAll (p : Printer) : List Value → List Printer
  | [] => []
  | v :: vs => p.print v :: printAll (p.print v) vs

end Printer

end MiniLisp
