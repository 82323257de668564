import NearField.Ndef.Report

/-! # Printing a report

A report is printed into a sink, piece by piece. A sink may have a limit: it keeps the bytes up to
there and refuses the piece that goes past them. Printing stops at the first failure, and what was
kept until then stays.
-/
namespace NearField.Ndef

structure Sink where
  /-- The most bytes that are kept. -/
  limit : Option Nat := none
  kept : Bytes := []
  deriving DecidableEq, Repr

abbrev Printing := EStateM Error Sink

/-- A piece that goes past the limit is kept up to there. -/
def Sink.offer (piece : Text) : Printing Unit := do
  let sink ← get
  let bytes := sink.kept ++ Text.utf8 piece
  match sink.limit with
  | none => set { sink with kept := bytes }
  | some limit =>
    set { sink with kept := bytes.take limit }
    if limit < bytes.length then throw .reportRefused

namespace Report

/-- All fields of a record have to be there before the first piece of its entry is printed. -/
def printEntry (v : RawRecord) : Printing Unit := do
  let pieces ← ofExcept (entry v)
  forM pieces Sink.offer

def printItems (first : Bool) : List Cursor.Item → Printing Unit
  | [] => Sink.offer "]\r\n".toList
  | item :: rest => do
    let v ← ofExcept item
    unless first do Sink.offer ",".toList
    printEntry v
    printItems false rest

/-- A message is read to its end once before anything is printed. -/
def print (message : Bytes) : Printing Unit := do
  discard (ofExcept (readAll message))
  Sink.offer "[".toList
  printItems true (items message)

def printed (message : Bytes) (limit : Option Nat) : Bytes × Except Error Unit :=
  match (print message).run { limit := limit } with
  | .ok _ sink => (sink.kept, .ok ())
  | .error e sink => (sink.kept, .error e)

end Report
end NearField.Ndef
