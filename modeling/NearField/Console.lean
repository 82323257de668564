import NearField.Error
import NearField.Text.Blank

/-! # Console

What a command writes is a list of events: pieces of output, and failures. A transcript collects
them into two texts, a log into one line per event.
-/
namespace NearField.Console

inductive Event
  | output (piece : Text)
  | failure (line : Text)
  deriving DecidableEq, Repr

def failureLine (e : Error) : Text := "KO: ".toList ++ e.message ++ "\r\n".toList

structure Transcript where
  output : Text := []
  failures : Text := []
  deriving DecidableEq, Repr

namespace Transcript

def add (t : Transcript) : Event → Transcript
  | .output piece => { t with output := t.output ++ piece }
  | .failure line => { t with failures := t.failures ++ line }

def addAll (t : Transcript) (events : List Event) : Transcript := events.foldl add t

theorem addAll_append (t : Transcript) (first rest : List Event) :
    t.addAll (first ++ rest) = (t.addAll first).addAll rest := List.foldl_append

def failureLines (t : Transcript) : List Text := t.failures.lines

end Transcript

inductive Severity
  | error | info
  deriving DecidableEq, Repr

def Severity.name : Severity → String
  | error => "ERROR"
  | info => "INFO"

def Event.logLine : Event → Severity × Text
  | output piece => (.info, piece.trimEnd)
  | failure line => (.error, line.trimEnd)

end NearField.Console
