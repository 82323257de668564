import NearField.Command.Family

/-! # Carrying out a command line

A line is a keyword that names a family, and the arguments of one of its commands. A line is read
as a whole before anything is carried out. A command that fails is told to the console in one line.
-/
namespace NearField

namespace Command
open Emulator

/-- The keyword of a line and what stands behind it. Line breaks at its end do not count. -/
def splitLine (line : Text) : Text × Option Text :=
  let line := Text.dropEndWhile (fun c => c == '\r' || c == '\n') line
  match (Input.mk (some line)).token? Reader.space with
  | some (word, input) => (word, input.rest)
  | none => ([], none)

def Family.readInput (family : Family) (c : Controller) (input : Input) : Except Error Command :=
  match (family.reader c).run input with
  | .ok command _ => .ok command
  | .error e _ => .error e

def Family.readArguments (family : Family) (c : Controller) (arguments : Option Text) :
    Except Error Command :=
  match arguments with
  | none => .error .noArguments
  | some _ => family.readInput c ⟨arguments⟩

def ofLine (c : Controller) (line : Text) : Except Error Command :=
  let (word, arguments) := splitLine line
  match Family.ofKeyword? word with
  | some family => family.readArguments c arguments
  | none => .error (if word.isEmpty then .noArguments else .unknownCommand word)

end Command

namespace Emulator.Host
open Command

def perform : Command → Work Session Unit
  | .send saps records => do discard (Work.onFst (sendRecords saps records))
  | .receive saps => do discard (receiveMessage saps)
  | .connect saps => do discard (Work.onFst (connect saps))
  | .notify notification => do discard (Work.onFst (notify notification))
  | .setTag place records => do discard (Work.onFst (setTag place records))
  | .clearTag place => Work.onFst (clearTag place)
  | .formatTag place => Work.onFst (formatTag place)

def carryOut (h : Host) : Except Error Command → Execution Unit
  | .ok command => Execution.ofWork h (perform command)
  | .error e => ⟨h, [], .error e⟩

def run (h : Host) (family : Family) (input : Input) : Execution Unit :=
  h.carryOut (family.readInput h.controller input)

/-- A command of a known family, with its failure told to the console. -/
def command (h : Host) (family : Family) (arguments : Option Text) : Execution Unit :=
  (h.carryOut (family.readArguments h.controller arguments)).reported

def execute (h : Host) (line : Text) : Execution Unit :=
  (h.carryOut (Command.ofLine h.controller line)).reported

end Emulator.Host
end NearField
