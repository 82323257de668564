import NearField.Error

/-! # Service access points

The two ends of a link are numbered by service access points. One that is typed is either a number
or the wish for the one used last.
-/
namespace NearField.Llcp

def pointCount : Nat := 64

/-- The point that manages links. No connection can be made to it. -/
def linkManagement : UInt8 := 0

inductive Sap
  | last
  | value (point : UInt8)
  deriving DecidableEq, Repr

instance : Inhabited Sap := ⟨.value linkManagement⟩

namespace Sap

def orUsed : Sap → UInt8 → UInt8
  | last, used => used
  | value point, _ => point

def text : Sap → Text
  | last => "-1".toList
  | value point => Text.decimal point.toNat

end Sap

structure Points where
  destination : UInt8 := 0
  source : UInt8 := 0
  deriving DecidableEq, Repr

/-- The points wished for at both ends. -/
structure Saps where
  destination : Sap := default
  source : Sap := default
  deriving DecidableEq, Repr, Inhabited

def Saps.orUsed (s : Saps) (used : Points) : Points :=
  ⟨s.destination.orUsed used.destination, s.source.orUsed used.source⟩

/-- Neither end of a connection is link management; the destination is looked at first. -/
def Points.checkConnectable (p : Points) : Except Error Unit := do
  if p.destination = linkManagement then throw (.zeroSap .destination)
  if p.source = linkManagement then throw (.zeroSap .source)

end NearField.Llcp
