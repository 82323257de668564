import NearField.Coded

/-! # First byte of a record

Five flag bits above a three-bit type name format.
-/
namespace NearField.Ndef

inductive TypeName
  | empty | wellKnown | mediaType | absoluteUri | external | unknown | unchanged
  deriving DecidableEq, Repr, Inhabited

instance : Coded TypeName where
  all := [.empty, .wellKnown, .mediaType, .absoluteUri, .external, .unknown, .unchanged]
  code
    | .empty => 0x00
    | .wellKnown => 0x01
    | .mediaType => 0x02
    | .absoluteUri => 0x03
    | .external => 0x04
    | .unknown => 0x05
    | .unchanged => 0x06
  name
    | .empty => "Empty"
    | .wellKnown => "WellKnown"
    | .mediaType => "MediaType"
    | .absoluteUri => "AbsoluteUri"
    | .external => "External"
    | .unknown => "Unknown"
    | .unchanged => "Unchanged"
  mem_all a := by cases a <;> decide
  code_inj a b := by cases a <;> cases b <;> simp

namespace Flags

def messageBegin : UInt8 := 0x80
def messageEnd : UInt8 := 0x40
def chunked : UInt8 := 0x20
/-- The payload length takes one byte instead of four. -/
def shortRecord : UInt8 := 0x10
def idPresent : UInt8 := 0x08

def all : UInt8 := 0xF8

/-- What a record may be typed with. The other flags follow from its place and its id. -/
def typed : UInt8 := chunked ||| shortRecord

def isTyped (flags : Nat) : Bool := flags &&& typed.toNat == flags

def typeNameBits : UInt8 := 0x07

def has (flags bit : UInt8) : Bool := flags &&& bit != 0

/-- Flags with the marks for the place in a message and for an id. -/
def marked (flags : UInt8) (first last named : Bool) : UInt8 :=
  flags ||| (if first then messageBegin else 0) ||| (if last then messageEnd else 0) |||
    (if named then idPresent else 0)

end Flags
end NearField.Ndef
