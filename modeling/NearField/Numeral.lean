import NearField.Text

/-! # Numerals

A typed number is an optional sign and a body: decimal, hexadecimal behind `0x` or `0X`, or octal
behind a leading `0`. Unsigned numbers fit 64 bits; signed ones fit 64 bits in two's complement.
-/
namespace NearField.Numeral

inductive Fault
  | negative | empty | malformed | outOfRange
  deriving DecidableEq, Repr

namespace Fault

def message : Fault → Text
  | negative => "negative value".toList
  | empty => "empty value".toList
  | malformed => "not a number".toList
  | outOfRange => "out of range".toList

end Fault

def digit? (base : Nat) (c : Char) : Option Nat :=
  let value? :=
    if '0' ≤ c ∧ c ≤ '9' then some (c.toNat - '0'.toNat)
    else if 'a' ≤ c ∧ c ≤ 'z' then some (c.toNat - 'a'.toNat + 10)
    else if 'A' ≤ c ∧ c ≤ 'Z' then some (c.toNat - 'A'.toNat + 10)
    else none
  value?.filter (· < base)

theorem digit?_lt {base d : Nat} {c : Char} (h : digit? base c = some d) : d < base := by
  have := (Option.filter_eq_some_iff.mp h).2
  simpa using this

def splitBase : Text → Nat × Text
  | '0' :: 'x' :: digits => (16, digits)
  | '0' :: 'X' :: digits => (16, digits)
  | '0' :: c :: digits => (8, c :: digits)
  | digits => (10, digits)

def valueOf (base : Nat) (digits : List Nat) : Nat :=
  digits.foldl (fun n d => n * base + d) 0

theorem valueOf_append (base : Nat) (digits : List Nat) (d : Nat) :
    valueOf base (digits ++ [d]) = valueOf base digits * base + d := by
  simp [valueOf]

def magnitude (body : Text) : Except Fault Nat :=
  if body.isEmpty then .error .empty
  else
    let (base, text) := splitBase body
    match text.mapM (digit? base) with
    | none | some [] => .error .malformed
    | some digits =>
      if valueOf base digits < 0x1_0000_0000_0000_0000 then .ok (valueOf base digits)
      else .error .outOfRange

def dropPlus : Text → Text
  | '+' :: body => body
  | body => body

def unsigned (t : Text) : Except Fault Nat :=
  match t with
  | '-' :: _ => .error .negative
  | _ => magnitude (dropPlus t)

def signed (t : Text) : Except Fault Int := do
  let value ← match t with
    | '-' :: body => (magnitude body).map fun n => -(n : Int)
    | _ => (magnitude (dropPlus t)).map fun n => (n : Int)
  if -0x8000_0000_0000_0000 ≤ value ∧ value < 0x8000_0000_0000_0000 then .ok value
  else .error .outOfRange

end NearField.Numeral
