import NearField.Bytes
import NearField.Text

/-! # Base64url

Three bytes are four symbols of the URL-safe alphabet. Writing adds no padding. Reading takes a
text with or without `=` at its end, refuses stray bits after the last byte, and stops when the
bytes exceed the room they are read into.
-/
namespace NearField.Base64

def symbol (v : Nat) : Char :=
  if v < 26 then Char.ofNat ('A'.toNat + v)
  else if v < 52 then Char.ofNat ('a'.toNat + (v - 26))
  else if v < 62 then Char.ofNat ('0'.toNat + (v - 52))
  else if v = 62 then '-'
  else '_'

def sextet? (b : UInt8) : Option Nat :=
  let n := b.toNat
  if 65 ≤ n ∧ n ≤ 90 then some (n - 65)
  else if 97 ≤ n ∧ n ≤ 122 then some (n - 97 + 26)
  else if 48 ≤ n ∧ n ≤ 57 then some (n - 48 + 52)
  else if n = 45 then some 62
  else if n = 95 then some 63
  else none

def padding : UInt8 := 61

theorem sextet?_symbol {v : Nat} (h : v < 64) :
    sextet? (UInt8.ofNat (symbol v).toNat) = some v := by
  have hall : ∀ v : Fin 64, sextet? (UInt8.ofNat (symbol v.val).toNat) = some v.val := by decide
  exact hall ⟨v, h⟩

theorem sextet?_lt {b : UInt8} {v : Nat} (h : sextet? b = some v) : v < 64 := by
  simp only [sextet?] at h
  split at h
  · cases h
    omega
  split at h
  · cases h
    omega
  split at h
  · cases h
    omega
  split at h
  · cases h
    decide
  split at h
  · cases h
    decide
  · cases h

theorem sextet?_padding : sextet? padding = none := by decide

def encode : Bytes → Text
  | a :: b :: c :: rest =>
    symbol (a.toNat / 4) :: symbol (a.toNat % 4 * 16 + b.toNat / 16) ::
      symbol (b.toNat % 16 * 4 + c.toNat / 64) :: symbol (c.toNat % 64) :: encode rest
  | [a, b] =>
    [symbol (a.toNat / 4), symbol (a.toNat % 4 * 16 + b.toNat / 16), symbol (b.toNat % 16 * 4)]
  | [a] => [symbol (a.toNat / 4), symbol (a.toNat % 4 * 16)]
  | [] => []

/-- Symbols for `n` bytes, counting the padding that would complete the last four. -/
def paddedLength (n : Nat) : Nat := (n + 2) / 3 * 4

def unpaddedLength (n : Nat) : Nat := (n * 4 + 2) / 3

theorem length_encode (data : Bytes) : (encode data).length = unpaddedLength data.length := by
  fun_induction encode data with
  | case1 a b c rest ih =>
    simp only [List.length_cons, ih, unpaddedLength]
    omega
  | case2 => simp [unpaddedLength]
  | case3 => simp [unpaddedLength]
  | case4 => rfl

/-- What is wrong with a text, with offsets in bytes. -/
inductive Malformed
  | symbol (offset : Nat) (byte : UInt8)
  | length (count : Nat)
  | lastSymbol (offset : Nat) (byte : UInt8)
  deriving DecidableEq, Repr

namespace Malformed

def message : Malformed → Text
  | symbol offset byte =>
    "Invalid symbol ".toList ++ Text.decimal byte.toNat ++ ", offset ".toList ++
      Text.decimal offset ++ ".".toList
  | length count => "Invalid input length: ".toList ++ Text.decimal count
  | lastSymbol offset byte =>
    "Invalid last symbol ".toList ++ Text.decimal byte.toNat ++ ", offset ".toList ++
      Text.decimal offset ++ ".".toList

end Malformed

inductive Refusal
  | malformed (cause : Malformed)
  | noRoom
  deriving DecidableEq, Repr

def sextetAt (offset : Nat) (b : UInt8) : Except Refusal Nat :=
  match sextet? b with
  | some v => .ok v
  | none => .error (.malformed (.symbol offset b))

/-- Whole groups of four symbols, the first of them at `offset`. Bytes that complete no group are
left alone. -/
def groups (offset : Nat) : Bytes → Except Refusal Bytes
  | s :: t :: u :: v :: rest => do
    let a ← sextetAt offset s
    let b ← sextetAt (offset + 1) t
    let c ← sextetAt (offset + 2) u
    let d ← sextetAt (offset + 3) v
    let tail ← groups (offset + 4) rest
    return UInt8.ofNat (a * 4 + b / 16) :: UInt8.ofNat (b * 16 + c / 4) ::
      UInt8.ofNat (c * 64 + d) :: tail
  | _ => .ok []

/-- The symbols of the last group. Padding may stand from its third place on, and once it has begun
the first padding byte is what a symbol after it is blamed on. -/
def lastSymbols (offset place : Nat) (padded? : Option Nat) :
    Bytes → Except Refusal (List (UInt8 × Nat))
  | [] => .ok []
  | b :: rest =>
    if b = padding then
      if place < 2 then .error (.malformed (.symbol (offset + place) b))
      else lastSymbols offset (place + 1) (padded?.or (some place)) rest
    else match padded? with
      | some first => .error (.malformed (.symbol (offset + first) padding))
      | none => do
        let v ← sextetAt (offset + place) b
        let tail ← lastSymbols offset (place + 1) none rest
        return (b, v) :: tail

def lastBytes (offset : Nat) : List (UInt8 × Nat) → Except Refusal Bytes
  | [(_, a), (s, b)] =>
    if b % 16 = 0 then .ok [UInt8.ofNat (a * 4 + b / 16)]
    else .error (.malformed (.lastSymbol (offset + 1) s))
  | [(_, a), (_, b), (s, c)] =>
    if c % 4 = 0 then .ok [UInt8.ofNat (a * 4 + b / 16), UInt8.ofNat (b * 16 + c / 4)]
    else .error (.malformed (.lastSymbol (offset + 2) s))
  | [(_, a), (_, b), (_, c), (_, d)] =>
    .ok [UInt8.ofNat (a * 4 + b / 16), UInt8.ofNat (b * 16 + c / 4), UInt8.ofNat (c * 64 + d)]
  | symbols => .error (.malformed (.length (offset + symbols.length)))

/-- Where the last group begins: a last group that is complete counts as one too. -/
def lastStart (length : Nat) : Nat := (length - 1) / 4 * 4

/-- A lone last byte that no text can end in is reported before anything else. -/
def checkLoneEnd (text : Bytes) : Except Refusal Unit :=
  match text.drop (lastStart text.length) with
  | [b] =>
    if b = padding ∨ (sextet? b).isSome then .ok ()
    else .error (.malformed (.symbol (text.length - 1) b))
  | _ => .ok ()

/-- The bytes of a text, read into `room` bytes. The room for the whole groups is checked before
their symbols, and the room for the last group after its symbols. -/
def decode (text : Bytes) (room : Nat) : Except Refusal Bytes := do
  checkLoneEnd text
  let start := lastStart text.length
  if room < start / 4 * 3 then throw .noRoom
  let whole ← groups 0 (text.take start)
  if text.isEmpty then return whole
  let symbols ← lastSymbols start 0 none (text.drop start)
  let ending ← lastBytes start symbols
  if room < whole.length + ending.length then throw .noRoom
  return whole ++ ending

end NearField.Base64
