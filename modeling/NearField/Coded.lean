/-! # Coded values

A field of a packet that names one of a few values holds the value's one-byte code. Codes determine
their values, so reading a code is the partial inverse of writing it.
-/
namespace NearField

class Coded (α : Type) where
  /-- Every value once, in the order in which the values are listed. -/
  all : List α
  code : α → UInt8
  name : α → String
  mem_all : ∀ a, a ∈ all
  code_inj : ∀ a b, code a = code b → a = b

namespace Coded
variable {α : Type} [Coded α]

def ofCode? (byte : UInt8) : Option α := all.find? fun a => code a == byte

theorem ofCode?_eq_some_iff {byte : UInt8} {a : α} : ofCode? byte = some a ↔ code a = byte := by
  constructor
  · intro h
    have hp := List.find?_some h
    exact beq_iff_eq.mp hp
  · rintro rfl
    cases h : (ofCode? (code a) : Option α) with
    | none =>
      have hn := List.find?_eq_none.mp h a (mem_all a)
      simp at hn
    | some b =>
      have hp := List.find?_some h
      rw [code_inj b a (beq_iff_eq.mp hp)]

def ofNat? (n : Nat) : Option α := if n < 256 then ofCode? (UInt8.ofNat n) else none

theorem ofNat?_eq_some_iff {n : Nat} {a : α} : ofNat? n = some a ↔ (code a).toNat = n := by
  unfold ofNat?
  split
  · next h =>
    rw [ofCode?_eq_some_iff, ← UInt8.toNat_inj, UInt8.toNat_ofNat', Nat.mod_eq_of_lt h]
  · next h =>
    have hlt := (code a).toNat_lt
    constructor
    · intro hc
      cases hc
    · intro hc
      omega

end Coded
end NearField
