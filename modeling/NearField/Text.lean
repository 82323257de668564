/-! # Text

Command lines, messages and reports are lists of characters. Numbers are printed here, and the
position of a character in a byte count is taken from its UTF-8 form.
-/
namespace NearField

abbrev Text := List Char

namespace Text

def utf8 (t : Text) : List UInt8 := t.flatMap String.utf8EncodeChar

theorem utf8_append (s t : Text) : utf8 (s ++ t) = utf8 s ++ utf8 t := by
  simp [utf8]

def decimal (n : Nat) : Text := Nat.toDigits 10 n

def signedDecimal : Int → Text
  | .ofNat n => decimal n
  | .negSucc n => '-' :: decimal (n + 1)

/-- Lowercase hexadecimal behind `0x`, padded with a zero to two digits. -/
def hex (n : Nat) : Text :=
  let digits := Nat.toDigits 16 n
  '0' :: 'x' :: (if digits.length < 2 then '0' :: digits else digits)

def dropEndWhile (p : Char → Bool) (t : Text) : Text := (t.reverse.dropWhile p).reverse

theorem dropEndWhile_append_of_all {p : Char → Bool} (s : Text) {t : Text} (h : ∀ c ∈ t, p c) :
    dropEndWhile p (s ++ t) = dropEndWhile p s := by
  have hr : ∀ c ∈ t.reverse, p c := fun c hc => h c (List.mem_reverse.mp hc)
  simp only [dropEndWhile, List.reverse_append]
  rw [List.dropWhile_append_of_pos hr]

theorem dropEndWhile_concat {p : Char → Bool} (s : Text) {c : Char} (h : p c = false) :
    dropEndWhile p (s ++ [c]) = s ++ [c] := by
  simp [dropEndWhile, h]

/-- The pieces between line feeds, each without one carriage return before its line feed. A last
piece that no line feed closes is kept as it stands unless it is empty. -/
def lines (t : Text) : List Text :=
  go [] t
where
  close (piece : Text) : Text :=
    match piece with
    | '\r' :: rest => rest.reverse
    | _ => piece.reverse
  go (piece : Text) : Text → List Text
    | [] => if piece.isEmpty then [] else [piece.reverse]
    | '\n' :: rest => close piece :: go [] rest
    | c :: rest => go (c :: piece) rest

end Text
end NearField
