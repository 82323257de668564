import NearField.Error
import NearField.Text.Blank

/-! # Command input

The arguments of a command are read token by token. A token ends at the first of a set of
delimiters, which is taken with it; the last token takes all that is left and exhausts the input.
An input with nothing left is not yet exhausted: its last token is the empty one.
-/
namespace NearField.Command

structure Input where
  /-- What is unread, or nothing once the input is exhausted. -/
  rest : Option Text
  deriving DecidableEq, Repr

namespace Input

def hasRest (s : Input) : Bool := s.rest.any fun t => !t.isEmpty

def nonblank? (s : Input) : Option Text := (s.rest.map Text.trimStart).filter fun t => !t.isEmpty

def skipBlanks (s : Input) : Input := ⟨s.rest.map Text.trimStart⟩

def after? (s : Input) (c : Char) : Option Input :=
  match s.rest with
  | some (d :: tail) => if d = c then some ⟨some tail⟩ else none
  | _ => none

def token? (s : Input) (delimiters : List Char) : Option (Text × Input) :=
  s.rest.map fun t =>
    (t.takeWhile fun c => c ∉ delimiters, ⟨(t.dropWhile fun c => c ∉ delimiters).tail?⟩)

theorem token?_append {t rest : Text} {delimiters : List Char} {d : Char}
    (ht : ∀ c ∈ t, c ∉ delimiters) (hd : d ∈ delimiters) :
    (Input.mk (some (t ++ d :: rest))).token? delimiters = some (t, ⟨some rest⟩) := by
  have inside : ∀ c ∈ t, decide (c ∉ delimiters) = true := by simpa using ht
  simp only [token?, Option.map_some, List.takeWhile_append_of_pos inside,
    List.dropWhile_append_of_pos inside]
  simp [hd]

theorem token?_of_all {t : Text} {delimiters : List Char} (ht : ∀ c ∈ t, c ∉ delimiters) :
    (Input.mk (some t)).token? delimiters = some (t, ⟨none⟩) := by
  have inside : ∀ c ∈ t, decide (c ∉ delimiters) = true := by simpa using ht
  have hw : t.takeWhile (fun c => c ∉ delimiters) = t := by
    rw [← List.append_nil t, List.takeWhile_append_of_pos (by simpa using inside)]
    simp
  have hd : t.dropWhile (fun c => c ∉ delimiters) = [] := by
    rw [← List.append_nil t, List.dropWhile_append_of_pos (by simpa using inside)]
    rfl
  simp only [token?, Option.map_some, hw, hd]
  rfl

theorem token?_eq_none_iff {s : Input} {delimiters : List Char} :
    s.token? delimiters = none ↔ s.rest = none := by
  simp [token?]

theorem after?_eq_some_iff {s s' : Input} {c : Char} :
    s.after? c = some s' ↔ ∃ tail, s.rest = some (c :: tail) ∧ s' = ⟨some tail⟩ := by
  obtain ⟨rest⟩ := s
  rcases rest with _ | _ | ⟨d, tail⟩
  · simp [after?]
  · simp [after?]
  · by_cases h : d = c
    · simp [after?, h, eq_comm]
    · simp [after?, h]

end Input

/-- Readers keep the place that they have come to also when they fail. -/
abbrev Reader := EStateM Error Input

namespace Reader

def token (field : Text) (delimiters : List Char) : Reader Text := fun s =>
  match s.token? delimiters with
  | some (t, s) => .ok t s
  | none => .error (.missingToken field) s

def text (field : Text) (delimiters : List Char) (allowEmpty : Bool) : Reader Text := do
  let t ← token field delimiters
  if !allowEmpty && t.isEmpty then throw (.emptyToken field)
  return t

def numeral {α : Type} (parse : Text → Except Numeral.Fault α) (field : Text)
    (delimiters : List Char) : Reader α := do
  let t ← token field delimiters
  match parse t with
  | .ok value => return value
  | .error fault => throw (.invalidValue field t (.numeral fault))

def unsigned (field : Text) (delimiters : List Char) : Reader Nat :=
  numeral Numeral.unsigned field delimiters

def signed (field : Text) (delimiters : List Char) : Reader Int :=
  numeral Numeral.signed field delimiters

end Reader
end NearField.Command
