import NearField.Ndef.Header

/-! # Reading a message

A cursor takes one record after the other off the front of a message. It stops for good at the end
of the message and after the first record that runs past it.
-/
namespace NearField.Ndef

structure RawRecord where
  header : Header
  type : Bytes
  id : Bytes
  payload : Bytes
  deriving DecidableEq, Repr

def RawRecord.split (data : Bytes) : Except Error (RawRecord × Bytes) := do
  let header ← Header.parse data
  if data.length < header.recordSize then
    throw (.messageTruncated data.length header.recordSize)
  let fields := data.drop header.size
  let afterType := fields.drop header.typeLength
  let afterId := afterType.drop header.idLength
  return (⟨header, fields.take header.typeLength, afterType.take header.idLength,
    afterId.take header.payloadLength⟩, data.drop header.recordSize)

theorem RawRecord.length_split {data rest : Bytes} {v : RawRecord}
    (h : split data = .ok (v, rest)) :
    rest.length + Header.leastSize ≤ data.length := by
  simp only [split] at h
  cases hp : Header.parse data with
  | error e =>
    rw [hp] at h
    cases h
  | ok header =>
    rw [hp] at h
    simp only [bind, Except.bind] at h
    split at h
    · cases h
    · next hlen =>
      cases h
      have hs := header.leastSize_le_recordSize
      simp only [List.length_drop]
      omega

structure Cursor where
  rest : Bytes
  stopped : Bool := false
  deriving DecidableEq, Repr

namespace Cursor

abbrev Item := Except Error RawRecord

def next? (c : Cursor) : Option (Item × Cursor) :=
  if c.stopped || c.rest.isEmpty then none
  else match RawRecord.split c.rest with
    | .ok (view, rest) => some (.ok view, ⟨rest, false⟩)
    | .error e => some (.error e, ⟨c.rest, true⟩)

/-- What a cursor has yet to look at. -/
def remaining (c : Cursor) : Nat := if c.stopped then 0 else c.rest.length

theorem remaining_next {c c' : Cursor} {item : Item} (h : c.next? = some (item, c')) :
    c'.remaining < c.remaining := by
  unfold next? at h
  split at h
  · cases h
  · next hc =>
    simp only [Bool.or_eq_true, List.isEmpty_iff, not_or, Bool.not_eq_true] at hc
    have hpos := List.length_pos_iff.mpr hc.2
    split at h
    · next view rest hs =>
      cases h
      have hl := RawRecord.length_split hs
      simp only [remaining, hc.1, Header.leastSize] at hl ⊢
      simp only [Bool.false_eq_true, if_false]
      omega
    · cases h
      simpa [remaining, hc.1] using hpos

/-- All that a cursor yields, and the cursor once it yields nothing more. -/
def drain (c : Cursor) : List Item × Cursor :=
  match _h : c.next? with
  | none => ([], c)
  | some (item, c') =>
    let (items, last) := c'.drain
    (item :: items, last)
termination_by c.remaining
decreasing_by exact remaining_next _h

theorem drain_of_none {c : Cursor} (h : c.next? = none) : c.drain = ([], c) := by
  rw [drain]
  split
  · rfl
  · next hc =>
    rw [h] at hc
    cases hc

theorem drain_of_some {c c' : Cursor} {item : Item} (h : c.next? = some (item, c')) :
    c.drain = (item :: c'.drain.1, c'.drain.2) := by
  rw [drain]
  split
  · next hc =>
    rw [h] at hc
    cases hc
  · next hc =>
    rw [h] at hc
    cases hc
    rfl

end Cursor

def items (message : Bytes) : List Cursor.Item := (Cursor.mk message false).drain.1

theorem items_nil : items [] = [] := by
  rw [items, Cursor.drain_of_none rfl]

theorem Cursor.drain_of_split_ok {message rest : Bytes} {r : RawRecord} (hne : message ≠ [])
    (h : RawRecord.split message = .ok (r, rest)) :
    (Cursor.mk message false).drain =
      (.ok r :: (Cursor.mk rest false).drain.1, (Cursor.mk rest false).drain.2) :=
  drain_of_some (by simp [next?, hne, h])

theorem items_of_split_ok {message rest : Bytes} {r : RawRecord} (hne : message ≠ [])
    (h : RawRecord.split message = .ok (r, rest)) : items message = .ok r :: items rest :=
  congrArg Prod.fst (Cursor.drain_of_split_ok hne h)

theorem items_of_split_error {message : Bytes} {e : Error} (hne : message ≠ [])
    (h : RawRecord.split message = .error e) : items message = [.error e] := by
  have hnext : (Cursor.mk message false).next? = some (.error e, ⟨message, true⟩) := by
    simp [Cursor.next?, hne, h]
  rw [items, Cursor.drain_of_some hnext, Cursor.drain_of_none rfl]

def readAll (message : Bytes) : Except Error (List RawRecord) := (items message).mapM id

end NearField.Ndef
