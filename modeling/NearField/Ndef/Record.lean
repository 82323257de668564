import NearField.Error
import NearField.Ndef.Flags

/-! # Typed records

A record as it is typed: flags, type name format, and three base64url fields. A command takes a few
of them.
-/
namespace NearField.Ndef

structure Record where
  flags : UInt8 := 0
  typeName : TypeName := default
  type : Text := []
  id : Text := []
  payload : Text := []
  deriving DecidableEq, Repr, Inhabited

/-- The most records that one command can carry. -/
def maxRecords : Nat := 4

structure RecordList where
  records : List Record := []
  bounded : records.length ≤ maxRecords := by decide

instance : Inhabited RecordList := ⟨{}⟩

namespace RecordList

def size (l : RecordList) : Nat := l.records.length

def push (l : RecordList) (r : Record) : Except Error RecordList :=
  if h : l.records.length < maxRecords then
    .ok ⟨l.records ++ [r], by rw [List.length_append]; exact h⟩
  else .error (.tooManyRecords 0 maxRecords (l.size + 1))

def pushAll (l : RecordList) (records : List Record) : Except Error RecordList :=
  records.foldlM push l

theorem records_push {l l' : RecordList} {r : Record} (h : l.push r = .ok l') :
    l'.records = l.records ++ [r] := by
  unfold push at h
  split at h
  · cases h
    rfl
  · cases h

end RecordList
end NearField.Ndef
