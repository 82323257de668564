import NearField.Proofs.Ndef.HeaderLengths

/-! # Accesses to a byte string

A byte, a word or a slice is read from a byte string, and a word is put into one, just if the range
of the access ends inside. Any other range is refused with its end if that is an address. Where the
end goes beyond the addresses there is no length to refuse the range with, and the access breaks
off.
-/
namespace NearField.Bytes
open Emulator (Work)
open Ndef.Header (store run_store leaving run_check_bind run_get_bind)

variable {data : Bytes} {start length : Nat}

/-- The outcome of an access to `length` bytes from `start` on, where there are `room`. -/
structure Accesses {α : Type} (room start length : Nat) (refusal : Error) (Addressed : α → Prop)
    (result : Except Error α) : Prop where
  inside : start + length < addressLimit → start + length ≤ room →
    ∃ a, result = .ok a ∧ Addressed a
  outside : start + length < addressLimit → room < start + length → result = .error refusal
  unaddressable : addressLimit ≤ start + length → result = .error .addressOverflow

theorem rangeEnd_of_le (h : addressLimit ≤ start + length) :
    rangeEnd start length = .error .addressOverflow := if_neg (Nat.not_lt.mpr h)

def IsRange (data : Bytes) (start length : Nat) (bytes : Bytes) : Prop :=
  bytes.length = length ∧ ∀ k < length, bytes[k]? = data[start + k]?

theorem isRange_of_drop_eq {bytes rest : Bytes} (h : data.drop start = bytes ++ rest) :
    IsRange data start bytes.length bytes := by
  refine ⟨rfl, fun k hk => ?_⟩
  rw [← List.getElem?_drop, h, List.getElem?_append_left hk]

theorem byteAt_accesses (data : Bytes) (start : Nat) :
    Accesses data.length start 1 (.invalidLength (start + 1) data.length)
      (fun b => IsRange data start 1 [b]) (byteAt data start) where
  inside hend hroom := by
    obtain ⟨b, hb⟩ := byteAt_of_lt hroom hend
    exact ⟨b, hb, isRange_of_drop_eq (byteAt_eq_ok hb)⟩
  outside hend hroom := by
    rw [byteAt, rangeEnd_of_lt hend, ok_bind, List.getElem?_eq_none (Nat.le_of_lt_succ hroom)]
    rfl
  unaddressable hend := by
    rw [byteAt, rangeEnd_of_le hend, error_bind]

theorem word32At_accesses (data : Bytes) (start : Nat) :
    Accesses data.length start 4 (.invalidLength (start + 4) data.length)
      (fun n => n < 0x1_0000_0000 ∧ IsRange data start 4 (word32 n)) (word32At data start) where
  inside hend hroom := by
    obtain ⟨n, hn⟩ := word32At_of_le hroom hend
    obtain ⟨hdrop, hlt⟩ := word32At_eq_ok hn
    exact ⟨n, hn, hlt, isRange_of_drop_eq hdrop⟩
  outside hend hroom := by
    have hshort : (data.drop start).length < 4 := by
      rw [List.length_drop]
      omega
    rw [word32At, rangeEnd_of_lt hend, ok_bind]
    split
    · next a b c d rest hdrop =>
      simp only [hdrop, List.length_cons] at hshort
      omega
    · rfl
  unaddressable hend := by
    rw [word32At, rangeEnd_of_le hend, error_bind]

theorem sliceAt_accesses (data : Bytes) (start length : Nat) :
    Accesses data.length start length (.invalidLength (start + length) data.length)
      (IsRange data start length) (sliceAt data start length) where
  inside hend hroom := by
    have hlength : ((data.drop start).take length).length = length := by
      rw [List.length_take, List.length_drop]
      omega
    have hrange := isRange_of_drop_eq (List.take_append_drop length (data.drop start)).symm
    rw [hlength] at hrange
    exact ⟨_, sliceAt_of_le hroom hend, hrange⟩
  outside hend hroom := by
    rw [sliceAt, rangeEnd_of_lt hend, ok_bind, requireLength, if_pos hroom, error_bind]
  unaddressable hend := by
    rw [sliceAt, rangeEnd_of_le hend, error_bind]

/-- One byte string is another with the bytes from a position on replaced. -/
structure IsReplaced (buffer : Bytes) (start : Nat) (data written : Bytes) : Prop where
  length_eq : written.length = buffer.length
  range : IsRange written start data.length data
  frame : ∀ k, k < start ∨ start + data.length ≤ k → written[k]? = buffer[k]?

theorem drop_overwrite {buffer : Bytes} (h : start ≤ buffer.length) :
    (overwrite buffer start data).drop start = data ++ buffer.drop (start + data.length) := by
  have hfront : (buffer.take start).length = start := List.length_take_of_le h
  rw [overwrite, List.append_assoc, List.drop_left' hfront]

theorem isReplaced_overwrite {buffer : Bytes} (h : start + data.length ≤ buffer.length) :
    IsReplaced buffer start data (overwrite buffer start data) where
  length_eq := length_overwrite h
  range := isRange_of_drop_eq (drop_overwrite (Nat.le_of_add_right_le h))
  frame k hk := by
    have hfront : (buffer.take start).length = start :=
      List.length_take_of_le (Nat.le_of_add_right_le h)
    rcases hk with hbefore | hbehind
    · rw [overwrite, List.append_assoc, List.getElem?_append_left (by omega),
        List.getElem?_take_of_lt hbefore]
    · have hwritten : (buffer.take start ++ data).length = start + data.length := by
        rw [List.length_append, hfront]
      rw [overwrite, List.getElem?_append_right (by omega), hwritten, List.getElem?_drop,
        Nat.add_sub_cancel' hbehind]

theorem putWord32_accesses (buffer : Bytes) (start value : Nat) :
    Accesses buffer.length start 4 (.bufferOverflow (start + 4) buffer.length)
      (IsReplaced buffer start (word32 value)) (putWord32 buffer start value) where
  inside hend hroom := ⟨_, putWord32_of_le value hroom hend, isReplaced_overwrite hroom⟩
  outside hend hroom := by
    rw [putWord32, rangeEnd_of_lt hend, ok_bind, requireRoom, if_pos hroom, error_bind]
  unaddressable hend := by
    rw [putWord32, rangeEnd_of_le hend, error_bind]

/-- Putting a word step by step: the bytes are stored behind the checks. -/
def storeWord32 (start value : Nat) : Work Bytes Unit := do
  let buffer ← get
  let stop ← ofExcept (rangeEnd start 4)
  ofExcept (requireRoom buffer.length stop)
  store start (word32 value)

theorem run_storeWord32 (buffer : Bytes) (start value : Nat) :
    (storeWord32 start value).run buffer = leaving buffer (putWord32 buffer start value) := by
  rw [storeWord32, run_get_bind]
  refine run_check_bind fun stop hstop => run_check_bind fun _ hroom => ?_
  -- room was checked up to the end that was worked out, and the bytes need it up to theirs
  obtain rfl : start + 4 = stop := by
    by_cases hend : start + 4 < addressLimit
    · exact Except.ok.inj ((rangeEnd_of_lt hend).symm.trans hstop)
    · cases (rangeEnd_of_le (Nat.not_lt.mp hend)).symm.trans hstop
  exact run_store (requireRoom_eq_ok_iff.mp hroom)

theorem word32At_of_drop_eq {n : Nat} {rest : Bytes} (hn : n < 0x1_0000_0000)
    (hend : start + 4 < addressLimit) (h : data.drop start = word32 n ++ rest) :
    word32At data start = .ok n := by
  rw [word32At, rangeEnd_of_lt hend, ok_bind, h]
  exact congrArg Except.ok (value32_ofNat hn)

theorem putWord32_eq_ok {buffer written : Bytes} {value : Nat}
    (h : putWord32 buffer start value = .ok written) :
    start + 4 < addressLimit ∧ start + 4 ≤ buffer.length ∧
      written = overwrite buffer start (word32 value) := by
  have haccess := putWord32_accesses buffer start value
  by_cases hend : start + 4 < addressLimit
  · by_cases hroom : start + 4 ≤ buffer.length
    · cases (putWord32_of_le value hroom hend).symm.trans h
      exact ⟨hend, hroom, rfl⟩
    · cases (haccess.outside hend (Nat.not_le.mp hroom)).symm.trans h
  · cases (haccess.unaddressable (Nat.not_lt.mp hend)).symm.trans h

theorem word32At_of_putWord32 {buffer written : Bytes} {value : Nat}
    (hvalue : value < 0x1_0000_0000)
    (h : putWord32 buffer start value = .ok written) : word32At written start = .ok value := by
  obtain ⟨hend, hroom, rfl⟩ := putWord32_eq_ok h
  exact word32At_of_drop_eq hvalue hend (drop_overwrite (Nat.le_of_add_right_le hroom))

/-- A range that ends inside is read as all of its bytes, and a word is put over its own range and
nothing else. A range that ends outside is refused with its end, or the access breaks off where that
is no address. Only a word that is put changes a buffer, and it is read back from there. -/
theorem accesses_exact (data : Bytes) (start length : Nat) (value : UInt32) :
    Accesses data.length start 1 (.invalidLength (start + 1) data.length)
      (fun b => IsRange data start 1 [b]) (byteAt data start) ∧
    Accesses data.length start 4 (.invalidLength (start + 4) data.length)
      (fun n => n < 0x1_0000_0000 ∧ IsRange data start 4 (word32 n)) (word32At data start) ∧
    Accesses data.length start length (.invalidLength (start + length) data.length)
      (IsRange data start length) (sliceAt data start length) ∧
    Accesses data.length start 4 (.bufferOverflow (start + 4) data.length)
      (IsReplaced data start (word32 value.toNat)) (putWord32 data start value.toNat) ∧
    (storeWord32 start value.toNat).run data =
      leaving data (putWord32 data start value.toNat) ∧
    ∀ written, putWord32 data start value.toNat = .ok written →
      word32At written start = .ok value.toNat :=
  ⟨byteAt_accesses data start, word32At_accesses data start, sliceAt_accesses data start length,
    putWord32_accesses data start value.toNat, run_storeWord32 data start value.toNat,
    fun _ hput => word32At_of_putWord32 value.toNat_lt hput⟩

/-- From the last address on nothing can be read or put, and no access refuses to. -/
theorem exists_unaddressable : ∃ (data : Bytes) (start : Nat), start < addressLimit ∧
    data.length < start + 1 ∧
    (∀ least actual, byteAt data start ≠ .error (.invalidLength least actual)) ∧
    (∀ least actual, word32At data start ≠ .error (.invalidLength least actual)) ∧
    (∀ least actual, sliceAt data start 1 ≠ .error (.invalidLength least actual)) ∧
    ∀ value needed available,
      putWord32 data start value ≠ .error (.bufferOverflow needed available) := by
  refine ⟨[6], addressLimit - 1, by decide, by decide, ?_, ?_, ?_, ?_⟩
  · rw [(byteAt_accesses _ _).unaddressable (by decide)]
    exact fun _ _ => nofun
  · rw [(word32At_accesses _ _).unaddressable (by decide)]
    exact fun _ _ => nofun
  · rw [(sliceAt_accesses _ _ _).unaddressable (by decide)]
    exact fun _ _ => nofun
  · intro value
    rw [(putWord32_accesses _ _ _).unaddressable (by decide)]
    exact fun _ _ => nofun

end NearField.Bytes
