import NearField.Base64.Field
import NearField.Proofs.Base64.Decoding

/-! # What a base64url text stands for

The texts of a byte string are its symbols, followed by some part of the padding that completes the
last group. Reading accepts just these texts, in just the room that the bytes take.
-/
namespace NearField.Base64

/-- The symbols of a byte string, with none, some or all of the padding. -/
def Spells (t : Text) (data : Bytes) : Prop :=
  ∃ k ≤ paddingRoom (encode data).length, t = encode data ++ List.replicate k '='

theorem spells_encode (data : Bytes) : Spells (encode data) data :=
  ⟨0, Nat.zero_le _, (List.append_nil _).symm⟩

theorem utf8_padding (k : Nat) : Text.utf8 (List.replicate k '=') = List.replicate k padding := by
  induction k with
  | zero => rfl
  | succ k ih =>
    rw [List.replicate_succ, List.replicate_succ, ← ih]
    rfl

theorem eq_of_utf8_eq {s t : Text} (h : Text.utf8 s = Text.utf8 t) : s = t := by
  have hs := List.utf8Decode?_utf8Encode (l := s)
  have ht := List.utf8Decode?_utf8Encode (l := t)
  have he : s.utf8Encode = t.utf8Encode := congrArg List.toByteArray h
  rw [he, ht] at hs
  simpa using hs.symm

theorem length_encode_eq (data : Bytes) : (encode data).length = (symbols data).length := by
  rw [length_encode, length_symbols]

theorem decode_utf8_eq_ok_iff {t : Text} {data : Bytes} {room : Nat} :
    decode (Text.utf8 t) room = .ok data ↔ Spells t data ∧ data.length ≤ room := by
  constructor
  · intro h
    obtain ⟨⟨k, hk, ht⟩, hroom⟩ := symbols_of_decode h
    refine ⟨⟨k, by rwa [length_encode_eq], ?_⟩, hroom⟩
    apply eq_of_utf8_eq
    rw [ht, Text.utf8_append, utf8_padding, symbols]
  · rintro ⟨⟨k, hk, rfl⟩, hroom⟩
    rw [length_encode_eq] at hk
    rw [Text.utf8_append, utf8_padding]
    exact (decode_symbols data hk room).trans (if_pos hroom)

theorem Spells.unique {t : Text} {data data' : Bytes} (h : Spells t data) (h' : Spells t data') :
    data = data' := by
  have hd := decode_utf8_eq_ok_iff.mpr ⟨h, Nat.le_max_left data.length data'.length⟩
  have hd' := decode_utf8_eq_ok_iff.mpr ⟨h', Nat.le_max_right data.length data'.length⟩
  rw [hd] at hd'
  exact Except.ok.inj hd'

theorem encode_injective {data data' : Bytes} (h : encode data = encode data') :
    data = data' := by
  have hspells := spells_encode data
  rw [h] at hspells
  exact hspells.unique (spells_encode data')

theorem Spells.nil_iff {t : Text} {data : Bytes} (h : Spells t data) : t = [] ↔ data = [] := by
  obtain ⟨k, hk, rfl⟩ := h
  rw [length_encode] at hk
  constructor
  · intro ht
    have hl := congrArg List.length (List.append_eq_nil_iff.mp ht).1
    rw [length_encode, List.length_nil, unpaddedLength] at hl
    rw [← List.length_eq_zero_iff]
    omega
  · rintro rfl
    rw [Nat.le_zero.mp hk]
    rfl

theorem Spells.isEmpty_eq {t : Text} {data : Bytes} (h : Spells t data) :
    t.isEmpty = data.isEmpty := by
  rw [Bool.eq_iff_iff, List.isEmpty_iff, List.isEmpty_iff]
  exact h.nil_iff

theorem symbol_ne_padding {v : Nat} (h : v < 64) : symbol v ≠ '=' := by
  have hall : ∀ v : Fin 64, symbol v.val ≠ '=' := by decide
  exact hall ⟨v, h⟩

theorem exists_symbol_of_mem_encode {data : Bytes} {c : Char} (h : c ∈ encode data) :
    ∃ v < 64, c = symbol v := by
  fun_induction encode data with
  | case1 a b d rest ih =>
    have ha := a.toNat_lt
    have hb := b.toNat_lt
    have hd := d.toNat_lt
    simp only [List.mem_cons] at h
    rcases h with h | h | h | h | h
    · exact ⟨_, by omega, h⟩
    · exact ⟨_, by omega, h⟩
    · exact ⟨_, by omega, h⟩
    · exact ⟨_, by omega, h⟩
    · exact ih h
  | case2 a b =>
    have ha := a.toNat_lt
    have hb := b.toNat_lt
    simp only [List.mem_cons, List.not_mem_nil, or_false] at h
    rcases h with h | h | h <;> exact ⟨_, by omega, h⟩
  | case3 a =>
    have ha := a.toNat_lt
    simp only [List.mem_cons, List.not_mem_nil, or_false] at h
    rcases h with h | h <;> exact ⟨_, by omega, h⟩
  | case4 => cases h

theorem dropEndWhile_padding (data : Bytes) (k : Nat) :
    Text.dropEndWhile (· == '=') (encode data ++ List.replicate k '=') = encode data := by
  rw [Text.dropEndWhile_append_of_all _ (by simp)]
  cases hr : (encode data).reverse with
  | nil => simp [Text.dropEndWhile, List.reverse_eq_nil_iff.mp hr]
  | cons c rest =>
    have hc : c ∈ encode data := by
      rw [← List.mem_reverse, hr]
      exact List.mem_cons_self
    obtain ⟨v, hv, rfl⟩ := exists_symbol_of_mem_encode hc
    rw [Text.dropEndWhile, hr, List.dropWhile_cons_of_neg (by simpa using symbol_ne_padding hv),
      ← hr, List.reverse_reverse]

theorem Spells.dropEndWhile_eq {t : Text} {data : Bytes} (h : Spells t data) :
    Text.dropEndWhile (· == '=') t = encode data := by
  obtain ⟨k, -, rfl⟩ := h
  exact dropEndWhile_padding data k

theorem decodedLength_of_spells {t : Text} {data : Bytes} (h : Spells t data) :
    decodedLength t = data.length := by
  rw [decodedLength, h.dropEndWhile_eq]
  have hl := length_symbols data
  unfold symbols unpaddedLength at hl
  omega

theorem writeField_eq {data : Bytes} {room : Nat} (h : unpaddedLength data.length ≤ room) :
    writeField data room = .ok (encode data) :=
  if_neg (Nat.not_lt.mpr h)

theorem writeField_eq_ok_iff {data : Bytes} {room : Nat} {t : Text} :
    writeField data room = .ok t ↔ unpaddedLength data.length ≤ room ∧ t = encode data := by
  by_cases h : unpaddedLength data.length ≤ room
  · rw [writeField_eq h]
    simp [h, eq_comm]
  · rw [writeField, if_pos (Nat.not_le.mp h)]
    simp [h]

theorem readField_eq_ok_iff {t : Text} {data : Bytes} {room : Nat} :
    readField t room = .ok data ↔ Spells t data ∧ data.length ≤ room := by
  rw [← decode_utf8_eq_ok_iff, readField]
  split <;> simp_all

theorem readField_of_short {t : Text} {data : Bytes} {room : Nat} (h : Spells t data)
    (hroom : room < data.length) :
    readField t room = .error (.bufferOverflow data.length room) := by
  have hlen := decodedLength_of_spells h
  obtain ⟨k, hk, rfl⟩ := h
  rw [length_encode_eq] at hk
  have hd := decode_symbols data hk room
  rw [if_neg (Nat.not_le.mpr hroom)] at hd
  simp only [readField, Text.utf8_append, utf8_padding, hlen]
  rw [← symbols, hd]

theorem readInto_behind (t : Text) (front rest : Bytes) :
    readInto t (front ++ rest) front.length = (readField t rest.length).map fun data =>
      (front ++ data ++ rest.drop data.length, data.length) := by
  have hroom : (front ++ rest).length - front.length = rest.length := by simp
  rw [readInto, hroom]
  cases readField t rest.length with
  | error e => rfl
  | ok data => simp [Bytes.overwrite_behind]

end NearField.Base64
