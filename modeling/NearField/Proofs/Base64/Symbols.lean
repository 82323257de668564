import NearField.Base64

/-! # Symbols of a byte string

A byte string has one text of symbols, four for each group of three bytes. Whole groups of symbols
are read back as the bytes that they were written for, and only those.
-/
namespace NearField.Base64

def symbolByte (v : Nat) : UInt8 := UInt8.ofNat (symbol v).toNat

theorem sextet?_eq_some_iff {b : UInt8} {v : Nat} :
    sextet? b = some v ↔ v < 64 ∧ b = symbolByte v := by
  constructor
  · intro h
    have hall : ∀ b, (sextet? b).all (fun v => b == symbolByte v) = true :=
      Bytes.forall_byte (by decide +kernel)
    have hb := hall b
    simp only [h, Option.all_some, beq_iff_eq] at hb
    exact ⟨sextet?_lt h, hb⟩
  · rintro ⟨hv, rfl⟩
    exact sextet?_symbol hv

theorem ne_padding_of_sextet? {b : UInt8} {v : Nat} (h : sextet? b = some v) : b ≠ padding := by
  rintro rfl
  rw [sextet?_padding] at h
  cases h

theorem symbol_lt {v : Nat} (h : v < 64) : (symbol v).toNat < 128 := by
  have hall : ∀ v : Fin 64, (symbol v.val).toNat < 128 := by decide
  exact hall ⟨v, h⟩

def symbols (data : Bytes) : Bytes := Text.utf8 (encode data)

theorem utf8_symbol_cons {v : Nat} (h : v < 64) (t : Text) :
    Text.utf8 (symbol v :: t) = symbolByte v :: Text.utf8 t := by
  have hs := symbol_lt h
  have hc : String.utf8EncodeChar (symbol v) = [symbolByte v] := by
    unfold String.utf8EncodeChar symbolByte
    exact if_pos (Nat.le_of_lt_succ hs)
  simp [Text.utf8, hc]

theorem symbols_group (a b c : UInt8) (rest : Bytes) :
    symbols (a :: b :: c :: rest) = symbolByte (a.toNat / 4) ::
      symbolByte (a.toNat % 4 * 16 + b.toNat / 16) ::
      symbolByte (b.toNat % 16 * 4 + c.toNat / 64) :: symbolByte (c.toNat % 64) ::
      symbols rest := by
  have ha := a.toNat_lt
  have hb := b.toNat_lt
  have hc := c.toNat_lt
  rw [symbols, encode, utf8_symbol_cons (by omega), utf8_symbol_cons (by omega),
    utf8_symbol_cons (by omega), utf8_symbol_cons (by omega), symbols]

theorem symbols_two (a b : UInt8) :
    symbols [a, b] = [symbolByte (a.toNat / 4), symbolByte (a.toNat % 4 * 16 + b.toNat / 16),
      symbolByte (b.toNat % 16 * 4)] := by
  have ha := a.toNat_lt
  have hb := b.toNat_lt
  rw [symbols, encode, utf8_symbol_cons (by omega), utf8_symbol_cons (by omega),
    utf8_symbol_cons (by omega)]
  rfl

theorem symbols_one (a : UInt8) :
    symbols [a] = [symbolByte (a.toNat / 4), symbolByte (a.toNat % 4 * 16)] := by
  have ha := a.toNat_lt
  rw [symbols, encode, utf8_symbol_cons (by omega), utf8_symbol_cons (by omega)]
  rfl

theorem symbols_nil : symbols [] = [] := rfl

theorem length_symbols (data : Bytes) : (symbols data).length = unpaddedLength data.length := by
  fun_induction encode data with
  | case1 a b c rest ih =>
    simp only [symbols_group, List.length_cons, ih, unpaddedLength]
    omega
  | case2 a b => simp [symbols_two, unpaddedLength]
  | case3 a => simp [symbols_one, unpaddedLength]
  | case4 => rfl

theorem symbols_append {whole : Bytes} (h : 3 ∣ whole.length) (ending : Bytes) :
    symbols (whole ++ ending) = symbols whole ++ symbols ending := by
  fun_induction encode whole with
  | case1 a b c rest ih =>
    have hr : 3 ∣ rest.length := by
      simp only [List.length_cons] at h
      omega
    simp only [List.cons_append, symbols_group, ih hr]
  | case2 => simp at h
  | case3 => simp at h
  | case4 => rfl

theorem sextetAt_symbolByte {v : Nat} (h : v < 64) (offset : Nat) :
    sextetAt offset (symbolByte v) = .ok v := by
  have hs : sextet? (symbolByte v) = some v := sextet?_symbol h
  rw [sextetAt, hs]

theorem sextetAt_eq_ok_iff {offset v : Nat} {b : UInt8} :
    sextetAt offset b = .ok v ↔ v < 64 ∧ b = symbolByte v := by
  rw [← sextet?_eq_some_iff, sextetAt]
  cases sextet? b <;> simp

theorem groups_symbols (offset : Nat) {data : Bytes} (h : 3 ∣ data.length) :
    groups offset (symbols data) = .ok data := by
  fun_induction encode data generalizing offset with
  | case1 a b c rest ih =>
    have ha := a.toNat_lt
    have hb := b.toNat_lt
    have hc := c.toNat_lt
    have hr : 3 ∣ rest.length := by
      simp only [List.length_cons] at h
      omega
    rw [symbols_group, groups, sextetAt_symbolByte (by omega), sextetAt_symbolByte (by omega),
      sextetAt_symbolByte (by omega), sextetAt_symbolByte (by omega), ih _ hr]
    simp only [bind, Except.bind, pure, Except.pure, Except.ok.injEq, List.cons.injEq, and_true]
    refine ⟨?_, ?_, ?_⟩ <;> exact Bytes.ofNat_eq_of_mod (by omega)
  | case2 => simp at h
  | case3 => simp at h
  | case4 => rfl

theorem symbols_of_groups {offset : Nat} {text data : Bytes} (hl : 4 ∣ text.length)
    (h : groups offset text = .ok data) : symbols data = text ∧ 3 ∣ data.length := by
  fun_induction groups offset text generalizing data with
  | case1 offset s t u v rest ih =>
    have hr : 4 ∣ rest.length := by
      simp only [List.length_cons] at hl
      omega
    simp only [bind, Except.bind] at h
    cases hs : sextetAt offset s with
    | error => simp [hs] at h
    | ok a =>
    cases ht : sextetAt (offset + 1) t with
    | error => simp [hs, ht] at h
    | ok b =>
    cases hu : sextetAt (offset + 2) u with
    | error => simp [hs, ht, hu] at h
    | ok c =>
    cases hv : sextetAt (offset + 3) v with
    | error => simp [hs, ht, hu, hv] at h
    | ok d =>
    cases hg : groups (offset + 4) rest with
    | error => simp [hs, ht, hu, hv, hg] at h
    | ok tail =>
    obtain ⟨ha, rfl⟩ := sextetAt_eq_ok_iff.mp hs
    obtain ⟨hb, rfl⟩ := sextetAt_eq_ok_iff.mp ht
    obtain ⟨hc, rfl⟩ := sextetAt_eq_ok_iff.mp hu
    obtain ⟨hd, rfl⟩ := sextetAt_eq_ok_iff.mp hv
    obtain ⟨hsym, hdvd⟩ := ih hr hg
    simp only [hs, ht, hu, hv, hg, pure, Except.pure, Except.ok.injEq] at h
    subst h
    refine ⟨?_, by simp only [List.length_cons]; omega⟩
    rw [symbols_group, hsym]
    simp only [UInt8.toNat_ofNat', List.cons.injEq, and_true]
    refine ⟨?_, ?_, ?_, ?_⟩ <;> congr 1 <;> omega
  | case2 text offset hshort =>
    cases h
    match text, hshort with
    | [], _ => exact ⟨rfl, by simp⟩
    | [_], _ => simp at hl
    | [_, _], _ => simp at hl
    | [_, _, _], _ => simp at hl
    | s :: t :: u :: v :: rest, hshort => exact absurd rfl (hshort s t u v rest)

end NearField.Base64
