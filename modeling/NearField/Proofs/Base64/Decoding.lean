import NearField.Proofs.Base64.Symbols

/-! # Decoding of symbols

The last group of a text may hold fewer symbols, and padding behind them. A text decodes to a byte
string if and only if it is the symbols of the byte string with some of that padding.
-/
namespace NearField.Base64

def Marked (marks : List (UInt8 × Nat)) : Prop := ∀ p ∈ marks, sextet? p.1 = some p.2

theorem Marked.eq_symbolByte {marks : List (UInt8 × Nat)} (hm : Marked marks) {b : UInt8} {v : Nat}
    (h : (b, v) ∈ marks) : v < 64 ∧ b = symbolByte v :=
  sextet?_eq_some_iff.mp (hm (b, v) h)

theorem lastSymbols_padding (offset place k : Nat) (first? : Option Nat) (h : 2 ≤ place) :
    lastSymbols offset place first? (List.replicate k padding) = .ok [] := by
  induction k generalizing place first? with
  | zero => rfl
  | succ k ih =>
    rw [List.replicate_succ, lastSymbols.eq_def]
    simp only [if_true, if_neg (Nat.not_lt.mpr h)]
    exact ih (place + 1) _ (by omega)

theorem lastSymbols_of_marked {marks : List (UInt8 × Nat)} (hm : Marked marks)
    (offset place k : Nat) (h : 2 ≤ place + marks.length) :
    lastSymbols offset place none (marks.map Prod.fst ++ List.replicate k padding) =
      .ok marks := by
  induction marks generalizing place with
  | nil => exact lastSymbols_padding offset place k none h
  | cons p marks ih =>
    have hp := hm p List.mem_cons_self
    have hne := ne_padding_of_sextet? hp
    have hrest := ih (fun q hq => hm q (List.mem_cons_of_mem _ hq)) (place + 1)
      (by simp only [List.length_cons] at h; omega)
    rw [List.map_cons, List.cons_append, lastSymbols, if_neg hne, sextetAt, hp]
    simp only [bind, Except.bind, hrest, pure, Except.pure]

/-- Once padding has begun, nothing but padding is read. -/
theorem eq_padding_of_lastSymbols {offset place first : Nat} {text : Bytes}
    {marks : List (UInt8 × Nat)} (h : lastSymbols offset place (some first) text = .ok marks) :
    marks = [] ∧ text = List.replicate text.length padding := by
  induction text generalizing place first with
  | nil =>
    cases h
    exact ⟨rfl, rfl⟩
  | cons b rest ih =>
    rw [lastSymbols] at h
    by_cases hb : b = padding
    · rw [if_pos hb] at h
      by_cases hp : place < 2
      · rw [if_pos hp] at h
        cases h
      · rw [if_neg hp] at h
        obtain ⟨hmarks, hrest⟩ := ih h
        refine ⟨hmarks, ?_⟩
        rw [List.length_cons, List.replicate_succ, ← hrest, hb]
    · rw [if_neg hb] at h
      cases h

theorem marked_of_lastSymbols {offset place : Nat} {text : Bytes} {marks : List (UInt8 × Nat)}
    (h : lastSymbols offset place none text = .ok marks) :
    Marked marks ∧ ∃ k, text = marks.map Prod.fst ++ List.replicate k padding := by
  induction text generalizing place marks with
  | nil =>
    cases h
    exact ⟨by simp [Marked], 0, rfl⟩
  | cons b rest ih =>
    rw [lastSymbols] at h
    by_cases hb : b = padding
    · rw [if_pos hb] at h
      by_cases hp : place < 2
      · rw [if_pos hp] at h
        cases h
      · rw [if_neg hp] at h
        obtain ⟨rfl, hrest⟩ := eq_padding_of_lastSymbols h
        refine ⟨by simp [Marked], rest.length + 1, ?_⟩
        rw [List.replicate_succ, ← hrest, hb]
        rfl
    · rw [if_neg hb] at h
      cases hv : sextetAt (offset + place) b with
      | error => simp [hv, bind, Except.bind] at h
      | ok v =>
        cases ht : lastSymbols offset (place + 1) none rest with
        | error => simp [hv, ht, bind, Except.bind] at h
        | ok tail =>
          simp only [hv, ht, bind, Except.bind, pure, Except.pure, Except.ok.injEq] at h
          subst h
          obtain ⟨hm, k, hk⟩ := ih ht
          refine ⟨?_, k, by rw [hk]; rfl⟩
          intro p hp
          rcases List.mem_cons.mp hp with rfl | hp
          · exact sextet?_eq_some_iff.mpr (sextetAt_eq_ok_iff.mp hv)
          · exact hm p hp

theorem lastBytes_symbols (offset : Nat) {ending : Bytes} (h₁ : ending ≠ [])
    (h₃ : ending.length ≤ 3) :
    ∃ marks, Marked marks ∧ marks.map Prod.fst = symbols ending ∧
      lastBytes offset marks = .ok ending := by
  match ending with
  | [a] =>
    have ha := a.toNat_lt
    refine ⟨[(symbolByte (a.toNat / 4), a.toNat / 4),
      (symbolByte (a.toNat % 4 * 16), a.toNat % 4 * 16)], ?_, (symbols_one a).symm, ?_⟩
    · simp only [Marked, List.forall_mem_cons]
      exact ⟨sextet?_symbol (by omega), sextet?_symbol (by omega), by simp⟩
    · rw [lastBytes, if_pos (by omega)]
      simp only [Except.ok.injEq, List.cons.injEq, and_true]
      exact Bytes.ofNat_eq_of_mod (by omega)
  | [a, b] =>
    have ha := a.toNat_lt
    have hb := b.toNat_lt
    refine ⟨[(symbolByte (a.toNat / 4), a.toNat / 4),
      (symbolByte (a.toNat % 4 * 16 + b.toNat / 16), a.toNat % 4 * 16 + b.toNat / 16),
      (symbolByte (b.toNat % 16 * 4), b.toNat % 16 * 4)], ?_, (symbols_two a b).symm, ?_⟩
    · simp only [Marked, List.forall_mem_cons]
      exact ⟨sextet?_symbol (by omega), sextet?_symbol (by omega), sextet?_symbol (by omega),
        by simp⟩
    · rw [lastBytes, if_pos (by omega)]
      simp only [Except.ok.injEq, List.cons.injEq, and_true]
      constructor <;> exact Bytes.ofNat_eq_of_mod (by omega)
  | [a, b, c] =>
    have ha := a.toNat_lt
    have hb := b.toNat_lt
    have hc := c.toNat_lt
    refine ⟨[(symbolByte (a.toNat / 4), a.toNat / 4),
      (symbolByte (a.toNat % 4 * 16 + b.toNat / 16), a.toNat % 4 * 16 + b.toNat / 16),
      (symbolByte (b.toNat % 16 * 4 + c.toNat / 64), b.toNat % 16 * 4 + c.toNat / 64),
      (symbolByte (c.toNat % 64), c.toNat % 64)], ?_, (symbols_group a b c []).symm, ?_⟩
    · simp only [Marked, List.forall_mem_cons]
      exact ⟨sextet?_symbol (by omega), sextet?_symbol (by omega), sextet?_symbol (by omega),
        sextet?_symbol (by omega), by simp⟩
    · rw [lastBytes]
      simp only [Except.ok.injEq, List.cons.injEq, and_true]
      refine ⟨?_, ?_, ?_⟩ <;> exact Bytes.ofNat_eq_of_mod (by omega)
  | _ :: _ :: _ :: _ :: _ =>
    simp only [List.length_cons] at h₃
    omega

theorem symbols_of_lastBytes {offset : Nat} {marks : List (UInt8 × Nat)} {ending : Bytes}
    (hm : Marked marks) (h : lastBytes offset marks = .ok ending) :
    symbols ending = marks.map Prod.fst ∧ 2 ≤ marks.length ∧ ending ≠ [] := by
  unfold lastBytes at h
  split at h
  · next s a t b =>
    split at h
    · next h0 =>
      cases h
      obtain ⟨ha, rfl⟩ := hm.eq_symbolByte (show (s, a) ∈ _ by simp)
      obtain ⟨hb, rfl⟩ := hm.eq_symbolByte (show (t, b) ∈ _ by simp)
      refine ⟨?_, by simp, by simp⟩
      simp only [symbols_one, UInt8.toNat_ofNat', List.map_cons, List.map_nil, List.cons.injEq,
        and_true]
      constructor <;> congr 1 <;> omega
    · cases h
  · next s a t b u c =>
    split at h
    · next h0 =>
      cases h
      obtain ⟨ha, rfl⟩ := hm.eq_symbolByte (show (s, a) ∈ _ by simp)
      obtain ⟨hb, rfl⟩ := hm.eq_symbolByte (show (t, b) ∈ _ by simp)
      obtain ⟨hc, rfl⟩ := hm.eq_symbolByte (show (u, c) ∈ _ by simp)
      refine ⟨?_, by simp, by simp⟩
      simp only [symbols_two, UInt8.toNat_ofNat', List.map_cons, List.map_nil, List.cons.injEq,
        and_true]
      refine ⟨?_, ?_, ?_⟩ <;> congr 1 <;> omega
    · cases h
  · next s a t b u c v d =>
    cases h
    obtain ⟨ha, rfl⟩ := hm.eq_symbolByte (show (s, a) ∈ _ by simp)
    obtain ⟨hb, rfl⟩ := hm.eq_symbolByte (show (t, b) ∈ _ by simp)
    obtain ⟨hc, rfl⟩ := hm.eq_symbolByte (show (u, c) ∈ _ by simp)
    obtain ⟨hd, rfl⟩ := hm.eq_symbolByte (show (v, d) ∈ _ by simp)
    refine ⟨?_, by simp, by simp⟩
    simp only [symbols_group, symbols_nil, UInt8.toNat_ofNat', List.map_cons, List.map_nil,
      List.cons.injEq, and_true]
    refine ⟨?_, ?_, ?_, ?_⟩ <;> congr 1 <;> omega
  · cases h

def paddingRoom (count : Nat) : Nat := (4 - count % 4) % 4

theorem exists_last_group {data : Bytes} (h : data ≠ []) :
    ∃ whole ending, data = whole ++ ending ∧ 3 ∣ whole.length ∧ ending ≠ [] ∧
      ending.length ≤ 3 := by
  have hpos := List.length_pos_iff.mpr h
  refine ⟨data.take ((data.length - 1) / 3 * 3), data.drop ((data.length - 1) / 3 * 3),
    (List.take_append_drop _ _).symm, ?_, ?_, ?_⟩
  · rw [List.length_take, Nat.min_eq_left (by omega)]
    exact Nat.dvd_mul_left 3 _
  · rw [← List.length_pos_iff, List.length_drop]
    omega
  · rw [List.length_drop]
    omega

theorem decode_nil (room : Nat) : decode [] room = .ok [] := by
  simp [decode, checkLoneEnd, lastStart, groups, bind, Except.bind, pure, Except.pure]

/-- A text is read in the room that its bytes take, and in no less. -/
theorem decode_symbols (data : Bytes) {k : Nat} (hk : k ≤ paddingRoom (symbols data).length)
    (room : Nat) :
    decode (symbols data ++ List.replicate k padding) room =
      if data.length ≤ room then .ok data else .error .noRoom := by
  by_cases hdata : data = []
  · subst hdata
    have hk0 : k = 0 := by simpa [paddingRoom, symbols_nil] using hk
    subst hk0
    simpa [symbols_nil] using decode_nil room
  obtain ⟨whole, ending, rfl, hwhole, hne, h₃⟩ := exists_last_group hdata
  have hpos := List.length_pos_iff.mpr hne
  obtain ⟨marks, hm, hmarks, hlast⟩ := lastBytes_symbols (symbols whole).length hne h₃
  have hlw := length_symbols whole
  have hle := length_symbols ending
  have hlm := congrArg List.length hmarks
  rw [symbols_append hwhole] at hk ⊢
  simp only [List.length_append, List.length_map, paddingRoom, unpaddedLength] at hk hlm hlw hle
  rw [List.append_assoc]
  have hstart : lastStart (symbols whole ++ (symbols ending ++ List.replicate k padding)).length =
      (symbols whole).length := by
    simp only [lastStart, List.length_append, List.length_replicate]
    omega
  have hlone : checkLoneEnd (symbols whole ++ (symbols ending ++ List.replicate k padding)) =
      .ok () := by
    rw [checkLoneEnd, hstart, List.drop_left]
    split
    · next b hb =>
      have hlb := congrArg List.length hb
      simp only [List.length_append, List.length_replicate, List.length_singleton] at hlb
      omega
    · rfl
  have hempty :
      (symbols whole ++ (symbols ending ++ List.replicate k padding)).isEmpty = false := by
    rw [List.isEmpty_eq_false_iff, ← List.length_pos_iff]
    simp only [List.length_append]
    omega
  rw [decode, hlone]
  simp only [bind, Except.bind, hstart, List.take_left, List.drop_left, hempty,
    groups_symbols 0 hwhole, Bool.false_eq_true, if_false]
  rw [← hmarks, lastSymbols_of_marked hm _ 0 k (by omega)]
  simp only [hlast, pure, Except.pure, List.length_append]
  by_cases hq : room < (symbols whole).length / 4 * 3
  · have hshort : ¬ whole.length + ending.length ≤ room := by omega
    rw [if_pos hq, if_neg hshort]
    rfl
  · rw [if_neg hq]
    by_cases hr : whole.length + ending.length ≤ room
    · rw [if_pos hr, if_neg (Nat.not_lt.mpr hr)]
    · rw [if_neg hr, if_pos (Nat.lt_of_not_le hr)]
      rfl

theorem symbols_of_decode {text data : Bytes} {room : Nat} (h : decode text room = .ok data) :
    (∃ k ≤ paddingRoom (symbols data).length, text = symbols data ++ List.replicate k padding) ∧
      data.length ≤ room := by
  by_cases htext : text = []
  · subst htext
    rw [decode_nil] at h
    cases h
    exact ⟨⟨0, Nat.zero_le _, rfl⟩, Nat.zero_le _⟩
  have hpos := List.length_pos_iff.mpr htext
  rw [decode] at h
  simp only [bind, Except.bind, pure, Except.pure] at h
  cases hlone : checkLoneEnd text with
  | error => simp [hlone] at h
  | ok =>
  simp only [hlone] at h
  by_cases hq : room < lastStart text.length / 4 * 3
  · rw [if_pos hq] at h
    cases h
  rw [if_neg hq] at h
  cases hg : groups 0 (text.take (lastStart text.length)) with
  | error => simp [hg] at h
  | ok whole =>
  simp only [hg, List.isEmpty_iff, htext, if_false] at h
  cases hs : lastSymbols (lastStart text.length) 0 none (text.drop (lastStart text.length)) with
  | error => simp [hs] at h
  | ok marks =>
  simp only [hs] at h
  cases hb : lastBytes (lastStart text.length) marks with
  | error => simp [hb] at h
  | ok ending =>
  simp only [hb] at h
  by_cases hr : room < whole.length + ending.length
  · rw [if_pos hr] at h
    cases h
  rw [if_neg hr] at h
  cases h
  have hstart : lastStart text.length = (text.length - 1) / 4 * 4 := rfl
  have hlt : (text.take (lastStart text.length)).length = lastStart text.length := by
    rw [List.length_take]
    omega
  obtain ⟨hwhole, hdvd⟩ := symbols_of_groups (by rw [hlt]; exact Nat.dvd_mul_left 4 _) hg
  obtain ⟨hm, k, hk⟩ := marked_of_lastSymbols hs
  obtain ⟨hending, htwo, -⟩ := symbols_of_lastBytes hm hb
  have hlk := congrArg List.length hk
  have hle := congrArg List.length hending
  simp only [List.length_drop, List.length_append, List.length_map, List.length_replicate]
    at hlk hle
  refine ⟨⟨k, ?_, ?_⟩, by rw [List.length_append]; omega⟩
  · rw [symbols_append hdvd, hwhole, List.length_append, hlt, paddingRoom]
    omega
  · rw [symbols_append hdvd, hwhole, hending, List.append_assoc, ← hk, List.take_append_drop]

end NearField.Base64
