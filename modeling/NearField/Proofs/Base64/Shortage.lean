import Mathlib.Data.List.DropRight
import NearField.Proofs.Base64.Spelling

/-! # Shortages of a field

Reading refuses a text for lack of room before it knows the bytes of the text: the room for the
whole groups is counted with the padding among them. What is reported as needed is counted without
padding. So a report of too little room is true just if the padding of the text stays in its last
group.
-/
namespace NearField.Base64

/-- The padding at the end fills the last group and reaches into the group before it. -/
def Overpadded (t : Text) : Prop :=
  (Text.utf8 (Text.dropEndWhile (· == '=') t)).length < lastStart (Text.utf8 t).length

instance (t : Text) : Decidable (Overpadded t) := inferInstanceAs (Decidable (_ < _))

theorem bind_eq_noRoom_iff {α β : Type} {x : Except Refusal α} {f : α → Except Refusal β} :
    (x >>= f) = .error .noRoom ↔
      x = .error .noRoom ∨ ∃ a, x = .ok a ∧ f a = .error .noRoom := by
  cases x <;> simp [bind, Except.bind]

theorem bind_ne_noRoom {α β : Type} {x : Except Refusal α} {f : α → Except Refusal β}
    (hx : x ≠ .error .noRoom) (hf : ∀ a, f a ≠ .error .noRoom) : (x >>= f) ≠ .error .noRoom := by
  intro h
  rcases bind_eq_noRoom_iff.mp h with h | ⟨a, -, h⟩
  · exact hx h
  · exact hf a h

theorem checkLoneEnd_ne_noRoom (text : Bytes) : checkLoneEnd text ≠ .error .noRoom := by
  unfold checkLoneEnd
  split
  · split <;> simp
  · simp

theorem sextetAt_ne_noRoom (offset : Nat) (b : UInt8) : sextetAt offset b ≠ .error .noRoom := by
  unfold sextetAt
  split <;> simp

theorem groups_ne_noRoom (offset : Nat) (text : Bytes) : groups offset text ≠ .error .noRoom := by
  fun_induction groups offset text with
  | case1 offset s t u v rest ih =>
    refine bind_ne_noRoom (sextetAt_ne_noRoom _ _) fun a => ?_
    refine bind_ne_noRoom (sextetAt_ne_noRoom _ _) fun b => ?_
    refine bind_ne_noRoom (sextetAt_ne_noRoom _ _) fun c => ?_
    refine bind_ne_noRoom (sextetAt_ne_noRoom _ _) fun d => ?_
    exact bind_ne_noRoom ih fun tail => by simp [pure, Except.pure]
  | case2 => simp

theorem lastSymbols_ne_noRoom (offset place : Nat) (padded? : Option Nat) (text : Bytes) :
    lastSymbols offset place padded? text ≠ .error .noRoom := by
  fun_induction lastSymbols offset place padded? text with
  | case1 => simp
  | case2 => simp
  | case3 place padded? rest hplace ih => exact ih
  | case4 => simp
  | case5 place b rest hb ih =>
    refine bind_ne_noRoom (sextetAt_ne_noRoom _ _) fun v => ?_
    exact bind_ne_noRoom ih fun tail => by simp [pure, Except.pure]

theorem lastBytes_ne_noRoom (offset : Nat) (marks : List (UInt8 × Nat)) :
    lastBytes offset marks ≠ .error .noRoom := by
  unfold lastBytes
  split
  · split <;> simp
  · split <;> simp
  · simp
  · simp

def bytesOf (text : Bytes) : Except Refusal Bytes := do
  let whole ← groups 0 (text.take (lastStart text.length))
  if text.isEmpty then return whole
  let symbols ← lastSymbols (lastStart text.length) 0 none (text.drop (lastStart text.length))
  let ending ← lastBytes (lastStart text.length) symbols
  return whole ++ ending

theorem bytesOf_ne_noRoom (text : Bytes) : bytesOf text ≠ .error .noRoom := by
  refine bind_ne_noRoom (groups_ne_noRoom _ _) fun whole => ?_
  split
  · simp [pure, Except.pure]
  · refine bind_ne_noRoom (lastSymbols_ne_noRoom _ _ _ _) fun symbols => ?_
    exact bind_ne_noRoom (lastBytes_ne_noRoom _ _) fun ending => by simp [pure, Except.pure]

/-- The room is looked at twice: for the whole groups, and for all bytes once they are known. -/
theorem decode_eq {text : Bytes} (htext : text ≠ []) (room : Nat) :
    decode text room = checkLoneEnd text >>= fun _ =>
      if room < lastStart text.length / 4 * 3 then .error .noRoom
      else bytesOf text >>= fun data =>
        if room < data.length then .error .noRoom else .ok data := by
  simp only [decode, bytesOf, List.isEmpty_iff, htext, if_false, bind_assoc, pure_bind,
    List.length_append]
  rfl

theorem decode_noRoom {text : Bytes} {room : Nat} (h : decode text room = .error .noRoom) :
    room < lastStart text.length / 4 * 3 ∨
      ∃ data room', decode text room' = .ok data ∧ room < data.length := by
  by_cases htext : text = []
  · rw [htext, decode_nil] at h
    cases h
  by_cases hgroups : room < lastStart text.length / 4 * 3
  · exact .inl hgroups
  simp only [decode_eq htext, if_neg hgroups] at h ⊢
  rcases bind_eq_noRoom_iff.mp h with hlone | ⟨_, hlone, h⟩
  · exact absurd hlone (checkLoneEnd_ne_noRoom text)
  rcases bind_eq_noRoom_iff.mp h with hdata | ⟨data, hdata, h⟩
  · exact absurd hdata (bytesOf_ne_noRoom text)
  have hroom : room < data.length := by
    by_cases hroom : room < data.length
    · exact hroom
    · rw [if_neg hroom] at h
      cases h
  refine .inr ⟨data, lastStart text.length / 4 * 3 + data.length, ?_, hroom⟩
  simp only [hlone, hdata, bind, Except.bind]
  rw [if_neg (by omega), if_neg (by omega)]

theorem exists_padding (t : Text) :
    ∃ k, t = Text.dropEndWhile (· == '=') t ++ List.replicate k '=' := by
  have hall : ∀ c ∈ t.rtakeWhile (· == '='), c = '=' := by
    intro c hc
    have hp := @List.mem_rtakeWhile_imp _ (· == '=') t c hc
    exact beq_iff_eq.mp hp
  refine ⟨(t.rtakeWhile (· == '=')).length, ?_⟩
  rw [← List.eq_replicate_of_mem hall]
  exact List.rdropWhile_append_rtakeWhile.symm

theorem readField_eq_overflow_iff {t : Text} {room needed available : Nat} :
    readField t room = .error (.bufferOverflow needed available) ↔
      decode (Text.utf8 t) room = .error .noRoom ∧ needed = decodedLength t ∧ available = room := by
  unfold readField
  cases decode (Text.utf8 t) room with
  | ok data => simp
  | error cause => cases cause <;> simp [eq_comm]

theorem lt_decodedLength {t : Text} {room : Nat}
    (h : decode (Text.utf8 t) room = .error .noRoom) (ht : ¬ Overpadded t) :
    room < decodedLength t := by
  rcases decode_noRoom h with hgroups | ⟨data, room', hdata, hlt⟩
  · rw [Overpadded, Nat.not_lt, lastStart] at ht
    rw [lastStart] at hgroups
    rw [decodedLength]
    omega
  · rwa [decodedLength_of_spells (decode_utf8_eq_ok_iff.mp hdata).1]

theorem drop_utf8_eq_padding {t : Text} {start : Nat}
    (h : (Text.utf8 (Text.dropEndWhile (· == '=') t)).length ≤ start) :
    ∃ k, (Text.utf8 t).drop start = List.replicate k padding := by
  obtain ⟨k, hk⟩ := exists_padding t
  have htext : Text.utf8 t =
      Text.utf8 (Text.dropEndWhile (· == '=') t) ++ List.replicate k padding := by
    rw [← utf8_padding, ← Text.utf8_append, ← hk]
  rw [htext, List.drop_append, List.drop_eq_nil_of_le h, List.drop_replicate, List.nil_append]
  exact ⟨_, rfl⟩

theorem checkLoneEnd_of_padding {text : Bytes} {k : Nat}
    (h : text.drop (lastStart text.length) = List.replicate k padding) :
    checkLoneEnd text = .ok () := by
  unfold checkLoneEnd
  split
  · next b hb =>
    have hmem : b ∈ List.replicate k padding := by
      rw [← h, hb]
      exact List.mem_singleton_self b
    exact if_pos (.inl (List.eq_of_mem_replicate hmem))
  · rfl

/-- In just the room that is reported as needed, an overpadded text is refused for lack of room. -/
theorem decode_of_overpadded {t : Text} (h : Overpadded t) :
    decode (Text.utf8 t) (decodedLength t) = .error .noRoom := by
  obtain ⟨k, hlast⟩ := drop_utf8_eq_padding (Nat.le_of_lt h)
  have hne : Text.utf8 t ≠ [] := by
    intro hnil
    rw [Overpadded, hnil] at h
    exact absurd h (Nat.not_lt_zero _)
  have hgroups : decodedLength t < lastStart (Text.utf8 t).length / 4 * 3 := by
    rw [Overpadded, lastStart] at h
    rw [decodedLength, lastStart]
    omega
  rw [decode_eq hne, checkLoneEnd_of_padding hlast]
  exact if_pos hgroups

/-- A report of too little room is true for every room just if the padding of the text stays in its
last group. -/
theorem shortage_iff (t : Text) :
    (∀ room needed available, readField t room = .error (.bufferOverflow needed available) →
      available = room ∧ available < needed) ↔ ¬ Overpadded t := by
  constructor
  · intro h hover
    have hread := readField_eq_overflow_iff.mpr ⟨decode_of_overpadded hover, rfl, rfl⟩
    exact absurd (h _ _ _ hread).2 (Nat.lt_irrefl _)
  · intro ht room needed available hread
    obtain ⟨hdecode, rfl, rfl⟩ := readField_eq_overflow_iff.mp hread
    exact ⟨rfl, lt_decodedLength hdecode ht⟩

/-- Padding may fill the last group, but not begin another one. -/
example : ¬ Overpadded "QQ==".toList ∧ Overpadded "QQ====".toList := by decide

end NearField.Base64
