import Mathlib.Data.List.TakeWhile
import NearField.Proofs.Command.Words
import NearField.Proofs.Ndef.HeaderBytes

/-! # Grammar of typed records

Which texts are records, and which records they are. The readers of the fields of a record take
different delimiters, so each of them is characterised on its own: by the texts that it takes when
it leaves something to read. From these follow the texts that are read as records, how far the
reading of any other text comes, and what is left of it there.
-/
namespace NearField.Command
open Ndef

/-- A field is a word without delimiters, and the delimiter behind it. -/
def IsField (delimiters : List Char) (t w : Text) : Prop :=
  (∀ c ∈ w, c ∉ delimiters) ∧ ∃ d ∈ delimiters, t = w ++ [d]

/-- A record in brackets, with a blank or a comma behind each field but the payload. The first two
fields are numbers: flags that may be typed, and the code of a type name. Brackets may stand in
every field, and blanks and commas in the payload, just not the bracket that closes it. -/
inductive RecordGrammar (r : Record) : Text → Prop
  | fields {flags typeName t₁ t₂ t₃ t₄ t₅ : Text}
      (h₁ : IsField Reader.separators t₁ flags)
      (hflags : Numeral.Unsigned flags r.flags.toNat)
      (htyped : Flags.isTyped r.flags.toNat = true)
      (h₂ : IsField Reader.separators t₂ typeName)
      (htypeName : Numeral.Unsigned typeName (Coded.code r.typeName).toNat)
      (h₃ : IsField Reader.separators t₃ r.type) (htype : r.type ≠ [])
      (h₄ : IsField Reader.separators t₄ r.id)
      (h₅ : IsField [']'] t₅ r.payload) (hpayload : r.payload ≠ []) :
      RecordGrammar r ('[' :: (t₁ ++ (t₂ ++ (t₃ ++ (t₄ ++ t₅)))))

/-- Records with blanks before and between them. -/
inductive RecordsGrammar : List Record → Text → Prop
  | nil : RecordsGrammar [] []
  | cons {r : Record} {rs : List Record} {blanks t rest : Text}
      (hblanks : ∀ c ∈ blanks, Text.isBlank c = true) (ht : RecordGrammar r t)
      (hrest : RecordsGrammar rs rest) : RecordsGrammar (r :: rs) (blanks ++ t ++ rest)

theorem exists_blanks (t : Text) :
    ∃ blanks, (∀ b ∈ blanks, Text.isBlank b = true) ∧ t = blanks ++ Text.trimStart t :=
  ⟨t.takeWhile Text.isBlank, fun _ hb => List.mem_takeWhile_imp hb,
    List.takeWhile_append_dropWhile.symm⟩

theorem trimStart_bracket {blanks : Text} (h : ∀ b ∈ blanks, Text.isBlank b = true) (rest : Text) :
    Text.trimStart (blanks ++ '[' :: rest) = '[' :: rest := by
  rw [Text.trimStart_append h]
  rfl

theorem Input.exists_token (t : Text) (delimiters : List Char) :
    ((∀ c ∈ t, c ∉ delimiters) ∧ (Input.mk (some t)).token? delimiters = some (t, ⟨none⟩)) ∨
    ∃ taken w rest, t = taken ++ rest ∧ IsField delimiters taken w ∧
      (Input.mk (some t)).token? delimiters = some (w, ⟨some rest⟩) := by
  cases hfirst : t.find? (· ∈ delimiters) with
  | none =>
    have hall : ∀ c ∈ t, c ∉ delimiters := by simpa using hfirst
    exact .inl ⟨hall, token?_of_all hall⟩
  | some d =>
    obtain ⟨hd, w, rest, rfl, hw⟩ := List.find?_eq_some_iff_append.mp hfirst
    replace hd : d ∈ delimiters := by simpa using hd
    replace hw : ∀ c ∈ w, c ∉ delimiters := by simpa using hw
    exact .inr ⟨w ++ [d], w, rest, by simp, ⟨hw, d, hd, rfl⟩, token?_append hw hd⟩

theorem Input.token?_eq_some_iff {s : Input} {delimiters : List Char} {w rest : Text} :
    s.token? delimiters = some (w, ⟨some rest⟩) ↔
      ∃ t, s = ⟨some (t ++ rest)⟩ ∧ IsField delimiters t w := by
  constructor
  · intro h
    obtain ⟨typed⟩ := s
    cases typed with
    | none => cases h
    | some typed =>
    rcases exists_token typed delimiters with ⟨-, htoken⟩ | ⟨taken, w', rest', rfl, hfield, htoken⟩
    · cases htoken.symm.trans h
    · cases htoken.symm.trans h
      exact ⟨taken, rfl, hfield⟩
  · rintro ⟨t, rfl, hw, d, hd, rfl⟩
    rw [List.append_assoc, List.singleton_append]
    exact token?_append hw hd

namespace Reader
variable {α β : Type} {g : Text → α → Prop}

/-- The texts that a reader takes while it leaves something to read, even if that is empty, are
those to which the relation gives a value, and it reads that value. -/
def Accepts (r : Reader α) (g : Text → α → Prop) : Prop :=
  ∀ s a rest, r.run s = .ok a ⟨some rest⟩ ↔ ∃ t, s = ⟨some (t ++ rest)⟩ ∧ g t a

namespace Accepts

theorem pure (a : α) : (pure a : Reader α).Accepts fun t b => t = [] ∧ b = a := by
  intro s b rest
  rw [run_pure_eq_ok_iff]
  constructor
  · rintro ⟨rfl, rfl⟩
    exact ⟨[], rfl, rfl, rfl⟩
  · rintro ⟨t, rfl, rfl, rfl⟩
    exact ⟨rfl, rfl⟩

theorem never {r : Reader α} (h : ∀ s a s', r.run s ≠ .ok a s') : r.Accepts fun _ _ => False := by
  intro s a rest
  simp [h s a]

theorem congr {r : Reader α} {g' : Text → α → Prop} (hr : r.Accepts g)
    (h : ∀ t a, g t a ↔ g' t a) : r.Accepts g' := by
  intro s a rest
  simp only [hr s a rest, h]

theorem bind {r : Reader α} {f : α → Reader β} {k : α → Text → β → Prop} (hr : r.Accepts g)
    (hf : ∀ a, (f a).Accepts (k a)) :
    (r >>= f).Accepts fun w b => ∃ t a u, w = t ++ u ∧ g t a ∧ k a u b := by
  intro s b rest
  rw [run_bind_eq_ok_iff]
  constructor
  · rintro ⟨a, s', hfirst, hsecond⟩
    obtain ⟨u, rfl, hu⟩ := (hf a s' b rest).mp hsecond
    obtain ⟨t, rfl, ht⟩ := (hr s a _).mp hfirst
    exact ⟨t ++ u, by rw [List.append_assoc], t, a, u, rfl, ht, hu⟩
  · rintro ⟨_, rfl, t, a, u, rfl, ht, hu⟩
    exact ⟨a, ⟨some (u ++ rest)⟩, (hr _ a _).mpr ⟨t, by rw [List.append_assoc], ht⟩,
      (hf a _ b rest).mpr ⟨u, rfl, hu⟩⟩

theorem bind_check {r : Reader α} {f : α → Reader β} {p : α → β → Prop} (hr : r.Accepts g)
    (hf : ∀ a, (f a).Accepts fun u b => u = [] ∧ p a b) :
    (r >>= f).Accepts fun t b => ∃ a, g t a ∧ p a b := by
  refine (hr.bind hf).congr fun w b => ?_
  constructor
  · rintro ⟨t, a, _, rfl, ht, rfl, hp⟩
    exact ⟨a, by rwa [List.append_nil], hp⟩
  · rintro ⟨a, ht, hp⟩
    exact ⟨w, a, [], (List.append_nil w).symm, ht, rfl, hp⟩

end Accepts

theorem token_accepts (field : Text) (delimiters : List Char) :
    (token field delimiters).Accepts (IsField delimiters) := by
  intro s w rest
  rw [← Input.token?_eq_some_iff]
  simp only [EStateM.run, token]
  cases s.token? delimiters with
  | none => simp
  | some found => simp [Prod.ext_iff]

theorem text_accepts (field : Text) (delimiters : List Char) (allowEmpty : Bool) :
    (text field delimiters allowEmpty).Accepts fun t w =>
      IsField delimiters t w ∧ (allowEmpty = true ∨ w ≠ []) := by
  refine ((token_accepts field delimiters).bind_check
    (p := fun w w' => w' = w ∧ (allowEmpty = true ∨ w ≠ [])) fun w => ?_).congr fun t w => ?_
  · by_cases hkept : allowEmpty = true ∨ w ≠ []
    · have hpass : (!allowEmpty && w.isEmpty) = false := by
        rcases hkept with rfl | hne
        · rfl
        · simp [hne]
      simp only [hpass, hkept, and_true]
      exact .pure w
    · have hrefused : (!allowEmpty && w.isEmpty) = true := by simpa using hkept
      simp only [hrefused, hkept, and_false]
      exact .never fun s a s' => not_run_fail_bind
  · constructor
    · rintro ⟨w, ht, rfl, hkept⟩
      exact ⟨ht, hkept⟩
    · rintro ⟨ht, hkept⟩
      exact ⟨w, ht, rfl, hkept⟩

theorem numeral_accepts (parse : Text → Except Numeral.Fault α) (field : Text)
    (delimiters : List Char) :
    (numeral parse field delimiters).Accepts fun t a =>
      ∃ w, IsField delimiters t w ∧ parse w = .ok a := by
  refine (token_accepts field delimiters).bind_check fun w => ?_
  cases parse w with
  | ok value => simpa [eq_comm] using Accepts.pure value
  | error fault => simpa using Accepts.never fun s a s' => not_run_fail

theorem openingBracket_accepts :
    openingBracket.Accepts fun t _ => ∃ blanks, t = blanks ++ ['['] ∧
      ∀ c ∈ blanks, Text.isBlank c = true := by
  intro s a rest
  have hrun : openingBracket.run s = .ok a ⟨some rest⟩ ↔
      s.skipBlanks.after? '[' = some ⟨some rest⟩ := by
    simp only [EStateM.run, openingBracket]
    cases s.skipBlanks.after? '[' with
    | some behind => simp
    | none => cases s.skipBlanks.rest with
      | none => simp
      | some typed => cases typed <;> simp
  have hafter : s.skipBlanks.after? '[' = some ⟨some rest⟩ ↔
      s.rest.map Text.trimStart = some ('[' :: rest) := by
    rw [Input.after?_eq_some_iff]
    simp [Input.skipBlanks]
  rw [hrun, hafter, Option.map_eq_some_iff]
  constructor
  · rintro ⟨typed, htyped, hstart⟩
    obtain ⟨blanks, hblanks, hsplit⟩ := exists_blanks typed
    refine ⟨blanks ++ ['['], ?_, blanks, rfl, hblanks⟩
    rw [List.append_assoc, List.singleton_append, ← hstart, ← hsplit, ← htyped]
  · rintro ⟨_, rfl, blanks, rfl, hblanks⟩
    refine ⟨_, rfl, ?_⟩
    rw [List.append_assoc, List.singleton_append, trimStart_bracket hblanks]

theorem flags_accepts :
    flags.Accepts fun t f => ∃ w, IsField separators t w ∧
      Numeral.Unsigned w f.toNat ∧ Flags.isTyped f.toNat = true := by
  refine ((numeral_accepts _ _ _).bind_check
    (p := fun n f => f.toNat = n ∧ Flags.isTyped n = true) fun n => ?_).congr fun t f => ?_
  · by_cases htyped : Flags.isTyped n = true
    · have hbyte : n < 256 := by
        rcases Flags.isTyped_iff.mp htyped with rfl | rfl | rfl | rfl <;> decide
      have heq (f : UInt8) : f.toNat = n ↔ f = UInt8.ofNat n := by
        rw [← UInt8.toNat_inj, UInt8.toNat_ofNat_of_lt' hbyte]
      simp only [htyped, if_true, heq, and_true]
      exact .pure _
    · rw [if_neg htyped]
      simp only [htyped, Bool.false_eq_true, and_false]
      exact .never fun s a s' => not_run_fail_bind
  · constructor
    · rintro ⟨_, ⟨w, hw, hn⟩, rfl, htyped⟩
      exact ⟨w, hw, Numeral.unsigned_eq_ok_byte_iff.mp hn, htyped⟩
    · rintro ⟨w, hw, hn, htyped⟩
      exact ⟨f.toNat, ⟨w, hw, Numeral.unsigned_eq_ok_byte_iff.mpr hn⟩, rfl, htyped⟩

theorem typeName_accepts :
    typeName.Accepts fun t a => ∃ w, IsField separators t w ∧
      Numeral.Unsigned w (Coded.code a).toNat := by
  refine ((numeral_accepts _ _ _).bind_check
    (p := fun n a => (Coded.code a).toNat = n) fun n => ?_).congr fun t a => ?_
  · simp only [← Coded.ofNat?_eq_some_iff]
    cases (Coded.ofNat? n : Option TypeName) with
    | none => simpa using Accepts.never fun s a s' => not_run_fail
    | some a => simpa [eq_comm] using Accepts.pure a
  · simp [Numeral.unsigned_eq_ok_byte_iff]

theorem payload_accepts :
    payload.Accepts fun t w => IsField [']'] t w ∧ w ≠ [] := by
  refine ((text_accepts _ _ _).bind_check (p := fun w w' => w' = w) fun w => ?_).congr
    fun t w => ?_
  · intro s w' rest
    obtain ⟨typed⟩ := s
    cases typed with
    | none =>
      constructor
      · intro h
        cases h
      · rintro ⟨t, h, -⟩
        cases h
    | some typed =>
      constructor
      · intro h
        cases h
        exact ⟨[], rfl, rfl, rfl⟩
      · rintro ⟨_, h, rfl, rfl⟩
        cases h
        rfl
  · simp

theorem payload_rest {s s' : Input} {w : Text} (h : payload.run s = .ok w s') :
    ∃ rest, s' = ⟨some rest⟩ := by
  obtain ⟨w, t, -, h⟩ := run_bind_eq_ok_iff.mp h
  obtain ⟨typed⟩ := t
  cases typed with
  | none => cases h
  | some typed =>
    cases h
    exact ⟨typed, rfl⟩

theorem record_rest {s s' : Input} {r : Record} (h : record.run s = .ok r s') :
    ∃ rest, s' = ⟨some rest⟩ := by
  obtain ⟨_, _, _, h⟩ := run_bind_eq_ok_iff.mp h
  obtain ⟨_, _, _, h⟩ := run_bind_eq_ok_iff.mp h
  obtain ⟨_, _, _, h⟩ := run_bind_eq_ok_iff.mp h
  obtain ⟨_, _, _, h⟩ := run_bind_eq_ok_iff.mp h
  obtain ⟨_, _, _, h⟩ := run_bind_eq_ok_iff.mp h
  obtain ⟨w, s₆, hpayload, h⟩ := run_bind_eq_ok_iff.mp h
  obtain ⟨-, rfl⟩ := run_pure_eq_ok_iff.mp h
  exact payload_rest hpayload

theorem record_accepts :
    record.Accepts fun t r => ∃ blanks u, t = blanks ++ u ∧
      (∀ c ∈ blanks, Text.isBlank c = true) ∧ RecordGrammar r u := by
  refine (openingBracket_accepts.bind fun _ => flags_accepts.bind fun flags =>
    typeName_accepts.bind fun typeName => (text_accepts _ _ _).bind fun type =>
    (text_accepts _ _ _).bind fun id => payload_accepts.bind_check fun payload =>
    .pure (⟨flags, typeName, type, id, payload⟩ : Record)).congr fun t r => ?_
  constructor
  · rintro ⟨_, -, _, rfl, ⟨blanks, rfl, hblanks⟩, t₁, flags, _, rfl, ⟨wf, h₁, hflags, htyped⟩,
      t₂, typeName, _, rfl, ⟨wn, h₂, htypeName⟩, t₃, type, _, rfl, ⟨h₃, htype⟩,
      t₄, id, _, rfl, ⟨h₄, -⟩, payload, ⟨h₅, hpayload⟩, rfl⟩
    refine ⟨blanks, _, by rw [List.append_assoc, List.singleton_append], hblanks, ?_⟩
    exact .fields h₁ hflags htyped h₂ htypeName h₃ (by simpa using htype) h₄ h₅ hpayload
  · rintro ⟨blanks, _, rfl, hblanks, hr⟩
    cases hr with
    | @fields wf wn t₁ t₂ t₃ t₄ t₅ h₁ hflags htyped h₂ htypeName h₃ htype h₄ h₅ hpayload =>
      exact ⟨blanks ++ ['['], (), _, by rw [List.append_assoc, List.singleton_append],
        ⟨blanks, rfl, hblanks⟩, t₁, _, _, rfl, ⟨wf, h₁, hflags, htyped⟩, t₂, _, _, rfl,
        ⟨wn, h₂, htypeName⟩, t₃, _, _, rfl, ⟨h₃, .inr htype⟩, t₄, _, t₅, rfl, ⟨h₄, .inl rfl⟩, _,
        ⟨h₅, hpayload⟩, rfl⟩

theorem record_eq_ok_iff {typed : Text} {r : Record} {s' : Input} :
    record.run ⟨some typed⟩ = .ok r s' ↔ ∃ blanks t rest, typed = blanks ++ t ++ rest ∧
      s' = ⟨some rest⟩ ∧ (∀ c ∈ blanks, Text.isBlank c = true) ∧ RecordGrammar r t := by
  constructor
  · intro h
    obtain ⟨rest, rfl⟩ := record_rest h
    obtain ⟨_, htyped, blanks, t, rfl, hblanks, ht⟩ := (record_accepts _ _ _).mp h
    exact ⟨blanks, t, rest, Option.some.inj (Input.mk.inj htyped), rfl, hblanks, ht⟩
  · rintro ⟨blanks, t, rest, rfl, rfl, hblanks, ht⟩
    exact (record_accepts _ _ _).mpr ⟨blanks ++ t, rfl, blanks, t, rfl, hblanks, ht⟩

end Reader

theorem RecordGrammar.trimStart_ne_nil {r : Record} {t blanks : Text} (h : RecordGrammar r t)
    (hblanks : ∀ c ∈ blanks, Text.isBlank c = true) (rest : Text) :
    Text.trimStart (blanks ++ t ++ rest) ≠ [] := by
  cases h
  rw [List.append_assoc, List.cons_append, trimStart_bracket hblanks]
  exact List.cons_ne_nil _ _

theorem RecordsGrammar.typed {rs : List Record} {t : Text} (h : RecordsGrammar rs t) :
    ∀ r ∈ rs, Flags.isTyped r.flags.toNat = true := by
  induction h with
  | nil => simp
  | cons hblanks ht hrest ih =>
    cases ht with
    | fields h₁ hflags htyped => exact List.forall_mem_cons.mpr ⟨htyped, ih⟩

namespace Reader

/-- Something that is no blank is left where no further record is read: there is no room for one, or
none begins here. -/
def RefusesRest (free : Nat) (rest : Text) (e : Error) : Prop :=
  Text.trimStart rest ≠ [] ∧
    if free = 0 then e = .trailingCharacters (Text.trimStart rest)
    else ∃ s, record.run ⟨some rest⟩ = .error e s

theorem moreRecords_of_blank {s : Input} (h : Text.trimStart (s.rest.getD []) = []) (free : Nat)
    (l : RecordList) : moreRecords free l s = ⟨.ok l.size, l, s⟩ := by
  have hblank : s.nonblank? = none := by
    obtain ⟨typed⟩ := s
    cases typed with
    | none => rfl
    | some typed => simpa [Input.nonblank?] using h
  unfold moreRecords
  rw [hblank]

theorem nonblank?_of_trimStart {rest : Text} (h : Text.trimStart rest ≠ []) :
    (Input.mk (some rest)).nonblank? = some (Text.trimStart rest) := by
  simpa [Input.nonblank?] using h

theorem moreRecords_of_refused {free : Nat} {rest : Text} {e : Error}
    (h : RefusesRest free rest e) (l : RecordList) :
    (moreRecords free l ⟨some rest⟩).result = .error e ∧
      (moreRecords free l ⟨some rest⟩).records = l := by
  obtain ⟨hrest, hcause⟩ := h
  unfold moreRecords
  rw [nonblank?_of_trimStart hrest]
  cases free with
  | zero =>
    rw [if_pos rfl] at hcause
    exact ⟨by rw [hcause], rfl⟩
  | succ free =>
    rw [if_neg (Nat.succ_ne_zero free)] at hcause
    obtain ⟨s, hread⟩ := hcause
    simp only [hread, and_self]

theorem moreRecords_append {rs : List Record} {front : Text} (h : RecordsGrammar rs front)
    {free : Nat} (hfree : rs.length ≤ free) {l : RecordList} (hroom : l.size + free ≤ maxRecords)
    (rest : Text) :
    ∃ l' : RecordList, l'.records = l.records ++ rs ∧
      moreRecords free l ⟨some (front ++ rest)⟩ =
        moreRecords (free - rs.length) l' ⟨some rest⟩ := by
  induction h generalizing free l with
  | nil => exact ⟨l, (List.append_nil _).symm, rfl⟩
  | @cons r rs blanks t front hblanks ht hfront ih =>
    cases free with
    | zero => cases hfree
    | succ free =>
    have hread : record.run ⟨some (blanks ++ t ++ (front ++ rest))⟩ = .ok r _ :=
      record_eq_ok_iff.mpr ⟨blanks, t, _, rfl, rfl, hblanks, ht⟩
    have hshown := nonblank?_of_trimStart (ht.trimStart_ne_nil hblanks (front ++ rest))
    obtain ⟨l₁, hpush⟩ : ∃ l₁, l.push r = .ok l₁ := by
      unfold RecordList.push
      rw [dif_pos (by unfold RecordList.size at hroom; omega)]
      exact ⟨_, rfl⟩
    have hl₁ := RecordList.records_push hpush
    have hroom₁ : l₁.size + free ≤ maxRecords := by
      unfold RecordList.size at hroom ⊢
      rw [hl₁, List.length_append, List.length_singleton]
      omega
    obtain ⟨l', hl', hmore⟩ := ih (Nat.le_of_succ_le_succ hfree) hroom₁
    refine ⟨l', by rw [hl', hl₁, List.append_assoc, List.singleton_append], ?_⟩
    rw [List.append_assoc _ front, List.length_cons, Nat.add_sub_add_right, ← hmore, moreRecords]
    simp only [hshown, hread, hpush]

/-- Every text begins with records, behind which only blanks are left, or something that is
refused. -/
theorem exists_records (free : Nat) (typed : Text) :
    ∃ rs front rest, typed = front ++ rest ∧ RecordsGrammar rs front ∧ rs.length ≤ free ∧
      (Text.trimStart rest = [] ∨ ∃ e, RefusesRest (free - rs.length) rest e) := by
  induction free generalizing typed with
  | zero =>
    refine ⟨[], [], typed, rfl, .nil, Nat.le_refl 0, ?_⟩
    by_cases hblank : Text.trimStart typed = []
    · exact .inl hblank
    · exact .inr ⟨_, hblank, rfl⟩
  | succ free ih =>
    cases hread : record.run ⟨some typed⟩ with
    | error e s =>
      refine ⟨[], [], typed, rfl, .nil, Nat.zero_le _, ?_⟩
      by_cases hblank : Text.trimStart typed = []
      · exact .inl hblank
      · exact .inr ⟨e, hblank, s, hread⟩
    | ok r s =>
      obtain ⟨blanks, t, behind, rfl, rfl, hblanks, ht⟩ := record_eq_ok_iff.mp hread
      obtain ⟨rs, front, rest, rfl, hfront, hfree, hstop⟩ := ih behind
      refine ⟨r :: rs, blanks ++ t ++ front, rest, (List.append_assoc _ _ _).symm,
        .cons hblanks ht hfront, Nat.succ_le_succ hfree, ?_⟩
      rwa [List.length_cons, Nat.add_sub_add_right]

section
variable {rs : List Record} {front rest : Text} {free : Nat} {l : RecordList} {e : Error}

theorem moreRecords_eq_ok (h : RecordsGrammar rs front) (hfree : rs.length ≤ free)
    (hroom : l.size + free ≤ maxRecords) (hblank : Text.trimStart rest = []) :
    (moreRecords free l ⟨some (front ++ rest)⟩).result = .ok (l.size + rs.length) ∧
      (moreRecords free l ⟨some (front ++ rest)⟩).records.records = l.records ++ rs := by
  obtain ⟨l', hl', hmore⟩ := moreRecords_append h hfree hroom rest
  rw [hmore, moreRecords_of_blank (s := ⟨some rest⟩) hblank]
  refine ⟨?_, hl'⟩
  simp only [RecordList.size, hl', List.length_append]

theorem moreRecords_eq_error (h : RecordsGrammar rs front) (hfree : rs.length ≤ free)
    (hroom : l.size + free ≤ maxRecords) (hrest : RefusesRest (free - rs.length) rest e) :
    (moreRecords free l ⟨some (front ++ rest)⟩).result = .error e ∧
      (moreRecords free l ⟨some (front ++ rest)⟩).records.records = l.records ++ rs := by
  obtain ⟨l', hl', hmore⟩ := moreRecords_append h hfree hroom rest
  obtain ⟨hresult, hrecords⟩ := moreRecords_of_refused hrest l'
  rw [hmore, hrecords]
  exact ⟨hresult, hl'⟩

end

theorem moreRecords_getD (free : Nat) (l : RecordList) (s : Input) :
    (moreRecords free l s).result = (moreRecords free l ⟨some (s.rest.getD [])⟩).result ∧
      (moreRecords free l s).records = (moreRecords free l ⟨some (s.rest.getD [])⟩).records := by
  obtain ⟨typed⟩ := s
  cases typed with
  | none =>
    have hempty := moreRecords_of_blank (s := ⟨some []⟩) rfl free l
    rw [moreRecords_of_blank (s := ⟨none⟩) rfl, Option.getD_none, hempty]
    exact ⟨rfl, rfl⟩
  | some typed => exact ⟨rfl, rfl⟩

/-- Records are read just from the texts of their grammar: as many as there is room for, with only
blanks behind them. From any other text they are read up to where it cannot be continued, and kept;
if there is no room for more of them, all that is left is blamed. -/
theorem recordsInto_exact (capacity : Nat) (l : RecordList) (s : Input) :
    let free := min capacity maxRecords - l.size
    let typed := s.rest.getD []
    let read := recordsInto capacity l s
    (∀ n all, read.result = .ok n ∧ read.records.records = all ↔
      ∃ rs front blanks, typed = front ++ blanks ∧ RecordsGrammar rs front ∧
        (∀ c ∈ blanks, Text.isBlank c = true) ∧ rs.length ≤ free ∧
        n = l.size + rs.length ∧ all = l.records ++ rs) ∧
    ∀ e all, read.result = .error e ∧ read.records.records = all ↔
      ∃ rs front rest, typed = front ++ rest ∧ RecordsGrammar rs front ∧
        RefusesRest (free - rs.length) rest e ∧ rs.length ≤ free ∧ all = l.records ++ rs := by
  intro free typed read
  have hroom : l.size + free ≤ maxRecords := by
    have hbounded : l.size ≤ maxRecords := l.bounded
    omega
  have hread : (read.result = (moreRecords free l ⟨some typed⟩).result) ∧
      read.records = (moreRecords free l ⟨some typed⟩).records := moreRecords_getD free l s
  rw [hread.1, hread.2]
  clear_value typed
  obtain ⟨rs, front, rest, rfl, hfront, hfree, hrest⟩ := exists_records free typed
  constructor
  · intro n all
    constructor
    · rintro ⟨hn, rfl⟩
      rcases hrest with hblank | ⟨e, hrefused⟩
      · obtain ⟨hok, hall⟩ := moreRecords_eq_ok hfront hfree hroom hblank
        rw [hok] at hn
        cases hn
        exact ⟨rs, front, rest, rfl, hfront, List.dropWhile_eq_nil_iff.mp hblank, hfree, rfl, hall⟩
      · rw [(moreRecords_eq_error hfront hfree hroom hrefused).1] at hn
        cases hn
    · rintro ⟨rs', front', blanks, htyped, hfront', hblanks, hfree', rfl, rfl⟩
      rw [htyped]
      exact moreRecords_eq_ok hfront' hfree' hroom (List.dropWhile_eq_nil_iff.mpr hblanks)
  · intro e all
    constructor
    · rintro ⟨he, rfl⟩
      rcases hrest with hblank | ⟨e', hrefused⟩
      · rw [(moreRecords_eq_ok hfront hfree hroom hblank).1] at he
        cases he
      · obtain ⟨herror, hall⟩ := moreRecords_eq_error hfront hfree hroom hrefused
        rw [herror] at he
        cases he
        exact ⟨rs, front, rest, rfl, hfront, hrefused, hfree, hall⟩
    · rintro ⟨rs', front', rest', htyped, hfront', hrefused, hfree', rfl⟩
      rw [htyped]
      exact moreRecords_eq_error hfront' hfree' hroom hrefused

example : (recordsInto maxRecords default ⟨some " [16,+1 a[b],,c, d]\r".toList⟩).records.records =
    [⟨0x10, .wellKnown, "a[b]".toList, [], "c, d".toList⟩] := by decide

end Reader
end NearField.Command
