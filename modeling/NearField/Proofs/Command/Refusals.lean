import NearField.Proofs.Command.Bounds
import NearField.Proofs.Command.RecordGrammar
import NearField.Proofs.Emulator.Endpoints

/-! # Refusals of lines

What is wrong with a line is found while it is read: an index is refused just for the number that is
typed for it, and what has been read names nothing that is not there and no flags that may not be
typed.
-/
namespace NearField

def Error.isTyping : Error → Bool
  | invalidOperation _ | missingToken _ | emptyToken _ | invalidValue .. | invalidSap .. | noRecord
  | reservedFlags _ | invalidTypeName _ | trailingCharacters _ | notATag => true
  | _ => false

/-- Which argument of a command is an index of a table. -/
def Table.argument : Table → Nat
  | endpoints | deactivationTypes => 0
  | interfaces | discoveryStages | deactivationReasons => 1

namespace Command
open Emulator Ndef

/-- A word is a number that is typed for an index, but nothing in the table has that index. The
number is shown as far as a signed word can. -/
def Misses (c : Controller) (word : Text) : Table → Int → Prop
  | .endpoints, value => ∃ n, Numeral.unsigned word = .ok n ∧ c.endpoints.length ≤ n ∧
      value = Reader.shownPlace n
  | .interfaces, value => Numeral.signed word = .ok value ∧ value ≠ -1 ∧
      ¬ (0 ≤ value ∧ value < c.interfaces.length)
  | .discoveryStages, value => ∃ n, Numeral.unsigned word = .ok n ∧
      (∀ stage : DiscoveryStage, (Coded.code stage).toNat ≠ n) ∧ value = Reader.shownPlace n
  | .deactivationTypes, value => ∃ n, Numeral.unsigned word = .ok n ∧
      (∀ type : DeactivationType, (Coded.code type).toNat ≠ n) ∧ value = Reader.shownPlace n
  | .deactivationReasons, value => ∃ n, Numeral.unsigned word = .ok n ∧
      (∀ reason : DeactivationReason, (Coded.code reason).toNat ≠ n) ∧ value = Reader.shownPlace n

/-- The first word is typed wrong, or misses the table that it is an index of. -/
def RefusesFirst (c : Controller) (table : Table) (ws : List Text) (e : Error) : Prop :=
  e.isTyping = true ∨ ∃ word rest value, ws = word :: rest ∧ e = .unknownIndex table value ∧
    Misses c word table value

/-- Something is typed wrong, or an argument misses the table that it is an index of. -/
def RefusesAt (c : Controller) (ws : List Text) (e : Error) : Prop :=
  e.isTyping = true ∨ ∃ table value word, e = .unknownIndex table value ∧
    ws[table.argument]? = some word ∧ Misses c word table value

namespace RefusesFirst
variable {c : Controller} {table : Table} {ws : List Text} {e : Error}

theorem here (h : RefusesFirst c table ws e) (htable : table.argument = 0) : RefusesAt c ws e := by
  rcases h with htyping | ⟨word, rest, value, rfl, he, hmisses⟩
  · exact .inl htyping
  · exact .inr ⟨table, value, word, he, by rw [htable]; rfl, hmisses⟩

theorem behind (h : RefusesFirst c table ws e) {all : List Text} {word : Text}
    (hall : all = word :: ws) (htable : table.argument = 1) : RefusesAt c all e := by
  rcases h with htyping | ⟨word', rest, value, rfl, he, hmisses⟩
  · exact .inl htyping
  · exact .inr ⟨table, value, word', he, by rw [htable, hall]; rfl, hmisses⟩

end RefusesFirst

/-- Every index of a command is in its table, and all its flags may be typed. -/
def Checked (c : Controller) : Command → Prop
  | send _ records => ∀ r ∈ records, Flags.isTyped r.flags.toNat = true
  | setTag place records =>
      place < c.endpoints.length ∧ ∀ r ∈ records, Flags.isTyped r.flags.toNat = true
  | clearTag place | formatTag place | notify (.discover place _) => place < c.endpoints.length
  | notify (.activate endpoint selection) =>
      (∀ place ∈ endpoint, place < c.endpoints.length) ∧
        ∀ place, selection = .index place → place < c.interfaces.length
  | receive _ | connect _ | notify (.deactivate ..) => True

namespace Reader
variable {α β : Type} {s s' : Input} {e : Error}

/-- Whatever input it reads, a reader that fails does so with the property. -/
def Refuses (r : Reader α) (p : Error → Prop) : Prop := ∀ s e s', r.run s = .error e s' → p e

theorem run_bind_eq_error_iff {r : Reader α} {f : α → Reader β} :
    (r >>= f).run s = .error e s' ↔
      r.run s = .error e s' ∨ ∃ a t, r.run s = .ok a t ∧ (f a).run t = .error e s' := by
  rw [EStateM.run_bind]
  cases r.run s with
  | error e' t => simp
  | ok a t =>
    constructor
    · intro h
      exact .inr ⟨a, t, rfl, h⟩
    · rintro (⟨⟨⟩⟩ | ⟨a, t, ⟨⟩, h⟩)
      exact h

namespace Refuses
variable {p : Error → Prop}

theorem pure (a : α) : Refuses (pure a) p := by
  intro s e s' h
  cases h

theorem get : Refuses (MonadState.get : Reader Input) p := by
  intro s e s' h
  cases h

theorem fail {e : Error} (he : p e) : Refuses (throw e : Reader α) p := by
  intro s e' s' h
  cases h
  exact he

theorem fail_bind {e : Error} (he : p e) (f : α → Reader β) : Refuses (throw e >>= f) p := by
  intro s e' s' h
  cases h
  exact he

theorem bind {r : Reader α} {f : α → Reader β} (hr : r.Refuses p) (hf : ∀ a, (f a).Refuses p) :
    (r >>= f).Refuses p := by
  intro s e s' h
  rcases run_bind_eq_error_iff.mp h with hfirst | ⟨a, t, -, hrest⟩
  · exact hr s e s' hfirst
  · exact hf a t e s' hrest

theorem ite {c : Prop} [Decidable c] {r r' : Reader α} (hr : r.Refuses p) (hr' : r'.Refuses p) :
    Refuses (if c then r else r') p := by
  split
  · exact hr
  · exact hr'

end Refuses

theorem token_isTyping (field : Text) (delimiters : List Char) :
    (token field delimiters).Refuses fun e => e.isTyping = true := by
  intro s e s' h
  simp only [EStateM.run, token] at h
  split at h
  · cases h
  · cases h
    rfl

theorem text_isTyping (field : Text) (delimiters : List Char) (allowEmpty : Bool) :
    (text field delimiters allowEmpty).Refuses fun e => e.isTyping = true :=
  .bind (token_isTyping _ _) fun _ => .ite (.fail_bind (by rfl) _) (.pure _)

theorem numeral_isTyping (parse : Text → Except Numeral.Fault α) (field : Text)
    (delimiters : List Char) :
    (numeral parse field delimiters).Refuses fun e => e.isTyping = true := by
  refine .bind (token_isTyping _ _) fun t => ?_
  cases parse t with
  | ok value => exact .pure value
  | error fault => exact .fail rfl

theorem sap_isTyping (field : Text) (allowLast : Bool) :
    (sap field allowLast).Refuses fun e => e.isTyping = true :=
  .bind (numeral_isTyping _ _ _) fun _ => .ite (.pure _) (.ite (.pure _) (.fail rfl))

theorem saps_isTyping : saps.Refuses fun e => e.isTyping = true :=
  .bind (sap_isTyping _ _) fun _ => .bind (sap_isTyping _ _) fun _ => .pure _

theorem openingBracket_isTyping : openingBracket.Refuses fun e => e.isTyping = true := by
  intro s e s' h
  simp only [EStateM.run, openingBracket] at h
  split at h
  · cases h
  · split at h <;> cases h <;> rfl

theorem flags_isTyping : flags.Refuses fun e => e.isTyping = true :=
  .bind (numeral_isTyping _ _ _) fun _ => .ite (.pure _) (.fail_bind (by rfl) _)

theorem typeName_isTyping : typeName.Refuses fun e => e.isTyping = true := by
  refine .bind (numeral_isTyping _ _ _) fun n => ?_
  cases (Coded.ofNat? n : Option TypeName) with
  | some a => exact .pure a
  | none => exact .fail rfl

theorem payload_isTyping : payload.Refuses fun e => e.isTyping = true := by
  refine .bind (text_isTyping _ _ _) fun t => .bind .get fun s => ?_
  exact .ite (.fail_bind (by rfl) _) (.pure t)

theorem record_isTyping : record.Refuses fun e => e.isTyping = true :=
  .bind openingBracket_isTyping fun _ => .bind flags_isTyping fun _ => .bind typeName_isTyping
    fun _ => .bind (text_isTyping _ _ _) fun _ => .bind (text_isTyping _ _ _) fun _ =>
      .bind payload_isTyping fun _ => .pure _

theorem RefusesRest.isTyping {free : Nat} {rest : Text} (h : RefusesRest free rest e) :
    e.isTyping = true := by
  obtain ⟨-, hcause⟩ := h
  split at hcause
  · rw [hcause]
    rfl
  · obtain ⟨s, hread⟩ := hcause
    exact record_isTyping _ e s hread

theorem recordsInto_checked (s : Input) :
    (∀ e, (recordsInto maxRecords default s).result = .error e → e.isTyping = true) ∧
      ∀ r ∈ (recordsInto maxRecords default s).records.records,
        Flags.isTyped r.flags.toNat = true := by
  have hread : recordsInto maxRecords default s = moreRecords maxRecords default s := rfl
  have hroom : (default : RecordList).size + maxRecords ≤ maxRecords := Nat.le_refl maxRecords
  obtain ⟨hresult, hrecords⟩ := moreRecords_getD maxRecords default s
  obtain ⟨rs, front, rest, htyped, hfront, hfree, hrest⟩ :=
    exists_records maxRecords (s.rest.getD [])
  rw [hread, hresult, hrecords, htyped]
  rcases hrest with hblank | ⟨cause, hrefused⟩
  · obtain ⟨hok, hall⟩ := moreRecords_eq_ok hfront hfree hroom hblank
    rw [hok, hall]
    exact ⟨by simp, hfront.typed⟩
  · obtain ⟨herror, hall⟩ := moreRecords_eq_error hfront hfree hroom hrefused
    rw [herror, hall]
    refine ⟨?_, hfront.typed⟩
    rintro e ⟨⟩
    exact hrefused.isTyping

theorem records_typed :
    records.Ensures fun l => ∀ r ∈ l.records, Flags.isTyped r.flags.toNat = true := by
  intro s l s' h
  have htyped := (recordsInto_checked s).2
  simp only [EStateM.run, records] at h
  split at h
  · next hread =>
    cases h
    rw [hread] at htyped
    exact htyped
  · cases h

theorem records_isTyping : records.Refuses fun e => e.isTyping = true := by
  intro s e s' h
  have hrefused := (recordsInto_checked s).1
  simp only [EStateM.run, records] at h
  split at h
  · cases h
  · next hread =>
    cases h
    rw [hread] at hrefused
    exact hrefused e rfl

theorem endpointPlace_lt (count : Nat) : (endpointPlace count).Ensures (· < count) :=
  .bind (.of_true _) fun _ _ => .ite (fun h => .pure h) fun _ => .fail _

theorem selection_lt (count : Nat) :
    (selection count).Ensures fun chosen => ∀ place, chosen = .index place → place < count := by
  refine .bind (.of_true _) fun value _ => .ite (fun _ => .pure ?_) fun _ =>
    .ite (fun h => .pure ?_) fun _ => .fail _
  · intro place hplace
    cases hplace
  · intro place hplace
    cases hplace
    omega

theorem numeral_bind_error {parse : Text → Except Numeral.Fault α} {field : Text}
    {f : α → Reader β} (h : (numeral parse field space >>= f).run s = .error e s') :
    e.isTyping = true ∨
      ∃ w a t, s.words = w :: Input.words t ∧ parse w = .ok a ∧ (f a).run t = .error e s' := by
  rcases run_bind_eq_error_iff.mp h with hnumeral | ⟨a, t, hnumeral, hrest⟩
  · exact .inl (numeral_isTyping _ _ _ s e s' hnumeral)
  · obtain ⟨w, hw, hparse⟩ := numeral_words hnumeral
    exact .inr ⟨w, a, t, hw, hparse, hrest⟩

theorem run_fail_eq_error_iff {e' : Error} :
    (throw e' : Reader α).run s = .error e s' ↔ e' = e ∧ s = s' := by
  change EStateM.Result.error e' s = EStateM.Result.error e s' ↔ _
  rw [EStateM.Result.error.injEq]

theorem run_ite_eq_error_iff {p : Prop} [Decidable p] {a : α} {r : Reader α} :
    (if p then pure a else r).run s = .error e s' ↔ ¬ p ∧ r.run s = .error e s' := by
  by_cases hp : p
  · simp [hp]
  · simp [hp]

variable {c : Controller}

theorem endpointPlace_error (h : (endpointPlace c.endpoints.length).run s = .error e s') :
    RefusesFirst c .endpoints s.words e := by
  rcases numeral_bind_error h with htyping | ⟨w, n, t, hw, hn, h⟩
  · exact .inl htyping
  · obtain ⟨hbeyond, h⟩ := run_ite_eq_error_iff.mp h
    obtain ⟨rfl, -⟩ := run_fail_eq_error_iff.mp h
    exact .inr ⟨w, t.words, _, hw, rfl, n, hn, Nat.not_lt.mp hbeyond, rfl⟩

theorem selection_error (h : (selection c.interfaces.length).run s = .error e s') :
    RefusesFirst c .interfaces s.words e := by
  rcases numeral_bind_error h with htyping | ⟨w, value, t, hw, hvalue, h⟩
  · exact .inl htyping
  · obtain ⟨hchosen, h⟩ := run_ite_eq_error_iff.mp h
    obtain ⟨hbeyond, h⟩ := run_ite_eq_error_iff.mp h
    obtain ⟨rfl, -⟩ := run_fail_eq_error_iff.mp h
    exact .inr ⟨w, t.words, value, hw, rfl, hvalue, hchosen, hbeyond⟩

theorem coded_error {γ : Type} [Coded γ] {table : Table}
    (hmisses : ∀ {w n}, Numeral.unsigned w = .ok n → (∀ a : γ, (Coded.code a).toNat ≠ n) →
      Misses c w table (shownPlace n))
    (h : (coded table : Reader γ).run s = .error e s') : RefusesFirst c table s.words e := by
  rcases numeral_bind_error h with htyping | ⟨w, n, t, hw, hn, h⟩
  · exact .inl htyping
  · cases hcoded : (Coded.ofNat? n : Option γ) with
    | some a =>
      simp only [hcoded] at h
      cases h
    | none =>
      simp only [hcoded] at h
      obtain ⟨rfl, -⟩ := run_fail_eq_error_iff.mp h
      refine .inr ⟨w, t.words, shownPlace n, hw, rfl, hmisses hn fun a ha => ?_⟩
      rw [Coded.ofNat?_eq_some_iff.mpr ha] at hcoded
      cases hcoded

theorem coded_words {γ : Type} [Coded γ] {table : Table} {a : γ}
    (h : (coded table : Reader γ).run s = .ok a s') : ∃ w, s.words = w :: s'.words := by
  obtain ⟨n, t, hn, h⟩ := run_bind_eq_ok_iff.mp h
  obtain ⟨w, hw, -⟩ := numeral_words hn
  cases hcoded : (Coded.ofNat? n : Option γ) with
  | none =>
    simp only [hcoded] at h
    exact absurd h not_run_fail
  | some a' =>
    simp only [hcoded] at h
    obtain ⟨-, rfl⟩ := run_pure_eq_ok_iff.mp h
    exact ⟨w, hw⟩

theorem notification_error {word : Text} (h : (notification c word).run s = .error e s') :
    RefusesAt c s.words e := by
  unfold notification at h
  by_cases hdiscover : word = Operation.discover.label
  · rw [if_pos hdiscover] at h
    rcases run_bind_eq_error_iff.mp h with hplace | ⟨place, t, hplace, h⟩
    · exact (endpointPlace_error hplace).here rfl
    obtain ⟨w, hw, -⟩ := endpointPlace_words hplace
    rcases run_bind_eq_error_iff.mp h with hstage | ⟨stage, u, -, hpure⟩
    · have hfirst : RefusesFirst c .discoveryStages t.words e :=
        coded_error (fun hn hnone => ⟨_, hn, hnone, rfl⟩) hstage
      exact hfirst.behind hw rfl
    · cases hpure
  rw [if_neg hdiscover] at h
  by_cases hactivate : word = Operation.activate.label
  · rw [if_pos hactivate] at h
    rcases run_bind_eq_error_iff.mp h with hnone | ⟨more, t, hmore, h⟩
    · cases hnone
    obtain ⟨rfl, -⟩ := hasRest_words hmore
    cases more with
    | false => cases h
    | true =>
      rcases run_bind_eq_error_iff.mp h with hplace | ⟨place, u, hplace, h⟩
      · exact (endpointPlace_error hplace).here rfl
      obtain ⟨w, hw, -⟩ := endpointPlace_words hplace
      rcases run_bind_eq_error_iff.mp h with hnone | ⟨more, v, hmore, h⟩
      · cases hnone
      obtain ⟨rfl, -⟩ := hasRest_words hmore
      cases more with
      | false => cases h
      | true =>
        rcases run_bind_eq_error_iff.mp h with hchosen | ⟨chosen, x, -, hpure⟩
        · exact (selection_error hchosen).behind hw rfl
        · cases hpure
  rw [if_neg hactivate] at h
  by_cases hdeactivate : word = Operation.deactivate.label
  · rw [if_pos hdeactivate] at h
    rcases run_bind_eq_error_iff.mp h with hnone | ⟨more, t, hmore, h⟩
    · cases hnone
    obtain ⟨rfl, -⟩ := hasRest_words hmore
    cases more with
    | false => cases h
    | true =>
      rcases run_bind_eq_error_iff.mp h with htype | ⟨type, u, htype, h⟩
      · have hfirst : RefusesFirst c .deactivationTypes s.words e :=
          coded_error (fun hn hnone => ⟨_, hn, hnone, rfl⟩) htype
        exact hfirst.here rfl
      obtain ⟨w, hw⟩ := coded_words htype
      rcases run_bind_eq_error_iff.mp h with hreason | ⟨reason, v, -, hpure⟩
      · have hfirst : RefusesFirst c .deactivationReasons u.words e :=
          coded_error (fun hn hnone => ⟨_, hn, hnone, rfl⟩) hreason
        exact hfirst.behind hw rfl
      · cases hpure
  · rw [if_neg hdeactivate] at h
    obtain ⟨rfl, -⟩ := run_fail_eq_error_iff.mp h
    exact .inl rfl

theorem operation_bind_error {t : Text} {f : Text → Reader β}
    (h : (operation >>= f).run ⟨some t⟩ = .error e s') :
    ∃ word u, Input.words ⟨some t⟩ = word :: Input.words u ∧ (f word).run u = .error e s' := by
  rcases run_bind_eq_error_iff.mp h with hnone | ⟨word, u, hword, h⟩
  · cases hnone
  · exact ⟨word, u, operation_words hword, h⟩

theorem putArguments_isTyping : putArguments.Refuses fun e => e.isTyping = true :=
  .bind saps_isTyping fun _ => .bind records_isTyping fun _ => .pure _

theorem snep_error {t : Text} (h : snep.run ⟨some t⟩ = .error e s') : e.isTyping = true := by
  obtain ⟨word, u, -, h⟩ := operation_bind_error h
  refine Refuses.ite (p := fun e => e.isTyping = true) ?_ (.fail_bind (by rfl) _) u e s' h
  exact .bind putArguments_isTyping fun _ => .pure _

theorem llcp_error {t : Text} (h : llcp.run ⟨some t⟩ = .error e s') : e.isTyping = true := by
  obtain ⟨word, u, -, h⟩ := operation_bind_error h
  refine Refuses.ite (p := fun e => e.isTyping = true) ?_ (.fail_bind (by rfl) _) u e s' h
  exact .bind saps_isTyping fun _ => .pure _

theorem nci_error {t : Text} (h : (nci c).run ⟨some t⟩ = .error e s') :
    ∃ word ws, Input.words ⟨some t⟩ = word :: ws ∧ RefusesAt c ws e := by
  obtain ⟨word, u, hwords, h⟩ := operation_bind_error h
  refine ⟨word, u.words, hwords, ?_⟩
  rcases run_bind_eq_error_iff.mp h with hn | ⟨n, v, -, hpure⟩
  · exact notification_error hn
  · cases hpure

theorem tag_error {t : Text} (h : (tag c).run ⟨some t⟩ = .error e s') :
    ∃ word ws, Input.words ⟨some t⟩ = word :: ws ∧ RefusesAt c ws e := by
  obtain ⟨word, u, hwords, h⟩ := operation_bind_error h
  refine ⟨word, u.words, hwords, ?_⟩
  have hplaced {f : Nat → Reader Command}
      (hf : ∀ place, (f place).Refuses fun e => e.isTyping = true)
      (h : (endpointPlace c.endpoints.length >>= f).run u = .error e s') :
      RefusesAt c u.words e := by
    rcases run_bind_eq_error_iff.mp h with hplace | ⟨place, v, -, h⟩
    · exact (endpointPlace_error hplace).here rfl
    · exact .inl (hf place v e s' h)
  by_cases hset : word = "set".toList
  · rw [if_pos hset] at h
    refine hplaced (fun place => ?_) h
    cases htag : c.tagAt place with
    | error cause =>
      rw [Controller.tagAt_error htag]
      exact .fail_bind (by rfl) _
    | ok tag => exact .bind records_isTyping fun _ => .pure _
  rw [if_neg hset] at h
  by_cases hclear : word = "clear".toList
  · rw [if_pos hclear] at h
    exact hplaced (fun place => .pure _) h
  rw [if_neg hclear] at h
  by_cases hformat : word = "format".toList
  · rw [if_pos hformat] at h
    exact hplaced (fun place => .pure _) h
  · rw [if_neg hformat] at h
    obtain ⟨rfl, -⟩ := run_fail_eq_error_iff.mp h
    exact .inl rfl

end Reader

/-- A line is refused for lack of anything to do, for what is typed wrong, or for an index that its
words miss. -/
theorem ofLine_error {c : Controller} {line : Text} {e : Error} (h : ofLine c line = .error e) :
    e = .noArguments ∨ (∃ word, e = .unknownCommand word) ∨
      RefusesAt c ((words line).drop 2) e := by
  rcases ofLine_cases c line with hnone | ⟨word, hunknown⟩ | ⟨family, t, hwords, hread⟩
  · rw [hnone] at h
    exact .inl (Except.error.inj h).symm
  · rw [hunknown] at h
    exact .inr (.inl ⟨word, (Except.error.inj h).symm⟩)
  · rw [hread] at h
    unfold Family.readInput at h
    cases hrun : (family.reader c).run ⟨some t⟩ with
    | ok command s =>
      rw [hrun] at h
      cases h
    | error cause s =>
      rw [hrun] at h
      cases h
      refine .inr (.inr ?_)
      rw [hwords]
      cases family with
      | snep => exact .inl (Reader.snep_error hrun)
      | llcp => exact .inl (Reader.llcp_error hrun)
      | nci =>
        obtain ⟨word, ws, ht, hrefused⟩ := Reader.nci_error hrun
        rw [ht]
        exact hrefused
      | tag =>
        obtain ⟨word, ws, ht, hrefused⟩ := Reader.tag_error hrun
        rw [ht]
        exact hrefused

namespace Reader

theorem notification_checked (c : Controller) (word : Text) :
    (notification c word).Ensures fun n => Checked c (.notify n) := by
  unfold notification
  refine .ite (fun _ => ?_) fun _ => .ite (fun _ => ?_) fun _ => .ite (fun _ => ?_) fun _ => .fail _
  · exact .bind (endpointPlace_lt _) fun place hplace => .bind (.of_true _) fun stage _ =>
      .pure hplace
  · refine .bind (.of_true _) fun more _ => .ite (fun _ => ?_) fun _ => .pure ⟨by simp, by simp⟩
    refine .bind (endpointPlace_lt _) fun place hplace => ?_
    have hnamed : ∀ place' ∈ some place, place' < c.endpoints.length := by simpa using hplace
    refine .bind (.of_true _) fun more _ => .ite (fun _ => ?_) fun _ => .pure ⟨hnamed, by simp⟩
    exact .bind (selection_lt _) fun chosen hchosen => .pure ⟨hnamed, hchosen⟩
  · refine .bind (.of_true _) fun more _ => .ite (fun _ => ?_) fun _ => .pure trivial
    exact .bind (.of_true _) fun type _ => .bind (.of_true _) fun reason _ => .pure trivial

theorem snep_checked (c : Controller) : snep.Ensures (Checked c) := by
  refine .bind (.of_true _) fun word _ => .ite (fun _ => ?_) fun _ => .fail_bind _ _
  have hput : putArguments.Ensures fun p =>
      ∀ r ∈ p.records.records, Flags.isTyped r.flags.toNat = true :=
    .bind (.of_true _) fun _ _ => .bind records_typed fun _ hrecords => .pure hrecords
  refine .bind hput fun p hrecords => .pure ?_
  split
  · trivial
  · exact hrecords

theorem llcp_checked (c : Controller) : llcp.Ensures (Checked c) := by
  refine .bind (.of_true _) fun word _ => ?_
  have hconnect : (do return connect (← saps) : Reader Command).Ensures (Checked c) :=
    .bind (.of_true _) fun _ _ => .pure trivial
  exact .ite (fun _ => hconnect) fun _ => .fail_bind _ _

theorem tag_checked (c : Controller) : (tag c).Ensures (Checked c) := by
  refine .bind (.of_true _) fun word _ => .ite (fun _ => ?_) fun _ => .ite (fun _ => ?_) fun _ =>
    .ite (fun _ => ?_) fun _ => .fail _
  · refine .bind (endpointPlace_lt _) fun place hplace => ?_
    have hset : (do return setTag place (← records).records : Reader Command).Ensures (Checked c) :=
      .bind records_typed fun _ hrecords => .pure ⟨hplace, hrecords⟩
    cases c.tagAt place with
    | error e => exact .fail_bind _ _
    | ok tag => exact hset
  · exact .bind (endpointPlace_lt _) fun _ hplace => .pure hplace
  · exact .bind (endpointPlace_lt _) fun _ hplace => .pure hplace

theorem reader_checked (family : Family) (c : Controller) :
    (family.reader c).Ensures (Checked c) := by
  cases family with
  | snep => exact snep_checked c
  | nci =>
    exact .bind (.of_true _) fun word _ => .bind (notification_checked c word) fun _ hn => .pure hn
  | llcp => exact llcp_checked c
  | tag => exact tag_checked c

end Reader

/-- What a line is read as names nothing that is not there. -/
theorem ofLine_checked {c : Controller} {line : Text} {command : Command}
    (h : ofLine c line = .ok command) : command.Checked c := by
  obtain ⟨family, input, s, -, hrun⟩ := ofLine_eq_ok h
  exact Reader.reader_checked family c input command s hrun

end Command
end NearField
