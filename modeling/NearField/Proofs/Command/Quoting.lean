import NearField.Proofs.Command.RecordLines
import NearField.Proofs.Command.Refusals

/-! # What an error quotes

An error that is found while a line is read may hold texts. Each of them names an argument or is a
piece of the line; the rest of its message is fixed wording and numbers. So the message has no line
feed unless the line has one.
-/
namespace NearField

namespace Text

def OneLine (t : Text) : Prop := '\n' ∉ t

instance (t : Text) : Decidable t.OneLine := inferInstanceAs (Decidable ('\n' ∉ t))

namespace OneLine
variable {s t : Text}

theorem append (hs : s.OneLine) (ht : t.OneLine) : (s ++ t).OneLine := List.not_mem_append hs ht

theorem cons {c : Char} (hc : '\n' ≠ c) (ht : t.OneLine) : OneLine (c :: t) :=
  List.not_mem_cons_of_ne_of_not_mem hc ht

theorem of_infix (ht : t.OneLine) (hs : s <:+: t) : s.OneLine := fun h => ht (hs.subset h)

theorem digitChar_ne (n : Nat) : '\n' ≠ n.digitChar := by
  have hdigits : ∀ n : Fin 16, '\n' ≠ n.val.digitChar := by decide
  by_cases hn : n < 16
  · exact hdigits ⟨n, hn⟩
  · rw [Nat.digitChar_eq_star.mpr (Nat.not_lt.mp hn)]
    decide

theorem toDigitsCore {base fuel n : Nat} (ht : t.OneLine) :
    OneLine (Nat.toDigitsCore base fuel n t) := by
  induction fuel generalizing n t with
  | zero => exact ht
  | succ fuel ih =>
    have hdigit : OneLine ((n % base).digitChar :: t) := ht.cons (digitChar_ne _)
    rw [Nat.toDigitsCore]
    split
    · exact hdigit
    · exact ih hdigit

theorem toDigits (base n : Nat) : OneLine (Nat.toDigits base n) :=
  toDigitsCore (t := []) (by decide)

theorem decimal (n : Nat) : (decimal n).OneLine := toDigits 10 n

theorem signedDecimal (value : Int) : (signedDecimal value).OneLine := by
  cases value with
  | ofNat n => exact decimal n
  | negSucc n => exact (decimal (n + 1)).cons (by decide)

theorem hex (n : Nat) : (hex n).OneLine := by
  refine .cons (by decide) (.cons (by decide) ?_)
  split
  · exact (toDigits 16 n).cons (by decide)
  · exact toDigits 16 n

end OneLine
end Text

theorem Base64.Malformed.oneLine_message (cause : Malformed) : cause.message.OneLine := by
  cases cause with
  | length count => exact .append (by decide) (.decimal count)
  | symbol offset byte | lastSymbol offset byte =>
    exact .append (.append (.append (.append (by decide) (.decimal byte.toNat)) (by decide))
      (.decimal offset)) (by decide)

theorem FrameFault.oneLine_message (fault : FrameFault) : fault.message.OneLine := by
  cases fault with
  | noIdLength => decide
  | unsupportedVersion version => exact .append (by decide) (.hex version.toNat)
  | unexpectedRequest request => exact .append (by decide) (.hex request.toNat)

theorem ValueFault.oneLine_message (fault : ValueFault) : fault.message.OneLine := by
  rcases fault with fault | _ | _
  · cases fault <;> decide
  · decide
  · decide

namespace Error

/-- The texts that an error holds, those of its cause among them. -/
def texts : Error → List Text
  | invalidOperation word | unknownCommand word => [word]
  | missingToken field | emptyToken field | invalidSap field _ => [field]
  | invalidValue field value _ => [field, value]
  | trailingCharacters rest => [rest]
  | failed _ cause => cause.texts
  | _ => []

/-- A message breaks only where a text breaks that the error holds. -/
theorem oneLine_message {e : Error} (h : ∀ t ∈ e.texts, t.OneLine) : e.message.OneLine := by
  induction e with
  | failed operation cause ih =>
    have hlabel : operation.label.OneLine := by cases operation <;> decide
    exact .append (.append (.append (by decide) hlabel) (by decide)) (ih h)
  | invalidOperation word | unknownCommand word | missingToken word =>
    have hword : word.OneLine := h word (List.mem_singleton_self word)
    exact .append (.append (by decide) hword) (by decide)
  | emptyToken word | trailingCharacters word =>
    exact .append (by decide) (h word (List.mem_singleton_self word))
  | invalidSap field value =>
    have hfield : field.OneLine := h field (List.mem_singleton_self field)
    exact .append (.append (.append (.append (by decide) hfield) (by decide))
      (.signedDecimal value)) (by decide)
  | invalidValue field value fault =>
    have hfield : field.OneLine := h field List.mem_cons_self
    have hvalue : value.OneLine := h value (List.mem_cons_of_mem _ List.mem_cons_self)
    exact .append (.append (.append (.append (.append (by decide) hvalue) (by decide)) hfield)
      (by decide)) fault.oneLine_message
  | unknownIndex table value =>
    have hlabel : table.label.OneLine := by cases table <;> decide
    exact .append (.append (.append (by decide) hlabel) (by decide)) (.signedDecimal value)
  | fieldTooLong field length =>
    have hlabel : field.label.OneLine := by cases field <;> decide
    exact .append (.append (.append (.append hlabel (by decide)) (.decimal length)) (by decide))
      (.decimal field.limit)
  | reservedFlags flags => exact .append (.append (by decide) (.hex flags)) (by decide)
  | invalidTypeName n | shortRecordTooLong n =>
    exact .append (.append (by decide) (.decimal n)) (by decide)
  | tooManyRecords least most actual =>
    exact .append (.append (.append (.append (.append (by decide) (.decimal least)) (by decide))
      (.decimal most)) (by decide)) (.decimal actual)
  | bufferOverflow n m | messageTruncated n m =>
    exact .append (.append (.append (.append (by decide) (.decimal n)) (by decide)) (.decimal m))
      (by decide)
  | invalidLength expected actual =>
    exact .append (.append (.append (by decide) (.decimal expected)) (by decide)) (.decimal actual)
  | base64 cause => exact .append (by decide) cause.oneLine_message
  | frameFormat fault => exact .append (by decide) fault.oneLine_message
  | zeroSap role => cases role <;> decide
  | host fault => cases fault <;> decide
  | noArguments | noOperation | noRecord | reportRefused | noActiveEndpoint | notATag | noInterface
  | addressOverflow => decide

def fieldNames : List Text :=
  [SapRole.destination.label, SapRole.source.label, Table.endpoints.label, Table.interfaces.label,
    Table.discoveryStages.label, Table.deactivationTypes.label, Table.deactivationReasons.label,
    "NDEF record".toList, "NDEF flags".toList, "NDEF TNF".toList, "NDEF type".toList,
    "NDEF id".toList, "NDEF payload".toList]

/-- Every text that an error holds is a piece of what was typed, or names an argument. -/
def Quotes (typed : Text) (e : Error) : Prop := ∀ t ∈ e.texts, t <:+: typed ∨ t ∈ fieldNames

theorem quotes_of_texts_eq_nil {e : Error} (h : e.texts = []) (typed : Text) : e.Quotes typed := by
  intro t ht
  rw [h] at ht
  cases ht

theorem Quotes.oneLine_message {typed : Text} {e : Error} (h : e.Quotes typed)
    (ht : typed.OneLine) : e.message.OneLine := by
  have hnames : ∀ name ∈ fieldNames, name.OneLine := by decide
  refine Error.oneLine_message fun t htexts => ?_
  rcases h t htexts with hpiece | hname
  · exact ht.of_infix hpiece
  · exact hnames t hname

end Error

namespace Command
open Emulator

def Input.Ends (s : Input) (typed : Text) : Prop := ∀ rest ∈ s.rest, rest <:+ typed

namespace Input.Ends
variable {s s' : Input} {typed : Text}

theorem token? {w : Text} {delimiters : List Char} (hs : s.Ends typed)
    (h : s.token? delimiters = some (w, s')) : w <:+: typed ∧ s'.Ends typed := by
  obtain ⟨left⟩ := s
  cases left with
  | none => cases h
  | some left =>
    have hleft : left <:+ typed := hs left rfl
    rcases exists_token left delimiters with
      ⟨-, htoken⟩ | ⟨taken, w', behind, rfl, ⟨-, d, -, rfl⟩, htoken⟩
    · cases htoken.symm.trans h
      exact ⟨hleft.isInfix, fun behind hbehind => nomatch hbehind⟩
    · cases htoken.symm.trans h
      have hword : w <+: w ++ [d] ++ behind :=
        (List.prefix_append w [d]).trans (List.prefix_append _ behind)
      refine ⟨hword.isInfix.trans hleft.isInfix, ?_⟩
      rintro rest ⟨⟩
      exact (List.suffix_append _ behind).trans hleft

theorem skipBlanks (hs : s.Ends typed) : s.skipBlanks.Ends typed := by
  obtain ⟨left⟩ := s
  cases left with
  | none => exact hs
  | some left =>
    rintro rest ⟨⟩
    exact (List.dropWhile_suffix _).trans (hs left rfl)

theorem after? {c : Char} (hs : s.Ends typed) (h : s.after? c = some s') : s'.Ends typed := by
  obtain ⟨tail, hrest, rfl⟩ := after?_eq_some_iff.mp h
  rintro rest ⟨⟩
  exact (List.suffix_cons c tail).trans (hs _ hrest)

end Input.Ends

namespace Reader
variable {α β : Type} {typed : Text}

/-- From any end of a text, a reader comes to another one with a value that has the property, or
fails with an error that quotes the text. -/
def Stays (r : Reader α) (typed : Text) (p : α → Prop) : Prop :=
  ∀ s : Input, s.Ends typed → match r.run s with
    | .ok a s' => s'.Ends typed ∧ p a
    | .error e _ => e.Quotes typed

namespace Stays
variable {p : α → Prop} {q : β → Prop}

theorem pure {a : α} (h : p a) : (pure a : Reader α).Stays typed p := fun _ hs => ⟨hs, h⟩

theorem get : (MonadState.get : Reader Input).Stays typed fun s => s.Ends typed :=
  fun _ hs => ⟨hs, hs⟩

theorem fail {e : Error} (he : e.Quotes typed) : (throw e : Reader α).Stays typed p := fun _ _ => he

theorem bind {r : Reader α} {f : α → Reader β} (hr : r.Stays typed p)
    (hf : ∀ a, p a → (f a).Stays typed q) : (r >>= f).Stays typed q := by
  intro s hs
  have hfirst := hr s hs
  rw [EStateM.run_bind]
  cases hrun : r.run s with
  | ok a s' =>
    rw [hrun] at hfirst
    exact hf a hfirst.2 s' hfirst.1
  | error e s' =>
    rw [hrun] at hfirst
    exact hfirst

theorem fail_bind {e : Error} (he : e.Quotes typed) (f : α → Reader β) :
    ((throw e : Reader α) >>= f).Stays typed q := fun _ _ => he

theorem ite {c : Prop} [Decidable c] {r r' : Reader α} (hr : r.Stays typed p)
    (hr' : r'.Stays typed p) : (if c then r else r').Stays typed p := by
  split
  · exact hr
  · exact hr'

end Stays

theorem token_stays {field : Text} (hfield : field ∈ Error.fieldNames) (delimiters : List Char) :
    (token field delimiters).Stays typed (· <:+: typed) := by
  intro s hs
  simp only [EStateM.run, token]
  cases htoken : s.token? delimiters with
  | none => exact List.forall_mem_singleton.mpr (.inr hfield)
  | some found =>
    obtain ⟨hword, hrest⟩ := hs.token? htoken
    exact ⟨hrest, hword⟩

theorem text_stays {field : Text} (hfield : field ∈ Error.fieldNames) (delimiters : List Char)
    (allowEmpty : Bool) : (text field delimiters allowEmpty).Stays typed (· <:+: typed) := by
  refine .bind (token_stays hfield delimiters) fun w hw => .ite (.fail_bind ?_ _) (.pure hw)
  exact List.forall_mem_singleton.mpr (.inr hfield)

theorem numeral_stays {parse : Text → Except Numeral.Fault α} {field : Text}
    (hfield : field ∈ Error.fieldNames) (delimiters : List Char) :
    (numeral parse field delimiters).Stays typed fun _ => True := by
  refine .bind (token_stays hfield delimiters) fun w hw => ?_
  cases parse w with
  | ok value => exact .pure trivial
  | error fault =>
    exact .fail (List.forall_mem_cons.mpr ⟨.inr hfield, List.forall_mem_singleton.mpr (.inl hw)⟩)

theorem sap_stays (role : SapRole) (allowLast : Bool) :
    (sap role.label allowLast).Stays typed fun _ => True := by
  have hrole : role.label ∈ Error.fieldNames := by
    cases role <;> simp [Error.fieldNames]
  refine .bind (numeral_stays hrole _) fun value _ =>
    .ite (.pure trivial) (.ite (.pure trivial) (.fail ?_))
  exact List.forall_mem_singleton.mpr (.inr hrole)

theorem saps_stays : saps.Stays typed fun _ => True :=
  .bind (sap_stays .destination true) fun _ _ => .bind (sap_stays .source true) fun _ _ =>
    .pure trivial

theorem endpointPlace_stays (count : Nat) : (endpointPlace count).Stays typed fun _ => True :=
  .bind (numeral_stays (by simp [Error.fieldNames]) _) fun _ _ =>
    .ite (.pure trivial) (.fail (Error.quotes_of_texts_eq_nil rfl typed))

theorem selection_stays (count : Nat) : (selection count).Stays typed fun _ => True :=
  .bind (numeral_stays (by simp [Error.fieldNames]) _) fun _ _ => .ite (.pure trivial)
    (.ite (.pure trivial) (.fail (Error.quotes_of_texts_eq_nil rfl typed)))

theorem coded_stays {γ : Type} [Coded γ] (table : Table) :
    (coded table : Reader γ).Stays typed fun _ => True := by
  have htable : table.label ∈ Error.fieldNames := by
    cases table <;> simp [Error.fieldNames]
  refine .bind (numeral_stays htable _) fun n _ => ?_
  cases (Coded.ofNat? n : Option γ) with
  | some a => exact .pure trivial
  | none => exact .fail (Error.quotes_of_texts_eq_nil rfl typed)

theorem openingBracket_stays : openingBracket.Stays typed fun _ => True := by
  intro s hs
  have hskipped := hs.skipBlanks
  simp only [EStateM.run, openingBracket]
  cases hafter : s.skipBlanks.after? '[' with
  | some behind => exact ⟨hskipped.after? hafter, trivial⟩
  | none =>
    cases hrest : s.skipBlanks.rest with
    | none => exact Error.quotes_of_texts_eq_nil rfl typed
    | some rest =>
      cases rest with
      | nil => exact Error.quotes_of_texts_eq_nil rfl typed
      | cons c rest =>
        have hpiece : c :: rest <:+: typed := (hskipped _ hrest).isInfix
        exact List.forall_mem_cons.mpr
          ⟨.inr (by simp [Error.fieldNames]), List.forall_mem_singleton.mpr (.inl hpiece)⟩

theorem flags_stays : flags.Stays typed fun _ => True :=
  .bind (numeral_stays (by simp [Error.fieldNames]) _) fun _ _ =>
    .ite (.pure trivial) (.fail_bind (Error.quotes_of_texts_eq_nil rfl typed) _)

theorem typeName_stays : typeName.Stays typed fun _ => True := by
  refine .bind (numeral_stays (by simp [Error.fieldNames]) _) fun n _ => ?_
  cases (Coded.ofNat? n : Option Ndef.TypeName) with
  | some a => exact .pure trivial
  | none => exact .fail (Error.quotes_of_texts_eq_nil rfl typed)

theorem payload_stays : payload.Stays typed fun _ => True := by
  have hfield : "NDEF payload".toList ∈ Error.fieldNames := by simp [Error.fieldNames]
  refine .bind (text_stays hfield _ _) fun w hw => .bind .get fun s _ =>
    .ite (.fail_bind ?_ _) (.pure trivial)
  exact List.forall_mem_cons.mpr ⟨.inr hfield, List.forall_mem_singleton.mpr (.inl hw)⟩

theorem record_stays : record.Stays typed fun _ => True :=
  .bind openingBracket_stays fun _ _ => .bind flags_stays fun _ _ => .bind typeName_stays
    fun _ _ => .bind (text_stays (by simp [Error.fieldNames]) _ _) fun _ _ =>
      .bind (text_stays (by simp [Error.fieldNames]) _ _) fun _ _ => .bind payload_stays
        fun _ _ => .pure trivial

theorem RefusesRest.quotes {free : Nat} {rest : Text} {e : Error} (h : RefusesRest free rest e)
    (hrest : rest <:+ typed) : e.Quotes typed := by
  obtain ⟨-, hcause⟩ := h
  split at hcause
  · have hpiece : Text.trimStart rest <:+: typed :=
      ((List.dropWhile_suffix _).trans hrest).isInfix
    rw [hcause]
    exact List.forall_mem_singleton.mpr (.inl hpiece)
  · obtain ⟨s, hread⟩ := hcause
    have hends : (Input.mk (some rest)).Ends typed := by
      rintro left ⟨⟩
      exact hrest
    have hquotes := record_stays _ hends
    rw [hread] at hquotes
    exact hquotes

theorem records_stays : records.Stays typed fun _ => True := by
  intro s hs
  have hmore : match (recordsInto Ndef.maxRecords default s).result with
      | .ok _ => (recordsInto Ndef.maxRecords default s).input.Ends typed
      | .error e => e.Quotes typed := by
    obtain ⟨left⟩ := s
    cases left with
    | none => exact hs
    | some left =>
      obtain ⟨rs, front, rest, rfl, hfront, hfree, hrest⟩ := exists_records Ndef.maxRecords left
      have hend : rest <:+ typed := (List.suffix_append front rest).trans (hs _ rfl)
      obtain ⟨l, -, hread⟩ :=
        moreRecords_append (l := default) hfront hfree (Nat.le_refl Ndef.maxRecords) rest
      replace hread : recordsInto Ndef.maxRecords default ⟨some (front ++ rest)⟩ = _ := hread
      rw [hread]
      rcases hrest with hblank | ⟨e, hrefused⟩
      · rw [moreRecords_of_blank (s := ⟨some rest⟩) hblank]
        rintro left ⟨⟩
        exact hend
      · rw [(moreRecords_of_refused hrefused l).1]
        exact hrefused.quotes hend
  simp only [EStateM.run, records]
  generalize recordsInto Ndef.maxRecords default s = read at hmore
  obtain ⟨result, l, input⟩ := read
  cases result with
  | ok n => exact ⟨hmore, trivial⟩
  | error e => exact hmore

theorem operation_stays : operation.Stays typed (· <:+: typed) := by
  intro s hs
  simp only [EStateM.run, operation]
  cases htoken : s.token? space with
  | none => exact Error.quotes_of_texts_eq_nil rfl typed
  | some found =>
    obtain ⟨hword, hrest⟩ := hs.token? htoken
    exact ⟨hrest, hword⟩

theorem hasRest_stays : hasRest.Stays typed fun _ => True :=
  .bind .get fun _ _ => .pure trivial

theorem notification_stays (c : Controller) {word : Text} (hword : word <:+: typed) :
    (notification c word).Stays typed fun _ => True := by
  unfold notification
  refine .ite ?_ (.ite ?_ (.ite ?_ (.fail (List.forall_mem_singleton.mpr (.inl hword)))))
  · exact .bind (endpointPlace_stays _) fun _ _ => .bind (coded_stays _) fun _ _ => .pure trivial
  · refine .bind hasRest_stays fun _ _ => .ite ?_ (.pure trivial)
    refine .bind (endpointPlace_stays _) fun _ _ => ?_
    refine .bind hasRest_stays fun _ _ => .ite ?_ (.pure trivial)
    exact .bind (selection_stays _) fun _ _ => .pure trivial
  · refine .bind hasRest_stays fun _ _ => .ite ?_ (.pure trivial)
    exact .bind (coded_stays _) fun _ _ => .bind (coded_stays _) fun _ _ => .pure trivial

theorem snep_stays : snep.Stays typed fun _ => True := by
  have hput : putArguments.Stays typed fun _ => True :=
    .bind saps_stays fun _ _ => .bind records_stays fun _ _ => .pure trivial
  refine .bind operation_stays fun word hword => .ite ?_ (.fail_bind ?_ _)
  · exact .bind hput fun _ _ => .pure trivial
  · exact List.forall_mem_singleton.mpr (.inl hword)

theorem llcp_stays : llcp.Stays typed fun _ => True := by
  refine .bind operation_stays fun word hword => .ite ?_ (.fail_bind ?_ _)
  · exact .bind saps_stays fun _ _ => .pure trivial
  · exact List.forall_mem_singleton.mpr (.inl hword)

theorem nci_stays (c : Controller) : (nci c).Stays typed fun _ => True :=
  .bind operation_stays fun _ hword => .bind (notification_stays c hword) fun _ _ => .pure trivial

theorem tag_stays (c : Controller) : (tag c).Stays typed fun _ => True := by
  refine .bind operation_stays fun word hword => .ite ?_ (.ite ?_ (.ite ?_ (.fail ?_)))
  · refine .bind (endpointPlace_stays _) fun place _ => ?_
    cases htag : c.tagAt place with
    | error e =>
      rw [Controller.tagAt_error htag]
      exact .fail_bind (Error.quotes_of_texts_eq_nil rfl typed) _
    | ok tag => exact .bind records_stays fun _ _ => .pure trivial
  · exact .bind (endpointPlace_stays _) fun _ _ => .pure trivial
  · exact .bind (endpointPlace_stays _) fun _ _ => .pure trivial
  · exact List.forall_mem_singleton.mpr (.inl hword)

theorem reader_stays (family : Family) (c : Controller) :
    (family.reader c).Stays typed fun _ => True := by
  cases family with
  | snep => exact snep_stays
  | nci => exact nci_stays c
  | llcp => exact llcp_stays
  | tag => exact tag_stays c

end Reader

/-- A line that cannot be read is refused with an error that quotes it, its line breaks left out. -/
theorem ofLine_quotes {c : Controller} {line : Text} {e : Error} (h : ofLine c line = .error e) :
    e.Quotes (withoutBreaks line) := by
  have hwhole : (Input.mk (some (withoutBreaks line))).Ends (withoutBreaks line) := by
    rintro rest ⟨⟩
    exact List.suffix_rfl
  obtain ⟨⟨word, input⟩, htoken⟩ : ∃ found,
    (Input.mk (some (withoutBreaks line))).token? Reader.space = some found := ⟨_, rfl⟩
  obtain ⟨hword, hrest⟩ := hwhole.token? htoken
  have hsplit : splitLine line = (word, input.rest) := by
    unfold splitLine
    rw [withoutBreaks] at htoken
    simp only [htoken]
  rw [ofLine, hsplit] at h
  simp only at h
  cases hfamily : Family.ofKeyword? word with
  | none =>
    rw [hfamily] at h
    cases h
    split
    · exact Error.quotes_of_texts_eq_nil rfl _
    · exact List.forall_mem_singleton.mpr (.inl hword)
  | some family =>
    obtain ⟨arguments⟩ := input
    cases arguments with
    | none =>
      simp only [hfamily] at h
      cases h
      exact Error.quotes_of_texts_eq_nil rfl _
    | some arguments =>
      have hread := Reader.reader_stays family c ⟨some arguments⟩ hrest
      simp only [hfamily, Family.readArguments, Family.readInput] at h
      cases hrun : (family.reader c).run ⟨some arguments⟩ with
      | ok command s =>
        rw [hrun] at h
        cases h
      | error cause s =>
        rw [hrun] at h hread
        cases h
        exact hread

end Command
end NearField
