import NearField.Proofs.Base64.Spelling
import NearField.Proofs.Command.Bounds
import NearField.Proofs.Command.RecordGrammar
import NearField.Proofs.Ndef.Content
import NearField.Proofs.Notation

/-! # Rendering of commands

A command that sends records can be typed in many ways: its numbers have many notations, a blank or
a comma ends a field, and records stand behind blanks. Every such line is read as the command.
-/
namespace NearField.Command
open Ndef

def IsInner (c : Char) : Prop := c ∉ [' ', ',', ']']

theorem isInner_of_isMark {c : Char} (h : Numeral.IsMark c) : IsInner c := by
  intro hc
  simp only [List.mem_cons, List.not_mem_nil, or_false] at hc
  rcases hc with rfl | rfl | rfl <;> revert h <;> unfold Numeral.IsMark <;> decide

theorem isInner_of_mem_encode {data : Bytes} {c : Char} (h : c ∈ Base64.encode data) :
    IsInner c := by
  have hall : ∀ v : Fin 64, Base64.symbol v.val ∉ [' ', ',', ']'] := by decide
  obtain ⟨v, hv, rfl⟩ := Base64.exists_symbol_of_mem_encode h
  exact hall ⟨v, hv⟩

theorem IsInner.not_mem {c : Char} (h : IsInner c) {delimiters : List Char}
    (hd : delimiters ⊆ [' ', ',', ']']) : c ∉ delimiters := fun hc => h (hd hc)

namespace Reader
variable {α β : Type}

/-- Whatever stands behind the text, the reader takes just the text and gives the value. -/
def Reads (r : Reader α) (t : Text) (a : α) : Prop :=
  ∀ rest, r.run ⟨some (t ++ rest)⟩ = .ok a ⟨some rest⟩

namespace Reads

theorem pure (a : α) : Reads (pure a) [] a := fun _ => rfl

theorem bind {r : Reader α} {f : α → Reader β} {t u : Text} {a : α} {b : β}
    (hr : r.Reads t a) (hf : (f a).Reads u b) : (r >>= f).Reads (t ++ u) b := by
  intro rest
  rw [EStateM.run_bind, List.append_assoc, hr]
  exact hf rest

theorem bind_nil {r : Reader α} {f : α → Reader β} {t : Text} {a : α} {b : β}
    (hr : r.Reads t a) (hf : (f a).Reads [] b) : (r >>= f).Reads t b := by
  have h := hr.bind hf
  rwa [List.append_nil] at h

end Reads

theorem Accepts.reads {r : Reader α} {g : Text → α → Prop} {t : Text} {a : α} (hr : r.Accepts g)
    (h : g t a) : r.Reads t a := fun rest => (hr _ a rest).mpr ⟨t, rfl, h⟩

theorem numeral_reads {parse : Text → Except Numeral.Fault α} (field : Text)
    {delimiters : List Char} {t : Text} {d : Char} {a : α} (hparse : parse t = .ok a)
    (ht : ∀ c ∈ t, c ∉ delimiters) (hd : d ∈ delimiters) :
    (numeral parse field delimiters).Reads (t ++ [d]) a :=
  (numeral_accepts parse field delimiters).reads ⟨t, ⟨ht, d, hd, rfl⟩, hparse⟩

end Reader

def sapNumber : Llcp.Sap → Int
  | .last => -1
  | .value point => point.toNat

namespace Reader

theorem sap_reads (field : Text) {s : Llcp.Sap} {t : Text} (ht : Numeral.Signed t (sapNumber s))
    (hs : s.InRange) : (sap field true).Reads (t ++ [' ']) s := by
  have hinner : ∀ c ∈ t, c ∉ space :=
    fun c hc => (isInner_of_isMark (ht.isMark c hc)).not_mem (by decide)
  cases s with
  | last =>
    have hvalue := ht.eq_ok (by decide) (by decide)
    exact (numeral_reads field hvalue hinner (List.mem_singleton_self _)).bind_nil (.pure _)
  | value point =>
    have hpoint : (sapNumber (.value point)).toNat = point.toNat := rfl
    have hlt : point.toNat < 64 := hs
    have hrange : 0 ≤ sapNumber (.value point) ∧ sapNumber (.value point) < Llcp.pointCount :=
      ⟨Int.natCast_nonneg _, Int.ofNat_lt.mpr hs⟩
    have hlast : ¬ (sapNumber (.value point) = -1 ∧ true = true) := by omega
    have hvalue := ht.eq_ok (by omega) (by unfold Llcp.pointCount at hrange; omega)
    refine (numeral_reads field hvalue hinner (List.mem_singleton_self _)).bind_nil ?_
    rw [if_neg hlast, if_pos hrange, hpoint, UInt8.ofNat_toNat]
    exact .pure _

end Reader

def typed (c : Content) : Record :=
  ⟨c.flags, c.typeName, Base64.encode c.type, Base64.encode c.id, Base64.encode c.payload⟩

/-- A record in brackets, with a blank or a comma behind each field but the last. -/
inductive RecordText (c : Content) : Text → Prop
  | fields {flags typeName : Text} {d₁ d₂ d₃ d₄ : Char}
      (hflags : Numeral.Unsigned flags c.flags.toNat)
      (htypeName : Numeral.Unsigned typeName (Coded.code c.typeName).toNat)
      (h₁ : d₁ ∈ Reader.separators) (h₂ : d₂ ∈ Reader.separators)
      (h₃ : d₃ ∈ Reader.separators) (h₄ : d₄ ∈ Reader.separators) :
      RecordText c (['['] ++ ((flags ++ [d₁]) ++ ((typeName ++ [d₂]) ++
        ((Base64.encode c.type ++ [d₃]) ++ ((Base64.encode c.id ++ [d₄]) ++
          (Base64.encode c.payload ++ [']']))))))

/-- Records with blanks before and between them. -/
inductive RecordsText : List Content → Text → Prop
  | nil : RecordsText [] []
  | cons {c : Content} {cs : List Content} {blanks t rest : Text}
      (hblanks : ∀ b ∈ blanks, Text.isBlank b = true) (ht : RecordText c t)
      (hrest : RecordsText cs rest) : RecordsText (c :: cs) (blanks ++ t ++ rest)

theorem isField_of_isInner {w : Text} {delimiters : List Char} {d : Char}
    (hw : ∀ c ∈ w, IsInner c) (hinner : delimiters ⊆ [' ', ',', ']']) (hd : d ∈ delimiters) :
    IsField delimiters (w ++ [d]) w :=
  ⟨fun c hc => (hw c hc).not_mem hinner, d, hd, rfl⟩

theorem encode_ne_nil {data : Bytes} (h : data ≠ []) : Base64.encode data ≠ [] :=
  fun he => h ((Base64.spells_encode data).nil_iff.mp he)

theorem RecordText.grammar {c : Content} {t : Text} (h : RecordText c t)
    (hc : c.Fits ∧ c.type ≠ [] ∧ c.payload ≠ []) : RecordGrammar (typed c) t := by
  obtain ⟨hfits, htype, hpayload⟩ := hc
  cases h with
  | fields hflags htypeName h₁ h₂ h₃ h₄ =>
    have hmarks {w : Text} {n : Nat} (hw : Numeral.Unsigned w n) : ∀ c ∈ w, IsInner c :=
      fun c hc => isInner_of_isMark (hw.isMark c hc)
    have hencoded (data : Bytes) : ∀ c ∈ Base64.encode data, IsInner c :=
      fun _ hc => isInner_of_mem_encode hc
    have hrecord := RecordGrammar.fields (r := typed c)
      (isField_of_isInner (hmarks hflags) (by decide) h₁) hflags hfits.flags
      (isField_of_isInner (hmarks htypeName) (by decide) h₂) htypeName
      (isField_of_isInner (hencoded c.type) (by decide) h₃) (encode_ne_nil htype)
      (isField_of_isInner (hencoded c.id) (by decide) h₄)
      (isField_of_isInner (hencoded c.payload) (by decide) (List.mem_singleton_self ']'))
      (encode_ne_nil hpayload)
    exact hrecord

namespace RecordsText
variable {cs : List Content} {t : Text}

theorem exists_append_bracket (h : RecordsText cs t) (hne : cs ≠ []) :
    ∃ front, t = front ++ [']'] := by
  induction h with
  | nil => exact absurd rfl hne
  | @cons c cs blanks t rest hblanks ht hrest ih =>
    by_cases hcs : cs = []
    · cases hrest with
      | cons => cases hcs
      | nil =>
        cases ht with
        | fields => simp only [← List.append_assoc]; exact ⟨_, List.append_nil _⟩
    · obtain ⟨front, rfl⟩ := ih hcs
      exact ⟨blanks ++ t ++ front, (List.append_assoc _ _ _).symm⟩

theorem grammar (h : RecordsText cs t) (hcs : ∀ c ∈ cs, c.Fits ∧ c.type ≠ [] ∧ c.payload ≠ []) :
    RecordsGrammar (cs.map typed) t := by
  induction h with
  | nil => exact .nil
  | cons hblanks ht hrest ih =>
    obtain ⟨hc, hcs⟩ := List.forall_mem_cons.mp hcs
    exact .cons hblanks (ht.grammar hc) (ih hcs)

end RecordsText

namespace Reader

theorem records_eq {cs : List Content} {t : Text} (h : RecordsText cs t)
    (hcs : ∀ c ∈ cs, c.Fits ∧ c.type ≠ [] ∧ c.payload ≠ []) (hroom : cs.length ≤ maxRecords) :
    ∃ l, records.run ⟨some t⟩ = .ok l ⟨some []⟩ ∧ l.records = cs.map typed := by
  have hfree : (cs.map typed).length ≤ maxRecords := by rwa [List.length_map]
  obtain ⟨l, hall, hmore⟩ := moreRecords_append (l := default) (h.grammar hcs) hfree
    (Nat.le_refl maxRecords) []
  rw [List.append_nil, moreRecords_of_blank (s := ⟨some []⟩) rfl] at hmore
  refine ⟨l, ?_, hall⟩
  simp only [EStateM.run, records, recordsInto]
  rw [show min maxRecords maxRecords - (default : RecordList).size = maxRecords from rfl, hmore]

end Reader

/-- A line that sends records. -/
inductive SendLine (saps : Llcp.Saps) (cs : List Content) : Text → Prop
  | words {destination source t ending : Text}
      (hdestination : Numeral.Signed destination (sapNumber saps.destination))
      (hsource : Numeral.Signed source (sapNumber saps.source)) (ht : RecordsText cs t)
      (hending : ∀ c ∈ ending, c = '\r' ∨ c = '\n') :
      SendLine saps cs ("snep put ".toList ++ (destination ++ [' '] ++ (source ++ [' ']) ++ t) ++
        ending)

theorem splitLine_eq {word arguments ending : Text} (hword : ∀ c ∈ word, c ∉ Reader.space)
    (hbracket : ∃ front, arguments = front ++ [']']) (hending : ∀ c ∈ ending, c = '\r' ∨ c = '\n') :
    splitLine (word ++ ' ' :: arguments ++ ending) = (word, some arguments) := by
  obtain ⟨front, rfl⟩ := hbracket
  have hdrop : Text.dropEndWhile (fun c => c == '\r' || c == '\n')
      (word ++ ' ' :: (front ++ [']']) ++ ending) = word ++ ' ' :: (front ++ [']']) := by
    rw [Text.dropEndWhile_append_of_all _ (by simpa using hending), ← List.cons_append,
      ← List.append_assoc]
    exact Text.dropEndWhile_concat _ rfl
  simp only [splitLine, hdrop, Input.token?_append hword (List.mem_singleton_self ' ')]

namespace Reader

theorem operation_reads {t : Text} (ht : ∀ c ∈ t, c ∉ space) : operation.Reads (t ++ [' ']) t := by
  intro rest
  have h : (Input.mk (some (t ++ ' ' :: rest))).token? space = _ :=
    Input.token?_append ht (List.mem_singleton_self ' ')
  rw [List.append_assoc, List.singleton_append]
  simp only [EStateM.run, operation, h]

theorem saps_reads {s : Llcp.Saps} {destination source : Text} (hs : s.InRange)
    (hdestination : Numeral.Signed destination (sapNumber s.destination))
    (hsource : Numeral.Signed source (sapNumber s.source)) :
    saps.Reads (destination ++ [' '] ++ (source ++ [' '])) s :=
  (sap_reads _ hdestination hs.1).bind ((sap_reads _ hsource hs.2).bind_nil (.pure s))

theorem snep_eq {s : Llcp.Saps} {u t : Text} {l : RecordList} {input : Input}
    (hsaps : saps.Reads u s) (hrecords : records.run ⟨some t⟩ = .ok l input) :
    snep.run ⟨some ("put ".toList ++ (u ++ t))⟩ =
      .ok (if l.records.isEmpty then .receive s else .send s l.records) input := by
  have hput : operation.run ⟨some ("put ".toList ++ (u ++ t))⟩ = _ :=
    operation_reads (t := "put".toList) (by simp [space]) (u ++ t)
  have harguments : putArguments.run ⟨some (u ++ t)⟩ = .ok ⟨s, l⟩ input := by
    rw [putArguments, EStateM.run_bind, hsaps t]
    simp only
    rw [EStateM.run_bind, hrecords]
    rfl
  rw [snep, EStateM.run_bind, hput]
  simp only [if_true]
  rw [EStateM.run_bind, harguments]
  rfl

end Reader

theorem SendLine.ofLine_eq {saps : Llcp.Saps} {cs : List Content} {line : Text}
    (h : SendLine saps cs line) (hsaps : saps.InRange)
    (hcs : ∀ c ∈ cs, c.Fits ∧ c.type ≠ [] ∧ c.payload ≠ []) (hne : cs ≠ [])
    (hroom : cs.length ≤ maxRecords) (c : Emulator.Controller) :
    ofLine c line = .ok (.send saps (cs.map typed)) := by
  cases h with
  | @words destination source t ending hdestination hsource ht hending =>
    obtain ⟨front, hfront⟩ := ht.exists_append_bracket hne
    have hbracket : ∃ front, "put ".toList ++ (destination ++ [' '] ++ (source ++ [' ']) ++ t) =
        front ++ [']'] := ⟨_, by rw [hfront, ← List.append_assoc, ← List.append_assoc]⟩
    have hword : ∀ c ∈ "snep".toList, c ∉ Reader.space := by simp [Reader.space]
    have hsplit := splitLine_eq hword hbracket hending
    obtain ⟨l, hrecords, hall⟩ := Reader.records_eq ht hcs hroom
    have hread := Reader.snep_eq (Reader.saps_reads hsaps hdestination hsource) hrecords
    have hkept : l.records.isEmpty = false := by simpa [hall] using hne
    rw [hkept, hall, if_neg (by decide)] at hread
    have hfamily : Family.ofKeyword? "snep".toList = some .snep := by decide
    have hline (rest : Text) :
        "snep put ".toList ++ rest = "snep".toList ++ ' ' :: ("put ".toList ++ rest) := rfl
    rw [hline, ofLine, hsplit]
    simp only [hfamily, Family.readArguments, Family.readInput, Family.reader, hread]

end NearField.Command
