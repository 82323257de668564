import NearField.Emulator.Work
import NearField.Proofs.Ndef.Spans

/-! # Lengths of a header

The lengths of a started header can be set in any order, and more than once. Each call checks
everything before it stores a byte, so one that is refused leaves the record as it was, and one that
is not replaces just its own length. What is parsed in the end are the lengths that were set last.
-/
namespace NearField.Ndef.Header
open Emulator (Work)

/-- One call on a record, for one of its three lengths. -/
inductive Setting
  | type (length : Nat)
  | id (length : Nat)
  | payload (length : Nat)
  deriving DecidableEq, Repr

def store (place : Nat) : Bytes → Work Bytes Unit
  | [] => pure ()
  | b :: rest => do
    modify fun record => record.set place b
    store (place + 1) rest

namespace Setting

def set : Setting → Bytes → Except Error Bytes
  | type length, record => setTypeLength record length
  | id length, record => setIdLength record length
  | payload length, record => setPayloadLength record length

/-- A call step by step. What it has stored stays if a later step fails. -/
def call : Setting → Work Bytes Unit
  | type length => do
    let record ← get
    ofExcept (SizedField.ndefType.check length)
    ofExcept (Bytes.requireRoom record.length (typeLengthPlace + 1))
    store typeLengthPlace [UInt8.ofNat length]
  | id length => do
    let record ← get
    let flags ← ofExcept (Bytes.byteAt record 0)
    if Flags.has flags Flags.idPresent then
      ofExcept (SizedField.ndefId.check length)
      ofExcept (Bytes.requireRoom record.length (idLengthPlace flags + 1))
      store (idLengthPlace flags) [UInt8.ofNat length]
    else throw (.frameFormat .noIdLength)
  | payload length => do
    let record ← get
    let flags ← ofExcept (Bytes.byteAt record 0)
    if Flags.has flags Flags.shortRecord then
      if maxShortPayload < length then throw (.shortRecordTooLong length)
      else
        ofExcept (Bytes.requireRoom record.length (payloadLengthPlace + 1))
        store payloadLengthPlace [UInt8.ofNat length]
    else
      ofExcept (SizedField.ndefPayload.check length)
      ofExcept (Bytes.requireRoom record.length (payloadLengthPlace + 4))
      store payloadLengthPlace (Bytes.word32 length)

end Setting

theorem run_store {record data : Bytes} {place : Nat} (h : place + data.length ≤ record.length) :
    (store place data).run record = .ok () (Bytes.overwrite record place data) := by
  induction data generalizing record place with
  | nil =>
    have hsame : Bytes.overwrite record place [] = record := by simp [Bytes.overwrite]
    rw [hsame]
    rfl
  | cons b rest ih =>
    rw [List.length_cons] at h
    have hplace : place < record.length := by omega
    have hset : Bytes.overwrite (record.set place b) (place + 1) rest =
        Bytes.overwrite record place (b :: rest) := by
      have hfront : (record.take place ++ [b]).length = place + 1 := by
        rw [List.length_append, List.length_take, List.length_singleton]
        omega
      have hend : place + (rest.length + 1) = place + 1 + rest.length := by omega
      rw [List.set_eq_take_append_cons_drop, if_pos hplace, ← List.singleton_append,
        ← List.append_assoc, ← hfront, Bytes.overwrite_behind, List.drop_drop, hfront,
        Bytes.overwrite, List.length_cons, hend]
      simp
    have hrest := @ih (record.set place b) (place + 1) (by rw [List.length_set]; omega)
    rw [← hset]
    exact hrest

/-- What is left of a record that an outcome is told of: a failure leaves all of it. -/
def leaving (record : Bytes) : Except Error Bytes → EStateM.Result Error Bytes Unit
  | .ok written => .ok () written
  | .error e => .error e record

theorem run_check_bind {α : Type} {record : Bytes} {check : Except Error α}
    {work : α → Work Bytes Unit} {result : α → Except Error Bytes}
    (h : ∀ a, check = .ok a → (work a).run record = leaving record (result a)) :
    (ofExcept check >>= work).run record = leaving record (check >>= result) := by
  cases check with
  | error e => rfl
  | ok a => exact h a rfl

theorem run_get_bind {record : Bytes} {work : Bytes → Work Bytes Unit} :
    ((get : Work Bytes Bytes) >>= work).run record = (work record).run record := rfl

namespace Setting

/-- A call that fails does so before it stores anything. -/
theorem run_call (s : Setting) (record : Bytes) :
    s.call.run record = leaving record (s.set record) := by
  cases s with
  | type length =>
    rw [call, run_get_bind]
    refine run_check_bind fun _ _ => run_check_bind fun _ hroom => ?_
    exact run_store (Bytes.requireRoom_eq_ok_iff.mp hroom)
  | id length =>
    rw [call, run_get_bind]
    refine run_check_bind fun flags _ => ?_
    by_cases hid : Flags.has flags Flags.idPresent = true
    · simp only [hid, if_true]
      refine run_check_bind fun _ _ => run_check_bind fun _ hroom => ?_
      exact run_store (Bytes.requireRoom_eq_ok_iff.mp hroom)
    · simp only [hid, Bool.false_eq_true, if_false]
      rfl
  | payload length =>
    rw [call, run_get_bind]
    refine run_check_bind fun flags _ => ?_
    by_cases hs : Flags.has flags Flags.shortRecord = true
    · simp only [hs, if_true]
      by_cases hlong : maxShortPayload < length
      · simp only [hlong, if_true]
        rfl
      · simp only [hlong, if_false]
        refine run_check_bind fun _ hroom => ?_
        exact run_store (Bytes.requireRoom_eq_ok_iff.mp hroom)
    · simp only [hs, Bool.false_eq_true, if_false]
      refine run_check_bind fun _ _ => ?_
      exact run_check_bind fun _ hroom => run_store (Bytes.requireRoom_eq_ok_iff.mp hroom)

/-- Why a call is refused on a record with certain flags, if it is. -/
def refusal? (flags : UInt8) : Setting → Option Error
  | type length => if length ≤ 255 then none else some (.fieldTooLong .ndefType length)
  | id length =>
    if Flags.has flags Flags.idPresent then
      if length ≤ 255 then none else some (.fieldTooLong .ndefId length)
    else some (.frameFormat .noIdLength)
  | payload length =>
    if Flags.has flags Flags.shortRecord then
      if length ≤ 255 then none else some (.shortRecordTooLong length)
    else if length ≤ 4294967295 then none else some (.fieldTooLong .ndefPayload length)

def update (h : Header) : Setting → Header
  | type length => { h with typeLength := length }
  | id length => { h with idLength := length }
  | payload length => { h with payloadLength := length }

/-- A call on a header with something behind it replaces one length, or it is refused. -/
theorem set_bytes (s : Setting) (h : Header) (rest : Bytes) :
    s.set (h.bytes ++ rest) = match s.refusal? h.flags with
      | none => .ok ((s.update h).bytes ++ rest)
      | some e => .error e := by
  cases s with
  | type length =>
    rw [set, setTypeLength_bytes, SizedField.check, refusal?, SizedField.limit]
    by_cases hlimit : length ≤ 255 <;> simp [hlimit, update]
  | id length =>
    by_cases hid : Flags.has h.flags Flags.idPresent = true
    · rw [set, setIdLength_bytes h rest length hid, SizedField.check, refusal?, if_pos hid,
        SizedField.limit]
      by_cases hlimit : length ≤ 255 <;> simp [hlimit, update]
    · have hbyte : Bytes.byteAt (h.bytes ++ rest) 0 = .ok h.flags := rfl
      rw [set, setIdLength, hbyte, refusal?, if_neg hid, ok_bind, if_neg hid]
      rfl
  | payload length =>
    rw [set, setPayloadLength_bytes, refusal?]
    by_cases hs : Flags.has h.flags Flags.shortRecord = true
    · rw [if_pos hs, if_pos hs, maxShortPayload]
      by_cases hlimit : length ≤ 255 <;> simp [hlimit, Nat.not_lt.mpr, Nat.lt_of_not_le, update]
    · rw [if_neg hs, if_neg hs, SizedField.check, SizedField.limit]
      by_cases hlimit : length ≤ 4294967295 <;> simp [hlimit, update]

/-- What a call leaves of a record, whether it is refused or not. -/
def after (record : Bytes) (s : Setting) : Bytes :=
  match s.call.run record with
  | .ok _ written => written
  | .error _ left => left

def apply (h : Header) (s : Setting) : Header :=
  match s.refusal? h.flags with
  | none => s.update h
  | some _ => h

theorem after_bytes (h : Header) (rest : Bytes) (s : Setting) :
    after (h.bytes ++ rest) s = (apply h s).bytes ++ rest := by
  rw [after, run_call, set_bytes, apply]
  cases s.refusal? h.flags <;> rfl

theorem foldl_after_bytes (ss : List Setting) (h : Header) (rest : Bytes) :
    ss.foldl after (h.bytes ++ rest) = (ss.foldl apply h).bytes ++ rest := by
  induction ss generalizing h with
  | nil => rfl
  | cons s ss ih => rw [List.foldl_cons, List.foldl_cons, after_bytes, ih]

def typeLength? : Setting → Option Nat
  | type length => some length
  | _ => none

def idLength? : Setting → Option Nat
  | id length => some length
  | _ => none

def payloadLength? : Setting → Option Nat
  | payload length => some length
  | _ => none

/-- The length of a field in the last call for it that is not refused. -/
def lastLength? (flags : UInt8) (field : Setting → Option Nat) (ss : List Setting) : Option Nat :=
  ((ss.filter fun s => (s.refusal? flags).isNone).filterMap field).getLast?

theorem lastLength?_cons_of_refused {flags : UInt8} {field : Setting → Option Nat} {s : Setting}
    {ss : List Setting} {e : Error} (h : s.refusal? flags = some e) :
    lastLength? flags field (s :: ss) = lastLength? flags field ss := by
  simp [lastLength?, h]

theorem lastLength?_cons_of_accepted {flags : UInt8} {field : Setting → Option Nat} {s : Setting}
    {ss : List Setting} (h : s.refusal? flags = none) (default : Nat) :
    (lastLength? flags field (s :: ss)).getD default =
      (lastLength? flags field ss).getD ((field s).getD default) := by
  cases hfield : field s with
  | none => simp [lastLength?, h, hfield]
  | some length => simp [lastLength?, h, hfield, List.getLast?_cons]

theorem foldl_apply (ss : List Setting) (h : Header) :
    ss.foldl apply h = ⟨h.flags, (lastLength? h.flags typeLength? ss).getD h.typeLength,
      (lastLength? h.flags idLength? ss).getD h.idLength,
      (lastLength? h.flags payloadLength? ss).getD h.payloadLength⟩ := by
  induction ss generalizing h with
  | nil => rfl
  | cons s ss ih =>
    rw [List.foldl_cons, ih]
    cases hrefusal : s.refusal? h.flags with
    | some e =>
      have hstays : apply h s = h := by rw [apply, hrefusal]
      simp only [hstays, lastLength?_cons_of_refused hrefusal]
    | none =>
      have hupdate : apply h s = s.update h := by rw [apply, hrefusal]
      simp only [hupdate, lastLength?_cons_of_accepted hrefusal]
      cases s <;> rfl

theorem fits_apply {h : Header} (hf : h.Fits) (s : Setting) : (apply h s).Fits := by
  cases hrefusal : s.refusal? h.flags with
  | some e => rwa [apply, hrefusal]
  | none =>
    have hupdate : apply h s = s.update h := by rw [apply, hrefusal]
    rw [hupdate]
    cases s with
    | type length =>
      refine ⟨?_, hf.id, hf.payload⟩
      change length ≤ 255
      by_contra hlong
      simp [refusal?, hlong] at hrefusal
    | id length =>
      refine ⟨hf.type, ?_, hf.payload⟩
      by_cases hid : Flags.has h.flags Flags.idPresent = true
      · change length ≤ if Flags.has h.flags Flags.idPresent then 255 else 0
        rw [if_pos hid]
        by_contra hlong
        simp [refusal?, hid, hlong] at hrefusal
      · simp [refusal?, hid] at hrefusal
    | payload length =>
      refine ⟨hf.type, hf.id, ?_⟩
      change length ≤ if Flags.has h.flags Flags.shortRecord then 255 else 4294967295
      by_cases hs : Flags.has h.flags Flags.shortRecord = true
      · rw [if_pos hs]
        by_contra hlong
        simp [refusal?, hs, hlong] at hrefusal
      · rw [if_neg hs]
        by_contra hlong
        simp [refusal?, hs, hlong] at hrefusal

theorem fits_foldl_apply {h : Header} (hf : h.Fits) (ss : List Setting) :
    (ss.foldl apply h).Fits := by
  induction ss generalizing h with
  | nil => exact hf
  | cons s ss ih => exact ih (fits_apply hf s)

theorem refusal?_or_code (flags : UInt8) (typeName : TypeName) (s : Setting) :
    s.refusal? (flags &&& Flags.all ||| Coded.code typeName) = s.refusal? flags := by
  have hshort : Flags.has (flags &&& Flags.all ||| Coded.code typeName) Flags.shortRecord =
      Flags.has flags Flags.shortRecord := Flags.has_or_code flags typeName (by simp)
  have hid : Flags.has (flags &&& Flags.all ||| Coded.code typeName) Flags.idPresent =
      Flags.has flags Flags.idPresent := Flags.has_or_code flags typeName (by simp)
  cases s <;> simp only [refusal?, hshort, hid]

theorem lastLength?_or_code (flags : UInt8) (typeName : TypeName) (field : Setting → Option Nat)
    (ss : List Setting) :
    lastLength? (flags &&& Flags.all ||| Coded.code typeName) field ss =
      lastLength? flags field ss := by
  simp only [lastLength?, refusal?_or_code]

end Setting

def started (flags : UInt8) (typeName : TypeName) : Header :=
  ⟨flags &&& Flags.all ||| Coded.code typeName, 0, 0, 0⟩

theorem fits_started (flags : UInt8) (typeName : TypeName) : (started flags typeName).Fits :=
  ⟨Nat.zero_le _, Nat.zero_le _, Nat.zero_le _⟩

theorem size_started (flags : UInt8) (typeName : TypeName) :
    (started flags typeName).size = sizeFor flags := by
  rw [← length_blank flags typeName, blank_eq_bytes, length_bytes]
  rfl

/-- Calls on a started header leave the lengths that were set last. -/
theorem foldl_apply_started (flags : UInt8) (typeName : TypeName) (ss : List Setting) :
    ss.foldl Setting.apply (started flags typeName) =
      ⟨flags &&& Flags.all ||| Coded.code typeName,
        (Setting.lastLength? flags Setting.typeLength? ss).getD 0,
        (Setting.lastLength? flags Setting.idLength? ss).getD 0,
        (Setting.lastLength? flags Setting.payloadLength? ss).getD 0⟩ := by
  rw [Setting.foldl_apply]
  simp only [started, Setting.lastLength?_or_code]

theorem start_eq_ok_iff {buffer record : Bytes} {flags : UInt8} {typeName : TypeName} :
    start buffer flags typeName = .ok record ↔ sizeFor flags ≤ buffer.length ∧
      record = (started flags typeName).bytes ++ buffer.drop (sizeFor flags) := by
  rw [start_eq, ← Bytes.requireRoom_eq_ok_iff]
  cases Bytes.requireRoom buffer.length (sizeFor flags) with
  | error e => simp
  | ok _ => simp [started, eq_comm]

theorem marks_or_typeName {h : Header} {typeName : TypeName}
    (hname : h.typeName? = some typeName) : h.marks ||| Coded.code typeName = h.flags := by
  have hmarks : h.marks &&& Flags.all = h.marks := by
    rw [marks, UInt8.and_assoc, UInt8.and_self]
  rw [← hmarks]
  exact (marks_or_code hname).2

/-- Started with the marks and the type name that were read, a header is the one that was read but
for its lengths. -/
theorem started_eq {h : Header} {typeName : TypeName} (hname : h.typeName? = some typeName)
    {flags : UInt8} (hflags : flags &&& Flags.all = h.marks) :
    started flags typeName = ⟨h.flags, 0, 0, 0⟩ := by
  rw [started, hflags, marks_or_typeName hname]

theorem refusal?_of_marks {h : Header} {typeName : TypeName} (hname : h.typeName? = some typeName)
    {flags : UInt8} (hflags : flags &&& Flags.all = h.marks) (s : Setting) :
    s.refusal? flags = s.refusal? h.flags := by
  rw [← s.refusal?_or_code flags typeName, hflags, marks_or_typeName hname]

/-- The calls for the lengths of a header. There is one for the id only if there is an id. -/
def settings (h : Header) : List Setting :=
  .type h.typeLength ::
    ((if Flags.has h.flags Flags.idPresent then [.id h.idLength] else []) ++
      [.payload h.payloadLength])

theorem mem_settings {h : Header} {s : Setting} :
    s ∈ h.settings ↔ s = .type h.typeLength ∨
      (Flags.has h.flags Flags.idPresent = true ∧ s = .id h.idLength) ∨
      s = .payload h.payloadLength := by
  by_cases hid : Flags.has h.flags Flags.idPresent = true <;> simp [settings, hid]

section Settings
variable {h : Header} (hf : h.Fits)

include hf

theorem refusal?_of_mem_settings {s : Setting} (hs : s ∈ h.settings) :
    s.refusal? h.flags = none := by
  have hidLimit := hf.id
  have hpayloadLimit := hf.payload
  rcases mem_settings.mp hs with rfl | ⟨hid, rfl⟩ | rfl
  · exact if_pos hf.type
  · rw [if_pos hid] at hidLimit
    rw [Setting.refusal?, if_pos hid, if_pos hidLimit]
  · by_cases hshort : Flags.has h.flags Flags.shortRecord = true
    · rw [if_pos hshort] at hpayloadLimit
      rw [Setting.refusal?, if_pos hshort, if_pos hpayloadLimit]
    · rw [if_neg hshort] at hpayloadLimit
      rw [Setting.refusal?, if_neg hshort, if_pos hpayloadLimit]

theorem lastLength?_of_perm {ss : List Setting} (hperm : ss.Perm h.settings)
    {field : Setting → Option Nat} (lengths : List Nat)
    (hfield : h.settings.filterMap field = lengths) (hone : lengths.length ≤ 1) :
    Setting.lastLength? h.flags field ss = lengths.head? := by
  have haccepted : (ss.filter fun s => (s.refusal? h.flags).isNone) = ss := by
    rw [List.filter_eq_self]
    intro s hs
    rw [refusal?_of_mem_settings hf (hperm.mem_iff.mp hs), Option.isNone_none]
  have hlengths : (ss.filterMap field).Perm lengths := hfield ▸ hperm.filterMap field
  rw [Setting.lastLength?, haccepted]
  match lengths, hone with
  | [], _ => rw [List.perm_nil.mp hlengths, List.getLast?_nil, List.head?_nil]
  | [n], _ => rw [List.perm_singleton.mp hlengths, List.getLast?_singleton, List.head?_cons]

/-- The calls for the lengths of a header, in any order, make up the header. -/
theorem foldl_apply_settings {ss : List Setting} (hperm : ss.Perm h.settings) :
    ss.foldl Setting.apply ⟨h.flags, 0, 0, 0⟩ = h := by
  rw [Setting.foldl_apply]
  by_cases hid : Flags.has h.flags Flags.idPresent = true
  · have hall : h.settings = [.type h.typeLength, .id h.idLength, .payload h.payloadLength] := by
      rw [settings, if_pos hid]
      rfl
    rw [lastLength?_of_perm hf hperm [h.typeLength] (by rw [hall]; rfl) (by simp),
      lastLength?_of_perm hf hperm [h.idLength] (by rw [hall]; rfl) (by simp),
      lastLength?_of_perm hf hperm [h.payloadLength] (by rw [hall]; rfl) (by simp)]
    rfl
  · have hall : h.settings = [.type h.typeLength, .payload h.payloadLength] := by
      rw [settings, if_neg hid]
      rfl
    rw [lastLength?_of_perm hf hperm [h.typeLength] (by rw [hall]; rfl) (by simp),
      lastLength?_of_perm hf hperm [] (by rw [hall]; rfl) (by simp),
      lastLength?_of_perm hf hperm [h.payloadLength] (by rw [hall]; rfl) (by simp)]
    change (⟨h.flags, h.typeLength, 0, h.payloadLength⟩ : Header) = h
    rw [← idLength_eq_zero hf hid]

end Settings

/-- All calls on a started record, in any order and number. Each one fails just if its length does
not fit, or if it is for an id that is not there, and then it changes nothing. What is parsed are
the lengths that were set last, and what stands behind the header stays. Conversely, a header that
is parsed is written again, byte by byte, by calls for its lengths in any order. -/
theorem lengths_settled :
    (∀ (s : Setting) (record : Bytes), s.call.run record = leaving record (s.set record)) ∧
    (∀ (buffer record : Bytes) (flags : UInt8) (typeName : TypeName) (ss : List Setting),
      start buffer flags typeName = .ok record →
      let settled := ss.foldl Setting.after record
      let last field := (Setting.lastLength? flags field ss).getD 0
      (∀ s : Setting, match s.refusal? flags with
        | none => ∃ written, s.call.run settled = .ok () written
        | some e => s.call.run settled = .error e settled) ∧
      parse settled = .ok ⟨flags &&& Flags.all ||| Coded.code typeName, last Setting.typeLength?,
        last Setting.idLength?, last Setting.payloadLength?⟩ ∧
      settled.length = buffer.length ∧
      settled.drop (sizeFor flags) = buffer.drop (sizeFor flags)) ∧
    (∀ (data : Bytes) (h : Header), parse data = .ok h → h.typeNameBits ≠ 7 →
      ∃ typeName, h.typeName? = some typeName ∧
        ∀ flags, flags &&& Flags.all = h.marks → ∀ buffer : Bytes, h.size ≤ buffer.length →
          ∃ record, start buffer flags typeName = .ok record ∧
            ∀ ss : List Setting, ss.Perm h.settings →
              (∀ s ∈ ss, s.refusal? flags = none) ∧
              ss.foldl Setting.after record = data.take h.size ++ buffer.drop h.size) := by
  refine ⟨fun s record => s.run_call record, ?_, ?_⟩
  · intro buffer record flags typeName ss hstart settled last
    obtain ⟨hroom, rfl⟩ := start_eq_ok_iff.mp hstart
    have hsettled : settled = (ss.foldl Setting.apply (started flags typeName)).bytes ++
        buffer.drop (sizeFor flags) := Setting.foldl_after_bytes ss _ _
    have hsize : (ss.foldl Setting.apply (started flags typeName)).bytes.length =
        sizeFor flags := by
      rw [length_bytes, foldl_apply_started, ← size_started flags typeName]
      rfl
    refine ⟨?_, ?_, ?_, ?_⟩
    · intro s
      have hrefusal : s.refusal? (ss.foldl Setting.apply (started flags typeName)).flags =
          s.refusal? flags := by
        rw [foldl_apply_started, Setting.refusal?_or_code]
      rw [Setting.run_call, hsettled, Setting.set_bytes, hrefusal]
      cases s.refusal? flags with
      | none => exact ⟨_, rfl⟩
      | some e => rfl
    · rw [hsettled, parse_bytes (Setting.fits_foldl_apply (fits_started flags typeName) ss),
        foldl_apply_started]
    · rw [hsettled, List.length_append, hsize, List.length_drop]
      omega
    · rw [hsettled, List.drop_left' hsize]
  · intro data h hparse htype
    obtain ⟨hfits, rest, rfl⟩ := parse_eq_ok_iff.mp hparse
    obtain ⟨typeName, hcode⟩ := TypeName.exists_code htype
    have hname : h.typeName? = some typeName := Coded.ofCode?_eq_some_iff.mpr hcode
    refine ⟨typeName, hname, ?_⟩
    intro flags hflags buffer hroom
    have hsize : sizeFor flags = h.size := by
      rw [← size_started flags typeName, started_eq hname hflags]
      rfl
    refine ⟨_, start_eq_ok_iff.mpr ⟨hsize ▸ hroom, rfl⟩, ?_⟩
    intro ss hperm
    refine ⟨?_, ?_⟩
    · intro s hs
      rw [refusal?_of_marks hname hflags, refusal?_of_mem_settings hfits (hperm.mem_iff.mp hs)]
    · rw [Setting.foldl_after_bytes, started_eq hname hflags, foldl_apply_settings hfits hperm,
        hsize, List.take_left' (length_bytes h)]

end NearField.Ndef.Header
