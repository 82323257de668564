import NearField.Proofs.Ndef.HeaderLengths
import NearField.Proofs.Ndef.Refusals

/-! # Attribution of a refusal

A message that cannot be written is refused for the first of its records that cannot be written, and
for nothing that stands behind this one. A message that is written begins with what is written of
its first records alone, but for the mark of the end. The checks that set the lengths of a header
never fail on a header that was just started: only the length itself is ever refused.
-/
namespace NearField

/-- What records can be refused for: their flags, a field that is no base64url or that is too long,
or a lack of room. -/
def Error.isRecordFault : Error → Bool
  | reservedFlags _ | base64 _ | bufferOverflow .. | shortRecordTooLong _ | fieldTooLong .ndefType _
  | fieldTooLong .ndefId _ | fieldTooLong .ndefPayload _ => true
  | _ => false

theorem Error.isRecordFault_of_isContentFault {e : Error} (h : e.isContentFault = true) :
    e.isRecordFault = true := by
  cases e with
  | fieldTooLong field length => cases field <;> simp_all [isContentFault, isRecordFault]
  | _ => simp_all [isContentFault, isRecordFault]

theorem bind_congr_ok {α β : Type} {x : Except Error α} {f g : α → Except Error β}
    (h : ∀ a, x = .ok a → f a = g a) : (x >>= f) = (x >>= g) := by
  cases x with
  | error e => rfl
  | ok a => exact h a rfl

namespace Ndef

theorem Record.content_isRecordFault {r : Record} {room : Nat} {e : Error}
    (h : r.content room = .error e) : e.isRecordFault = true := by
  cases content_refuses h with
  | flags reserved => rfl
  | header short => rfl
  | text mem fits read => exact Error.isRecordFault_of_isContentFault (Base64.readField_error read)
  | byteLength name long =>
    rw [(SizedField.check_eq_error_iff.mp long).2]
    rcases name with rfl | rfl <;> rfl
  | payloadLength fits long =>
    rcases checkPayload_eq_error long with rfl | ⟨-, rfl⟩ <;> rfl

namespace Message

theorem contents_append (front behind : List Record) (room : Nat) :
    contents (front ++ behind) room = (do
      let before ← contents front room
      let after ← contents behind (room - size before)
      return before ++ after) := by
  induction front generalizing room with
  | nil =>
    simp only [List.nil_append, contents, ok_bind, size, Nat.sub_zero]
    cases contents behind room <;> rfl
  | cons r rest ih =>
    rw [List.cons_append, contents, contents]
    cases r.content room with
    | error e => rfl
    | ok c =>
      simp only [ok_bind, ih]
      cases contents rest (room - c.size) with
      | error e => rfl
      | ok before =>
        simp only [ok_bind, pure_eq_ok, size, Nat.sub_add_eq]
        cases contents behind (room - c.size - size before) <;> rfl

theorem contents_append_eq_ok {front behind : List Record} {room : Nat} {cs : List Content}
    (h : contents (front ++ behind) room = .ok cs) :
    ∃ before after, contents front room = .ok before ∧ cs = before ++ after ∧
      before.length = front.length ∧ after.length = behind.length := by
  rw [contents_append] at h
  obtain ⟨before, hbefore, h⟩ := bind_eq_ok_iff.mp h
  obtain ⟨after, hafter, h⟩ := bind_eq_ok_iff.mp h
  cases h
  exact ⟨before, after, hbefore, rfl, (length_contents hbefore).symm,
    (length_contents hafter).symm⟩

theorem contents_dropLast {records : List Record} {room : Nat} {cs : List Content}
    (h : contents records room = .ok cs) : contents records.dropLast room = .ok cs.dropLast := by
  rcases List.eq_nil_or_concat records with rfl | ⟨init, r, rfl⟩
  · cases h
    rfl
  · rw [List.concat_eq_append] at h ⊢
    obtain ⟨before, after, hinit, rfl, -, hlast⟩ := contents_append_eq_ok h
    obtain ⟨c, rfl⟩ := List.length_eq_one_iff.mp hlast
    rw [List.dropLast_concat, List.dropLast_concat, hinit]

/-- One record is the first that is refused, in the room that the records before it leave. -/
theorem exists_refused {records : List Record} {room : Nat} {e : Error}
    (h : contents records room = .error e) :
    ∃ front r behind before, records = front ++ r :: behind ∧ contents front room = .ok before ∧
      r.content (room - size before) = .error e := by
  induction records generalizing room with
  | nil => cases h
  | cons r rest ih =>
    rcases bind_eq_error_iff.mp h with hr | ⟨c, hc, h⟩
    · exact ⟨[], r, rest, [], rfl, rfl, hr⟩
    · rcases bind_eq_error_iff.mp h with hrest | ⟨cs, -, hpure⟩
      · obtain ⟨front, r', behind, before, rfl, hfront, hr'⟩ := ih hrest
        refine ⟨r :: front, r', behind, c :: before, rfl, ?_, ?_⟩
        · rw [contents, hc, ok_bind, hfront, ok_bind, pure_eq_ok]
        · rw [size, Nat.sub_add_eq]
          exact hr'
      · cases hpure

theorem write_of_contents {records : List Record} {buffer : Bytes} {cs : List Content}
    (h : contents records buffer.length = .ok cs) :
    write records buffer = .ok (wire cs ++ buffer.drop (size cs), size cs) := by
  rw [write_eq, h, map_ok, wire, length_wireFrom]

end Message

theorem Flags.marked_or_messageEnd {flags : UInt8} (h : isTyped flags.toNat = true)
    (first last named : Bool) (typeName : TypeName) :
    marked flags first true named ||| Coded.code typeName =
      marked flags first last named ||| Coded.code typeName ||| messageEnd := by
  revert first last named
  rcases eq_of_isTyped h with rfl | rfl | rfl | rfl <;> cases typeName <;> decide

theorem Content.exists_wire {c : Content} (h : c.Fits) (first last : Bool) : ∃ b tail,
    Flags.has b Flags.messageEnd = last ∧ c.wire first last = b :: tail ∧
      c.wire first true = (b ||| Flags.messageEnd) :: tail := by
  obtain ⟨-, hend, -⟩ := place_firstByte h first last
  have hlast : c.firstByte first true = c.firstByte first last ||| Flags.messageEnd := by
    rw [firstByte_eq, firstByte_eq]
    exact Flags.marked_or_messageEnd h.flags first last (!c.id.isEmpty) c.typeName
  refine ⟨c.firstByte first last, (c.wire first last).tail, hend, rfl, ?_⟩
  rw [← hlast]
  rfl

namespace Message

/-- Records none of which is the last. -/
def openFrom (first : Bool) : List Content → Bytes
  | [] => []
  | c :: rest => c.wire first false ++ openFrom false rest

theorem length_openFrom (first : Bool) (cs : List Content) :
    (openFrom first cs).length = size cs := by
  induction cs generalizing first with
  | nil => rfl
  | cons c rest ih => rw [openFrom, List.length_append, Content.length_wire, ih, size]

theorem wireFrom_append_cons (first : Bool) (front : List Content) (c : Content)
    (behind : List Content) :
    wireFrom first (front ++ c :: behind) =
      openFrom first front ++ c.wire (first && front.isEmpty) behind.isEmpty ++
        wireFrom false behind := by
  induction front generalizing first with
  | nil => simp [wireFrom, openFrom]
  | cons d rest ih =>
    have hlast : (rest ++ c :: behind).isEmpty = false := by simp
    rw [List.cons_append, wireFrom, hlast, ih, openFrom]
    simp

theorem size_append (front behind : List Content) :
    size (front ++ behind) = size front + size behind := by
  induction front with
  | nil => simp [size]
  | cons c rest ih => rw [List.cons_append, size, ih, size, Nat.add_assoc]

theorem size_dropLast_lt {cs : List Content} (h : cs ≠ []) : size cs.dropLast < size cs := by
  rcases List.eq_nil_or_concat cs with rfl | ⟨init, c, rfl⟩
  · exact absurd rfl h
  · rw [List.concat_eq_append, List.dropLast_concat, size_append, size, Content.size,
      Content.headerSize]
    omega

/-- Up to the records behind it, a message is what is written of its first records alone, but for
the mark of the end in the first byte of the last of them. -/
theorem wire_before {front : List Content} (h : ∀ c ∈ front, c.Fits) (behind : List Content) :
    wire front = ((wire (front ++ behind)).take (size front)).modify (size front.dropLast)
        (· ||| Flags.messageEnd) ∧
      ∀ b, ((wire (front ++ behind)).take (size front))[size front.dropLast]? = some b →
        Flags.has b Flags.messageEnd = behind.isEmpty := by
  rcases List.eq_nil_or_concat front with rfl | ⟨init, c, rfl⟩
  · simp [wire, wireFrom, size]
  · rw [List.concat_eq_append] at h ⊢
    obtain ⟨b, tail, hb, hwire, hwireLast⟩ :=
      Content.exists_wire (h c (by simp)) init.isEmpty behind.isEmpty
    have hplace : size init = (openFrom true init).length := (length_openFrom true init).symm
    have halone : wire (init ++ [c]) =
        openFrom true init ++ (b ||| Flags.messageEnd) :: tail := by
      rw [wire, wireFrom_append_cons, List.isEmpty_nil, Bool.true_and, hwireLast, wireFrom,
        List.append_nil]
    have hfront : (wire (init ++ [c] ++ behind)).take (size (init ++ [c])) =
        openFrom true init ++ b :: tail := by
      have hsize : (openFrom true init ++ b :: tail).length = size (init ++ [c]) := by
        rw [← hwire, List.length_append, Content.length_wire, length_openFrom, size_append]
        rfl
      rw [List.append_assoc, List.singleton_append, wire, wireFrom_append_cons, Bool.true_and,
        hwire, List.take_left' hsize]
    rw [hfront, halone, List.dropLast_concat, hplace]
    constructor
    · rw [List.modify_eq_take_drop, List.take_left, List.drop_left, List.modifyHead_cons]
    · intro b' hb'
      rw [List.getElem?_append_right (Nat.le_refl _), Nat.sub_self, List.getElem?_cons_zero,
        Option.some.injEq] at hb'
      rw [← hb', hb]

end Message

abbrev Setter := Bytes → Nat → Except Error Bytes

/-- A setter that reports a certain fault for all that its checks find, but for a length that does
not fit its field. -/
def Setter.blaming (fault : Error) (set : Setter) : Setter := fun record length =>
  match set record length with
  | .error (.fieldTooLong field length) => .error (.fieldTooLong field length)
  | .error _ => .error fault
  | .ok written => .ok written

def Record.addIdWith (change : Setter → Setter) (r : Record) (written : Bytes × Nat) :
    Except Error (Bytes × Nat) :=
  if r.id.isEmpty then .ok written else addField r.id (change Header.setIdLength) written

def Record.setPayloadLengthWith (change : Setter → Setter) (flags : UInt8) : Setter :=
  fun buffer length =>
    if Header.maxShortPayload < length ∧ Flags.has flags Flags.shortRecord then
      .error (.shortRecordTooLong length)
    else change Header.setPayloadLength buffer length

def Record.writeWith (change : Setter → Setter) (r : Record) (first last : Bool)
    (buffer : Bytes) : Except Error (Bytes × Nat) :=
  let flags := r.wireFlags first last
  if Flags.isTyped r.flags.toNat then do
    let buffer ← Header.start buffer flags r.typeName
    let written ← addField r.type (change Header.setTypeLength) (buffer, Header.sizeFor flags)
    let written ← r.addIdWith change written
    addField r.payload (setPayloadLengthWith change flags) written
  else .error (.reservedFlags r.flags.toNat)

def Message.writeFromWith (change : Setter → Setter) (first : Bool) (buffer : Bytes) :
    List Record → Except Error (Bytes × Nat)
  | [] => .ok (buffer, 0)
  | r :: rest => do
    let (buffer, size) ← r.writeWith change first rest.isEmpty buffer
    let (behind, sizeBehind) ← writeFromWith change false (buffer.drop size) rest
    return (buffer.take size ++ behind, size + sizeBehind)

def Message.writeWith (change : Setter → Setter) (records : List Record) (buffer : Bytes) :
    Except Error (Bytes × Nat) := writeFromWith change true buffer records

theorem Record.writeWith_id (r : Record) (first last : Bool) (buffer : Bytes) :
    r.writeWith (fun set => set) first last buffer = r.write first last buffer := rfl

namespace Header.Setting

theorem exists_of_set_bytes {s : Setting} {h : Header} {rest record : Bytes}
    (hset : s.set (h.bytes ++ rest) = .ok record) :
    ∃ h' : Header, h'.flags = h.flags ∧ record = h'.bytes ++ rest := by
  rw [set_bytes] at hset
  cases hrefusal : s.refusal? h.flags with
  | none =>
    rw [hrefusal] at hset
    cases hset
    exact ⟨s.update h, by cases s <;> rfl, rfl⟩
  | some e =>
    rw [hrefusal] at hset
    cases hset

/-- A call for a length that its record has, and not for one that was refused beforehand. -/
def Allowed (flags : UInt8) : Setting → Prop
  | type _ => True
  | id _ => Flags.has flags Flags.idPresent = true
  | payload length => ¬ (maxShortPayload < length ∧ Flags.has flags Flags.shortRecord = true)

theorem Allowed.refusal? {s : Setting} {flags : UInt8} {e : Error} (hs : s.Allowed flags)
    (h : s.refusal? flags = some e) : ∃ field length, e = .fieldTooLong field length := by
  cases s with
  | type length =>
    obtain ⟨-, h⟩ := Option.ite_none_left_eq_some.mp h
    exact ⟨.ndefType, length, (Option.some.inj h).symm⟩
  | id length =>
    have hid : Flags.has flags Flags.idPresent = true := hs
    rw [Setting.refusal?, if_pos hid] at h
    obtain ⟨-, h⟩ := Option.ite_none_left_eq_some.mp h
    exact ⟨.ndefId, length, (Option.some.inj h).symm⟩
  | payload length =>
    by_cases hshort : Flags.has flags Flags.shortRecord = true
    · have hfits : length ≤ 255 := Nat.not_lt.mp fun hlong => hs ⟨hlong, hshort⟩
      rw [Setting.refusal?, if_pos hshort, if_pos hfits] at h
      cases h
    · rw [Setting.refusal?, if_neg hshort] at h
      obtain ⟨-, h⟩ := Option.ite_none_left_eq_some.mp h
      exact ⟨.ndefPayload, length, (Option.some.inj h).symm⟩

theorem Allowed.blaming_eq {s : Setting} {h : Header} (hs : s.Allowed h.flags) {fault : Error}
    {set : Setter} {rest : Bytes} {length : Nat}
    (hset : set (h.bytes ++ rest) length = s.set (h.bytes ++ rest)) :
    Setter.blaming fault set (h.bytes ++ rest) length = set (h.bytes ++ rest) length := by
  unfold Setter.blaming
  rw [hset, set_bytes]
  cases hrefusal : s.refusal? h.flags with
  | none => rfl
  | some e =>
    obtain ⟨field, n, rfl⟩ := hs.refusal? hrefusal
    rfl

end Header.Setting

open Header (Setting)

/-- The invariant of a record that is being written: at its front stands a header with the flags
that it was started with. -/
def Begun (flags : UInt8) (written : Bytes × Nat) : Prop :=
  ∃ (h : Header) (fields rest : Bytes), h.flags = flags ∧
    written = (h.bytes ++ fields ++ rest, (h.bytes ++ fields).length)

theorem begun_start {buffer record : Bytes} {flags : UInt8} {typeName : TypeName}
    (h : Header.start buffer flags typeName = .ok record) :
    Begun (flags &&& Flags.all ||| Coded.code typeName) (record, Header.sizeFor flags) := by
  obtain ⟨-, rfl⟩ := Header.start_eq_ok_iff.mp h
  refine ⟨Header.started flags typeName, [], buffer.drop (Header.sizeFor flags), rfl, ?_⟩
  rw [List.append_nil, Header.length_bytes, Header.size_started]

namespace Begun
variable {flags : UInt8} {written written' : Bytes × Nat}

theorem addField_congr {t : Text} {set set' : Setter} (hb : Begun flags written)
    (hset : ∀ (h : Header) rest length, h.flags = flags →
      set' (h.bytes ++ rest) length = set (h.bytes ++ rest) length) :
    Record.addField t set' written = Record.addField t set written := by
  obtain ⟨h, fields, rest, hflags, rfl⟩ := hb
  unfold Record.addField
  rw [Base64.readInto_behind]
  cases Base64.readField t rest.length with
  | error e => rfl
  | ok data =>
    simp only [map_ok, ok_bind, List.append_assoc, hset h _ _ hflags]

theorem addField {t : Text} {set : Setter} (hb : Begun flags written)
    (hset : ∀ record length, ∃ s : Setting, set record length = s.set record)
    (hadd : Record.addField t set written = .ok written') : Begun flags written' := by
  obtain ⟨h, fields, rest, rfl, rfl⟩ := hb
  unfold Record.addField at hadd
  rw [Base64.readInto_behind] at hadd
  cases hread : Base64.readField t rest.length with
  | error e =>
    rw [hread] at hadd
    cases hadd
  | ok data =>
    simp only [hread, map_ok, ok_bind, List.append_assoc] at hadd
    obtain ⟨record, hrecord, hpure⟩ := bind_eq_ok_iff.mp hadd
    obtain ⟨s, hs⟩ := hset (h.bytes ++ (fields ++ (data ++ rest.drop data.length))) data.length
    obtain ⟨h', hflags, rfl⟩ := Setting.exists_of_set_bytes (hs.symm.trans hrecord)
    cases hpure
    have hsize : h'.bytes.length = h.bytes.length := by
      rw [Header.length_bytes, Header.length_bytes, Header.size, Header.size, hflags]
    exact ⟨h', fields ++ data, rest.drop data.length, hflags, by simp [hsize, Nat.add_assoc]⟩

theorem addId {r : Record} (hb : Begun flags written)
    (hadd : r.addIdWith (fun set => set) written = .ok written') : Begun flags written' := by
  unfold Record.addIdWith at hadd
  split at hadd
  · cases hadd
    exact hb
  · exact hb.addField (fun record length => ⟨.id length, rfl⟩) hadd

theorem addIdWith_blaming (fault : Error) {r : Record} (hb : Begun flags written)
    (hid : Flags.has flags Flags.idPresent = !r.id.isEmpty) :
    r.addIdWith (Setter.blaming fault) written = r.addIdWith (fun set => set) written := by
  unfold Record.addIdWith
  cases hempty : r.id.isEmpty with
  | true => rfl
  | false =>
    rw [hempty, Bool.not_false] at hid
    exact hb.addField_congr fun h rest length hflags =>
      Setting.Allowed.blaming_eq (s := .id length) (hflags ▸ hid) rfl

end Begun

/-- On a header that was just started the setters refuse nothing but the length itself. -/
theorem Record.writeWith_blaming (fault : Error) (r : Record) (first last : Bool)
    (buffer : Bytes) :
    r.writeWith (Setter.blaming fault) first last buffer = r.write first last buffer := by
  rw [← writeWith_id]
  unfold writeWith
  by_cases htyped : Flags.isTyped r.flags.toNat = true
  · simp only [if_pos htyped]
    refine bind_congr_ok fun record hstart => ?_
    have hbegun := begun_start hstart
    have hshort : Flags.has (r.wireFlags first last &&& Flags.all ||| Coded.code r.typeName)
        Flags.shortRecord = Flags.has (r.wireFlags first last) Flags.shortRecord :=
      Flags.has_or_code _ _ (by simp)
    have hid : Flags.has (r.wireFlags first last &&& Flags.all ||| Coded.code r.typeName)
        Flags.idPresent = !r.id.isEmpty := by
      rw [Flags.has_or_code _ _ (by simp), wireFlags, Flags.has_idPresent_marked htyped]
    generalize r.wireFlags first last &&& Flags.all ||| Coded.code r.typeName = b at *
    rw [hbegun.addField_congr fun h rest length _ =>
      Setting.Allowed.blaming_eq (s := .type length) trivial rfl]
    refine bind_congr_ok fun written htype => ?_
    replace hbegun := hbegun.addField (fun record length => ⟨.type length, rfl⟩) htype
    rw [hbegun.addIdWith_blaming fault hid]
    refine bind_congr_ok fun written hidAdded => ?_
    replace hbegun := hbegun.addId hidAdded
    refine hbegun.addField_congr fun h rest length hflags => ?_
    unfold setPayloadLengthWith
    by_cases hlong : Header.maxShortPayload < length ∧
        Flags.has (r.wireFlags first last) Flags.shortRecord = true
    · rw [if_pos hlong, if_pos hlong]
    · rw [if_neg hlong, if_neg hlong]
      rw [← hshort, ← hflags] at hlong
      exact Setting.Allowed.blaming_eq (s := .payload length) hlong rfl
  · simp only [if_neg htyped]

namespace Message

theorem writeFromWith_eq {change : Setter → Setter}
    (h : ∀ (r : Record) first last buffer,
      r.writeWith change first last buffer = r.write first last buffer)
    (first : Bool) (buffer : Bytes) (records : List Record) :
    writeFromWith change first buffer records = writeFrom first buffer records := by
  induction records generalizing first buffer with
  | nil => rfl
  | cons r rest ih => simp only [writeFromWith, writeFrom, h, ih]

/-- If records are refused, they are refused alike whatever stands behind them, and it is for the
first one that cannot be written behind those before it. If they are written with more behind them,
they are written alone as well, to the same bytes but for the mark of the end in the last one. No
other faults arise than those of a record. In particular no check of a setter fails, but for the one
of the length itself: it makes no difference what fault the others report. -/
theorem write_attributed :
    (∀ (records rest : List Record) (buffer : Bytes) (e : Error),
      write records buffer = .error e → write (records ++ rest) buffer = .error e) ∧
    (∀ (records : List Record) (buffer : Bytes) (e : Error), write records buffer = .error e →
      e.isRecordFault = true ∧
      ∃ front r behind before start, records = front ++ r :: behind ∧
        write front buffer = .ok (before, start) ∧
        ∀ first last, r.write first last (before.drop start) = .error e) ∧
    (∀ (records rest : List Record) (buffer out : Bytes) (size : Nat),
      write (records ++ rest) buffer = .ok (out, size) →
      ∃ out' size' before start, write records buffer = .ok (out', size') ∧
        write records.dropLast buffer = .ok (before, start) ∧
        size' ≤ size ∧ (records ≠ [] → start < size') ∧
        out'.take size' = (out.take size').modify start (· ||| Flags.messageEnd) ∧
        ∀ b, (out.take size')[start]? = some b →
          Flags.has b Flags.messageEnd = rest.isEmpty) ∧
    (∀ (records : List Record) (buffer : Bytes),
      writeWith (fun set => set) records buffer = write records buffer ∧
      ∀ fault, writeWith (Setter.blaming fault) records buffer = write records buffer) := by
  refine ⟨?_, ?_, ?_, ?_⟩
  · intro records rest buffer e h
    rw [write_eq, map_eq_error_iff] at h ⊢
    rw [contents_append, h, error_bind]
  · intro records buffer e h
    rw [write_eq, map_eq_error_iff] at h
    obtain ⟨front, r, behind, before, rfl, hfront, hr⟩ := exists_refused h
    refine ⟨Record.content_isRecordFault hr, front, r, behind, _, _, rfl,
      write_of_contents hfront, ?_⟩
    intro first last
    have hsize : (wire before).length = size before := length_wireFrom true before
    rw [Record.write_eq, List.drop_left' hsize, List.length_drop, hr, map_error]
  · intro records rest buffer out size h
    obtain ⟨cs, hcs, rfl, rfl⟩ := contents_of_write h
    obtain ⟨front, behind, hfront, rfl, hlength, hrest⟩ := contents_append_eq_ok hcs
    obtain ⟨hbytes, hmark⟩ := wire_before (contents_eq_ok_iff.mp hfront).2.1 behind
    have hsize : size front ≤ (wire (front ++ behind)).length := by
      rw [wire, length_wireFrom, size_append]
      exact Nat.le_add_right _ _
    have halone : (wire front).length = size front := length_wireFrom true front
    have hempty : behind.isEmpty = rest.isEmpty := by
      rw [Bool.eq_iff_iff, List.isEmpty_iff_length_eq_zero, List.isEmpty_iff_length_eq_zero, hrest]
    refine ⟨_, _, _, _, write_of_contents hfront, write_of_contents (contents_dropLast hfront),
      hsize, ?_, ?_, ?_⟩
    · intro hne
      refine size_dropLast_lt fun hnil => hne ?_
      rw [← List.length_eq_zero_iff, ← hlength, hnil, List.length_nil]
    · rw [List.take_left' halone, List.take_append_of_le_length hsize]
      exact hbytes
    · rw [List.take_append_of_le_length hsize, ← hempty]
      exact hmark
  · intro records buffer
    exact ⟨writeFromWith_eq Record.writeWith_id true buffer records,
      fun fault => writeFromWith_eq (Record.writeWith_blaming fault) true buffer records⟩

end Message
end Ndef
end NearField
