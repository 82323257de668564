import NearField.Command.Execute
import NearField.Proofs.Notation.Exactness

/-! # Words of a line

A line is taken apart at its spaces. Its first two words tell which command it is, and the words
behind them tell which points or which endpoint the command is for, whatever else the line holds.
-/
namespace NearField
namespace Command

/-- The words of a line. Line breaks at its end do not count. -/
def words (line : Text) : List Text :=
  (Text.dropEndWhile (fun c => c == '\r' || c == '\n') line).splitOn ' '

def Input.words (s : Input) : List Text :=
  match s.rest with
  | none => []
  | some t => t.splitOn ' '

theorem Input.words_token {s s' : Input} {w : Text}
    (h : s.token? Reader.space = some (w, s')) : s.words = w :: s'.words := by
  have hsplit : ∀ t : Text, t.splitOn ' ' = (t.takeWhile fun c => c ∉ Reader.space) ::
      Input.words ⟨(t.dropWhile fun c => c ∉ Reader.space).tail?⟩ := by
    intro t
    -- a word grows by the characters in front of the first space
    induction t with
    | nil => rfl
    | cons c t ih =>
      rw [List.splitOn_cons_eq_if_modifyHead]
      by_cases hc : c = ' '
      · subst hc
        simp [Reader.space, Input.words]
      · rw [if_neg (by simpa using hc), ih, List.modifyHead_cons]
        simp [Reader.space, hc]
  obtain ⟨rest⟩ := s
  cases rest with
  | none => cases h
  | some t =>
    simp only [token?, Option.map_some, Option.some.injEq, Prod.mk.injEq] at h
    obtain ⟨rfl, rfl⟩ := h
    exact hsplit t

namespace Reader
variable {α β : Type} {s s' : Input}

theorem run_bind_eq_ok_iff {r : Reader α} {f : α → Reader β} {b : β} :
    (r >>= f).run s = .ok b s' ↔ ∃ a t, r.run s = .ok a t ∧ (f a).run t = .ok b s' := by
  rw [EStateM.run_bind]
  cases r.run s with
  | ok a t =>
    constructor
    · intro h
      exact ⟨a, t, rfl, h⟩
    · rintro ⟨a, t, ⟨⟩, h⟩
      exact h
  | error e t => simp

theorem run_pure_eq_ok_iff {a b : α} : (pure a : Reader α).run s = .ok b s' ↔ a = b ∧ s = s' := by
  rw [EStateM.run_pure, EStateM.Result.ok.injEq]

theorem not_run_fail {e : Error} {a : α} : (throw e : Reader α).run s ≠ .ok a s' := by
  intro h
  cases h

theorem not_run_fail_bind {e : Error} {f : α → Reader β} {b : β} :
    ((throw e : Reader α) >>= f).run s ≠ .ok b s' := by
  intro h
  cases h

theorem operation_words {w : Text} (h : operation.run s = .ok w s') : s.words = w :: s'.words := by
  simp only [EStateM.run, operation] at h
  cases htoken : s.token? space with
  | none => simp [htoken] at h
  | some found =>
    simp only [htoken, EStateM.Result.ok.injEq] at h
    obtain ⟨rfl, rfl⟩ := h
    exact Input.words_token htoken

theorem numeral_eq_ok {parse : Text → Except Numeral.Fault α} {field : Text} {a : α}
    (h : (numeral parse field space).run s = .ok a s') :
    ∃ w, s.token? space = some (w, s') ∧ parse w = .ok a := by
  obtain ⟨w, t, hw, hparse⟩ := run_bind_eq_ok_iff.mp h
  simp only [EStateM.run, token] at hw
  cases htoken : s.token? space with
  | none => simp [htoken] at hw
  | some found =>
    simp only [htoken, EStateM.Result.ok.injEq] at hw
    obtain ⟨rfl, rfl⟩ := hw
    cases hvalue : parse found.1 with
    | error fault =>
      rw [hvalue] at hparse
      cases hparse
    | ok value =>
      rw [hvalue] at hparse
      cases hparse
      exact ⟨found.1, rfl, hvalue⟩

theorem numeral_words {parse : Text → Except Numeral.Fault α} {field : Text} {a : α}
    (h : (numeral parse field space).run s = .ok a s') :
    ∃ w, s.words = w :: s'.words ∧ parse w = .ok a := by
  obtain ⟨w, htoken, hparse⟩ := numeral_eq_ok h
  exact ⟨w, Input.words_token htoken, hparse⟩

end Reader
end Command

namespace Llcp

/-- A word is a notation of the number of a point, or of `-1` for the one used last. -/
def Sap.TypedAs (w : Text) : Sap → Prop
  | last => Numeral.Signed w (-1)
  | value point => Numeral.Signed w point.toNat

def Saps.TypedIn (saps : Saps) (ws : List Text) : Prop :=
  ∃ d s rest, ws = d :: s :: rest ∧ saps.destination.TypedAs d ∧ saps.source.TypedAs s

/-- A word stands for a point: it is a notation of its number, or of `-1` for the point used
last. -/
def Stands (w : Text) (used point : UInt8) : Prop :=
  Numeral.Signed w (-1) ∧ point = used ∨ Numeral.Signed w point.toNat

theorem Sap.TypedAs.stands_iff {sap : Sap} {w : Text} (h : sap.TypedAs w)
    {used point : UInt8} : Stands w used point ↔ point = sap.orUsed used := by
  cases sap with
  | last =>
    replace h : Numeral.Signed w (-1) := h
    constructor
    · rintro (⟨-, hpoint⟩ | hnumber)
      · exact hpoint
      · have hsame := h.unique hnumber
        omega
    · intro hpoint
      exact .inl ⟨h, hpoint⟩
  | value typed =>
    replace h : Numeral.Signed w typed.toNat := h
    constructor
    · rintro (⟨hlast, -⟩ | hnumber)
      · have hsame := h.unique hlast
        omega
      · have hsame := hnumber.unique h
        rwa [Int.natCast_inj, UInt8.toNat_inj] at hsame
    · rintro rfl
      exact .inr h

end Llcp

namespace Command
namespace Reader
variable {s s' : Input}

theorem sap_words {field : Text} {point : Llcp.Sap}
    (h : (sap field true).run s = .ok point s') :
    ∃ w, s.words = w :: s'.words ∧ point.TypedAs w := by
  obtain ⟨value, t, hvalue, h⟩ := run_bind_eq_ok_iff.mp h
  obtain ⟨w, hw, hparse⟩ := numeral_words hvalue
  by_cases hlast : value = -1
  · simp only [hlast, and_self, if_true] at h
    obtain ⟨rfl, rfl⟩ := run_pure_eq_ok_iff.mp h
    rw [hlast] at hparse
    exact ⟨w, hw, (((Numeral.signed_outcome w).ok _).mp hparse).1⟩
  · simp only [hlast, false_and, if_false] at h
    by_cases hrange : 0 ≤ value ∧ value < Llcp.pointCount
    · simp only [hrange, and_self, if_true] at h
      obtain ⟨rfl, rfl⟩ := run_pure_eq_ok_iff.mp h
      have hlt : value.toNat < 64 := (Int.toNat_lt hrange.1).mpr hrange.2
      have hnumber : ((UInt8.ofNat value.toNat).toNat : Int) = value := by
        rw [UInt8.toNat_ofNat_of_lt' (Nat.lt_trans hlt (by decide)), Int.toNat_of_nonneg hrange.1]
      rw [← hnumber] at hparse
      exact ⟨w, hw, (((Numeral.signed_outcome w).ok _).mp hparse).1⟩
    · rw [if_neg hrange] at h
      exact absurd h not_run_fail

theorem saps_words {points : Llcp.Saps} (h : saps.run s = .ok points s') :
    points.TypedIn s.words := by
  obtain ⟨destination, t, hdestination, h⟩ := run_bind_eq_ok_iff.mp h
  obtain ⟨source, u, hsource, h⟩ := run_bind_eq_ok_iff.mp h
  obtain ⟨rfl, rfl⟩ := run_pure_eq_ok_iff.mp h
  obtain ⟨v, hv, hvtyped⟩ := sap_words hdestination
  obtain ⟨w, hw, hwtyped⟩ := sap_words hsource
  exact ⟨v, w, u.words, by rw [hv, hw], hvtyped, hwtyped⟩

end Reader

/-- The first two words of the lines that ask for a command. -/
def opening : Command → List Text
  | send .. | receive .. => ["snep".toList, "put".toList]
  | connect .. => ["llcp".toList, "connect".toList]
  | notify n => ["nci".toList, n.operation.label]
  | setTag .. => ["tag".toList, "set".toList]
  | clearTag .. => ["tag".toList, "clear".toList]
  | formatTag .. => ["tag".toList, "format".toList]

theorem length_opening (command : Command) : command.opening.length = 2 := by
  cases command <;> rfl

theorem opening_eq_activate {command : Command}
    (h : command.opening = ["nci".toList, "rf_intf_activated_ntf".toList]) :
    ∃ named selection, command = notify (.activate named selection) := by
  have hdiscover : Operation.discover.label ≠ "rf_intf_activated_ntf".toList := by decide
  have hdeactivate : Operation.deactivate.label ≠ "rf_intf_activated_ntf".toList := by decide
  cases command with
  | notify n =>
    have hlabel := (List.cons.inj (List.cons.inj h).2).1
    cases n with
    | activate named selection => exact ⟨named, selection, rfl⟩
    | discover place stage => exact absurd hlabel hdiscover
    | deactivate type reason => exact absurd hlabel hdeactivate
  | _ => simp [opening] at h

/-- The first word is a notation of a number of 64 bits, or there is none. -/
def PlaceTypedIn (ws : List Text) : Option Nat → Prop
  | none => ws = [] ∨ ws = [[]]
  | some place => ∃ w rest, ws = w :: rest ∧ Numeral.Unsigned w place ∧
      place < 0x1_0000_0000_0000_0000

theorem PlaceTypedIn.not_some_of_none {ws : List Text} {place : Nat}
    (h : PlaceTypedIn ws none) : ¬ PlaceTypedIn ws (some place) := by
  rintro ⟨w, rest, rfl, hw, -⟩
  rcases h with h | h
  · cases h
  · cases h
    exact hw.ne_nil rfl

theorem PlaceTypedIn.unique {ws : List Text} {named named' : Option Nat}
    (h : PlaceTypedIn ws named) (h' : PlaceTypedIn ws named') : named = named' := by
  cases named with
  | none =>
    cases named' with
    | none => rfl
    | some place' => exact absurd h' h.not_some_of_none
  | some place =>
    cases named' with
    | none => exact absurd h h'.not_some_of_none
    | some place' =>
      obtain ⟨w, rest, rfl, hw, -⟩ := h
      obtain ⟨w', rest', heq, hw', -⟩ := h'
      cases heq
      rw [hw.unique hw']

/-- The words that tell which points a command exchanges something over, or which endpoint it
activates. -/
def TypedIn (ws : List Text) : Command → Prop
  | send saps _ | receive saps | connect saps => saps.TypedIn ws
  | notify (.activate endpoint _) => PlaceTypedIn ws endpoint
  | _ => True

namespace Reader
variable {s s' : Input} {command : Command}

theorem snep_words (h : snep.run s = .ok command s') :
    ∃ ws, "snep".toList :: s.words = command.opening ++ ws ∧ command.TypedIn ws := by
  obtain ⟨word, t, hword, h⟩ := run_bind_eq_ok_iff.mp h
  by_cases hput : word = "put".toList
  · rw [if_pos hput] at h
    obtain ⟨⟨points, records⟩, u, harguments, h⟩ := run_bind_eq_ok_iff.mp h
    obtain ⟨points', v, hpoints, hrecords⟩ := run_bind_eq_ok_iff.mp harguments
    obtain ⟨records', w, -, hpure⟩ := run_bind_eq_ok_iff.mp hrecords
    cases (run_pure_eq_ok_iff.mp hpure).1
    obtain ⟨rfl, -⟩ := run_pure_eq_ok_iff.mp h
    refine ⟨t.words, ?_, ?_⟩
    · rw [operation_words hword, hput]
      split <;> rfl
    · split <;> exact saps_words hpoints
  · rw [if_neg hput] at h
    exact absurd h not_run_fail_bind

theorem llcp_words (h : llcp.run s = .ok command s') :
    ∃ ws, "llcp".toList :: s.words = command.opening ++ ws ∧ command.TypedIn ws := by
  obtain ⟨word, t, hword, h⟩ := run_bind_eq_ok_iff.mp h
  by_cases hconnect : word = "connect".toList
  · rw [if_pos hconnect] at h
    obtain ⟨points, u, hpoints, h⟩ := run_bind_eq_ok_iff.mp h
    obtain ⟨rfl, -⟩ := run_pure_eq_ok_iff.mp h
    refine ⟨t.words, ?_, saps_words hpoints⟩
    rw [operation_words hword, hconnect]
    rfl
  · rw [if_neg hconnect] at h
    exact absurd h not_run_fail_bind

theorem endpointPlace_eq_ok {count place : Nat} (h : (endpointPlace count).run s = .ok place s') :
    ∃ w, s.token? space = some (w, s') ∧ Numeral.unsigned w = .ok place := by
  obtain ⟨n, t, hn, h⟩ := run_bind_eq_ok_iff.mp h
  by_cases hcount : n < count
  · rw [if_pos hcount] at h
    obtain ⟨rfl, rfl⟩ := run_pure_eq_ok_iff.mp h
    exact numeral_eq_ok hn
  · rw [if_neg hcount] at h
    exact absurd h not_run_fail

theorem tag_set_eq_ok {c : Emulator.Controller} {t : Input}
    (hset : operation.run s = .ok "set".toList t) (h : (tag c).run s = .ok command s') :
    ∃ place u l, (endpointPlace c.endpoints.length).run t = .ok place u ∧
      records.run u = .ok l s' ∧ command = .setTag place l.records := by
  obtain ⟨word, v, hword, h⟩ := run_bind_eq_ok_iff.mp h
  rw [hset] at hword
  cases hword
  rw [if_pos rfl] at h
  obtain ⟨place, u, hplace, h⟩ := run_bind_eq_ok_iff.mp h
  cases htag : c.tagAt place with
  | error e =>
    simp only [htag] at h
    exact absurd h not_run_fail_bind
  | ok found =>
    simp only [htag] at h
    obtain ⟨l, v, hrecords, h⟩ := run_bind_eq_ok_iff.mp h
    obtain ⟨rfl, rfl⟩ := run_pure_eq_ok_iff.mp h
    exact ⟨place, u, l, hplace, hrecords, rfl⟩

theorem tag_words {c : Emulator.Controller} (hrun : (tag c).run s = .ok command s') :
    ∃ ws, "tag".toList :: s.words = command.opening ++ ws ∧ command.TypedIn ws := by
  obtain ⟨word, t, hword, h⟩ := run_bind_eq_ok_iff.mp hrun
  by_cases hset : word = "set".toList
  · rw [hset] at hword
    obtain ⟨place, u, l, -, -, rfl⟩ := tag_set_eq_ok hword hrun
    exact ⟨t.words, by rw [operation_words hword]; rfl, trivial⟩
  rw [if_neg hset] at h
  by_cases hclear : word = "clear".toList
  · rw [if_pos hclear] at h
    obtain ⟨place, u, -, h⟩ := run_bind_eq_ok_iff.mp h
    obtain ⟨rfl, -⟩ := run_pure_eq_ok_iff.mp h
    exact ⟨t.words, by rw [operation_words hword, hclear]; rfl, trivial⟩
  rw [if_neg hclear] at h
  by_cases hformat : word = "format".toList
  · rw [if_pos hformat] at h
    obtain ⟨place, u, -, h⟩ := run_bind_eq_ok_iff.mp h
    obtain ⟨rfl, -⟩ := run_pure_eq_ok_iff.mp h
    exact ⟨t.words, by rw [operation_words hword, hformat]; rfl, trivial⟩
  · rw [if_neg hformat] at h
    exact absurd h not_run_fail

theorem hasRest_words {more : Bool} (h : hasRest.run s = .ok more s') :
    s = s' ∧ (more = false → s.words = [] ∨ s.words = [[]]) := by
  have hrun : EStateM.Result.ok s.hasRest s = (.ok more s' : EStateM.Result Error Input Bool) := h
  cases hrun
  refine ⟨rfl, ?_⟩
  intro hnone
  obtain ⟨rest⟩ := s
  cases rest with
  | none => exact .inl rfl
  | some t =>
    have hempty : t = [] := by simpa [Input.hasRest] using hnone
    exact .inr (by rw [hempty]; rfl)

theorem endpointPlace_words {count place : Nat} (h : (endpointPlace count).run s = .ok place s') :
    ∃ w, s.words = w :: s'.words ∧ Numeral.unsigned w = .ok place := by
  obtain ⟨w, htoken, hnumber⟩ := endpointPlace_eq_ok h
  exact ⟨w, Input.words_token htoken, hnumber⟩

theorem notification_words {c : Emulator.Controller} {word : Text} {n : Nci.Notification}
    (h : (notification c word).run s = .ok n s') :
    word = n.operation.label ∧ (notify n).TypedIn s.words := by
  unfold notification at h
  by_cases hdiscover : word = Operation.discover.label
  · rw [if_pos hdiscover] at h
    obtain ⟨place, t, -, h⟩ := run_bind_eq_ok_iff.mp h
    obtain ⟨stage, u, -, h⟩ := run_bind_eq_ok_iff.mp h
    obtain ⟨rfl, -⟩ := run_pure_eq_ok_iff.mp h
    exact ⟨hdiscover, trivial⟩
  rw [if_neg hdiscover] at h
  by_cases hactivate : word = Operation.activate.label
  · rw [if_pos hactivate] at h
    obtain ⟨more, t, hmore, h⟩ := run_bind_eq_ok_iff.mp h
    obtain ⟨rfl, hnone⟩ := hasRest_words hmore
    cases more with
    | false =>
      obtain ⟨rfl, -⟩ := run_pure_eq_ok_iff.mp h
      exact ⟨hactivate, hnone rfl⟩
    | true =>
      obtain ⟨place, u, hplace, h⟩ := run_bind_eq_ok_iff.mp h
      obtain ⟨w, hw, hparse⟩ := endpointPlace_words hplace
      obtain ⟨more, v, -, h⟩ := run_bind_eq_ok_iff.mp h
      cases more with
      | false =>
        obtain ⟨rfl, -⟩ := run_pure_eq_ok_iff.mp h
        exact ⟨hactivate, w, u.words, hw, ((Numeral.unsigned_outcome w).ok _).mp hparse⟩
      | true =>
        obtain ⟨chosen, x, -, h⟩ := run_bind_eq_ok_iff.mp h
        obtain ⟨rfl, -⟩ := run_pure_eq_ok_iff.mp h
        exact ⟨hactivate, w, u.words, hw, ((Numeral.unsigned_outcome w).ok _).mp hparse⟩
  rw [if_neg hactivate] at h
  by_cases hdeactivate : word = Operation.deactivate.label
  · rw [if_pos hdeactivate] at h
    obtain ⟨more, t, -, h⟩ := run_bind_eq_ok_iff.mp h
    cases more with
    | false =>
      obtain ⟨rfl, -⟩ := run_pure_eq_ok_iff.mp h
      exact ⟨hdeactivate, trivial⟩
    | true =>
      obtain ⟨type, u, -, h⟩ := run_bind_eq_ok_iff.mp h
      obtain ⟨reason, v, -, h⟩ := run_bind_eq_ok_iff.mp h
      obtain ⟨rfl, -⟩ := run_pure_eq_ok_iff.mp h
      exact ⟨hdeactivate, trivial⟩
  · rw [if_neg hdeactivate] at h
    exact absurd h not_run_fail

theorem nci_words {c : Emulator.Controller} (h : (nci c).run s = .ok command s') :
    ∃ ws, "nci".toList :: s.words = command.opening ++ ws ∧ command.TypedIn ws := by
  obtain ⟨word, t, hword, h⟩ := run_bind_eq_ok_iff.mp h
  obtain ⟨n, u, hn, h⟩ := run_bind_eq_ok_iff.mp h
  obtain ⟨rfl, -⟩ := run_pure_eq_ok_iff.mp h
  obtain ⟨hlabel, htyped⟩ := notification_words hn
  refine ⟨t.words, ?_, htyped⟩
  rw [operation_words hword, hlabel]
  rfl

theorem reader_words {family : Family} {c : Emulator.Controller}
    (h : (family.reader c).run s = .ok command s') :
    ∃ ws, family.keyword :: s.words = command.opening ++ ws ∧ command.TypedIn ws := by
  cases family with
  | snep => exact snep_words h
  | nci => exact nci_words h
  | llcp => exact llcp_words h
  | tag => exact tag_words h

end Reader

theorem keyword_of_ofKeyword? {word : Text} {family : Family}
    (h : Family.ofKeyword? word = some family) : family.keyword = word := by
  unfold Family.ofKeyword? at h
  have hkeyword := List.find?_some h
  exact beq_iff_eq.mp hkeyword

/-- A line is read by the family that its first word names, from the words behind it. -/
theorem ofLine_cases (c : Emulator.Controller) (line : Text) :
    ofLine c line = .error .noArguments ∨ (∃ word, ofLine c line = .error (.unknownCommand word)) ∨
      ∃ (family : Family) (t : Text), words line = family.keyword :: Input.words ⟨some t⟩ ∧
        ofLine c line = family.readInput c ⟨some t⟩ := by
  obtain ⟨word, input, htoken⟩ : ∃ word input, (Input.mk (some
      (Text.dropEndWhile (fun c => c == '\r' || c == '\n') line))).token? Reader.space =
        some (word, input) := ⟨_, _, rfl⟩
  have hwords : words line = word :: input.words := Input.words_token htoken
  simp only [ofLine, splitLine, htoken]
  cases hfamily : Family.ofKeyword? word with
  | none =>
    by_cases hempty : word.isEmpty
    · exact .inl (by simp [hempty])
    · exact .inr (.inl ⟨word, by simp [hempty]⟩)
  | some family =>
    obtain ⟨rest⟩ := input
    cases rest with
    | none => exact .inl rfl
    | some t =>
      refine .inr (.inr ⟨family, t, ?_, rfl⟩)
      rw [hwords, keyword_of_ofKeyword? hfamily]

theorem readInput_eq_ok_iff {c : Emulator.Controller} {family : Family} {input : Input}
    {command : Command} : family.readInput c input = .ok command ↔
      ∃ s, (family.reader c).run input = .ok command s := by
  unfold Family.readInput
  cases (family.reader c).run input <;> simp

theorem ofLine_eq_ok {c : Emulator.Controller} {line : Text} {command : Command}
    (h : ofLine c line = .ok command) :
    ∃ (family : Family) (input s : Input), words line = family.keyword :: input.words ∧
      (family.reader c).run input = .ok command s := by
  rcases ofLine_cases c line with hnone | ⟨word, hunknown⟩ | ⟨family, t, hwords, hread⟩
  · rw [hnone] at h
    cases h
  · rw [hunknown] at h
    cases h
  · obtain ⟨s, hrun⟩ := readInput_eq_ok_iff.mp (hread.symm.trans h)
    exact ⟨family, ⟨some t⟩, s, hwords, hrun⟩

theorem ofLine_words {c : Emulator.Controller} {line : Text} {command : Command}
    (h : ofLine c line = .ok command) :
    ∃ ws, words line = command.opening ++ ws ∧ command.TypedIn ws := by
  obtain ⟨family, input, s, hwords, hrun⟩ := ofLine_eq_ok h
  rw [hwords]
  exact Reader.reader_words hrun

/-- A put over SNEP, in either direction, or a connect over LLCP. -/
def IsExchange (line : Text) : Prop :=
  ["snep".toList, "put".toList] <+: words line ∨ ["llcp".toList, "connect".toList] <+: words line

def saps? : Command → Option Llcp.Saps
  | send saps _ | receive saps | connect saps => some saps
  | _ => none

theorem TypedIn.of_saps? {ws : List Text} {command : Command} {saps : Llcp.Saps}
    (h : command.TypedIn ws) (hsaps : command.saps? = some saps) : saps.TypedIn ws := by
  cases command with
  | send | receive | connect =>
    cases hsaps
    exact h
  | _ => cases hsaps

theorem isExchange_iff {line : Text} {ws : List Text} {command : Command}
    (hws : words line = command.opening ++ ws) :
    IsExchange line ↔ ∃ saps, command.saps? = some saps := by
  unfold IsExchange
  rw [hws]
  cases command <;> simp [opening, saps?]

def tagPlace? : Command → Option Nat
  | setTag place _ | clearTag place | formatTag place => some place
  | _ => none

/-- The endpoint that is typed in a line on a tag, behind the operation. -/
def NamesTag (line : Text) (place : Nat) : Prop :=
  ∃ operation w rest, words line = "tag".toList :: operation :: w :: rest ∧
    Numeral.unsigned w = .ok place

theorem NamesTag.unique {line : Text} {place other : Nat} (h : NamesTag line place)
    (h' : NamesTag line other) : place = other := by
  obtain ⟨operation, w, rest, hwords, hplace⟩ := h
  obtain ⟨operation', w', rest', hwords', hother⟩ := h'
  rw [hwords] at hwords'
  cases hwords'
  rw [hplace] at hother
  exact Except.ok.inj hother

theorem NamesTag.keyword {line : Text} {place : Nat} (h : NamesTag line place) :
    ["tag".toList] <+: words line := by
  obtain ⟨operation, w, rest, hwords, -⟩ := h
  rw [hwords]
  exact ⟨operation :: w :: rest, rfl⟩

theorem Reader.tag_place {c : Emulator.Controller} {s s' : Input} {command : Command}
    (hrun : (tag c).run s = .ok command s') :
    ∃ operation w rest place, s.words = operation :: w :: rest ∧ Numeral.unsigned w = .ok place ∧
      command.tagPlace? = some place := by
  obtain ⟨word, t, hword, h⟩ := run_bind_eq_ok_iff.mp hrun
  have hwords := operation_words hword
  by_cases hset : word = "set".toList
  · rw [hset] at hword
    obtain ⟨place, u, l, hplace, -, rfl⟩ := tag_set_eq_ok hword hrun
    obtain ⟨w, hw, hnumber⟩ := endpointPlace_words hplace
    exact ⟨word, w, u.words, place, by rw [hwords, hw], hnumber, rfl⟩
  rw [if_neg hset] at h
  by_cases hclear : word = "clear".toList
  · rw [if_pos hclear] at h
    obtain ⟨place, u, hplace, h⟩ := run_bind_eq_ok_iff.mp h
    obtain ⟨rfl, -⟩ := run_pure_eq_ok_iff.mp h
    obtain ⟨w, hw, hnumber⟩ := endpointPlace_words hplace
    exact ⟨word, w, u.words, place, by rw [hwords, hw], hnumber, rfl⟩
  rw [if_neg hclear] at h
  by_cases hformat : word = "format".toList
  · rw [if_pos hformat] at h
    obtain ⟨place, u, hplace, h⟩ := run_bind_eq_ok_iff.mp h
    obtain ⟨rfl, -⟩ := run_pure_eq_ok_iff.mp h
    obtain ⟨w, hw, hnumber⟩ := endpointPlace_words hplace
    exact ⟨word, w, u.words, place, by rw [hwords, hw], hnumber, rfl⟩
  · rw [if_neg hformat] at h
    exact absurd h not_run_fail

/-- A command changes the tag that its line names, if the line is one on a tag, and no tag
otherwise. -/
theorem ofLine_tagPlace? {c : Emulator.Controller} {line : Text} {command : Command}
    (h : ofLine c line = .ok command) :
    (∃ place, command.tagPlace? = some place ∧ NamesTag line place) ∨
      (command.tagPlace? = none ∧ ¬ ["tag".toList] <+: words line) := by
  obtain ⟨family, input, s, hwords, hrun⟩ := ofLine_eq_ok h
  cases family with
  | tag =>
    obtain ⟨operation, w, rest, place, hinput, hnumber, hplace⟩ := Reader.tag_place hrun
    exact .inl ⟨place, hplace, operation, w, rest, by rw [hwords, hinput]; rfl, hnumber⟩
  | _ =>
    obtain ⟨ws, hopening, -⟩ := Reader.reader_words hrun
    refine .inr ⟨?_, by simp [hwords, Family.keyword]⟩
    cases command <;> simp [opening, Family.keyword, tagPlace?] at hopening ⊢

end Command
end NearField
