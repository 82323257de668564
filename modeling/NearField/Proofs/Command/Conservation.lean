import NearField.Proofs.Command.RecordGrammar

/-! # Conservation of the input

Tokens, single characters and blanks can be taken off an input in any order, and each token with
delimiters of its own. In the order of the calls, what they take and what is left is the input
again. Tokens come until the input is exhausted, which it then stays, and with the same delimiters
throughout there is one token more than there are delimiters.
-/
namespace NearField.Command.Input

inductive Call
  | token (delimiters : List Char)
  | eat (c : Char)
  | skip
  deriving DecidableEq, Repr

inductive Answer
  | token (t : Option Text)
  | eaten (found : Bool)
  | skipped
  deriving DecidableEq, Repr

/-- A call that finds nothing to take leaves the input as it is. -/
def call (s : Input) : Call → Answer × Input
  | .token delimiters =>
    match s.token? delimiters with
    | some (t, s) => (.token (some t), s)
    | none => (.token none, s)
  | .eat c =>
    match s.after? c with
    | some s => (.eaten true, s)
    | none => (.eaten false, s)
  | .skip => (.skipped, s.skipBlanks)

/-- What calls leave, one after the other. -/
def through (s : Input) (calls : List Call) : Input := calls.foldl (fun s c => (s.call c).2) s

def answers (s : Input) : List Call → List Answer
  | [] => []
  | c :: calls => (s.call c).1 :: (s.call c).2.answers calls

/-- The unread text, which is empty in an exhausted input. -/
def text (s : Input) : Text := s.rest.getD []

theorem through_cons (s : Input) (c : Call) (calls : List Call) :
    s.through (c :: calls) = (s.call c).2.through calls := rfl

/-- A call with its answer and what it takes off the unread text. -/
structure Turn where
  call : Call
  answer : Answer
  taken : Text

/-- The turns that there are, from what is unread before to what is unread behind. A token that is
not the last one is taken with its delimiter, and the last one is all that there is. A character is
taken if it comes first, and blanks as far as they go. -/
inductive Takes : Option Text → Turn → Option Text → Prop
  | field {delimiters : List Char} {t w unread : Text} (h : IsField delimiters t w) :
      Takes (some (t ++ unread)) ⟨.token delimiters, .token (some w), t⟩ (some unread)
  | last {delimiters : List Char} {w : Text} (h : ∀ c ∈ w, c ∉ delimiters) :
      Takes (some w) ⟨.token delimiters, .token (some w), w⟩ none
  | exhausted {delimiters : List Char} : Takes none ⟨.token delimiters, .token none, []⟩ none
  | eaten {c : Char} {unread : Text} :
      Takes (some (c :: unread)) ⟨.eat c, .eaten true, [c]⟩ (some unread)
  | spared {c : Char} {unread : Option Text} (h : ∀ tail, unread ≠ some (c :: tail)) :
      Takes unread ⟨.eat c, .eaten false, []⟩ unread
  | blanks {blanks unread : Text} (hblanks : ∀ c ∈ blanks, Text.isBlank c = true)
      (hunread : ∀ c ∈ unread.head?, Text.isBlank c = false) :
      Takes (some (blanks ++ unread)) ⟨.skip, .skipped, blanks⟩ (some unread)
  | skipped : Takes none ⟨.skip, .skipped, []⟩ none

theorem takes_token (s : Input) (delimiters : List Char) :
    ∃ taken, Takes s.rest ⟨.token delimiters, (s.call (.token delimiters)).1, taken⟩
      (s.call (.token delimiters)).2.rest := by
  obtain ⟨rest⟩ := s
  cases rest with
  | none => exact ⟨[], .exhausted⟩
  | some t =>
    rcases exists_token t delimiters with ⟨hall, htoken⟩ | ⟨taken, w, unread, rfl, hfield, htoken⟩
    · simp only [call, htoken]
      exact ⟨t, .last hall⟩
    · simp only [call, htoken]
      exact ⟨taken, .field hfield⟩

theorem takes_eat (s : Input) (c : Char) :
    ∃ taken, Takes s.rest ⟨.eat c, (s.call (.eat c)).1, taken⟩ (s.call (.eat c)).2.rest := by
  cases hafter : s.after? c with
  | some s' =>
    obtain ⟨tail, hs, rfl⟩ := after?_eq_some_iff.mp hafter
    simp only [call, hafter, hs]
    exact ⟨[c], .eaten⟩
  | none =>
    simp only [call, hafter]
    refine ⟨[], .spared fun tail hs => ?_⟩
    rw [after?_eq_some_iff.mpr ⟨tail, hs, rfl⟩] at hafter
    cases hafter

theorem takes_skip (s : Input) :
    ∃ taken, Takes s.rest ⟨.skip, (s.call .skip).1, taken⟩ (s.call .skip).2.rest := by
  obtain ⟨rest⟩ := s
  cases rest with
  | none => exact ⟨[], .skipped⟩
  | some t =>
    obtain ⟨blanks, hblanks, hsplit⟩ := exists_blanks t
    have hbehind : ∀ c ∈ (Text.trimStart t).head?, Text.isBlank c = false := by
      intro c hc
      have hnot := List.head?_dropWhile_not Text.isBlank t
      rw [Text.trimStart, Option.mem_def] at hc
      rw [hc] at hnot
      exact hnot
    have h := Takes.blanks hblanks hbehind
    rw [← hsplit] at h
    exact ⟨blanks, h⟩

theorem takes_call (s : Input) (c : Call) :
    ∃ taken, Takes s.rest ⟨c, (s.call c).1, taken⟩ (s.call c).2.rest := by
  cases c with
  | token delimiters => exact takes_token s delimiters
  | eat c => exact takes_eat s c
  | skip => exact takes_skip s

theorem Takes.text_eq {unread unread' : Option Text} {turn : Turn}
    (h : Takes unread turn unread') : unread.getD [] = turn.taken ++ unread'.getD [] := by
  cases h with
  | last => exact (List.append_nil _).symm
  | field | exhausted | eaten | spared | blanks | skipped => rfl

theorem Takes.next {unread unread' : Option Text} {delimiters : List Char} {w taken : Text}
    (h : Takes unread ⟨.token delimiters, .token (some w), taken⟩ unread') :
    (∀ c ∈ w, c ∉ delimiters) ∧ (unread' = none ∧ unread.getD [] = w ∨
      ∃ d ∈ delimiters, ∃ behind, unread' = some behind ∧ unread.getD [] = w ++ d :: behind) := by
  cases h with
  | field h =>
    obtain ⟨hw, d, hd, rfl⟩ := h
    exact ⟨hw, .inr ⟨d, hd, _, rfl, by simp⟩⟩
  | last h => exact ⟨h, .inl ⟨rfl, rfl⟩⟩

theorem Takes.eq_none {turn : Turn} {unread : Option Text} (h : Takes none turn unread) :
    unread = none := by
  cases h with
  | exhausted | spared | skipped => rfl

/-- Turns one after the other. -/
inductive History : Option Text → List Turn → Option Text → Prop
  | nil {unread : Option Text} : History unread [] unread
  | cons {unread next last : Option Text} {turn : Turn} {turns : List Turn}
      (h : Takes unread turn next) (ht : History next turns last) :
      History unread (turn :: turns) last

def read (turns : List Turn) : Text := turns.flatMap Turn.taken

theorem History.text_eq {unread last : Option Text} {turns : List Turn}
    (h : History unread turns last) : unread.getD [] = read turns ++ last.getD [] := by
  induction h with
  | nil => rfl
  | cons h ht ih => rw [h.text_eq, ih, read, read, List.flatMap_cons, List.append_assoc]

theorem exists_history (s : Input) (calls : List Call) :
    ∃ turns, History s.rest turns (s.through calls).rest ∧ turns.map Turn.call = calls ∧
      turns.map Turn.answer = s.answers calls := by
  induction calls generalizing s with
  | nil => exact ⟨[], .nil, rfl, rfl⟩
  | cons c calls ih =>
    obtain ⟨taken, hturn⟩ := takes_call s c
    obtain ⟨turns, hturns, hcalls, hanswers⟩ := ih (s.call c).2
    refine ⟨⟨c, (s.call c).1, taken⟩ :: turns, .cons hturn hturns, ?_, ?_⟩
    · rw [List.map_cons, hcalls]
    · rw [List.map_cons, hanswers, answers]

theorem utf8_behind (taken unread : Text) :
    Text.utf8 unread = (Text.utf8 (taken ++ unread)).drop (Text.utf8 taken).length := by
  rw [Text.utf8_append, List.drop_left]

theorem through_of_exhausted {s : Input} (h : s.rest = none) (calls : List Call) :
    (s.through calls).rest = none := by
  induction calls generalizing s with
  | nil => exact h
  | cons c calls ih =>
    obtain ⟨taken, hturn⟩ := takes_call s c
    rw [h] at hturn
    exact ih hturn.eq_none

/-- How many tokens an input has for the same delimiters throughout. -/
def tokenCount (s : Input) (delimiters : List Char) : Nat :=
  s.rest.elim 0 fun t => t.countP (· ∈ delimiters) + 1

theorem tokenCount_pos_iff {s : Input} {delimiters : List Char} :
    0 < s.tokenCount delimiters ↔ (s.token? delimiters).isSome = true := by
  obtain ⟨rest⟩ := s
  cases rest with
  | none => simp [tokenCount, token?]
  | some t => simp [tokenCount, token?]

theorem Takes.tokenCount_eq {unread unread' : Option Text} {delimiters : List Char}
    {answer : Answer} {taken : Text}
    (h : Takes unread ⟨.token delimiters, answer, taken⟩ unread') :
    tokenCount ⟨unread'⟩ delimiters = tokenCount ⟨unread⟩ delimiters - 1 := by
  cases h with
  | @field _ _ w unread h =>
    obtain ⟨hw, d, hd, rfl⟩ := h
    have hnone : w.countP (· ∈ delimiters) = 0 := by simpa [List.countP_eq_zero] using hw
    simp only [tokenCount, Option.elim, List.countP_append, hnone, List.countP_singleton, hd,
      decide_true, if_true]
    omega
  | last h =>
    have hnone : taken.countP (· ∈ delimiters) = 0 := by simpa [List.countP_eq_zero] using h
    simp only [tokenCount, Option.elim, hnone]
  | exhausted => rfl

theorem tokenCount_through (s : Input) (delimiters : List Char) (k : Nat) :
    (s.through (List.replicate k (.token delimiters))).tokenCount delimiters =
      s.tokenCount delimiters - k := by
  induction k generalizing s with
  | zero => rfl
  | succ k ih =>
    obtain ⟨taken, hturn⟩ := takes_call s (.token delimiters)
    rw [List.replicate_succ, through_cons, ih, hturn.tokenCount_eq, Nat.sub_sub, Nat.add_comm]

/-- Calls in any order read an input from its beginning on, with no character left out or taken
twice, and what is unread is an end of it, also by its bytes. The next token has none of its
delimiters in it and one behind it, unless it is the last. There is no token just if the input is
exhausted, as it then stays. With the same delimiters there is a token for each of them in the
input, and one more. -/
theorem text_conserved (s : Input) (calls : List Call) :
    (∃ turns, History s.rest turns (s.through calls).rest ∧ turns.map Turn.call = calls ∧
      turns.map Turn.answer = s.answers calls ∧
      s.text = read turns ++ (s.through calls).text ∧
      Text.utf8 (s.through calls).text = (Text.utf8 s.text).drop (Text.utf8 (read turns)).length ∧
      ∀ delimiters w s', (s.through calls).token? delimiters = some (w, s') →
        (∀ c ∈ w, c ∉ delimiters) ∧ (s'.rest = none ∧ s.text = read turns ++ w ∨
          ∃ d ∈ delimiters, ∃ unread, s'.rest = some unread ∧
            s.text = read turns ++ w ++ d :: unread)) ∧
    (∀ unread ∈ (s.through calls).rest, unread <:+ s.text) ∧
    (∀ delimiters, (s.through calls).token? delimiters = none ↔ (s.through calls).rest = none) ∧
    (∀ more, (s.through calls).rest = none → (s.through (calls ++ more)).rest = none) ∧
    ∀ delimiters k,
      ((s.through (List.replicate k (.token delimiters))).token? delimiters).isSome = true ↔
        k < s.tokenCount delimiters := by
  obtain ⟨turns, hhistory, hcalls, hanswers⟩ := exists_history s calls
  have htext : s.text = read turns ++ (s.through calls).text := hhistory.text_eq
  refine ⟨⟨turns, hhistory, hcalls, hanswers, htext, ?_, ?_⟩, ?_, ?_, ?_, ?_⟩
  · rw [htext]
    exact utf8_behind _ _
  · intro delimiters w s' htoken
    obtain ⟨taken, hturn⟩ := takes_call (s.through calls) (.token delimiters)
    simp only [call, htoken] at hturn
    obtain ⟨hw, ⟨hlast, hall⟩ | ⟨d, hd, unread, hrest, hnext⟩⟩ := hturn.next
    · rw [htext, text, hall]
      exact ⟨hw, .inl ⟨hlast, rfl⟩⟩
    · rw [htext, text, hnext, ← List.append_assoc]
      exact ⟨hw, .inr ⟨d, hd, unread, hrest, rfl⟩⟩
  · intro unread hunread
    rw [htext, text, Option.mem_def.mp hunread]
    exact List.suffix_append _ _
  · intro delimiters
    exact token?_eq_none_iff
  · intro more hexhausted
    rw [through, List.foldl_append]
    exact through_of_exhausted hexhausted more
  · intro delimiters k
    rw [← tokenCount_pos_iff, tokenCount_through]
    omega

/-- Delimiters may be of any kind, or none, and the token behind the last of them may be empty. -/
example : (Input.mk (some " [é,1é".toList)).answers
      [.eat '[', .skip, .eat '[', .token ['é'], .token [',', ' '], .token ['é'], .token [],
        .token []] =
    [.eaten false, .skipped, .eaten true, .token (some []), .token (some []),
      .token (some ['1']), .token (some []), .token none] := by
  decide

end NearField.Command.Input
