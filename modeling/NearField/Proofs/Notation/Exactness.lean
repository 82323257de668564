import Mathlib.Data.List.Induction
import NearField.Proofs.Notation

/-! # Exactness of numbers

A text is read as a number if and only if it is a notation of one that fits its word. Every other
text is refused for the first thing that is wrong with it. So a number that is printed in any of the
three bases is read back.
-/
namespace NearField.Numeral

theorem code_of_digit? {base d : Nat} {c : Char} (h : digit? base c = some d) :
    d < 10 ∧ c.toNat = d + 48 ∨ 10 ≤ d ∧ (c.toNat = d + 87 ∨ c.toNat = d + 55) := by
  have hvalue := (Option.filter_eq_some_iff.mp h).1
  split at hvalue
  · next hc =>
    replace hc : 48 ≤ c.toNat ∧ c.toNat ≤ 57 := hc
    replace hvalue : c.toNat - 48 = d := Option.some.inj hvalue
    omega
  split at hvalue
  · next hc =>
    replace hc : 97 ≤ c.toNat ∧ c.toNat ≤ 122 := hc
    replace hvalue : c.toNat - 97 + 10 = d := Option.some.inj hvalue
    omega
  split at hvalue
  · next hc =>
    replace hc : 65 ≤ c.toNat ∧ c.toNat ≤ 90 := hc
    replace hvalue : c.toNat - 65 + 10 = d := Option.some.inj hvalue
    omega
  · cases hvalue

theorem digit?_eq_some_iff {base d : Nat} {c : Char} (hbase : base ≤ 16) :
    digit? base c = some d ↔ IsDigit base c d := by
  constructor
  · intro h
    have hlt := digit?_lt h
    have hall : ∀ d : Fin 16, (d.val < 10 → Char.ofNat (d.val + 48) = Nat.digitChar d.val) ∧
        (10 ≤ d.val → Char.ofNat (d.val + 87) = Nat.digitChar d.val ∧
          Char.ofNat (d.val + 55) = (Nat.digitChar d.val).toUpper) := by decide
    obtain ⟨hdecimal, hletter⟩ := hall ⟨d, by omega⟩
    refine ⟨hlt, ?_⟩
    rw [← Char.ofNat_toNat c]
    rcases code_of_digit? h with ⟨hd, hc⟩ | ⟨hd, hc | hc⟩
    · exact .inl (hc ▸ hdecimal hd)
    · exact .inl (hc ▸ (hletter hd).1)
    · exact .inr (hc ▸ (hletter hd).2)
  · exact fun h => h.digit? hbase

theorem digits_iff {base n : Nat} {t : Text} (hbase : base ≤ 16) :
    Digits base t n ↔ ∃ ds, t.mapM (digit? base) = some ds ∧ ds ≠ [] ∧ valueOf base ds = n := by
  constructor
  · intro h
    obtain ⟨ds, hds, hvalue, hne⟩ := h.mapM_eq hbase
    exact ⟨ds, hds, hne, hvalue⟩
  · -- digits grow at their end, as the value does
    rintro ⟨ds, hds, hne, rfl⟩
    induction t using List.reverseRecOn generalizing ds with
    | nil =>
      cases hds
      exact absurd rfl hne
    | append_singleton t c ih =>
      simp only [List.mapM_append, List.mapM_cons, List.mapM_nil, Option.bind_eq_bind,
        Option.bind_eq_some_iff, Option.pure_def, Option.some.injEq] at hds
      obtain ⟨front, hfront, _, ⟨d, hd, _, rfl, rfl⟩, rfl⟩ := hds
      have hdigit := (digit?_eq_some_iff hbase).mp hd
      rw [valueOf_append]
      by_cases hnil : front = []
      · subst hnil
        have ht : t = [] := by
          cases t with
          | nil => rfl
          | cons a t => simp [List.mapM_cons, Option.bind_eq_some_iff] at hfront
        subst ht
        simpa [valueOf] using Digits.single hdigit
      · exact .snoc (ih front hfront hnil) hdigit

theorem body_iff {t : Text} {n : Nat} :
    Body t n ↔ Digits (splitBase t).1 (splitBase t).2 n := by
  constructor
  · exact Body.digits
  · intro h
    unfold splitBase at h
    split at h
    · exact .hexadecimal (.inl rfl) h
    · exact .hexadecimal (.inr rfl) h
    · exact .octal h
    · next hx hX ho =>
      by_cases hzero : t.head? = some '0'
      · obtain ⟨rest, rfl⟩ := List.head?_eq_some_iff.mp hzero
        cases rest with
        | nil =>
          obtain ⟨ds, hds, -, rfl⟩ := (digits_iff (by decide)).mp h
          cases hds
          exact .zero
        | cons c rest => exact absurd rfl (ho c rest)
      · exact .decimal h hzero

theorem Body.unique {t : Text} {n m : Nat} (hn : Body t n) (hm : Body t m) : n = m := by
  obtain ⟨ds, hds, -, rfl⟩ := (digits_iff (splitBase_le t)).mp (body_iff.mp hn)
  obtain ⟨ds', hds', -, rfl⟩ := (digits_iff (splitBase_le t)).mp (body_iff.mp hm)
  rw [hds] at hds'
  rw [Option.some.inj hds']

theorem magnitude_of_not_body {t : Text} (h : ∀ n, ¬ Body t n) :
    magnitude t = .error (if t = [] then .empty else .malformed) := by
  by_cases hnil : t = []
  · subst hnil
    rfl
  have hempty : t.isEmpty = false := by simpa using hnil
  simp only [magnitude, hempty, hnil, Bool.false_eq_true, if_false]
  cases hds : (splitBase t).2.mapM (digit? (splitBase t).1) with
  | none => rfl
  | some ds =>
    cases ds with
    | nil => rfl
    | cons d ds =>
      have hdigits := (digits_iff (splitBase_le t)).mpr ⟨d :: ds, hds, by simp, rfl⟩
      exact absurd (body_iff.mpr hdigits) (h _)

theorem unsigned_iff {t : Text} {n : Nat} : Unsigned t n ↔ Body (dropPlus t) n := by
  constructor
  · intro h
    cases h with
    | bare body => rwa [body.dropPlus_eq]
    | plus body => exact body
  · intro h
    unfold dropPlus at h
    split at h
    · exact .plus h
    · exact .bare h

theorem Unsigned.unique {t : Text} {n m : Nat} (hn : Unsigned t n) (hm : Unsigned t m) : n = m :=
  (unsigned_iff.mp hn).unique (unsigned_iff.mp hm)

def splitSign : Text → Int × Text
  | '-' :: body => (-1, body)
  | t => (1, dropPlus t)

theorem splitSign_of_head_ne {t : Text} (h : t.head? ≠ some '-') :
    splitSign t = (1, dropPlus t) := by
  unfold splitSign
  split
  · exact absurd rfl h
  · rfl

theorem splitSign_sign (t : Text) : (splitSign t).1 = 1 ∨ (splitSign t).1 = -1 := by
  unfold splitSign
  split <;> simp

theorem signed_iff {t : Text} {i : Int} :
    Signed t i ↔ ∃ n : Nat, Body (splitSign t).2 n ∧ i = (splitSign t).1 * n := by
  constructor
  · intro h
    cases h with
    | @unsigned t n unsigned =>
      rw [splitSign_of_head_ne unsigned.head_ne]
      exact ⟨n, unsigned_iff.mp unsigned, by simp⟩
    | @minus t n body => exact ⟨n, body, by simp [splitSign]⟩
  · rintro ⟨n, hbody, rfl⟩
    by_cases hminus : t.head? = some '-'
    · obtain ⟨body, rfl⟩ := List.head?_eq_some_iff.mp hminus
      simpa [splitSign] using Signed.minus hbody
    · rw [splitSign_of_head_ne hminus] at hbody ⊢
      simpa using Signed.unsigned (unsigned_iff.mpr hbody)

theorem Signed.unique {t : Text} {i j : Int} (hi : Signed t i) (hj : Signed t j) : i = j := by
  obtain ⟨n, hn, rfl⟩ := signed_iff.mp hi
  obtain ⟨m, hm, rfl⟩ := signed_iff.mp hj
  rw [hn.unique hm]

theorem unsigned_of_head_ne {t : Text} (h : t.head? ≠ some '-') :
    unsigned t = magnitude (dropPlus t) := by
  unfold unsigned
  split
  · exact absurd rfl h
  · rfl

abbrev InSignedRange (i : Int) : Prop := -0x8000_0000_0000_0000 ≤ i ∧ i < 0x8000_0000_0000_0000

def checkSigned (i : Int) : Except Fault Int :=
  if InSignedRange i then .ok i else .error .outOfRange

theorem map_cast_bind (r : Except Fault Nat) (sign : Int → Int) (f : Int → Except Fault Int) :
    (Except.map sign (do let n ← r; pure (n : Int)) >>= f) = match r with
      | .ok n => f (sign n)
      | .error fault => .error fault := by
  cases r <;> rfl

theorem signed_eq (t : Text) :
    signed t = match magnitude (splitSign t).2 with
      | .ok n => checkSigned ((splitSign t).1 * n)
      | .error fault => .error fault := by
  by_cases hminus : t.head? = some '-'
  · obtain ⟨body, rfl⟩ := List.head?_eq_some_iff.mp hminus
    simp only [splitSign, Int.neg_mul, Int.one_mul]
    exact map_cast_bind (magnitude body) (fun n => -n) checkSigned
  · rw [splitSign_of_head_ne hminus]
    simp only [Int.one_mul]
    unfold signed
    split
    · exact absurd rfl hminus
    · exact map_cast_bind (magnitude (dropPlus t)) (fun n => n) checkSigned

/-- What becomes of a text: it is read as the value that it is a notation of, and refused if that
is out of range or if there is none. -/
structure Outcome {α : Type} (notes inRange : α → Prop) (minus blank : Prop)
    (r : Except Fault α) : Prop where
  ok : ∀ a, r = .ok a ↔ notes a ∧ inRange a
  outOfRange : r = .error .outOfRange ↔ ∃ a, notes a ∧ ¬ inRange a
  negative : r = .error .negative ↔ minus
  empty : r = .error .empty ↔ blank
  malformed : r = .error .malformed ↔ ¬ minus ∧ ¬ blank ∧ ∀ a, ¬ notes a

namespace Outcome
variable {α : Type} {notes inRange : α → Prop} {minus blank : Prop} {r : Except Fault α}

theorem of_notes {a : α} [Decidable (inRange a)] (ha : notes a) (hunique : ∀ b, notes b → b = a)
    (hminus : ¬ minus) (hblank : ¬ blank)
    (hr : r = if inRange a then .ok a else .error .outOfRange) :
    Outcome notes inRange minus blank r := by
  have hany (p : α → Prop) : (∃ b, notes b ∧ p b) ↔ p a :=
    ⟨fun ⟨b, hb, hp⟩ => hunique b hb ▸ hp, fun hp => ⟨a, ha, hp⟩⟩
  have hvalue (b : α) : notes b ∧ inRange b ↔ inRange a ∧ a = b :=
    ⟨fun ⟨hb, hrange⟩ => by rw [← hunique b hb]; exact ⟨hrange, rfl⟩,
      by rintro ⟨hrange, rfl⟩; exact ⟨ha, hrange⟩⟩
  have hnone : ¬ ∀ b, ¬ notes b := fun h => h a ha
  subst hr
  by_cases hrange : inRange a <;> constructor <;>
    simp [hrange, hvalue, hany, hminus, hblank, hnone]

theorem of_none [Decidable minus] [Decidable blank] (hnone : ∀ a, ¬ notes a)
    (hapart : minus → ¬ blank)
    (hr : r = .error (if minus then .negative else if blank then .empty else .malformed)) :
    Outcome notes inRange minus blank r := by
  subst hr
  by_cases hminus : minus
  · constructor <;> simp [hnone, hminus, hapart hminus]
  by_cases hblank : blank
  · constructor <;> simp [hnone, hminus, hblank]
  · constructor <;> simp [hnone, hminus, hblank]

end Outcome

theorem dropPlus_eq_nil_iff {t : Text} : dropPlus t = [] ↔ t = [] ∨ t = ['+'] := by
  unfold dropPlus
  split <;> simp_all

theorem splitSign_eq_nil_iff {t : Text} :
    (splitSign t).2 = [] ↔ t = [] ∨ t = ['+'] ∨ t = ['-'] := by
  unfold splitSign
  split
  · simp
  · next hminus =>
    rw [dropPlus_eq_nil_iff]
    have hne : t ≠ ['-'] := fun h => hminus [] h
    simp [hne]

theorem unsigned_outcome (t : Text) :
    Outcome (Unsigned t) (· < 0x1_0000_0000_0000_0000) (t.head? = some '-') (t = [] ∨ t = ['+'])
      (unsigned t) := by
  by_cases hminus : t.head? = some '-'
  · refine .of_none (fun n h => h.head_ne hminus) ?_ ?_
    · rintro h (rfl | rfl) <;> cases h
    · obtain ⟨body, rfl⟩ := List.head?_eq_some_iff.mp hminus
      rfl
  rw [unsigned_of_head_ne hminus]
  by_cases hbody : ∃ n, Body (dropPlus t) n
  · obtain ⟨n, hn⟩ := hbody
    refine .of_notes (unsigned_iff.mpr hn) (fun m hm => (unsigned_iff.mp hm).unique hn) hminus ?_
      hn.magnitude_eq_ite
    rw [← dropPlus_eq_nil_iff]
    exact hn.ne_nil
  · have hnone : ∀ n, ¬ Body (dropPlus t) n := not_exists.mp hbody
    refine .of_none (fun n h => hnone n (unsigned_iff.mp h)) (absurd · hminus) ?_
    rw [magnitude_of_not_body hnone, if_neg hminus]
    simp only [dropPlus_eq_nil_iff]

theorem unsigned_eq_ok_byte_iff {t : Text} {b : UInt8} :
    unsigned t = .ok b.toNat ↔ Unsigned t b.toNat := by
  rw [(unsigned_outcome t).ok]
  exact and_iff_left (Nat.lt_trans b.toNat_lt (by decide))

theorem signed_outcome (t : Text) :
    Outcome (Signed t) InSignedRange False (t = [] ∨ t = ['+'] ∨ t = ['-']) (signed t) := by
  by_cases hbody : ∃ n, Body (splitSign t).2 n
  · obtain ⟨n, hn⟩ := hbody
    have hsigned : Signed t ((splitSign t).1 * n) := signed_iff.mpr ⟨n, hn, rfl⟩
    refine .of_notes hsigned (fun i hi => hi.unique hsigned) not_false ?_ ?_
    · rw [← splitSign_eq_nil_iff]
      exact hn.ne_nil
    · rw [signed_eq, hn.magnitude_eq_ite]
      by_cases hlimit : n < 0x1_0000_0000_0000_0000
      · rw [if_pos hlimit]
        rfl
      · -- what does not fit an unsigned word fits no signed one either
        have hout : ¬ InSignedRange ((splitSign t).1 * n) := by
          unfold InSignedRange
          rcases splitSign_sign t with h | h <;> rw [h] <;> omega
        rw [if_neg hlimit, if_neg hout]
  · have hnone : ∀ n, ¬ Body (splitSign t).2 n := not_exists.mp hbody
    refine .of_none ?_ False.elim ?_
    · intro i hi
      obtain ⟨n, hn, -⟩ := signed_iff.mp hi
      exact hnone n hn
    · rw [signed_eq, magnitude_of_not_body hnone]
      simp only [splitSign_eq_nil_iff, if_false]

inductive Style
  | decimal | hexadecimal | octal

namespace Style

def body : Style → Nat → Text
  | decimal, n => Text.decimal n
  | hexadecimal, n => '0' :: 'x' :: Nat.toDigits 16 n
  | octal, n => '0' :: Nat.toDigits 8 n

/-- A number in a style, with its sign. That of a number which is not negative may be left out. -/
def print (style : Style) (plus : Bool) : Int → Text
  | .ofNat n => if plus then '+' :: style.body n else style.body n
  | .negSucc n => '-' :: style.body (n + 1)

end Style

theorem digits_toDigits {base : Nat} (hbase : 1 < base) (n : Nat) :
    Digits base (Nat.toDigits base n) n := by
  induction n using Nat.strongRecOn with
  | ind n ih =>
    rw [Nat.toDigits_eq_if hbase]
    by_cases hn : n < base
    · rw [if_pos hn]
      exact .single ⟨hn, .inl rfl⟩
    · rw [if_neg hn]
      have hfront := ih (n / base) (Nat.div_lt_self (by omega) hbase)
      have hlast : IsDigit base (Nat.digitChar (n % base)) (n % base) :=
        ⟨Nat.mod_lt n (by omega), .inl rfl⟩
      have hvalue : n / base * base + n % base = n := Nat.div_add_mod' n base
      rw [← hvalue]
      simpa [hvalue] using Digits.snoc hfront hlast

theorem head_toDigits_ne {base n : Nat} (hbase : 1 < base) (hn : 0 < n) :
    (Nat.toDigits base n).head? ≠ some '0' := by
  induction n using Nat.strongRecOn with
  | ind n ih =>
    by_cases hsmall : n < base
    · rw [Nat.toDigits_of_lt_base hsmall, List.head?_cons, ne_eq, Option.some.injEq,
        Nat.digitChar_eq_zero]
      exact Nat.pos_iff_ne_zero.mp hn
    · have hle : base ≤ n := Nat.not_lt.mp hsmall
      have hfront := ih (n / base) (Nat.div_lt_self hn hbase) (Nat.div_pos hle (by omega))
      obtain ⟨c, cs, hcs⟩ := List.exists_cons_of_ne_nil (digits_toDigits hbase (n / base)).ne_nil
      rw [Nat.toDigits_of_base_le hbase hle, hcs]
      rwa [hcs] at hfront

theorem Style.body_reads (style : Style) (n : Nat) : Body (style.body n) n := by
  cases style with
  | decimal =>
    by_cases hn : n = 0
    · subst hn
      exact .zero
    · exact .decimal (digits_toDigits (by decide) n)
        (head_toDigits_ne (by decide) (Nat.pos_of_ne_zero hn))
  | hexadecimal => exact .hexadecimal (.inl rfl) (digits_toDigits (by decide) n)
  | octal => exact .octal (digits_toDigits (by decide) n)

theorem Style.print_unsigned (style : Style) (plus : Bool) (n : Nat) :
    Unsigned (style.print plus n) n := by
  cases plus with
  | false => exact .bare (style.body_reads n)
  | true => exact .plus (style.body_reads n)

theorem Style.print_signed (style : Style) (plus : Bool) (i : Int) :
    Signed (style.print plus i) i := by
  cases i with
  | ofNat n => exact .unsigned (style.print_unsigned plus n)
  | negSucc n => exact .minus (style.body_reads (n + 1))

/-- Each text is read as the number that it is a notation of, or else refused for its minus sign,
for lack of a body, for a number that is out of range, or because it is no notation at all. What is
printed of a word is read as that word. -/
theorem reading_exact :
    (∀ t : Text, Outcome (Unsigned t) (· < 0x1_0000_0000_0000_0000) (t.head? = some '-')
      (t = [] ∨ t = ['+']) (unsigned t)) ∧
    (∀ t : Text, Outcome (Signed t) InSignedRange False (t = [] ∨ t = ['+'] ∨ t = ['-'])
      (signed t)) ∧
    [Fault.negative, .empty, .outOfRange, .malformed].map Fault.message =
      ["negative value", "empty value", "out of range", "not a number"].map String.toList ∧
    ∀ (style : Style) (plus : Bool),
      (∀ n : UInt64, unsigned (style.print plus n.toNat) = .ok n.toNat) ∧
        ∀ i : Int64, signed (style.print plus i.toInt) = .ok i.toInt := by
  refine ⟨unsigned_outcome, signed_outcome, rfl, fun style plus => ⟨?_, ?_⟩⟩
  · intro n
    exact ((unsigned_outcome _).ok _).mpr ⟨style.print_unsigned plus _, n.toNat_lt⟩
  · intro i
    exact ((signed_outcome _).ok _).mpr ⟨style.print_signed plus _, i.le_toInt, i.toInt_lt⟩

end NearField.Numeral
