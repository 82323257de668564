import NearField.Numeral

/-! # Notations of numbers

Every number has many notations: decimal, hexadecimal behind `0x` or `0X`, octal behind a `0`, with
digits in either case and perhaps a sign. Each of them is read as its number.
-/
namespace NearField.Numeral

/-- A digit in either case. -/
def IsDigit (base : Nat) (c : Char) (d : Nat) : Prop :=
  d < base ∧ (c = Nat.digitChar d ∨ c = (Nat.digitChar d).toUpper)

instance {base d : Nat} {c : Char} : Decidable (IsDigit base c d) :=
  inferInstanceAs (Decidable (_ ∧ _))

/-- One digit or more, the most significant one first. -/
inductive Digits (base : Nat) : Text → Nat → Prop
  | single {c : Char} {d : Nat} (digit : IsDigit base c d) : Digits base [c] d
  | snoc {t : Text} {n : Nat} {c : Char} {d : Nat} (front : Digits base t n)
      (digit : IsDigit base c d) : Digits base (t ++ [c]) (n * base + d)

/-- A number without a sign. A decimal number has no leading zero. -/
inductive Body : Text → Nat → Prop
  | zero : Body ['0'] 0
  | decimal {t : Text} {n : Nat} (digits : Digits 10 t n) (leading : t.head? ≠ some '0') : Body t n
  | hexadecimal {x : Char} {t : Text} {n : Nat} (mark : x = 'x' ∨ x = 'X')
      (digits : Digits 16 t n) : Body ('0' :: x :: t) n
  | octal {t : Text} {n : Nat} (digits : Digits 8 t n) : Body ('0' :: t) n

inductive Unsigned : Text → Nat → Prop
  | bare {t : Text} {n : Nat} (body : Body t n) : Unsigned t n
  | plus {t : Text} {n : Nat} (body : Body t n) : Unsigned ('+' :: t) n

inductive Signed : Text → Int → Prop
  | unsigned {t : Text} {n : Nat} (unsigned : Unsigned t n) : Signed t n
  | minus {t : Text} {n : Nat} (body : Body t n) : Signed ('-' :: t) (-n)

theorem digit?_digitChar {base d : Nat} (hbase : base ≤ 16) (h : d < base) :
    digit? base (Nat.digitChar d) = some d ∧ digit? base (Nat.digitChar d).toUpper = some d := by
  have hall : ∀ base : Fin 17, ∀ d : Fin 16, d.val < base.val →
      digit? base.val (Nat.digitChar d.val) = some d.val ∧
        digit? base.val (Nat.digitChar d.val).toUpper = some d.val := by decide +kernel
  exact hall ⟨base, by omega⟩ ⟨d, by omega⟩ h

theorem IsDigit.digit? {base d : Nat} {c : Char} (hbase : base ≤ 16) (h : IsDigit base c d) :
    digit? base c = some d := by
  obtain ⟨hlt, rfl | rfl⟩ := h
  · exact (digit?_digitChar hbase hlt).1
  · exact (digit?_digitChar hbase hlt).2

theorem IsDigit.isAlphanum {base d : Nat} {c : Char} (hbase : base ≤ 16) (h : IsDigit base c d) :
    c.isAlphanum = true ∧ c ≠ 'x' ∧ c ≠ 'X' := by
  have hlower : ∀ d : Fin 16, (Nat.digitChar d.val).isAlphanum = true ∧
      Nat.digitChar d.val ≠ 'x' ∧ Nat.digitChar d.val ≠ 'X' := by decide +kernel
  have hupper : ∀ d : Fin 16, (Nat.digitChar d.val).toUpper.isAlphanum = true ∧
      (Nat.digitChar d.val).toUpper ≠ 'x' ∧ (Nat.digitChar d.val).toUpper ≠ 'X' := by decide +kernel
  obtain ⟨hlt, rfl | rfl⟩ := h
  · exact hlower ⟨d, by omega⟩
  · exact hupper ⟨d, by omega⟩

namespace Digits
variable {base n : Nat} {t : Text}

theorem mapM_eq (hbase : base ≤ 16) (h : Digits base t n) :
    ∃ ds, t.mapM (digit? base) = some ds ∧ valueOf base ds = n ∧ ds ≠ [] := by
  induction h with
  | @single c d digit =>
    refine ⟨[d], ?_, by simp [valueOf], by simp⟩
    rw [List.mapM_cons, digit.digit? hbase]
    rfl
  | @snoc t n c d front digit ih =>
    obtain ⟨ds, hds, rfl, -⟩ := ih
    refine ⟨ds ++ [d], ?_, valueOf_append base ds d, by simp⟩
    rw [List.mapM_append, hds, List.mapM_cons, digit.digit? hbase]
    rfl

theorem ne_nil (h : Digits base t n) : t ≠ [] := by
  cases h <;> simp

theorem isAlphanum (hbase : base ≤ 16) (h : Digits base t n) :
    ∀ c ∈ t, c.isAlphanum = true ∧ c ≠ 'x' ∧ c ≠ 'X' := by
  induction h with
  | single digit => exact List.forall_mem_singleton.mpr (digit.isAlphanum hbase)
  | snoc front digit ih =>
    exact List.forall_mem_append.mpr
      ⟨ih, List.forall_mem_singleton.mpr (digit.isAlphanum hbase)⟩

end Digits

theorem Body.isAlphanum {t : Text} {n : Nat} (h : Body t n) : ∀ c ∈ t, c.isAlphanum = true := by
  cases h with
  | zero => exact List.forall_mem_singleton.mpr (by decide)
  | decimal digits leading => exact fun c hc => (digits.isAlphanum (by decide) c hc).1
  | hexadecimal mark digits =>
    refine List.forall_mem_cons.mpr ⟨by decide, List.forall_mem_cons.mpr ⟨?_, ?_⟩⟩
    · rcases mark with rfl | rfl <;> decide
    · exact fun c hc => (digits.isAlphanum (by decide) c hc).1
  | octal digits =>
    exact List.forall_mem_cons.mpr
      ⟨by decide, fun c hc => (digits.isAlphanum (by decide) c hc).1⟩

theorem Body.ne_nil {t : Text} {n : Nat} (h : Body t n) : t ≠ [] := by
  cases h with
  | decimal digits leading => exact digits.ne_nil
  | _ => simp

theorem splitBase_le (t : Text) : (splitBase t).1 ≤ 16 := by
  unfold splitBase
  split <;> simp

theorem Body.digits {t : Text} {n : Nat} (h : Body t n) :
    Digits (splitBase t).1 (splitBase t).2 n := by
  cases h with
  | zero => exact .single (by decide)
  | decimal digits leading =>
    have hsplit : splitBase t = (10, t) := by
      unfold splitBase
      split <;> simp_all
    rwa [hsplit]
  | hexadecimal mark digits => rcases mark with rfl | rfl <;> exact digits
  | @octal t n digits =>
    have hsplit : splitBase ('0' :: t) = (8, t) := by
      have hmarks := digits.isAlphanum (by decide)
      cases t with
      | nil => exact absurd rfl digits.ne_nil
      | cons c t =>
        obtain ⟨-, hx, hX⟩ := hmarks c List.mem_cons_self
        unfold splitBase
        split <;> simp_all
    rwa [hsplit]

theorem Body.magnitude_eq_ite {t : Text} {n : Nat} (h : Body t n) :
    magnitude t = if n < 0x1_0000_0000_0000_0000 then .ok n else .error .outOfRange := by
  obtain ⟨ds, hds, rfl, hne⟩ := h.digits.mapM_eq (splitBase_le t)
  have hempty : t.isEmpty = false := by simpa using h.ne_nil
  cases ds with
  | nil => exact absurd rfl hne
  | cons d ds => simp only [magnitude, hempty, hds, Bool.false_eq_true, if_false]

theorem Body.magnitude_eq {t : Text} {n : Nat} (h : Body t n) (hlt : n < 0x1_0000_0000_0000_0000) :
    magnitude t = .ok n := by
  rw [h.magnitude_eq_ite, if_pos hlt]

theorem Body.head_ne {t : Text} {n : Nat} (h : Body t n) {c : Char} (hc : c.isAlphanum = false) :
    t.head? ≠ some c := by
  intro hhead
  have hmem := List.mem_of_mem_head? hhead
  rw [h.isAlphanum c hmem] at hc
  cases hc

theorem Body.dropPlus_eq {t : Text} {n : Nat} (h : Body t n) : dropPlus t = t := by
  cases t with
  | nil => rfl
  | cons c t =>
    have hplus : c ≠ '+' := fun hc => h.head_ne (c := '+') (by decide) (congrArg some hc)
    simp [dropPlus, hplus]

theorem Unsigned.magnitude_eq {t : Text} {n : Nat} (h : Unsigned t n)
    (hlt : n < 0x1_0000_0000_0000_0000) : magnitude (dropPlus t) = .ok n := by
  cases h with
  | bare body => rw [body.dropPlus_eq, body.magnitude_eq hlt]
  | plus body => exact body.magnitude_eq hlt

theorem Unsigned.ne_nil {t : Text} {n : Nat} (h : Unsigned t n) : t ≠ [] := by
  cases h with
  | bare body => exact body.ne_nil
  | plus body => simp

theorem Unsigned.head_ne {t : Text} {n : Nat} (h : Unsigned t n) : t.head? ≠ some '-' := by
  cases h with
  | bare body => exact body.head_ne (by decide)
  | plus body => simp

theorem Signed.eq_ok {t : Text} {n : Int} (h : Signed t n) (hlow : -0x8000_0000_0000_0000 ≤ n)
    (hhigh : n < 0x8000_0000_0000_0000) : signed t = .ok n := by
  cases h with
  | @unsigned t n body =>
    have hminus := body.head_ne
    have hvalue := body.magnitude_eq (by omega)
    unfold signed
    split
    · exact absurd rfl hminus
    · simp only [hvalue, Except.map, bind, Except.bind, pure, Except.pure]
      rw [if_pos ⟨hlow, hhigh⟩]
  | @minus t n body =>
    have hvalue := body.magnitude_eq (by omega)
    simp only [signed, hvalue, Except.map, bind, Except.bind, pure, Except.pure]
    rw [if_pos ⟨hlow, hhigh⟩]

/-- The characters of a notation; nothing that stands between numbers is among them. -/
def IsMark (c : Char) : Prop := c.isAlphanum = true ∨ c = '+' ∨ c = '-'

theorem Unsigned.isMark {t : Text} {n : Nat} (h : Unsigned t n) : ∀ c ∈ t, IsMark c := by
  cases h with
  | bare body => exact fun c hc => .inl (body.isAlphanum c hc)
  | plus body =>
    exact List.forall_mem_cons.mpr ⟨.inr (.inl rfl), fun c hc => .inl (body.isAlphanum c hc)⟩

theorem Signed.isMark {t : Text} {n : Int} (h : Signed t n) : ∀ c ∈ t, IsMark c := by
  cases h with
  | unsigned body => exact body.isMark
  | minus body =>
    exact List.forall_mem_cons.mpr ⟨.inr (.inr rfl), fun c hc => .inl (body.isAlphanum c hc)⟩

end NearField.Numeral
