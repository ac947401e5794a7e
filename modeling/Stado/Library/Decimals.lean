import Mathlib.Data.Char
import Mathlib.Data.List.Lex
import Mathlib.Tactic.Linarith
import Mathlib.Tactic.Ring

/-!
# Decimal numerals of any length

Numerals compared without being read: by their lengths, and at one length by
their characters.
-/

namespace Decimals

open List

/-- Every character is an ASCII digit. -/
def Digits (numeral : List Char) : Prop := ∀ c ∈ numeral, c.isDigit = true

instance instDecidableDigits (numeral : List Char) : Decidable (Digits numeral) :=
  List.decidableBAll (fun c : Char => c.isDigit = true) numeral

def digit (c : Char) : ℕ := c.toNat - '0'.toNat

/-- The number a numeral denotes. -/
def value : List Char → ℕ
  | [] => 0
  | c :: rest => digit c * 10 ^ rest.length + value rest

variable {c : Char} {rest : List Char}

theorem isDigit_iff : c.isDigit = true ↔ 48 ≤ c.toNat ∧ c.toNat ≤ 57 := by
  simp only [Char.isDigit, Bool.and_eq_true, decide_eq_true_eq, ge_iff_le, UInt32.le_iff_toNat_le]
  rfl

theorem digit_le (h : c.isDigit = true) : digit c ≤ 9 := by
  have hrange := isDigit_iff.mp h
  show c.toNat - 48 ≤ 9
  omega

theorem digit_lt_digit {c d : Char} (hc : c.isDigit = true) (hd : d.isDigit = true) :
    digit c < digit d ↔ c < d := by
  have hcrange := isDigit_iff.mp hc
  have hdrange := isDigit_iff.mp hd
  rw [Char.lt_def, UInt32.lt_iff_toNat_lt]
  show c.toNat - 48 < d.toNat - 48 ↔ c.toNat < d.toNat
  omega

theorem digit_pos (h : c.isDigit = true) (hzero : c ≠ '0') : 0 < digit c := by
  have hrange := isDigit_iff.mp h
  have hne : c.toNat ≠ 48 := by
    intro heq
    exact hzero (Char.ext (UInt32.toNat_inj.mp heq))
  show 0 < c.toNat - 48
  omega

theorem Digits.tail (h : Digits (c :: rest)) : Digits rest :=
  fun d hd => h d (mem_cons_of_mem _ hd)

theorem Digits.head (h : Digits (c :: rest)) : c.isDigit = true :=
  h c (mem_cons_self ..)

variable {numeral : List Char}

theorem value_lt (h : Digits numeral) : value numeral < 10 ^ numeral.length := by
  induction numeral with
  | nil => exact Nat.one_pos
  | cons c rest ih =>
    have hrest := ih h.tail
    have hdigit := digit_le h.head
    have hmul : digit c * 10 ^ rest.length ≤ 9 * 10 ^ rest.length := Nat.mul_le_mul_right _ hdigit
    rw [value, length_cons, pow_succ]
    omega

/-- A numeral that begins with another digit than zero has its full length. -/
theorem le_value (h : c.isDigit = true) (hzero : c ≠ '0') :
    10 ^ rest.length ≤ value (c :: rest) := by
  have hmul : 1 * 10 ^ rest.length ≤ digit c * 10 ^ rest.length :=
    Nat.mul_le_mul_right _ (digit_pos h hzero)
  rw [value]
  omega

variable {left right : List Char}

/-- Numerals of one length stand in the order of their characters. -/
theorem value_lt_value (hl : Digits left) (hr : Digits right)
    (hlen : left.length = right.length) : value left < value right ↔ left < right := by
  induction left generalizing right with
  | nil =>
    obtain rfl := length_eq_zero_iff.mp hlen.symm
    simp
  | cons c left ih =>
    rcases right with _ | ⟨d, right⟩
    · cases hlen
    · have hlens : left.length = right.length := Nat.succ.inj hlen
      have hlv := value_lt hl.tail
      have hrv := value_lt hr.tail
      rw [cons_lt_cons_iff, ← ih hl.tail hr.tail hlens, value, value, hlens]
      rw [hlens] at hlv
      rcases lt_trichotomy (digit c) (digit d) with hlt | heq | hgt
      · have hmul : (digit c + 1) * 10 ^ right.length ≤ digit d * 10 ^ right.length :=
          Nat.mul_le_mul_right _ hlt
        have hchar := (digit_lt_digit hl.head hr.head).mp hlt
        constructor
        · intro _
          exact .inl hchar
        · intro _
          linarith
      · have hchar : c = d := by
          rcases lt_trichotomy c d with h | h | h
          · exact absurd ((digit_lt_digit hl.head hr.head).mpr h) (by omega)
          · exact h
          · exact absurd ((digit_lt_digit hr.head hl.head).mpr h) (by omega)
        rw [heq, hchar]
        constructor
        · intro h
          exact .inr ⟨rfl, by omega⟩
        · rintro (h | ⟨-, h⟩)
          · exact absurd h (lt_irrefl d)
          · omega
      · have hmul : (digit d + 1) * 10 ^ right.length ≤ digit c * 10 ^ right.length :=
          Nat.mul_le_mul_right _ hgt
        have hchar := (digit_lt_digit hr.head hl.head).mp hgt
        constructor
        · intro h
          linarith
        · rintro (h | ⟨rfl, -⟩)
          · exact absurd h (lt_asymm hchar)
          · exact absurd hchar (lt_irrefl c)

/-- Of two numerals without leading zeros the shorter denotes the smaller number. -/
theorem digitChar_digit : ∀ n < 10, n.digitChar.isDigit = true ∧ digit n.digitChar = n := by
  decide

/-- A number has a numeral of every length that is long enough. -/
theorem exists_numeral (width : ℕ) {n : ℕ} (h : n < 10 ^ width) :
    ∃ numeral, Digits numeral ∧ numeral.length = width ∧ value numeral = n := by
  induction width generalizing n with
  | zero =>
    refine ⟨[], nofun, rfl, ?_⟩
    rw [pow_zero] at h
    exact (Nat.lt_one_iff.mp h).symm
  | succ width ih =>
    have hpos : 0 < 10 ^ width := by positivity
    have hfirst : n / 10 ^ width < 10 := by
      rw [Nat.div_lt_iff_lt_mul hpos, ← pow_succ']
      exact h
    obtain ⟨rest, hdigits, hlength, hvalue⟩ := ih (Nat.mod_lt n hpos)
    obtain ⟨hdigit, hnumber⟩ := digitChar_digit _ hfirst
    refine ⟨(n / 10 ^ width).digitChar :: rest, ?_, ?_, ?_⟩
    · intro c hc
      rcases mem_cons.mp hc with rfl | hc
      · exact hdigit
      · exact hdigits c hc
    · rw [length_cons, hlength]
    · rw [value, hnumber, hlength, hvalue]
      exact Nat.div_add_mod' n (10 ^ width)

theorem value_lt_of_length (hl : Digits left) (hr : Digits right) (hzero : right.head? ≠ some '0')
    (hlen : left.length < right.length) : value left < value right := by
  rcases right with _ | ⟨d, right⟩
  · exact absurd hlen (Nat.not_lt_zero _)
  · have hd : d ≠ '0' := fun h => hzero (congrArg some h)
    have hpow : 10 ^ left.length ≤ 10 ^ right.length :=
      Nat.pow_le_pow_right (by omega) (Nat.lt_succ_iff.mp hlen)
    exact lt_of_lt_of_le (value_lt hl) (hpow.trans (le_value hr.head hd))

section Order

variable {α : Type} [LinearOrder α] {a b : α}

def order (a b : α) : Ordering := cmp a b

theorem order_compares (a b : α) : (order a b).Compares a b := cmp_compares a b

theorem order_eq_lt : order a b = .lt ↔ a < b := cmp_eq_lt_iff a b

theorem order_eq_eq : order a b = .eq ↔ a = b := cmp_eq_eq_iff a b

theorem order_eq_gt : order a b = .gt ↔ b < a := cmp_eq_gt_iff a b

theorem compares_then {first second : Ordering}
    (hlt : first = .lt → a < b) (hgt : first = .gt → b < a)
    (heq : first = .eq → second.Compares a b) : (first.then second).Compares a b := by
  cases first with
  | lt => exact hlt rfl
  | eq => exact heq rfl
  | gt => exact hgt rfl

end Order

theorem compares_value (hl : Digits left) (hr : Digits right)
    (hlzero : left.head? ≠ some '0') (hrzero : right.head? ≠ some '0') :
    ((order left.length right.length).then (order left right)).Compares (value left) (value right) := by
  refine compares_then ?_ ?_ ?_
  · intro h
    exact value_lt_of_length hl hr hrzero (order_eq_lt.mp h)
  · intro h
    exact value_lt_of_length hr hl hlzero (order_eq_gt.mp h)
  · intro h
    have hlen := order_eq_eq.mp h
    rcases hchars : order left right with _ | _ | _
    · exact (value_lt_value hl hr hlen).mpr (order_eq_lt.mp hchars)
    · exact congrArg value (order_eq_eq.mp hchars)
    · exact (value_lt_value hr hl hlen.symm).mpr (order_eq_gt.mp hchars)

/-! ## Leading zeros -/

/-- A numeral without its leading zeros. -/
def trimmed (numeral : List Char) : List Char := numeral.dropWhile (· = '0')

theorem digits_trimmed (h : Digits numeral) : Digits (trimmed numeral) :=
  fun c hc => h c ((dropWhile_sublist _).mem hc)

theorem head_trimmed (numeral : List Char) : (trimmed numeral).head? ≠ some '0' := by
  intro h
  have hhead := List.head?_dropWhile_not (· = '0') numeral
  rw [trimmed] at h
  rw [h] at hhead
  simp at hhead

theorem value_trimmed (numeral : List Char) : value (trimmed numeral) = value numeral := by
  induction numeral with
  | nil => rfl
  | cons c rest ih =>
    by_cases hc : c = '0'
    · subst hc
      show value (trimmed rest) = 0 * _ + value rest
      rw [ih, Nat.zero_mul, Nat.zero_add]
    · rw [trimmed, dropWhile_cons_of_neg (by simpa using hc)]

/-- `0`, or digits that do not begin with a zero. -/
def Canonical (numeral : List Char) : Prop :=
  numeral = ['0'] ∨ numeral ≠ [] ∧ Digits numeral ∧ numeral.head? ≠ some '0'

theorem Canonical.digits (h : Canonical numeral) : Digits numeral := by
  rcases h with rfl | ⟨-, hdigits, -⟩
  · intro c hc
    obtain rfl := mem_singleton.mp hc
    rfl
  · exact hdigits

theorem Canonical.trimmed (h : Canonical numeral) :
    numeral = ['0'] ∧ trimmed numeral = [] ∨ numeral ≠ [] ∧ trimmed numeral = numeral := by
  rcases h with rfl | ⟨hne, -, hzero⟩
  · exact .inl ⟨rfl, rfl⟩
  · refine .inr ⟨hne, ?_⟩
    rcases numeral with _ | ⟨c, rest⟩
    · exact absurd rfl hne
    · have hc : c ≠ '0' := fun h => hzero (congrArg some h)
      exact dropWhile_cons_of_neg (by simpa using hc)

/-- A number has one canonical numeral. -/
theorem value_injective (hl : Canonical left) (hr : Canonical right)
    (h : value left = value right) : left = right := by
  have hcompares := compares_value (digits_trimmed hl.digits) (digits_trimmed hr.digits)
    (head_trimmed left) (head_trimmed right)
  rw [value_trimmed, value_trimmed, h] at hcompares
  have htrimmed : trimmed left = trimmed right := by
    rcases hord : (order (trimmed left).length (trimmed right).length).then
        (order (trimmed left) (trimmed right)) with _ | _ | _
    · rw [hord] at hcompares
      exact absurd hcompares (lt_irrefl _)
    · exact order_eq_eq.mp (Ordering.then_eq_eq.mp hord).2
    · rw [hord] at hcompares
      exact absurd hcompares (lt_irrefl _)
  rcases hl.trimmed with ⟨rfl, hl'⟩ | ⟨hlne, hl'⟩
  · rcases hr.trimmed with ⟨rfl, -⟩ | ⟨hrne, hr'⟩
    · rfl
    · exact absurd (hr'.symm.trans (htrimmed.symm.trans hl')) hrne
  · rcases hr.trimmed with ⟨rfl, hr'⟩ | ⟨-, hr'⟩
    · exact absurd (hl'.symm.trans (htrimmed.trans hr')) hlne
    · exact hl'.symm.trans (htrimmed.trans hr')

end Decimals
