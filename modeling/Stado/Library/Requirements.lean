import Mathlib.Data.Nat.Basic
import Mathlib.Data.List.Forall2
import Mathlib.Data.List.SplitOn

/-!
# Version requirements

Cargo's requirements over `major.minor.patch`: the ranges of versions the
operators stand for, the requirements they are joined to, and the texts that
write them.
-/

namespace Requirements

abbrev Text := List Char

/-! ## Versions -/

structure Triple where
  major : ℕ
  minor : ℕ
  patch : ℕ
deriving DecidableEq

def Triple.Before (a b : Triple) : Prop :=
  a.major < b.major ∨ a.major = b.major ∧
    (a.minor < b.minor ∨ a.minor = b.minor ∧ a.patch < b.patch)

instance instDecidableBefore (a b : Triple) : Decidable (a.Before b) :=
  inferInstanceAs (Decidable (_ ∨ _))

def Triple.Within (v least bound : Triple) : Prop := ¬v.Before least ∧ v.Before bound

instance instDecidableWithin (v least bound : Triple) : Decidable (v.Within least bound) :=
  inferInstanceAs (Decidable (_ ∧ _))

/-! ## The numbers of a comparator -/

/-- The leading numbers a comparator writes. -/
inductive Written where
  | major (major : ℕ)
  | minor (major minor : ℕ)
  | patch (major minor patch : ℕ)
deriving DecidableEq

namespace Written

def count : Written → ℕ
  | major _ => 1
  | minor _ _ => 2
  | patch _ _ _ => 3

def first : Written → ℕ
  | major m => m
  | minor m _ => m
  | patch m _ _ => m

def second : Written → Option ℕ
  | major _ => none
  | minor _ n => some n
  | patch _ n _ => some n

/-- The least version with these numbers. -/
def floor : Written → Triple
  | major m => ⟨m, 0, 0⟩
  | minor m n => ⟨m, n, 0⟩
  | patch m n p => ⟨m, n, p⟩

/-- The first version past those with these numbers. -/
def next : Written → Triple
  | major m => ⟨m + 1, 0, 0⟩
  | minor m n => ⟨m, n + 1, 0⟩
  | patch m n p => ⟨m, n, p + 1⟩

/-- The first version that steps over the leftmost number other than zero. -/
def caretBound : Written → Triple
  | major m => ⟨m + 1, 0, 0⟩
  | minor 0 n => ⟨0, n + 1, 0⟩
  | patch 0 0 p => ⟨0, 0, p + 1⟩
  | patch 0 n _ => ⟨0, n + 1, 0⟩
  | minor m _ => ⟨m + 1, 0, 0⟩
  | patch m _ _ => ⟨m + 1, 0, 0⟩

/-- The first version that steps over the minor, or over a major alone. -/
def tildeBound : Written → Triple
  | major m => ⟨m + 1, 0, 0⟩
  | minor m n => ⟨m, n + 1, 0⟩
  | patch m n _ => ⟨m, n + 1, 0⟩

end Written

/-! ## Requirements -/

inductive Op where
  | bare
  | caret
  | tilde
  | exact
  | greater
  | greaterEq
  | less
  | lessEq
deriving DecidableEq

def IsStar (c : Char) : Prop := c = '*' ∨ c = 'x' ∨ c = 'X'

/-- One comparator: an operator, numbers, and stars for numbers left open. -/
structure Comparator where
  op : Op
  written : Written
  stars : List Char
  starred : ∀ c ∈ stars, IsStar c
  room : written.count + stars.length ≤ 3

/-- Without an operator a comparator is a caret one, or a wildcard where it
has a star. -/
def Comparator.Accepts (c : Comparator) (v : Triple) : Prop :=
  match c.op with
  | .bare =>
    if c.stars = [] then v.Within c.written.floor c.written.caretBound
    else v.Within c.written.floor c.written.next
  | .caret => v.Within c.written.floor c.written.caretBound
  | .tilde => v.Within c.written.floor c.written.tildeBound
  | .exact => v.Within c.written.floor c.written.next
  | .greater => ¬v.Before c.written.next
  | .greaterEq => ¬v.Before c.written.floor
  | .less => v.Before c.written.floor
  | .lessEq => v.Before c.written.next

inductive Requirement where
  | any
  | all (first : Comparator) (later : List Comparator)

def Requirement.Accepts : Requirement → Triple → Prop
  | .any, _ => True
  | .all first later, v => ∀ c ∈ first :: later, c.Accepts v

/-! ## Their texts -/

def numeral (n : ℕ) : Text := Nat.toDigits 10 n

def Triple.text (v : Triple) : Text :=
  numeral v.major ++ '.' :: numeral v.minor ++ '.' :: numeral v.patch

def Written.text : Written → Text
  | .major m => numeral m
  | .minor m n => numeral m ++ '.' :: numeral n
  | .patch m n p => numeral m ++ '.' :: numeral n ++ '.' :: numeral p

def Op.text : Op → Text
  | bare => []
  | caret => ['^']
  | tilde => ['~']
  | exact => ['=']
  | greater => ['>']
  | greaterEq => ['>', '=']
  | less => ['<']
  | lessEq => ['<', '=']

def blanks (n : ℕ) : Text := List.replicate n ' '

def starText (stars : List Char) : Text := stars.flatMap fun star => ['.', star]

/-- The texts of a comparator; blanks may stand before it, after its operator
and after it. -/
def Comparator.Prints (c : Comparator) (text : Text) : Prop :=
  ∃ before gap after, text = blanks before ++ c.op.text ++ blanks gap ++
    (c.written.text ++ starText c.stars ++ blanks after)

inductive Requirement.Prints : Requirement → Text → Prop
  | any (before after : ℕ) (star : Char) :
      IsStar star → Prints .any (blanks before ++ star :: blanks after)
  | all {first : Comparator} {later : List Comparator} {text : Text} {texts : List Text} :
      first.Prints text → List.Forall₂ Comparator.Prints later texts →
        Prints (.all first later) ([','].intercalate (text :: texts))

/-! ## Reading the numbers back -/

theorem numeral_ne_nil (n : ℕ) : numeral n ≠ [] := Nat.toDigits_ne_nil

theorem dot_notMem_numeral (n : ℕ) : '.' ∉ numeral n := by
  intro h
  exact absurd (Nat.isDigit_of_mem_toDigits (by decide) (by decide) h) (by decide)

theorem numeral_inj {m n : ℕ} (h : numeral m = numeral n) : m = n := by
  have hread := congrArg (fun digits => Nat.ofDigitChars 10 digits 0) h
  simpa only [numeral, Nat.ofDigitChars_ten_toDigits] using hread

theorem splitOn_dot {word : Text} (h : '.' ∉ word) (later : Text) :
    (word ++ '.' :: later).splitOn '.' = word :: later.splitOn '.' := by
  refine List.splitOnP_append_cons_of_forall_mem ?_ '.' (by decide) later
  intro c hc
  have hne : c ≠ '.' := fun heq => h (heq ▸ hc)
  simpa using hne

theorem splitOn_word {word : Text} (h : '.' ∉ word) : word.splitOn '.' = [word] := by
  refine List.splitOnP_eq_singleton ?_
  intro c hc
  have hne : c ≠ '.' := fun heq => h (heq ▸ hc)
  simpa using hne

theorem Triple.splitOn_text (v : Triple) :
    v.text.splitOn '.' = [numeral v.major, numeral v.minor, numeral v.patch] := by
  have htext : v.text = numeral v.major ++ '.' :: (numeral v.minor ++ '.' :: numeral v.patch) := by
    simp [Triple.text]
  rw [htext, splitOn_dot (dot_notMem_numeral _), splitOn_dot (dot_notMem_numeral _),
    splitOn_word (dot_notMem_numeral _)]

/-- A version is read back from its text. -/
theorem Triple.text_inj {v v' : Triple} (h : v.text = v'.text) : v = v' := by
  have hparts := congrArg (List.splitOn '.') h
  rw [v.splitOn_text, v'.splitOn_text] at hparts
  simp only [List.cons.injEq, and_true] at hparts
  obtain ⟨hmajor, hminor, hpatch⟩ := hparts
  cases v
  cases v'
  rw [Triple.mk.injEq]
  exact ⟨numeral_inj hmajor, numeral_inj hminor, numeral_inj hpatch⟩

end Requirements
