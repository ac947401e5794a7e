import Mathlib.Data.Nat.NthRoot.Defs
import Mathlib.Data.Nat.Prime.Basic
import Mathlib.Data.List.Basic

/-!
# SHA-256 as the standard defines it

FIPS 180-4 over messages of bits: the constants are the first 32 bits of the
fractional parts of roots of primes, a message is padded to a whole number of
512-bit blocks, and every block is hashed into the value before it.
-/

namespace Fips180

open List

abbrev Word := BitVec 32

/-! ## Bits -/

/-- The last `n` bits of a number, the most significant first. -/
def bits : ℕ → ℕ → List Bool
  | 0, _ => []
  | n + 1, x => x.testBit n :: bits n x

/-- The number a row of bits writes. -/
def value : List Bool → ℕ
  | [] => 0
  | b :: later => b.toNat * 2 ^ later.length + value later

def toWord (row : List Bool) : Word := BitVec.ofNat 32 (value row)

@[simp] theorem length_bits (n x : ℕ) : (bits n x).length = n := by
  induction n with
  | zero => rfl
  | succ n ih => rw [bits, length_cons, ih]

theorem value_append (left right : List Bool) :
    value (left ++ right) = value left * 2 ^ right.length + value right := by
  induction left with
  | nil => simp [value]
  | cons b left ih =>
    rw [cons_append, value, value, ih, length_append, Nat.pow_add, Nat.add_mul,
      Nat.mul_assoc, Nat.add_assoc]

theorem value_bits (n x : ℕ) : value (bits n x) = x % 2 ^ n := by
  induction n with
  | zero => simp [bits, value, Nat.mod_one]
  | succ n ih =>
    rw [bits, value, length_bits, ih, Nat.mod_pow_succ, Nat.toNat_testBit, Nat.mul_comm,
      Nat.add_comm]

theorem bits_add (m n x : ℕ) : bits (m + n) x = bits m (x / 2 ^ n) ++ bits n x := by
  induction m with
  | zero => rw [Nat.zero_add, bits, nil_append]
  | succ m ih =>
    rw [Nat.succ_add, bits, ih, bits, cons_append, Nat.testBit_div_two_pow]

theorem bits_mod (n x : ℕ) : bits n (x % 2 ^ n) = bits n x := by
  have hlow : ∀ m ≤ n, bits m (x % 2 ^ n) = bits m x := by
    intro m hm
    induction m with
    | zero => rfl
    | succ m ih =>
      rw [bits, bits, ih (Nat.le_of_succ_le hm), Nat.testBit_mod_two_pow,
        decide_eq_true (Nat.lt_of_succ_le hm), Bool.true_and]
  exact hlow n le_rfl

/-! ## Functions and constants -/

section

variable (x y z : Word)

def ch : Word := (x &&& y) ^^^ (~~~x &&& z)

def maj : Word := (x &&& y) ^^^ (x &&& z) ^^^ (y &&& z)

def bigSigma0 : Word := x.rotateRight 2 ^^^ x.rotateRight 13 ^^^ x.rotateRight 22

def bigSigma1 : Word := x.rotateRight 6 ^^^ x.rotateRight 11 ^^^ x.rotateRight 25

def smallSigma0 : Word := x.rotateRight 7 ^^^ x.rotateRight 18 ^^^ x >>> 3

def smallSigma1 : Word := x.rotateRight 17 ^^^ x.rotateRight 19 ^^^ x >>> 10

end

/-- The first primes, as many as the rounds. -/
def primes : List ℕ := (List.range 312).filter Nat.Prime

/-- The first 32 bits of the fractional part of a prime's `n`-th root. -/
def fraction (n prime : ℕ) : Word := BitVec.ofNat 32 (Nat.nthRoot n (prime * 2 ^ (32 * n)))

def constants : List Word := primes.map (fraction 3)

/-- Eight words: the hash value, and the working variables. -/
structure Eight (α : Type) where
  a : α
  b : α
  c : α
  d : α
  e : α
  f : α
  g : α
  h : α
deriving DecidableEq

def Eight.map (f : α → β) (s : Eight α) : Eight β :=
  ⟨f s.a, f s.b, f s.c, f s.d, f s.e, f s.f, f s.g, f s.h⟩

def Eight.toList (s : Eight α) : List α := [s.a, s.b, s.c, s.d, s.e, s.f, s.g, s.h]

def initial : Eight Word :=
  ⟨fraction 2 2, fraction 2 3, fraction 2 5, fraction 2 7, fraction 2 11, fraction 2 13,
    fraction 2 17, fraction 2 19⟩

/-! ## The hash -/

/-- How many zeros follow the bit that ends a message of `l` bits. -/
def zeros (l : ℕ) : ℕ := (959 - l % 512) % 512

def pad (message : List Bool) : List Bool :=
  message ++ true :: List.replicate (zeros message.length) false ++ bits 64 message.length

/-- The pieces of `n` of a row, without what is left over. -/
def pieces (n : ℕ) (row : List α) : List (List α) :=
  (List.range (row.length / n)).map fun i => (row.drop (n * i)).take n

def schedule (block : List Bool) (t : ℕ) : Word :=
  if t < 16 then toWord ((block.drop (32 * t)).take 32)
  else
    smallSigma1 (schedule block (t - 2)) + schedule block (t - 7) +
      smallSigma0 (schedule block (t - 15)) + schedule block (t - 16)

def round (block : List Bool) (s : Eight Word) (t : ℕ) : Eight Word :=
  let t1 := s.h + bigSigma1 s.e + ch s.e s.f s.g + constants.getD t 0 + schedule block t
  let t2 := bigSigma0 s.a + maj s.a s.b s.c
  ⟨t1 + t2, s.a, s.b, s.c, s.d + t1, s.e, s.f, s.g⟩

def hashBlock (hash : Eight Word) (block : List Bool) : Eight Word :=
  let s := (List.range 64).foldl (round block) hash
  ⟨s.a + hash.a, s.b + hash.b, s.c + hash.c, s.d + hash.d, s.e + hash.e, s.f + hash.f,
    s.g + hash.g, s.h + hash.h⟩

def digest (message : List Bool) : Eight Word := (pieces 512 (pad message)).foldl hashBlock initial

/-- A word as eight lower-case hexadecimal digits. -/
def hexWord (word : Word) : List Char :=
  (List.range 8).map fun i => Nat.digitChar (word.toNat / 16 ^ (7 - i) % 16)

end Fips180
