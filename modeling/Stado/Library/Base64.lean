import Mathlib.Data.List.Basic

/-!
# Base64

The standard alphabet with canonical padding: a decoder that refuses any other
spelling, and that reads back what was written.
-/

namespace Base64

open Option

/-- The character of a number below 64. -/
def digit (n : ℕ) : Char :=
  if n < 26 then Char.ofNat (65 + n)
  else if n < 52 then Char.ofNat (71 + n)
  else if n < 62 then Char.ofNat (n - 4)
  else if n = 62 then '+' else '/'

def digitValue (c : Char) : Option ℕ :=
  if 'A' ≤ c ∧ c ≤ 'Z' then some (c.toNat - 65)
  else if 'a' ≤ c ∧ c ≤ 'z' then some (c.toNat - 71)
  else if '0' ≤ c ∧ c ≤ '9' then some (c.toNat + 4)
  else if c = '+' then some 62
  else if c = '/' then some 63
  else none

/-- Three bytes a group; a shorter last group is padded. -/
def encode : List UInt8 → List Char
  | [] => []
  | [a] => [digit (a.toNat / 4), digit (a.toNat % 4 * 16), '=', '=']
  | [a, b] =>
    [digit (a.toNat / 4), digit (a.toNat % 4 * 16 + b.toNat / 16), digit (b.toNat % 16 * 4), '=']
  | a :: b :: c :: later =>
    digit (a.toNat / 4) :: digit (a.toNat % 4 * 16 + b.toNat / 16) ::
      digit (b.toNat % 16 * 4 + c.toNat / 64) :: digit (c.toNat % 64) :: encode later

/-- The bytes of one group, and whether its padding is canonical. -/
def decodeGroup (first second third fourth : Char) : Option (List UInt8) := do
  let a ← digitValue first
  let b ← digitValue second
  if third = '=' ∧ fourth = '=' then
    if b % 16 = 0 then some [UInt8.ofNat (a * 4 + b / 16)] else none
  else
    let c ← digitValue third
    if fourth = '=' then
      if c % 4 = 0 then
        some [UInt8.ofNat (a * 4 + b / 16), UInt8.ofNat (b % 16 * 16 + c / 4)]
      else none
    else
      let d ← digitValue fourth
      some [UInt8.ofNat (a * 4 + b / 16), UInt8.ofNat (b % 16 * 16 + c / 4),
        UInt8.ofNat (c % 4 * 64 + d)]

def decode : List Char → Option (List UInt8)
  | [] => some []
  | first :: second :: third :: fourth :: later => do
      let bytes ← decodeGroup first second third fourth
      if fourth = '=' ∧ later ≠ [] then none
      else (decode later).map (bytes ++ ·)
  | _ => none

theorem digitValue_digit {n : ℕ} (h : n < 64) : digitValue (digit n) = some n := by
  revert n
  decide

theorem digit_ne_pad {n : ℕ} (h : n < 64) : digit n ≠ '=' := by
  intro heq
  have hvalue := digitValue_digit h
  rw [heq] at hvalue
  cases hvalue

theorem byte_eq {n : ℕ} {b : UInt8} (h : n = b.toNat) : UInt8.ofNat n = b := by
  rw [h, UInt8.ofNat_toNat]

/-- A full group is read back. -/
theorem decodeGroup_three (a b c : UInt8) :
    decodeGroup (digit (a.toNat / 4)) (digit (a.toNat % 4 * 16 + b.toNat / 16))
      (digit (b.toNat % 16 * 4 + c.toNat / 64)) (digit (c.toNat % 64)) = some [a, b, c] := by
  have ha := UInt8.toNat_lt a
  have hb := UInt8.toNat_lt b
  have hc := UInt8.toNat_lt c
  have hthird : b.toNat % 16 * 4 + c.toNat / 64 < 64 := by omega
  have hfourth : c.toNat % 64 < 64 := by omega
  rw [decodeGroup, digitValue_digit (by omega), digitValue_digit (by omega),
    digitValue_digit hthird, digitValue_digit hfourth]
  simp only [bind_eq_bind, bind_some, digit_ne_pad hthird, digit_ne_pad hfourth, and_self, if_false]
  rw [byte_eq (b := a) (by omega), byte_eq (b := b) (by omega), byte_eq (b := c) (by omega)]

theorem decodeGroup_two (a b : UInt8) :
    decodeGroup (digit (a.toNat / 4)) (digit (a.toNat % 4 * 16 + b.toNat / 16))
      (digit (b.toNat % 16 * 4)) '=' = some [a, b] := by
  have ha := UInt8.toNat_lt a
  have hb := UInt8.toNat_lt b
  have hthird : b.toNat % 16 * 4 < 64 := by omega
  rw [decodeGroup, digitValue_digit (by omega), digitValue_digit (by omega),
    digitValue_digit hthird]
  have hpad : b.toNat % 16 * 4 % 4 = 0 := by omega
  simp only [bind_eq_bind, bind_some, digit_ne_pad hthird, false_and, if_false, if_true, hpad]
  rw [byte_eq (b := a) (by omega), byte_eq (b := b) (by omega)]

theorem decodeGroup_one (a : UInt8) :
    decodeGroup (digit (a.toNat / 4)) (digit (a.toNat % 4 * 16)) '=' '=' = some [a] := by
  have ha := UInt8.toNat_lt a
  rw [decodeGroup, digitValue_digit (by omega), digitValue_digit (by omega)]
  have hpad : a.toNat % 4 * 16 % 16 = 0 := by omega
  simp only [bind_eq_bind, bind_some, and_self, if_true, hpad]
  rw [byte_eq (b := a) (by omega)]

theorem decode_encode (bytes : List UInt8) : decode (encode bytes) = some bytes := by
  fun_induction encode bytes with
  | case1 => rfl
  | case2 a =>
    simp only [decode, decodeGroup_one, bind_eq_bind, bind_some]
    rfl
  | case3 a b =>
    simp only [decode, decodeGroup_two, bind_eq_bind, bind_some]
    rfl
  | case4 a b c later ih =>
    have hlast : digit (c.toNat % 64) ≠ '=' := digit_ne_pad (by omega)
    rw [decode, decodeGroup_three, ih]
    simp only [bind_eq_bind, bind_some, hlast, false_and, if_false]
    rfl

end Base64
