import Mathlib.Data.List.Basic

/-!
# Percent-encoding

Bytes written as text: a byte a test keeps stands for itself, every other one is
`%` and two hexadecimal digits. Decoding reads back what encoding wrote, so
encoding is injective, and an encoded text is made of kept bytes, digits and `%`.
-/

namespace Percent

open List

/-! ## Hexadecimal digits -/

/-- The uppercase hexadecimal digit of a number below 16. -/
def digit (n : ℕ) : Char := if n < 10 then Char.ofNat (48 + n) else Char.ofNat (55 + n)

/-- The value of a hexadecimal digit, in either case. -/
def digitValue (c : Char) : Option ℕ :=
  if '0' ≤ c ∧ c ≤ '9' then some (c.toNat - 48)
  else if 'A' ≤ c ∧ c ≤ 'F' then some (c.toNat - 55)
  else if 'a' ≤ c ∧ c ≤ 'f' then some (c.toNat - 87)
  else none

theorem digitValue_digit {n : ℕ} (h : n < 16) : digitValue (digit n) = some n := by
  revert n
  decide

variable {c : Char}

theorem digitValue_range {d : ℕ} (h : digitValue c = some d) : d < 16 ∧ c.toNat < 128 := by
  have hrange (low high : Char) : low ≤ c ∧ c ≤ high ↔ low.toNat ≤ c.toNat ∧ c.toNat ≤ high.toNat :=
    Iff.rfl
  unfold digitValue at h
  simp only [hrange] at h
  split_ifs at h with h1 h2 h3 <;> obtain rfl := Option.some.inj h
  · have := h1.2
    change c.toNat ≤ 57 at this
    omega
  · have := h2.2
    change c.toNat ≤ 70 at this
    omega
  · have := h3.2
    change c.toNat ≤ 102 at this
    omega

theorem digit_hex {n : ℕ} (h : n < 16) : (digitValue (digit n)).isSome := by
  rw [digitValue_digit h]
  rfl

/-! ## Encoding -/

/-- The character a byte below 128 stands for. -/
def ascii (b : UInt8) : Char := Char.ofNat b.toNat

def encodeByte (kept : UInt8 → Bool) (b : UInt8) : List Char :=
  if kept b then [ascii b] else ['%', digit (b.toNat / 16), digit (b.toNat % 16)]

def encode (kept : UInt8 → Bool) (bytes : List UInt8) : List Char :=
  bytes.flatMap (encodeByte kept)

/-- Read text back as bytes: `hex` reads the two characters after a `%`, and
`plain` says which bytes another character stands for. -/
def decode (plain : Char → List UInt8) (hex : Char → Char → Option UInt8) :
    List Char → Option (List UInt8)
  | [] => some []
  | c :: later =>
    if c = '%' then
      match later with
      | first :: second :: rest =>
        match hex first second, decode plain hex rest with
        | some b, some bytes => some (b :: bytes)
        | _, _ => none
      | _ => none
    else (decode plain hex later).map (plain c ++ ·)

variable {kept : UInt8 → Bool} {plain : Char → List UInt8} {hex : Char → Char → Option UInt8}
  {first second : Char} {later : List Char}

@[simp] theorem decode_nil : decode plain hex [] = some [] := rfl

theorem decode_plain (h : c ≠ '%') (later : List Char) :
    decode plain hex (c :: later) = (decode plain hex later).map (plain c ++ ·) := by
  cases later with
  | nil => exact if_neg h
  | cons first later => cases later <;> exact if_neg h

theorem decode_escape (first second : Char) (later : List Char) :
    decode plain hex ('%' :: first :: second :: later) =
      match hex first second, decode plain hex later with
      | some b, some bytes => some (b :: bytes)
      | _, _ => none :=
  if_pos rfl

theorem decode_percent {b : UInt8} (h : hex first second = some b) (later : List Char) :
    decode plain hex ('%' :: first :: second :: later) = (decode plain hex later).map (b :: ·) := by
  rw [decode_escape, h]
  cases decode plain hex later <;> rfl

theorem decode_refused (h : hex first second = none) (later : List Char) :
    decode plain hex ('%' :: first :: second :: later) = none := by
  rw [decode_escape, h]

theorem decode_cut (h : later.length < 2) : decode plain hex ('%' :: later) = none := by
  match later, h with
  | [], _ => exact if_pos rfl
  | [_], _ => exact if_pos rfl

/-- Two escapes read alike, before what is read alike. -/
theorem decode_percent_congr {hex' : Char → Char → Option UInt8} {a b c d : Char}
    {left right : List Char} (hread : hex a b = hex' c d)
    (hlater : decode plain hex left = decode plain hex' right) :
    decode plain hex ('%' :: a :: b :: left) = decode plain hex' ('%' :: c :: d :: right) := by
  cases hpair : hex a b with
  | none => rw [decode_refused hpair, decode_refused (hread ▸ hpair)]
  | some byte => rw [decode_percent hpair, decode_percent (hread ▸ hpair), hlater]

/-- Text without `%` stands for itself. -/
theorem decode_append_plain {text : List Char} (h : '%' ∉ text) (later : List Char) :
    decode plain hex (text ++ later) = (decode plain hex later).map (text.flatMap plain ++ ·) := by
  induction text with
  | nil => cases hlater : decode plain hex later <;> simp [hlater]
  | cons c text ih =>
    have hc : c ≠ '%' := fun heq => h (by rw [heq]; exact mem_cons_self)
    rw [cons_append, decode_plain hc, ih (not_mem_of_not_mem_cons h), Option.map_map]
    congr 1
    funext bytes
    rw [Function.comp_apply, flatMap_cons, append_assoc]

/-- A `%` before no two characters that are read. -/
theorem decode_unread
    (h : ∀ first second rest, later = first :: second :: rest → hex first second = none) :
    decode plain hex ('%' :: later) = none := by
  match later with
  | [] => exact decode_cut (by decide)
  | [_] => exact decode_cut (Nat.lt_succ_self 1)
  | first :: second :: rest => exact decode_refused (h first second rest rfl) rest

/-- Induction on a text as a decoder reads it: a character at a time, an escape
at a time, and an escape the text ends in. -/
theorem text_induction {motive : List Char → Prop} (nil : motive [])
    (plain : ∀ c later, c ≠ '%' → motive later → motive (c :: later))
    (escape : ∀ first second later, motive later → motive ('%' :: first :: second :: later))
    (cut : ∀ later, later.length < 2 → motive ('%' :: later)) : ∀ text, motive text
  | [] => nil
  | c :: later => by
      by_cases hc : c = '%'
      · subst hc
        match later with
        | [] => exact cut [] (by decide)
        | [c] => exact cut [c] (Nat.lt_succ_self 1)
        | first :: second :: rest =>
          exact escape first second rest (text_induction nil plain escape cut rest)
      · exact plain c later hc (text_induction nil plain escape cut later)

/-! ## Which texts are read -/

/-- Every `%` of a text is followed by two characters that `hex` reads. -/
def EveryEscape (hex : Char → Char → Option UInt8) (text : List Char) : Prop :=
  ∀ before after, text = before ++ '%' :: after →
    ∃ first second later, after = first :: second :: later ∧ (hex first second).isSome = true

/-- `%` is not a digit. -/
structure NoPercent (hex : Char → Char → Option UInt8) : Prop where
  first : ∀ c, hex '%' c = none
  second : ∀ c, hex c '%' = none

theorem everyEscape_plain (h : c ≠ '%') (later : List Char) :
    EveryEscape hex (c :: later) ↔ EveryEscape hex later := by
  constructor
  · intro hevery before after heq
    exact hevery (c :: before) after (by rw [heq]; rfl)
  · intro hevery before after heq
    cases before with
    | nil => exact absurd (List.cons.inj heq).1 h
    | cons d before => exact hevery before after (List.cons.inj heq).2

theorem everyEscape_escape (hdigits : NoPercent hex) (first second : Char) (later : List Char) :
    EveryEscape hex ('%' :: first :: second :: later) ↔
      (hex first second).isSome = true ∧ EveryEscape hex later := by
  constructor
  · intro hevery
    obtain ⟨a, b, rest, heq, hread⟩ := hevery [] _ rfl
    obtain ⟨ha, htail⟩ := List.cons.inj heq
    obtain ⟨hb, -⟩ := List.cons.inj htail
    rw [← ha, ← hb] at hread
    refine ⟨hread, ?_⟩
    intro before after hlater
    exact hevery ('%' :: first :: second :: before) after (by rw [hlater]; rfl)
  · rintro ⟨hread, hevery⟩ before after heq
    have hfirst : first ≠ '%' := by
      rintro rfl
      rw [hdigits.first] at hread
      cases hread
    have hsecond : second ≠ '%' := by
      rintro rfl
      rw [hdigits.second] at hread
      cases hread
    match before with
    | [] => exact ⟨first, second, later, (List.cons.inj heq).2.symm, hread⟩
    | [_] => exact absurd (List.cons.inj (List.cons.inj heq).2).1 hfirst
    | [_, _] =>
      exact absurd (List.cons.inj (List.cons.inj (List.cons.inj heq).2).2).1 hsecond
    | _ :: _ :: _ :: before =>
      exact hevery before after (List.cons.inj (List.cons.inj (List.cons.inj heq).2).2).2

theorem not_everyEscape_cut (h : later.length < 2) : ¬EveryEscape hex ('%' :: later) := by
  intro hevery
  obtain ⟨first, second, rest, rfl, -⟩ := hevery [] later rfl
  simp only [length_cons] at h
  omega

theorem decode_isSome_iff (hdigits : NoPercent hex) (text : List Char) :
    (decode plain hex text).isSome = true ↔ EveryEscape hex text := by
  induction text using text_induction with
  | nil =>
    refine iff_of_true (by rw [decode_nil]; rfl) ?_
    intro before after heq
    cases before <;> cases heq
  | plain c later hc ih => rw [decode_plain hc, Option.isSome_map, ih, everyEscape_plain hc]
  | escape first second later ih =>
    rw [everyEscape_escape hdigits, ← ih]
    cases hread : hex first second with
    | none => simp [decode_refused hread]
    | some b => simp [decode_percent hread]
  | cut later hcut =>
    refine iff_of_false ?_ (not_everyEscape_cut hcut)
    rw [decode_cut hcut]
    decide

/-! ## Round trips -/

/-- The decoder reads what stands for itself and what the encoder escapes. -/
structure Reads (kept : UInt8 → Bool) (plain : Char → List UInt8)
    (hex : Char → Char → Option UInt8) : Prop where
  plain : ∀ b, kept b = true → ascii b ≠ '%' ∧ plain (ascii b) = [b]
  hex : ∀ b : UInt8, hex (digit (b.toNat / 16)) (digit (b.toNat % 16)) = some b

theorem decode_encodeByte (h : Reads kept plain hex) (b : UInt8) (later : List Char) :
    decode plain hex (encodeByte kept b ++ later) = (decode plain hex later).map (b :: ·) := by
  unfold encodeByte
  by_cases hkept : kept b = true
  · obtain ⟨hne, hplain⟩ := h.plain b hkept
    rw [if_pos hkept, singleton_append, decode_plain hne, hplain]
    rfl
  · rw [if_neg hkept]
    exact decode_percent (h.hex b) later

theorem decode_encode_append (h : Reads kept plain hex) (bytes : List UInt8) (later : List Char) :
    decode plain hex (encode kept bytes ++ later) = (decode plain hex later).map (bytes ++ ·) := by
  induction bytes with
  | nil => cases hlater : decode plain hex later <;> simp [encode, hlater]
  | cons b rest ih =>
    have hsplit : encode kept (b :: rest) ++ later =
        encodeByte kept b ++ (encode kept rest ++ later) := by
      rw [encode, flatMap_cons, append_assoc]
      rfl
    rw [hsplit, decode_encodeByte h, ih, Option.map_map]
    rfl

theorem decode_encode (h : Reads kept plain hex) (bytes : List UInt8) :
    decode plain hex (encode kept bytes) = some bytes := by
  have happend := decode_encode_append h bytes []
  rw [append_nil, decode_nil] at happend
  rw [happend, Option.map_some, append_nil]

/-- What an encoded text is made of. -/
theorem mem_encode {bytes : List UInt8} (h : c ∈ encode kept bytes) :
    c = '%' ∨ (digitValue c).isSome ∨ ∃ b, kept b = true ∧ c = ascii b := by
  obtain ⟨b, -, hc⟩ := mem_flatMap.mp h
  have hb : b.toNat < 256 := UInt8.toNat_lt b
  unfold encodeByte at hc
  by_cases hkept : kept b = true
  · rw [if_pos hkept, mem_singleton] at hc
    exact .inr (.inr ⟨b, hkept, hc⟩)
  · rw [if_neg hkept] at hc
    simp only [mem_cons, not_mem_nil, or_false] at hc
    rcases hc with rfl | rfl | rfl
    · exact .inl rfl
    · exact .inr (.inl (digit_hex (by omega)))
    · exact .inr (.inl (digit_hex (by omega)))

end Percent
