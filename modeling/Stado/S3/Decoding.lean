import Stado.S3.Objects
import Stado.S3.Sigv4

/-!
# Percent-decoding

The path's decoder walks the bytes of its text and cuts each escape out of it;
the query's splits the text at `%` and cuts what follows. Both read an escape's
two characters with `u8::from_str_radix`, which takes a sign.
-/

namespace Stado.S3.Listener

open Sigv4 List Option Percent
open Directory (debug)

/-- A text as `{:?}` writes it. -/
def shown (text : Text) : String := debug (String.ofList text)

/-- `split_at_checked`: both sides of a byte offset that stands between two
characters. -/
def splitAtChecked : ℕ → Text → Option (Text × Text)
  | 0, text => some ([], text)
  | _ + 1, [] => none
  | n + 1, c :: later =>
    if c.utf8Size ≤ n + 1 then
      (splitAtChecked (n + 1 - c.utf8Size) later).map fun (left, right) => (c :: left, right)
    else none

def getRange (start stop : ℕ) (text : Text) : Option Text :=
  (splitAtChecked start text).bind fun (_, rest) =>
    (splitAtChecked (stop - start) rest).map Prod.fst

/-- `u8::from_str_radix(digits, 16)`. -/
def fromStrRadix16 (digits : Text) : Option UInt8 :=
  let unsigned := if digits.head? = some '+' then digits.drop 1 else digits
  if unsigned = [] then none
  else
    (unsigned.foldlM (fun n c => (digitValue c).map (16 * n + ·)) 0).bind fun n =>
      if n < 256 then some (UInt8.ofNat n) else none

/-- What is decoded from a byte index on; `none` where an index panics. -/
def pathDecodeFrom (segment : Text) (index : ℕ) (out : Bytes) :
    Option (Except S3Error Bytes) :=
  let segmentText := shown segment
  if _ : index < (utf8 segment).length then
    match (utf8 segment)[index]? with
    | none => none
    | some byte =>
      if byte = 0x25 then
        match getRange (index + 1) (index + 3) segment with
        | none => some (.error (.invalid
            s!"the path {segmentText} ends inside a percent-encoding"))
        | some hex =>
          let hexText := String.ofList hex
          match fromStrRadix16 hex with
          | none => some (.error (.invalid
              (s!"%{hexText} in the path is not a percent-encoding: " ++
                "invalid digit found in string")))
          | some byte => pathDecodeFrom segment (index + 3) (out ++ [byte])
      else pathDecodeFrom segment (index + 1) (out ++ [byte])
  else some (.ok out)
termination_by (utf8 segment).length - index

/-- A segment decoded, `+` kept: a path is not a form. -/
def pathDecode (segment : Text) : Option (Except S3Error Text) :=
  let segmentText := shown segment
  (pathDecodeFrom segment 0 []).map fun
    | .error refusal => .error refusal
    | .ok out =>
      match fromUtf8 out with
      | some decoded => .ok decoded
      | none => .error (.invalid s!"the path {segmentText} decodes to no UTF-8")

/-- The pieces of a text after its first `%`. -/
def urlDecodePieces (out : Bytes) : List Text → Except String Bytes
  | [] => .ok out
  | piece :: later =>
    let pieceText := shown piece
    match splitAtChecked 2 piece with
    | none => .error s!"the escape %{pieceText} is not followed by 2 hexadecimal digits"
    | some (hex, rest) =>
      let hexText := String.ofList hex
      match fromStrRadix16 hex with
      | none => .error (s!"the escape %{hexText} is not 2 hexadecimal digits: " ++
          "invalid digit found in string")
      | some byte => urlDecodePieces (out ++ byte :: utf8 rest) later

def spaced (input : Text) : Text := input.map fun c => if c = '+' then ' ' else c

/-- A query's field decoded, `+` as space. -/
def urlDecode (input : Text) : Except String Text :=
  match (spaced input).splitOn '%' with
  | [] => .ok []
  | first :: pieces =>
    match urlDecodePieces (utf8 first) pieces with
    | .error refusal => .error refusal
    | .ok out =>
      match fromUtf8 out with
      | some decoded => .ok decoded
      | none => .error "its decoded bytes are not UTF-8"

/-! ## Bytes of characters -/

@[simp] theorem utf8_nil : utf8 [] = [] := rfl

theorem utf8_cons (c : Char) (text : Text) :
    utf8 (c :: text) = String.utf8EncodeChar c ++ utf8 text :=
  flatMap_cons

theorem utf8_append (left right : Text) : utf8 (left ++ right) = utf8 left ++ utf8 right :=
  flatMap_append

theorem fromUtf8_utf8 (text : Text) : fromUtf8 (utf8 text) = some text := by
  have hbytes : ByteArray.mk (utf8 text).toArray = text.utf8Encode := by
    apply ByteArray.ext
    exact data_toByteArray.symm
  rw [fromUtf8, hbytes, List.utf8Decode?_utf8Encode]
  rfl

variable {c : Char} {first second : Char} {byte : UInt8}

/-- A byte below 128 is its own character's. -/
theorem ascii_byte {b : UInt8} (hb : b ∈ String.utf8EncodeChar c) (h : b.toNat < 128) :
    c.toNat = b.toNat := by
  have hc : c.val.toNat < 0x110000 := by
    have := c.valid
    simp only [UInt32.isValidChar, Nat.isValidChar] at this
    omega
  show c.val.toNat = b.toNat
  unfold String.utf8EncodeChar at hb
  dsimp only at hb
  split_ifs at hb with h1 h2 h3 <;>
    simp only [mem_cons, not_mem_nil, or_false, ← UInt8.toNat_inj, UInt8.toNat_ofNat'] at hb
  all_goals omega

/-- The byte of `%` is in no other character. -/
theorem percent_byte {b : UInt8} (hb : b ∈ String.utf8EncodeChar c) (h : b = 0x25) : c = '%' := by
  subst h
  exact Char.toNat_inj.mp (ascii_byte hb (by decide))

theorem utf8Size_of_digit {d : ℕ} (h : digitValue c = some d) : c.utf8Size = 1 := by
  have hc : c.val.toNat ≤ 0x7f := by
    have := (digitValue_range h).2
    exact Nat.le_of_lt_succ this
  exact if_pos (UInt32.le_iff_toNat_le.mpr hc)

/-! ## One escape -/

/-- What two characters after a `%` are read as: a sign stands for a zero. -/
def radixPair (first second : Char) : Option UInt8 :=
  if first = '+' then (digitValue second).map UInt8.ofNat
  else
    match digitValue first, digitValue second with
    | some high, some low => some (UInt8.ofNat (16 * high + low))
    | _, _ => none

theorem fromStrRadix16_pair (first second : Char) :
    fromStrRadix16 [first, second] = radixPair first second := by
  unfold fromStrRadix16 radixPair
  by_cases hsign : first = '+'
  · subst hsign
    cases hsecond : digitValue second with
    | none => simp [hsecond]
    | some d =>
      have := (digitValue_range hsecond).1
      simp [hsecond]
      omega
  · cases hfirst : digitValue first with
    | none => simp [hsign, hfirst]
    | some high =>
      cases hsecond : digitValue second with
      | none => simp [hsign, hfirst, hsecond]
      | some low =>
        have := (digitValue_range hfirst).1
        have := (digitValue_range hsecond).1
        simp [hsign, hfirst, hsecond]
        omega

theorem fromStrRadix16_wide (h : c.utf8Size = 2) : fromStrRadix16 [c] = none := by
  have hsign : c ≠ '+' := by
    rintro rfl
    revert h
    decide
  have hdigit : digitValue c = none := by
    cases hdigit : digitValue c with
    | none => rfl
    | some d =>
      rw [utf8Size_of_digit hdigit] at h
      cases h
  simp [fromStrRadix16, hsign, hdigit]

theorem noPercent_radixPair : NoPercent radixPair := by
  constructor
  · intro c
    rfl
  · intro c
    unfold radixPair
    by_cases hsign : c = '+'
    · rw [if_pos hsign]
      rfl
    · rw [if_neg hsign]
      cases digitValue c <;> rfl

theorem splitAtChecked_narrow (h : c.utf8Size = 1) (n : ℕ) (later : Text) :
    splitAtChecked (n + 1) (c :: later) =
      (splitAtChecked n later).map fun (left, right) => (c :: left, right) := by
  rw [splitAtChecked, if_pos (by omega), h, Nat.add_sub_cancel]

@[simp] theorem splitAtChecked_zero (text : Text) : splitAtChecked 0 text = some ([], text) := by
  cases text <;> rfl

theorem sizes_of_pair (h : radixPair first second = some byte) :
    first.utf8Size = 1 ∧ second.utf8Size = 1 := by
  unfold radixPair at h
  split_ifs at h with hsign
  · obtain ⟨d, hd, -⟩ := map_eq_some_iff.mp h
    exact ⟨by rw [hsign]; decide, utf8Size_of_digit hd⟩
  · split at h
    · next high low hfirst hsecond =>
      exact ⟨utf8Size_of_digit hfirst, utf8Size_of_digit hsecond⟩
    · cases h

/-- Two bytes that are read are two characters. -/
theorem cut_pair (h : radixPair first second = some byte) (later : Text) :
    splitAtChecked 2 (first :: second :: later) = some ([first, second], later) := by
  have hsizes := sizes_of_pair h
  rw [splitAtChecked_narrow hsizes.1, splitAtChecked_narrow hsizes.2, splitAtChecked_zero]
  rfl

theorem cut_read {text hex later : Text}
    (hcut : splitAtChecked 2 text = some (hex, later)) (hread : fromStrRadix16 hex = some byte) :
    ∃ first second, text = first :: second :: later ∧ radixPair first second = some byte := by
  cases text with
  | nil => cases hcut
  | cons c rest =>
    rw [splitAtChecked] at hcut
    split_ifs at hcut with hsize
    have hpos := Char.utf8Size_pos c
    obtain hone | htwo : c.utf8Size = 1 ∨ c.utf8Size = 2 := by omega
    · rw [hone] at hcut
      cases rest with
      | nil => cases hcut
      | cons d rest =>
        have hd : d.utf8Size = 1 := by
          by_contra hwide
          have hpos := Char.utf8Size_pos d
          have hnot : ¬d.utf8Size ≤ 1 := by omega
          simp [splitAtChecked, hnot] at hcut
        simp only [Nat.reduceAdd, Nat.add_one_sub_one, splitAtChecked_narrow hd,
          splitAtChecked_zero, map_some, Option.some.injEq, Prod.mk.injEq] at hcut
        obtain ⟨hhex, rfl⟩ := hcut
        refine ⟨c, d, rfl, ?_⟩
        rw [← fromStrRadix16_pair, hhex]
        exact hread
    · rw [htwo] at hcut
      simp only [Nat.reduceAdd, Nat.sub_self, splitAtChecked_zero, map_some,
        Option.some.injEq, Prod.mk.injEq] at hcut
      rw [← hcut.1, fromStrRadix16_wide htwo] at hread
      cases hread

/-- Nothing is read of two bytes that are not cut, or not digits. -/
theorem unread_of_refused {text : Text}
    (h : ∀ hex later, splitAtChecked 2 text = some (hex, later) → fromStrRadix16 hex = none) :
    ∀ first second rest, text = first :: second :: rest → radixPair first second = none := by
  rintro first second rest rfl
  by_contra hsome
  obtain ⟨byte, hbyte⟩ := ne_none_iff_exists'.mp hsome
  have hread := h _ _ (cut_pair hbyte rest)
  rw [fromStrRadix16_pair, hbyte] at hread
  cases hread

theorem splitAtChecked_append (left right : Text) :
    splitAtChecked (utf8 left).length (left ++ right) = some (left, right) := by
  induction left with
  | nil => exact splitAtChecked_zero right
  | cons c left ih =>
    have hpos := Char.utf8Size_pos c
    obtain ⟨n, hn⟩ : ∃ n, (utf8 (c :: left)).length = n + 1 :=
      ⟨c.utf8Size - 1 + (utf8 left).length, by
        rw [utf8_cons, length_append, String.length_utf8EncodeChar]
        omega⟩
    have hlength : n + 1 = c.utf8Size + (utf8 left).length := by
      rw [← hn, utf8_cons, length_append, String.length_utf8EncodeChar]
    have hleft : n + 1 - c.utf8Size = (utf8 left).length := by omega
    rw [hn, cons_append, splitAtChecked, if_pos (by omega), hleft, ih]
    rfl

/-! ## The walk over a path -/

/-- Bytes other than `%` are kept. -/
theorem pathDecodeFrom_bytes {segment : Text} {bytes : Bytes} (hplain : ∀ b ∈ bytes, b ≠ 0x25) :
    ∀ {front back out : Bytes}, utf8 segment = front ++ bytes ++ back →
      pathDecodeFrom segment front.length out =
        pathDecodeFrom segment (front.length + bytes.length) (out ++ bytes) := by
  induction bytes with
  | nil =>
    intro front back out _
    rw [append_nil]
    rfl
  | cons b bytes ih =>
    intro front back out hsegment
    have hindex : (utf8 segment)[front.length]? = some b := by
      rw [hsegment, append_assoc, List.getElem?_append_right le_rfl, Nat.sub_self]
      rfl
    have hlength : front.length < (utf8 segment).length := by
      rw [hsegment]
      simp
    have hlater : utf8 segment = (front ++ [b]) ++ bytes ++ back := by
      rw [hsegment]
      simp
    have hrest : ∀ c ∈ bytes, c ≠ 0x25 := fun c hc => hplain c (mem_cons_of_mem b hc)
    have hstep := @ih hrest (front ++ [b]) back (out ++ [b]) hlater
    rw [pathDecodeFrom, dif_pos hlength, hindex]
    dsimp only
    rw [if_neg (hplain b mem_cons_self)]
    rw [length_append, length_singleton] at hstep
    rw [hstep, append_assoc, singleton_append, length_cons]
    congr 1
    omega

theorem pathDecodeFrom_char (hc : c ≠ '%') (front later : Text) (out : Bytes) :
    pathDecodeFrom (front ++ c :: later) (utf8 front).length out =
      pathDecodeFrom (front ++ c :: later) (utf8 (front ++ [c])).length
        (out ++ String.utf8EncodeChar c) := by
  have hplain : ∀ b ∈ String.utf8EncodeChar c, b ≠ 0x25 := by
    intro b hb heq
    exact hc (percent_byte hb heq)
  have hsegment : utf8 (front ++ c :: later) = utf8 front ++ String.utf8EncodeChar c ++ utf8 later := by
    rw [utf8_append, utf8_cons, append_assoc]
  rw [pathDecodeFrom_bytes hplain hsegment, utf8_append, length_append, utf8_cons, utf8_nil,
    append_nil]

theorem getRange_percent (front later : Text) :
    getRange ((utf8 front).length + 1) ((utf8 front).length + 3) (front ++ '%' :: later) =
      (splitAtChecked 2 later).map Prod.fst := by
  have hlength : (utf8 front).length + 1 = (utf8 (front ++ ['%'])).length := by
    rw [utf8_append, length_append]
    rfl
  have hsplit : front ++ '%' :: later = (front ++ ['%']) ++ later := by simp
  have htwo : (utf8 front).length + 3 - (utf8 (front ++ ['%'])).length = 2 := by omega
  rw [getRange, hsplit, hlength, splitAtChecked_append, bind_some, htwo]

/-- What stands after a `%` is two characters that are read, or refused. -/
theorem pathDecodeFrom_percent (front later : Text) (out : Bytes) :
    (∃ first second rest byte, later = first :: second :: rest ∧
      radixPair first second = some byte ∧
      pathDecodeFrom (front ++ '%' :: later) (utf8 front).length out =
        pathDecodeFrom (front ++ '%' :: later) (utf8 (front ++ ['%', first, second])).length
          (out ++ [byte])) ∨
    (∀ first second rest, later = first :: second :: rest → radixPair first second = none) ∧
      ∃ refusal, pathDecodeFrom (front ++ '%' :: later) (utf8 front).length out =
        some (.error refusal) := by
  have hbytes : utf8 (front ++ '%' :: later) = utf8 front ++ 0x25 :: utf8 later := by
    rw [utf8_append, utf8_cons]
    rfl
  have hindex : (utf8 (front ++ '%' :: later))[(utf8 front).length]? = some 0x25 := by
    rw [hbytes, List.getElem?_append_right le_rfl, Nat.sub_self]
    rfl
  have hlength : (utf8 front).length < (utf8 (front ++ '%' :: later)).length := by
    rw [hbytes]
    simp
  rw [pathDecodeFrom, dif_pos hlength, hindex]
  dsimp only
  rw [if_pos rfl, getRange_percent]
  cases hcut : splitAtChecked 2 later with
  | none =>
    refine .inr ⟨unread_of_refused fun hex rest heq => ?_, _, rfl⟩
    rw [hcut] at heq
    cases heq
  | some cut =>
    obtain ⟨hex, rest⟩ := cut
    rw [map_some]
    dsimp only
    cases hread : fromStrRadix16 hex with
    | none =>
      refine .inr ⟨unread_of_refused fun hex' rest' heq => ?_, _, rfl⟩
      rw [hcut] at heq
      cases heq
      exact hread
    | some byte =>
      obtain ⟨first, second, rfl, hpair⟩ := cut_read hcut hread
      refine .inl ⟨first, second, rest, byte, rfl, hpair, ?_⟩
      have hfirst := sizes_of_pair hpair
      rw [utf8_append, length_append, utf8_cons, utf8_cons, utf8_cons, utf8_nil]
      simp only [length_append, String.length_utf8EncodeChar, hfirst.1, hfirst.2]
      rfl

/-- A path is walked without a panic, and its bytes are those the escapes and
the other characters of its text stand for. -/
theorem pathDecodeFrom_eq (text : Text) : ∀ (front : Text) (out : Bytes), ∃ result,
    pathDecodeFrom (front ++ text) (utf8 front).length out = some result ∧
      result.toOption = (decode String.utf8EncodeChar radixPair text).map (out ++ ·) := by
  induction text using text_induction with
  | nil =>
    intro front out
    refine ⟨.ok out, ?_, ?_⟩
    · rw [pathDecodeFrom, append_nil, dif_neg (lt_irrefl _)]
    · rw [decode_nil, map_some, append_nil]
      rfl
  | plain c later hc ih =>
    intro front out
    obtain ⟨result, hrun, hresult⟩ := ih (front ++ [c]) (out ++ String.utf8EncodeChar c)
    refine ⟨result, ?_, ?_⟩
    · rw [pathDecodeFrom_char hc, ← hrun, append_assoc, singleton_append]
    · rw [hresult, decode_plain hc, Option.map_map]
      congr 1
      funext bytes
      rw [Function.comp_apply, append_assoc]
  | escape first second later ih =>
    intro front out
    rcases pathDecodeFrom_percent front (first :: second :: later) out with
      ⟨a, b, rest, byte, heq, hpair, hstep⟩ | ⟨hnone, refusal, hrefused⟩
    · cases heq
      obtain ⟨result, hrun, hresult⟩ := ih (front ++ ['%', first, second]) (out ++ [byte])
      refine ⟨result, ?_, ?_⟩
      · rw [hstep, ← hrun, append_assoc]
        rfl
      · rw [hresult, decode_percent hpair, Option.map_map]
        congr 1
        funext bytes
        rw [Function.comp_apply, append_assoc]
        rfl
    · refine ⟨.error refusal, hrefused, ?_⟩
      rw [decode_refused (hnone first second later rfl)]
      rfl
  | cut later hcut =>
    intro front out
    rcases pathDecodeFrom_percent front later out with
      ⟨a, b, rest, byte, heq, -, -⟩ | ⟨-, refusal, hrefused⟩
    · rw [heq] at hcut
      simp only [length_cons] at hcut
      omega
    · refine ⟨.error refusal, hrefused, ?_⟩
      rw [decode_cut hcut]
      rfl

/-- A piece that does not start with a pair that is read, before the end or
another `%`. -/
theorem unread_append {piece later : Text} (hlater : later = [] ∨ ∃ rest, later = '%' :: rest)
    (h : ∀ first second rest, piece = first :: second :: rest → radixPair first second = none) :
    ∀ first second rest, piece ++ later = first :: second :: rest →
      radixPair first second = none := by
  intro first second rest heq
  match piece with
  | [] =>
    rcases hlater with rfl | ⟨rest', rfl⟩
    · cases heq
    · rw [← (List.cons.inj heq).1]
      exact noPercent_radixPair.first second
  | [a] =>
    rcases hlater with rfl | ⟨rest', rfl⟩
    · cases heq
    · rw [← (List.cons.inj (List.cons.inj heq).2).1]
      exact noPercent_radixPair.second first
  | a :: b :: tail =>
    obtain ⟨rfl, htail⟩ := List.cons.inj heq
    obtain ⟨rfl, -⟩ := List.cons.inj htail
    exact h a b tail rfl

theorem flatMap_start (pieces : List Text) :
    pieces.flatMap ('%' :: ·) = [] ∨ ∃ rest, pieces.flatMap ('%' :: ·) = '%' :: rest := by
  cases pieces with
  | nil => exact .inl rfl
  | cons piece later => exact .inr ⟨piece ++ later.flatMap ('%' :: ·), rfl⟩

theorem urlDecodePieces_eq {pieces : List Text} (hplain : ∀ piece ∈ pieces, '%' ∉ piece) :
    ∀ out : Bytes, (urlDecodePieces out pieces).toOption =
      (decode String.utf8EncodeChar radixPair (pieces.flatMap ('%' :: ·))).map
        (out ++ ·) := by
  induction pieces with
  | nil =>
    intro out
    rw [flatMap_nil, decode_nil, map_some, append_nil]
    rfl
  | cons piece later ih =>
    intro out
    have hlater := ih fun p hp => hplain p (mem_cons_of_mem piece hp)
    have hpiece := hplain piece mem_cons_self
    rw [flatMap_cons, cons_append, urlDecodePieces]
    dsimp only
    cases hcut : splitAtChecked 2 piece with
    | none =>
      have hunread := @unread_of_refused piece fun hex rest heq => by
        rw [hcut] at heq
        cases heq
      rw [decode_unread (unread_append (flatMap_start later) hunread)]
      rfl
    | some cut =>
      obtain ⟨hex, rest⟩ := cut
      dsimp only
      cases hread : fromStrRadix16 hex with
      | none =>
        have hunread := @unread_of_refused piece fun hex' rest' heq => by
          rw [hcut] at heq
          cases heq
          exact hread
        rw [decode_unread (unread_append (flatMap_start later) hunread)]
        rfl
      | some byte =>
        obtain ⟨first, second, rfl, hpair⟩ := cut_read hcut hread
        have hrest : '%' ∉ rest := fun hmem => hpiece (by simp [hmem])
        dsimp only
        rw [hlater, cons_append, cons_append, decode_percent hpair,
          decode_append_plain hrest, Option.map_map, Option.map_map]
        congr 1
        funext bytes
        simp [utf8]

/-- What a text decodes to, escapes read with their signs. -/
def decoded (text : Text) : Option Text :=
  (decode String.utf8EncodeChar radixPair text).bind fromUtf8

theorem pathDecode_eq (segment : Text) :
    ∃ result, pathDecode segment = some result ∧ result.toOption = decoded segment := by
  obtain ⟨result, hrun, hresult⟩ := pathDecodeFrom_eq segment [] []
  have hrun : pathDecodeFrom segment 0 [] = some result := hrun
  have hbytes : result.toOption = decode String.utf8EncodeChar radixPair segment := by
    rw [hresult]
    exact Option.map_id'
  rw [pathDecode, hrun, decoded, ← hbytes]
  refine ⟨_, rfl, ?_⟩
  cases result with
  | error refusal => rfl
  | ok out =>
    dsimp only [Except.toOption, bind_some]
    cases fromUtf8 out <;> rfl

theorem urlDecode_eq (input : Text) : (urlDecode input).toOption = decoded (spaced input) := by
  obtain ⟨first, pieces, hsplit, htext, hfirst, hpieces⟩ := splitOn_pieces '%' (spaced input)
  have hread := urlDecodePieces_eq hpieces (utf8 first)
  have hbytes : (urlDecodePieces (utf8 first) pieces).toOption =
      decode String.utf8EncodeChar radixPair (spaced input) := by
    rw [hread, htext, decode_append_plain hfirst]
    rfl
  have hrun : urlDecode input = match urlDecodePieces (utf8 first) pieces with
      | .error refusal => .error refusal
      | .ok out =>
        match fromUtf8 out with
        | some decoded => .ok decoded
        | none => .error "its decoded bytes are not UTF-8" := by
    rw [urlDecode, hsplit]
  rw [hrun, decoded, ← hbytes]
  cases urlDecodePieces (utf8 first) pieces with
  | error refusal => rfl
  | ok out =>
    dsimp only [Except.toOption, bind_some]
    cases fromUtf8 out <;> rfl

end Stado.S3.Listener

/-!
# Requests as the listener reads them

One parsed request, the target and the query of its request line, and the guard
on its Host header.
-/

namespace Stado.S3.Listener

open Sigv4
open Directory (debug)

/-! ## Queries -/

/-- One query: every parameter decoded, and the names of those written without
`=`, which name a sub-resource. -/
structure Query where
  pairs : List (Text × Text)
  flags : List Text
deriving DecidableEq

namespace Query

def decodeField (field part : Text) : Except S3Error Text :=
  let fieldText := shown field
  (urlDecode part).mapError fun reason =>
    .invalid s!"the query field {fieldText} cannot be read: {reason}"

def parseFields : List Text → Except S3Error Query
  | [] => .ok ⟨[], []⟩
  | field :: later =>
    match splitOnce '=' field with
    | some (name, value) => do
        let name ← decodeField field name
        let value ← decodeField field value
        let query ← parseFields later
        return { query with pairs := (name, value) :: query.pairs }
    | none => do
        let name ← decodeField field field
        let query ← parseFields later
        return ⟨(name, []) :: query.pairs, name :: query.flags⟩

def parse (raw : Text) : Except S3Error Query :=
  parseFields ((raw.splitOn '&').filter fun field => field ≠ [])

def value (query : Query) (name : Text) : Option Text :=
  (query.pairs.find? fun pair => pair.1 = name).map Prod.snd

def has (query : Query) (name : Text) : Bool := query.pairs.any fun pair => pair.1 = name

def onlySubresource (query : Query) (served : Option Text) : Except S3Error Unit :=
  match query.flags.find? fun flag => some flag ≠ served with
  | some flag =>
    let flagText := String.ofList flag
    .error (.notImplemented
      s!"the sub-resource ?{flagText} is not served by Stado's S3 endpoint")
  | none => .ok ()

end Query

/-! ## Requests -/

/-- `<method> <target> HTTP/<version>`. -/
def requestLine (line : Text) : Option (Text × Text × Text) :=
  match splitWhitespace line with
  | [method, path, version] =>
    if "HTTP/".toList <+: version then some (method, path, version) else none
  | _ => none

def headerLine (line : Text) : Option (Text × Text) :=
  (splitOnce ':' line).map fun (name, value) => ((trim name).map Char.toLower, trim value)

/-- One parsed request: its method and its target come from a request line, and
each header from a header line. -/
structure Request where
  method : Text
  path : Text
  headers : List (Text × Text)
  body : Bytes
  line : ∃ text version, requestLine text = some (method, path, version)
  fields : ∀ header ∈ headers, ∃ text, headerLine text = some header

namespace Request

/-- The values a request carries under a name, in order. -/
def occurrences (request : Request) (name : Text) : List Text :=
  (request.headers.filter fun header => header.1 = name).map Prod.snd

/-- The first value of a name. -/
def header (request : Request) (name : Text) : Option Text :=
  (request.headers.find? fun header => header.1 = name).map Prod.snd

/-- The request target's route and query. -/
def target (request : Request) : Text × Text :=
  (splitOnce '?' request.path).getD (request.path, [])

end Request

/-- The bucket and key that a path under the endpoint's root addresses. -/
def addressed (rawPath : Text) : Option (Except S3Error (Text × Text)) :=
  let rest := (rawPath.drop s3Root.length).dropWhile (· = '/')
  match splitOnce '/' rest with
  | some (bucket, key) =>
    match pathDecode bucket with
    | some (.ok bucket) => (pathDecode key).map fun key => key.map fun key => (bucket, key)
    | some (.error refusal) => some (.error refusal)
    | none => none
  | none => (pathDecode rest).map fun bucket => bucket.map fun bucket => (bucket, [])

/-- The host and port of an authority without user information, where its
brackets close. -/
def hostPort (authority : Text) : Option (Text × Option Text) :=
  match stripPrefix ['['] authority with
  | some rest =>
    match splitOnce ']' rest with
    | some (host, after) =>
      if after = [] then some (host, none)
      else (stripPrefix [':'] after).map fun port => (host, some port)
    | none => none
  | none =>
    match Directory.rsplitOnce ':' authority with
    | some (host, port) => some (host, some port)
    | none => some (authority, none)

def noUserinfo (userinfo : Option Text) : Bool :=
  match userinfo with
  | none => true
  | some userinfo =>
    match splitOnce ':' userinfo with
    | some (name, password) => name.isEmpty && password.isEmpty
    | none => userinfo.isEmpty

def trustedRequestHost (value forwardedProto : Option Text) (reverseProxyEnabled : Bool) : Bool :=
  match value with
  | none => false
  | some value =>
    let proxyHttps := reverseProxyEnabled && forwardedProto == some "https".toList
    let suffix (c : Char) := c == '/' || c == '?' || c == '#'
    let authority := value.takeWhile fun c => !suffix c
    let (userinfo, rest) := match Directory.rsplitOnce '@' authority with
      | some (userinfo, rest) => (some userinfo, rest)
      | none => (none, authority)
    match hostPort rest with
    | none => false
    | some (host, port) =>
      if !port.all (fun port => (Directory.parsePort port).isSome) then false
      else if host.isEmpty || !noUserinfo userinfo || value.any suffix then false
      else if host.map Char.toLower = "localhost".toList then true
      else
        match Directory.parseIpAddr (String.ofList host) with
        | some address => address.isLoopback || proxyHttps
        | none => proxyHttps

end Stado.S3.Listener
