import Stado.S3.Decoding

/-!
# Percent-decoding against RFC 3986

The decoder of queries reads a text exactly when each of its escapes is two
hexadecimal digits and its bytes are UTF-8. The decoder of paths also reads an
escape written with a sign and one digit: it is right on every other text. Both
read what `uriEncode` writes, so the listener addresses the object that a
client's path names.
-/

namespace Stado.S3.Listener

open Sigv4 List Percent

/-- Two hexadecimal digits, and nothing else. -/
def hexPair (first second : Char) : Option UInt8 :=
  match digitValue first, digitValue second with
  | some high, some low => some (UInt8.ofNat (16 * high + low))
  | _, _ => none

/-- What RFC 3986 reads: every `%` of the text is followed by two digits, and
the bytes the escapes and the other characters stand for are UTF-8. -/
def Decodes (text result : Text) : Prop :=
  EveryEscape hexPair text ∧ (decode String.utf8EncodeChar hexPair text).bind fromUtf8 = some result

/-- A text with the sign of each escape written as a zero. -/
def unsigned : Text → Text
  | '%' :: '+' :: later => '%' :: '0' :: unsigned later
  | c :: later => c :: unsigned later
  | [] => []

def SignedEscape (text : Text) : Prop :=
  ['%', '+'] <:+: text ∧ ∃ result, Decodes (unsigned text) result

/-! ## Signs -/

theorem noPercent_hexPair : NoPercent hexPair := by
  constructor
  · intro c
    rfl
  · intro c
    unfold hexPair
    cases digitValue c <;> rfl

theorem hexPair_sign (c : Char) : hexPair '+' c = none := rfl

theorem radixPair_sign (c : Char) : radixPair '+' c = hexPair '0' c := by
  show (digitValue c).map UInt8.ofNat = hexPair '0' c
  unfold hexPair
  have hzero : digitValue '0' = some 0 := by decide
  rw [hzero]
  cases digitValue c with
  | none => rfl
  | some d => simp

theorem radixPair_of_ne {first : Char} (h : first ≠ '+') (second : Char) :
    radixPair first second = hexPair first second := if_neg h

theorem decodes_iff (text result : Text) :
    Decodes text result ↔
      (decode String.utf8EncodeChar hexPair text).bind fromUtf8 = some result := by
  refine and_iff_right_of_imp ?_
  intro hsome
  have hread := @decode_isSome_iff String.utf8EncodeChar hexPair noPercent_hexPair text
  refine hread.mp ?_
  obtain ⟨bytes, hbytes, -⟩ := Option.bind_eq_some_iff.mp hsome
  rw [hbytes]
  rfl

theorem unsigned_signed (later : Text) :
    unsigned ('%' :: '+' :: later) = '%' :: '0' :: unsigned later := rfl

variable {c : Char}

theorem unsigned_cons {later : Text} (h : ∀ rest, c = '%' → later = '+' :: rest → False) :
    unsigned (c :: later) = c :: unsigned later := by
  rw [unsigned]
  exact h

theorem unsigned_plain (h : c ≠ '%') (later : Text) : unsigned (c :: later) = c :: unsigned later :=
  unsigned_cons fun _ hc _ => h hc

theorem unsigned_percent (h : c ≠ '+') (later : Text) :
    unsigned ('%' :: c :: later) = '%' :: unsigned (c :: later) :=
  unsigned_cons fun _ _ heq => h (List.cons.inj heq).1

theorem unsigned_head (later : Text) : ∃ rest, unsigned ('%' :: later) = '%' :: rest := by
  cases later with
  | nil => exact ⟨[], rfl⟩
  | cons c later =>
    by_cases hc : c = '+'
    · subst hc
      exact ⟨'0' :: unsigned later, unsigned_signed later⟩
    · exact ⟨unsigned (c :: later), unsigned_percent hc later⟩

theorem unsigned_length (text : Text) : (unsigned text).length = text.length := by
  fun_induction unsigned text with
  | case1 later ih => simp [ih]
  | case2 c later _ ih => simp [ih]
  | case3 => rfl

/-- Reading signs is reading zeros in their place. -/
theorem decode_unsigned (text : Text) :
    decode String.utf8EncodeChar radixPair text =
      decode String.utf8EncodeChar hexPair (unsigned text) := by
  induction text using text_induction with
  | nil => rfl
  | plain c later hc ih =>
    rw [unsigned_plain hc, decode_plain hc, decode_plain hc, ih]
  | escape first second later ih =>
    by_cases hfirst : first = '+'
    · subst hfirst
      rw [unsigned_signed]
      by_cases hsecond : second = '%'
      · subst hsecond
        obtain ⟨rest, hrest⟩ := unsigned_head later
        rw [hrest, decode_refused (noPercent_radixPair.second '+'),
          decode_refused (noPercent_hexPair.second '0')]
      · rw [unsigned_plain hsecond]
        exact decode_percent_congr (radixPair_sign second) ih
    · rw [unsigned_percent hfirst]
      by_cases hpercent : first = '%'
      · subst hpercent
        obtain ⟨rest, hrest⟩ := unsigned_head (second :: later)
        rw [hrest, decode_refused (noPercent_radixPair.first second)]
        refine (decode_unread ?_).symm
        intro a b tail heq
        rw [← (List.cons.inj heq).1]
        exact noPercent_hexPair.first b
      · rw [unsigned_plain hpercent]
        by_cases hsecond : second = '%'
        · subst hsecond
          obtain ⟨rest, hrest⟩ := unsigned_head later
          rw [hrest, decode_refused (noPercent_radixPair.second first),
            decode_refused (noPercent_hexPair.second first)]
        · rw [unsigned_plain hsecond]
          exact decode_percent_congr (radixPair_of_ne hfirst second) ih
  | cut later hcut =>
    obtain ⟨rest, hrest⟩ := unsigned_head later
    have hlength := unsigned_length ('%' :: later)
    rw [hrest, length_cons, length_cons, Nat.add_right_cancel_iff] at hlength
    rw [hrest, decode_cut hcut, decode_cut (by omega)]

variable {text : Text}

theorem unsigned_eq (h : ¬['%', '+'] <:+: text) : unsigned text = text := by
  fun_induction unsigned text with
  | case1 later ih => exact absurd ⟨[], later, rfl⟩ h
  | case2 c later _ ih =>
    rw [ih]
    intro hinfix
    exact h ( hinfix.trans (suffix_cons c later).isInfix)
  | case3 => rfl

theorem not_decodes_sign (h : ['%', '+'] <:+: text) (result : Text) : ¬Decodes text result := by
  rintro ⟨hevery, -⟩
  obtain ⟨before, after, rfl⟩ := h
  obtain ⟨first, second, later, heq, hread⟩ :=
    hevery before ('+' :: after) (by rw [append_assoc]; rfl)
  rw [← (List.cons.inj heq).1, hexPair_sign] at hread
  cases hread

theorem decoded_eq_some_iff (text result : Text) :
    decoded text = some result ↔ Decodes (unsigned text) result := by
  rw [decodes_iff, decoded, decode_unsigned]

/-! ## Round trips -/

theorem kept_plain (keepSlash : Bool) : ∀ n < 256, kept keepSlash (UInt8.ofNat n) = true →
    ascii (UInt8.ofNat n) ≠ '%' ∧ ascii (UInt8.ofNat n) ≠ '+' ∧
      String.utf8EncodeChar (ascii (UInt8.ofNat n)) = [UInt8.ofNat n] := by
  cases keepSlash <;> decide +kernel

theorem kept_ascii {keepSlash : Bool} {b : UInt8} (h : kept keepSlash b = true) :
    ascii b ≠ '%' ∧ ascii b ≠ '+' ∧ String.utf8EncodeChar (ascii b) = [b] := by
  have hb : UInt8.ofNat b.toNat = b := UInt8.ofNat_toNat
  have hplain := kept_plain keepSlash b.toNat (UInt8.toNat_lt b)
  rw [hb] at hplain
  exact hplain h

theorem radixPair_digits (b : UInt8) :
    radixPair (digit (b.toNat / 16)) (digit (b.toNat % 16)) = some b := by
  have hb := UInt8.toNat_lt b
  have hhigh := @digitValue_digit (b.toNat / 16) (by omega)
  have hlow := @digitValue_digit (b.toNat % 16) (by omega)
  have hsign : digit (b.toNat / 16) ≠ '+' := by
    intro hsign
    rw [hsign] at hhigh
    cases hhigh
  rw [radixPair, if_neg hsign, hhigh, hlow]
  dsimp only
  rw [Nat.div_add_mod, UInt8.ofNat_toNat]

theorem reads_kept (keepSlash : Bool) : Reads (kept keepSlash) String.utf8EncodeChar radixPair := by
  constructor
  · intro b hkept
    obtain ⟨hpercent, -, hplain⟩ := kept_ascii hkept
    exact ⟨hpercent, hplain⟩
  · exact radixPair_digits

theorem plus_notMem_uriEncode (text : Text) (keepSlash : Bool) :
    '+' ∉ uriEncode text keepSlash := by
  intro hplus
  rcases mem_encode hplus with hpercent | hdigit | ⟨b, hkept, hb⟩
  · revert hpercent
    decide
  · revert hdigit
    decide
  · exact (kept_ascii hkept).2.1 hb.symm

theorem spaced_eq (h : '+' ∉ text) : spaced text = text := by
  have hsame : ∀ c ∈ text, (if c = '+' then ' ' else c) = c := by
    intro c hc
    refine if_neg ?_
    rintro rfl
    exact h hc
  exact (map_congr_left hsame).trans (List.map_id text)

theorem decoded_uriEncode (text : Text) (keepSlash : Bool) :
    decoded (uriEncode text keepSlash) = some text := by
  rw [decoded, uriEncode, decode_encode (reads_kept keepSlash)]
  exact fromUtf8_utf8 text

/-! ## The decoders -/

theorem pathDecode_ok (segment result : Text) :
    pathDecode segment = some (.ok result) ↔ Decodes (unsigned segment) result := by
  obtain ⟨answer, hanswer, hresult⟩ := pathDecode_eq segment
  rw [hanswer, ← decoded_eq_some_iff, ← hresult]
  cases answer with
  | _ => simp [Except.toOption]

theorem urlDecode_ok (input result : Text) :
    urlDecode input = .ok result ↔ Decodes (spaced input) result := by
  have hplus : ¬['%', '+'] <:+: spaced input := by
    intro hinfix
    have hmem : '+' ∈ spaced input := hinfix.subset (by decide)
    obtain ⟨c, -, hc⟩ := List.mem_map.mp hmem
    by_cases hplus : c = '+'
    · rw [if_pos hplus] at hc
      exact absurd hc (by decide)
    · rw [if_neg hplus] at hc
      exact hplus hc
  have hresult := urlDecode_eq input
  have hread := decoded_eq_some_iff (spaced input) result
  rw [unsigned_eq hplus] at hread
  rw [← hread, ← hresult]
  cases urlDecode input with
  | _ => simp [Except.toOption]

theorem path_exact (segment : Text) :
    (∀ result, pathDecode segment = some (.ok result) ↔ Decodes segment result) ↔
      ¬SignedEscape segment := by
  constructor
  · rintro hexact ⟨hsign, result, hresult⟩
    exact not_decodes_sign hsign result ((hexact result).mp ((pathDecode_ok segment result).mpr hresult))
  · intro hunsigned result
    rw [pathDecode_ok]
    by_cases hsign : ['%', '+'] <:+: segment
    · exact iff_of_false (fun hread => hunsigned ⟨hsign, result, hread⟩)
        (not_decodes_sign hsign result)
    · rw [unsigned_eq hsign]

/-- No text makes the path's decoder panic, and it reads what RFC 3986 reads on
every text but those with a signed escape; the query's reads what RFC 3986 reads
on every text; and both undo `uriEncode`. -/
theorem escapes_read (text : Text) :
    ((∃ answer, pathDecode text = some answer) ∧
      ((∀ result, pathDecode text = some (.ok result) ↔ Decodes text result) ↔ ¬SignedEscape text) ∧
      ∀ result, urlDecode text = .ok result ↔ Decodes (spaced text) result) ∧
    ∀ keepSlash : Bool,
      pathDecode (uriEncode text keepSlash) = some (.ok text) ∧
        urlDecode (uriEncode text keepSlash) = .ok text := by
  constructor
  · obtain ⟨answer, hanswer, -⟩ := pathDecode_eq text
    exact ⟨⟨answer, hanswer⟩, path_exact text, urlDecode_ok text⟩
  · intro keepSlash
    have hdecoded := decoded_uriEncode text keepSlash
    constructor
    · rw [pathDecode_ok, ← decoded_eq_some_iff, hdecoded]
    · have hplus := plus_notMem_uriEncode text keepSlash
      have hinfix : ¬['%', '+'] <:+: uriEncode text keepSlash :=
        fun hinfix => hplus ( hinfix.subset (by decide))
      have hread := decoded_eq_some_iff (uriEncode text keepSlash) text
      rw [unsigned_eq hinfix] at hread
      rw [urlDecode_ok, spaced_eq hplus, ← hread, hdecoded]

/-- `%+f` is no escape of RFC 3986, and a path that holds it is read. -/
theorem signed_escape_read :
    pathDecode "report%+f".toList = some (.ok ("report".toList ++ ['\x0f'])) ∧
      ∀ result, ¬Decodes "report%+f".toList result := by
  constructor
  · rw [pathDecode_ok, ← decoded_eq_some_iff]
    decide +kernel
  · exact not_decodes_sign ⟨"report".toList, "f".toList, by decide⟩

/-! ## Object paths -/

theorem slash_notMem_uriEncode (text : Text) : '/' ∉ uriEncode text false := by
  have hbytes : ∀ n < 256, '/' ∉ encodeByte (kept false) (UInt8.ofNat n) := by decide +kernel
  intro hmem
  obtain ⟨b, -, hb⟩ := mem_flatMap.mp hmem
  have hnot := hbytes b.toNat b.toNat_lt
  rw [UInt8.ofNat_toNat] at hnot
  exact hnot hb

/-- **The listener addresses what the client's path names.** -/
theorem addressed_objectPath {bucket : Text} (hbucket : bucket ≠ []) (key : Text) :
    addressed (objectPath s3Root bucket key) = some (.ok (bucket, key)) := by
  have hdecode (text : Text) (keepSlash : Bool) :
      pathDecode (uriEncode text keepSlash) = some (.ok text) := by
    rw [pathDecode_ok, ← decoded_eq_some_iff, decoded_uriEncode]
  have hslash := slash_notMem_uriEncode bucket
  have hrest (rest : Text) : ((s3Root ++ '/' :: (uriEncode bucket false ++ rest)).drop
      s3Root.length).dropWhile (· = '/') = uriEncode bucket false ++ rest := by
    rw [drop_left]
    cases hencoded : uriEncode bucket false with
    | nil =>
      have hempty := decoded_uriEncode bucket false
      rw [hencoded] at hempty
      exact absurd (Option.some.inj (hempty.symm.trans (fromUtf8_utf8 []))) hbucket
    | cons c later =>
      rw [hencoded, mem_cons, not_or] at hslash
      simp [Ne.symm hslash.1]
  have hbase : (s3Root.reverse.dropWhile (· = '/')).reverse = s3Root := by decide
  rw [objectPath, hbase]
  split_ifs with hkey
  · have hcut : splitOnce '/' (uriEncode bucket false) = none := by
      rw [Option.eq_none_iff_forall_ne_some]
      rintro ⟨left, right⟩ hcut
      exact hslash (by simp [(splitOnce_some.mp hcut).1])
    have hroot := hrest []
    rw [append_nil] at hroot
    rw [addressed, hroot, hkey]
    simp [hcut, hdecode, Except.map]
  · rw [append_assoc, cons_append, addressed, hrest, splitOnce_append hslash]
    simp [hdecode, Except.map]

theorem addressed_objectPath_note :
    addressed (objectPath s3Root "demo".toList "a b/c".toList) =
      some (.ok ("demo".toList, "a b/c".toList)) := addressed_objectPath (by decide) _

end Stado.S3.Listener
