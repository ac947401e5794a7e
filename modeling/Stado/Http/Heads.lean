import Mathlib.Data.List.DropRight
import Stado.Http.ReadingSpecs

/-!
# The heads of well-formed requests

What the lines of an accepted head declare, and that a well-formed request is
found, parsed and admitted as what it is.
-/

namespace Stado.Http

open Sigv4 List Option S3.Listener
open Directory (isWhitespace isDigit)
open S3.Listener (requestLine headerLine parseUsize readUsize)

variable {limits : RequestLimits} {text : Text} {head : Head} {c : Char} {line : Text}
  {digits : Text} {value : Text}

/-- A text is what is trimmed of it, between what the test holds of. -/
theorem trimMatches_parts (test : Char → Bool) (text : Text) :
    ∃ left right, text = left ++ trimMatches test text ++ right ∧
      (∀ c ∈ left, test c = true) ∧ ∀ c ∈ right, test c = true := by
  refine ⟨text.takeWhile test, (text.dropWhile test).rtakeWhile test, ?_, ?_, ?_⟩
  · have hinner : trimMatches test text ++ (text.dropWhile test).rtakeWhile test =
        text.dropWhile test := rdropWhile_append_rtakeWhile
    rw [append_assoc, hinner, takeWhile_append_dropWhile]
  · intro c hc
    exact mem_takeWhile_imp hc
  · intro c hc
    exact mem_rtakeWhile_imp hc

/-- What is between two runs that the test holds of. -/
theorem trimMatches_between {test : Char → Bool} {left middle right : Text}
    (hleft : ∀ c ∈ left, test c = true) (hmiddle : ∀ c ∈ middle, test c = false)
    (hright : ∀ c ∈ right, test c = true) :
    trimMatches test (left ++ middle ++ right) = middle := by
  have hinner : (middle ++ right).dropWhile test = middle ++ right ∨ middle = [] := by
    cases middle with
    | nil => exact .inr rfl
    | cons c later =>
      refine .inl (dropWhile_cons_of_neg ?_)
      rw [hmiddle c mem_cons_self]
      decide
  have houter : (middle ++ right).rdropWhile test = middle := by
    rw [List.rdropWhile, reverse_append,
      dropWhile_append_of_pos (fun c hc => hright c (mem_reverse.mp hc))]
    show middle.rdropWhile test = middle
    rw [rdropWhile_eq_self_iff]
    intro hne
    rw [hmiddle _ (getLast_mem hne)]
    decide
  show ((left ++ middle ++ right).dropWhile test).rdropWhile test = middle
  rw [append_assoc, dropWhile_append_of_pos hleft]
  rcases hinner with hkept | hempty
  · rw [hkept, houter]
  · subst hempty
    rw [nil_append, dropWhile_eq_nil_iff.mpr hright, rdropWhile_nil]

/-! ## Declared lengths -/

/-- The white space that may surround a value. -/
def isPadding (c : Char) : Bool := c == ' ' || c == '\t'

/-- Nothing but decimal digits, in padding. -/
def DigitsOnly (value : Text) : Prop :=
  trimMatches isPadding value ≠ [] ∧ (trimMatches isPadding value).all isDigit = true

/-- A sign, or white space other than padding. -/
def Lenient (value : Text) : Prop :=
  '+' ∈ value ∨ ∃ c ∈ value, isWhitespace c = true ∧ isPadding c = false

theorem isWhitespace_of_isPadding (h : isPadding c = true) : isWhitespace c = true := by
  rcases Bool.or_eq_true_iff.mp h with hc | hc
  · rw [beq_iff_eq.mp hc]
    decide
  · rw [beq_iff_eq.mp hc]
    decide

theorem isDigit_range (h : isDigit c = true) : 48 ≤ c.toNat ∧ c.toNat ≤ 57 := by
  rcases Bool.and_eq_true_iff.mp h with ⟨hlow, hhigh⟩
  exact ⟨of_decide_eq_true hlow, of_decide_eq_true hhigh⟩

theorem isWhitespace_of_isDigit (h : isDigit c = true) : isWhitespace c = false := by
  have hrange := isDigit_range h
  unfold isWhitespace
  simp only [Bool.or_eq_false_iff, Bool.and_eq_false_iff, decide_eq_false_iff_not, beq_eq_false_iff_ne]
  omega

theorem ne_plus_of_isDigit (h : isDigit c = true) : c ≠ '+' := by
  rintro rfl
  revert h
  decide

theorem readUsize_ok {value n : ℕ} (h : readUsize value digits = .ok n) :
    digits.all isDigit = true := by
  induction digits generalizing value with
  | nil => rfl
  | cons c later ih =>
    rw [readUsize] at h
    split_ifs at h with hdigit hfits
    rw [all_cons, hdigit, ih h]
    rfl

/-- What is read as a number: digits, after at most a sign. -/
theorem parseUsize_ok {n : ℕ} (h : parseUsize text = .ok n) :
    ∃ digits, (text = digits ∨ text = '+' :: digits) ∧ digits ≠ [] ∧
      digits.all isDigit = true ∧ readUsize 0 digits = .ok n := by
  unfold parseUsize at h
  dsimp only at h
  by_cases hsign : text.head? = some '+'
  · rw [if_pos hsign] at h
    split_ifs at h with _ hdigits
    refine ⟨text.drop 1, .inr ?_, hdigits, readUsize_ok h, h⟩
    obtain ⟨later, rfl⟩ := List.head?_eq_some_iff.mp hsign
    rfl
  · rw [if_neg hsign] at h
    split_ifs at h with hempty
    exact ⟨text, .inl rfl, hempty, readUsize_ok h, h⟩

theorem digitsOnly_iff {n : ℕ} (h : parseUsize (trim value) = .ok n) :
    DigitsOnly value ↔ ¬Lenient value := by
  obtain ⟨digits, htext, hne, hall, -⟩ := parseUsize_ok h
  have hdigits : ∀ c ∈ digits, isDigit c = true := List.all_eq_true.mp hall
  obtain ⟨left, right, hparts, hleft, hright⟩ := trimMatches_parts isWhitespace value
  change value = left ++ trim value ++ right at hparts
  constructor
  · rintro ⟨-, hpadded⟩ hlenient
    obtain ⟨before, after, hvalue, hbefore, hafter⟩ := trimMatches_parts isPadding value
    have hmem : ∀ c ∈ value, isPadding c = true ∨ isDigit c = true := by
      intro c hc
      rw [hvalue] at hc
      rcases mem_append.mp hc with hc | hc
      · rcases mem_append.mp hc with hc | hc
        · exact .inl (hbefore c hc)
        · exact .inr (List.all_eq_true.mp hpadded c hc)
      · exact .inl (hafter c hc)
    rcases hlenient with hplus | ⟨c, hc, hspace, hpadding⟩
    · rcases hmem _ hplus with hpadding | hdigit
      · exact absurd hpadding (by decide)
      · exact ne_plus_of_isDigit hdigit rfl
    · rcases hmem c hc with hpadded | hdigit
      · rw [hpadding] at hpadded
        cases hpadded
      · rw [isWhitespace_of_isDigit hdigit] at hspace
        cases hspace
  · intro hplain
    have hpadding : ∀ c ∈ value, isWhitespace c = true → isPadding c = true := by
      intro c hc hspace
      by_contra hpadding
      exact hplain (.inr ⟨c, hc, hspace, Bool.eq_false_iff.mpr hpadding⟩)
    have htrim : trim value = digits := by
      rcases htext with htext | htext
      · exact htext
      · refine absurd (.inl ?_) hplain
        rw [hparts, htext]
        exact mem_append_left _ (mem_append_right _ mem_cons_self)
    rw [htrim] at hparts
    have hpadded : trimMatches isPadding value = digits := by
      rw [hparts]
      refine trimMatches_between ?_ ?_ ?_
      · intro c hc
        refine hpadding c ?_ (hleft c hc)
        rw [hparts]
        exact mem_append_left _ (mem_append_left _ hc)
      · intro c hc
        refine Bool.eq_false_iff.mpr fun hpad => ?_
        have hspace := isWhitespace_of_isPadding hpad
        rw [isWhitespace_of_isDigit (hdigits c hc)] at hspace
        cases hspace
      · intro c hc
        refine hpadding c ?_ (hright c hc)
        rw [hparts]
        exact mem_append_right _ hc
    exact ⟨by rw [hpadded]; exact hne, by rw [hpadded]; exact hall⟩

/-! ## The lines of a head -/

def namedValue (name line : Text) : Option Text :=
  (splitOnce ':' line).bind fun pair =>
    if (trim pair.1).map Char.toLower = name then some pair.2 else none

def namedValues (name : Text) (lines : List Text) : List Text := lines.filterMap (namedValue name)

def headLines (raw : Bytes) : List Text :=
  ((fromUtf8 raw).map fun text => (splitLines text).tail).getD []

theorem headerLine_some {header : Text × Text} (h : headerLine line = some header) :
    ∃ raw, header.2 = trim raw ∧
      ∀ name, namedValue name line = if header.1 = name then some raw else none := by
  obtain ⟨⟨name, raw⟩, hsplit, rfl⟩ := map_eq_some_iff.mp h
  refine ⟨raw, rfl, ?_⟩
  intro other
  rw [namedValue, hsplit]
  rfl

def named (name : Text) (headers : List (Text × Text)) : List (Text × Text) :=
  headers.filter fun header => header.1 = name

theorem named_append (name : Text) (headers later : List (Text × Text)) :
    named name (headers ++ later) = named name headers ++ named name later :=
  filter_append headers later

theorem named_singleton (name : Text) (header : Text × Text) :
    named name [header] = if header.1 = name then [header] else [] := by
  by_cases h : header.1 = name
  · rw [if_pos h]
    exact filter_cons_of_pos (decide_eq_true h)
  · rw [if_neg h]
    exact filter_cons_of_neg (fun hname => h (of_decide_eq_true hname))

theorem any_named (name : Text) (headers : List (Text × Text)) :
    headers.any (fun earlier => earlier.1 = name) = true ↔ named name headers ≠ [] := by
  rw [List.any_eq_true, named, Ne, filter_eq_nil_iff]
  push Not
  rfl

theorem readHeaders_ok {lines : List Text} {headers out : Headers}
    (h : readHeaders headers lines = .ok out) :
    namedValues transferEncoding lines = [] ∧
      named contentLengthName out.1 = named contentLengthName headers.1 ++
        (namedValues contentLengthName lines).map (fun raw => (contentLengthName, trim raw)) ∧
      (named contentLengthName headers.1 ≠ [] → namedValues contentLengthName lines = []) ∧
      (namedValues contentLengthName lines).length ≤ 1 := by
  induction lines generalizing headers with
  | nil =>
    obtain rfl := Except.ok.inj h
    exact ⟨rfl, (append_nil _).symm, fun _ => rfl, Nat.zero_le 1⟩
  | cons line later ih =>
    rw [readHeaders] at h
    split at h
    · cases h
    · rename_i header hline
      split_ifs at h with hcoding hdouble
      obtain ⟨raw, hraw, hvalue⟩ := headerLine_some hline
      obtain ⟨hcodings, hnamed, hmore, hone⟩ := ih h
      have hpush : named contentLengthName (headers.push header hline).1 =
          named contentLengthName headers.1 ++ named contentLengthName [header] :=
        named_append _ _ _
      have hcoded : namedValues transferEncoding (line :: later) = [] := by
        rw [namedValues, filterMap_cons_none (by rw [hvalue, if_neg hcoding])]
        exact hcodings
      by_cases hlength : header.1 = contentLengthName
      · have hfirst : named contentLengthName headers.1 = [] := by
          by_contra hearlier
          refine hdouble ⟨hlength, ?_⟩
          rw [hlength]
          exact (any_named _ _).mpr hearlier
        have hhere : named contentLengthName [header] = [(contentLengthName, trim raw)] := by
          rw [named_singleton, if_pos hlength, ← hraw, ← hlength]
        have hlater : namedValues contentLengthName later = [] := by
          refine hmore ?_
          rw [hpush, hhere]
          exact append_ne_nil_of_right_ne_nil _ (cons_ne_nil _ _)
        have hvalues : namedValues contentLengthName (line :: later) = [raw] := by
          rw [namedValues, filterMap_cons_some (by rw [hvalue, if_pos hlength])]
          exact congrArg (raw :: ·) hlater
        refine ⟨hcoded, ?_, ?_, ?_⟩
        · rw [hnamed, hpush, hhere, hlater, hvalues]
          exact append_nil _
        · intro hearlier
          exact absurd hfirst hearlier
        · rw [hvalues]
          exact le_rfl
      · have hhere : named contentLengthName [header] = [] := by
          rw [named_singleton, if_neg hlength]
        have hvalues : namedValues contentLengthName (line :: later) =
            namedValues contentLengthName later := by
          rw [namedValues, filterMap_cons_none (by rw [hvalue, if_neg hlength])]
          rfl
        rw [hpush, hhere, append_nil] at hnamed hmore
        rw [hvalues]
        exact ⟨hcoded, hnamed, hmore, hone⟩

theorem parseHead_ok {raw : Bytes} (h : parseHead raw = .ok head) :
    ∃ start headers, readHeaders start (headLines raw) = .ok headers ∧ start.1 = [] ∧
      headers.1 = head.headers := by
  unfold parseHead at h
  cases htext : fromUtf8 raw with
  | none =>
    rw [htext] at h
    cases h
  | some text =>
    rw [htext] at h
    dsimp only at h
    unfold readLines at h
    dsimp only at h
    split at h
    · cases h
    · split at h
      · cases h
      · rename_i headers hheaders
        obtain rfl := Except.ok.inj h
        refine ⟨⟨[], fun _ h => absurd h not_mem_nil⟩, headers, ?_, rfl, rfl⟩
        rw [headLines, htext]
        exact hheaders

theorem bodyLength_ok {length : ℕ} (h : head.bodyLength limits = .ok length) :
    head.contentLength = .ok length := by
  unfold Head.bodyLength at h
  obtain ⟨declared, hdeclared, h⟩ := Checks.bind_eq_ok.mp h
  cases hmost : head.maxBodyBytes limits with
  | none =>
    rw [hmost] at h
    obtain rfl := Except.ok.inj h
    exact hdeclared
  | some most =>
    rw [hmost] at h
    dsimp only at h
    split_ifs at h
    obtain rfl := Except.ok.inj h
    exact hdeclared

theorem header_named (head : Head) (name : Text) :
    head.header name = ((named name head.headers).head?).map Prod.snd := by
  rw [Head.header, named, List.head?_filter]

theorem Declares.lines {stream : Bytes} {position length : ℕ}
    (h : Declares limits stream position head length) :
    namedValues transferEncoding (headLines (stream.take position)) = [] ∧
      (namedValues contentLengthName (headLines (stream.take position)) = [] ∨
        ∃ value, namedValues contentLengthName (headLines (stream.take position)) = [value] ∧
          parseUsize (trim value) = .ok length) := by
  obtain ⟨start, headers, hread, hstart, hheaders⟩ := parseHead_ok h.parsed
  obtain ⟨hcodings, hnamed, -, hone⟩ := readHeaders_ok hread
  refine ⟨hcodings, ?_⟩
  generalize namedValues contentLengthName (headLines (stream.take position)) = values
    at hnamed hone
  match values, hone with
  | [], _ => exact .inl rfl
  | [value], _ =>
    refine .inr ⟨value, rfl, ?_⟩
    have hlength := bodyLength_ok h.admitted
    have hheader : head.header contentLengthName = some (trim value) := by
      rw [header_named, ← hheaders, hnamed, hstart]
      rfl
    rw [Head.contentLength, hheader] at hlength
    dsimp only at hlength
    cases hparse : parseUsize (trim value) with
    | error why =>
      rw [hparse] at hlength
      cases hlength
    | ok n =>
      rw [hparse] at hlength
      obtain rfl := Except.ok.inj hlength
      rfl

/-! ## Well-formed requests -/

def Word (text : Text) : Prop := text ≠ [] ∧ ∀ c ∈ text, isWhitespace c = false

theorem Word.no_return (h : Word text) : '\r' ∉ text := by
  intro hmem
  have hspace := h.2 _ hmem
  revert hspace
  decide

theorem Word.trim_eq (h : Word text) : trim text = text := by
  have hbetween := @trimMatches_between isWhitespace [] text []
    (fun _ hc => absurd hc not_mem_nil) h.2 (fun _ hc => absurd hc not_mem_nil)
  rw [append_nil] at hbetween
  exact hbetween

def asHeader (field : Text × Text) : Text × Text := (field.1.map Char.toLower, trim field.2)

def fieldText (field : Text × Text) : Text := field.1 ++ ':' :: field.2

def crlf : Text := ['\r', '\n']

/-- The number decimal digits write, in padding. -/
def decimal (value : Text) : ℕ :=
  (trimMatches isPadding value).foldl (fun n c => n * 10 + (c.toNat - '0'.toNat)) 0

/-- A request as it is written. -/
structure Segment where
  method : Text
  path : Text
  version : Text
  fields : List (Text × Text)
  body : Bytes

namespace Segment

variable (segment : Segment)

def requestText : Text := segment.method ++ ' ' :: (segment.path ++ ' ' :: segment.version)

def lines : List Text := segment.requestText :: segment.fields.map fieldText

def headText : Text := crlf.intercalate segment.lines

def bytes : Bytes := utf8 segment.headText ++ (headEnd ++ segment.body)

/-- The values its fields write under a name. -/
def written (name : Text) : List Text :=
  (segment.fields.filter fun field => field.1.map Char.toLower = name).map Prod.snd

/-- A head is parsed as the request's. -/
def Heads (head : Head) : Prop :=
  head.method = segment.method ∧ head.path = segment.path ∧ head.version = segment.version ∧
    head.headers = segment.fields.map asHeader

/-- A request is received as the one written. -/
def Denotes (received : Received) : Prop :=
  received.method = segment.method ∧ received.path = segment.path ∧
    received.version = segment.version ∧ received.headers = segment.fields.map asHeader ∧
    received.body = segment.body

/-- A request line and header lines of one line each, the length of the body
declared once in decimal digits, no transfer coding, and all within the bounds
the listener reads it within. -/
structure WellFormed (limits : RequestLimits) : Prop where
  method : Word segment.method
  path : Word segment.path
  version : Word segment.version
  http : "HTTP/".toList <+: segment.version
  names : ∀ field ∈ segment.fields, Word field.1 ∧ ':' ∉ field.1
  values : ∀ field ∈ segment.fields, '\r' ∉ field.2 ∧ '\n' ∉ field.2
  uncoded : segment.written transferEncoding = []
  framed : segment.written contentLengthName = [] ∧ segment.body = [] ∨
    ∃ value, segment.written contentLengthName = [value] ∧ DigitsOnly value ∧
      decimal value = segment.body.length
  bounded : (utf8 segment.headText).length + headEnd.length ≤ limits.headBytes.get
  held : (utf8 segment.headText).length + headEnd.length ≤ isizeMax ∧ segment.body.length ≤ isizeMax
  admitted : ∀ head : Head, segment.Heads head → (segment.written contentLengthName = [] →
      (head.objectPut || head.objectCompose || head.registryImport || head.s3Put) = false) ∧
    ∀ most, head.maxBodyBytes limits = some most → segment.body.length ≤ most

end Segment

/-! ## Lines joined and split -/

theorem splitLines_line (h : '\r' ∉ line) : splitLines line = [line] := by
  induction line with
  | nil => rfl
  | cons c later ih =>
    have hc : c ≠ '\r' := fun heq => h (by rw [heq]; exact mem_cons_self)
    rw [splitLines, ih (not_mem_of_not_mem_cons h)]
    rintro later' rfl
    exact absurd rfl hc

theorem splitLines_append (h : '\r' ∉ line) (later : Text) :
    splitLines (line ++ (crlf ++ later)) = line :: splitLines later := by
  induction line with
  | nil => rfl
  | cons c line ih =>
    have hc : c ≠ '\r' := fun heq => h (by rw [heq]; exact mem_cons_self)
    rw [cons_append, splitLines, ih (not_mem_of_not_mem_cons h)]
    rintro later' rfl
    exact absurd rfl hc

theorem intercalate_cons_cons (line next : Text) (later : List Text) :
    crlf.intercalate (line :: next :: later) = line ++ (crlf ++ crlf.intercalate (next :: later)) := by
  rw [List.intercalate_cons_cons, append_assoc]

theorem splitLines_intercalate {lines : List Text} (hne : lines ≠ [])
    (h : ∀ line ∈ lines, '\r' ∉ line) : splitLines (crlf.intercalate lines) = lines := by
  induction lines with
  | nil => exact absurd rfl hne
  | cons line later ih =>
    have hline := h line mem_cons_self
    cases later with
    | nil =>
      rw [intercalate_singleton]
      exact splitLines_line hline
    | cons next later =>
      rw [intercalate_cons_cons, splitLines_append hline,
        ih (cons_ne_nil _ _) (fun line hmem => h line (mem_cons_of_mem _ hmem))]

theorem return_notMem_utf8 (h : '\r' ∉ text) : (13 : UInt8) ∉ utf8 text := by
  intro hmem
  obtain ⟨c, hc, hb⟩ := mem_flatMap.mp hmem
  have hcode := ascii_byte hb (by decide)
  refine h ?_
  rw [show '\r' = c from Char.toNat_inj.mp hcode.symm]
  exact hc

theorem find_plain {bytes : Bytes} (h : (13 : UInt8) ∉ bytes) (later : Bytes) :
    Cuts.find headEnd (bytes ++ later) = (Cuts.find headEnd later).map (· + bytes.length) := by
  induction bytes with
  | nil =>
    rw [nil_append]
    exact Option.map_id'.symm
  | cons b bytes ih =>
    have hb : b ≠ 13 := fun heq => h (by rw [heq]; exact mem_cons_self)
    rw [cons_append, headEnd, Cuts.find_cons_ne hb, ← headEnd,
      ih (not_mem_of_not_mem_cons h), Option.map_map]
    rfl

theorem find_crlf {b : UInt8} (h : b ≠ 13) (later : Bytes) :
    Cuts.find headEnd (13 :: 10 :: b :: later) = (Cuts.find headEnd (b :: later)).map (· + 2) := by
  have hhere : ¬headEnd <+: 13 :: 10 :: b :: later := by
    intro hprefix
    obtain ⟨-, hprefix⟩ := cons_prefix_cons.mp hprefix
    obtain ⟨-, hprefix⟩ := cons_prefix_cons.mp hprefix
    exact h (cons_prefix_cons.mp hprefix).1.symm
  rw [Cuts.find, if_neg hhere, headEnd, Cuts.find_cons_ne (by decide), ← headEnd, Option.map_map]
  rfl

theorem find_intercalate {lines : List Text} (hne : lines ≠ [])
    (h : ∀ line ∈ lines, line ≠ [] ∧ '\r' ∉ line) (later : Bytes) :
    Cuts.find headEnd (utf8 (crlf.intercalate lines) ++ (headEnd ++ later)) =
      some (utf8 (crlf.intercalate lines)).length := by
  induction lines with
  | nil => exact absurd rfl hne
  | cons line rest ih =>
    have hline := return_notMem_utf8 (h line mem_cons_self).2
    cases rest with
    | nil =>
      have hfind : Cuts.find headEnd (headEnd ++ later) = some 0 := rfl
      rw [intercalate_singleton, find_plain hline, hfind]
      exact congrArg some (Nat.zero_add _)
    | cons next rest =>
      have hrest := ih (cons_ne_nil _ _)
        (fun line hmem => h line (mem_cons_of_mem _ hmem))
      obtain ⟨hnext, hreturn⟩ := h next (mem_cons_of_mem _ mem_cons_self)
      -- the next line starts with a byte of its own
      obtain ⟨b, bytes, hbytes, hb⟩ : ∃ b bytes,
          utf8 (crlf.intercalate (next :: rest)) = b :: bytes ∧ b ≠ 13 := by
        obtain ⟨c, text, rfl⟩ := exists_cons_of_ne_nil hnext
        obtain ⟨text', htext⟩ : ∃ text', crlf.intercalate ((c :: text) :: rest) =
            (c :: text) ++ text' := by
          cases rest with
          | nil => exact ⟨[], by rw [intercalate_singleton, append_nil]⟩
          | cons other rest => exact ⟨_, intercalate_cons_cons _ _ _⟩
        have hne : utf8 (c :: text) ≠ [] := by
          rw [utf8_cons]
          intro hnil
          have hlength := congrArg List.length (append_eq_nil_iff.mp hnil).1
          rw [String.length_utf8EncodeChar] at hlength
          have := c.utf8Size_pos
          simp only [length_nil] at hlength
          omega
        obtain ⟨b, bytes, hbytes⟩ := exists_cons_of_ne_nil hne
        refine ⟨b, bytes ++ utf8 text', ?_, ?_⟩
        · rw [htext, utf8_append, hbytes]
          rfl
        · rintro rfl
          refine return_notMem_utf8 hreturn ?_
          rw [hbytes]
          exact mem_cons_self
      have hsplit : utf8 (crlf.intercalate (line :: next :: rest)) =
          utf8 line ++ (13 :: 10 :: utf8 (crlf.intercalate (next :: rest))) := by
        rw [intercalate_cons_cons, utf8_append, utf8_append]
        rfl
      rw [hsplit, append_assoc, find_plain hline, length_append]
      rw [cons_append, cons_append]
      rw [hbytes] at hrest ⊢
      rw [cons_append, find_crlf hb, ← cons_append, hrest]
      simp only [map_some, length_cons]
      congr 1
      omega

/-! ## A well-formed request is accepted -/

theorem requestLine_words {method path version : Text} (hmethod : Word method) (hpath : Word path)
    (hversion : Word version) (hhttp : "HTTP/".toList <+: version) :
    requestLine (method ++ ' ' :: (path ++ ' ' :: version)) = some (method, path, version) := by
  have hwords : splitWhitespace (method ++ ' ' :: (path ++ ' ' :: version)) =
      [method, path, version] := by
    rw [splitWhitespace, splitOnP_append_cons_of_forall_mem hmethod.2 ' ' (by decide),
      splitOnP_append_cons_of_forall_mem hpath.2 ' ' (by decide),
      splitOnP_eq_singleton hversion.2]
    refine filter_eq_self.mpr ?_
    simp only [mem_cons, not_mem_nil, or_false, decide_eq_true_eq]
    rintro word (rfl | rfl | rfl)
    · exact hmethod.1
    · exact hpath.1
    · exact hversion.1
  rw [requestLine, hwords]
  exact if_pos hhttp

theorem headerLine_field {field : Text × Text} (hname : Word field.1) (hcolon : ':' ∉ field.1) :
    headerLine (fieldText field) = some (asHeader field) := by
  rw [headerLine, fieldText, splitOnce_append hcolon, map_some]
  show some ((trim field.1).map Char.toLower, trim field.2) = _
  rw [hname.trim_eq]
  rfl

theorem readHeaders_fields {fields : List (Text × Text)} {headers : Headers}
    (hnames : ∀ field ∈ fields, Word field.1 ∧ ':' ∉ field.1)
    (hcoded : ∀ field ∈ fields, (asHeader field).1 ≠ transferEncoding)
    (hone : (named contentLengthName (headers.1 ++ fields.map asHeader)).length ≤ 1) :
    ∃ out, readHeaders headers (fields.map fieldText) = .ok out ∧
      out.1 = headers.1 ++ fields.map asHeader := by
  induction fields generalizing headers with
  | nil => exact ⟨headers, rfl, (append_nil _).symm⟩
  | cons field later ih =>
    obtain ⟨hname, hcolon⟩ := hnames field mem_cons_self
    have hline := headerLine_field hname hcolon
    have hsplit : headers.1 ++ (field :: later).map asHeader =
        (headers.push (asHeader field) hline).1 ++ later.map asHeader := by
      rw [map_cons]
      show _ = headers.1 ++ [asHeader field] ++ _
      rw [append_assoc, singleton_append]
    rw [hsplit] at hone
    obtain ⟨out, hread, hout⟩ := @ih (headers.push (asHeader field) hline)
      (fun f hf => hnames f (mem_cons_of_mem _ hf))
      (fun f hf => hcoded f (mem_cons_of_mem _ hf)) hone
    refine ⟨out, ?_, by rw [hout, hsplit]⟩
    rw [map_cons, readHeaders]
    split
    · rename_i hnone
      rw [hline] at hnone
      cases hnone
    · rename_i header hheader
      obtain rfl := Option.some.inj (hline.symm.trans hheader)
      rw [if_neg (hcoded field mem_cons_self), if_neg]
      · exact hread
      · rintro ⟨hlength, hearlier⟩
        rw [hlength, any_named] at hearlier
        rw [named_append, length_append] at hone
        have hpush : named contentLengthName (headers.push (asHeader field) hline).1 =
            named contentLengthName headers.1 ++ [asHeader field] := by
          show named contentLengthName (headers.1 ++ [asHeader field]) = _
          rw [named_append, named_singleton, if_pos hlength]
        rw [hpush, length_append, length_singleton] at hone
        have := length_pos_iff.mpr hearlier
        omega

theorem readLines_ok {line method path version : Text} {lines : List Text} {headers : Headers}
    (hline : requestLine line = some (method, path, version))
    (hheaders : readHeaders ⟨[], fun _ h => absurd h not_mem_nil⟩ lines = .ok headers) :
    ∃ head, readLines (line :: lines) = .ok head ∧ head.method = method ∧ head.path = path ∧
      head.version = version ∧ head.headers = headers.1 := by
  unfold readLines
  dsimp only
  split
  · rename_i hnone
    rw [headD_cons, hline] at hnone
    cases hnone
  · rename_i method' path' version' hsome
    rw [headD_cons] at hsome
    obtain ⟨rfl, hrest⟩ := Prod.mk.inj (Option.some.inj (hline.symm.trans hsome))
    obtain ⟨rfl, rfl⟩ := Prod.mk.inj hrest
    rw [tail_cons, hheaders]
    exact ⟨_, rfl, rfl, rfl, rfl, rfl⟩

theorem readUsize_digits {value : ℕ} (h : digits.all isDigit = true)
    (hfits : digits.foldl (fun n c => n * 10 + (c.toNat - '0'.toNat)) value < usizeMax + 1) :
    readUsize value digits =
      .ok (digits.foldl (fun n c => n * 10 + (c.toNat - '0'.toNat)) value) := by
  induction digits generalizing value with
  | nil => rfl
  | cons c later ih =>
    obtain ⟨hdigit, hlater⟩ := Bool.and_eq_true_iff.mp h
    have hgrows : ∀ (text : Text) (n : ℕ),
        n ≤ text.foldl (fun n c => n * 10 + (c.toNat - '0'.toNat)) n := by
      intro text
      induction text with
      | nil => exact fun n => le_rfl
      | cons d text ihtext =>
        intro n
        have := ihtext (n * 10 + (d.toNat - '0'.toNat))
        rw [foldl_cons]
        omega
    rw [foldl_cons] at hfits ⊢
    have hstep := hgrows later (value * 10 + (c.toNat - '0'.toNat))
    rw [readUsize, if_pos hdigit, if_pos (by unfold usizeMax at hfits; omega)]
    exact ih hlater hfits

theorem parseUsize_digitsOnly (h : DigitsOnly value)
    (hfits : decimal value ≤ usizeMax) : parseUsize (trim value) = .ok (decimal value) := by
  obtain ⟨hne, hall⟩ := h
  have htrim : trim value = trimMatches isPadding value := by
    obtain ⟨left, right, hparts, hleft, hright⟩ := trimMatches_parts isPadding value
    have hbetween := @trimMatches_between isWhitespace left (trimMatches isPadding value) right
      (fun c hc => isWhitespace_of_isPadding (hleft c hc))
      (fun c hc => isWhitespace_of_isDigit (List.all_eq_true.mp hall c hc))
      (fun c hc => isWhitespace_of_isPadding (hright c hc))
    rw [← hparts] at hbetween
    exact hbetween
  have hplus : ¬(trimMatches isPadding value).head? = some '+' := by
    intro hhead
    obtain ⟨later, hlater⟩ := List.head?_eq_some_iff.mp hhead
    refine ne_plus_of_isDigit (List.all_eq_true.mp hall '+' ?_) rfl
    rw [hlater]
    exact mem_cons_self
  rw [htrim, parseUsize, if_neg hplus, if_neg hne, if_neg hne]
  exact readUsize_digits hall (Nat.lt_succ_of_le hfits)

namespace Segment

variable {segment : Segment}

theorem written_named (name : Text) :
    named name (segment.fields.map asHeader) =
      (segment.fields.filter fun field => field.1.map Char.toLower = name).map asHeader := by
  rw [named, List.filter_map]
  rfl

section

variable (h : segment.WellFormed limits)

include h

theorem requestText_plain : segment.requestText ≠ [] ∧ '\r' ∉ segment.requestText := by
  constructor
  · intro hnil
    exact h.method.1 (append_eq_nil_iff.mp hnil).1
  · intro hmem
    rcases mem_append.mp hmem with hmem | hmem
    · exact h.method.no_return hmem
    · rcases mem_cons.mp hmem with hmem | hmem
      · revert hmem
        decide
      · rcases mem_append.mp hmem with hmem | hmem
        · exact h.path.no_return hmem
        · rcases mem_cons.mp hmem with hmem | hmem
          · revert hmem
            decide
          · exact h.version.no_return hmem

theorem lines_plain : ∀ line ∈ segment.lines, line ≠ [] ∧ '\r' ∉ line := by
  intro line hline
  rcases mem_cons.mp hline with rfl | hline
  · exact requestText_plain h
  · obtain ⟨field, hfield, rfl⟩ := List.mem_map.mp hline
    constructor
    · intro hnil
      exact (h.names field hfield).1.1 (append_eq_nil_iff.mp hnil).1
    · intro hmem
      rcases mem_append.mp hmem with hmem | hmem
      · exact (h.names field hfield).1.no_return hmem
      · rcases mem_cons.mp hmem with hmem | hmem
        · revert hmem
          decide
        · exact (h.values field hfield).1 hmem

theorem written_le_one : (named contentLengthName (segment.fields.map asHeader)).length ≤ 1 := by
  rw [written_named, length_map]
  have hlength : (segment.written contentLengthName).length ≤ 1 := by
    rcases h.framed with ⟨hnone, -⟩ | ⟨value, hone, -⟩
    · rw [hnone]
      exact Nat.zero_le 1
    · rw [hone]
      exact le_rfl
  rw [written, length_map] at hlength
  exact hlength

theorem uncoded_fields : ∀ field ∈ segment.fields, (asHeader field).1 ≠ transferEncoding := by
  intro field hfield hname
  have hmem : field.2 ∈ segment.written transferEncoding :=
    List.mem_map_of_mem (mem_filter.mpr ⟨hfield, decide_eq_true hname⟩)
  rw [h.uncoded] at hmem
  cases hmem

theorem parseHead_heads :
    ∃ head, parseHead (utf8 segment.headText) = .ok head ∧ segment.Heads head := by
  obtain ⟨headers, hheaders, hout⟩ := @readHeaders_fields segment.fields
    ⟨[], fun _ h => absurd h not_mem_nil⟩ h.names (uncoded_fields h) (written_le_one h)
  obtain ⟨head, hread, hmethod, hpath, hversion, hfields⟩ :=
    readLines_ok (requestLine_words h.method h.path h.version h.http) hheaders
  refine ⟨head, ?_, hmethod, hpath, hversion, hfields.trans hout⟩
  rw [parseHead, fromUtf8_utf8]
  show readLines (splitLines (crlf.intercalate segment.lines)) = _
  have hlines : splitLines (crlf.intercalate segment.lines) = segment.lines :=
    splitLines_intercalate (cons_ne_nil _ _) (fun line hline => (lines_plain h line hline).2)
  rw [hlines]
  exact hread

/-- The body it declares is its own. -/
theorem contentLength_heads
    (hheads : segment.Heads head) : head.contentLength = .ok segment.body.length := by
  have hheader : head.header contentLengthName =
      ((segment.written contentLengthName).head?).map trim := by
    rw [header_named, hheads.2.2.2, written_named, written]
    cases segment.fields.filter fun field => field.1.map Char.toLower = contentLengthName with
    | _ => rfl
  rw [Head.contentLength, hheader]
  rcases h.framed with ⟨hnone, hbody⟩ | ⟨value, hone, hdigits, hvalue⟩
  · rw [hnone, hbody]
    dsimp only [List.head?_nil, map_none]
    rw [(h.admitted head hheads).1 hnone]
    rfl
  · have hfits : decimal value ≤ usizeMax := by
      have := h.held.2
      have := isizeMax_lt_usizeMax
      omega
    rw [hone]
    dsimp only [List.head?_cons, map_some]
    rw [parseUsize_digitsOnly hdigits hfits, hvalue]
    rfl

/-- A well-formed request is found at the start of a stream, and accepted. -/
theorem declares (later : Bytes) :
    ∃ head, segment.Heads head ∧
      Declares limits (segment.bytes ++ later) (utf8 segment.headText).length head
        segment.body.length := by
  obtain ⟨head, hparse, hheads⟩ := parseHead_heads h
  have hstream : segment.bytes ++ later =
      utf8 segment.headText ++ (headEnd ++ (segment.body ++ later)) := by
    rw [bytes, append_assoc, append_assoc]
  have htake : (segment.bytes ++ later).take (utf8 segment.headText).length =
      utf8 segment.headText := by
    rw [hstream, take_left]
  refine ⟨head, hheads, ?_, h.bounded, h.held.1, by rw [htake]; exact hparse, ?_⟩
  · rw [hstream]
    exact find_intercalate (cons_ne_nil _ _) (lines_plain h) _
  · have hlength := contentLength_heads h hheads
    unfold Head.bodyLength
    rw [hlength]
    dsimp only [bind, Except.bind]
    cases hmost : head.maxBodyBytes limits with
    | none => rfl
    | some most =>
      dsimp only
      rw [if_neg (Nat.not_lt.mpr ((h.admitted head hheads).2 most hmost))]
      rfl

end

end Segment

end Stado.Http
