import Stado.Http.Heads
import Stado.S3.Trailers

/-!
# Writing aws-chunked bodies

The framing a client writes of its chunks and trailing headers, which is read
back; and the chain of signatures, which tells one signed body from another.
-/

namespace Stado.S3.Listener.Chunked

open Sigv4 List Percent
open Directory (isWhitespace)
open Http (isizeMax trimMatches_between)

variable {hashes : Hashes} {signer : Signer} {signed trailer : Bool} {text : Text}

/-! ## Hexadecimal texts -/

def Hexadecimal (text : Text) : Prop := ∀ c ∈ text, (digitValue c).isSome = true

theorem Hexadecimal.append {left right : Text} (hleft : Hexadecimal left)
    (hright : Hexadecimal right) : Hexadecimal (left ++ right) := by
  intro c hc
  rcases mem_append.mp hc with hc | hc
  · exact hleft c hc
  · exact hright c hc

theorem Hexadecimal.not_mem (h : Hexadecimal text) {c : Char}
    (hc : digitValue c = none) : c ∉ text := by
  intro hmem
  have hsome := h c hmem
  rw [hc] at hsome
  cases hsome

theorem isWhitespace_of_digit {c : Char} (h : (digitValue c).isSome = true) :
    isWhitespace c = false := by
  obtain ⟨d, hd⟩ := Option.isSome_iff_exists.mp h
  obtain ⟨-, hascii⟩ := digitValue_range hd
  have hall : ∀ n < 128, (digitValue (Char.ofNat n)).isSome = true →
      isWhitespace (Char.ofNat n) = false := by decide
  have hc := hall c.toNat hascii
  rw [Char.ofNat_toNat] at hc
  exact hc h

theorem Hexadecimal.trim_eq (h : Hexadecimal text) : trim text = text := by
  have hkept := @trimMatches_between isWhitespace [] text [] nofun
    (fun c hc => isWhitespace_of_digit (h c hc)) nofun
  rw [nil_append, append_nil] at hkept
  exact hkept

/-- A text without carriage returns is one line. -/
theorem oneLine_of_plain (h : '\r' ∉ text) : OneLine text := by
  have hbytes : (13 : UInt8) ∉ utf8 text := by
    intro hmem
    obtain ⟨c, hc, hbyte⟩ := mem_flatMap.mp hmem
    have hreturn : c.toNat = '\r'.toNat := ascii_byte hbyte (by decide)
    exact h (Char.toNat_inj.mp hreturn ▸ hc)
  have hfind : ∀ bytes : Bytes, (13 : UInt8) ∉ bytes →
      Cuts.find lineEnd (bytes ++ lineEnd) = some bytes.length := by
    intro bytes hplain
    induction bytes with
    | nil => decide
    | cons b later ih =>
      have hb : b ≠ 13 := fun heq => hplain (heq ▸ mem_cons_self)
      have hlater := ih (not_mem_of_not_mem_cons hplain)
      rw [lineEnd] at hlater ⊢
      rw [cons_append, Cuts.find_cons_ne hb, hlater]
      rfl
  exact hfind _ hbytes

/-! ## Sizes -/

/-- The size of a chunk, as it is written. -/
def sizeText (size : ℕ) : Text := Nat.toDigits 16 size

variable {d size : ℕ} {chunks : List Bytes} {mark : Text} {previous : Text}

theorem digitValue_digitChar (h : d < 16) : digitValue d.digitChar = some d := by
  revert d
  decide

theorem sizeText_hexadecimal (size : ℕ) : Hexadecimal (sizeText size) := by
  induction size using Nat.strongRecOn with
  | ind n ih =>
    have hlast : Hexadecimal [(n % 16).digitChar] := by
      intro c hc
      obtain rfl := mem_singleton.mp hc
      rw [digitValue_digitChar (Nat.mod_lt n (by decide))]
      rfl
    by_cases hn : n < 16
    · rw [sizeText, Nat.toDigits_of_lt_base hn]
      rwa [Nat.mod_eq_of_lt hn] at hlast
    · rw [sizeText, Nat.toDigits_of_base_le (by decide) (by omega)]
      exact (ih (n / 16) (by omega)).append hlast

theorem readHex_append (value : ℕ) (left right : Text) :
    readHex value (left ++ right) = readHex value left >>= fun read => readHex read right := by
  induction left generalizing value with
  | nil => rfl
  | cons c later ih =>
    rw [cons_append, readHex, readHex]
    cases digitValue c with
    | none => rfl
    | some d =>
      dsimp only
      split_ifs
      · exact ih _
      · rfl

theorem readHex_digitChar {value d : ℕ} (hd : d < 16)
    (hfits : value * 16 + d < 18446744073709551616) :
    readHex value [d.digitChar] = .ok (value * 16 + d) := by
  rw [readHex, digitValue_digitChar hd]
  dsimp only
  rw [if_pos hfits, readHex]

theorem readHex_sizeText (h : size < 18446744073709551616) :
    readHex 0 (sizeText size) = .ok size := by
  induction size using Nat.strongRecOn with
  | ind n ih =>
    by_cases hn : n < 16
    · rw [sizeText, Nat.toDigits_of_lt_base hn, readHex_digitChar hn (by omega), Nat.zero_mul,
        Nat.zero_add]
    · have hbefore := ih (n / 16) (by omega) (by omega)
      rw [sizeText] at hbefore
      rw [sizeText, Nat.toDigits_of_base_le (by decide) (by omega), readHex_append, hbefore]
      have hsum : n / 16 * 16 + n % 16 = n := by omega
      have hlast := @readHex_digitChar (n / 16) (n % 16) (by omega) (by omega)
      rw [hsum] at hlast
      exact hlast

theorem parseHex_sizeText (h : size < 18446744073709551616) :
    parseHex (sizeText size) = .ok size := by
  have hne : sizeText size ≠ [] := Nat.toDigits_ne_nil
  have hplus : (sizeText size).head? ≠ some '+' := by
    intro hhead
    exact (sizeText_hexadecimal size).not_mem (by decide) (mem_of_head? hhead)
  unfold parseHex
  rw [if_neg hplus, if_neg hne, if_neg hne, readHex_sizeText h]

/-! ## Signatures -/

theorem hexDigit_isSome (h : d < 16) : (digitValue (digit d).toLower).isSome = true := by
  revert d
  decide

theorem hexDigit_value (h : d < 16) : digitValue (digit d).toLower = some d := by
  revert d
  decide

theorem hexEncode_hexadecimal (bytes : Bytes) : Hexadecimal (hexEncode bytes) := by
  intro c hc
  obtain ⟨b, -, hdigit⟩ := mem_flatMap.mp hc
  have hb := b.toNat_lt
  rcases mem_cons.mp hdigit with rfl | hdigit
  · exact hexDigit_isSome (by omega)
  · obtain rfl := mem_singleton.mp hdigit
    exact hexDigit_isSome (by omega)

theorem hexEncode_cons (b : UInt8) (later : Bytes) :
    hexEncode (b :: later) = (digit (b.toNat / 16)).toLower ::
      (digit (b.toNat % 16)).toLower :: hexEncode later := rfl

theorem hexEncode_injective : Function.Injective hexEncode := by
  intro bytes
  induction bytes with
  | nil =>
    intro other h
    cases other with
    | nil => rfl
    | cons b later =>
      rw [hexEncode_cons] at h
      cases h
  | cons b later ih =>
    intro other h
    cases other with
    | nil =>
      rw [hexEncode_cons] at h
      cases h
    | cons b' later' =>
      rw [hexEncode_cons, hexEncode_cons] at h
      obtain ⟨hhigh, h⟩ := List.cons.inj h
      obtain ⟨hlow, h⟩ := List.cons.inj h
      have hb := b.toNat_lt
      have hb' := b'.toNat_lt
      have hhighs := congrArg digitValue hhigh
      have hlows := congrArg digitValue hlow
      rw [hexDigit_value (by omega), hexDigit_value (by omega)] at hhighs hlows
      have hbyte : b.toNat = b'.toNat := by
        have h1 := Option.some.inj hhighs
        have h2 := Option.some.inj hlows
        omega
      rw [UInt8.toNat_inj.mp hbyte, ih h]

theorem signature_hexadecimal (key : Bytes) (text : Text) :
    Hexadecimal (signature hashes key text) := hexEncode_hexadecimal _

/-! ## Bodies as they are written -/

def chunkLine (signed : Bool) (size : ℕ) (mark : Text) : Text :=
  if signed then sizeText size ++ ';' :: (chunkSignatureName ++ mark) else sizeText size

def framedChunks (hashes : Hashes) (signer : Signer) (signed : Bool) (previous : Text) :
    List Bytes → List (Text × Bytes)
  | [] => []
  | chunk :: later =>
    let mark := chunkSignature hashes signer previous chunk
    (chunkLine signed chunk.length mark, chunk) :: framedChunks hashes signer signed mark later

def trailerFields (hashes : Hashes) (signer : Signer) (signed trailer : Bool)
    (chunks : List Bytes) (trailers : TrailerHeaders) : List (Text × Text) :=
  if signed = true ∧ trailer = true then
    trailers ++ [(trailerSignatureName, trailerSignature hashes signer
      (Chains.mark (chunkSignature hashes signer) signer.seed (chunks ++ [[]])) trailers)]
  else trailers

def lastLine (hashes : Hashes) (signer : Signer) (signed : Bool) (chunks : List Bytes) : Text :=
  chunkLine signed 0 (chunkSignature hashes signer
    (Chains.mark (chunkSignature hashes signer) signer.seed chunks) [])

def encode (hashes : Hashes) (signer : Signer) (signed trailer : Bool) (chunks : List Bytes)
    (trailers : TrailerHeaders) : Bytes :=
  chunkBytes (framedChunks hashes signer signed signer.seed chunks) ++
    (lineBytes (lastLine hashes signer signed chunks) ++
      (trailerBytes (trailerFields hashes signer signed trailer chunks trailers) ++ lineEnd))

/-- A trailing header that stands for itself on its line. -/
def Writable (field : Text × Text) : Prop :=
  OnLine field ∧ trailerField field.1 field.2 = field ∧ field.1 ≠ trailerSignatureName

theorem fields_chunkLine (signed : Bool) (size : ℕ) (mark : Text) :
    fields (chunkLine signed size mark) =
      (sizeText size, if signed then chunkSignatureName ++ mark else []) := by
  have hplain : ';' ∉ sizeText size := (sizeText_hexadecimal size).not_mem (by decide)
  unfold fields chunkLine
  cases signed with
  | false =>
    have hnone : splitOnce ';' (sizeText size) = none := by
      rw [Option.eq_none_iff_forall_ne_some]
      rintro ⟨left, right⟩ hsome
      rw [(splitOnce_some.mp hsome).1] at hplain
      exact hplain (mem_append_right _ mem_cons_self)
    simp only [Bool.false_eq_true, if_false, hnone, Option.getD_none]
  | true => simp only [if_true, splitOnce_append hplain, Option.getD_some]

theorem chunkLine_sizes (h : size < 18446744073709551616)
    (hmark : Hexadecimal mark) : Sizes (chunkLine signed size mark) size := by
  have hsize := sizeText_hexadecimal size
  constructor
  · apply oneLine_of_plain
    unfold chunkLine
    split_ifs
    · intro hmem
      rcases mem_append.mp hmem with hmem | hmem
      · exact hsize.not_mem (by decide) hmem
      · rcases mem_append.mp (mem_of_ne_of_mem (by decide) hmem) with hmem | hmem
        · revert hmem
          decide
        · exact hmark.not_mem (by decide) hmem
    · exact hsize.not_mem (by decide)
  · rw [fields_chunkLine, hsize.trim_eq, parseHex_sizeText h]

theorem provided_chunkLine (size : ℕ) (mark : Text) (chunk : Bytes) :
    provided (chunkLine true size mark, chunk) = some mark := by
  rw [provided, fields_chunkLine, if_pos rfl, stripPrefix_append]

theorem framedChunks_chunks (previous : Text) (chunks : List Bytes) :
    (framedChunks hashes signer signed previous chunks).map Prod.snd = chunks := by
  induction chunks generalizing previous with
  | nil => rfl
  | cons chunk later ih =>
    rw [framedChunks, map_cons, ih]

theorem framedChunks_chunk (hne : ∀ c ∈ chunks, c ≠ [])
    (hfit : ∀ c ∈ chunks, c.length < 18446744073709551616) :
    ∀ framed ∈ framedChunks hashes signer signed previous chunks, Chunk framed := by
  induction chunks generalizing previous with
  | nil => exact nofun
  | cons chunk later ih =>
    obtain ⟨hchunk, hlater⟩ := forall_mem_cons.mp hne
    obtain ⟨hfits, hfitting⟩ := forall_mem_cons.mp hfit
    rw [framedChunks]
    refine forall_mem_cons.mpr ⟨⟨?_, hchunk⟩, ih hlater hfitting⟩
    exact chunkLine_sizes hfits (signature_hexadecimal _ _)

theorem framedChunks_provided (previous : Text) (chunks : List Bytes) :
    (framedChunks hashes signer true previous chunks).map provided =
      (Chains.marks (chunkSignature hashes signer) previous chunks).map some := by
  induction chunks generalizing previous with
  | nil => rfl
  | cons chunk later ih =>
    rw [framedChunks, map_cons, ih, provided_chunkLine]
    rfl

theorem chunk_length_le {chunks : List Bytes} {chunk : Bytes} (h : chunk ∈ chunks) :
    chunk.length ≤ (chunkBytes (framedChunks hashes signer signed previous chunks)).length := by
  induction chunks generalizing previous with
  | nil => cases h
  | cons first later ih =>
    rw [framedChunks, chunkBytes, flatMap_cons, length_append, length_append, length_append]
    rcases mem_cons.mp h with rfl | hlater
    · dsimp only
      omega
    · have hle := @ih (chunkSignature hashes signer previous first) hlater
      rw [chunkBytes] at hle
      omega

theorem readFields_writable {fields : List (Text × Text)} (h : ∀ field ∈ fields, Writable field) :
    readFields fields = fields := by
  rw [readFields, map_congr_left fun field hfield => (h field hfield).2.1, List.map_id']

theorem headersOf_writable {fields : List (Text × Text)} (h : ∀ field ∈ fields, Writable field) :
    headersOf fields = fields := by
  rw [headersOf, readFields_writable h, filter_eq_self]
  intro field hfield
  exact decide_eq_true (h field hfield).2.2

theorem signatureField (h : Hexadecimal mark) :
    OnLine (trailerSignatureName, mark) ∧
      trailerField trailerSignatureName mark = (trailerSignatureName, mark) := by
  have hname : ':' ∉ trailerSignatureName ∧ '\r' ∉ trailerSignatureName := by decide
  refine ⟨⟨hname.1, ?_⟩, ?_⟩
  · apply oneLine_of_plain
    intro hmem
    rcases mem_append.mp hmem with hmem | hmem
    · exact hname.2 hmem
    · exact h.not_mem (by decide) (mem_of_ne_of_mem (by decide) hmem)
  · rw [trailerField, h.trim_eq]
    exact congrArg (fun name => (name, mark)) (by decide)

theorem headersOf_signed {fields : List (Text × Text)} (h : ∀ field ∈ fields, Writable field)
    (hmark : Hexadecimal mark) :
    headersOf (fields ++ [(trailerSignatureName, mark)]) = fields ∧
      signatureOf (fields ++ [(trailerSignatureName, mark)]) = some mark := by
  have hread : readFields (fields ++ [(trailerSignatureName, mark)]) =
      fields ++ [(trailerSignatureName, mark)] := by
    have hlast := (signatureField hmark).2
    unfold readFields
    rw [map_append, map_singleton, hlast]
    exact congrArg (· ++ [(trailerSignatureName, mark)]) (readFields_writable h)
  have hkept := headersOf_writable h
  rw [headersOf, readFields_writable h] at hkept
  constructor
  · rw [headersOf, hread, filter_append, hkept, filter_singleton,
      decide_eq_false (not_not.mpr rfl), cond_false, append_nil]
  · rw [signatureOf, hread, filter_append, filter_singleton, decide_eq_true rfl,
      cond_true, List.getLast?_concat]
    rfl

def written (hashes : Hashes) (signer : Signer) {signed trailer : Bool} {chunks : List Bytes}
    {trailers : TrailerHeaders} (hne : ∀ chunk ∈ chunks, chunk ≠ [])
    (hwritable : ∀ field ∈ trailers, Writable field) (huntrailed : trailer = false → trailers = [])
    (hlength : (encode hashes signer signed trailer chunks trailers).length ≤ isizeMax) :
    Framing hashes signer signed trailer where
  chunks := framedChunks hashes signer signed signer.seed chunks
  last := lastLine hashes signer signed chunks
  fields := trailerFields hashes signer signed trailer chunks trailers
  sized := by
    refine framedChunks_chunk hne ?_
    intro chunk hchunk
    have hle := @chunk_length_le hashes signer signed signer.seed chunks chunk hchunk
    have hbytes : (chunkBytes (framedChunks hashes signer signed signer.seed chunks)).length ≤
        (encode hashes signer signed trailer chunks trailers).length :=
      (prefix_append _ _).length_le
    have hmax : isizeMax < 18446744073709551616 := by decide
    omega
  ended := chunkLine_sizes (by decide) (signature_hexadecimal _ _)
  marked := by
    rintro rfl
    rw [map_append, framedChunks_provided, map_append, framedChunks_chunks,
      Chains.marks_append, map_append]
    refine congrArg (_ ++ ·) ?_
    rw [map_singleton, lastLine, provided_chunkLine]
    rfl
  lined := by
    intro field hfield
    unfold trailerFields at hfield
    split_ifs at hfield with hsigned
    · rcases mem_append.mp hfield with hfield | hfield
      · exact (hwritable field hfield).1
      · obtain rfl := mem_singleton.mp hfield
        exact (signatureField (signature_hexadecimal _ _)).1
    · exact (hwritable field hfield).1
  untrailed := by
    intro htrailer
    rw [trailerFields, if_neg fun h => Bool.false_ne_true (htrailer.symm.trans h.2)]
    exact huntrailed htrailer
  stated := by
    rintro rfl rfl
    rw [framedChunks_chunks, trailerFields, if_pos ⟨rfl, rfl⟩]
    have hsigned := headersOf_signed hwritable (@signature_hexadecimal hashes signer.key
      (trailerText hashes signer (Chains.mark (chunkSignature hashes signer) signer.seed
        (chunks ++ [[]])) trailers))
    rw [← trailerSignature] at hsigned
    rw [hsigned.1, hsigned.2]
    rfl

/-- What a client writes is read back. -/
theorem written_read (hashes : Hashes) (signer : Signer)
    {trailers : TrailerHeaders} (hne : ∀ chunk ∈ chunks, chunk ≠ [])
    (hwritable : ∀ field ∈ trailers, Writable field) (huntrailed : trailer = false → trailers = [])
    (hlength : (encode hashes signer signed trailer chunks trailers).length ≤ isizeMax) :
    dechunk hashes (encode hashes signer signed trailer chunks trailers) signer signed trailer =
      some (.ok (chunks.flatten, trailers)) := by
  obtain ⟨result, hrun, hspec⟩ := @dechunk_spec hashes signer signed trailer _ hlength
  rw [hrun, (hspec chunks.flatten trailers).mpr]
  refine ⟨written hashes signer hne hwritable huntrailed hlength, rfl, ?_, ?_⟩
  · show (framedChunks hashes signer signed signer.seed chunks).flatMap Prod.snd = chunks.flatten
    rw [flatMap_def, framedChunks_chunks]
  · show headersOf (trailerFields hashes signer signed trailer chunks trailers) = trailers
    unfold trailerFields
    split_ifs with hsigned
    · exact (headersOf_signed hwritable (signature_hexadecimal _ _)).1
    · exact headersOf_writable hwritable

/-! ## Signatures that tell what they sign -/

/-- Hashes without collisions. -/
structure Injective (hashes : Hashes) : Prop where
  digests : Function.Injective hashes.sha256
  macs : ∀ key key' text text', hashes.hmac key text = hashes.hmac key' text' → text = text'

def RequestSignature (hashes : Hashes) (mark : Text) : Prop :=
  ∃ key amzDate scope canonical, mark = signature hashes key
    (stringToSign hashes amzDate scope canonical)

theorem utf8_injective : Function.Injective utf8 := by
  intro left right h
  have hread := congrArg fromUtf8 h
  rw [fromUtf8_utf8, fromUtf8_utf8] at hread
  exact Option.some.inj hread

theorem signature_tells (h : Injective hashes) {key key' : Bytes} {text text' : Text}
    (hsame : signature hashes key text = signature hashes key' text') : text = text' :=
  utf8_injective (h.macs _ _ _ _ (hexEncode_injective hsame))

theorem hexSha256_tells (h : Injective hashes) {bytes bytes' : Bytes}
    (hsame : hexSha256 hashes bytes = hexSha256 hashes bytes') : bytes = bytes' :=
  h.digests (hexEncode_injective hsame)

theorem cut_last {separator : Char} {before before' after after' : Text}
    (hafter : separator ∉ after) (hafter' : separator ∉ after')
    (h : before ++ separator :: after = before' ++ separator :: after') :
    before = before' ∧ after = after' := by
  have hcut := @Directory.rsplitOnce_append separator before after hafter
  rw [h, Directory.rsplitOnce_append hafter'] at hcut
  obtain ⟨hbefore, hafters⟩ := Prod.mk.inj (Option.some.inj hcut)
  exact ⟨hbefore.symm, hafters.symm⟩

theorem chunkText_eq (signer : Signer) (previous : Text) (chunk : Bytes) :
    chunkText hashes signer previous chunk =
      ((("AWS4-HMAC-SHA256-PAYLOAD".toList ++ '\n' :: signer.amzDate ++ '\n' ::
        signer.scope.render) ++ '\n' :: previous) ++ '\n' :: hexSha256 hashes []) ++
          '\n' :: hexSha256 hashes chunk := by
  simp [chunkText, join, List.intercalate]

theorem chunkText_starts (hashes : Hashes) (signer : Signer) (previous : Text) (chunk : Bytes) :
    ∃ rest, chunkText hashes signer previous chunk = algorithm ++ '-' :: rest := by
  have hname : "AWS4-HMAC-SHA256-PAYLOAD".toList = algorithm ++ '-' :: "PAYLOAD".toList := by decide
  rw [chunkText_eq, hname]
  simp only [append_assoc, cons_append]
  exact ⟨_, rfl⟩

theorem stringToSign_starts (hashes : Hashes) (amzDate : Text) (scope : Scope) (canonical : Text) :
    ∃ rest, stringToSign hashes amzDate scope canonical = algorithm ++ '\n' :: rest :=
  ⟨_, rfl⟩

/-- Chunk signatures tell the signature before them and their chunk, and none is the
signature of a request. -/
theorem chunkSignature_telling (h : Injective hashes) :
    Chains.Telling (chunkSignature hashes) (RequestSignature hashes) where
  tells := by
    have hplain : ∀ {mark}, Chains.Stands (chunkSignature hashes) (RequestSignature hashes) mark →
        '\n' ∉ mark := by
      intro mark hstands
      cases hstands with
      | seed hseed =>
        obtain ⟨key, amzDate, scope, canonical, rfl⟩ := hseed
        exact (signature_hexadecimal _ _).not_mem (by decide)
      | mark k s a => exact (signature_hexadecimal _ _).not_mem (by decide)
    intro signer signer' previous previous' chunk chunk' hprevious hprevious' hsame
    have htexts := signature_tells h hsame
    rw [chunkText_eq, chunkText_eq] at htexts
    have hdigest : ∀ bytes, '\n' ∉ hexSha256 hashes bytes :=
      fun bytes => (hexEncode_hexadecimal _).not_mem (by decide)
    obtain ⟨htexts, hchunk⟩ := cut_last (hdigest _) (hdigest _) htexts
    obtain ⟨htexts, -⟩ := cut_last (hdigest _) (hdigest _) htexts
    obtain ⟨-, hmark⟩ := cut_last (hplain hprevious) (hplain hprevious') htexts
    exact ⟨hmark, hexSha256_tells h hchunk⟩
  seeds := by
    rintro signer previous chunk ⟨key, amzDate, scope, canonical, hsame⟩
    have htexts := signature_tells h hsame
    obtain ⟨rest, hrest⟩ := chunkText_starts hashes signer previous chunk
    obtain ⟨rest', hrest'⟩ := stringToSign_starts hashes amzDate scope canonical
    rw [hrest, hrest'] at htexts
    obtain ⟨hdash, -⟩ := List.cons.inj (append_cancel_left htexts)
    revert hdash
    decide

end Stado.S3.Listener.Chunked
