import Stado.S3.Chunking

/-!
# A signed write is framed by what it returns

Unframing never reads outside the body, reads back what a client writes, and
accepts nothing but framings; and the chunk signatures of a signed body are the
chain from its request's own.
-/

namespace Stado.S3.Listener

open Sigv4 List
open Chunked
open Http (isizeMax)

def Admitted (hashes : Hashes) (signer : Signer) : Prop :=
  ∃ listener now request rawPath query, listener.hashes = hashes ∧
    s3Signer listener now request rawPath query = .ok signer

theorem ensure_ok {condition : Prop} [Decidable condition] {refusal : S3Error} {u : Unit}
    (h : ensure condition refusal = .ok u) : condition := by
  unfold ensure at h
  split_ifs at h with hcondition
  exact hcondition

theorem bind_ok {ε α β : Type} {first : Except ε α} {next : α → Except ε β} {b : β}
    (h : first >>= next = .ok b) : ∃ a, first = .ok a ∧ next a = .ok b := by
  cases first with
  | error e => cases h
  | ok a => exact ⟨a, rfl, h⟩

variable {signer : Signer} {hashes : Hashes}

theorem Admitted.seed (h : Admitted hashes signer) : RequestSignature hashes signer.seed := by
  obtain ⟨listener, now, request, rawPath, query, rfl, hsigner⟩ := h
  obtain ⟨claim, -, hverified⟩ := bind_ok hsigner
  unfold verifyClaim at hverified
  obtain ⟨⟨accessKey, rawScope⟩, -, hverified⟩ := bind_ok hverified
  obtain ⟨scope, -, hverified⟩ := bind_ok hverified
  obtain ⟨_, -, hverified⟩ := bind_ok hverified
  obtain ⟨namespaces, -, hverified⟩ := bind_ok hverified
  obtain ⟨policy, -, hverified⟩ := bind_ok hverified
  obtain ⟨secret, -, hverified⟩ := bind_ok hverified
  obtain ⟨headers, -, hverified⟩ := bind_ok hverified
  obtain ⟨_, hmatch, hverified⟩ := bind_ok hverified
  obtain rfl := Except.ok.inj hverified
  exact ⟨_, _, _, _, (ensure_ok hmatch).symm⟩

/-! ## The signatures of a body -/

namespace Chunked

variable {hashes : Hashes} {signer : Signer} {signed trailer : Bool}

def Framing.lines (framing : Framing hashes signer signed trailer) : List (Text × Bytes) :=
  framing.chunks ++ [(framing.last, [])]

/-- Every chunk with the signature its line provides. -/
def Framing.links (framing : Framing hashes signer signed trailer) : List (Bytes × Option Text) :=
  framing.lines.map fun line => (line.2, provided line)

theorem Framing.lines_pieces (framing : Framing hashes signer signed trailer) :
    framing.lines.map Prod.snd = framing.pieces := by
  rw [lines, map_append]
  rfl

/-- The signatures of a signed body are the chain from the request's. -/
theorem Framing.signatures (framing : Framing hashes signer true trailer) :
    framing.lines.map provided =
      (Chains.marks (chunkSignature hashes signer) signer.seed framing.pieces).map some := by
  rw [← framing.lines_pieces]
  exact framing.marked rfl

theorem Framing.links_eq (framing : Framing hashes signer true trailer) :
    framing.links = (Chains.links (chunkSignature hashes signer) signer.seed framing.pieces).map
      fun link => (link.1, some link.2) := by
  have hzip : framing.links = framing.pieces.zip (framing.lines.map provided) := by
    rw [← framing.lines_pieces, zip_map']
    rfl
  rw [hzip, framing.signatures, zip_map_right]
  rfl

/-- Chunks that end at the first empty one are all of them. -/
theorem eq_of_prefix {chunks chunks' : List Bytes} (hne : ∀ chunk ∈ chunks', chunk ≠ [])
    (h : chunks ++ [[]] <+: chunks' ++ [[]]) : chunks = chunks' := by
  rcases prefix_concat_iff.mp h with hsame | hwithin
  · exact append_cancel_right hsame
  · have hempty := hwithin.subset (mem_append_right chunks (mem_singleton_self []))
    exact absurd rfl (hne [] hempty)

/-- One signed body that the endpoint accepts, and the request it came with. -/
structure Sent (hashes : Hashes) where
  signer : Signer
  trailer : Bool
  framing : Framing hashes signer true trailer
  admitted : Admitted hashes signer

theorem Sent.ne_nil {sent : Sent hashes} {chunk : Bytes}
    (h : chunk ∈ sent.framing.chunks.map Prod.snd) : chunk ≠ [] := by
  obtain ⟨framed, hframed, rfl⟩ := List.mem_map.mp h
  exact (sent.framing.sized framed hframed).2

/-- A signed body made of signed chunks of others is one of them. -/
theorem Sent.spliced (h : Injective hashes) {pool : Set (Sent hashes)} (sent : Sent hashes)
    (hlinks : ∀ link ∈ sent.framing.links, ∃ other ∈ pool, link ∈ other.framing.links) :
    ∃ other ∈ pool, other.signer.seed = sent.signer.seed ∧
      other.framing.links = sent.framing.links := by
  let chains : Set (Signer × Text × List Bytes) :=
    (fun other : Sent hashes => (other.signer, other.signer.seed, other.framing.pieces)) '' pool
  have hpool : ∀ chain ∈ chains, RequestSignature hashes chain.2.1 := by
    rintro chain ⟨other, -, rfl⟩
    exact other.admitted.seed
  have hne : sent.framing.pieces ≠ [] := by
    intro hnil
    exact cons_ne_nil _ _ (append_eq_nil_iff.mp hnil).2
  -- a link with its signature is a link of the chain it comes from
  have hinner : Function.Injective fun link : Bytes × Text => (link.1, some link.2) := by
    rintro ⟨chunk, mark⟩ ⟨chunk', mark'⟩ heq
    obtain ⟨rfl, hmark⟩ := Prod.mk.inj heq
    exact congrArg (Prod.mk chunk) (Option.some.inj hmark)
  have hchains : ∀ link ∈ Chains.links (chunkSignature hashes sent.signer) sent.signer.seed
      sent.framing.pieces, ∃ chain ∈ chains,
        link ∈ Chains.links (chunkSignature hashes chain.1) chain.2.1 chain.2.2 := by
    intro link hlink
    have hmem : (link.1, some link.2) ∈ sent.framing.links := by
      rw [Framing.links_eq]
      exact List.mem_map_of_mem hlink
    obtain ⟨other, hother, hfound⟩ := hlinks _ hmem
    refine ⟨_, ⟨other, hother, rfl⟩, ?_⟩
    rw [Framing.links_eq] at hfound
    exact (List.mem_map_of_injective hinner).mp hfound
  obtain ⟨_, ⟨other, hother, rfl⟩, hseed, hprefix, hsame⟩ :=
    Chains.prefix_of_pool (chunkSignature_telling h) sent.admitted.seed hpool hne hchains
  have hchunks := eq_of_prefix (fun chunk hchunk => other.ne_nil hchunk) hprefix
  have hpieces : other.framing.pieces = sent.framing.pieces := by
    rw [Framing.pieces, Framing.pieces, hchunks]
  refine ⟨other, hother, hseed, ?_⟩
  rw [Framing.links_eq, Framing.links_eq, hsame, hpieces]

end Chunked

theorem body_spec {decodes : Text → Option Bytes} {digest : Text → Bytes → Option Text}
    {request : Request} {signed trailer : Bool} (hbody : request.body.length ≤ isizeMax)
    (hpayload : signer.payload = .streaming signed trailer) :
    ∃ result, body hashes decodes digest request signer = some result ∧
      ∀ data, result = .ok data → ∃ framing : Framing hashes signer signed trailer,
        framing.bytes = request.body ∧ framing.data = data := by
  obtain ⟨unframed, hrun, hspec⟩ := @dechunk_spec hashes signer signed trailer _ hbody
  have hunframe : unframe hashes request signer = some unframed := by
    rw [unframe, hpayload]
    exact hrun
  rw [body, hunframe]
  refine ⟨_, rfl, ?_⟩
  intro data hok
  obtain ⟨⟨found, trailers⟩, hfound, hok⟩ := bind_ok hok
  obtain ⟨_, -, hok⟩ := bind_ok hok
  obtain ⟨_, -, hok⟩ := bind_ok hok
  obtain ⟨_, -, hok⟩ := bind_ok hok
  obtain rfl := Except.ok.inj hok
  obtain ⟨framing, hbytes, hdata, -⟩ := (hspec found trailers).mp hfound
  exact ⟨framing, hbytes, hdata⟩

theorem chunks_framed (hashes : Hashes) :
    (∀ signer signed trailer (body : Bytes), body.length ≤ isizeMax →
      ∃ result, dechunk hashes body signer signed trailer = some result ∧
        ∀ data trailers, result = .ok (data, trailers) ↔
          ∃ framing : Framing hashes signer signed trailer,
            framing.bytes = body ∧ framing.data = data ∧ framing.trailers = trailers) ∧
    (∀ signer signed trailer chunks trailers, (∀ chunk ∈ chunks, chunk ≠ []) →
      (∀ field ∈ trailers, Writable field) → (trailer = false → trailers = []) →
      (encode hashes signer signed trailer chunks trailers).length ≤ isizeMax →
        dechunk hashes (encode hashes signer signed trailer chunks trailers) signer signed
          trailer = some (.ok (chunks.flatten, trailers))) ∧
    (∀ signer trailer (framing : Framing hashes signer true trailer), framing.lines.map provided =
        (Chains.marks (chunkSignature hashes signer) signer.seed framing.pieces).map some) ∧
    (∀ decodes digest (request : Request) (signer : Signer) signed trailer,
      request.body.length ≤ isizeMax → signer.payload = .streaming signed trailer →
        ∃ result, body hashes decodes digest request signer = some result ∧
          ∀ data, result = .ok data → ∃ framing : Framing hashes signer signed trailer,
            framing.bytes = request.body ∧ framing.data = data) ∧
    (Chunked.Injective hashes → ∀ (pool : Set (Sent hashes)) (sent : Sent hashes),
      (∀ link ∈ sent.framing.links, ∃ other ∈ pool, link ∈ other.framing.links) →
        ∃ other ∈ pool, other.signer.seed = sent.signer.seed ∧
          other.framing.links = sent.framing.links) := by
  refine ⟨?_, ?_, ?_, ?_, ?_⟩
  · intro signer signed trailer body hbody
    exact dechunk_spec hbody
  · intro signer signed trailer chunks trailers hne hwritable huntrailed hlength
    exact written_read hashes signer hne hwritable huntrailed hlength
  · intro signer trailer framing
    exact framing.signatures
  · intro decodes digest request signer signed trailer hbody hpayload
    exact body_spec hbody hpayload
  · intro h pool sent hlinks
    exact sent.spliced h hlinks

/-! ## One upload -/

/-- Hashes that answer what they are given. -/
def plainHashes : Hashes := ⟨id, fun _ text => text⟩

theorem plainHashes_injective : Chunked.Injective plainHashes :=
  ⟨Function.injective_id, fun _ _ _ _ h => h⟩

def newYear : Text := "20200101T000000Z".toList

def plainListener : Listener where
  hashes := plainHashes
  calendar := ⟨fun _ => newYear, fun _ => newYear.take 8,
    fun text => if text = newYear then .ok 1577836800000000000 else .error "premature end of input"⟩
  httpDate := fun _ => none
  namespaces := .ok fun name => if name = "media".toList then some ⟨"media".toList, []⟩ else none
  objectToken := fun _ _ => .ok "secret".toList
  reverseProxyEnabled := false
  boundaryAvailable := .ok ()

def plainScope : Scope := ⟨newYear.take 8, "us-east-1".toList, service⟩

def streamed : Text := "STREAMING-AWS4-HMAC-SHA256-PAYLOAD-TRAILER".toList

def uploader : Signer where
  nameSpace := "media".toList
  policy := ⟨"media".toList, []⟩
  key := signingKey plainHashes "secret".toList plainScope
  scope := plainScope
  amzDate := newYear
  seed := signature plainHashes (signingKey plainHashes "secret".toList plainScope)
    (stringToSign plainHashes newYear plainScope (canonicalRequest "PUT".toList
      "/s3/media/clip".toList [] [("host".toList, "127.0.0.1".toList)] "host".toList streamed))
  payload := .streaming true true

def uploadHeaders : List Text :=
  ["Host: 127.0.0.1".toList, "x-amz-date: ".toList ++ newYear,
    "x-amz-content-sha256: ".toList ++ streamed,
    "Authorization: AWS4-HMAC-SHA256 Credential=media/".toList ++ plainScope.render ++
      ", SignedHeaders=host, Signature=".toList ++ uploader.seed]

def upload : Request where
  method := "PUT".toList
  path := "/s3/media/clip".toList
  headers := uploadHeaders.filterMap headerLine
  body := []
  line := ⟨"PUT /s3/media/clip HTTP/1.1".toList, "HTTP/1.1".toList, by decide +kernel⟩
  fields := by
    intro header hheader
    obtain ⟨text, -, hline⟩ := mem_filterMap.mp hheader
    exact ⟨text, hline⟩

deriving instance DecidableEq for Signer

deriving instance DecidableEq for Claim

def uploadClaim : Claim :=
  ⟨"media/".toList ++ plainScope.render, newYear, "host".toList, uploader.seed, [],
    .streaming true true, streamed⟩

theorem upload_claims : claimOf plainListener upload [] 1577836800000000000 = .ok uploadClaim := by
  decide +kernel

theorem uploadClaim_verified :
    verifyClaim plainListener upload upload.path uploadClaim = .ok uploader := by
  decide +kernel

theorem uploader_admitted : Admitted plainHashes uploader := by
  refine ⟨plainListener, 1577836800000000000, upload, upload.path, [], rfl, ?_⟩
  exact Checks.bind_eq_ok.mpr ⟨uploadClaim, upload_claims, uploadClaim_verified⟩

def clip : List Bytes := [[104, 105]]

def checksum : TrailerHeaders := [("x-amz-checksum-crc32".toList, "AAAAAA==".toList)]

theorem length_utf8_le (text : Text) : (utf8 text).length ≤ 4 * text.length := by
  induction text with
  | nil => exact Nat.le_refl 0
  | cons c later ih =>
    have hc : (String.utf8EncodeChar c).length ≤ 4 := by
      rw [String.length_utf8EncodeChar]
      exact Char.utf8Size_le_four c
    rw [utf8_cons, length_append, length_cons]
    omega

theorem length_hexEncode (bytes : Bytes) : (hexEncode bytes).length = 2 * bytes.length := by
  induction bytes with
  | nil => rfl
  | cons b later ih =>
    rw [hexEncode] at ih
    rw [hexEncode, flatMap_cons, length_append, ih, length_cons]
    simp only [length_cons, length_nil]
    omega

theorem length_plain_signature (key : Bytes) (text : Text) :
    (signature plainHashes key text).length ≤ 8 * text.length := by
  have hutf8 := length_utf8_le text
  rw [signature, length_hexEncode]
  show 2 * (utf8 text).length ≤ 8 * text.length
  omega

theorem uploader_sizes : uploader.seed.length ≤ 1000 ∧ uploader.amzDate.length ≤ 100 ∧
    uploader.scope.render.length ≤ 100 := by
  decide +kernel

theorem length_plain_mark (previous : Text) (chunk : Bytes) :
    (chunkSignature plainHashes uploader previous chunk).length ≤
      8 * (previous.length + 2 * chunk.length + 300) := by
  obtain ⟨-, hdate, hscope⟩ := uploader_sizes
  have hname : "AWS4-HMAC-SHA256-PAYLOAD".toList.length ≤ 50 := by decide
  have hempty : (hexSha256 plainHashes []).length = 0 := rfl
  have hchunk : (hexSha256 plainHashes chunk).length = 2 * chunk.length := length_hexEncode chunk
  refine (length_plain_signature _ _).trans (Nat.mul_le_mul_left 8 ?_)
  simp only [chunkText, join, List.intercalate, List.intersperse, flatten_cons,
    flatten_nil, length_append, length_cons, length_nil]
  omega

theorem length_plain_trailer (previous : Text) (trailers : TrailerHeaders) :
    (trailerSignature plainHashes uploader previous trailers).length ≤
      8 * (previous.length + 8 * (trailers.flatMap canonicalHeader).length + 300) := by
  obtain ⟨-, hdate, hscope⟩ := uploader_sizes
  have hname : "AWS4-HMAC-SHA256-TRAILER".toList.length ≤ 50 := by decide
  have hfields : (hexSha256 plainHashes (utf8 (trailers.flatMap canonicalHeader))).length ≤
      8 * (trailers.flatMap canonicalHeader).length := by
    have hutf8 := length_utf8_le (trailers.flatMap canonicalHeader)
    have hhex : (hexSha256 plainHashes (utf8 (trailers.flatMap canonicalHeader))).length =
      2 * (utf8 (trailers.flatMap canonicalHeader)).length := length_hexEncode _
    omega
  refine (length_plain_signature _ _).trans (Nat.mul_le_mul_left 8 ?_)
  simp only [trailerText, join, List.intercalate, List.intersperse, flatten_cons,
    flatten_nil, length_append, length_cons, length_nil]
  omega

theorem length_lineBytes_le (text : Text) : (lineBytes text).length ≤ 4 * text.length + 2 := by
  rw [lineBytes, length_append]
  exact Nat.add_le_add_right (length_utf8_le text) 2

theorem length_plain_chunkLine {size : ℕ} (h : (sizeText size).length = 1) (mark : Text) :
    (chunkLine true size mark).length = mark.length + 18 := by
  have hname : chunkSignatureName.length = 16 := by decide
  rw [chunkLine, if_pos rfl, length_append, length_cons, length_append, h, hname]
  omega

theorem length_plain_trailerLine (mark : Text) :
    (trailerLine (trailerSignatureName, mark)).length = mark.length + 24 := by
  have hname : trailerSignatureName.length = 23 := by decide
  rw [trailerLine, length_append, length_cons, hname]
  exact Nat.add_comm 23 _

theorem encode_fits : (encode plainHashes uploader true true clip checksum).length ≤ isizeMax := by
  obtain ⟨hseed, -, -⟩ := uploader_sizes
  have hfirst := length_plain_mark uploader.seed [104, 105]
  generalize hone : chunkSignature plainHashes uploader uploader.seed [104, 105] = one at hfirst
  have hlast := length_plain_mark one []
  generalize htwo : chunkSignature plainHashes uploader one [] = two at hlast
  have htrailer := length_plain_trailer two checksum
  generalize hthree : trailerSignature plainHashes uploader two checksum = three at htrailer
  have hencode : encode plainHashes uploader true true clip checksum =
      lineBytes (chunkLine true 2 one) ++ ([104, 105] ++ lineEnd) ++
        (lineBytes (chunkLine true 0 two) ++
          (trailerBytes (checksum ++ [(trailerSignatureName, three)]) ++ lineEnd)) := by
    subst hone htwo hthree
    rw [encode, chunkBytes, clip, framedChunks, framedChunks, flatMap_singleton]
    rfl
  have hchecksum : checksum.flatMap canonicalHeader = "x-amz-checksum-crc32:AAAAAA==\n".toList := by
    decide
  have hfirstLine := length_plain_chunkLine (show (sizeText 2).length = 1 by decide) one
  have hlastLine := length_plain_chunkLine (show (sizeText 0).length = 1 by decide) two
  have htrailerLine := length_plain_trailerLine three
  have hfields : (trailerBytes (checksum ++ [(trailerSignatureName, three)])).length ≤
      4 * three.length + 300 := by
    have hthird := length_lineBytes_le (trailerLine (trailerSignatureName, three))
    have hsum : (lineBytes (trailerLine ("x-amz-checksum-crc32".toList, "AAAAAA==".toList))).length =
      31 := by decide
    rw [trailerBytes, checksum, flatMap_append, flatMap_singleton, flatMap_singleton,
      length_append, hsum]
    omega
  have hbytes := length_lineBytes_le (chunkLine true 2 one)
  have hbytes' := length_lineBytes_le (chunkLine true 0 two)
  have hlength : ("x-amz-checksum-crc32:AAAAAA==\n".toList).length = 30 := by decide
  have hend : lineEnd.length = 2 := rfl
  rw [show ([104, 105] : Bytes).length = 2 from rfl] at hfirst
  rw [show ([] : Bytes).length = 0 from rfl] at hlast
  rw [hchecksum, hlength] at htrailer
  rw [hencode]
  simp only [length_append, length_cons, length_nil]
  unfold isizeMax
  omega

theorem checksum_writable : ∀ field ∈ checksum, Writable field := by
  unfold Writable OnLine OneLine
  decide +kernel

theorem clip_framed :
    dechunk plainHashes (encode plainHashes uploader true true clip checksum) uploader true true =
        some (.ok ([104, 105], checksum)) ∧
      ∃ sent : Sent plainHashes, sent.signer = uploader ∧ ∃ other ∈ ({sent} : Set (Sent plainHashes)),
        other.framing.links = sent.framing.links := by
  obtain ⟨-, hwritten, -, -, hspliced⟩ := chunks_framed plainHashes
  have hclip : ∀ chunk ∈ clip, chunk ≠ [] := by decide
  have hread := hwritten uploader true true clip checksum hclip checksum_writable nofun encode_fits
  refine ⟨hread, ?_⟩
  let sent : Sent plainHashes := ⟨uploader, true,
    written plainHashes uploader hclip checksum_writable nofun encode_fits, uploader_admitted⟩
  obtain ⟨other, hother, -, hlinks⟩ := hspliced plainHashes_injective {sent} sent
    fun link hlink => ⟨sent, rfl, hlink⟩
  exact ⟨sent, rfl, other, hother, hlinks⟩

def anonymous : Signer := { uploader with payload := .streaming false true }

theorem encode_starts (signer : Signer) (trailer : Bool) (chunks : List Bytes)
    (trailers : TrailerHeaders) : ∃ size rest,
      encode plainHashes signer false trailer chunks trailers =
        lineBytes (sizeText size) ++ rest := by
  cases chunks with
  | nil => exact ⟨0, _, rfl⟩
  | cons chunk later =>
    rw [encode, framedChunks, chunkBytes, flatMap_cons, append_assoc, append_assoc]
    exact ⟨chunk.length, _, rfl⟩

/-- An unsigned body whose last size stands after a blank is read, and is not what a
client writes of any chunks and trailing headers. -/
theorem paddedSize_read : ¬∀ (body data : Bytes) (trailers : TrailerHeaders),
    dechunk plainHashes body anonymous false true = some (.ok (data, trailers)) →
      ∃ chunks, chunks.flatten = data ∧
        body = encode plainHashes anonymous false true chunks trailers := by
  intro hall
  have hone : OneLine " 0".toList := by
    unfold OneLine
    decide
  let framing : Framing plainHashes anonymous false true :=
    { chunks := [], last := " 0".toList, fields := [], sized := nofun, ended := ⟨hone, by decide⟩,
      marked := nofun, lined := nofun, untrailed := nofun, stated := nofun }
  have hbytes : framing.bytes = [32, 48, 13, 10, 13, 10] := by
    show chunkBytes [] ++ (lineBytes " 0".toList ++ (trailerBytes [] ++ lineEnd)) = _
    decide
  obtain ⟨result, hrun, hspec⟩ := @dechunk_spec plainHashes anonymous false true
    [32, 48, 13, 10, 13, 10] (by decide)
  have hread := (hspec [] []).mpr ⟨framing, hbytes, rfl, rfl⟩
  rw [hread] at hrun
  obtain ⟨chunks, -, hwritten⟩ := hall _ [] [] hrun
  obtain ⟨size, rest, hstarts⟩ := encode_starts anonymous true chunks []
  have hsize := sizeText_hexadecimal size
  have hline : OneLine (sizeText size) := oneLine_of_plain (hsize.not_mem (by decide))
  -- the first line of both bodies is the same
  have hfound := Cuts.find_append_of_eq_some lineEnd_ne hline rest
  rw [← hstarts, ← hwritten] at hfound
  have hshort : Cuts.find lineEnd [32, 48, 13, 10, 13, 10] = some 2 := by decide
  rw [hshort] at hfound
  have htake := congrArg (List.take 2) (hwritten.trans hstarts)
  rw [Option.some.inj hfound, lineBytes, append_assoc, take_left] at htake
  have htext : " 0".toList = sizeText size := by
    apply utf8_injective
    rw [← htake, ← Option.some.inj hfound]
    decide
  refine hsize.not_mem (show Percent.digitValue ' ' = none by decide) ?_
  rw [← htext]
  decide

end Stado.S3.Listener
