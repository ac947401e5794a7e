import Stado.S3.Payload

/-!
# The framing of an aws-chunked body

What the reader accepts of a body, as the lines it is made of: chunk lines with
their chunks, the line of the empty chunk, and the trailer.
-/

namespace Stado.S3.Listener.Chunked

open Sigv4 List Option Except Http
open Http (slice checkedAdd isizeMax isizeMax_lt_usizeMax)

variable {hashes : Hashes} {signer : Signer} {signed : Bool} {body : Bytes} {chunk : Bytes}
  {previous : Text}

/-! ## Lines -/

def lineBytes (text : Text) : Bytes := utf8 text ++ lineEnd

def OneLine (text : Text) : Prop := Cuts.find lineEnd (lineBytes text) = some (utf8 text).length

theorem lineEnd_ne : lineEnd ≠ [] := by decide

theorem fromUtf8_some {raw : Bytes} {text : Text} (h : fromUtf8 raw = some text) :
    utf8 text = raw := by
  obtain ⟨chars, hchars, rfl⟩ := map_eq_some_iff.mp h
  have hsome : (ByteArray.mk raw.toArray).utf8Decode?.isSome = true := by
    rw [hchars]
    rfl
  have hencoded := @ByteArray.utf8Encode_get_utf8Decode? (ByteArray.mk raw.toArray) hsome
  simp only [hchars, get_some] at hencoded
  have hbytes : ByteArray.mk (utf8 chars.toList).toArray = chars.toList.utf8Encode := by
    apply ByteArray.ext
    exact data_toByteArray.symm
  rw [← hbytes] at hencoded
  have hdata := congrArg ByteArray.data hencoded
  exact congrArg Array.toList hdata

theorem drop_split {start next : ℕ} {first rest : Bytes} (hstart : start ≤ body.length)
    (h : body.drop start = first ++ rest) (hnext : next + rest.length = body.length) :
    next = start + first.length ∧ body.drop next = rest := by
  have hlength := congrArg List.length h
  rw [length_drop, length_append] at hlength
  obtain rfl : next = start + first.length := by omega
  refine ⟨rfl, ?_⟩
  rw [← drop_drop, h, drop_left]

theorem line_spec (hbody : body.length ≤ isizeMax) {start : ℕ} (hstart : start ≤ body.length) :
    ∃ result, line body start = some result ∧ ∀ text next, result = .ok (text, next) ↔
      ∃ rest, OneLine text ∧ body.drop start = lineBytes text ++ rest ∧
        next + rest.length = body.length := by
  have hrest : slice body (min start body.length) body.length = some (body.drop start) := by
    rw [Nat.min_eq_left hstart, slice_eq hstart le_rfl, take_length]
  have hlength : lineEnd.length = 2 := rfl
  unfold line
  rw [hrest]
  dsimp only [bind_eq_bind, bind_some]
  cases hfind : Cuts.find lineEnd (body.drop start) with
  | none =>
    refine ⟨_, rfl, ?_⟩
    intro text next
    refine iff_of_false nofun ?_
    rintro ⟨rest, hone, hdrop, -⟩
    have hfound := Cuts.find_append_of_eq_some lineEnd_ne hone rest
    rw [← hdrop, hfind] at hfound
    cases hfound
  | some stop =>
    have hle := Cuts.find_eq_some_le hfind
    have hdropped : (body.drop start).length = body.length - start := length_drop
    have hraw : slice (body.drop start) 0 stop = some ((body.drop start).take stop) :=
      slice_eq (Nat.zero_le _) (by omega)
    have hwide := isizeMax_lt_usizeMax
    dsimp only
    rw [hraw]
    dsimp only [bind_some]
    cases htext : fromUtf8 ((body.drop start).take stop) with
    | none =>
      refine ⟨_, rfl, ?_⟩
      intro text next
      refine iff_of_false nofun ?_
      rintro ⟨rest, hone, hdrop, -⟩
      have hfound := Cuts.find_append_of_eq_some lineEnd_ne hone rest
      rw [← hdrop, hfind] at hfound
      obtain rfl := Option.some.inj hfound
      rw [hdrop, lineBytes, append_assoc, take_left, fromUtf8_utf8] at htext
      cases htext
    | some read =>
      have hbytes := fromUtf8_some htext
      dsimp only
      rw [checkedAdd_eq (by omega)]
      dsimp only [bind_some]
      rw [checkedAdd_eq (by omega)]
      refine ⟨_, rfl, ?_⟩
      intro text next
      constructor
      · intro heq
        obtain ⟨rfl, rfl⟩ := Prod.mk.inj (ok.inj heq)
        obtain ⟨rest, htail⟩ := Cuts.prefix_of_find hfind
        have hdrop : body.drop start = lineBytes read ++ rest := by
          rw [lineBytes, hbytes, append_assoc, htail, take_append_drop]
        have hstop : (utf8 read).length = stop := by
          rw [hbytes, length_take]
          omega
        refine ⟨rest, ?_, hdrop, ?_⟩
        · refine (Cuts.find_append lineEnd_ne (lineBytes read) rest _).mpr ⟨?_, ?_⟩
          · rw [← hdrop, hfind, hstop]
          · rw [lineBytes, length_append]
        · have hwhole := congrArg List.length hdrop
          rw [hdropped, lineBytes, length_append, length_append] at hwhole
          omega
      · rintro ⟨rest, hone, hdrop, hnext⟩
        have hfound := Cuts.find_append_of_eq_some lineEnd_ne hone rest
        rw [← hdrop, hfind] at hfound
        obtain rfl := Option.some.inj hfound
        have htake : (body.drop start).take (utf8 text).length = utf8 text := by
          rw [hdrop, lineBytes, append_assoc, take_left]
        rw [htake, fromUtf8_utf8] at htext
        obtain rfl := Option.some.inj htext
        obtain ⟨rfl, -⟩ := drop_split hstart hdrop hnext
        rw [lineBytes, length_append, ← Nat.add_assoc]

/-! ## Chunks -/

def Signs (hashes : Hashes) (signer : Signer) (signed : Bool) (extension previous : Text)
    (chunk : Bytes) (mark : Text) : Prop :=
  if signed then
    stripPrefix chunkSignatureName extension = some mark ∧
      chunkSignature hashes signer previous chunk = mark
  else mark = previous

theorem verifyChunk_spec {extension previous mark : Text} {position : ℕ} :
    verifyChunk hashes signer signed extension previous chunk position = .ok mark ↔
      Signs hashes signer signed extension previous chunk mark := by
  unfold verifyChunk Signs
  cases signed with
  | false =>
    rw [if_neg Bool.false_ne_true, if_neg Bool.false_ne_true]
    constructor
    · exact fun h => (ok.inj h).symm
    · rintro rfl
      rfl
  | true =>
    rw [if_pos rfl, if_pos rfl]
    cases stripPrefix chunkSignatureName extension with
    | none =>
      refine iff_of_false nofun ?_
      rintro ⟨hnone, -⟩
      cases hnone
    | some provided =>
      dsimp only
      split_ifs with hmatch
      · constructor
        · intro h
          obtain rfl := ok.inj h
          exact ⟨rfl, hmatch⟩
        · rintro ⟨hprovided, -⟩
          obtain rfl := Option.some.inj hprovided
          rfl
      · refine iff_of_false nofun ?_
        rintro ⟨hprovided, hsigned⟩
        obtain rfl := Option.some.inj hprovided
        exact hmatch hsigned

def Sizes (header : Text) (size : ℕ) : Prop :=
  OneLine header ∧ parseHex (trim (fields header).1) = .ok size

/-- What one chunk is read as, and where the body goes on. -/
inductive ReadsChunk (hashes : Hashes) (signer : Signer) (signed : Bool) (body : Bytes)
    (progress : Progress) : ChunkStep → Prop
  | last {header mark : Text} {rest : Bytes} {next : ℕ} (hsizes : Sizes header 0)
      (hsigns : Signs hashes signer signed (fields header).2 progress.previous [] mark)
      (hdrop : body.drop progress.position = lineBytes header ++ rest)
      (hnext : next + rest.length = body.length) :
      ReadsChunk hashes signer signed body progress (.last ⟨next, progress.data, mark⟩)
  | more {header mark : Text} {chunk rest : Bytes} {next : ℕ} (hsizes : Sizes header chunk.length)
      (hne : chunk ≠ [])
      (hsigns : Signs hashes signer signed (fields header).2 progress.previous chunk mark)
      (hdrop : body.drop progress.position = lineBytes header ++ (chunk ++ (lineEnd ++ rest)))
      (hnext : next + rest.length = body.length) :
      ReadsChunk hashes signer signed body progress (.more ⟨next, progress.data ++ chunk, mark⟩)

theorem lineBytes_pos (text : Text) : 2 ≤ (lineBytes text).length := by
  rw [lineBytes, length_append]
  exact Nat.le_add_left 2 _

theorem slice_lineEnd {stop : ℕ} :
    slice body stop (stop + lineEnd.length) = some lineEnd ↔
      ∃ rest, body.drop stop = lineEnd ++ rest := by
  constructor
  · intro h
    obtain ⟨-, -, htake⟩ := slice_some h
    rw [drop_take, Nat.add_sub_cancel_left] at htake
    refine ⟨(body.drop stop).drop lineEnd.length, ?_⟩
    conv_rhs => rw [htake]
    rw [← htake]
    exact (take_append_drop _ _).symm.trans (by rw [← htake])
  · rintro ⟨rest, hdrop⟩
    have hlength := congrArg List.length hdrop
    rw [length_drop, length_append] at hlength
    have hend : lineEnd.length = 2 := rfl
    rw [slice_eq (by omega) (by omega), drop_take, Nat.add_sub_cancel_left, hdrop,
      take_left]

theorem readSized_spec (hbody : body.length ≤ isizeMax) {progress : Progress} {extension : Text}
    {start size : ℕ} (hstart : start ≤ body.length) :
    ∃ result, readSized hashes signer signed body progress extension start size = some result ∧
      ∀ step, result = .ok step ↔
        (size = 0 ∧ ∃ mark, Signs hashes signer signed extension progress.previous [] mark ∧
          step = .last ⟨start, progress.data, mark⟩) ∨
        ∃ chunk rest next mark, chunk ≠ [] ∧ chunk.length = size ∧
          Signs hashes signer signed extension progress.previous chunk mark ∧
          body.drop start = chunk ++ (lineEnd ++ rest) ∧ next + rest.length = body.length ∧
          step = .more ⟨next, progress.data ++ chunk, mark⟩ := by
  have hwide := isizeMax_lt_usizeMax
  have htwo : 2 ≤ isizeMax := by decide
  have hend : lineEnd.length = 2 := rfl
  -- a chunk of that size lies within the body
  have hwithin : ∀ {chunk rest : Bytes}, chunk.length = size →
      body.drop start = chunk ++ (lineEnd ++ rest) →
        start + size + 2 + rest.length = body.length := by
    intro chunk rest hsize hdrop
    have hlength := congrArg List.length hdrop
    rw [length_drop, length_append, length_append] at hlength
    omega
  have hchunk : ∀ {chunk rest : Bytes}, chunk.length = size →
      body.drop start = chunk ++ (lineEnd ++ rest) →
        (body.drop start).take size = chunk ∧ body.drop (start + size) = lineEnd ++ rest := by
    intro chunk rest hsize hdrop
    rw [← drop_drop, hdrop, ← hsize, take_left, drop_left]
    exact ⟨rfl, rfl⟩
  unfold readSized
  dsimp only
  by_cases hfits : start + size ≤ body.length
  · have hstop : ((checkedAdd start size).filter fun stop => stop ≤ body.length) =
        some (start + size) := by
      rw [checkedAdd_eq (by omega)]
      exact if_pos (decide_eq_true hfits)
    have hslice : slice body start (start + size) = some ((body.drop start).take size) := by
      rw [slice_eq (by omega) hfits, drop_take, Nat.add_sub_cancel_left]
    have hlength : ((body.drop start).take size).length = size := by
      rw [length_take, length_drop]
      omega
    have hsplit : body.drop start = (body.drop start).take size ++ body.drop (start + size) := by
      rw [← drop_drop, take_append_drop]
    rw [hstop]
    dsimp only [bind_eq_bind]
    rw [hslice]
    dsimp only [bind_some]
    generalize (body.drop start).take size = found at hlength hchunk hsplit
    cases hverified : verifyChunk hashes signer signed extension progress.previous found
        progress.position with
    | error refusal =>
      refine ⟨_, rfl, ?_⟩
      intro step
      refine iff_of_false nofun ?_
      rintro (⟨rfl, mark, hsigns, -⟩ | ⟨chunk, rest, next, mark, -, hsize, hsigns, hdrop, -, -⟩)
      · obtain rfl := length_eq_zero_iff.mp hlength
        rw [verifyChunk_spec.mpr hsigns] at hverified
        cases hverified
      · obtain rfl := (hchunk hsize hdrop).1
        rw [verifyChunk_spec.mpr hsigns] at hverified
        cases hverified
    | ok mark =>
      have hsigns := verifyChunk_spec.mp hverified
      have hmark : ∀ {mark'}, Signs hashes signer signed extension progress.previous found mark' →
          mark' = mark := by
        intro mark' hsigns'
        exact ok.inj ((verifyChunk_spec.mpr hsigns').symm.trans hverified)
      dsimp only
      by_cases hempty : found = []
      · subst hempty
        obtain rfl : 0 = size := hlength
        rw [if_pos rfl, append_nil]
        refine ⟨_, rfl, ?_⟩
        intro step
        constructor
        · intro heq
          exact .inl ⟨rfl, mark, hsigns, (ok.inj heq).symm⟩
        · rintro (⟨-, mark', hsigns', rfl⟩ | ⟨chunk, -, -, -, hne, hsize, -⟩)
          · rw [hmark hsigns']
          · exact absurd (length_eq_zero_iff.mp hsize) hne
      · rw [if_neg hempty, checkedAdd_eq (by omega)]
        dsimp only [bind_some]
        have hpos : 0 < found.length := length_pos_iff.mpr hempty
        by_cases hcrlf : slice body (start + size) (start + size + lineEnd.length) = some lineEnd
        · rw [if_pos hcrlf]
          obtain ⟨rest, hrest⟩ := slice_lineEnd.mp hcrlf
          rw [hrest] at hsplit
          have hwhole := hwithin hlength hsplit
          refine ⟨_, rfl, ?_⟩
          intro step
          constructor
          · intro heq
            exact .inr ⟨found, rest, _, mark, hempty, hlength, hsigns, hsplit,
              by omega, (ok.inj heq).symm⟩
          · rintro (⟨rfl, -⟩ | ⟨chunk, rest', next, mark', -, hsize, hsigns', hdrop, hnext, rfl⟩)
            · omega
            · obtain rfl := (hchunk hsize hdrop).1
              have hwhole' := hwithin hsize hdrop
              rw [hmark hsigns', show next = start + size + lineEnd.length by omega]
        · rw [if_neg hcrlf]
          refine ⟨_, rfl, ?_⟩
          intro step
          refine iff_of_false nofun ?_
          rintro (⟨rfl, -⟩ | ⟨chunk, rest, next, mark', -, hsize, -, hdrop, -, -⟩)
          · omega
          · exact hcrlf (slice_lineEnd.mpr ⟨rest, (hchunk hsize hdrop).2⟩)
  · have hstop : ((checkedAdd start size).filter fun stop => stop ≤ body.length) = none := by
      rw [filter_eq_none_iff]
      intro stop hsum
      rw [checkedAdd_some hsum]
      simp only [decide_eq_true_eq]
      exact hfits
    rw [hstop]
    refine ⟨_, rfl, ?_⟩
    intro step
    refine iff_of_false nofun ?_
    rintro (⟨rfl, -⟩ | ⟨chunk, rest, next, mark, -, hsize, -, hdrop, -, -⟩)
    · omega
    · have hwhole := hwithin hsize hdrop
      omega

theorem readChunk_spec (hbody : body.length ≤ isizeMax) {progress : Progress}
    (hposition : progress.position ≤ body.length) :
    ∃ result, readChunk hashes signer signed body progress = some result ∧
      ∀ step, result = .ok step ↔ ReadsChunk hashes signer signed body progress step := by
  obtain ⟨read, hline, hspec⟩ := line_spec hbody hposition
  -- the line of a chunk is the line that is read
  have hread : ∀ {header : Text} {rest : Bytes}, OneLine header →
      body.drop progress.position = lineBytes header ++ rest →
        ∃ next, read = .ok (header, next) ∧ body.drop next = rest ∧
          next + rest.length = body.length := by
    intro header rest hone hdrop
    have hlength := congrArg List.length hdrop
    rw [length_drop, length_append] at hlength
    have hpos := lineBytes_pos header
    have hnext : progress.position + (lineBytes header).length + rest.length = body.length := by
      omega
    exact ⟨_, (hspec _ _).mpr ⟨rest, hone, hdrop, hnext⟩, (drop_split hposition hdrop hnext).2,
      hnext⟩
  unfold readChunk
  rw [hline]
  dsimp only [bind_eq_bind, bind_some]
  cases read with
  | error refusal =>
    refine ⟨_, rfl, ?_⟩
    intro step
    refine iff_of_false nofun ?_
    intro hreads
    cases hreads with
    | last hsizes hsigns hdrop hnext =>
      obtain ⟨_, hno, -⟩ := hread hsizes.1 hdrop
      cases hno
    | more hsizes hne hsigns hdrop hnext =>
      obtain ⟨_, hno, -⟩ := hread hsizes.1 hdrop
      cases hno
  | ok found =>
    obtain ⟨header, start⟩ := found
    obtain ⟨rest, hone, hdrop, hstart⟩ := (hspec header start).mp rfl
    obtain ⟨-, hafter⟩ := drop_split hposition hdrop hstart
    dsimp only
    cases hsize : parseHex (trim (fields header).1) with
    | error why =>
      refine ⟨_, rfl, ?_⟩
      intro step
      refine iff_of_false nofun ?_
      intro hreads
      cases hreads with
      | last hsizes hsigns hdrop' hnext =>
        obtain ⟨_, hsame, -⟩ := hread hsizes.1 hdrop'
        obtain ⟨rfl, -⟩ := Prod.mk.inj (ok.inj hsame)
        rw [hsizes.2] at hsize
        cases hsize
      | more hsizes hne hsigns hdrop' hnext =>
        obtain ⟨_, hsame, -⟩ := hread hsizes.1 hdrop'
        obtain ⟨rfl, -⟩ := Prod.mk.inj (ok.inj hsame)
        rw [hsizes.2] at hsize
        cases hsize
    | ok size =>
      obtain ⟨result, hrun, hsized⟩ := @readSized_spec hashes signer signed body hbody progress
        (fields header).2 start size (by omega)
      refine ⟨result, hrun, ?_⟩
      intro step
      rw [hsized step]
      constructor
      · rintro (⟨rfl, mark, hsigns, rfl⟩ |
          ⟨chunk, later, next, mark, hne, rfl, hsigns, hlater, hnext, rfl⟩)
        · exact .last ⟨hone, hsize⟩ hsigns hdrop hstart
        · rw [hafter] at hlater
          rw [hlater] at hdrop
          exact .more ⟨hone, hsize⟩ hne hsigns hdrop hnext
      · intro hreads
        cases hreads with
        | last hsizes hsigns hdrop' hnext =>
          obtain ⟨other, hsame, -, hother⟩ := hread hsizes.1 hdrop'
          obtain ⟨rfl, rfl⟩ := Prod.mk.inj (ok.inj hsame)
          refine .inl ⟨?_, _, hsigns, ?_⟩
          · exact (ok.inj (hsizes.2.symm.trans hsize)).symm
          · rw [Nat.add_right_cancel (hnext.trans hother.symm)]
        | more hsizes hne hsigns hdrop' hnext =>
          obtain ⟨other, hsame, hlater, -⟩ := hread hsizes.1 hdrop'
          obtain ⟨rfl, rfl⟩ := Prod.mk.inj (ok.inj hsame)
          exact .inr ⟨_, _, _, _, hne, ok.inj (hsizes.2.symm.trans hsize), hsigns,
            hlater, hnext, rfl⟩

/-! ## Runs of chunks -/

def provided (framed : Text × Bytes) : Option Text :=
  stripPrefix chunkSignatureName (fields framed.1).2

def markOf (hashes : Hashes) (signer : Signer) (signed : Bool) (previous : Text)
    (chunks : List Bytes) : Text :=
  if signed then Chains.mark (chunkSignature hashes signer) previous chunks else previous

def Marked (hashes : Hashes) (signer : Signer) (signed : Bool) (previous : Text)
    (chunks : List (Text × Bytes)) : Prop :=
  signed = true → chunks.map provided =
    (Chains.marks (chunkSignature hashes signer) previous (chunks.map Prod.snd)).map some

def chunkBytes (chunks : List (Text × Bytes)) : Bytes :=
  chunks.flatMap fun framed => lineBytes framed.1 ++ (framed.2 ++ lineEnd)

def Chunk (framed : Text × Bytes) : Prop := Sizes framed.1 framed.2.length ∧ framed.2 ≠ []

theorem signs_iff {header previous mark : Text} :
    Signs hashes signer signed (fields header).2 previous chunk mark ↔
      Marked hashes signer signed previous [(header, chunk)] ∧
        mark = markOf hashes signer signed previous [chunk] := by
  unfold Signs Marked markOf provided
  cases signed with
  | false => simp only [Bool.false_eq_true, if_false, false_implies, true_and]
  | true =>
    simp only [if_true, forall_const, map_cons, map_nil, Chains.marks, Chains.mark,
      foldl_cons, foldl_nil, List.cons.injEq, and_true]
    constructor
    · rintro ⟨hprovided, rfl⟩
      exact ⟨hprovided, rfl⟩
    · rintro ⟨hprovided, rfl⟩
      exact ⟨hprovided, rfl⟩

theorem markOf_cons {later : List Bytes} :
    markOf hashes signer signed previous (chunk :: later) =
      markOf hashes signer signed (markOf hashes signer signed previous [chunk]) later := by
  cases signed with
  | _ => rfl

theorem marked_cons {framed : Text × Bytes} {later : List (Text × Bytes)} :
    Marked hashes signer signed previous (framed :: later) ↔
      Marked hashes signer signed previous [framed] ∧
        Marked hashes signer signed (markOf hashes signer signed previous [framed.2]) later := by
  cases signed with
  | false => exact iff_of_true nofun ⟨nofun, nofun⟩
  | true =>
    simp only [Marked, forall_const, map_cons, map_nil, Chains.marks, markOf, if_true,
      Chains.mark, foldl_cons, foldl_nil, List.cons.injEq, and_true]

theorem readChunks_of {progress : Progress} {result : Except S3Error ChunkStep}
    (h : readChunk hashes signer signed body progress = some result) :
    readChunks hashes signer signed body progress = match result with
      | .error refusal => some (.error refusal)
      | .ok (.last last) => some (.ok last)
      | .ok (.more next) => readChunks hashes signer signed body next := by
  rw [readChunks]
  split
  · rename_i hnone
    rw [h] at hnone
    cases hnone
  · rename_i refusal hread
    obtain rfl := Option.some.inj (h.symm.trans hread)
    rfl
  · rename_i last hread
    obtain rfl := Option.some.inj (h.symm.trans hread)
    rfl
  · rename_i next hread
    obtain rfl := Option.some.inj (h.symm.trans hread)
    rfl

def ChunksRead (hashes : Hashes) (signer : Signer) (signed : Bool) (body : Bytes)
    (progress ended : Progress) : Prop :=
  ∃ chunks last rest, (∀ framed ∈ chunks, Chunk framed) ∧ Sizes last 0 ∧
    Marked hashes signer signed progress.previous (chunks ++ [(last, [])]) ∧
    body.drop progress.position = chunkBytes chunks ++ (lineBytes last ++ rest) ∧
    ended.position + rest.length = body.length ∧
    ended.data = progress.data ++ chunks.flatMap Prod.snd ∧
    ended.previous = markOf hashes signer signed progress.previous (chunks.map Prod.snd ++ [[]])

theorem readChunks_spec (hbody : body.length ≤ isizeMax) (progress : Progress)
    (hposition : progress.position ≤ body.length) :
    ∃ result, readChunks hashes signer signed body progress = some result ∧
      ∀ ended, result = .ok ended ↔ ChunksRead hashes signer signed body progress ended := by
  obtain ⟨result, hread, hspec⟩ := @readChunk_spec hashes signer signed body hbody progress
    hposition
  rw [readChunks_of hread]
  -- what the chunks of the body make of its first one
  have hfirst : ∀ {ended}, ChunksRead hashes signer signed body progress ended →
      result = .ok (.last ended) ∨ ∃ next, result = .ok (.more next) ∧
        ChunksRead hashes signer signed body next ended := by
    rintro ⟨position, data, previous⟩ ⟨chunks, last, rest, hchunks, hlast, hmarked, hdrop, hnext,
      rfl, rfl⟩
    cases chunks with
    | nil =>
      left
      rw [hspec]
      have hsigns := signs_iff.mpr ⟨hmarked, rfl⟩
      have hreads := ReadsChunk.last hlast hsigns hdrop hnext
      simpa only [flatMap_nil, append_nil, map_nil, nil_append] using hreads
    | cons framed later =>
      right
      obtain ⟨header, chunk⟩ := framed
      obtain ⟨⟨hsizes, hne⟩, hlater⟩ := forall_mem_cons.mp hchunks
      rw [cons_append, marked_cons] at hmarked
      obtain ⟨hmark, hmarked⟩ := hmarked
      have hdrop' : body.drop progress.position = lineBytes header ++
          (chunk ++ (lineEnd ++ (chunkBytes later ++ (lineBytes last ++ rest)))) := by
        rw [hdrop, chunkBytes, flatMap_cons, chunkBytes]
        simp only [append_assoc]
      have hwhole := congrArg List.length hdrop'
      simp only [length_drop, length_append] at hwhole
      have hrest : (chunkBytes later ++ (lineBytes last ++ rest)).length ≤ body.length := by
        simp only [length_append]
        omega
      have hstands := Nat.sub_add_cancel hrest
      refine ⟨_, (hspec _).mpr (.more hsizes hne (signs_iff.mpr ⟨hmark, rfl⟩) hdrop' hstands), ?_⟩
      have hrejoined := hdrop'
      rw [← append_assoc, ← append_assoc] at hrejoined
      obtain ⟨-, hafter⟩ := drop_split hposition hrejoined hstands
      refine ⟨later, last, rest, hlater, hlast, hmarked, hafter, hnext, ?_, ?_⟩
      · rw [flatMap_cons, append_assoc]
      · rw [map_cons, cons_append, markOf_cons]
  cases result with
  | error refusal =>
    refine ⟨_, rfl, ?_⟩
    intro ended
    refine iff_of_false nofun ?_
    intro hframed
    rcases hfirst hframed with hno | ⟨_, hno, -⟩
    · cases hno
    · cases hno
  | ok step =>
    have hstep := (hspec step).mp rfl
    cases hstep with
    | @last header mark rest next hsizes hsigns hdrop hnext =>
      refine ⟨_, rfl, ?_⟩
      intro ended
      constructor
      · intro heq
        obtain rfl := ok.inj heq
        obtain ⟨hmarked, hmark⟩ := signs_iff.mp hsigns
        exact ⟨[], header, rest, nofun, hsizes, hmarked, hdrop, hnext, (append_nil _).symm, hmark⟩
      · intro hframed
        rcases hfirst hframed with hsame | ⟨_, hno, -⟩
        · rw [ChunkStep.last.inj (ok.inj hsame)]
        · cases hno
    | @more header mark chunk rest next hsizes hne hsigns hdrop hnext =>
      have hprogress := readChunk_more hread
      obtain ⟨later, hrun, hlater⟩ := readChunks_spec hbody
        ⟨next, progress.data ++ chunk, mark⟩ hprogress.2
      refine ⟨later, hrun, ?_⟩
      intro ended
      rw [hlater ended]
      constructor
      · rintro ⟨chunks, last, rest', hchunks, hlast, hmarked, hafter, hended, hdata, hprevious⟩
        obtain ⟨hmarked', rfl⟩ := signs_iff.mp hsigns
        have hrejoined := hdrop
        rw [← append_assoc, ← append_assoc] at hrejoined
        obtain ⟨-, hrest⟩ := drop_split hposition hrejoined hnext
        rw [hrest] at hafter
        refine ⟨(header, chunk) :: chunks, last, rest', ?_, hlast, ?_, ?_, hended, ?_, ?_⟩
        · exact forall_mem_cons.mpr ⟨⟨hsizes, hne⟩, hchunks⟩
        · rw [cons_append, marked_cons]
          exact ⟨hmarked', hmarked⟩
        · rw [hdrop, hafter, chunkBytes, chunkBytes, flatMap_cons]
          simp only [append_assoc]
        · rw [hdata, flatMap_cons, append_assoc]
        · rw [hprevious]
          exact markOf_cons.symm
      · intro hframed
        rcases hfirst hframed with hno | ⟨_, hsame, hafter⟩
        · cases hno
        · rw [ChunkStep.more.inj (ok.inj hsame)]
          exact hafter
termination_by body.length - progress.position
decreasing_by
  dsimp only at hprogress ⊢
  omega

end Stado.S3.Listener.Chunked
