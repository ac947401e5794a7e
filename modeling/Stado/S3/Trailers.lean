import Stado.S3.Framing

/-!
# The trailer of an aws-chunked body, and its whole framing

What the reader accepts after the line of the empty chunk, and the framings of
data and trailing headers that unframing answers.
-/

namespace Stado.S3.Listener.Chunked

open Sigv4 List Option Except
open Http (isizeMax)

variable {hashes : Hashes} {signer : Signer} {signed trailer : Bool} {body : Bytes}
  {trailing : Trailing}

/-! ## Lines of the trailer -/

/-- A trailer line, as its name and its value make it. -/
def trailerLine (field : Text × Text) : Text := field.1 ++ ':' :: field.2

/-- A name and a value that stand on one line. -/
def OnLine (field : Text × Text) : Prop := ':' ∉ field.1 ∧ OneLine (trailerLine field)

def readFields (fields : List (Text × Text)) : TrailerHeaders :=
  fields.map fun field => trailerField field.1 field.2

def headersOf (fields : List (Text × Text)) : TrailerHeaders :=
  (readFields fields).filter fun field => field.1 ≠ trailerSignatureName

def signatureOf (fields : List (Text × Text)) : Option Text :=
  (((readFields fields).filter fun field => field.1 = trailerSignatureName).getLast?).map Prod.snd

def trailerBytes (fields : List (Text × Text)) : Bytes :=
  fields.flatMap fun field => lineBytes (trailerLine field)

theorem trailerLine_ne (field : Text × Text) : trailerLine field ≠ [] := by
  rw [trailerLine, Ne, append_eq_nil_iff]
  rintro ⟨-, hnil⟩
  cases hnil

theorem oneLine_nil : OneLine [] := by
  unfold OneLine
  decide

inductive ReadsTrailer (body : Bytes) (trailing : Trailing) : TrailerStep → Prop
  | last {rest : Bytes} {next : ℕ} (hdrop : body.drop trailing.position = lineEnd ++ rest)
      (hnext : next + rest.length = body.length) :
      ReadsTrailer body trailing (.last ⟨next, trailing.trailers, trailing.signature⟩)
  | more {field : Text × Text} {rest : Bytes} {next : ℕ} (hline : OnLine field)
      (hdrop : body.drop trailing.position = lineBytes (trailerLine field) ++ rest)
      (hnext : next + rest.length = body.length) :
      ReadsTrailer body trailing (.more (trailing.add next (trailerField field.1 field.2)))

theorem readTrailer_spec (hbody : body.length ≤ isizeMax)
    (hposition : trailing.position ≤ body.length) :
    ∃ result, readTrailer body trailing = some result ∧
      ∀ step, result = .ok step ↔ ReadsTrailer body trailing step := by
  obtain ⟨read, hline, hspec⟩ := line_spec hbody hposition
  -- the line of a field, or of none, is the line that is read
  have hread : ∀ {text : Text} {rest : Bytes} {next : ℕ}, OneLine text →
      body.drop trailing.position = lineBytes text ++ rest → next + rest.length = body.length →
        read = .ok (text, next) := by
    intro text rest next hone hdrop hnext
    exact (hspec _ _).mpr ⟨rest, hone, hdrop, hnext⟩
  unfold readTrailer
  rw [hline]
  dsimp only [bind_eq_bind, bind_some]
  cases read with
  | error refusal =>
    refine ⟨_, rfl, ?_⟩
    intro step
    refine iff_of_false nofun ?_
    intro hreads
    cases hreads with
    | last hdrop hnext => cases hread oneLine_nil hdrop hnext
    | more hfield hdrop hnext => cases hread hfield.2 hdrop hnext
  | ok found =>
    obtain ⟨text, start⟩ := found
    obtain ⟨rest, hone, hdrop, hstart⟩ := (hspec text start).mp rfl
    dsimp only
    by_cases hempty : text = []
    · subst hempty
      rw [if_pos rfl]
      refine ⟨_, rfl, ?_⟩
      intro step
      constructor
      · intro heq
        obtain rfl := ok.inj heq
        exact .last hdrop hstart
      · intro hreads
        cases hreads with
        | last hdrop' hnext =>
          obtain ⟨-, rfl⟩ := Prod.mk.inj (ok.inj (hread oneLine_nil hdrop' hnext))
          rfl
        | @more field rest' next hfield hdrop' hnext =>
          obtain ⟨hnil, -⟩ := Prod.mk.inj (ok.inj (hread hfield.2 hdrop' hnext))
          exact absurd hnil.symm (trailerLine_ne field)
    · rw [if_neg hempty]
      -- the field of a line with a colon in it
      have hfirst : ∀ {field : Text × Text} {rest' : Bytes} {next : ℕ}, OnLine field →
          body.drop trailing.position = lineBytes (trailerLine field) ++ rest' →
            next + rest'.length = body.length → splitOnce ':' text = some field ∧ start = next := by
        intro field rest' next hfield hdrop' hnext
        obtain ⟨rfl, rfl⟩ := Prod.mk.inj (ok.inj (hread hfield.2 hdrop' hnext))
        exact ⟨splitOnce_append hfield.1 field.2, rfl⟩
      cases hsplit : splitOnce ':' text with
      | none =>
        refine ⟨_, rfl, ?_⟩
        intro step
        refine iff_of_false nofun ?_
        intro hreads
        cases hreads with
        | last hdrop' hnext =>
          obtain ⟨rfl, -⟩ := Prod.mk.inj (ok.inj (hread oneLine_nil hdrop' hnext))
          exact hempty rfl
        | more hfield hdrop' hnext =>
          rw [(hfirst hfield hdrop' hnext).1] at hsplit
          cases hsplit
      | some field =>
        obtain ⟨name, value⟩ := field
        refine ⟨_, rfl, ?_⟩
        intro step
        constructor
        · intro heq
          obtain rfl := ok.inj heq
          obtain ⟨rfl, hname⟩ := splitOnce_some.mp hsplit
          exact @ReadsTrailer.more body trailing (name, value) rest start ⟨hname, hone⟩ hdrop
            hstart
        · intro hreads
          cases hreads with
          | last hdrop' hnext =>
            obtain ⟨rfl, -⟩ := Prod.mk.inj (ok.inj (hread oneLine_nil hdrop' hnext))
            exact absurd rfl hempty
          | more hfield hdrop' hnext =>
            obtain ⟨hsame, rfl⟩ := hfirst hfield hdrop' hnext
            obtain rfl := Option.some.inj (hsplit.symm.trans hsame)
            rfl

/-! ## Runs of the trailer -/

theorem readTrailers_of {result : Except S3Error TrailerStep}
    (h : readTrailer body trailing = some result) :
    readTrailers body trailing = match result with
      | .error refusal => some (.error refusal)
      | .ok (.last last) => some (.ok last)
      | .ok (.more next) => readTrailers body next := by
  rw [readTrailers]
  split
  · rename_i hnone
    rw [h] at hnone
    cases hnone
  · rename_i refusal hread
    obtain rfl := Option.some.inj (h.symm.trans hread)
    rfl
  · rename_i last hread
    obtain rfl := Option.some.inj (h.symm.trans hread)
    rfl
  · rename_i next hread
    obtain rfl := Option.some.inj (h.symm.trans hread)
    rfl

theorem headersOf_cons (field : Text × Text) (later : List (Text × Text)) :
    headersOf (field :: later) = headersOf [field] ++ headersOf later := by
  unfold headersOf readFields
  rw [map_cons, ← singleton_append, filter_append]
  rfl

theorem signatureOf_cons (field : Text × Text) (later : List (Text × Text)) :
    signatureOf (field :: later) = (signatureOf later).or (signatureOf [field]) := by
  unfold signatureOf readFields
  rw [map_cons, ← singleton_append, filter_append, List.getLast?_append, map_or]
  rfl

theorem add_position (trailing : Trailing) (next : ℕ) (field : Text × Text) :
    (trailing.add next field).position = next := by
  unfold Trailing.add
  split_ifs <;> rfl

theorem add_trailers (trailing : Trailing) (next : ℕ) (field : Text × Text) :
    (trailing.add next (trailerField field.1 field.2)).trailers =
      trailing.trailers ++ headersOf [field] := by
  unfold Trailing.add headersOf readFields
  rw [map_singleton]
  by_cases h : (trailerField field.1 field.2).1 = trailerSignatureName
  · rw [if_pos h, filter_singleton, decide_eq_false (not_not.mpr h), cond_false, append_nil]
  · rw [if_neg h, filter_singleton, decide_eq_true h, cond_true]

theorem add_signature (trailing : Trailing) (next : ℕ) (field : Text × Text) :
    (trailing.add next (trailerField field.1 field.2)).signature =
      (signatureOf [field]).or trailing.signature := by
  unfold Trailing.add signatureOf readFields
  rw [map_singleton]
  by_cases h : (trailerField field.1 field.2).1 = trailerSignatureName
  · rw [if_pos h, filter_singleton, decide_eq_true h, cond_true]
    rfl
  · rw [if_neg h, filter_singleton, decide_eq_false h, cond_false]
    rfl

def TrailersRead (body : Bytes) (trailing ended : Trailing) : Prop :=
  ∃ fields rest, (∀ field ∈ fields, OnLine field) ∧
    body.drop trailing.position = trailerBytes fields ++ (lineEnd ++ rest) ∧
    ended.position + rest.length = body.length ∧
    ended.trailers = trailing.trailers ++ headersOf fields ∧
    ended.signature = (signatureOf fields).or trailing.signature

theorem readTrailers_spec (hbody : body.length ≤ isizeMax) (trailing : Trailing)
    (hposition : trailing.position ≤ body.length) :
    ∃ result, readTrailers body trailing = some result ∧
      ∀ ended, result = .ok ended ↔ TrailersRead body trailing ended := by
  obtain ⟨result, hread, hspec⟩ := readTrailer_spec hbody hposition
  rw [readTrailers_of hread]
  -- what the lines of the trailer make of its first one
  have hfirst : ∀ {ended}, TrailersRead body trailing ended →
      result = .ok (.last ended) ∨ ∃ next, result = .ok (.more next) ∧
        TrailersRead body next ended := by
    rintro ⟨position, trailers, stated⟩ ⟨fields, rest, hfields, hdrop, hnext, rfl, rfl⟩
    cases fields with
    | nil =>
      left
      rw [hspec]
      have hreads := ReadsTrailer.last hdrop hnext
      simpa only [headersOf, readFields, signatureOf, map_nil, filter_nil,
        append_nil, List.getLast?_nil, map_none, none_or] using hreads
    | cons field later =>
      right
      obtain ⟨hfield, hlater⟩ := forall_mem_cons.mp hfields
      have hdrop' : body.drop trailing.position = lineBytes (trailerLine field) ++
          (trailerBytes later ++ (lineEnd ++ rest)) := by
        rw [hdrop, trailerBytes, flatMap_cons, append_assoc]
        rfl
      have hwhole := congrArg List.length hdrop'
      simp only [length_drop, length_append] at hwhole
      have hrest : (trailerBytes later ++ (lineEnd ++ rest)).length ≤ body.length := by
        simp only [length_append]
        omega
      have hstands := Nat.sub_add_cancel hrest
      refine ⟨_, (hspec _).mpr (.more hfield hdrop' hstands), ?_⟩
      obtain ⟨-, hafter⟩ := drop_split hposition hdrop' hstands
      refine ⟨later, rest, hlater, ?_, hnext, ?_, ?_⟩
      · rw [add_position]
        exact hafter
      · rw [add_trailers, headersOf_cons, append_assoc]
      · rw [add_signature, signatureOf_cons, Option.or_assoc]
  cases result with
  | error refusal =>
    refine ⟨_, rfl, ?_⟩
    intro ended
    refine iff_of_false nofun ?_
    intro hframed
    rcases hfirst hframed with hno | ⟨_, hno, -⟩
    · cases hno
    · cases hno
  | ok step =>
    have hstep := (hspec step).mp rfl
    cases hstep with
    | @last rest next hdrop hnext =>
      refine ⟨_, rfl, ?_⟩
      intro ended
      constructor
      · intro heq
        obtain rfl := ok.inj heq
        exact ⟨[], rest, nofun, hdrop, hnext, (append_nil _).symm, rfl⟩
      · intro hframed
        rcases hfirst hframed with hsame | ⟨_, hno, -⟩
        · rw [TrailerStep.last.inj (ok.inj hsame)]
        · cases hno
    | @more field rest next hfield hdrop hnext =>
      have hprogress := readTrailer_more hread
      obtain ⟨later, hrun, hlater⟩ := readTrailers_spec hbody _ hprogress.2
      refine ⟨later, hrun, ?_⟩
      intro ended
      rw [hlater ended]
      constructor
      · rintro ⟨fields, rest', hfields, hafter, hended, htrailers, hstated⟩
        obtain ⟨-, hrest⟩ := drop_split hposition hdrop hnext
        rw [add_position, hrest] at hafter
        refine ⟨field :: fields, rest', ?_, ?_, hended, ?_, ?_⟩
        · exact forall_mem_cons.mpr ⟨hfield, hfields⟩
        · rw [hdrop, hafter, trailerBytes, trailerBytes, flatMap_cons, append_assoc]
        · rw [htrailers, add_trailers, headersOf_cons field fields, append_assoc]
        · rw [hstated, add_signature, signatureOf_cons field fields, Option.or_assoc]
      · intro hframed
        rcases hfirst hframed with hno | ⟨_, hsame, hafter⟩
        · cases hno
        · rw [TrailerStep.more.inj (ok.inj hsame)]
          exact hafter
termination_by body.length - trailing.position
decreasing_by
  omega

/-! ## The whole body -/

/-- A framing of data and trailing headers in one of the streaming forms. -/
structure Framing (hashes : Hashes) (signer : Signer) (signed trailer : Bool) where
  chunks : List (Text × Bytes)
  last : Text
  fields : List (Text × Text)
  sized : ∀ framed ∈ chunks, Chunk framed
  ended : Sizes last 0
  marked : Marked hashes signer signed signer.seed (chunks ++ [(last, [])])
  lined : ∀ field ∈ fields, OnLine field
  untrailed : trailer = false → fields = []
  stated : signed = true → trailer = true → signatureOf fields =
    some (trailerSignature hashes signer
      (markOf hashes signer signed signer.seed (chunks.map Prod.snd ++ [[]])) (headersOf fields))

namespace Framing

variable (framing : Framing hashes signer signed trailer)

def bytes : Bytes :=
  chunkBytes framing.chunks ++ (lineBytes framing.last ++ (trailerBytes framing.fields ++ lineEnd))

def data : Bytes := framing.chunks.flatMap Prod.snd

def trailers : TrailerHeaders := headersOf framing.fields

/-- The chunks in order, the empty one last. -/
def pieces : List Bytes := framing.chunks.map Prod.snd ++ [[]]

end Framing

theorem verifyTrailer_spec {previous : Text} :
    verifyTrailer hashes signer signed previous trailing = .ok () ↔
      (signed = true → trailing.signature =
        some (trailerSignature hashes signer previous trailing.trailers)) := by
  unfold verifyTrailer
  cases signed with
  | false => exact iff_of_true rfl nofun
  | true =>
    rw [if_pos rfl]
    cases trailing.signature with
    | none =>
      refine iff_of_false nofun ?_
      intro h
      cases h rfl
    | some provided =>
      dsimp only
      split_ifs with hmatch
      · exact iff_of_true rfl fun _ => congrArg some hmatch.symm
      · refine iff_of_false nofun ?_
        intro h
        exact hmatch (Option.some.inj (h rfl)).symm

theorem chunksRead_drop {progress : Progress} {chunks : List (Text × Bytes)} {last : Text}
    {rest : Bytes} (h : body = chunkBytes chunks ++ (lineBytes last ++ rest))
    (hended : progress.position + rest.length = body.length) :
    body.drop progress.position = rest := by
  have hdrop : body.drop 0 = (chunkBytes chunks ++ lineBytes last) ++ rest := by
    rw [append_assoc]
    exact h
  exact (drop_split (Nat.zero_le _) hdrop hended).2

/-- Unframing never reads outside the body, and answers what the body frames. -/
theorem dechunk_spec (hbody : body.length ≤ isizeMax) :
    ∃ result, dechunk hashes body signer signed trailer = some result ∧
      ∀ data trailers, result = .ok (data, trailers) ↔
        ∃ framing : Framing hashes signer signed trailer,
          framing.bytes = body ∧ framing.data = data ∧ framing.trailers = trailers := by
  obtain ⟨read, hrun, hread⟩ := @readChunks_spec hashes signer signed body hbody
    ⟨0, [], signer.seed⟩ (Nat.zero_le _)
  -- the chunks of a framing are the chunks that are read
  have hframed : ∀ framing : Framing hashes signer signed trailer, framing.bytes = body →
      ∃ progress, read = .ok progress ∧ progress.data = framing.data ∧
        progress.previous = markOf hashes signer signed signer.seed framing.pieces ∧
        body.drop progress.position = trailerBytes framing.fields ++ lineEnd := by
    rintro framing rfl
    have hle : (trailerBytes framing.fields ++ lineEnd).length ≤ framing.bytes.length := by
      have hwhole : framing.bytes = (chunkBytes framing.chunks ++ lineBytes framing.last) ++
          (trailerBytes framing.fields ++ lineEnd) := (append_assoc _ _ _).symm
      rw [hwhole]
      exact (suffix_append _ _).length_le
    have hended := Nat.sub_add_cancel hle
    refine ⟨⟨_, framing.data, markOf hashes signer signed signer.seed framing.pieces⟩,
      (hread _).mpr ⟨framing.chunks, framing.last, _, framing.sized, framing.ended, framing.marked,
        rfl, hended, rfl, rfl⟩, rfl, rfl, ?_⟩
    exact chunksRead_drop rfl hended
  unfold dechunk
  rw [hrun]
  dsimp only [bind_eq_bind, bind_some]
  cases read with
  | error refusal =>
    refine ⟨_, rfl, ?_⟩
    intro data trailers
    refine iff_of_false nofun ?_
    rintro ⟨framing, hbytes, -⟩
    obtain ⟨_, hno, -⟩ := hframed framing hbytes
    cases hno
  | ok progress =>
    obtain ⟨chunks, last, rest, hchunks, hlast, hmarked, hdrop, hended, hdata, hprevious⟩ :=
      (hread progress).mp rfl
    change body = _ at hdrop
    change Marked hashes signer signed signer.seed _ at hmarked
    change progress.data = chunks.flatMap Prod.snd at hdata
    change progress.previous = markOf hashes signer signed signer.seed _ at hprevious
    have hrest := chunksRead_drop hdrop hended
    have hposition : progress.position ≤ body.length := by omega
    dsimp only
    cases trailer with
    | false =>
      rw [if_pos rfl, Http.slice_eq hposition le_rfl, take_length, hrest]
      by_cases hend : rest = lineEnd
      · rw [if_pos (congrArg some hend)]
        refine ⟨_, rfl, ?_⟩
        intro data trailers
        constructor
        · intro heq
          obtain ⟨rfl, rfl⟩ := Prod.mk.inj (ok.inj heq)
          refine ⟨⟨chunks, last, [], hchunks, hlast, hmarked, nofun, fun _ => rfl, nofun⟩, ?_,
            hdata.symm, rfl⟩
          rw [hend] at hdrop
          exact hdrop.symm
        · rintro ⟨framing, hbytes, rfl, rfl⟩
          obtain ⟨other, hsame, hdata', -, -⟩ := hframed framing hbytes
          obtain rfl := ok.inj hsame
          rw [hdata', Framing.trailers, framing.untrailed rfl]
          rfl
      · rw [if_neg fun heq => hend (Option.some.inj heq)]
        refine ⟨_, rfl, ?_⟩
        intro data trailers
        refine iff_of_false nofun ?_
        rintro ⟨framing, hbytes, -⟩
        obtain ⟨other, hsame, -, -, htail⟩ := hframed framing hbytes
        obtain rfl := ok.inj hsame
        rw [hrest, framing.untrailed rfl] at htail
        exact hend htail
    | true =>
      rw [if_neg nofun]
      obtain ⟨found, htrun, hfound⟩ := readTrailers_spec hbody ⟨progress.position, [], none⟩
        hposition
      rw [htrun]
      dsimp only [bind_some]
      -- the trailer of a framing is the trailer that is read
      have htrailed : ∀ framing : Framing hashes signer signed true, framing.bytes = body →
          found = .ok ⟨body.length, framing.trailers, signatureOf framing.fields⟩ := by
        intro framing hbytes
        obtain ⟨other, hsame, -, -, htail⟩ := hframed framing hbytes
        obtain rfl := ok.inj hsame
        refine (hfound _).mpr ⟨framing.fields, [], framing.lined, ?_, rfl, rfl, ?_⟩
        · rw [append_nil]
          exact htail
        · exact (or_none).symm
      cases found with
      | error refusal =>
        refine ⟨_, rfl, ?_⟩
        intro data trailers
        refine iff_of_false nofun ?_
        rintro ⟨framing, hbytes, -⟩
        cases htrailed framing hbytes
      | ok trailing =>
        obtain ⟨fields, later, hfields, htdrop, htended, htrailers, hstated⟩ :=
          (hfound trailing).mp rfl
        rw [nil_append] at htrailers
        rw [or_none] at hstated
        dsimp only
        by_cases hwhole : trailing.position = body.length
        · rw [if_neg (not_not.mpr hwhole)]
          obtain rfl : later = [] := length_eq_zero_iff.mp (by omega)
          change body.drop progress.position = _ at htdrop
          rw [append_nil, hrest] at htdrop
          cases hverified : verifyTrailer hashes signer signed progress.previous trailing with
          | error refusal =>
            refine ⟨_, rfl, ?_⟩
            intro data trailers
            refine iff_of_false nofun ?_
            rintro ⟨framing, hbytes, -⟩
            obtain ⟨other, hsame, -, hmark, -⟩ := hframed framing hbytes
            obtain rfl := ok.inj hsame
            obtain rfl := ok.inj (htrailed framing hbytes)
            have hok : verifyTrailer hashes signer signed progress.previous
                ⟨body.length, framing.trailers, signatureOf framing.fields⟩ = .ok () := by
              rw [verifyTrailer_spec, hmark]
              exact fun hsigned => framing.stated hsigned rfl
            rw [hok] at hverified
            cases hverified
          | ok verified =>
            refine ⟨_, rfl, ?_⟩
            intro data trailers
            constructor
            · intro heq
              obtain ⟨rfl, rfl⟩ := Prod.mk.inj (ok.inj heq)
              have hsigned := verifyTrailer_spec.mp hverified
              rw [hstated, htrailers, hprevious] at hsigned
              refine ⟨⟨chunks, last, fields, hchunks, hlast, hmarked, hfields, nofun,
                fun h _ => hsigned h⟩, ?_, hdata.symm, htrailers.symm⟩
              rw [htdrop] at hdrop
              exact hdrop.symm
            · rintro ⟨framing, hbytes, rfl, rfl⟩
              obtain ⟨other, hsame, hdata', -, -⟩ := hframed framing hbytes
              obtain rfl := ok.inj hsame
              obtain rfl := ok.inj (htrailed framing hbytes)
              rw [hdata']
        · rw [if_pos hwhole]
          refine ⟨_, rfl, ?_⟩
          intro data trailers
          refine iff_of_false nofun ?_
          rintro ⟨framing, hbytes, -⟩
          obtain rfl := ok.inj (htrailed framing hbytes)
          exact hwhole rfl

end Stado.S3.Listener.Chunked
