import Stado.ObjectApi.AssemblySpecs

/-!
# Assembled objects are exactly their parts

Two routes finish an upload: a composition names the parts of a chunked one, an
S3 completion those of a multipart one. What either leaves under the key is the
bytes it read, part after part, each checked against the digest that names it.
A refusal before that changes nothing, and neither route touches a part staged
for another key.
-/

namespace Stado.ObjectApi

open S3 (ObjectRef)
open Sigv4 (Text Bytes)
open Directory (contains)
open Checks (Refuses refuses_ok refuses_bind refuses_require refuses_mapError)
open Trials (Course)
open Trials.Trial (ending Stays Mild Stops stops_pure stops_stop stops_bind stops_tries
  stops_ofExcept stops_each stays_bind stays_bind_run stays_ending ending_of_stops ending_error
  bind_ok_inv bind_error)

/-! ## Refusals are no successes -/

section Refusals

variable {readings : Readings} {headLimit : ℕ}
  {authorized : ObjectRef → Bool → Except ComposeResponse Unit} {composition : Composition}
  {payload : ObjectComposeRequest} {α : Type} {object : ObjectRef}

def Fails (answer : ComposeResponse) : Prop := answer.succeeded = false

theorem refuses_checkChunks {uploadId : Text} {index remaining : ℕ}
    {asked : List ObjectComposeChunk} :
    Refuses Fails (checkChunks object uploadId index remaining asked) := by
  have hcompose : ∀ {α : Type} {x : Except Text α} {text : Text → Text},
      Refuses Fails (x.mapError fun error => composeError 400 (text error)) :=
    refuses_mapError fun _ => composeError_fails (by decide) _
  induction asked generalizing index remaining with
  | nil => exact refuses_ok
  | cons chunk rest ih =>
    refine refuses_bind ?_ fun _ => refuses_bind ih fun _ => refuses_ok
    exact refuses_bind (refuses_require (composeError_fails (by decide) _)) fun _ =>
      refuses_bind hcompose fun _ => refuses_bind hcompose fun _ =>
        refuses_bind (refuses_require (composeError_fails (by decide) _)) fun _ => refuses_ok

theorem refuses_checkRequest : Refuses Fails (checkRequest headLimit payload) := by
  have hrequire : ∀ {condition : Prop} [Decidable condition] {text : Text},
      Refuses Fails (Checks.require condition (composeError 400 text)) :=
    refuses_require (composeError_fails (by decide) _)
  have hcompose : ∀ {α : Type} {x : Except Text α} {text : Text → Text},
      Refuses Fails (x.mapError fun error => composeError 400 (text error)) :=
    refuses_mapError fun _ => composeError_fails (by decide) _
  exact refuses_bind hcompose fun _ => refuses_bind hrequire fun _ => refuses_bind hrequire
    fun _ => refuses_bind hrequire fun _ => refuses_bind hcompose fun _ => refuses_bind hrequire
      fun _ => refuses_bind hrequire fun _ => refuses_bind refuses_checkChunks fun _ =>
        refuses_bind hcompose fun _ => refuses_ok

theorem refuses_admitComposition {request : PostRequest}
    (hauthorized : ∀ object creates, Refuses Fails (authorized object creates)) :
    Refuses Fails (admitComposition headLimit authorized request) :=
  refuses_bind (refuses_require (composeError_fails (by decide) _)) fun _ =>
    refuses_bind (refuses_mapError fun _ => composeError_fails (by decide) _) fun _ =>
      refuses_bind refuses_checkRequest fun _ => refuses_bind (hauthorized _ _) fun _ => refuses_ok

theorem stops_composeTries (call : Store.StoreCall α) : Stops Fails (composeTries call) :=
  stops_tries fun _ => composeError_fails (by decide) _

theorem stops_assembleComposition : Stops Fails (assembleComposition readings composition) := by
  have hchunks : ∀ chunks, Stops Fails (stageChunks readings chunks) := by
    intro chunks
    induction chunks with
    | nil => exact stops_pure
    | cons chunk rest ih =>
      exact stops_bind (stops_composeTries _) fun _ => stops_bind
        (stops_ofExcept fun _ => stageChunk_fails) fun _ => stops_bind ih fun _ => stops_pure
  refine stops_bind (stops_tries fun error => storageErrorResponse_fails error) fun _ =>
    stops_bind (hchunks _) fun bytes => stops_bind (stops_ofExcept fun refusal h => ?_)
      fun _ => stops_pure
  by_cases hnames : names readings composition bytes
  · rw [checkAssembled_ok hnames] at h
    cases h
  · obtain ⟨other, hother, hfails⟩ := checkAssembled_fails hnames
    rw [hother] at h
    obtain rfl := Except.error.inj h
    exact hfails

theorem stops_publishAssembled {bytes : Bytes} :
    Stops Fails (publishAssembled readings composition bytes) := by
  have hcreate : Stops Fails (composeCreate readings composition bytes) := by
    refine stops_bind (stops_composeTries _) fun created => ?_
    cases created with
    | true => exact stops_pure
    | false =>
      refine stops_bind (stops_composeTries _) fun existing => stops_ofExcept fun refusal h => ?_
      unfold confirmExisting at h
      split at h
      · obtain rfl := Except.error.inj h
        exact composeError_fails (by decide) _
      · split_ifs at h
        obtain rfl := Except.error.inj h
        rfl
  have hpaths : Stops Fails (cleanupPaths composition) := by
    unfold cleanupPaths
    split
    · exact stops_bind (stops_composeTries _) fun _ => stops_pure
    · exact stops_pure
  have hfinish : Stops Fails (finishComposition composition) :=
    stops_bind (stops_composeTries _) fun _ => stops_bind (stops_composeTries _) fun _ =>
      stops_bind (stops_ofExcept (refuses_mapError fun _ => composeError_fails (by decide) _))
        fun _ => stops_bind hpaths fun _ =>
          stops_bind (stops_each fun _ => stops_composeTries _) fun _ => stops_pure
  unfold publishAssembled
  split
  · exact stops_bind hcreate fun _ => hfinish
  · exact stops_bind (stops_composeTries _) fun _ => hfinish

theorem stops_publishComposition : Stops Fails (publishComposition readings composition) :=
  stops_bind stops_assembleComposition fun _ => stops_publishAssembled

end Refusals

def Refusal (answer : Except S3Error Text) : Prop := ∃ error, answer = .error error

section S3Refusals

variable {readings : Readings} {documents : Documents} {request : CompleteRequest}

theorem stops_s3Tries (call : Store.StoreCall α) : Stops Refusal (s3Tries call) :=
  stops_tries fun _ => ⟨_, rfl⟩

theorem stops_orStop {x : Except S3Error α} : Stops Refusal (orStop x) :=
  stops_ofExcept (refuses_mapError fun error => ⟨error, rfl⟩)

theorem stops_readParts {upload : Text} {previous : Option ℕ} {asked : List CompletedPart} :
    Stops Refusal (readParts readings object upload previous asked) := by
  induction asked generalizing previous with
  | nil => exact stops_pure
  | cons part rest ih =>
    exact stops_bind stops_orStop fun _ => stops_bind (stops_s3Tries _) fun _ =>
      stops_bind stops_orStop fun _ => stops_bind ih fun _ => stops_pure

theorem stops_s3CompleteUpload : Stops Refusal (s3CompleteUpload readings documents request) := by
  have hmanifest : ∀ object upload, Stops Refusal (s3Manifest documents object upload) :=
    fun _ _ => stops_bind (stops_s3Tries _) fun _ => stops_bind stops_orStop fun _ => stops_orStop
  have hread : Stops Refusal (s3ReadUpload readings documents request) :=
    stops_bind stops_orStop fun _ => stops_bind stops_orStop fun _ => stops_bind stops_orStop
      fun _ => stops_bind (hmanifest _ _) fun _ => stops_bind stops_orStop fun _ =>
        stops_bind stops_orStop fun _ => stops_bind stops_readParts fun _ =>
          stops_bind stops_orStop fun _ => stops_bind stops_orStop fun _ =>
            stops_bind (stops_s3Tries _) fun _ => stops_pure
  have hetag : ∀ path data, Stops Refusal (s3Etag readings path data) := by
    intro path data
    unfold s3Etag
    split
    · exact stops_pure
    · refine stops_bind (stops_s3Tries _) fun versioned => ?_
      cases versioned with
      | some version => exact stops_pure
      | none => exact stops_stop ⟨_, rfl⟩
  have hdiscard : ∀ object upload, Stops Refusal (s3DiscardParts object upload) :=
    fun _ _ => stops_bind (stops_s3Tries _) fun _ => stops_bind
      (stops_each fun _ => stops_s3Tries _) fun _ => stops_pure
  exact stops_bind hread fun _ => stops_bind (stops_s3Tries _) fun _ => stops_bind
    (stops_s3Tries _) fun _ => stops_bind (hdiscard _ _) fun _ => stops_bind (hetag _ _)
      fun _ => stops_pure

end S3Refusals

/-- The bytes a composition read, part after part: each the chunk the request names, of the
declared size and digest and held under its name, and together the declared object, each the
window of it at its number. -/
structure PartsOf (readings : Readings) (kept : Text → Bytes → Prop)
    (payload : ObjectComposeRequest) (composition : Composition) (parts : List Bytes) : Prop where
  checked : Checked payload composition
  digests : List.Forall₂ (Matches readings) composition.chunks parts
  held : List.Forall₂ (fun chunk part => kept chunk.path part) composition.chunks parts
  size : parts.flatten.length = payload.size
  digest : readings.sha256 parts.flatten = payload.uploadId
  window : ∀ i part, parts[i]? = some part →
    part = (parts.flatten.drop (i * chunkBytes)).take chunkBytes

/-- The digest tells an object that was there from what the held chunks come to. -/
def Tells (readings : Readings) (kept : Text → Bytes → Prop) (composition : Composition)
    (disk : Disk) : Prop :=
  ∀ found parts, disk.get composition.path = some found →
    List.Forall₂ (fun chunk part => kept chunk.path part) composition.chunks parts →
      found.length = parts.flatten.length →
        readings.sha256 found = readings.sha256 parts.flatten → found = parts.flatten

section Finished

variable {readings : Readings} {headLimit : ℕ}
  {authorized : ObjectRef → Bool → Except ComposeResponse Unit} {documents : Documents}

variable {composition : Composition} {after : Disk} {f g : Course Disk StorageError} {disk : Disk}

theorem publishComposition_assembles {answer : ComposeResponse}
    (hchecked : Checked payload composition)
    (h : publishComposition readings composition disk f = (.ok answer, after, g))
    (halone : LeavesAlone composition.path f) {kept : Text → Bytes → Prop}
    (hmild : Mild (Holds kept) f) (hdisk : Holds kept disk)
    (htells : Tells readings kept composition disk) :
    ∃ parts, PartsOf readings kept payload composition parts ∧
      after.get composition.path = some parts.flatten := by
  obtain ⟨bytes, middle, rest, hassembled, hpublished⟩ := bind_ok_inv h
  obtain ⟨parts, rfl, hdigests, hnames, hheld⟩ := assembleComposition_ok hassembled
  have hparts := hheld kept hmild hdisk
  have hkeeps : Stays (fun d : Disk => d.get composition.path = disk.get composition.path)
      (assembleComposition readings composition) := stays_assembleComposition
  have hmiddle := hkeeps disk f (halone.mild (disk.get composition.path)) rfl
  rw [hassembled] at hmiddle
  have hrest : LeavesAlone composition.path rest := fun turn hturn =>
    halone turn (hmiddle.2.mem hturn)
  refine ⟨parts, ⟨hchecked, hdigests, hparts, hnames.1.trans hchecked.size,
    hnames.2.trans hchecked.uploadId, (windows_parts hchecked.windows hdigests).2⟩, ?_⟩
  rcases publishAssembled_ok hchecked.under hrest hpublished with
    hdata | ⟨found, hfound, hsame, hdata⟩
  · exact hdata
  · rw [hdata]
    rw [hmiddle.1] at hfound
    exact congrArg some (htells found parts hfound hparts (hsame.1.trans hnames.1.symm)
      (hsame.2.trans hnames.2.symm))

theorem s3CompleteUpload_assembles {answer : Except S3Error Text}
    (h : s3CompleteUpload readings documents request disk f = (.ok answer, after, g)) :
    ∃ composed stated parts, ReadUpload readings documents request composed stated parts ∧
      (∀ kept, Mild (Holds kept) f → Holds kept disk → List.Forall₂
        (fun name part => kept (partPath composed.object composed.upload name.1) part) stated
          parts) ∧
      (LeavesAlone composed.object.storagePath f →
        after.get composed.object.storagePath = some parts.flatten) := by
  obtain ⟨composed, middle, rest, hread, hpublished⟩ := bind_ok_inv h
  obtain ⟨stated, parts, hupload, hheld⟩ := s3ReadUpload_ok hread
  refine ⟨composed, stated, parts, hupload, hheld, fun halone => ?_⟩
  have hmiddle := @stays_s3ReadUpload readings documents (fun _ => True) request disk f
    (fun _ _ _ _ => trivial) trivial
  rw [hread] at hmiddle
  rw [s3PublishUpload_ok (fun turn hturn => halone turn (hmiddle.2.mem hturn)) hpublished,
    hupload.bytes]

theorem publishComposition_refused {refusal : ComposeResponse}
    (h : assembleComposition readings composition disk f = (.error refusal, after, g)) :
    ending (publishComposition readings composition) disk f = (refusal, after) :=
  ending_error (bind_error h)

/-- A create-only composition over another object changes nothing. -/
theorem publishComposition_foreign {I : Disk → Prop} {found : Bytes}
    (hmode : composition.ifAbsent = true) (halone : LeavesAlone composition.path f)
    (hfound : disk.get composition.path = some found)
    (hforeign : ¬ names readings composition found) (hmild : Mild I f) (hdisk : I disk) :
    (ending (publishComposition readings composition) disk f).1.succeeded = false ∧
      I (ending (publishComposition readings composition) disk f).2 := by
  have hassemble : Stays (fun d : Disk => I d ∧ d.get composition.path = some found)
      (assembleComposition readings composition) := stays_assembleComposition
  have hmiddle := hassemble disk f (fun turn hturn d hd => ⟨hmild turn hturn d hd.1,
    (halone turn hturn d).trans hd.2⟩) ⟨hdisk, hfound⟩
  rcases hrun : assembleComposition readings composition disk f with ⟨refusal | bytes, middle, rest⟩
  · rw [hrun] at hmiddle
    rw [publishComposition_refused hrun]
    exact ⟨stops_assembleComposition _ _ _ _ _ hrun, hmiddle.1.1⟩
  · rw [hrun] at hmiddle
    obtain ⟨refusal, after, g, hpublish, hafter⟩ : ∃ refusal after g,
        publishAssembled readings composition bytes middle rest = (.error refusal, after, g) ∧
          I after :=
      stays_publishForeign hmode hforeign (fun turn hturn => halone turn (hmiddle.2.mem hturn))
        hmiddle.1.2 (hmild.suffix hmiddle.2) hmiddle.1.1
    have hwhole : publishComposition readings composition disk f = (.error refusal, after, g) := by
      rw [← hpublish]
      exact Trials.Trial.bind_ok hrun
    rw [ending_error hwhole]
    exact ⟨stops_publishComposition _ _ _ _ _ hwhole, hafter⟩

/-! ## Parts of other keys -/

theorem stays_publishComposition_staged (hchecked : Checked payload composition) {other : ObjectRef}
    {path : Text} (hother : contains uploadPartMarker other.key = false)
    (hne : composition.object ≠ other) (hpath : partsPrefix other <+: path) (found : Option Bytes) :
    Stays (fun disk : Disk => disk.get path = found) (publishComposition readings composition) :=
  stays_bind stays_assembleComposition fun bytes => stays_publishAssembled hchecked.under
    (elsewhere_of_staged hchecked.unstaged hother hne hpath) bytes found

end Finished

section Staged

variable {readings : Readings} {documents : Documents} {other : ObjectRef} {path : Text}

/-- Nor does the completion of a multipart upload. -/
theorem stays_s3CompleteUpload_staged (hother : contains uploadPartMarker other.key = false)
    (hne : s3Object request.signer request.key ≠ .ok other) (hpath : partsPrefix other <+: path)
    (found : Option Bytes) :
    Stays (fun disk : Disk => disk.get path = found)
      (s3CompleteUpload readings documents request) := by
  refine stays_bind_run (stays_s3ReadUpload request) fun disk f composed after g hread => ?_
  obtain ⟨stated, parts, hupload, -⟩ := s3ReadUpload_ok hread
  have hobject : composed.object ≠ other := by
    rintro rfl
    exact hne hupload.object
  exact stays_s3PublishUpload composed (elsewhere_of_staged hupload.unstaged hother hobject hpath)
    found

theorem stays_s3AbortUpload_staged {signer : Signer} {key : Text}
    (hother : contains uploadPartMarker other.key = false) (hne : s3Object signer key ≠ .ok other)
    (hpath : partsPrefix other <+: path) (upload : Text) (found : Option Bytes) :
    Stays (fun disk : Disk => disk.get path = found) (s3AbortUpload signer key upload) := by
  refine stays_s3AbortUpload (fun object hobject hprefix => ?_) found
  obtain rfl := staged_apart (s3Object_unstaged hobject) hother hprefix hpath
  exact hne hobject

end Staged

/-- A composition that succeeds was checked, and leaves under its key the parts it names, each of
the stated size and digest, one after another, together the declared object and every part its
window of it; an upload that completes leaves the parts it states, in ascending order, each at
its ETag. Both hold of whatever was held under the parts' names as they were read, however often
that was replaced. Where either is refused before the object is written, and where a create-only
composition finds another object, what others leave alone is as it was. And no composition,
completion or abort touches a part staged for another key. -/
theorem parts_assembled (readings : Readings) (headLimit : ℕ)
    (authorized : ObjectRef → Bool → Except ComposeResponse Unit) (documents : Documents)
    (disk : Disk) (f : Course Disk StorageError) :
    (∀ request, (∀ object creates, Refuses Fails (authorized object creates)) →
      (ending (postObjectCompose readings headLimit authorized request) disk f).1.succeeded = true →
      ∃ payload composition, request.payload = .ok payload ∧
        admitComposition headLimit authorized request = .ok composition ∧
        Checked payload composition ∧
        ∀ kept, LeavesAlone composition.path f → Mild (Holds kept) f → Holds kept disk →
          Tells readings kept composition disk →
          ∃ parts, PartsOf readings kept payload composition parts ∧
            (ending (postObjectCompose readings headLimit authorized request) disk f).2.get
              composition.path = some parts.flatten) ∧
    (∀ request etag, (ending (s3CompleteUpload readings documents request) disk f).1 = .ok etag →
      ∃ composed stated parts, ReadUpload readings documents request composed stated parts ∧
        (∀ kept, Mild (Holds kept) f → Holds kept disk → List.Forall₂
          (fun name part => kept (partPath composed.object composed.upload name.1) part) stated
            parts) ∧
        (LeavesAlone composed.object.storagePath f →
          (ending (s3CompleteUpload readings documents request) disk f).2.get
            composed.object.storagePath = some parts.flatten)) ∧
    (∀ I : Disk → Prop, Mild I f → I disk →
      (∀ request refusal, admitComposition headLimit authorized request = .error refusal →
        ending (postObjectCompose readings headLimit authorized request) disk f = (refusal, disk)) ∧
      (∀ request composition, admitComposition headLimit authorized request = .ok composition →
        (∀ refusal after g,
          assembleComposition readings composition disk f = (.error refusal, after, g) →
            ending (postObjectCompose readings headLimit authorized request) disk f =
              (refusal, after) ∧ I after) ∧
        ∀ found, composition.ifAbsent = true → LeavesAlone composition.path f →
          disk.get composition.path = some found → ¬ names readings composition found →
            (ending (postObjectCompose readings headLimit authorized request) disk f).1.succeeded =
              false ∧
            I (ending (postObjectCompose readings headLimit authorized request) disk f).2) ∧
      ∀ request refusal after g,
        s3ReadUpload readings documents request disk f = (.error refusal, after, g) →
          ending (s3CompleteUpload readings documents request) disk f = (refusal, after) ∧
            I after) ∧
    ∀ other path found, contains uploadPartMarker other.key = false → partsPrefix other <+: path →
      Mild (fun disk : Disk => disk.get path = found) f → disk.get path = found →
        (∀ request, (∀ composition, admitComposition headLimit authorized request =
            .ok composition → composition.object ≠ other) →
          (ending (postObjectCompose readings headLimit authorized request) disk f).2.get path =
            found) ∧
        (∀ request, s3Object request.signer request.key ≠ .ok other →
          (ending (s3CompleteUpload readings documents request) disk f).2.get path = found) ∧
        ∀ signer key upload, s3Object signer key ≠ .ok other →
          (ending (s3AbortUpload signer key upload) disk f).2.get path = found := by
  refine ⟨?_, ?_, ?_, ?_⟩
  · intro request hauthorized hsucceeded
    rcases hadmitted : admitComposition headLimit authorized request with refusal | composition
    · rw [post_refused hadmitted] at hsucceeded
      have hfails : refusal.succeeded = false :=
        refuses_admitComposition hauthorized refusal hadmitted
      change refusal.succeeded = true at hsucceeded
      rw [hfails] at hsucceeded
      cases hsucceeded
    · obtain ⟨payload, hpayload, hchecked⟩ := admitted_checked hadmitted
      refine ⟨payload, composition, hpayload, rfl, hchecked, ?_⟩
      intro kept halone hmild hdisk htells
      rw [post_admitted hadmitted] at hsucceeded ⊢
      have hnot : ¬ Fails (ending (publishComposition readings composition) disk f).1 := by
        rw [Fails, hsucceeded]
        exact nofun
      obtain ⟨answer, after, g, hrun, hending⟩ := ending_of_stops stops_publishComposition hnot
      rw [hending]
      exact publishComposition_assembles hchecked hrun halone hmild hdisk htells
  · intro request etag hanswer
    have hnot : ¬ Refusal (ending (s3CompleteUpload readings documents request) disk f).1 := by
      rintro ⟨error, herror⟩
      cases hanswer.symm.trans herror
    obtain ⟨answer, after, g, hrun, hending⟩ := ending_of_stops stops_s3CompleteUpload hnot
    rw [hending]
    exact s3CompleteUpload_assembles hrun
  · intro I hmild hdisk
    refine ⟨?_, ?_, ?_⟩
    · intro request refusal hrefused
      rw [post_refused hrefused]
      rfl
    · intro request composition hadmitted
      rw [post_admitted hadmitted]
      refine ⟨fun refusal after g hrun => ⟨publishComposition_refused hrun, ?_⟩,
        fun found hmode halone hfound hforeign =>
          publishComposition_foreign hmode halone hfound hforeign hmild hdisk⟩
      have hkeeps : Stays I (assembleComposition readings composition) := stays_assembleComposition
      have hafter := (hkeeps disk f hmild hdisk).1
      rw [hrun] at hafter
      exact hafter
    · intro request refusal after g hrun
      have hafter := (@stays_s3ReadUpload readings documents I request disk f hmild hdisk).1
      rw [hrun] at hafter
      exact ⟨ending_error (bind_error hrun), hafter⟩
  · intro other path found hother hpath hmild hdisk
    refine ⟨?_, ?_, ?_⟩
    · intro request hne
      rcases hadmitted : admitComposition headLimit authorized request with refusal | composition
      · rw [post_refused hadmitted]
        exact hdisk
      · obtain ⟨payload, -, hchecked⟩ := admitted_checked hadmitted
        rw [post_admitted hadmitted]
        exact stays_ending (stays_publishComposition_staged hchecked hother
          (hne composition hadmitted) hpath found) hdisk hmild
    · intro request hne
      exact stays_ending (stays_s3CompleteUpload_staged hother hne hpath found) hdisk hmild
    · intro signer key upload hne
      exact stays_ending (stays_s3AbortUpload_staged hother hne hpath upload found) hdisk hmild

def hiDigest : Text := "8f434346648f6b96df89dda901c5176b10a6d83961dd3c1ac88b59b2dc327aa4".toList

def hiReadings : Readings :=
  ⟨fun _ => none, fun data => if data = [104, 105] then hiDigest else [], fun _ => .ok ∅⟩

/-- The text "hi" staged as the one chunk of an upload of `note`. -/
def hiStaged : Disk :=
  Disk.empty.publish ("ecosystem/demo/note.__stado_upload/".toList ++ hiDigest ++
    "/00000000".toList) [104, 105]

def composeHi : PostRequest where
  headers := [("content-type".toList, "application/json".toList)]
  payload := .ok
    { uri := "stado://demo/note".toList
      contentType := "text/plain".toList
      ifAbsent := true
      metadata := ∅
      uploadId := hiDigest
      size := 2
      chunks := [⟨"stado://demo/note.__stado_upload/".toList ++ hiDigest ++ "/00000000".toList, 2,
        hiDigest⟩] }

example : (ending (postObjectCompose hiReadings 4096 (fun _ _ => .ok ()) composeHi) hiStaged
    []).2.get "ecosystem/demo/note".toList = some [104, 105] := by decide +kernel

end Stado.ObjectApi
