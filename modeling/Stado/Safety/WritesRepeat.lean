import Stado.ObjectApi.ComposeSpecs

/-!
# Create-only writes that cannot be repeated

The bytes of an object and its metadata are written by two calls. The object
API and the S3 endpoint meet what their own first call left as a conflict; a
composition compares it with what it would have written and goes on, as long as
its chunks are still there.
-/

namespace Stado.ObjectApi

open Trials.Trial

open S3 (ObjectRef)
open Sigv4 (Text Bytes)
open Trials (Faults alone)

/-- Everything on a disk is on another one with the same bytes. -/
def Preserved (before after : Disk) : Prop :=
  ∀ path data, before.get path = some data → after.get path = some data

variable {data : Bytes}

theorem creating_preserves {Answer : Type} {onError : StorageError → Answer} {conflict : Answer}
    {path : Text} {landing : Trials.Trial Disk StorageError Answer Answer}
    (hland : ∀ other found, Stays (fun disk : Disk => disk.get other = found) landing)
    (disk : Disk) (faults : Faults StorageError) :
    Preserved disk (ending (creating onError conflict path data landing) disk
      (alone faults)).2 := by
  intro other found hfound
  have hkeeps : Stays (fun disk : Disk => disk.get other = some found)
      (creating onError conflict path data landing) := by
    refine stays_bind (stays_tries nofun) fun _ =>
      stays_bind (stays_tries ?_) fun created => ?_
    · intro stage hstage disk hdisk
      obtain rfl := List.mem_singleton.mp hstage
      rcases hget : disk.get path with _ | there
      · rw [Disk.publishIfAbsent_none hget]
        have hne : other ≠ path := by
          rintro rfl
          cases hget.symm.trans hdisk
        rw [Disk.get_publish_ne hne, hdisk]
      · rw [Disk.publishIfAbsent_some hget, hdisk]
    · cases created with
      | false => exact stays_stop
      | true => exact hland other (some found)
  exact stays_ending hkeeps hfound (mild_alone _ faults)

variable {readings : Readings} {object : ObjectRef}

theorem doPut_preserves {request : PutRequest}
    (h : CreateOnly request) (disk : Disk) (faults : Faults StorageError) :
    Preserved disk (ending (doPut readings object request) disk (alone faults)).2 := by
  rcases hmetadata : requestedMetadata readings object request with refusal | metadata
  · obtain ⟨response, -, hrun⟩ := doPut_refused h hmetadata disk faults
    rw [hrun]
    exact fun _ _ hfound => hfound
  · rw [doPut_createOnly h hmetadata]
    exact creating_preserves stays_landMetadata disk faults

theorem s3PutObject_preserves
    {request : S3PutRequest} (hadmitted : request.admitted = .ok (object, data))
    (hmode : putMode request.headers = .ok .createOnly) (disk : Disk) (faults : Faults StorageError) :
    Preserved disk (ending (s3PutObject readings request) disk (alone faults)).2 := by
  rcases hmetadata : s3Metadata object request with error | metadata
  · rw [s3PutObject_refused (.inr ⟨data, hadmitted, hmetadata⟩)]
    exact fun _ _ hfound => hfound
  · rw [s3PutObject_createOnly hadmitted hmetadata hmode]
    exact creating_preserves stays_s3Land disk faults

def Severed (composition : Composition) (disk : Disk) (faults : Faults StorageError) : Prop :=
  ∃ hit, strike (callsBefore composition disk + (cleared composition disk).length) faults =
    some hit ∧ ∃ chunk ∈ composition.chunks,
      chunk.path ∈ removedBy (callsBefore composition disk) hit (cleared composition disk)

/-- A write of the object API, sent again, finishes what it left exactly when there was no
object, and no call failed from the one that stores the bytes on; so does one of the S3
endpoint. A composition does exactly when its chunks were there and its target was absent or
the composed object, and it did not fail after clearing one of its chunks away; or when it
could not be assembled and its target was absent. None of them changes the bytes of what
existed; a composition clears the target's staged parts. -/
theorem writes_repeat (readings : Readings) (headLimit : ℕ)
    (authorized : ObjectRef → Bool → Except ComposeResponse Unit) (disk : Disk)
    (faults : Faults StorageError) :
    (∀ object request, CreateOnly request →
      (Finishable (doPut readings object request) Response.succeeded object.storagePath
          (PutFinished readings object request) disk faults ↔
        disk.get object.storagePath = none ∧
          ∀ metadata, requestedMetadata readings object request = .ok metadata →
            ∀ hit, strike 4 faults = some hit → Early 1 hit) ∧
      Preserved disk (ending (doPut readings object request) disk (alone faults)).2) ∧
    (∀ object data request, request.admitted = .ok (object, data) →
      putMode request.headers = .ok .createOnly →
      (Finishable (s3PutObject readings request) answered object.storagePath
          (S3Finished object data request) disk faults ↔
        disk.get object.storagePath = none ∧ ∀ metadata, s3Metadata object request = .ok metadata →
            ∀ hit, strike (2 + landingCalls readings data) faults = some hit → Early 1 hit) ∧
      Preserved disk (ending (s3PutObject readings request) disk (alone faults)).2) ∧
    (∀ error request, request.admitted = .error error → ∀ path finished,
      (Finishable (s3PutObject readings request) answered path finished disk faults ↔
        disk.get path = none) ∧
      (ending (s3PutObject readings request) disk (alone faults)).2 = disk) ∧
    (∀ composition request, admitComposition headLimit authorized request = .ok composition →
      composition.ifAbsent = true →
      (Finishable (postObjectCompose readings headLimit authorized request)
          ComposeResponse.succeeded composition.path (ComposeFinished readings composition) disk
          faults ↔
        disk.get composition.path = none ∧ (¬ ∃ bytes, Assembled readings composition disk bytes) ∨
          (∃ bytes, Assembled readings composition disk bytes) ∧
            Ours readings composition disk ∧ ¬ Severed composition disk faults) ∧
      ∀ path data, disk.get path = some data → Spared composition.object path data
          (ending (postObjectCompose readings headLimit authorized request) disk
            (alone faults)).2) ∧
    (∀ refusal request, admitComposition headLimit authorized request = .error refusal →
      refusal.succeeded = false → ∀ path finished,
      (Finishable (postObjectCompose readings headLimit authorized request)
          ComposeResponse.succeeded path finished disk faults ↔ disk.get path = none) ∧
      (ending (postObjectCompose readings headLimit authorized request) disk
        (alone faults)).2 = disk) := by
  refine ⟨?_, ?_, ?_, ?_, ?_⟩
  · intro object request hcreate
    exact ⟨doPut_finishable hcreate disk faults, doPut_preserves hcreate disk faults⟩
  · intro object data request hadmitted hmode
    exact ⟨s3PutObject_finishable hadmitted hmode disk faults,
      s3PutObject_preserves hadmitted hmode disk faults⟩
  · intro error request hadmitted path finished
    have hrefused : ∀ faults : Faults StorageError,
        ending (s3PutObject readings request) disk (alone faults) = (.error error, disk) :=
      fun faults => by
        unfold s3PutObject
        rw [hadmitted]
        rfl
    refine ⟨finishable_of_refused (fun faults => ?_) faults, by rw [hrefused]⟩
    rw [hrefused]
    exact ⟨rfl, rfl⟩
  · intro composition request hadmitted hcreate
    obtain ⟨payload, -, hchecked⟩ := admitted_checked hadmitted
    rw [post_admitted hadmitted]
    constructor
    · rw [publish_finishable hcreate hchecked.under, Severed]
      simp only [not_exists, not_and]
    · intro path data hfound
      exact stays_ending (stays_publishComposition hcreate path data) (.inl hfound)
        (mild_alone _ faults)
  · intro refusal request hrefused hfails path finished
    rw [post_refused hrefused]
    exact ⟨finishable_of_refused (fun _ => ⟨hfails, rfl⟩) faults, rfl⟩

def note : ObjectRef := ⟨"demo".toList, "note".toList, by decide, by decide⟩

/-- Bytes read as no text in particular. -/
def plainly : Readings := ⟨fun _ => none, fun _ => [], fun _ => .ok ∅⟩

def createNote : PutRequest := ⟨.ok ⟨some "true".toList, none, none⟩, [], [104, 105]⟩

/-- The bytes of a new object are stored and its metadata is not: the same request, sent again,
is answered 409. -/
theorem half_written : ¬ Finishable (doPut plainly note createNote) Response.succeeded
    note.storagePath (PutFinished plainly note createNote) Disk.empty
    [none, none, some ⟨0, .other "disk full".toList⟩] := by
  intro hfinish
  have hcreate : CreateOnly createNote := ⟨_, rfl, rfl, rfl⟩
  obtain ⟨-, hearly⟩ := (doPut_finishable hcreate _ _).mp hfinish
  obtain ⟨metadata, hmetadata⟩ :
      ∃ metadata, requestedMetadata plainly note createNote = .ok metadata := ⟨_, rfl⟩
  exact absurd (hearly metadata hmetadata _ rfl) (by decide)

end Stado.ObjectApi
