import Stado.ObjectApi.Writes

/-!
# What a create-only write leaves behind

One lemma for a write that meets an object, and one for each way a write that
meets none can end.
-/

namespace Stado.ObjectApi

open List Option Trials.Trial Trials Store Disk Except

open S3 (ObjectRef)
open Sigv4 (Text Bytes)

/-! ## Metadata that landed -/

/-- The stated fields of a write are the ones of the object. -/
def Landed (path : Text) (metadata : Metadata) (disk : Disk) : Prop :=
  ∀ field value, metadata.lookup field = some value → value ≠ [] →
    (disk.readSidecar path).lookup field = some value

variable {path : Text} {disk : Disk} {data : Bytes} {finished : Disk → Prop} {metadata : Metadata}

theorem landed_mergeMetadata
    (h : disk.get path = some data) : Landed path metadata (disk.mergeMetadata path metadata) := by
  intro field value hfield hvalue
  rw [readSidecar_mergeMetadata h]
  exact lookup_merge metadata _ hfield hvalue

theorem find_named (disk : Disk) {names : List Text} (h : path ∈ names) :
    (names.map fun name => (⟨name, disk.readSidecar name⟩ : BlobInfo)).find?
      (fun blob => blob.name = path) = some ⟨path, disk.readSidecar path⟩ := by
  induction names with
  | nil => cases h
  | cons name rest ih =>
    rw [map_cons, List.find?_cons]
    by_cases hname : name = path
    · rw [hname, decide_eq_true rfl]
    · rw [decide_eq_false hname]
      exact ih ((mem_cons.mp h).resolve_left fun heq => hname heq.symm)

theorem mem_names_self (h : disk.get path = some data) : path ∈ disk.names path :=
  mem_names.mpr ⟨⟨data, h⟩, prefix_rfl⟩

theorem verifyLanded_ok {object : ObjectRef} (h : disk.get object.storagePath = some data)
    (hlanded : Landed object.storagePath metadata disk) :
    verifyLanded object metadata ((disk.names object.storagePath).map fun name =>
      ⟨name, disk.readSidecar name⟩) = .ok () := by
  rw [verifyLanded, find_named disk (mem_names_self h)]
  have hnone : (metadata.entries.any fun field =>
      field.2 ≠ [] && (disk.readSidecar object.storagePath).lookup field.1 ≠ some field.2) =
        false := by
    rw [List.any_eq_false]
    rintro ⟨field, value⟩ hfield hfails
    rw [Bool.and_eq_true, decide_eq_true_eq, decide_eq_true_eq] at hfails
    exact hfails.2 (hlanded field value (AList.mem_lookup_iff.mpr hfield) hfails.1)
  show (if (metadata.entries.any fun field =>
      field.2 ≠ [] && (disk.readSidecar object.storagePath).lookup field.1 ≠ some field.2) = true
    then error _ else ok ()) = _
  rw [hnone]
  rfl

/-! ## Writes that create -/

/-- A failure that leaves no object: before the call that creates it, or in it and before
anything is stored. -/
def Early (creation : ℕ) (hit : ℕ × Fault StorageError) : Prop :=
  hit.1 < creation ∨ hit.1 = creation ∧ hit.2.stages = 0

instance instDecidableEarly (creation : ℕ) (hit : ℕ × Fault StorageError) :
    Decidable (Early creation hit) :=
  inferInstanceAs (Decidable (_ ∨ _))

/-- The same write sent again, not disturbed, succeeds and finishes the object. -/
def Finishes {Answer : Type} (route : Trial Disk StorageError Answer Answer)
    (good : Answer → Bool) (finished : Disk → Prop) (disk : Disk) : Prop :=
  good (ending route disk (alone [])).1 = true ∧ finished (ending route disk (alone [])).2

/-- What a write that does not succeed leaves is no object, or one that it finishes. -/
def Finishable {Answer : Type} (route : Trial Disk StorageError Answer Answer)
    (good : Answer → Bool) (path : Text) (finished : Disk → Prop) (disk : Disk)
    (faults : Faults StorageError) : Prop :=
  good (ending route disk (alone faults)).1 = false →
    (ending route disk (alone faults)).2.get path = none ∨
      Finishes route good finished (ending route disk (alone faults)).2

/-- A write that is refused whenever it is sent leaves what it finds. -/
theorem finishable_of_refused {Answer : Type} {route : Trial Disk StorageError Answer Answer}
    {good : Answer → Bool} (h : ∀ faults, good (ending route disk (alone faults)).1 = false ∧
      (ending route disk (alone faults)).2 = disk) (faults : Faults StorageError) :
    Finishable route good path finished disk faults ↔ disk.get path = none := by
  obtain ⟨hfails, hsame⟩ := h faults
  constructor
  · intro hfinish
    rcases hfinish hfails with hnone | ⟨hgood, -⟩
    · rwa [hsame] at hnone
    · rw [hsame, (h []).1] at hgood
      cases hgood
  · intro hnone _
    exact .inl (hsame.symm ▸ hnone)

section Creating

variable {Answer : Type} {onError : StorageError → Answer} {conflict : Answer} {path : Text}
  {data : Bytes} {landing : Trial Disk StorageError Answer Answer}

/-- The fence, the creation and what lands the rest. -/
def creating (onError : StorageError → Answer) (conflict : Answer) (path : Text) (data : Bytes)
    (landing : Trial Disk StorageError Answer Answer) : Trial Disk StorageError Answer Answer :=
  Trial.bind (tries onError storageWriteGuard) fun _ =>
    Trial.bind (tries onError (uploadFileIfAbsent path data)) fun created =>
      if created = false then stop conflict else landing

variable {disk : Disk} {hit : ℕ × Fault StorageError} {faults : Faults StorageError} {found : Bytes}

theorem create_some (h : disk.get path = some found) (n : ℕ) :
    (uploadFileIfAbsent path data).partway n disk = disk := by
  rcases n with _ | n
  · exact Call.partway_zero _ disk
  · show List.foldl _ disk (List.take (n + 1) [publishIfAbsent _ _]) = disk
    rw [take_of_length_le (by simp)]
    exact publishIfAbsent_some h

theorem create_none (h : disk.get path = none) (n : ℕ) :
    (uploadFileIfAbsent path data).partway (n + 1) disk = disk.publish path data := by
  show List.foldl _ disk (List.take (n + 1) [publishIfAbsent _ _]) = _
  rw [take_of_length_le (by simp)]
  exact publishIfAbsent_none h

theorem create_whole_none (h : disk.get path = none) :
    (uploadFileIfAbsent path data).whole disk = disk.publish path data := by
  rw [Call.whole_eq_partway]
  exact create_none h 0

/-- A write that meets an object is refused and changes nothing. -/
theorem creating_exists (h : disk.get path = some found)
    (faults : Faults StorageError) : ∃ answer,
      (answer = conflict ∨ ∃ error, answer = onError error) ∧
      Trial.ending (creating onError conflict path data landing) disk (alone faults) =
        (answer, disk) := by
  cases hguard : strike 1 faults with
  | some first =>
    exact ⟨_, .inr ⟨_, rfl⟩, Trial.ending_error (bind_error (asks_struck rfl hguard))⟩
  | none =>
    have hfenced : ∀ {answer : Answer} {after : Disk} {rest},
        Trial.bind (tries onError (uploadFileIfAbsent path data))
          (fun created => if created = false then stop conflict else landing) disk
            (alone (faults.drop 1)) = (.error answer, after, rest) →
        Trial.ending (creating onError conflict path data landing) disk (alone faults) =
          (answer, after) := by
      intro answer after rest hrest
      exact Trial.ending_error ((bind_ok (asks_ok rfl hguard rfl)).trans hrest)
    cases hcreate : strike 1 (faults.drop 1) with
    | some second =>
      have hcreated : tries onError (uploadFileIfAbsent path data) disk
          (alone (faults.drop 1)) =
            (.error (onError second.2.error), disk, alone ((faults.drop 1).drop 1)) := by
        rw [tries_struck hcreate, create_some h]
      exact ⟨_, .inr ⟨_, rfl⟩, hfenced (bind_error hcreated)⟩
    | none =>
      have hanswer : (uploadFileIfAbsent path data).answer disk = .ok false := by
        show ok (disk.get path).isNone = _
        rw [h]
        rfl
      have hcreated : tries onError (uploadFileIfAbsent path data) disk
          (alone (faults.drop 1)) = (.ok false, disk, alone ((faults.drop 1).drop 1)) := by
        rw [tries_ok hcreate hanswer, Call.whole_eq_partway, create_some h]
      exact ⟨conflict, .inl rfl, hfenced (bind_ok hcreated)⟩

/-- A write that meets no object creates it and goes on to land the rest, unless one of its
first two calls fails. -/
theorem creating_absent (onError : StorageError → Answer) (conflict : Answer) (data : Bytes)
    (landing : Trial Disk StorageError Answer Answer) (h : disk.get path = none)
    (hclear : strike 2 faults = none) :
    creating onError conflict path data landing disk (alone faults) =
      landing (disk.publish path data) (alone (faults.drop 2)) := by
  rw [show 2 = 1 + 1 from rfl, strike_add_none] at hclear
  have hanswer : (uploadFileIfAbsent path data).answer disk = .ok true := by
    show ok (disk.get path).isNone = _
    rw [h]
    rfl
  rw [creating, bind_ok (asks_ok rfl hclear.1 rfl), bind_ok (tries_ok hclear.2 hanswer),
    create_whole_none h, drop_drop]
  rfl

theorem creating_struck (onError : StorageError → Answer) (conflict : Answer) (data : Bytes)
    (landing : Trial Disk StorageError Answer Answer) (h : disk.get path = none)
    (hstrike : strike 2 faults = some hit) : ∃ after,
      (after.get path = none ↔ Early 1 hit) ∧
      Trial.ending (creating onError conflict path data landing) disk (alone faults) =
        (onError hit.2.error, after) := by
  rw [show 2 = 1 + 1 from rfl, Trial.strike_add] at hstrike
  cases hguard : strike 1 faults with
  | some first =>
    rw [hguard, some_or] at hstrike
    obtain rfl := Option.some.inj hstrike
    refine ⟨disk, ?_, Trial.ending_error (bind_error (asks_struck rfl hguard))⟩
    exact ⟨fun _ => .inl (Trial.strike_lt hguard), fun _ => h⟩
  | none =>
    rw [hguard, none_or] at hstrike
    obtain ⟨second, hcreate, rfl⟩ := map_eq_some_iff.mp hstrike
    have hzero : second.1 = 0 := Nat.lt_one_iff.mp (Trial.strike_lt hcreate)
    have hcreating : creating onError conflict path data landing disk (alone faults) =
        (.error (onError second.2.error),
          (uploadFileIfAbsent path data).partway second.2.stages disk,
          alone ((faults.drop 1).drop 1)) := by
      rw [creating, bind_ok (asks_ok rfl hguard rfl), bind_error (tries_struck hcreate)]
    refine ⟨_, ?_, Trial.ending_error hcreating⟩
    rw [Early, hzero]
    rcases hstages : second.2.stages with _ | n
    · rw [Call.partway_zero]
      exact ⟨fun _ => .inr ⟨rfl, rfl⟩, fun _ => h⟩
    · rw [create_none h, get_publish]
      constructor
      · intro hnone
        cases hnone
      · rintro (hlt | ⟨-, hstages⟩)
        · exact absurd hlt (Nat.lt_irrefl _)
        · cases hstages

/-- What a landing of `calls` calls must do for the write to be finished when none of them
fails. -/
structure Lands (good : Answer → Bool) (path : Text) (finished : Disk → Prop) (calls : ℕ)
    (landing : Trial Disk StorageError Answer Answer) (disk : Disk) : Prop where
  clear : ∀ faults, strike calls faults = none → ∃ answer after rest,
    landing disk (alone faults) = (.ok answer, after, rest) ∧ good answer = true ∧ finished after
  struck : ∀ faults hit, strike calls faults = some hit → ∃ answer after rest,
    landing disk (alone faults) = (.error answer, after, rest) ∧ good answer = false
  keeps : ∀ found, Stays (fun disk : Disk => disk.get path = found) landing

/-- Exactly when a create-only write leaves nothing that it cannot finish itself. -/
theorem creating_finishable {good : Answer → Bool} {calls : ℕ}
    (hconflict : good conflict = false) (herror : ∀ error, good (onError error) = false)
    (hlands : Lands good path finished calls landing (disk.publish path data))
    (faults : Faults StorageError) :
    Finishable (creating onError conflict path data landing) good path finished disk faults ↔
    disk.get path = none ∧ ∀ hit, strike (2 + calls) faults = some hit → Early 1 hit := by
  -- an object in the way is refused now and again
  have hstuck : ∀ (disk : Disk) (faults : Faults StorageError) (found : Bytes),
      disk.get path = some found → good (ending
        (creating onError conflict path data landing) disk (alone faults)).1 = false ∧
        (ending (creating onError conflict path data landing) disk
          (alone faults)).2 = disk := by
    intro disk faults found hfound
    obtain ⟨answer, hanswer, hrun⟩ := creating_exists hfound faults
    rw [hrun]
    refine ⟨?_, rfl⟩
    rcases hanswer with rfl | ⟨error, rfl⟩
    · exact hconflict
    · exact herror error
  have hblocked : ∀ (disk : Disk) (found : Bytes), disk.get path = some found →
      ¬ Finishes (creating onError conflict path data landing) good finished disk := by
    rintro disk found hfound ⟨hgood, -⟩
    rw [(hstuck disk [] found hfound).1] at hgood
    cases hgood
  unfold Finishable
  rcases hget : disk.get path with _ | found
  · rw [strike_add]
    cases hfirst : strike 2 faults with
    | some hit =>
      obtain ⟨after, hafter, hrun⟩ := creating_struck onError conflict data landing hget hfirst
      rw [hrun, some_or]
      constructor
      · intro hfinish
        refine ⟨rfl, fun other hother => ?_⟩
        obtain rfl := Option.some.inj hother
        rcases hfinish (herror _) with hnone | hagain
        · exact hafter.mp hnone
        · rcases hleft : after.get path with _ | left
          · exact hafter.mp hleft
          · exact absurd hagain (hblocked after left hleft)
      · rintro ⟨-, hearly⟩ -
        exact .inl (hafter.mpr (hearly hit rfl))
    | none =>
      have hrun := creating_absent onError conflict data landing hget hfirst
      rw [none_or]
      cases hlater : strike calls (faults.drop 2) with
      | none =>
        obtain ⟨answer, after, rest, hland, hgood, -⟩ := hlands.clear _ hlater
        rw [ending_ok (hrun.trans hland)]
        refine ⟨fun _ => ⟨rfl, nofun⟩, fun _ hfails => ?_⟩
        rw [hgood] at hfails
        cases hfails
      | some hit =>
        obtain ⟨answer, after, rest, hland, hfails⟩ := hlands.struck _ hit hlater
        have hkept := (hlands.keeps (some data) (disk.publish path data) _
          (mild_alone _ (faults.drop 2)) (get_publish ..)).1
        rw [hland] at hkept
        rw [ending_error (hrun.trans hland)]
        constructor
        · intro hfinish
          exfalso
          rcases hfinish hfails with hnone | hagain
          · cases hnone.symm.trans hkept
          · exact hblocked after data hkept hagain
        · rintro ⟨-, hearly⟩
          rcases hearly (hit.1 + 2, hit.2) rfl with hlt | ⟨heq, -⟩
          · omega
          · omega
  · obtain ⟨hfails, hsame⟩ := hstuck disk faults found hget
    constructor
    · intro hfinish
      exfalso
      rcases hfinish hfails with hnone | hagain
      · rw [hsame, hget] at hnone
        cases hnone
      · rw [hsame] at hagain
        exact hblocked disk found hget hagain
    · rintro ⟨hnone, -⟩
      cases hnone

end Creating

/-! ## The object API -/

theorem storageErrorResponse_fails (error : StorageError) :
    (storageErrorResponse error).succeeded = false := by
  cases error <;> rfl

section Put

variable {readings : Readings} {object : ObjectRef} {request : PutRequest} {metadata : Metadata}
  {disk : Disk} {faults : Faults StorageError} {refusal : Response}

theorem landMetadata_clear (h : disk.get object.storagePath = some data)
    (hclear : strike 2 faults = none) :
    landMetadata object request metadata disk (alone faults) =
      (.ok ⟨200, [("state".toList, "stored".toList), uriField object,
        ("content_type".toList, declaredType request.headers)]⟩,
        disk.mergeMetadata object.storagePath metadata, alone (faults.drop 2)) := by
  rw [show 2 = 1 + 1 from rfl, Trial.strike_add_none] at hclear
  have hget : (disk.mergeMetadata object.storagePath metadata).get object.storagePath =
      some data := by
    rw [get_mergeMetadata, h]
  show Trial.bind (tries _ _) _ disk (alone faults) = _
  rw [bind_ok (tries_ok hclear.1 rfl)]
  show Trial.bind (tries _ _) _ (disk.mergeMetadata object.storagePath metadata) _ = _
  rw [bind_ok (asks_ok rfl hclear.2 rfl)]
  show Trial.bind (ofExcept ((verifyLanded object metadata
    (((disk.mergeMetadata object.storagePath metadata).names object.storagePath).map fun name =>
      ⟨name, (disk.mergeMetadata object.storagePath metadata).readSidecar name⟩)).mapError _)) _ _ _
      = _
  rw [verifyLanded_ok hget (landed_mergeMetadata h), drop_drop]
  rfl

theorem landMetadata_struck (hstrike : strike 2 faults = some hit) :
    ∃ response after rest,
      landMetadata object request metadata disk (alone faults) = (.error response, after, rest) ∧
        response.succeeded = false := by
  rw [show 2 = 1 + 1 from rfl, Trial.strike_add] at hstrike
  show ∃ response after rest, Trial.bind (tries _ _) _ disk (alone faults) = _ ∧ _
  cases hfirst : strike 1 faults with
  | some first =>
    exact ⟨_, _, _, bind_error (tries_struck hfirst), storageErrorResponse_fails _⟩
  | none =>
    rw [hfirst, none_or] at hstrike
    obtain ⟨second, hsecond, -⟩ := map_eq_some_iff.mp hstrike
    rw [bind_ok (tries_ok hfirst rfl)]
    exact ⟨_, _, _, bind_error (asks_struck rfl hsecond), storageErrorResponse_fails _⟩

theorem stays_landMetadata (path : Text) (found : Option Bytes) :
    Stays (fun disk : Disk => disk.get path = found) (landMetadata object request metadata) := by
  refine stays_bind (stays_tries ?_) fun _ =>
    stays_bind (stays_tries nofun) fun _ =>
      stays_bind stays_ofExcept fun _ => stays_pure
  intro stage hstage disk hdisk
  obtain rfl := mem_singleton.mp hstage
  rw [get_mergeMetadata, hdisk]

theorem landMetadata_lands (disk : Disk) : Lands Response.succeeded object.storagePath
    (fun after => after.get object.storagePath = some request.body ∧
      Landed object.storagePath metadata after) 2 (landMetadata object request metadata)
    (disk.publish object.storagePath request.body) := by
  refine ⟨fun faults hclear => ?_, fun faults hit hstrike => landMetadata_struck hstrike,
    stays_landMetadata _⟩
  have hget := get_publish object.storagePath request.body disk
  refine ⟨_, _, _, landMetadata_clear hget hclear, rfl, ?_, landed_mergeMetadata hget⟩
  rw [get_mergeMetadata, hget]

/-- A write that only creates, and asks for nothing else. -/
def CreateOnly (request : PutRequest) : Prop :=
  ∃ query, request.query = .ok query ∧ query.createOnly = true ∧ query.contradictory = false

theorem putObject_createOnly (h : CreateOnly request) :
    putObject readings object request =
      Trial.bind (ofExcept (requestedMetadata readings object request)) fun metadata =>
        putCreate object request metadata := by
  obtain ⟨query, hquery, hcreate, hone⟩ := h
  have hmetadata : query.onlyMetadata = false := by
    by_contra hon
    rw [WriteQuery.contradictory, hcreate, Bool.eq_true_of_not_eq_false hon] at hone
    simp at hone
  have hexpected : query.expected = none := by
    rcases hsome : query.expected with _ | value
    · rfl
    · rw [WriteQuery.contradictory, hcreate, hsome] at hone
      simp at hone
  unfold putObject
  rw [hquery]
  show (if query.contradictory = true then _ else if query.onlyMetadata = true then _ else _) = _
  rw [hone, hmetadata, hexpected]
  show Trial.bind _ (fun metadata => if query.createOnly = true then _ else _) = _
  rw [hcreate]
  rfl

theorem doPut_createOnly (h : CreateOnly request)
    (hmetadata : requestedMetadata readings object request = .ok metadata) :
    doPut readings object request = creating storageErrorResponse
      ⟨409, [("error".toList, "object exists".toList), uriField object]⟩ object.storagePath
      request.body (landMetadata object request metadata) := by
  show Trial.bind (tries _ _) (fun _ => putObject readings object request) = _
  rw [putObject_createOnly h, hmetadata]
  rfl

theorem doPut_refused (h : CreateOnly request)
    (hmetadata : requestedMetadata readings object request = .error refusal) (disk : Disk)
    (faults : Faults StorageError) : ∃ response,
      (response = refusal ∨ ∃ error, response = storageErrorResponse error) ∧
      Trial.ending (doPut readings object request) disk (alone faults) = (response, disk) := by
  have hroute : doPut readings object request =
      Trial.bind (tries storageErrorResponse storageWriteGuard) fun _ =>
        stop refusal := by
    show Trial.bind (tries _ _) (fun _ => putObject readings object request) = _
    rw [putObject_createOnly h, hmetadata]
    rfl
  rw [hroute]
  cases hguard : strike 1 faults with
  | some first =>
    exact ⟨_, .inr ⟨_, rfl⟩, Trial.ending_error (bind_error (asks_struck rfl hguard))⟩
  | none =>
    exact ⟨refusal, .inl rfl, Trial.ending_error (bind_ok (asks_ok rfl hguard rfl))⟩

theorem exists_of_mapError {α ε δ : Type} {x : Except ε α} {f : ε → δ} {e : δ}
    (h : x.mapError f = .error e) : ∃ reason, e = f reason := by
  cases x with
  | ok a => cases h
  | error reason => exact ⟨reason, (error.inj h).symm⟩

theorem requestedMetadata_fails (h : requestedMetadata readings object request = .error refusal) :
    refusal.succeeded = false := by
  have hreason : ∃ reason, refusal = badRequest reason := by
    rw [requestedMetadata] at h
    rcases hextra : extraMetadata readings request with other | extra
    · rw [hextra] at h
      obtain rfl := error.inj h
      rw [extraMetadata] at hextra
      rcases hraw : header request.headers "x-stado-object-metadata".toList with _ | raw
      · rw [hraw] at hextra
        cases hextra
      · rw [hraw] at hextra
        obtain ⟨reason, hreason⟩ := exists_of_mapError hextra
        exact ⟨_, hreason⟩
    · rw [hextra] at h
      exact exists_of_mapError h
  obtain ⟨reason, rfl⟩ := hreason
  rfl

/-- What a create-only write of the object API asks for is there. -/
def PutFinished (readings : Readings) (object : ObjectRef) (request : PutRequest) (after : Disk) :
    Prop :=
  after.get object.storagePath = some request.body ∧
    ∀ metadata, requestedMetadata readings object request = .ok metadata →
      Landed object.storagePath metadata after

theorem doPut_finishable (h : CreateOnly request) (disk : Disk) (faults : Faults StorageError) :
    Finishable (doPut readings object request) Response.succeeded object.storagePath
      (PutFinished readings object request) disk faults ↔
    disk.get object.storagePath = none ∧
      ∀ metadata, requestedMetadata readings object request = .ok metadata →
        ∀ hit, strike 4 faults = some hit → Early 1 hit := by
  rcases hmetadata : requestedMetadata readings object request with refusal | metadata
  · have hrefused : ∀ faults : Faults StorageError,
        (ending (doPut readings object request) disk (alone faults)).1.succeeded = false ∧
          (ending (doPut readings object request) disk (alone faults)).2 = disk := by
      intro faults
      obtain ⟨response, hresponse, hrun⟩ := doPut_refused h hmetadata disk faults
      rw [hrun]
      refine ⟨?_, rfl⟩
      rcases hresponse with rfl | ⟨error, rfl⟩
      · exact requestedMetadata_fails hmetadata
      · exact storageErrorResponse_fails error
    rw [finishable_of_refused hrefused]
    exact ⟨fun hnone => ⟨hnone, nofun⟩, fun h => h.1⟩
  · have hfinished : PutFinished readings object request = fun after =>
        after.get object.storagePath = some request.body ∧
          Landed object.storagePath metadata after := by
      funext after
      rw [PutFinished, hmetadata]
      refine propext (and_congr_right fun _ => ⟨fun hall => hall metadata rfl, ?_⟩)
      intro hlanded other hother
      obtain rfl := ok.inj hother
      exact hlanded
    rw [doPut_createOnly h hmetadata, hfinished,
      creating_finishable rfl storageErrorResponse_fails (landMetadata_lands disk)]
    refine and_congr_right fun _ => ⟨fun hearly other _ => hearly, fun hearly => ?_⟩
    exact hearly metadata rfl

end Put

/-! ## S3 -/

/-- Whether an S3 operation was answered with a document or an ETag. -/
def answered (answer : Except S3Error Text) : Bool := answer.isOk

section S3Put

variable {readings : Readings} {request : S3PutRequest} {object : ObjectRef} {data : Bytes}
  {metadata : Metadata} {disk : Disk} {faults : Faults StorageError}

def s3Error (error : StorageError) : Except S3Error Text := .error (.storage error)

/-- How many calls land an S3 object after its bytes: text is read back for its version. -/
def landingCalls (readings : Readings) (data : Bytes) : ℕ :=
  if (readings.utf8Error data).isSome then 1 else 2

theorem s3Land_clear (h : disk.get object.storagePath = some data)
    (hclear : strike (landingCalls readings data) faults = none) : ∃ rest,
    s3Land readings object data metadata none disk (alone faults) =
      (.ok (.ok (readings.sha256 data)), disk.mergeMetadata object.storagePath metadata, rest) := by
  have hget : (disk.mergeMetadata object.storagePath metadata).get object.storagePath =
      some data := by
    rw [get_mergeMetadata, h]
  show ∃ rest, Trial.bind (tries s3Error _) (fun _ =>
    Trial.bind (s3Etag readings object.storagePath data) _) disk (alone faults) = _
  unfold landingCalls at hclear
  cases hutf8 : readings.utf8Error data with
  | some reason =>
    rw [hutf8] at hclear
    have hetag : s3Etag readings object.storagePath data = Trial.pure (readings.sha256 data) := by
      rw [s3Etag, hutf8]
      rfl
    rw [bind_ok (tries_ok hclear rfl), hetag]
    exact ⟨_, rfl⟩
  | none =>
    rw [hutf8] at hclear
    rw [show (if (none : Option Text).isSome = true then 1 else 2) = 1 + 1 from rfl,
      Trial.strike_add_none] at hclear
    have hversion : (readTextVersioned readings object.storagePath).answer
        (disk.mergeMetadata object.storagePath metadata) = .ok (some (readings.sha256 data)) := by
      show Store.readVersioned readings _ _ = _
      rw [Store.readVersioned, hget]
      dsimp only
      rw [hutf8]
    rw [bind_ok (tries_ok hclear.1 rfl), s3Etag, hutf8]
    have hread : tries s3Error (readTextVersioned readings object.storagePath)
        (disk.mergeMetadata object.storagePath metadata) (alone (faults.drop 1)) =
          (.ok (some (readings.sha256 data)), disk.mergeMetadata object.storagePath metadata,
            alone ((faults.drop 1).drop 1)) :=
      asks_ok rfl hclear.2 hversion
    exact ⟨_, bind_ok (bind_ok hread)⟩

theorem s3Land_struck (hstrike : strike (landingCalls readings data) faults = some hit) :
    ∃ answer after rest, s3Land readings object data metadata none disk (alone faults) =
      (.error answer, after, rest) ∧ answered answer = false := by
  show ∃ answer after rest, Trial.bind (tries s3Error _) (fun _ =>
    Trial.bind (s3Etag readings object.storagePath data) _) disk (alone faults) = _ ∧ _
  have hcalls : ∃ more, landingCalls readings data = 1 + more := by
    rw [landingCalls]
    split
    · exact ⟨0, rfl⟩
    · exact ⟨1, rfl⟩
  obtain ⟨more, hmore⟩ := hcalls
  rw [hmore, Trial.strike_add] at hstrike
  cases hfirst : strike 1 faults with
  | some first => exact ⟨_, _, _, bind_error (tries_struck hfirst), rfl⟩
  | none =>
    rw [hfirst, none_or] at hstrike
    obtain ⟨second, hsecond, -⟩ := map_eq_some_iff.mp hstrike
    have htext : (readings.utf8Error data) = none ∧ more = 1 := by
      rw [landingCalls] at hmore
      rcases hutf8 : readings.utf8Error data with _ | reason
      · rw [hutf8] at hmore
        exact ⟨rfl, (Nat.add_left_cancel hmore).symm⟩
      · rw [hutf8] at hmore
        obtain rfl : more = 0 := (Nat.add_left_cancel hmore).symm
        cases hsecond
    obtain ⟨hutf8, rfl⟩ := htext
    rw [bind_ok (tries_ok hfirst rfl), s3Etag, hutf8]
    exact ⟨_, _, _, bind_error (bind_error (asks_struck rfl hsecond)), rfl⟩

theorem stays_s3Land (path : Text) (found : Option Bytes) :
    Stays (fun disk : Disk => disk.get path = found)
      (s3Land readings object data metadata none) := by
  refine stays_bind (stays_tries ?_) fun _ =>
    stays_bind ?_ fun _ => stays_pure
  · intro stage hstage disk hdisk
    obtain rfl := mem_singleton.mp hstage
    rw [get_mergeMetadata, hdisk]
  · show Stays _ (s3Etag readings object.storagePath data)
    unfold s3Etag
    split
    · exact stays_pure
    · refine stays_bind (stays_tries nofun) fun versioned => ?_
      cases versioned with
      | some version => exact stays_pure
      | none => exact stays_stop

theorem s3Land_lands (readings : Readings) (object : ObjectRef) (data : Bytes)
    (metadata : Metadata) (disk : Disk) : Lands answered object.storagePath
    (fun after => after.get object.storagePath = some data ∧
      Landed object.storagePath metadata after) (landingCalls readings data)
    (s3Land readings object data metadata none) (disk.publish object.storagePath data) := by
  refine ⟨fun faults hclear => ?_, fun faults hit hstrike => s3Land_struck hstrike, stays_s3Land _⟩
  have hget := get_publish object.storagePath data disk
  obtain ⟨rest, hrun⟩ := s3Land_clear hget hclear
  refine ⟨_, _, _, hrun, rfl, ?_, landed_mergeMetadata hget⟩
  rw [get_mergeMetadata, hget]

def s3Metadata (object : ObjectRef) (request : S3PutRequest) : Except S3Error Metadata :=
  writeMetadata object (declaredType request.headers) (userMetadata request.headers)

theorem s3PutObject_createOnly (hadmitted : request.admitted = .ok (object, data))
    (hmetadata : s3Metadata object request = .ok metadata)
    (hmode : putMode request.headers = .ok .createOnly) :
    s3PutObject readings request = creating s3Error
      (.error (.preconditionFailed (object.display ++
        " exists, and the write was create-only (If-None-Match: *)".toList))) object.storagePath
      data (s3Land readings object data metadata none) := by
  unfold s3PutObject
  rw [hadmitted]
  show Trial.bind (ofExcept ((s3Metadata object request).mapError _)) (fun metadata =>
    Trial.bind (s3Tries storageWriteGuard) fun _ =>
      Trial.bind (ofExcept ((putMode request.headers).mapError _)) fun mode =>
        Trial.bind (s3Write readings object data mode) fun etag =>
          s3Land readings object data metadata etag) = _
  rw [hmetadata, hmode]
  show Trial.bind (s3Tries storageWriteGuard) (fun _ =>
    Trial.bind (s3Create object data) fun etag =>
      s3Land readings object data metadata etag) = _
  unfold s3Create
  have hcreate : ∀ created : Bool, Trial.bind
      (if created = false then refuse (.preconditionFailed (object.display ++
        " exists, and the write was create-only (If-None-Match: *)".toList))
      else Trial.pure none) (fun etag => s3Land readings object data metadata etag) =
      if created = false then stop (.error (.preconditionFailed (object.display ++
        " exists, and the write was create-only (If-None-Match: *)".toList)))
      else s3Land readings object data metadata none := by
    intro created
    cases created <;> rfl
  show Trial.bind _ (fun _ => Trial.bind (Trial.bind (s3Tries _) _) _) = _
  rw [Trial.bind_assoc]
  show Trial.bind _ (fun _ => Trial.bind _ fun created => Trial.bind
    (if created = false then _ else Trial.pure none) _) = _
  simp only [hcreate]
  rfl

/-- A write refused for what it is asks the store for nothing. -/
theorem s3PutObject_refused {error : S3Error} (h : request.admitted = .error error ∨
      ∃ data, request.admitted = .ok (object, data) ∧ s3Metadata object request = .error error)
    (disk : Disk) (faults : Faults StorageError) :
    Trial.ending (s3PutObject readings request) disk (alone faults) = (.error error, disk) := by
  have hroute : s3PutObject readings request = stop (.error error) := by
    unfold s3PutObject
    rcases h with hadmitted | ⟨data, hadmitted, hmetadata⟩
    · rw [hadmitted]
      rfl
    · rw [hadmitted]
      show Trial.bind (ofExcept ((s3Metadata object request).mapError _)) _ = _
      rw [hmetadata]
      rfl
  rw [hroute]
  rfl

/-- What a create-only write of the S3 endpoint asks for is there. -/
def S3Finished (object : ObjectRef) (data : Bytes) (request : S3PutRequest) (after : Disk) :
    Prop :=
  after.get object.storagePath = some data ∧
    ∀ metadata, s3Metadata object request = .ok metadata → Landed object.storagePath metadata after

theorem s3PutObject_finishable (hadmitted : request.admitted = .ok (object, data))
    (hmode : putMode request.headers = .ok .createOnly) (disk : Disk) (faults : Faults StorageError) :
    Finishable (s3PutObject readings request) answered object.storagePath
      (S3Finished object data request) disk faults ↔
    disk.get object.storagePath = none ∧ ∀ metadata, s3Metadata object request = .ok metadata →
        ∀ hit, strike (2 + landingCalls readings data) faults = some hit → Early 1 hit := by
  rcases hmetadata : s3Metadata object request with error | metadata
  · have hrefused : ∀ faults : Faults StorageError,
        answered (ending (s3PutObject readings request) disk (alone faults)).1 = false ∧
          (ending (s3PutObject readings request) disk (alone faults)).2 = disk := by
      intro faults
      rw [s3PutObject_refused (.inr ⟨data, hadmitted, hmetadata⟩)]
      exact ⟨rfl, rfl⟩
    rw [finishable_of_refused hrefused]
    exact ⟨fun hnone => ⟨hnone, nofun⟩, fun h => h.1⟩
  · have hfinished : S3Finished object data request = fun after =>
        after.get object.storagePath = some data ∧ Landed object.storagePath metadata after := by
      funext after
      rw [S3Finished, hmetadata]
      refine propext (and_congr_right fun _ => ⟨fun hall => hall metadata rfl, ?_⟩)
      intro hlanded other hother
      obtain rfl := ok.inj hother
      exact hlanded
    rw [s3PutObject_createOnly hadmitted hmetadata hmode, hfinished,
      creating_finishable rfl (fun _ => rfl) (s3Land_lands readings object data metadata disk)]
    refine and_congr_right fun _ => ⟨fun hearly other _ => hearly, fun hearly => ?_⟩
    exact hearly metadata rfl

end S3Put

end Stado.ObjectApi
