import Stado.ObjectApi.ComposeSpecs
import Stado.ObjectApi.Multipart

/-!
# What a finished upload holds

The staged parts may be uploaded again while an upload is finished: what counts
is the bytes that were read, each checked against the digest that names it.
-/

namespace Stado.ObjectApi

open Disk Except Sigv4 Store Trials

open S3 (ObjectRef)
open Sigv4 (Text Bytes)
open Directory (contains)
open Checks (require_eq_ok orRefuse_eq_ok mapError_eq_ok bind_eq_ok)
open Trials (Trial Course)
open Trials.Trial (tries each arrive bind_ok_inv tries_ok_inv ofExcept_ok_inv Stays Mild stays_bind
  stays_tries stays_pure stays_stop stays_ofExcept stays_bind_ofExcept stays_each stays_bind_tries
  mild_arrive mild_tail)

/-- Every file of the disk is among what its path may hold. -/
def Holds (kept : Text → Bytes → Prop) (disk : Disk) : Prop :=
  ∀ path data, disk.get path = some data → kept path data

section Asking

variable {I : Disk → Prop} {disk after : Disk} {path : Text}

theorem stays_asks {β : Type} (call : StoreCall β) (h : call.stages = []) :
    Stays I (composeTries call) := by
  refine stays_tries fun stage hstage => ?_
  rw [h] at hstage
  cases hstage

theorem stays_s3Asks {β : Type} (call : StoreCall β) (h : call.stages = []) :
    Stays I (s3Tries call) := by
  refine stays_tries fun stage hstage => ?_
  rw [h] at hstage
  cases hstage

theorem readBytes_inv {Answer : Type} {onError : StorageError → Answer}
    {found : Option Bytes} {f g : Course Disk StorageError}
    (h : tries onError (readBytes path) disk f = (.ok found, after, g)) :
    found = (arrive f disk).get path ∧ after = arrive f disk ∧ g = f.tail := by
  obtain ⟨hanswer, hafter, hrest⟩ := tries_ok_inv h
  exact ⟨(ok.inj hanswer).symm, hafter, hrest⟩

end Asking

/-! ## Compositions -/

section Compose

variable {readings : Readings} {composition : Composition} {I : Disk → Prop}

theorem stays_stageChunks (chunks : List StagedChunk) : Stays I (stageChunks readings chunks) := by
  induction chunks with
  | nil => exact stays_pure
  | cons chunk rest ih =>
    exact stays_bind (stays_asks _ rfl) fun _ => stays_bind stays_ofExcept fun _ =>
      stays_bind ih fun _ => stays_pure

theorem stays_assembleComposition : Stays I (assembleComposition readings composition) :=
  stays_bind (stays_tries nofun) fun _ => stays_bind (stays_stageChunks _) fun _ =>
    stays_bind stays_ofExcept fun _ => stays_pure

def Matches (readings : Readings) (chunk : StagedChunk) (part : Bytes) : Prop :=
  part.length = chunk.size ∧ readings.sha256 part = chunk.digest

theorem stageChunk_ok {chunk : StagedChunk} {found : Option Bytes} {part : Bytes}
    (h : stageChunk readings chunk found = .ok part) :
    found = some part ∧ Matches readings chunk part := by
  unfold stageChunk at h
  rcases found with _ | bytes
  · cases h
  · dsimp only at h
    split_ifs at h with hdiffers
    obtain rfl := ok.inj h
    rw [not_or, not_not, not_not] at hdiffers
    exact ⟨rfl, hdiffers⟩

variable {f : Course Disk StorageError} {bytes : Bytes} {path : Text} {g : Course Disk StorageError}
  {object : ObjectRef} {disk : Disk} {chunks : List StagedChunk}

theorem stageChunks_ok
    (h : stageChunks readings chunks disk f = (.ok bytes, after, g)) : ∃ parts : List Bytes,
      bytes = parts.flatten ∧ List.Forall₂ (Matches readings) chunks parts ∧
      ∀ kept, Mild (Holds kept) f → Holds kept disk →
        List.Forall₂ (fun chunk part => kept chunk.path part) chunks parts := by
  induction chunks generalizing disk f bytes with
  | nil =>
    cases h
    exact ⟨[], rfl, .nil, fun _ _ _ => .nil⟩
  | cons chunk rest ih =>
    obtain ⟨found, first, e, hread, h⟩ := bind_ok_inv h
    obtain ⟨part, second, e', hpart, h⟩ := bind_ok_inv h
    obtain ⟨more, third, e'', hmore, h⟩ := bind_ok_inv h
    cases h
    obtain ⟨rfl, rfl, rfl⟩ := readBytes_inv hread
    obtain ⟨hstage, rfl, rfl⟩ := ofExcept_ok_inv hpart
    obtain ⟨hfound, hmatches⟩ := stageChunk_ok hstage
    obtain ⟨parts, rfl, hparts, hheld⟩ := ih hmore
    refine ⟨part :: parts, rfl, .cons hmatches hparts, fun kept hmild hdisk => ?_⟩
    have harrived := mild_arrive hmild hdisk
    exact .cons (harrived _ _ hfound) (hheld kept (mild_tail hmild) harrived)

theorem checkAssembled_names {u : Unit}
    (h : checkAssembled readings composition bytes = .ok u) : names readings composition bytes := by
  unfold checkAssembled at h
  split_ifs at h with hsize hdigest
  exact ⟨not_not.mp hsize, not_not.mp hdigest⟩

theorem assembleComposition_ok
    (h : assembleComposition readings composition disk f = (.ok bytes, after, g)) :
    ∃ parts : List Bytes, bytes = parts.flatten ∧
      List.Forall₂ (Matches readings) composition.chunks parts ∧
      names readings composition bytes ∧
      ∀ kept, Mild (Holds kept) f → Holds kept disk →
        List.Forall₂ (fun chunk part => kept chunk.path part) composition.chunks parts := by
  obtain ⟨_, first, e, hguard, h⟩ := bind_ok_inv h
  obtain ⟨assembled, second, e', hstaged, h⟩ := bind_ok_inv h
  obtain ⟨_, third, e'', hcheck, h⟩ := bind_ok_inv h
  cases h
  obtain ⟨-, hfirst, rfl⟩ := tries_ok_inv hguard
  rw [Call.whole_asks _ rfl] at hfirst
  obtain ⟨parts, hbytes, hmatches, hheld⟩ := stageChunks_ok hstaged
  refine ⟨parts, hbytes, hmatches, checkAssembled_names (ofExcept_ok_inv hcheck).1, ?_⟩
  intro kept hmild hdisk
  exact hheld kept (mild_tail hmild) (hfirst ▸ mild_arrive hmild hdisk)

theorem windows_parts {uploadId : Text} {index remaining : ℕ}
    {parts : List Bytes} (hwindows : Windows object uploadId index remaining chunks)
    (hparts : List.Forall₂ (Matches readings) chunks parts) :
    (parts.flatten.length ≤ remaining) ∧ ∀ i part, parts[i]? = some part →
      part = (parts.flatten.drop (i * chunkBytes)).take chunkBytes := by
  induction hparts generalizing index remaining with
  | nil => exact ⟨Nat.zero_le _, nofun⟩
  | @cons chunk first chunks parts hfirst _ ih =>
    obtain ⟨hsize, -, -, hrest⟩ := hwindows
    obtain ⟨hlength, hlater⟩ := ih hrest
    have hpart : first.length = min remaining chunkBytes := hfirst.1.trans hsize
    rw [hsize] at hlength
    rw [List.flatten_cons]
    refine ⟨by rw [List.length_append]; omega, fun i part hget => ?_⟩
    rcases i with _ | i
    · obtain rfl := Option.some.inj hget
      rw [Nat.zero_mul, List.drop_zero]
      rcases Nat.lt_or_ge remaining chunkBytes with hshort | hfull
      · have hnil : parts.flatten = [] := List.length_eq_zero_iff.mp (by omega)
        rw [hnil, List.append_nil, List.take_of_length_le (by omega)]
      · rw [List.take_append_of_le_length (by omega), List.take_of_length_le (by omega)]
    · have hpart' := hlater i part hget
      rcases Nat.lt_or_ge remaining chunkBytes with hshort | hfull
      · have hnil : parts.flatten = [] := List.length_eq_zero_iff.mp (by omega)
        rw [hnil, List.drop_nil, List.take_nil] at hpart'
        rw [hpart', hnil, List.append_nil, List.drop_eq_nil_of_le, List.take_nil]
        rw [Nat.succ_mul]
        omega
      · have hdrop : (i + 1) * chunkBytes = first.length + i * chunkBytes := by
          rw [Nat.succ_mul]
          omega
        rw [hdrop, List.drop_length_add_append]
        exact hpart'

/-! ### Publication -/

def LeavesAlone (path : Text) (f : Course Disk StorageError) : Prop :=
  ∀ turn ∈ f, ∀ disk, (turn.others disk).get path = disk.get path

theorem LeavesAlone.mild (h : LeavesAlone path f)
    (found : Option Bytes) : Mild (fun disk : Disk => disk.get path = found) f :=
  fun turn hturn disk hdisk => (h turn hturn disk).trans hdisk

theorem LeavesAlone.arrive (h : LeavesAlone path f)
    (disk : Disk) : (arrive f disk).get path = disk.get path :=
  mild_arrive (h.mild (disk.get path)) rfl

theorem LeavesAlone.tail (h : LeavesAlone path f) : LeavesAlone path f.tail :=
  fun turn hturn => h turn (List.mem_of_mem_tail hturn)

/-- What a call that changes no file but those under the target's parts keeps. -/
def Elsewhere (object : ObjectRef) (path : Text) : Prop :=
  path ≠ object.storagePath ∧ ¬ partsPrefix object <+: path

theorem stays_deletes {found : Option Bytes}
    (hpath : ¬ partsPrefix object <+: path) {paths : List Text}
    (hunder : ∀ part ∈ paths, partsPrefix object <+: part) {Stop : Type}
    (onError : StorageError → Stop) : Stays (fun disk : Disk => disk.get path = found)
      (each paths fun part => tries onError (deleteBlob part)) := by
  refine stays_each fun part hpart => stays_tries fun stage hstage disk hdisk => ?_
  have hne : path ≠ part := by
    rintro rfl
    exact hpath (hunder _ hpart)
  rcases List.mem_cons.mp hstage with rfl | hstage
  · rw [get_removeFile_ne hne, hdisk]
  · obtain rfl := List.mem_singleton.mp hstage
    exact hdisk

theorem stays_setMetadata {other : Text} {metadata : Metadata} {found : Option Bytes}
    {Stop : Type} (onError : StorageError → Stop) :
    Stays (fun disk : Disk => disk.get path = found)
      (tries onError (setMetadata other metadata)) := by
  refine stays_tries fun stage hstage disk hdisk => ?_
  obtain rfl := List.mem_singleton.mp hstage
  rw [get_mergeMetadata, hdisk]

/-- Finishing touches no file but staged parts of the target. -/
theorem stays_finishComposition (hunder : Under composition)
    (hpath : ¬ partsPrefix composition.object <+: path) (found : Option Bytes) :
    Stays (fun disk : Disk => disk.get path = found) (finishComposition composition) := by
  have hclear : ∀ paths : List Text, (∀ part ∈ paths, partsPrefix composition.object <+: part) →
      Stays (fun disk : Disk => disk.get path = found) (clearing composition paths) :=
    fun paths hpaths => stays_bind (stays_deletes hpath hpaths _) fun _ => stays_pure
  have hcleanup : Stays (fun disk : Disk => disk.get path = found)
      (Trial.bind (cleanupPaths composition) (clearing composition)) := by
    unfold cleanupPaths
    by_cases h : composition.ifAbsent = true
    · rw [if_pos h]
      show Stays _ (Trial.bind (Trial.bind (composeTries _) _) _)
      rw [Trial.bind_assoc]
      refine stays_bind_tries nofun fun listed disk hlisted => hclear _ fun part hpart => ?_
      obtain rfl := ok.inj hlisted
      exact (mem_names.mp (List.mem_filter.mp hpart).1).2
    · rw [if_neg h]
      refine hclear _ fun part hpart => ?_
      obtain ⟨chunk, hchunk, rfl⟩ := List.mem_map.mp hpart
      exact hunder chunk hchunk
  exact stays_bind (stays_setMetadata _) fun _ => stays_bind (stays_asks _ rfl) fun _ =>
    stays_bind stays_ofExcept fun _ => hcleanup

/-- Publishing touches the target and its staged parts only. -/
theorem stays_publishAssembled (hunder : Under composition)
    (hpath : Elsewhere composition.object path) (bytes : Bytes) (found : Option Bytes) :
    Stays (fun disk : Disk => disk.get path = found)
      (publishAssembled readings composition bytes) := by
  have hfinish := stays_finishComposition hunder hpath.2 found
  unfold publishAssembled
  by_cases h : composition.ifAbsent = true
  · rw [if_pos h]
    refine stays_bind (stays_bind (stays_tries ?_) fun created => ?_) fun _ => hfinish
    · intro stage hstage disk hdisk
      obtain rfl := List.mem_singleton.mp hstage
      unfold publishIfAbsent
      split
      · exact hdisk
      · rw [get_publish_ne hpath.1, hdisk]
    · cases created with
      | false => exact stays_bind (stays_asks _ rfl) fun _ => stays_ofExcept
      | true => exact stays_pure
  · rw [if_neg h]
    refine stays_bind (stays_tries ?_) fun _ => hfinish
    intro stage hstage disk hdisk
    obtain rfl := List.mem_singleton.mp hstage
    rw [get_publish_ne hpath.1, hdisk]

theorem target_not_part (object : ObjectRef) : ¬ partsPrefix object <+: object.storagePath := by
  intro hprefix
  have hlength := hprefix.length_le
  rw [length_partsPrefix] at hlength
  omega

theorem composeCreate_ok {u : Unit} (halone : LeavesAlone composition.path f)
    (h : composeCreate readings composition bytes disk f = (.ok u, after, g)) :
    LeavesAlone composition.path g ∧
      (disk.get composition.path = none ∧ after.get composition.path = some bytes ∨
        ∃ found, disk.get composition.path = some found ∧ names readings composition found ∧
          after.get composition.path = some found) := by
  obtain ⟨created, first, e, hstored, h⟩ := bind_ok_inv h
  obtain ⟨hanswer, rfl, rfl⟩ := tries_ok_inv hstored
  have hcreated : created = ((arrive f disk).get composition.path).isNone := (ok.inj hanswer).symm
  rcases hget : (arrive f disk).get composition.path with _ | there
  · rw [hcreated, hget] at h
    cases h
    refine ⟨halone.tail, .inl ⟨by rw [← halone.arrive, hget], ?_⟩⟩
    show (publishIfAbsent composition.path bytes (arrive f disk)).get _ = _
    rw [publishIfAbsent_none hget, get_publish]
  · rw [hcreated, hget] at h
    have hsame : (uploadFileIfAbsent composition.path bytes).whole (arrive f disk) =
        arrive f disk := publishIfAbsent_some hget
    obtain ⟨existing, second, e', hread, hconfirm⟩ := bind_ok_inv h
    obtain ⟨rfl, rfl, rfl⟩ := readBytes_inv hread
    obtain ⟨hconfirmed, rfl, rfl⟩ := ofExcept_ok_inv hconfirm
    have hthere : (arrive f.tail ((uploadFileIfAbsent composition.path bytes).whole
        (arrive f disk))).get composition.path = some there := by
      rw [halone.tail.arrive, hsame, hget]
    change confirmExisting readings composition ((arrive f.tail
      ((uploadFileIfAbsent composition.path bytes).whole (arrive f disk))).get
        composition.path) = _ at hconfirmed
    rw [hthere, confirmExisting] at hconfirmed
    split_ifs at hconfirmed with hnames
    exact ⟨halone.tail.tail, .inr ⟨there, by rw [← halone.arrive, hget], hnames, hthere⟩⟩

/-- A publication that succeeds leaves the assembled bytes, or in a create-only one the bytes
that were there, of the declared size and digest. -/
theorem publishAssembled_ok (hunder : Under composition) {answer : ComposeResponse}
    (halone : LeavesAlone composition.path f)
    (h : publishAssembled readings composition bytes disk f = (.ok answer, after, g)) :
    after.get composition.path = some bytes ∨
      ∃ found, disk.get composition.path = some found ∧ names readings composition found ∧
        after.get composition.path = some found := by
  have hfinishes : ∀ middle rest data, LeavesAlone composition.path rest →
      middle.get composition.path = some data →
        finishComposition composition middle rest = (.ok answer, after, g) →
          after.get composition.path = some data := by
    intro middle rest data hrest hdata hfinish
    have hkept := (stays_finishComposition hunder (target_not_part composition.object) (some data)
      middle rest (hrest.mild (some data)) hdata).1
    rw [hfinish] at hkept
    exact hkept
  unfold publishAssembled at h
  by_cases hmode : composition.ifAbsent = true
  · rw [if_pos hmode] at h
    obtain ⟨_, middle, rest, hcreate, hfinish⟩ := bind_ok_inv h
    obtain ⟨hrest, ⟨-, hdata⟩ | ⟨found, hfound, hnames, hdata⟩⟩ := composeCreate_ok halone hcreate
    · exact .inl (hfinishes middle rest bytes hrest hdata hfinish)
    · exact .inr ⟨found, hfound, hnames, hfinishes middle rest found hrest hdata hfinish⟩
  · rw [if_neg hmode] at h
    obtain ⟨_, middle, rest, hstored, hfinish⟩ := bind_ok_inv h
    obtain ⟨-, rfl, rfl⟩ := tries_ok_inv hstored
    exact .inl (hfinishes _ _ bytes halone.tail (get_publish ..) hfinish)

/-- A create-only publication over another object changes nothing. -/
theorem stays_publishForeign (hmode : composition.ifAbsent = true) {found : Bytes}
    (hforeign : ¬ names readings composition found) (halone : LeavesAlone composition.path f)
    (hfound : disk.get composition.path = some found) (hmild : Mild I f) (hdisk : I disk) :
    (∃ refusal after g, publishAssembled readings composition bytes disk f =
      (.error refusal, after, g) ∧ I after) := by
  have hkeeps : Stays (fun d : Disk => I d ∧ d.get composition.path = some found)
      (composeCreate readings composition bytes) := by
    refine stays_bind (stays_tries ?_) fun created => ?_
    · intro stage hstage d hd
      obtain rfl := List.mem_singleton.mp hstage
      have hsame : d.publishIfAbsent composition.path bytes = d := publishIfAbsent_some hd.2
      show I (d.publishIfAbsent composition.path bytes) ∧
        (d.publishIfAbsent composition.path bytes).get composition.path = some found
      rw [hsame]
      exact hd
    · cases created with
      | false => exact stays_bind (stays_asks _ rfl) fun _ => stays_ofExcept
      | true => exact stays_pure
  have hkept := (hkeeps disk f (fun turn hturn d hd => ⟨hmild turn hturn d hd.1,
    (halone turn hturn d).trans hd.2⟩) ⟨hdisk, hfound⟩).1
  unfold publishAssembled
  rw [if_pos hmode]
  rcases hrun : composeCreate readings composition bytes disk f with ⟨refusal | u, after, g⟩
  · rw [hrun] at hkept
    exact ⟨refusal, after, g, Trial.bind_error hrun, hkept.1⟩
  · rw [hrun] at hkept
    obtain ⟨-, ⟨hnone, -⟩ | ⟨there, hthere, hnames, -⟩⟩ := composeCreate_ok halone hrun
    · cases hfound.symm.trans hnone
    · rw [hfound] at hthere
      obtain rfl := Option.some.inj hthere
      exact absurd hnames hforeign

end Compose

/-! ## Multipart uploads -/

section Complete

variable {readings : Readings} {documents : Documents} {I : Disk → Prop} {previous : Option ℕ}
  {upload : Text}

theorem stays_orStop {α : Type} {x : Except S3Error α} : Stays I (orStop x) := stays_ofExcept

theorem stays_readParts (object : ObjectRef) (upload : Text) (previous : Option ℕ)
    (asked : List CompletedPart) : Stays I (readParts readings object upload previous asked) := by
  induction asked generalizing previous with
  | nil => exact stays_pure
  | cons part rest ih =>
    exact stays_bind stays_orStop fun _ => stays_bind (stays_s3Asks _ rfl) fun _ =>
      stays_bind stays_orStop fun _ => stays_bind (ih _) fun _ => stays_pure

theorem stays_s3Manifest (object : ObjectRef) (upload : Text) :
    Stays I (s3Manifest documents object upload) :=
  stays_bind (stays_s3Asks _ rfl) fun _ => stays_bind stays_orStop fun _ => stays_orStop

/-- Reading an upload changes nothing. -/
theorem stays_s3ReadUpload (request : CompleteRequest) :
    Stays I (s3ReadUpload readings documents request) :=
  stays_bind stays_orStop fun _ => stays_bind stays_orStop fun _ => stays_bind stays_orStop
    fun _ => stays_bind (stays_s3Manifest _ _) fun _ => stays_bind stays_orStop fun _ =>
      stays_bind stays_orStop fun _ => stays_bind (stays_readParts _ _ _ _) fun _ =>
        stays_bind stays_orStop fun _ => stays_bind stays_orStop fun _ =>
          stays_bind (stays_s3Asks _ rfl) fun _ => stays_pure

def Stated (part : CompletedPart) (name : ℕ × Text) : Prop :=
  ∃ raw, part.number = some raw ∧ partNumber raw = .ok name.1 ∧ part.etag = some name.2

def AtEtag (readings : Readings) (name : ℕ × Text) (part : Bytes) : Prop :=
  trimMatches isQuoteMark (trim name.2) = readings.sha256 part

theorem statedPart_ok {part : CompletedPart} {name : ℕ × Text}
    (h : statedPart previous part = .ok name) :
    Stated part name ∧ ∀ last ∈ previous, last < name.1 := by
  obtain ⟨raw, hraw, h⟩ := bind_eq_ok.mp h
  obtain ⟨number, hnumber, h⟩ := bind_eq_ok.mp h
  obtain ⟨_, horder, h⟩ := bind_eq_ok.mp h
  obtain ⟨stated, hstated, h⟩ := bind_eq_ok.mp h
  obtain rfl := ok.inj h
  exact ⟨⟨raw, orRefuse_eq_ok.mp hraw, hnumber, orRefuse_eq_ok.mp hstated⟩, require_eq_ok.mp horder⟩

theorem heldPart_ok {name : ℕ × Text} {found : Option Bytes} {part : Bytes}
    (h : heldPart readings upload name.1 name.2 found = .ok part) :
    found = some part ∧ AtEtag readings name part := by
  obtain ⟨bytes, hfound, h⟩ := bind_eq_ok.mp h
  obtain ⟨_, hetag, h⟩ := bind_eq_ok.mp h
  obtain rfl := ok.inj h
  have hsame := require_eq_ok.mp hetag
  exact ⟨orRefuse_eq_ok.mp hfound, hsame⟩

variable {after : Disk} {f g : Course Disk StorageError} {path : Text} {composed : Composed}
  {signer : Signer}

theorem readParts_ok {asked : List CompletedPart} {bytes : Bytes}
    (h : readParts readings object upload previous asked disk f = (.ok bytes, after, g)) :
    ∃ (stated : List (ℕ × Text)) (parts : List Bytes), bytes = parts.flatten ∧
      List.Forall₂ Stated asked stated ∧ List.Forall₂ (AtEtag readings) stated parts ∧
      (∀ last ∈ previous, ∀ name ∈ stated, last < name.1) ∧
      (stated.map Prod.fst).Pairwise (· < ·) ∧
      ∀ kept, Mild (Holds kept) f → Holds kept disk →
        List.Forall₂ (fun name part => kept (partPath object upload name.1) part) stated parts := by
  induction asked generalizing previous disk f bytes with
  | nil =>
    cases h
    exact ⟨[], [], rfl, .nil, .nil, nofun, .nil, fun _ _ _ => .nil⟩
  | cons part rest ih =>
    obtain ⟨⟨number, etag⟩, first, e, hstated, h⟩ := bind_ok_inv h
    obtain ⟨found, second, e', hread, h⟩ := bind_ok_inv h
    obtain ⟨held, third, e'', hheld, h⟩ := bind_ok_inv h
    obtain ⟨more, fourth, e₄, hmore, h⟩ := bind_ok_inv h
    cases h
    obtain ⟨hname, rfl, rfl⟩ := ofExcept_ok_inv hstated
    obtain ⟨rfl, rfl, rfl⟩ := readBytes_inv hread
    obtain ⟨hpart, rfl, rfl⟩ := ofExcept_ok_inv hheld
    obtain ⟨hstatedPart, hlast⟩ := statedPart_ok (mapError_eq_ok.mp hname)
    obtain ⟨hfound, hetag⟩ :=
      @heldPart_ok readings upload (number, etag) _ _ (mapError_eq_ok.mp hpart)
    obtain ⟨stated, parts, rfl, hasked, hetags, hafter, hsorted, hprovenance⟩ := ih hmore
    have hnumber : ∀ name ∈ stated, number < name.1 := hafter number rfl
    refine ⟨(number, etag) :: stated, held :: parts, rfl, .cons hstatedPart hasked,
      .cons hetag hetags, ?_, ?_, ?_⟩
    · intro last hprevious name hmem
      rcases List.mem_cons.mp hmem with rfl | hmem
      · exact hlast last hprevious
      · exact (hlast last hprevious).trans (hnumber name hmem)
    · rw [List.map_cons, List.pairwise_cons]
      refine ⟨fun other hother => ?_, hsorted⟩
      obtain ⟨name, hname, rfl⟩ := List.mem_map.mp hother
      exact hnumber name hname
    · intro kept hmild hdisk
      have harrived := mild_arrive hmild hdisk
      exact .cons (harrived _ _ hfound) (hprovenance kept (mild_tail hmild) harrived)

/-- What reading an upload comes to. -/
structure ReadUpload (readings : Readings) (documents : Documents) (request : CompleteRequest)
    (composed : Composed) (stated : List (ℕ × Text)) (parts : List Bytes) : Prop where
  unstaged : contains uploadPartMarker composed.object.key = false
  object : s3Object request.signer request.key = .ok composed.object
  upload : composed.upload = request.upload
  bytes : composed.bytes = parts.flatten
  asked : ∃ data asked, request.body = .ok data ∧ documents.completion data = .ok asked ∧
    asked ≠ [] ∧ List.Forall₂ Stated asked stated
  ascending : (stated.map Prod.fst).Pairwise (· < ·)
  etags : List.Forall₂ (AtEtag readings) stated parts

theorem trimMatches_of_ends {text : Text} (hhead : text.head? ≠ some '/')
    (hlast : text.getLast? ≠ some '/') : trimMatches S3.isSlash text = text := by
  have hslash : ∀ c, S3.isSlash c = true → c = '/' := fun c hc => beq_iff_eq.mp hc
  have hfront : text.dropWhile S3.isSlash = text := by
    rcases text with _ | ⟨c, text⟩
    · rfl
    · rw [List.dropWhile_cons_of_neg]
      intro hc
      exact hhead (congrArg some (hslash c hc))
  show (text.dropWhile S3.isSlash).rdropWhile S3.isSlash = text
  rw [hfront, List.rdropWhile_eq_self_iff]
  intro hne hc
  exact hlast ((List.getLast?_eq_some_getLast hne).trans (congrArg some (hslash _ hc)))

theorem s3Object_unstaged {key : Text}
    (h : s3Object signer key = .ok object) : contains uploadPartMarker object.key = false := by
  obtain ⟨_, hslash, h⟩ := bind_eq_ok.mp h
  obtain ⟨_, hmarker, h⟩ := bind_eq_ok.mp h
  obtain ⟨_, -, h⟩ := bind_eq_ok.mp h
  have hnew := mapError_eq_ok.mp h
  have hends := require_eq_ok.mp hslash
  unfold ObjectRef.new at hnew
  dsimp only at hnew
  split_ifs at hnew
  obtain rfl := ok.inj hnew
  show contains uploadPartMarker (trimMatches S3.isSlash key) = false
  rw [trimMatches_of_ends hends.1 hends.2]
  exact require_eq_ok.mp hmarker

theorem s3ReadUpload_ok {request : CompleteRequest}
    (h : s3ReadUpload readings documents request disk f = (.ok composed, after, g)) :
    ∃ stated parts, ReadUpload readings documents request composed stated parts ∧
      ∀ kept, Mild (Holds kept) f → Holds kept disk → List.Forall₂
        (fun name part => kept (partPath composed.object composed.upload name.1) part) stated
          parts := by
  obtain ⟨_, first, e, hallow, h⟩ := bind_ok_inv h
  obtain ⟨object, second, e₂, hobject, h⟩ := bind_ok_inv h
  obtain ⟨upload, third, e₃, hupload, h⟩ := bind_ok_inv h
  obtain ⟨manifest, fourth, e₄, hmanifest, h⟩ := bind_ok_inv h
  obtain ⟨data, fifth, e₅, hdata, h⟩ := bind_ok_inv h
  obtain ⟨asked, sixth, e₆, hasked, h⟩ := bind_ok_inv h
  obtain ⟨bytes, seventh, e₇, hbytes, h⟩ := bind_ok_inv h
  obtain ⟨_, eighth, e₈, hsome, h⟩ := bind_ok_inv h
  obtain ⟨metadata, ninth, e₉, hmetadata, h⟩ := bind_ok_inv h
  obtain ⟨_, tenth, e₁₀, hguard, h⟩ := bind_ok_inv h
  cases h
  obtain ⟨-, rfl, rfl⟩ := ofExcept_ok_inv hallow
  obtain ⟨hparsed, rfl, rfl⟩ := ofExcept_ok_inv hobject
  obtain ⟨hissue, rfl, rfl⟩ := ofExcept_ok_inv hupload
  obtain ⟨hbody, rfl, rfl⟩ := ofExcept_ok_inv hdata
  obtain ⟨hread, rfl, rfl⟩ := ofExcept_ok_inv hasked
  obtain ⟨stated, parts, hflatten, hstated, hetags, -, hascending, hkept⟩ := readParts_ok hbytes
  have hid : upload = request.upload := by
    have hissued := mapError_eq_ok.mp hissue
    unfold issuedId at hissued
    split_ifs at hissued
    exact (ok.inj hissued).symm
  refine ⟨stated, parts, ⟨s3Object_unstaged (mapError_eq_ok.mp hparsed),
    mapError_eq_ok.mp hparsed, hid, hflatten, ⟨data, asked, mapError_eq_ok.mp hbody,
      mapError_eq_ok.mp hread, ?_, hstated⟩, hascending, hetags⟩, fun kept hmild hdisk => ?_⟩
  · exact require_eq_ok.mp (mapError_eq_ok.mp (ofExcept_ok_inv hsome).1)
  · have hafter := @stays_s3Manifest documents _ object upload _ _ hmild hdisk
    rw [hmanifest] at hafter
    exact hkept kept (hmild.suffix hafter.2) hafter.1

/-! ### Writing the object -/

/-- Discarding touches no file but staged parts of the object. -/
theorem stays_s3DiscardParts
    (hpath : ¬ partsPrefix object <+: path) (upload : Text) (found : Option Bytes) :
    Stays (fun disk : Disk => disk.get path = found) (s3DiscardParts object upload) := by
  refine stays_bind_tries nofun fun staged disk hstaged => ?_
  obtain rfl := ok.inj hstaged
  refine stays_bind (stays_deletes hpath (fun part hpart => ?_) _) fun _ => stays_pure
  have hupload : uploadPrefix object upload <+: part := (mem_names.mp hpart).2
  rw [uploadPrefix, List.append_assoc] at hupload
  exact (List.prefix_append _ _).trans hupload

theorem stays_s3Etag (path : Text) (data : Bytes) : Stays I (s3Etag readings path data) := by
  unfold s3Etag
  split
  · exact stays_pure
  · refine stays_bind (stays_s3Asks _ rfl) fun versioned => ?_
    cases versioned with
    | some version => exact stays_pure
    | none => exact stays_stop

/-- What follows once the bytes are written. -/
def landUpload (readings : Readings) (composed : Composed) : S3Route (Except S3Error Text) := do
  s3Tries (setMetadata composed.object.storagePath composed.metadata)
  let _ ← s3DiscardParts composed.object composed.upload
  let etag ← s3Etag readings composed.object.storagePath composed.bytes
  return .ok etag

theorem stays_landUpload (composed : Composed)
    (hpath : ¬ partsPrefix composed.object <+: path) (found : Option Bytes) :
    Stays (fun disk : Disk => disk.get path = found) (landUpload readings composed) :=
  stays_bind (stays_setMetadata _) fun _ => stays_bind (stays_s3DiscardParts hpath _ found)
    fun _ => stays_bind (stays_s3Etag _ _) fun _ => stays_pure

theorem stays_s3PublishUpload (composed : Composed)
    (hpath : Elsewhere composed.object path) (found : Option Bytes) :
    Stays (fun disk : Disk => disk.get path = found) (s3PublishUpload readings composed) := by
  refine stays_bind (stays_tries ?_) fun _ => stays_landUpload composed hpath.2 found
  intro stage hstage disk hdisk
  obtain rfl := List.mem_singleton.mp hstage
  rw [get_publish_ne hpath.1, hdisk]

theorem s3PublishUpload_ok {answer : Except S3Error Text}
    (halone : LeavesAlone composed.object.storagePath f)
    (h : s3PublishUpload readings composed disk f = (.ok answer, after, g)) :
    after.get composed.object.storagePath = some composed.bytes := by
  obtain ⟨_, middle, rest, hstored, hland⟩ := bind_ok_inv h
  obtain ⟨-, rfl, rfl⟩ := tries_ok_inv hstored
  have hkeeps : Stays _ (landUpload readings composed) :=
    stays_landUpload composed (target_not_part composed.object) (some composed.bytes)
  have hkept := (hkeeps ((arrive f disk).publish composed.object.storagePath composed.bytes) f.tail
    (halone.tail.mild (some composed.bytes)) (get_publish ..)).1
  have hrun : landUpload readings composed
      ((arrive f disk).publish composed.object.storagePath composed.bytes) f.tail =
        (.ok answer, after, g) := hland
  rw [hrun] at hkept
  exact hkept

theorem stays_s3AbortUpload {key upload : Text}
    (hpath : ∀ object, s3Object signer key = .ok object → ¬ partsPrefix object <+: path)
    (found : Option Bytes) :
    Stays (fun disk : Disk => disk.get path = found) (s3AbortUpload signer key upload) := by
  refine stays_bind stays_orStop fun _ => stays_bind_ofExcept fun object hobject =>
    stays_bind stays_orStop fun issued => stays_bind (stays_s3Asks _ rfl) fun _ =>
      stays_bind (stays_s3DiscardParts (hpath object (mapError_eq_ok.mp hobject)) issued found)
        fun staged => ?_
  split
  · exact stays_stop
  · exact stays_pure

end Complete

/-! ## Staged parts of two keys -/

theorem contains_append (front part back : Text) :
    contains part (front ++ (part ++ back)) = true := by
  induction front with
  | nil =>
    rw [List.nil_append]
    rcases hwhole : part ++ back with _ | ⟨c, later⟩
    · obtain ⟨rfl, -⟩ := List.append_eq_nil_iff.mp hwhole
      rfl
    · rw [contains, ← hwhole, Bool.or_eq_true, List.isPrefixOf_iff_prefix]
      exact .inl (List.prefix_append ..)
  | cons c front ih =>
    rw [List.cons_append, contains, ih, Bool.or_true]

/-- The marker does not overlap itself. -/
theorem marker_inside {middle front back : Text}
    (h : uploadPartMarker ++ back = middle ++ (uploadPartMarker ++ front)) :
    middle = [] ∨ uploadPartMarker <+: middle := by
  rcases Nat.lt_or_ge middle.length uploadPartMarker.length with hshort | hlong
  · left
    have hdot : uploadPartMarker[middle.length]? = some '.' := by
      have hget := congrArg (fun text : Text => text[middle.length]?) h
      rw [List.getElem?_append_left hshort, List.getElem?_append_right le_rfl, Nat.sub_self] at hget
      rw [hget]
      rfl
    have hzero : ∀ n < uploadPartMarker.length, uploadPartMarker[n]? = some '.' → n = 0 := by decide
    exact List.length_eq_zero_iff.mp (hzero _ hshort hdot)
  · right
    have hprefix : uploadPartMarker <+: middle ++ (uploadPartMarker ++ front) :=
      h ▸ List.prefix_append ..
    exact List.prefix_of_prefix_length_le hprefix (List.prefix_append ..) hlong

theorem key_of_staged {key other front back : Text} (hkey : contains uploadPartMarker key = false)
    (hother : contains uploadPartMarker other = false)
    (h : key ++ (uploadPartMarker ++ front) = other ++ (uploadPartMarker ++ back)) :
    key = other := by
  -- the longer of the two keys would begin its rest with the marker
  have hlonger : ∀ {short long ahead behind : Text}, contains uploadPartMarker long = false →
      short ++ (uploadPartMarker ++ ahead) = long ++ (uploadPartMarker ++ behind) →
        short <+: long → short = long := by
    rintro short long ahead behind hlong heq ⟨middle, rfl⟩
    rw [List.append_assoc] at heq
    rcases marker_inside (List.append_cancel_left heq) with rfl | ⟨rest, rfl⟩
    · exact (List.append_nil short).symm
    · rw [contains_append] at hlong
      cases hlong
  have hfirst : key <+: key ++ (uploadPartMarker ++ front) := List.prefix_append ..
  have hsecond : other <+: key ++ (uploadPartMarker ++ front) := by
    rw [h]
    exact List.prefix_append ..
  rcases le_total key.length other.length with hle | hle
  · exact hlonger hother h (List.prefix_of_prefix_length_le hfirst hsecond hle)
  · exact (hlonger hkey h.symm (List.prefix_of_prefix_length_le hsecond hfirst hle)).symm

variable {object other : ObjectRef}

theorem staged_apart (hobject : contains uploadPartMarker object.key = false)
    (hother : contains uploadPartMarker other.key = false) (h : partsPrefix object <+: path)
    (h' : partsPrefix other <+: path) : object = other := by
  obtain ⟨front, rfl⟩ := h
  obtain ⟨back, hpath⟩ := h'
  simp only [partsPrefix, ObjectRef.storagePath, List.append_assoc, List.cons_append] at hpath
  have hparts := congrArg (splitOnce '/') (List.append_cancel_left hpath)
  rw [splitOnce_append (ObjectRef.slash_notMem_nameSpace other),
    splitOnce_append (ObjectRef.slash_notMem_nameSpace object)] at hparts
  obtain ⟨hspace, hkeys⟩ := Prod.mk.inj (Option.some.inj hparts)
  exact ObjectRef.eq_of_parts hspace.symm (key_of_staged hobject hother hkeys.symm)

theorem staged_ne_object (hobject : contains uploadPartMarker object.key = false)
    (h : partsPrefix other <+: path) : path ≠ object.storagePath := by
  rintro rfl
  obtain ⟨back, hpath⟩ := h
  simp only [partsPrefix, ObjectRef.storagePath, List.append_assoc, List.cons_append] at hpath
  have hparts := congrArg (splitOnce '/') (List.append_cancel_left hpath)
  rw [splitOnce_append (ObjectRef.slash_notMem_nameSpace other),
    splitOnce_append (ObjectRef.slash_notMem_nameSpace object)] at hparts
  have hkey := (Prod.mk.inj (Option.some.inj hparts)).2
  rw [← hkey, contains_append] at hobject
  cases hobject

theorem elsewhere_of_staged (hobject : contains uploadPartMarker object.key = false)
    (hother : contains uploadPartMarker other.key = false) (hne : object ≠ other)
    (h : partsPrefix other <+: path) : Elsewhere object path :=
  ⟨staged_ne_object hobject h, fun hpath => hne (staged_apart hobject hother hpath h)⟩

end Stado.ObjectApi
