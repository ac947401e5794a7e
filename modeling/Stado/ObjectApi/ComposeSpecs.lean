import Stado.ObjectApi.Compose
import Stado.ObjectApi.WriteSpecs

/-!
# What a composition leaves behind

What the chunks come to on a disk, and how far a failing publication got.
-/

namespace Stado.ObjectApi

open List Option Trials.Trial Trials Checks Store Disk Except

open S3 (ObjectRef)
open Sigv4 (Text Bytes)
open Directory (contains)

/-! ## The chunks of a composition -/

def StagedChunk.path (chunk : StagedChunk) : Text := chunk.object.storagePath

def Composition.path (composition : Composition) : Text := composition.object.storagePath

def gather (readings : Readings) (disk : Disk) : List StagedChunk → Except ComposeResponse Bytes
  | [] => .ok []
  | chunk :: rest => do
      let bytes ← stageChunk readings chunk (disk.get chunk.path)
      let later ← gather readings disk rest
      return bytes ++ later

def Assembled (readings : Readings) (composition : Composition) (disk : Disk) (bytes : Bytes) :
    Prop :=
  gather readings disk composition.chunks = .ok bytes ∧ names readings composition bytes

/-- Every chunk is staged under the target. -/
def Under (composition : Composition) : Prop :=
  ∀ chunk ∈ composition.chunks, partsPrefix composition.object <+: chunk.path

section Compose

variable {readings : Readings} {composition : Composition} {disk : Disk}
  {faults : Faults StorageError} {bytes : Bytes} {chunks : List StagedChunk} {found : Bytes}
  {path : Text} {chunk : StagedChunk} {hit : ℕ × Fault StorageError} {refusal : ComposeResponse}
  {paths : List Text}

theorem composeError_fails {status : ℕ} (h : 300 ≤ status) (message : Text) :
    (composeError status message).succeeded = false := by
  show (200 ≤ status && status < 300) = false
  rw [Bool.and_eq_false_iff, decide_eq_false_iff_not, decide_eq_false_iff_not]
  exact .inr (by omega)

theorem stageChunk_fails {found : Option Bytes}
    (h : stageChunk readings chunk found = .error refusal) : refusal.succeeded = false := by
  unfold stageChunk at h
  split at h
  · obtain rfl := error.inj h
    rfl
  · split_ifs at h
    obtain rfl := error.inj h
    exact composeError_fails (by decide) _

theorem gather_congr {other : Disk}
    (h : ∀ chunk ∈ chunks, other.get chunk.path = disk.get chunk.path) :
    gather readings other chunks = gather readings disk chunks := by
  induction chunks with
  | nil => rfl
  | cons chunk rest ih =>
    rw [gather, gather, h chunk (mem_cons_self ..),
      ih fun later hlater => h later (mem_cons_of_mem _ hlater)]

theorem gather_missing (hmem : chunk ∈ chunks) (h : disk.get chunk.path = none) (bytes : Bytes) :
    gather readings disk chunks ≠ .ok bytes := by
  induction chunks generalizing bytes with
  | nil => cases hmem
  | cons first rest ih =>
    rw [gather]
    intro hok
    rcases hfirst : stageChunk readings first (disk.get first.path) with refusal | some
    · rw [hfirst] at hok
      cases hok
    · rw [hfirst] at hok
      rcases mem_cons.mp hmem with rfl | hmem
      · rw [h] at hfirst
        cases hfirst
      · rcases hlater : gather readings disk rest with refusal | more
        · rw [hlater] at hok
          cases hok
        · exact ih hmem more hlater

/-- Reading the chunks changes nothing; it comes to what they are when no read fails. -/
theorem stageChunks_run (chunks : List StagedChunk) (faults : Faults StorageError) :
    ∃ result rest, stageChunks readings chunks disk (alone faults) = (result, disk, rest) ∧
      (strike chunks.length faults = none → result = gather readings disk chunks) ∧
      (∀ bytes, result = .ok bytes → gather readings disk chunks = .ok bytes ∧
        strike chunks.length faults = none ∧ rest = alone (faults.drop chunks.length)) ∧
      ∀ refusal, result = .error refusal → refusal.succeeded = false := by
  induction chunks generalizing faults with
  | nil =>
    refine ⟨.ok [], alone faults, rfl, fun _ => rfl, fun bytes hbytes => ⟨?_, rfl, rfl⟩, nofun⟩
    exact hbytes ▸ rfl
  | cons chunk rest ih =>
    show ∃ result after, Trial.bind (composeTries _) _ disk (alone faults) = _ ∧ _
    rw [length_cons, Nat.add_comm, Trial.strike_add]
    cases hfirst : strike 1 faults with
    | some first =>
      refine ⟨_, _, bind_error (asks_struck rfl hfirst), nofun, nofun, ?_⟩
      rintro refusal hrefusal
      obtain rfl := error.inj hrefusal
      exact composeError_fails (by decide) _
    | none =>
      have hread : composeTries (readBytes chunk.object.storagePath) disk
          (alone faults) = (.ok (disk.get chunk.path), disk, alone (faults.drop 1)) :=
        asks_ok rfl hfirst rfl
      rw [bind_ok hread]
      show ∃ result after, Trial.bind (ofExcept (stageChunk readings chunk
        (disk.get chunk.path))) _ disk _ = _ ∧ _
      rcases hstage : stageChunk readings chunk (disk.get chunk.path) with refusal | bytes
      · refine ⟨.error refusal, _, rfl, ?_, nofun, ?_⟩
        · intro _
          rw [gather, hstage]
          rfl
        · rintro other hother
          obtain rfl := error.inj hother
          exact stageChunk_fails hstage
      · obtain ⟨result, after, hrun, hclear, hok, hfails⟩ := ih (faults.drop 1)
        show ∃ result after, Trial.bind (stageChunks readings rest) _ disk _ = _ ∧ _
        rw [none_or, map_eq_none_iff, gather, hstage]
        rcases result with refusal | more
        · refine ⟨.error refusal, after, bind_error hrun, ?_, nofun, hfails⟩
          intro hnone
          rw [← hclear hnone]
          rfl
        · obtain ⟨hgather, hnone, hafter⟩ := hok more rfl
          refine ⟨.ok (bytes ++ more), after, bind_ok hrun, ?_, ?_, nofun⟩
          · intro _
            rw [hgather]
            rfl
          · intro whole hwhole
            refine ⟨?_, hnone, ?_⟩
            · rw [hgather]
              exact hwhole
            · rw [hafter, drop_drop]

/-! ## Publication -/

theorem checkAssembled_ok (h : names readings composition bytes) :
    checkAssembled readings composition bytes = .ok () := by
  rw [checkAssembled, if_neg (not_not.mpr h.1), if_neg (not_not.mpr h.2)]

theorem checkAssembled_fails (h : ¬ names readings composition bytes) :
    ∃ refusal, checkAssembled readings composition bytes = .error refusal ∧
      refusal.succeeded = false := by
  rw [checkAssembled]
  split_ifs with hsize hdigest
  · exact ⟨_, rfl, composeError_fails (by decide) _⟩
  · exact ⟨_, rfl, composeError_fails (by decide) _⟩
  · exact absurd ⟨not_not.mp hsize, not_not.mp hdigest⟩ h

def landing (readings : Readings) (composition : Composition) (bytes : Bytes) :
    ComposeRoute ComposeResponse :=
  Trial.bind (composeCreate readings composition bytes) fun _ =>
    finishComposition composition

theorem publishComposition_create (h : composition.ifAbsent = true) :
    publishComposition readings composition =
      Trial.bind (tries (fun error => .plain (storageErrorResponse error))
        storageWriteGuard) fun _ =>
        Trial.bind (stageChunks readings composition.chunks) fun bytes =>
          Trial.bind (ofExcept (checkAssembled readings composition bytes)) fun _ =>
            landing readings composition bytes := by
  show Trial.bind (assembleComposition readings composition) _ = _
  unfold assembleComposition publishAssembled
  rw [h]
  show Trial.bind (Trial.bind _ fun _ => Trial.bind _ fun assembled =>
    Trial.bind _ fun _ => Trial.pure assembled) _ = _
  simp only [Trial.bind_assoc]
  rfl

/-- Until the bytes are assembled a publication only reads. -/
theorem publish_assembling (h : composition.ifAbsent = true) (faults : Faults StorageError) :
    (∃ refusal rest, publishComposition readings composition disk (alone faults) =
        (.error refusal, disk, rest) ∧ refusal.succeeded = false ∧
      ((∃ bytes, Assembled readings composition disk bytes) →
        ∃ hit, strike (1 + composition.chunks.length) faults = some hit)) ∨
    ∃ bytes, Assembled readings composition disk bytes ∧
      strike (1 + composition.chunks.length) faults = none ∧
      publishComposition readings composition disk (alone faults) =
        landing readings composition bytes disk
          (alone (faults.drop (1 + composition.chunks.length))) := by
  rw [publishComposition_create h, Trial.strike_add]
  cases hguard : strike 1 faults with
  | some first =>
    refine .inl ⟨_, _, bind_error (asks_struck rfl hguard), storageErrorResponse_fails _, ?_⟩
    exact fun _ => ⟨first, rfl⟩
  | none =>
    rw [bind_ok (asks_ok rfl hguard rfl), none_or]
    obtain ⟨result, rest, hrun, hclear, hok, hfails⟩ :=
      @stageChunks_run readings disk composition.chunks (faults.drop 1)
    rcases result with refusal | bytes
    · refine .inl ⟨refusal, rest, bind_error hrun, hfails refusal rfl, ?_⟩
      rintro ⟨bytes, hgather, -⟩
      cases hstrike : strike composition.chunks.length (faults.drop 1) with
      | some hit => exact ⟨_, rfl⟩
      | none => cases (hclear hstrike).trans hgather
    · obtain ⟨hgather, hnone, hrest⟩ := hok bytes rfl
      rw [bind_ok hrun, hnone]
      by_cases hnames : names readings composition bytes
      · refine .inr ⟨bytes, ⟨hgather, hnames⟩, rfl, ?_⟩
        rw [checkAssembled_ok hnames, hrest, drop_drop]
        rfl
      · obtain ⟨refusal, hrefusal, hrefused⟩ := checkAssembled_fails hnames
        refine .inl ⟨refusal, rest, ?_, hrefused, ?_⟩
        · rw [hrefusal]
          rfl
        · rintro ⟨other, hother, hothers⟩
          obtain rfl := ok.inj (hgather.symm.trans hother)
          exact absurd hothers hnames

/-! ## Clearing the staged parts -/

def cleared (composition : Composition) (disk : Disk) : List Text :=
  stagedParts composition.object (disk.names (partsPrefix composition.object))

/-- The parts gone when the calls from `start` on clear them one by one up to a failure. -/
def removedBy (start : ℕ) (hit : ℕ × Fault StorageError) (paths : List Text) : List Text :=
  if hit.1 < start then [] else paths.take (hit.1 - start + min hit.2.stages 1)

theorem removedBy_add (more start : ℕ) (hit : ℕ × Fault StorageError) (paths : List Text) :
    removedBy (start + more) (hit.1 + more, hit.2) paths = removedBy start hit paths := by
  rw [removedBy, removedBy, Nat.add_sub_add_right]
  simp only [Nat.add_lt_add_iff_right]

theorem removedBy_early {start : ℕ} (h : hit.1 < start)
    (paths : List Text) : removedBy start hit paths = [] := if_pos h

theorem mem_cleared (h : path ∈ cleared composition disk) :
    partsPrefix composition.object <+: path :=
  (mem_names.mp (mem_of_mem_filter h)).2

theorem mem_removedBy {start : ℕ} (h : path ∈ removedBy start hit paths) : path ∈ paths := by
  unfold removedBy at h
  split_ifs at h
  · cases h
  · exact mem_of_mem_take h

theorem length_partsPrefix (object : ObjectRef) :
    (partsPrefix object).length = object.storagePath.length + 16 := by
  rw [partsPrefix, length_append]
  rfl

theorem ne_target (h : partsPrefix composition.object <+: path) : path ≠ composition.path := by
  rintro rfl
  have hlength := h.length_le
  rw [length_partsPrefix] at hlength
  exact absurd hlength (by rw [Composition.path]; omega)

theorem length_metadataPath (path : Text) :
    path.length ≤ (metadataPath path).length ∧ (metadataPath path).length ≤ path.length + 5 := by
  unfold metadataPath
  split_ifs
  · omega
  · rw [length_append]
    exact ⟨Nat.le_add_right .., le_rfl⟩

theorem sidecar_ne (h : partsPrefix composition.object <+: path) :
    metadataPath composition.path ≠ metadataPath path := by
  intro heq
  have hpart := (length_metadataPath path).1
  have htarget := (length_metadataPath composition.path).2
  have hlength := h.length_le
  rw [length_partsPrefix] at hlength
  rw [heq, Composition.path] at htarget
  omega

theorem get_deleteBlob (path other : Text) (n : ℕ) (disk : Disk) :
    ((deleteBlob path).partway n disk).get other =
      if other ∈ [path].take n then none else disk.get other := by
  have hremoved : (disk.removeFile path).get other =
      if other ∈ [path] then none else disk.get other := by
    by_cases hother : other = path
    · rw [if_pos (mem_singleton.mpr hother), hother, get_removeFile]
    · rw [if_neg fun hmem => hother (mem_singleton.mp hmem), get_removeFile_ne hother]
  rcases n with _ | _ | n
  · rw [Call.partway_zero, take_zero, if_neg not_mem_nil]
  · exact hremoved
  · rw [show [path].take (n + 1 + 1) = [path] from take_of_length_le (by simp), ← hremoved]
    show (List.foldl _ disk (List.take (n + 1 + 1) [removeFile path, _])).get other = _
    rw [take_of_length_le (by simp)]
    rfl

theorem get_deleteBlobs (paths : List Text) (disk : Disk) (other : Text) :
    (paths.foldl (fun t path => (deleteBlob path).whole t) disk).get other =
      if other ∈ paths then none else disk.get other := by
  induction paths generalizing disk with
  | nil => rw [foldl_nil, if_neg not_mem_nil]
  | cons path rest ih =>
    rw [foldl_cons, ih, Call.whole_eq_partway, get_deleteBlob]
    show (if other ∈ rest then none else if other ∈ [path] then none else disk.get other) = _
    simp only [mem_cons, not_mem_nil, or_false]
    split_ifs <;> tauto

theorem readSidecar_deleteBlobs
    (h : ∀ path ∈ paths, partsPrefix composition.object <+: path) (disk : Disk) :
    (paths.foldl (fun t path => (deleteBlob path).whole t) disk).readSidecar
      composition.path = disk.readSidecar composition.path := by
  induction paths generalizing disk with
  | nil => rfl
  | cons path rest ih =>
    rw [foldl_cons, ih fun other hother => h other (mem_cons_of_mem _ hother)]
    show ((disk.removeFile path).removeSidecar path).readSidecar composition.path = _
    rw [readSidecar_removeSidecar_ne (sidecar_ne (h path (mem_cons_self ..))),
      readSidecar_removeFile]

theorem names_mergeMetadata (path stem : Text) (metadata : Metadata) (disk : Disk) :
    (disk.mergeMetadata path metadata).names stem = disk.names stem := by
  unfold mergeMetadata
  split <;> rfl

theorem filter_erase {α : Type} [DecidableEq α] {test : α → Bool} {a : α} (h : test a = false)
    (l : List α) : (l.erase a).filter test = l.filter test := by
  rw [← erase_filter, erase_of_not_mem]
  intro hmem
  rw [mem_filter, h] at hmem
  cases hmem.2

theorem cleared_publish (bytes : Bytes) (disk : Disk) :
    cleared composition (disk.publish composition.path bytes) = cleared composition disk := by
  have hnot : (partsPrefix composition.object).isPrefixOf composition.path = false := by
    rw [← Bool.not_eq_true, isPrefixOf_iff_prefix]
    exact fun hprefix => ne_target hprefix rfl
  have hkeys : ((disk.publish composition.path bytes).files.keys.filter fun name =>
      (partsPrefix composition.object).isPrefixOf name) =
      disk.files.keys.filter fun name => (partsPrefix composition.object).isPrefixOf name := by
    show ((AList.insert composition.path bytes disk.files).keys.filter _) = _
    rw [AList.keys_insert, filter_cons_of_neg (by rw [hnot]; exact Bool.false_ne_true),
      filter_erase hnot]
  rw [cleared, cleared, Disk.names, Disk.names, hkeys]

theorem cleared_mergeMetadata (path : Text) (metadata : Metadata) (disk : Disk) :
    cleared composition (disk.mergeMetadata path metadata) = cleared composition disk := by
  rw [cleared, cleared, names_mergeMetadata]

/-! ## The landing -/

def finishCalls (composition : Composition) (disk : Disk) : ℕ :=
  3 + (cleared composition disk).length

def ComposeFinished (readings : Readings) (composition : Composition) (after : Disk) : Prop :=
  (∃ bytes, after.get composition.path = some bytes ∧ names readings composition bytes) ∧
    Landed composition.path composition.metadata after

def composed (composition : Composition) : ComposeResponse :=
  .enveloped ⟨200, [("state".toList, "stored".toList), uriField composition.object,
    ("content_type".toList, composition.contentType)]⟩

def clearing (composition : Composition) (paths : List Text) : ComposeRoute ComposeResponse :=
  Trial.bind (each paths fun path => composeTries (deleteBlob path)) fun _ =>
    Trial.pure (composed composition)

def described (composition : Composition) (disk : Disk) : Disk :=
  disk.mergeMetadata composition.path composition.metadata

/-- The blobs the target's name begins. -/
def listing (composition : Composition) (disk : Disk) : List BlobInfo :=
  (disk.names composition.path).map fun name => ⟨name, disk.readSidecar name⟩

theorem get_described (path : Text) : (described composition disk).get path = disk.get path :=
  get_mergeMetadata ..

theorem setMetadata_clear (h : strike 1 faults = none) :
    composeTries (setMetadata composition.path composition.metadata) disk (alone faults) =
      (.ok (), described composition disk, alone (faults.drop 1)) :=
  tries_ok h rfl

theorem listBlobs_clear (h : strike 1 faults = none) :
    composeTries (listBlobsWithMeta composition.path) disk (alone faults) =
      (.ok (listing composition disk), disk, alone (faults.drop 1)) :=
  asks_ok rfl h rfl

theorem listParts_clear (h : strike 1 faults = none) :
    composeTries (listPaths (partsPrefix composition.object)) disk (alone faults) =
      (.ok (disk.names (partsPrefix composition.object)), disk, alone (faults.drop 1)) :=
  asks_ok rfl h rfl

theorem verified (hget : disk.get composition.path = some found) :
    verifyLanded composition.object composition.metadata
      (listing composition (described composition disk)) = .ok () :=
  verifyLanded_ok ((get_described _).trans hget) (landed_mergeMetadata hget)

section

variable (h : composition.ifAbsent = true)

include h

theorem finishComposition_eq : finishComposition composition =
    Trial.bind (composeTries (setMetadata composition.path composition.metadata))
      fun _ => Trial.bind (composeTries (listBlobsWithMeta composition.path))
        fun landed => Trial.bind (ofExcept ((verifyLanded composition.object
          composition.metadata landed).mapError (composeError 500)))
          fun _ => Trial.bind
            (composeTries (listPaths (partsPrefix composition.object)))
            fun found => clearing composition (stagedParts composition.object found) := by
  unfold finishComposition cleanupPaths
  rw [h]
  show Trial.bind _ (fun _ => Trial.bind _ fun _ => Trial.bind _ fun _ =>
    Trial.bind (Trial.bind _ _) _) = _
  simp only [Trial.bind_assoc]
  rfl

theorem finishComposition_create
    (hget : disk.get composition.path = some found) (hclear : strike 3 faults = none) :
    finishComposition composition disk (alone faults) =
      clearing composition (cleared composition disk) (described composition disk)
        (alone (faults.drop 3)) := by
  rw [show 3 = 1 + (1 + 1) from rfl, Trial.strike_add_none, Trial.strike_add_none] at hclear
  obtain ⟨hfirst, hsecond, hthird⟩ := hclear
  rw [finishComposition_eq h, bind_ok (setMetadata_clear hfirst),
    bind_ok (listBlobs_clear hsecond), verified hget]
  show Trial.bind (composeTries _) _ _ _ = _
  rw [bind_ok (listParts_clear hthird), drop_drop, drop_drop]
  show clearing composition (cleared composition (described composition disk)) _ _ = _
  rw [described, cleared_mergeMetadata]

/-- A failure before the clearing leaves every file as it was. -/
theorem finishComposition_early
    (hget : disk.get composition.path = some found)
    (hstrike : strike 3 faults = some hit) : ∃ refusal after rest,
      finishComposition composition disk (alone faults) = (.error refusal, after, rest) ∧
      refusal.succeeded = false ∧ ∀ path, after.get path = disk.get path := by
  have hfails : ∀ error : StorageError, (composeError 500 error.text).succeeded = false :=
    fun _ => composeError_fails (by decide) _
  rw [show 3 = 1 + (1 + 1) from rfl, Trial.strike_add] at hstrike
  rw [finishComposition_eq h]
  cases hfirst : strike 1 faults with
  | some first =>
    refine ⟨_, _, _, bind_error (tries_struck hfirst), hfails _, fun path => ?_⟩
    rcases hstages : first.2.stages with _ | n
    · rw [Call.partway_zero]
    · show (List.foldl _ disk (List.take (n + 1) [mergeMetadata _ _])).get path = _
      rw [take_of_length_le (by simp)]
      exact get_mergeMetadata ..
  | none =>
    rw [hfirst, none_or, Trial.strike_add] at hstrike
    rw [bind_ok (setMetadata_clear hfirst)]
    cases hsecond : strike 1 (faults.drop 1) with
    | some second =>
      exact ⟨_, _, _, bind_error (asks_struck rfl hsecond), hfails _, get_described⟩
    | none =>
      rw [hsecond, none_or] at hstrike
      rw [bind_ok (listBlobs_clear hsecond), verified hget]
      show ∃ refusal after rest, Trial.bind (composeTries _) _ _ _ = _ ∧ _
      cases hthird : strike 1 ((faults.drop 1).drop 1) with
      | some third =>
        exact ⟨_, _, _, bind_error (asks_struck rfl hthird), hfails _, get_described⟩
      | none =>
        rw [hthird] at hstrike
        cases hstrike

theorem finishComposition_clear
    (hget : disk.get composition.path = some found)
    (hclear : strike (finishCalls composition disk) faults = none) : ∃ after rest,
      finishComposition composition disk (alone faults) =
        (.ok (composed composition), after, rest) ∧
      after.get composition.path = some found ∧
      Landed composition.path composition.metadata after := by
  rw [finishCalls, Trial.strike_add_none] at hclear
  rw [finishComposition_create h hget hclear.1]
  have heach : each (cleared composition disk) (fun path => composeTries (deleteBlob path))
      (described composition disk) (alone (faults.drop 3)) =
        (.ok (), (cleared composition disk).foldl (fun t path => (deleteBlob path).whole t)
          (described composition disk), alone ((faults.drop 3).drop (cleared composition disk).length)) :=
    Trial.each_clear (fun _ _ => rfl) _ hclear.2
  refine ⟨_, _, bind_ok heach, ?_, ?_⟩
  · rw [get_deleteBlobs, if_neg fun hmem => ne_target (mem_cleared hmem) rfl, get_described, hget]
  · intro field value hfield hvalue
    rw [readSidecar_deleteBlobs (fun path hpath => mem_cleared hpath)]
    exact landed_mergeMetadata hget field value hfield hvalue

theorem finishComposition_struck
    (hget : disk.get composition.path = some found)
    (hstrike : strike (finishCalls composition disk) faults = some hit) : ∃ refusal after rest,
      finishComposition composition disk (alone faults) = (.error refusal, after, rest) ∧
      refusal.succeeded = false ∧ ∀ path, after.get path =
        if path ∈ removedBy 3 hit (cleared composition disk) then none else disk.get path := by
  rw [finishCalls, Trial.strike_add] at hstrike
  cases hfirst : strike 3 faults with
  | some first =>
    rw [hfirst, some_or] at hstrike
    obtain rfl := Option.some.inj hstrike
    have hnone : removedBy 3 first (cleared composition disk) = [] :=
      removedBy_early (Trial.strike_lt hfirst) _
    simp only [hnone, not_mem_nil, if_false]
    exact finishComposition_early h hget hfirst
  | none =>
    rw [hfirst, none_or] at hstrike
    obtain ⟨later, hlater, rfl⟩ := map_eq_some_iff.mp hstrike
    rw [finishComposition_create h hget hfirst]
    obtain ⟨path, rest, hpath, heach⟩ :
        ∃ path rest, (cleared composition disk)[later.1]? = some path ∧
          each (cleared composition disk)
              (fun path => composeTries (deleteBlob path))
              (described composition disk) (alone (faults.drop 3)) =
            (.error (composeError 500 later.2.error.text), (deleteBlob path).partway later.2.stages
                (((cleared composition disk).take later.1).foldl
                  (fun t path => (deleteBlob path).whole t)
                  (described composition disk)), rest) :=
      Trial.each_struck (fun _ _ => rfl) _ hlater
    refine ⟨_, _, _, bind_error heach, composeError_fails (by decide) _, fun other => ?_⟩
    rw [get_deleteBlob, get_deleteBlobs, get_described, removedBy,
      if_neg (Nat.not_lt.mpr (Nat.le_add_left ..)), Nat.add_sub_cancel]
    rcases hstages : later.2.stages with _ | n
    · rw [take_zero, if_neg not_mem_nil]
      rfl
    · have htake : (cleared composition disk).take (later.1 + min (n + 1) 1) =
          (cleared composition disk).take later.1 ++ [path] := by
        rw [Nat.min_eq_right (Nat.le_add_left 1 n), take_add_one, hpath]
        rfl
      have hone : [path].take (n + 1) = [path] := take_of_length_le (by simp)
      rw [htake, hone]
      simp only [mem_append]
      split_ifs <;> tauto

end

/-! ## The creation -/

/-- The calls that create the target, or find it there and compare it. -/
def creationCalls (composition : Composition) (disk : Disk) : ℕ :=
  if (disk.get composition.path).isSome then 2 else 1

theorem composeCreate_absent (hget : disk.get composition.path = none)
    (hclear : strike 1 faults = none) :
    composeCreate readings composition bytes disk (alone faults) =
      (.ok (), disk.publish composition.path bytes, alone (faults.drop 1)) := by
  have hcreate : composeTries (uploadFileIfAbsent composition.path bytes) disk
      (alone faults) = (.ok true, disk.publish composition.path bytes, alone (faults.drop 1)) := by
    have hanswer : (uploadFileIfAbsent composition.path bytes).answer disk = .ok true := by
      show ok (disk.get composition.path).isNone = _
      rw [hget]
      rfl
    rw [composeTries, tries_ok hclear hanswer, create_whole_none hget]
  show Trial.bind (composeTries (uploadFileIfAbsent composition.path bytes)) _ _ _ = _
  rw [bind_ok hcreate]
  rfl

theorem composeCreate_exists (hget : disk.get composition.path = some found)
    (hclear : strike 2 faults = none) :
    composeCreate readings composition bytes disk (alone faults) =
      (confirmExisting readings composition (some found), disk, alone (faults.drop 2)) := by
  rw [show 2 = 1 + 1 from rfl, Trial.strike_add_none] at hclear
  have hcreate : composeTries (uploadFileIfAbsent composition.path bytes) disk
      (alone faults) = (.ok false, disk, alone (faults.drop 1)) := by
    have hanswer : (uploadFileIfAbsent composition.path bytes).answer disk = .ok false := by
      show ok (disk.get composition.path).isNone = _
      rw [hget]
      rfl
    rw [composeTries, tries_ok hclear.1 hanswer, Call.whole_eq_partway, create_some hget]
  have hread : composeTries (readBytes composition.path) disk (alone (faults.drop 1)) =
      (.ok (some found), disk, alone ((faults.drop 1).drop 1)) := by
    rw [← hget]
    exact asks_ok rfl hclear.2 rfl
  show Trial.bind (composeTries (uploadFileIfAbsent composition.path bytes)) _ _ _ = _
  rw [bind_ok hcreate]
  show Trial.bind (composeTries (readBytes composition.path)) _ _ _ = _
  rw [bind_ok hread, drop_drop]
  cases confirmExisting readings composition (some found) <;> rfl

theorem composeCreate_struck (hstrike : strike (creationCalls composition disk) faults = some hit) :
    ∃ refusal after rest, composeCreate readings composition bytes disk (alone faults) =
        (.error refusal, after, rest) ∧ refusal.succeeded = false ∧
      (after = disk ∨
        disk.get composition.path = none ∧ after = disk.publish composition.path bytes) := by
  show ∃ refusal after rest, Trial.bind (composeTries
    (uploadFileIfAbsent composition.path bytes)) _ _ _ = _ ∧ _
  have hfails : ∀ error : StorageError, (composeError 500 error.text).succeeded = false :=
    fun _ => composeError_fails (by decide) _
  have hcalls : ∃ more, creationCalls composition disk = 1 + more := by
    rw [creationCalls]
    split
    · exact ⟨1, rfl⟩
    · exact ⟨0, rfl⟩
  obtain ⟨more, hmore⟩ := hcalls
  rw [hmore, Trial.strike_add] at hstrike
  cases hfirst : strike 1 faults with
  | some first =>
    refine ⟨_, _, _, bind_error (tries_struck hfirst), hfails _, ?_⟩
    rcases hget : disk.get composition.path with _ | found
    · rcases hstages : first.2.stages with _ | n
      · exact .inl (Call.partway_zero _ disk)
      · exact .inr ⟨rfl, create_none hget n⟩
    · exact .inl (create_some hget _)
  | none =>
    rw [hfirst, none_or] at hstrike
    obtain ⟨second, hsecond, -⟩ := map_eq_some_iff.mp hstrike
    rcases hget : disk.get composition.path with _ | found
    · rw [creationCalls, hget] at hmore
      obtain rfl : more = 0 := (Nat.add_left_cancel hmore).symm
      cases hsecond
    · rw [creationCalls, hget] at hmore
      obtain rfl : more = 1 := (Nat.add_left_cancel hmore).symm
      have hcreate : composeTries (uploadFileIfAbsent composition.path bytes) disk
          (alone faults) = (.ok false, disk, alone (faults.drop 1)) := by
        have hanswer : (uploadFileIfAbsent composition.path bytes).answer disk = .ok false := by
          show ok (disk.get composition.path).isNone = _
          rw [hget]
          rfl
        rw [composeTries, tries_ok hfirst hanswer, Call.whole_eq_partway, create_some hget]
      rw [bind_ok hcreate]
      exact ⟨_, _, _, bind_error (asks_struck rfl hsecond), hfails _, .inl rfl⟩

/-- A target of other content is refused, whatever fails. -/
theorem landing_foreign (hget : disk.get composition.path = some found)
    (hforeign : ¬ names readings composition found) (faults : Faults StorageError) :
    ∃ refusal rest, landing readings composition bytes disk (alone faults) =
      (.error refusal, disk, rest) ∧ refusal.succeeded = false := by
  have hcalls : creationCalls composition disk = 2 := by
    rw [creationCalls, hget]
    rfl
  cases hstrike : strike 2 faults with
  | some hit =>
    rw [← hcalls] at hstrike
    obtain ⟨refusal, after, rest, hrun, hfails, hafter⟩ :=
      @composeCreate_struck readings composition disk faults bytes hit hstrike
    rcases hafter with rfl | ⟨hnone, -⟩
    · exact ⟨refusal, rest, bind_error hrun, hfails⟩
    · cases hget.symm.trans hnone
  | none =>
    have hrun := @composeCreate_exists readings composition disk faults bytes found hget hstrike
    rw [confirmExisting, if_neg hforeign] at hrun
    exact ⟨_, _, bind_error hrun, rfl⟩

/-! ## The whole publication -/

/-- The calls before a composition clears its parts away. -/
def callsBefore (composition : Composition) (disk : Disk) : ℕ :=
  1 + composition.chunks.length + creationCalls composition disk + 3

/-- The target is absent, or already the composed object. -/
def Ours (readings : Readings) (composition : Composition) (disk : Disk) : Prop :=
  ∀ found, disk.get composition.path = some found → names readings composition found

theorem composeCreate_clear (hnames : names readings composition bytes)
    (hours : Ours readings composition disk)
    (hclear : strike (creationCalls composition disk) faults = none) : ∃ there found,
      composeCreate readings composition bytes disk (alone faults) =
        (.ok (), there, alone (faults.drop (creationCalls composition disk))) ∧
      there.get composition.path = some found ∧ names readings composition found ∧
      cleared composition there = cleared composition disk ∧
      ∀ path ≠ composition.path, there.get path = disk.get path := by
  rcases hget : disk.get composition.path with _ | found
  · have hcalls : creationCalls composition disk = 1 := by
      rw [creationCalls, hget]
      rfl
    rw [hcalls] at hclear ⊢
    exact ⟨_, bytes, composeCreate_absent hget hclear, get_publish .., hnames,
      cleared_publish bytes disk, fun path hpath => get_publish_ne hpath bytes disk⟩
  · have hcalls : creationCalls composition disk = 2 := by
      rw [creationCalls, hget]
      rfl
    rw [hcalls] at hclear ⊢
    refine ⟨disk, found, ?_, hget, hours found hget, rfl, fun _ _ => rfl⟩
    rw [composeCreate_exists hget hclear, confirmExisting, if_pos (hours found hget)]

section

variable (h : composition.ifAbsent = true)

include h

theorem landing_clear
    (hnames : names readings composition bytes) (hours : Ours readings composition disk)
    (hclear : strike (creationCalls composition disk + finishCalls composition disk) faults =
      none) : ∃ after rest, landing readings composition bytes disk (alone faults) =
        (.ok (composed composition), after, rest) ∧ ComposeFinished readings composition after := by
  rw [Trial.strike_add_none] at hclear
  obtain ⟨there, found, hrun, hget, hfound, hcleared, -⟩ :=
    composeCreate_clear hnames hours hclear.1
  have hfinish : strike (finishCalls composition there)
      (faults.drop (creationCalls composition disk)) = none := by
    rw [finishCalls, hcleared]
    exact hclear.2
  obtain ⟨after, rest, hfinished, hafter, hlanded⟩ := finishComposition_clear h hget hfinish
  exact ⟨after, rest, (bind_ok hrun).trans hfinished, ⟨found, hafter, hfound⟩, hlanded⟩

/-- A failing landing leaves the target absent or composed, and has removed the parts it had
come to, and no others. -/
theorem landing_struck
    (hnames : names readings composition bytes) (hours : Ours readings composition disk)
    (hstrike : strike (creationCalls composition disk + finishCalls composition disk) faults =
      some hit) : ∃ refusal after rest, landing readings composition bytes disk (alone faults) =
        (.error refusal, after, rest) ∧ refusal.succeeded = false ∧
      Ours readings composition after ∧
      (removedBy (creationCalls composition disk + 3) hit (cleared composition disk) ≠ [] →
        after.get composition.path ≠ none) ∧
      ∀ path ≠ composition.path, after.get path =
        if path ∈ removedBy (creationCalls composition disk + 3) hit (cleared composition disk)
          then none else disk.get path := by
  rw [Trial.strike_add] at hstrike
  cases hcreation : strike (creationCalls composition disk) faults with
  | some first =>
    rw [hcreation, some_or] at hstrike
    obtain rfl := Option.some.inj hstrike
    have hlt := Trial.strike_lt hcreation
    have hnone : removedBy (creationCalls composition disk + 3) first
        (cleared composition disk) = [] := removedBy_early (by omega) _
    rw [hnone]
    obtain ⟨refusal, after, rest, hrun, hfails, hafter⟩ :=
      @composeCreate_struck readings composition disk faults bytes first hcreation
    refine ⟨refusal, after, rest, bind_error hrun, hfails, ?_, fun hne => absurd rfl hne, ?_⟩
    · rcases hafter with rfl | ⟨-, rfl⟩
      · exact hours
      · intro found hfound
        rw [get_publish] at hfound
        obtain rfl := Option.some.inj hfound
        exact hnames
    · intro path hpath
      rw [if_neg not_mem_nil]
      rcases hafter with rfl | ⟨-, rfl⟩
      · rfl
      · exact get_publish_ne hpath bytes disk
  | none =>
    rw [hcreation, none_or] at hstrike
    obtain ⟨later, hlater, rfl⟩ := map_eq_some_iff.mp hstrike
    obtain ⟨there, found, hrun, hget, hfound, hcleared, hothers⟩ :=
      composeCreate_clear hnames hours hcreation
    have hfinish : strike (finishCalls composition there)
        (faults.drop (creationCalls composition disk)) = some later := by
      rw [finishCalls, hcleared]
      exact hlater
    obtain ⟨refusal, after, rest, hfinished, hfails, hafter⟩ :=
      finishComposition_struck h hget hfinish
    rw [Nat.add_comm (creationCalls composition disk) 3, removedBy_add]
    have htarget : after.get composition.path = some found := by
      rw [hafter, if_neg fun hmem => ne_target (mem_cleared (mem_removedBy hmem)) rfl, hget]
    refine ⟨refusal, after, rest, (bind_ok hrun).trans hfinished, hfails, ?_, ?_, ?_⟩
    · intro other hother
      obtain rfl := Option.some.inj (htarget.symm.trans hother)
      exact hfound
    · intro _ hnone
      cases htarget.symm.trans hnone
    · intro path hpath
      rw [hafter, hcleared, hothers path hpath]

/-- Sent again and not disturbed, a composition whose chunks are all there succeeds, when its
target is absent or already the composed object. -/
theorem publish_finishes (hwhole : ∃ bytes, Assembled readings composition disk bytes)
    (hours : Ours readings composition disk) :
    Finishes (publishComposition readings composition) ComposeResponse.succeeded
      (ComposeFinished readings composition) disk := by
  rcases @publish_assembling readings composition disk h [] with
    ⟨refusal, rest, -, -, hfault⟩ | ⟨bytes, hassembled, -, hrun⟩
  · obtain ⟨hit, hhit⟩ := hfault hwhole
    rw [strike_nil] at hhit
    cases hhit
  · have hnil : strike (creationCalls composition disk + finishCalls composition disk)
        (([] : Faults StorageError).drop (1 + composition.chunks.length)) = none := by
      rw [drop_nil, strike_nil]
    obtain ⟨after, rest, hland, hfinished⟩ := landing_clear h hassembled.2 hours hnil
    have hending := ending_ok (hrun.trans hland)
    rw [Finishes, hending]
    exact ⟨rfl, hfinished⟩

/-- Without its chunks a composition does not succeed, and changes nothing. -/
theorem publish_refused (hwhole : ¬ ∃ bytes, Assembled readings composition disk bytes)
    (faults : Faults StorageError) :
    (ending (publishComposition readings composition) disk
        (alone faults)).1.succeeded = false ∧
      (ending (publishComposition readings composition) disk
        (alone faults)).2 = disk := by
  rcases @publish_assembling readings composition disk h faults with
    ⟨refusal, rest, hrun, hfails, -⟩ | ⟨bytes, hassembled, -, -⟩
  · rw [ending_error hrun]
    exact ⟨hfails, rfl⟩
  · exact absurd ⟨bytes, hassembled⟩ hwhole

theorem publish_finishable (hunder : Under composition) (disk : Disk) (faults : Faults StorageError) :
    Finishable (publishComposition readings composition) ComposeResponse.succeeded
      composition.path (ComposeFinished readings composition) disk faults ↔
    (disk.get composition.path = none ∧ ¬ ∃ bytes, Assembled readings composition disk bytes) ∨
    ((∃ bytes, Assembled readings composition disk bytes) ∧ Ours readings composition disk ∧
      ∀ hit, strike (callsBefore composition disk + (cleared composition disk).length) faults =
        some hit → ∀ chunk ∈ composition.chunks,
          chunk.path ∉ removedBy (callsBefore composition disk) hit (cleared composition disk)) := by
  by_cases hwhole : ∃ bytes, Assembled readings composition disk bytes
  · by_cases hours : Ours readings composition disk
    · have hcalls : callsBefore composition disk + (cleared composition disk).length =
          1 + composition.chunks.length +
            (creationCalls composition disk + finishCalls composition disk) := by
        rw [callsBefore, finishCalls]
        omega
      rw [hcalls, strike_add]
      rcases @publish_assembling readings composition disk h faults with
        ⟨refusal, rest, hrun, hfails, hfault⟩ | ⟨bytes, hassembled, hnone, hrun⟩
      · -- the disk is as it was: the composition can be sent again
        obtain ⟨hit, hhit⟩ := hfault hwhole
        rw [hhit, some_or]
        refine ⟨fun _ => .inr ⟨hwhole, hours, ?_⟩, fun _ _ => ?_⟩
        · intro other hother chunk _
          obtain rfl := Option.some.inj hother
          have hlt := strike_lt hhit
          rw [removedBy_early (by rw [callsBefore]; omega)]
          exact not_mem_nil
        · rw [ending_error hrun]
          exact .inr (publish_finishes h hwhole hours)
      · rw [hnone, none_or]
        cases hlanding : strike (creationCalls composition disk + finishCalls composition disk)
            (faults.drop (1 + composition.chunks.length)) with
        | none =>
          obtain ⟨after, rest, hland, -⟩ := landing_clear h hassembled.2 hours hlanding
          refine ⟨fun _ => .inr ⟨hwhole, hours, nofun⟩, fun _ hfails => ?_⟩
          rw [ending_ok (hrun.trans hland)] at hfails
          cases hfails
        | some later =>
          obtain ⟨refusal, after, rest, hland, hfails, hafter, hthere, hothers⟩ :=
            landing_struck h hassembled.2 hours hlanding
          have hremoved : removedBy (callsBefore composition disk)
              (later.1 + (1 + composition.chunks.length), later.2) (cleared composition disk) =
                removedBy (creationCalls composition disk + 3) later
                  (cleared composition disk) := by
            have hstart : callsBefore composition disk =
                creationCalls composition disk + 3 + (1 + composition.chunks.length) := by
              rw [callsBefore]
              omega
            rw [hstart, removedBy_add]
          have hending := ending_error (hrun.trans hland)
          constructor
          · intro hfinish
            refine .inr ⟨hwhole, hours, fun other hother chunk hchunk hmem => ?_⟩
            obtain rfl := Option.some.inj hother
            rw [hremoved] at hmem
            have hmissing : after.get chunk.path = none := by
              rw [hothers _ (ne_target (hunder chunk hchunk)), if_pos hmem]
            have hbroken : ¬ ∃ bytes, Assembled readings composition after bytes := by
              rintro ⟨other, hother, -⟩
              exact gather_missing hchunk hmissing other hother
            rw [Finishable, hending] at hfinish
            rcases hfinish hfails with hnothing | ⟨hgood, -⟩
            · exact hthere (ne_nil_of_mem hmem) hnothing
            · rw [(publish_refused h hbroken []).1] at hgood
              cases hgood
          · rintro (⟨-, hbroken⟩ | ⟨-, -, hkept⟩)
            · exact absurd hwhole hbroken
            · rw [Finishable, hending]
              refine fun _ => .inr (publish_finishes h ⟨bytes, ?_, hassembled.2⟩ hafter)
              rw [← hassembled.1]
              refine gather_congr fun chunk hchunk => ?_
              have hnot := hkept _ rfl chunk hchunk
              rw [hremoved] at hnot
              rw [hothers _ (ne_target (hunder chunk hchunk)), if_neg hnot]
    · have hforeign : ∃ found, disk.get composition.path = some found ∧
          ¬ names readings composition found := by
        simpa only [Ours, not_forall, exists_prop] using hours
      obtain ⟨found, hget, hnames⟩ := hforeign
      have hrefused : ∀ faults : Faults StorageError,
          (ending (publishComposition readings composition) disk
            (alone faults)).1.succeeded = false ∧
          (ending (publishComposition readings composition) disk
            (alone faults)).2 = disk := by
        intro faults
        rcases @publish_assembling readings composition disk h faults with
          ⟨refusal, rest, hrun, hfails, -⟩ | ⟨bytes, -, -, hrun⟩
        · rw [ending_error hrun]
          exact ⟨hfails, rfl⟩
        · obtain ⟨refusal, rest, hland, hfails⟩ := @landing_foreign readings composition disk
            bytes found hget hnames (faults.drop (1 + composition.chunks.length))
          rw [ending_error (hrun.trans hland)]
          exact ⟨hfails, rfl⟩
      rw [finishable_of_refused hrefused, hget]
      constructor
      · intro hnone
        cases hnone
      · rintro (⟨hnone, -⟩ | ⟨-, hother, -⟩)
        · cases hnone
        · exact absurd hother hours
  · rw [finishable_of_refused (publish_refused h hwhole)]
    constructor
    · exact fun hnone => .inl ⟨hnone, hwhole⟩
    · rintro (⟨hnone, -⟩ | ⟨hother, -⟩)
      · exact hnone
      · exact absurd hother hwhole

end

end Compose

theorem splitMarker_eq {marker text front back : Text}
    (h : splitMarker marker text = some (front, back)) : text = front ++ (marker ++ back) := by
  induction text generalizing front back with
  | nil =>
    rw [splitMarker] at h
    split_ifs at h with hmarker
    obtain ⟨rfl, rfl⟩ := Prod.mk.inj (Option.some.inj h)
    rw [hmarker]
    rfl
  | cons c rest ih =>
    rw [splitMarker] at h
    split_ifs at h with hprefix
    · obtain ⟨rfl, rfl⟩ := Prod.mk.inj (Option.some.inj h)
      obtain ⟨tail, htail⟩ := isPrefixOf_iff_prefix.mp hprefix
      rw [nil_append, ← htail, drop_left]
    · obtain ⟨⟨first, last⟩, hrest, heq⟩ := map_eq_some_iff.mp h
      obtain ⟨rfl, rfl⟩ := Prod.mk.inj heq
      rw [ih hrest]
      rfl

theorem releaseUploadTargetKey_prefix {key target : Text}
    (h : releaseUploadTargetKey key = some target) :
    ∃ suffix, key = target ++ (uploadPartMarker ++ suffix) := by
  unfold releaseUploadTargetKey at h
  rcases hsplit : splitMarker uploadPartMarker key with _ | ⟨front, suffix⟩
  · rw [hsplit] at h
    cases h
  · rw [hsplit] at h
    refine ⟨suffix, ?_⟩
    rw [splitMarker_eq hsplit]
    dsimp only at h
    split at h
    · split_ifs at h
      rw [Option.some.inj h]
    · cases h

/-! ## What a request was checked for -/

/-- The chunks cover the windows of the object from `index` on, one after another, each staged
under the target at its number. -/
def Windows (object : ObjectRef) (uploadId : Text) : ℕ → ℕ → List StagedChunk → Prop
  | _, _, [] => True
  | index, remaining, chunk :: rest =>
    chunk.size = min remaining chunkBytes ∧ chunk.object.nameSpace = object.nameSpace ∧
      chunk.object.key = object.key ++ uploadPartMarker ++ uploadId ++ '/' :: partName index ∧
      Windows object uploadId (index + 1) (remaining - chunk.size) rest

def Requested (asked : ObjectComposeChunk) (chunk : StagedChunk) : Prop :=
  chunk.object.display = asked.uri ∧ chunk.size = asked.size ∧ chunk.digest = asked.sha256

theorem parseSha256_eq_ok {value digest : Text} (h : parseSha256 value = .ok digest) :
    digest = value := by
  unfold parseSha256 at h
  split_ifs at h
  exact (ok.inj h).symm

variable {index remaining : ℕ} {object : ObjectRef} {composition : Composition} {uploadId : Text}
  {payload : ObjectComposeRequest}

theorem checkChunk_ok {asked : ObjectComposeChunk}
    (h : checkChunk object uploadId index remaining asked = .ok chunk) :
    Requested asked chunk ∧ chunk.size = min remaining chunkBytes ∧
      chunk.object.nameSpace = object.nameSpace ∧
      chunk.object.key = object.key ++ uploadPartMarker ++ uploadId ++ '/' :: partName index := by
  obtain ⟨_, hsize, h⟩ := bind_eq_ok.mp h
  obtain ⟨digest, hdigest, h⟩ := bind_eq_ok.mp h
  obtain ⟨staged, -, h⟩ := bind_eq_ok.mp h
  obtain ⟨_, hplace, h⟩ := bind_eq_ok.mp h
  obtain rfl := ok.inj h
  obtain ⟨hdisplay, hspace, hkey⟩ := require_eq_ok.mp hplace
  exact ⟨⟨hdisplay, rfl, parseSha256_eq_ok (mapError_eq_ok.mp hdigest)⟩,
    require_eq_ok.mp hsize, hspace, hkey⟩

theorem checkChunks_ok {asked : List ObjectComposeChunk}
    (h : checkChunks object uploadId index remaining asked = .ok chunks) :
    List.Forall₂ Requested asked chunks ∧ Windows object uploadId index remaining chunks := by
  induction asked generalizing index remaining chunks with
  | nil =>
    obtain rfl := ok.inj h
    exact ⟨.nil, trivial⟩
  | cons first rest ih =>
    obtain ⟨chunk, hchunk, h⟩ := bind_eq_ok.mp h
    obtain ⟨later, hlater, h⟩ := bind_eq_ok.mp h
    obtain rfl := ok.inj h
    obtain ⟨hrequested, hsize, hspace, hkey⟩ := checkChunk_ok hchunk
    rw [← hrequested.2.1] at hlater
    exact ⟨.cons hrequested (ih hlater).1, hsize, hspace, hkey, (ih hlater).2⟩

structure Checked (payload : ObjectComposeRequest) (composition : Composition) : Prop where
  target : composition.object.display = payload.uri
  unstaged : contains uploadPartMarker composition.object.key = false
  mode : composition.ifAbsent = payload.ifAbsent
  uploadId : composition.uploadId = payload.uploadId
  size : composition.size = payload.size
  count : composition.chunks.length = (composition.size + chunkBytes - 1) / chunkBytes
  requested : List.Forall₂ Requested payload.chunks composition.chunks
  windows : Windows composition.object composition.uploadId 0 composition.size composition.chunks

theorem checkRequest_ok {headLimit : ℕ}
    (h : checkRequest headLimit payload = .ok composition) : Checked payload composition := by
  obtain ⟨object, -, h⟩ := bind_eq_ok.mp h
  obtain ⟨_, hdisplay, h⟩ := bind_eq_ok.mp h
  obtain ⟨_, hunstaged, h⟩ := bind_eq_ok.mp h
  obtain ⟨_, -, h⟩ := bind_eq_ok.mp h
  obtain ⟨uploadId, hupload, h⟩ := bind_eq_ok.mp h
  obtain ⟨_, -, h⟩ := bind_eq_ok.mp h
  obtain ⟨_, hcount, h⟩ := bind_eq_ok.mp h
  obtain ⟨chunks, hchunks, h⟩ := bind_eq_ok.mp h
  obtain ⟨metadata, -, h⟩ := bind_eq_ok.mp h
  obtain rfl := ok.inj h
  have hid := parseSha256_eq_ok (mapError_eq_ok.mp hupload)
  obtain ⟨hrequested, hwindows⟩ := checkChunks_ok hchunks
  refine ⟨require_eq_ok.mp hdisplay, require_eq_ok.mp hunstaged, rfl, hid, rfl, ?_, hrequested, ?_⟩
  · rw [← hrequested.length_eq]
    exact require_eq_ok.mp hcount
  · rw [hid]
    exact hwindows

theorem windows_under (h : Windows object uploadId index remaining chunks) :
    ∀ chunk ∈ chunks, partsPrefix object <+: chunk.path := by
  induction chunks generalizing index remaining with
  | nil => exact nofun
  | cons first rest ih =>
    obtain ⟨-, hspace, hkey, hrest⟩ := h
    refine forall_mem_cons.mpr ⟨?_, ih hrest⟩
    rw [StagedChunk.path, ObjectRef.storagePath, hspace, hkey, partsPrefix, ObjectRef.storagePath]
    refine ⟨uploadId ++ '/' :: partName index, ?_⟩
    simp only [append_assoc, cons_append]

theorem Checked.under (h : Checked payload composition) : Under composition :=
  windows_under h.windows

section Post

variable {readings : Readings} {headLimit : ℕ}
  {authorized : ObjectRef → Bool → Except ComposeResponse Unit} {request : PostRequest}

theorem admitted_checked (h : admitComposition headLimit authorized request = .ok composition) :
    ∃ payload, request.payload = .ok payload ∧ Checked payload composition := by
  obtain ⟨_, -, h⟩ := bind_eq_ok.mp h
  obtain ⟨payload, hpayload, h⟩ := bind_eq_ok.mp h
  obtain ⟨checked, hchecked, h⟩ := bind_eq_ok.mp h
  obtain ⟨_, -, h⟩ := bind_eq_ok.mp h
  obtain rfl := ok.inj h
  exact ⟨payload, mapError_eq_ok.mp hpayload, checkRequest_ok hchecked⟩

theorem post_admitted (h : admitComposition headLimit authorized request = .ok composition) :
    postObjectCompose readings headLimit authorized request =
      publishComposition readings composition := by
  unfold postObjectCompose
  rw [h]
  rfl

theorem post_refused (h : admitComposition headLimit authorized request = .error refusal) :
    postObjectCompose readings headLimit authorized request = stop refusal := by
  unfold postObjectCompose
  rw [h]
  rfl

end Post

section Spared

variable {readings : Readings} {composition : Composition}

theorem new_key_length {nameSpace key : Text}
    (h : ObjectRef.new nameSpace key = .ok object) : object.key.length ≤ key.length := by
  unfold ObjectRef.new at h
  dsimp only at h
  split_ifs at h
  obtain rfl := ok.inj h
  show (Sigv4.trimMatches S3.isSlash key).length ≤ key.length
  rw [Sigv4.trimMatches, length_reverse]
  have hback := (dropWhile_sublist S3.isSlash
    (l := (key.dropWhile S3.isSlash).reverse)).length_le
  have hfront := (dropWhile_sublist S3.isSlash (l := key)).length_le
  rw [length_reverse] at hback
  exact hback.trans hfront

theorem isPartOf_ne (h : isPartOf object path = true) : path ≠ object.storagePath := by
  rintro rfl
  rw [isPartOf, ObjectRef.fromStoragePath_eq] at h
  rcases hnew : ObjectRef.new object.nameSpace (object.key.rdropWhile Directory.isWhitespace)
    with error | candidate
  · rw [hnew] at h
    cases h
  · rw [hnew] at h
    simp only [Bool.and_eq_true, decide_eq_true_eq] at h
    obtain ⟨suffix, hkey⟩ := releaseUploadTargetKey_prefix h.2
    have hlength := congrArg List.length hkey
    rw [length_append, length_append] at hlength
    have hshort := new_key_length hnew
    have htrim := ( rdropWhile_prefix Directory.isWhitespace object.key).length_le
    have hmarker : uploadPartMarker.length = 16 := rfl
    omega

def Spared (object : ObjectRef) (path : Text) (data : Bytes) (disk : Disk) : Prop :=
  disk.get path = some data ∨ isPartOf object path = true ∧ disk.get path = none

theorem stays_publishComposition (h : composition.ifAbsent = true) (path : Text) (data : Bytes) :
    Trial.Stays (Spared composition.object path data)
      (publishComposition readings composition) := by
  have hasks : ∀ {β : Type} (call : StoreCall β), call.stages = [] →
      Trial.Stays (Spared composition.object path data) (composeTries call) := by
    intro β call hcall
    refine Trial.stays_tries fun stage hstage => ?_
    rw [hcall] at hstage
    cases hstage
  have hchunks : ∀ chunks, Trial.Stays (Spared composition.object path data)
      (stageChunks readings chunks) := by
    intro chunks
    induction chunks with
    | nil => exact Trial.stays_pure
    | cons chunk rest ih =>
      exact Trial.stays_bind (hasks _ rfl) fun _ => Trial.stays_bind
        Trial.stays_ofExcept fun _ => Trial.stays_bind ih
          fun _ => Trial.stays_pure
  have hcreate : ∀ bytes, Trial.Stays (Spared composition.object path data)
      (composeCreate readings composition bytes) := by
    intro bytes
    refine Trial.stays_bind (Trial.stays_tries ?_) fun created => ?_
    · intro stage hstage disk hdisk
      obtain rfl := mem_singleton.mp hstage
      show Spared composition.object path data (disk.publishIfAbsent composition.path bytes)
      rcases hget : disk.get composition.path with _ | found
      · rw [publishIfAbsent_none hget]
        have hne : path ≠ composition.path := by
          rintro rfl
          rcases hdisk with hsome | ⟨hpart, -⟩
          · cases hget.symm.trans hsome
          · exact isPartOf_ne hpart rfl
        rw [Spared, get_publish_ne hne]
        exact hdisk
      · rw [publishIfAbsent_some hget]
        exact hdisk
    · cases created with
      | false =>
        exact Trial.stays_bind (hasks _ rfl) fun _ => Trial.stays_ofExcept
      | true => exact Trial.stays_pure
  have hfinish : Trial.Stays (Spared composition.object path data)
      (finishComposition composition) := by
    rw [finishComposition_eq h]
    refine Trial.stays_bind (Trial.stays_tries ?_) fun _ =>
      Trial.stays_bind (hasks _ rfl) fun _ => Trial.stays_bind
        Trial.stays_ofExcept fun _ => Trial.stays_bind (hasks _ rfl) fun found =>
          Trial.stays_bind (Trial.stays_each ?_) fun _ => Trial.stays_pure
    · intro stage hstage disk hdisk
      obtain rfl := mem_singleton.mp hstage
      rw [Spared, get_mergeMetadata]
      exact hdisk
    · intro part hpart
      refine Trial.stays_tries fun stage hstage disk hdisk => ?_
      have hremoved : Spared composition.object path data (disk.removeFile part) := by
        by_cases hsame : path = part
        · rw [hsame]
          exact .inr ⟨(mem_filter.mp hpart).2, get_removeFile part disk⟩
        · rw [Spared, get_removeFile_ne hsame]
          exact hdisk
      rcases mem_cons.mp hstage with rfl | hstage
      · exact hremoved
      · obtain rfl := mem_singleton.mp hstage
        exact hdisk
  rw [publishComposition_create h]
  exact Trial.stays_bind (Trial.stays_tries nofun) fun _ =>
    Trial.stays_bind (hchunks _) fun bytes => Trial.stays_bind
      Trial.stays_ofExcept fun _ => Trial.stays_bind (hcreate bytes) fun _ => hfinish

end Spared

end Stado.ObjectApi
