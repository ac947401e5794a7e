import Stado.ObjectApi.Store

/-!
# When two blobs share a sidecar

A change of one blob leaves the body, the metadata and the existence of another
as they were, unless one of the two names is the other with `.json` appended
and the shorter has no such extension of its own: both then keep their metadata
in one sidecar.
-/

namespace Stado.ObjectApi

open List Disk

open Sigv4 (Text Bytes)

inductive BlobChange where
  | setMetadata (metadata : Metadata)
  | overwrite (data : Bytes)
  | delete

def BlobChange.apply (change : BlobChange) (path : Text) (disk : Disk) : Disk :=
  match change with
  | .setMetadata metadata => disk.mergeMetadata path metadata
  | .overwrite data => disk.publish path data
  | .delete => (disk.removeFile path).removeSidecar path

/-- Under the root, where a blob lies at its own name. -/
def sidecarPath (path : Text) : Text := ".metadata/".toList ++ metadataPath path

/-- What every name that lists as a blob is. -/
structure Listed (name : Text) : Prop where
  named : fileName name ≠ []
  outside : ¬".metadata/".toList <+: name

def HasJsonExtension (path : Text) : Prop :=
  ".json".toList <:+ fileName path ∧ fileName path ≠ ".json".toList

/-- The second name is the first with the extension it does not have. -/
def Extends (path other : Text) : Prop :=
  ¬HasJsonExtension path ∧ other = path ++ ".json".toList

/-- No change of the first blob touches the second. -/
def Spares (path other : Text) : Prop :=
  ∀ (change : BlobChange) (disk : Disk), (change.apply path disk).get other = disk.get other ∧
    (change.apply path disk).readSidecar other = disk.readSidecar other

variable {path other : Text}

theorem metadataPath_json (h : HasJsonExtension path) : metadataPath path = path := if_pos h

theorem metadataPath_plain (h : ¬HasJsonExtension path) :
    metadataPath path = path ++ ".json".toList := if_neg h

theorem hasJsonExtension_append (h : fileName path ≠ []) :
    HasJsonExtension (path ++ ".json".toList) := by
  have hname : fileName (path ++ ".json".toList) = fileName path ++ ".json".toList := by
    rw [fileName, List.rtakeWhile, reverse_append,
      takeWhile_append_of_pos (List.all_eq_true.mp (by decide)), reverse_append,
      reverse_reverse]
    rfl
  rw [HasJsonExtension, hname]
  refine ⟨suffix_append _ _, fun heq => h ?_⟩
  exact append_left_eq_self.mp heq

theorem metadataPath_eq_iff (hpath : fileName path ≠ []) (hother : fileName other ≠ [])
    (hne : path ≠ other) :
    metadataPath path = metadataPath other ↔ Extends path other ∨ Extends other path := by
  constructor
  · intro heq
    by_cases hp : HasJsonExtension path <;> by_cases ho : HasJsonExtension other
    · rw [metadataPath_json hp, metadataPath_json ho] at heq
      exact absurd heq hne
    · rw [metadataPath_json hp, metadataPath_plain ho] at heq
      exact .inr ⟨ho, heq⟩
    · rw [metadataPath_plain hp, metadataPath_json ho] at heq
      exact .inl ⟨hp, heq.symm⟩
    · rw [metadataPath_plain hp, metadataPath_plain ho] at heq
      exact absurd (append_cancel_right heq) hne
  · rintro (⟨hplain, rfl⟩ | ⟨hplain, rfl⟩)
    · rw [metadataPath_plain hplain, metadataPath_json (hasJsonExtension_append hpath)]
    · rw [metadataPath_plain hplain, metadataPath_json (hasJsonExtension_append hother)]

/-! ## What a change spares -/

theorem spares_of_ne (hne : path ≠ other) (h : metadataPath path ≠ metadataPath other) :
    Spares path other := by
  intro change disk
  cases change with
  | setMetadata metadata =>
    refine ⟨get_mergeMetadata .., ?_⟩
    show (disk.mergeMetadata path metadata).readSidecar other = _
    unfold mergeMetadata
    cases disk.get path with
    | none => rfl
    | some data =>
      show ((AList.insert _ _ _).lookup _).getD ∅ = _
      rw [AList.lookup_insert_ne h.symm]
      rfl
  | overwrite data => exact ⟨get_publish_ne hne.symm data disk, rfl⟩
  | delete =>
    exact ⟨get_removeFile_ne hne.symm disk, readSidecar_removeSidecar_ne h.symm _⟩

/-- A key of one blob is read as a key of another with the same sidecar. -/
theorem not_spares_of_eq (h : metadataPath path = metadataPath other) : ¬Spares path other := by
  intro hspares
  let stated : Metadata := AList.insert ['k'] ['v'] ∅
  let disk := empty.publish path []
  have hread : ∀ disk : Disk, disk.readSidecar other = disk.readSidecar path := by
    intro disk
    rw [readSidecar, readSidecar, h]
  have hkey : ((disk.mergeMetadata path stated).readSidecar path).lookup ['k'] = some ['v'] := by
    rw [readSidecar_mergeMetadata (get_publish path [] empty)]
    exact lookup_merge stated _ (AList.lookup_insert _) (cons_ne_nil _ _)
  have hsame := (hspares (.setMetadata stated) disk).2
  rw [hread, hread] at hsame
  have hnone : (disk.readSidecar path).lookup ['k'] = none := rfl
  rw [← hsame] at hnone
  exact Option.some_ne_none _ (hkey.symm.trans hnone)

end Stado.ObjectApi
