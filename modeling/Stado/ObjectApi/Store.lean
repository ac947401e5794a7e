import Mathlib.Data.List.AList
import Stado.Library.Trials
import Stado.S3.ObjectNames

/-!
# The local blob store

Files by storage path, and beside them the sidecars their metadata is kept in.
Every operation is one call, in the stages in which it touches the disk: an
upload publishes one whole file, a deletion removes the file and then the
sidecar.
-/

namespace Stado.ObjectApi

open List AList

open Sigv4 (Text Bytes)
open Trials (Call)

/-! ## The disk -/

abbrev Metadata := AList fun _ : Text => Text

structure Disk where
  files : AList fun _ : Text => Bytes
  sidecars : AList fun _ : Text => Metadata

/-- The characters after the last slash. -/
def fileName (path : Text) : Text := path.rtakeWhile (· ≠ '/')

/-- Where the sidecar of a blob is: a name with the extension `json` is its own. -/
def metadataPath (path : Text) : Text :=
  if ".json".toList <:+ fileName path ∧ fileName path ≠ ".json".toList then path
  else path ++ ".json".toList

namespace Disk

def empty : Disk := ⟨∅, ∅⟩

def get (disk : Disk) (path : Text) : Option Bytes := disk.files.lookup path

/-- A missing sidecar holds no fields. -/
def readSidecar (disk : Disk) (path : Text) : Metadata :=
  (disk.sidecars.lookup (metadataPath path)).getD ∅

/-! ### The stages of its calls -/

def publish (path : Text) (data : Bytes) (disk : Disk) : Disk :=
  { disk with files := disk.files.insert path data }

/-- `link` fails where the target exists. -/
def publishIfAbsent (path : Text) (data : Bytes) (disk : Disk) : Disk :=
  match disk.get path with
  | some _ => disk
  | none => disk.publish path data

/-- A field without a value states nothing. -/
def mergeField (merged : Metadata) (field : Sigma fun _ : Text => Text) : Metadata :=
  if field.2 = [] then merged else merged.insert field.1 field.2

/-- The stated fields over the ones already there. -/
def merge (current : Metadata) (stated : List (Sigma fun _ : Text => Text)) : Metadata :=
  stated.foldl mergeField current

/-- Metadata is merged onto an existing blob; nothing happens to an absent one. -/
def mergeMetadata (path : Text) (metadata : Metadata) (disk : Disk) : Disk :=
  match disk.get path with
  | none => disk
  | some _ => { disk with sidecars :=
      disk.sidecars.insert (metadataPath path) (merge (disk.readSidecar path) metadata.entries) }

def removeFile (path : Text) (disk : Disk) : Disk := { disk with files := disk.files.erase path }

def removeSidecar (path : Text) (disk : Disk) : Disk :=
  { disk with sidecars := disk.sidecars.erase (metadataPath path) }

def names (disk : Disk) (stem : Text) : List Text :=
  (disk.files.keys.filter fun name => stem.isPrefixOf name).insertionSort (· ≤ ·)

@[simp] theorem get_publish (path : Text) (data : Bytes) (disk : Disk) :
    (disk.publish path data).get path = some data :=
  lookup_insert disk.files

variable {path other : Text} {disk : Disk}

theorem get_publish_ne (h : other ≠ path) (data : Bytes) (disk : Disk) :
    (disk.publish path data).get other = disk.get other :=
  lookup_insert_ne h

theorem publishIfAbsent_some {data found : Bytes}
    (h : disk.get path = some found) : disk.publishIfAbsent path data = disk := by
  rw [publishIfAbsent, h]

theorem publishIfAbsent_none {data : Bytes}
    (h : disk.get path = none) : disk.publishIfAbsent path data = disk.publish path data := by
  rw [publishIfAbsent, h]

@[simp] theorem get_mergeMetadata (path other : Text) (metadata : Metadata) (disk : Disk) :
    (disk.mergeMetadata path metadata).get other = disk.get other := by
  unfold mergeMetadata
  split <;> rfl

@[simp] theorem get_removeFile (path : Text) (disk : Disk) :
    (disk.removeFile path).get path = none :=
  lookup_erase path disk.files

theorem get_removeFile_ne (h : other ≠ path) (disk : Disk) :
    (disk.removeFile path).get other = disk.get other :=
  lookup_erase_ne h

@[simp] theorem readSidecar_removeFile (path other : Text) (disk : Disk) :
    (disk.removeFile path).readSidecar other = disk.readSidecar other := rfl

theorem readSidecar_removeSidecar_ne (h : metadataPath other ≠ metadataPath path)
    (disk : Disk) : (disk.removeSidecar path).readSidecar other = disk.readSidecar other := by
  show ((disk.sidecars.erase _).lookup _).getD ∅ = _
  rw [lookup_erase_ne h]
  rfl

theorem readSidecar_mergeMetadata {metadata : Metadata} {data : Bytes}
    (h : disk.get path = some data) :
    (disk.mergeMetadata path metadata).readSidecar path =
      merge (disk.readSidecar path) metadata.entries := by
  unfold mergeMetadata
  rw [h]
  show ((insert _ _ _).lookup _).getD ∅ = _
  rw [lookup_insert]
  rfl

theorem mem_names {stem name : Text} :
    name ∈ disk.names stem ↔ (∃ data, disk.get name = some data) ∧ stem <+: name := by
  rw [names, (perm_insertionSort _ _).mem_iff, mem_filter, isPrefixOf_iff_prefix,
    ← AList.mem_keys, ← AList.lookup_isSome, Option.isSome_iff_exists]
  rfl

end Disk

theorem lookup_merge (stated : Metadata) (current : Metadata) {field value : Text}
    (h : stated.lookup field = some value) (hvalue : value ≠ []) :
    (Disk.merge current stated.entries).lookup field = some value := by
  have hmem := mem_lookup_iff.mp h
  have hnodup := stated.nodupKeys
  -- the list of fields still to merge, each key once
  have hfold : ∀ (fields : List (Sigma fun _ : Text => Text)) (merged : Metadata),
      fields.NodupKeys →
        (⟨field, value⟩ ∈ fields ∨ merged.lookup field = some value ∧ field ∉ fields.keys) →
          (Disk.merge merged fields).lookup field = some value := by
    intro fields
    induction fields with
    | nil =>
      intro merged _ hstated
      rcases hstated with hin | ⟨hlookup, -⟩
      · cases hin
      · exact hlookup
    | cons first rest ih =>
      intro merged hkeys hstated
      obtain ⟨hfirst, hrest⟩ := nodupKeys_cons.mp hkeys
      show (Disk.merge _ rest).lookup field = some value
      refine ih _ hrest ?_
      rcases hstated with hin | ⟨hlookup, hnotin⟩
      · rcases mem_cons.mp hin with rfl | hin
        · refine .inr ⟨?_, hfirst⟩
          rw [Disk.mergeField, if_neg hvalue]
          exact lookup_insert _
        · exact .inl hin
      · rw [keys_cons, mem_cons, not_or] at hnotin
        refine .inr ⟨?_, hnotin.2⟩
        rw [Disk.mergeField]
        split
        · exact hlookup
        · rw [lookup_insert_ne hnotin.1]
          exact hlookup
  exact hfold stated.entries current hnodup (.inl hmem)

/-! ## Its calls -/

inductive StorageError where
  | storageConflict (reason : Text)
  | notFound (path : Text)
  | wouldBlock (reason : Text)
  | other (reason : Text)
deriving DecidableEq

def StorageError.text : StorageError → Text
  | .storageConflict reason => reason
  | .notFound path => "blob not found: ".toList ++ path
  | .wouldBlock reason => reason
  | .other reason => reason

/-- A blob of a listing. -/
structure BlobInfo where
  name : Text
  metadata : Metadata

/-- The readings of bytes the store and the routes ask for: what keeps them from
being text, their digest, and the object of strings they are in JSON. -/
structure Readings where
  utf8Error : Bytes → Option Text
  sha256 : Bytes → Text
  jsonMap : Bytes → Except Text Metadata

namespace Store

abbrev StoreCall (β : Type) := Call Disk StorageError β

/-- The fence under which a handoff cannot begin. -/
def storageWriteGuard : StoreCall Unit := ⟨[], fun _ => .ok ()⟩

def blobExists (path : Text) : StoreCall Bool := ⟨[], fun disk => .ok (disk.get path).isSome⟩

def readBytes (path : Text) : StoreCall (Option Bytes) := ⟨[], fun disk => .ok (disk.get path)⟩

/-- A version is the digest of the bytes. -/
def readVersioned (readings : Readings) (path : Text) (disk : Disk) :
    Except StorageError (Option Text) :=
  match disk.get path with
  | none => .ok none
  | some data =>
    match readings.utf8Error data with
    | none => .ok (some (readings.sha256 data))
    | some reason => .error (.other ("invalid UTF-8 in ".toList ++ path ++ ": ".toList ++ reason))

def readTextVersioned (readings : Readings) (path : Text) : StoreCall (Option Text) :=
  ⟨[], readVersioned readings path⟩

def uploadBytes (path : Text) (data : Bytes) : StoreCall Unit :=
  ⟨[Disk.publish path data], fun _ => .ok ()⟩

def uploadFileIfAbsent (path : Text) (data : Bytes) : StoreCall Bool :=
  ⟨[Disk.publishIfAbsent path data], fun disk => .ok (disk.get path).isNone⟩

def atVersion (readings : Readings) (path expected : Text) (disk : Disk) :
    Except StorageError Unit :=
  match disk.get path with
  | none => .error (.notFound path)
  | some current =>
    if readings.sha256 current = expected then .ok ()
    else .error (.storageConflict ("local storage version changed for ".toList ++ path))

def swapIfVersion (readings : Readings) (path expected : Text) (data : Bytes) (disk : Disk) :
    Disk :=
  match atVersion readings path expected disk with
  | .ok () => disk.publish path data
  | .error _ => disk

def compareAndSwapText (readings : Readings) (path expected : Text) (data : Bytes) :
    StoreCall Text where
  stages := if expected = [] then [] else [swapIfVersion readings path expected data]
  answer disk :=
    if expected = [] then
      .error (.other "expected_version is required for compare-and-swap".toList)
    else (atVersion readings path expected disk).map fun _ => readings.sha256 data

def setMetadata (path : Text) (metadata : Metadata) : StoreCall Unit :=
  ⟨[Disk.mergeMetadata path metadata], fun _ => .ok ()⟩

def deleteBlob (path : Text) : StoreCall Unit :=
  ⟨[Disk.removeFile path, Disk.removeSidecar path], fun _ => .ok ()⟩

def listPaths (stem : Text) : StoreCall (List Text) := ⟨[], fun disk => .ok (disk.names stem)⟩

def listBlobsWithMeta (stem : Text) : StoreCall (List BlobInfo) :=
  ⟨[], fun disk => .ok ((disk.names stem).map fun name => ⟨name, disk.readSidecar name⟩)⟩

end Store

end Stado.ObjectApi
