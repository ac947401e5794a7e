import Mathlib.Data.List.AList
import Mathlib.Data.List.Infix
import Stado.Queue.Records

/-!
# The failover store

Two storage backends behind one surface. A mutation commits to the primary and
is then mirrored to the backup, whose errors are reported and dropped; a read
asks the primary, and the backup only where the read's own rule says so.

Every call to a backend may fail. A failed mutation may have been applied
before its answer was lost.
-/

namespace Stado.Failover

open Failover

/-! ## A backend -/

abbrev Bytes := List UInt8

/-- A stored object. Its version is the number of the write that stored it. -/
structure Blob where
  content : Bytes
  version : ℕ
  updated : Stamp
deriving DecidableEq

/-- What a listing and a stat describe an object by. -/
structure BlobInfo where
  name : String
  updated : Stamp
  size : ℕ
deriving DecidableEq

/-- The objects of one backend by path, and how many writes it has accepted. -/
structure Backend where
  blobs : AList fun _ : String => Blob
  writes : ℕ

namespace Backend

def empty : Backend := ⟨∅, 0⟩

def get (b : Backend) (path : String) : Option Blob := b.blobs.lookup path

def put (now : Stamp) (path : String) (content : Bytes) (b : Backend) : Backend :=
  ⟨b.blobs.insert path ⟨content, b.writes, now⟩, b.writes + 1⟩

def remove (path : String) (b : Backend) : Backend := ⟨b.blobs.erase path, b.writes⟩

theorem get_put_ne {path other : String} (h : other ≠ path) (now : Stamp) (content : Bytes)
    (b : Backend) : (b.put now path content).get other = b.get other :=
  AList.lookup_insert_ne h

@[simp] theorem get_remove (path : String) (b : Backend) : (b.remove path).get path = none :=
  AList.lookup_erase path b.blobs

theorem get_remove_ne {path other : String} (h : other ≠ path) (b : Backend) :
    (b.remove path).get other = b.get other :=
  AList.lookup_erase_ne h

/-! ### Its mutations -/

/-- A mutation of a backend: its answer, and what it leaves stored. -/
abbrev Mutation (α : Type) := Backend → Except StorageError α × Backend

def uploadBytes (now : Stamp) (path : String) (content : Bytes) : Mutation Unit := fun b =>
  (.ok (), b.put now path content)

def uploadIfAbsent (now : Stamp) (path : String) (content : Bytes) : Mutation Bool := fun b =>
  match b.get path with
  | some _ => (.ok false, b)
  | none => (.ok true, b.put now path content)

def compareAndSwapText (now : Stamp) (path : String) (expectedVersion : ℕ) (content : Bytes) :
    Mutation ℕ := fun b =>
  match b.get path with
  | none => (.error (.notFound path), b)
  | some blob =>
    if blob.version = expectedVersion then (.ok b.writes, b.put now path content)
    else (.error (.storageConflict s!"storage version changed for {path}"), b)

def delete (path : String) : Mutation Unit := fun b => (.ok (), b.remove path)

/-! ### Its reads -/

def downloadBytes (path : String) (b : Backend) : Option Bytes := (b.get path).map Blob.content

def blobExists (path : String) (b : Backend) : Bool := (b.get path).isSome

def info (name : String) (blob : Blob) : BlobInfo :=
  ⟨name, blob.updated, blob.content.length⟩

def stat (path : String) (b : Backend) : Option BlobInfo := (b.get path).map (info path)

/-- Every object whose name starts with `path`. -/
def listBlobsWithMeta (path : String) (b : Backend) : List BlobInfo :=
  (b.blobs.entries.filter fun entry => path.toList.isPrefixOf entry.1.toList).map
    fun entry => info entry.1 entry.2

end Backend

/-- How one call to a backend ends: answered, failed without effect, or failed
after its effect. -/
inductive Fate where
  | answered | refused | lost
deriving DecidableEq

def Fate.read {α : Type} (fate : Fate) (answer : α) : Except StorageError α :=
  match fate with
  | .answered => .ok answer
  | .refused | .lost => .error .backend

def Fate.mutate {α : Type} (fate : Fate) (act : Backend.Mutation α) : Backend.Mutation α :=
  match fate with
  | .answered => act
  | .refused => fun b => (.error .backend, b)
  | .lost => fun b => (.error .backend, (act b).2)

/-- How the calls of one operation end, which makes at most one of each kind:
the primary's read, the primary's mutation, and the call to the backup. -/
structure Calls where
  now : Stamp
  read : Fate
  written : Fate
  mirrored : Fate
deriving DecidableEq

/-! ## The store -/

inductive ReadMode where
  | failover | primaryOnly
deriving DecidableEq

structure Stores where
  primary : Backend
  backup : Backend

def uploadPartMarker : String := ".__stado_upload/"

/-- Whether a key the primary reports absent may be answered from the mirror. -/
def healsFromMirror (path : String) : Bool :=
  if uploadPartMarker.toList <:+: path.toList then false
  else (path.toList.splitOn '/').any (· = "releases".toList)

section Mutations

variable (calls : Calls)

/-- A mutation of the primary and, where its answer asks for one, the mirror of
it; the mirror's own answer is reported and dropped. -/
def mutate {α β : Type} (act : Backend.Mutation α) (mirror : α → Option (Backend.Mutation β))
    (stores : Stores) : Except StorageError α × Stores :=
  match calls.written.mutate act stores.primary with
  | (.error error, primary) => (.error error, { stores with primary })
  | (.ok answer, primary) =>
    match mirror answer with
    | none => (.ok answer, { stores with primary })
    | some replica => (.ok answer, ⟨primary, (calls.mirrored.mutate replica stores.backup).2⟩)

/-- Also `upload_text`: a text is its bytes. -/
def uploadBytes (path : String) (content : Bytes) : Stores → Except StorageError Unit × Stores :=
  mutate calls (Backend.uploadBytes calls.now path content)
    fun () => some (Backend.uploadBytes calls.now path content)

def uploadTextIfAbsent (path : String) (content : Bytes) :
    Stores → Except StorageError Bool × Stores :=
  mutate calls (Backend.uploadIfAbsent calls.now path content) fun created =>
    if created then some (Backend.uploadBytes calls.now path content) else none

/-- `reread` is what the local file holds when it is read again for the mirror,
none when it cannot be read. -/
def uploadFileIfAbsent (path : String) (content : Bytes) (reread : Option Bytes) :
    Stores → Except StorageError Bool × Stores :=
  mutate calls (Backend.uploadIfAbsent calls.now path content) fun created =>
    if created then reread.map (Backend.uploadBytes calls.now path) else none

def compareAndSwapText (path : String) (expectedVersion : ℕ) (content : Bytes) :
    Stores → Except StorageError ℕ × Stores :=
  mutate calls (Backend.compareAndSwapText calls.now path expectedVersion content)
    fun _ => some (Backend.uploadBytes calls.now path content)

def delete (path : String) : Stores → Except StorageError Unit × Stores :=
  mutate calls (Backend.delete path) fun () => some (Backend.delete path)

end Mutations

section Reads

variable (mode : ReadMode) (calls : Calls)

/-- An object the primary is missing, from the mirror, written back. One that
cannot be written back is still served. -/
def mirroredBytes (path : String) (stores : Stores) :
    Except StorageError (Option Bytes) × Stores :=
  if healsFromMirror path then
    match calls.mirrored.read (stores.backup.downloadBytes path) with
    | .error error => (.error error, stores)
    | .ok none => (.ok none, stores)
    | .ok (some content) =>
      (.ok (some content), { stores with
        primary := (calls.written.mutate (Backend.uploadBytes calls.now path content)
          stores.primary).2 })
  else (.ok none, stores)

def downloadBytes (path : String) (stores : Stores) :
    Except StorageError (Option Bytes) × Stores :=
  match calls.read.read (stores.primary.downloadBytes path) with
  | .ok (some content) => (.ok (some content), stores)
  | .ok none => mirroredBytes calls path stores
  | .error error =>
    match mode with
    | .primaryOnly => (.error error, stores)
    | .failover => (calls.mirrored.read (stores.backup.downloadBytes path), stores)

def exact (path : String) (blobs : List BlobInfo) : Bool := blobs.any fun blob => blob.name = path

def blobExists (path : String) (stores : Stores) : Except StorageError Bool :=
  match calls.read.read (stores.primary.listBlobsWithMeta path) with
  | .ok blobs =>
    if exact path blobs then .ok true
    else if healsFromMirror path then calls.mirrored.read (stores.backup.blobExists path)
    else .ok false
  | .error error =>
    match mode with
    | .primaryOnly => .error error
    | .failover => (calls.mirrored.read (stores.backup.listBlobsWithMeta path)).map (exact path)

def stat (path : String) (stores : Stores) : Except StorageError (Option BlobInfo) :=
  match calls.read.read (stores.primary.stat path) with
  | .ok blob => .ok blob
  | .error error =>
    match mode with
    | .primaryOnly => .error error
    | .failover => calls.mirrored.read (stores.backup.stat path)

end Reads

/-! ## Histories -/

/-- An operation of a client. -/
inductive Request where
  | uploadBytes (path : String) (content : Bytes)
  | uploadTextIfAbsent (path : String) (content : Bytes)
  | uploadFileIfAbsent (path : String) (content : Bytes) (reread : Option Bytes)
  | compareAndSwapText (path : String) (expectedVersion : ℕ) (content : Bytes)
  | delete (path : String)
  | downloadBytes (path : String)
  | blobExists (path : String)
  | stat (path : String)
deriving DecidableEq

/-- The path an operation writes, if it is a write. -/
def Request.target : Request → Option String
  | uploadBytes path _ | uploadTextIfAbsent path _ | uploadFileIfAbsent path _ _
  | compareAndSwapText path _ _ => some path
  | delete _ | downloadBytes _ | blobExists _ | stat _ => none

/-- A request and how its calls end. -/
structure Step where
  request : Request
  calls : Calls
deriving DecidableEq

def Step.apply (mode : ReadMode) (stores : Stores) (step : Step) : Stores :=
  match step.request with
  | .uploadBytes path content => (uploadBytes step.calls path content stores).2
  | .uploadTextIfAbsent path content =>
    (uploadTextIfAbsent step.calls path content stores).2
  | .uploadFileIfAbsent path content reread =>
    (uploadFileIfAbsent step.calls path content reread stores).2
  | .compareAndSwapText path expectedVersion content =>
    (compareAndSwapText step.calls path expectedVersion content stores).2
  | .delete path => (delete step.calls path stores).2
  | .downloadBytes path => (downloadBytes mode step.calls path stores).2
  | .blobExists _ | .stat _ => stores

def run (mode : ReadMode) (stores : Stores) (history : List Step) : Stores :=
  history.foldl (Step.apply mode) stores

end Stado.Failover
