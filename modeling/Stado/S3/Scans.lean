import Stado.S3.Listing
import Stado.S3.Policies

/-!
# What a listing reads

The store prefixes a signer's `list` grants open under the prefix a listing asks
for, and the objects found there.
-/

namespace Stado.S3

open List

open Sigv4 (Text)

def NameError.text : NameError → String
  | .other reason => reason
  | .pathEscape path => s!"storage path escapes deployment root: {path}"

namespace Listener

/-! ## Grants -/

def ObjectPrefixPolicy.allowsAction (policy : ObjectPrefixPolicy) (action : Action) : Bool :=
  policy.actions.contains action

/-- What one policy opens of a requested prefix: a whole directory where the path is its
root, the prefix itself where the path is inside it. -/
def ObjectPrefixPolicy.opens (policy : ObjectPrefixPolicy) (action : Action)
    (requested path : Text) : Option Text :=
  if policy.allowsAction action = false then none
  else if policy.boundary = [] then some requested
  else if isSubtree policy.boundary = false then none
  else
    let root := policy.boundary.dropLast
    if path = root then some policy.boundary
    else if policy.boundary <+: path then some requested
    else none

def ObjectApiNamespace.authorizedListPrefix (entry : ObjectApiNamespace) (requested : Text)
    (action : Action) : Option Text :=
  let requested := requested.dropWhile isSlash
  let path := requested.rdropWhile isSlash
  entry.prefixPolicies.findSome? fun policy => policy.opens action requested path

def ObjectApiNamespace.directoriesUnder (entry : ObjectApiNamespace) (stem : Text) : List Text :=
  (entry.prefixPolicies.filter fun policy =>
    policy.allowsAction .list && isSubtree policy.boundary && stem.isPrefixOf policy.boundary).map
      ObjectPrefixPolicy.boundary

def scanned (nameSpace : Text) : List Text → Except S3Error (List Text)
  | [] => .ok []
  | scan :: later => do
      let path ← (ObjectRef.namespacePrefix nameSpace scan).mapError fun error => .invalid error.text
      let paths ← scanned nameSpace later
      return path :: paths

/-- The store prefixes a listing of a prefix scans for the signer: the one grant that
covers it, else every granted directory under it. -/
def grantedScans (signer : Signer) (stem : Text) : Except S3Error (List Text) :=
  let scans := match signer.policy.authorizedListPrefix stem .list with
    | some authorized => [authorized]
    | none => signer.policy.directoriesUnder stem
  let nameText := String.ofList signer.nameSpace
  let stemText := shown stem
  if scans = [] then .error ⟨403, "AccessDenied",
    s!"namespace {nameText}'s grant lets it list no prefix under {stemText}; " ++
      s!"object_api.namespaces.{nameText}.prefix_policies declares what it may list"⟩
  else scanned signer.nameSpace scans

/-! ## The store -/

/-- One stored object: `size` is `none` where it went between the listing and its stat. -/
structure Blob where
  object : ObjectRef
  size : Option ℕ
  updated : Option ℤ

def Blob.name (blob : Blob) : Text := blob.object.storagePath

def listBlobsSized (store : List Blob) (scan : Text) : List Blob :=
  store.filter fun blob => scan.isPrefixOf blob.name

def uploadPartMarker : Text := ".__stado_upload/".toList

def Staged (key : Text) : Prop := uploadPartMarker <:+: key

instance instDecidableStaged (key : Text) : Decidable (Staged key) :=
  inferInstanceAs (Decidable (_ <:+: _))

/-! ## Entries -/

structure Collected (stem : Text) where
  entries : List Entry
  distinct : (entries.map Entry.key).Nodup
  under : ∀ entry ∈ entries, stem <+: entry.key

def Collected.empty (stem : Text) : Collected stem := ⟨[], .nil, nofun⟩

def Collected.add {stem : Text} (found : Collected stem) (entry : Entry)
    (hnew : entry.key ∉ found.entries.map Entry.key) (hunder : stem <+: entry.key) :
    Collected stem where
  entries := found.entries ++ [entry]
  distinct := by
    rw [map_append]
    refine nodup_append.mpr ⟨found.distinct, nodup_singleton _, ?_⟩
    intro key hkey other hother heq
    obtain rfl := mem_singleton.mp hother
    exact hnew (heq ▸ hkey)
  under := by
    intro other hother
    rcases mem_append.mp hother with hother | hother
    · exact found.under other hother
    · rwa [mem_singleton.mp hother]

def storageError (error : NameError) : S3Error := ⟨500, "InternalError", error.text⟩

/-- One blob of a scan: what it is read as is listed, unless it is gone, staged, outside the
prefix or listed already. -/
def collect {stem : Text} (found : Collected stem) (blob : Blob) :
    Except S3Error (Collected stem) :=
  match (ObjectRef.fromStoragePath blob.name).mapError storageError with
  | .error error => .error error
  | .ok object =>
    match blob.size with
    | none => .ok found
    | some size =>
      if hlisted : ¬Staged object.key ∧ stem <+: object.key ∧
          object.key ∉ found.entries.map Entry.key then
        .ok (found.add ⟨object.key, size, blob.updated⟩ hlisted.2.2 hlisted.2.1)
      else .ok found

def collectAll {stem : Text} : List Blob → Collected stem → Except S3Error (Collected stem)
  | [], found => .ok found
  | blob :: later, found => do
      let found ← collect found blob
      collectAll later found

def entryLE (left right : Entry) : Prop := left.key ≤ right.key

instance instDecidableEntryLE : DecidableRel entryLE :=
  fun left right => inferInstanceAs (Decidable (left.key ≤ right.key))

instance instTotalEntryLE : Std.Total entryLE := ⟨fun left right => le_total left.key right.key⟩

instance instTransEntryLE : IsTrans Entry entryLE :=
  ⟨fun _ _ _ hleft hright => le_trans (α := Text) hleft hright⟩

def Collected.sorted {stem : Text} (found : Collected stem) : Listable stem where
  entries := found.entries.insertionSort entryLE
  ascending := by
    have hsorted := pairwise_insertionSort entryLE found.entries
    have hperm := (perm_insertionSort entryLE found.entries).map Entry.key
    have hdistinct := pairwise_map.mp (hperm.nodup_iff.mpr found.distinct)
    refine (hsorted.and hdistinct).imp ?_
    rintro left right ⟨hle, hne⟩
    exact lt_of_le_of_ne hle hne
  under := by
    intro entry hentry
    exact found.under entry ((perm_insertionSort _ _).subset hentry)

/-- Every object the signer may list under a prefix, ascending by key. -/
def s3Listable (store : List Blob) (signer : Signer) (stem : Text) :
    Except S3Error (Listable stem) := do
  let scans ← grantedScans signer stem
  let found ← collectAll (scans.flatMap (listBlobsSized store)) (Collected.empty stem)
  return found.sorted

end Listener

end Stado.S3
