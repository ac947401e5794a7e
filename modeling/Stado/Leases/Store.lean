import Stado.Leases.Record

/-!
# The store of provider leases

The create, the compare-and-swap and the take-over that are the only way a
lease changes on the backend, and the machine of the clients that hold copies
of a lease and persist them later.
-/

namespace Stado.Leases

open CasStore

/-- The object a job's lease lives at, when the id is safe to name one. -/
def leasePath (jobId : String) : Leasing Path :=
  if jobId ≠ "" ∧ jobId.toList.all (fun c => c.isAlphanum || c == '.' || c == '_' || c == '-') then
    pure (.lease jobId)
  else .fail (.value "job id is unsafe for provider lease storage")

def load (jobId : String) : Leasing (Option ProviderLease) := do
  let path ← leasePath jobId
  match ← Program.perform .read (.read path) with
  | none => pure none
  | some (.lease lease, version) => pure (some { lease with version := some version })
  | some _ => .fail (.corrupt "provider lease is not an object")

/-- Atomic create-if-absent, then a read to confirm that what landed is what
was written. -/
def create (lease : ProviderLease) : Leasing ProviderLease := do
  let path ← leasePath lease.jobId
  if !(← Program.perform .create (.create path (.lease lease.toValue))) then
    .fail (.conflict "provider lease already exists")
  else
    match ← load lease.jobId with
    | none => .fail (.conflict "provider lease disappeared after creation")
    | some created =>
      if created.toValue ≠ lease.toValue then
        .fail (.conflict "provider lease changed before creation was confirmed")
      else pure { lease with version := created.version }

def save (lease : ProviderLease) (expectedVersion : Option Nat) : Leasing ProviderLease :=
  match expectedVersion with
  | none => .fail (.conflict "provider lease version was not read by this owner")
  | some expected =>
    if lease.version ≠ some expected then
      .fail (.conflict "provider lease version was not read by this owner")
    else do
      let path ← leasePath lease.jobId
      match ← Program.perform .save (.swap path expected (.lease lease.toValue)) with
      | .stored version => pure { lease with version := some version }
      | .conflict => .fail (.conflict "provider lease changed concurrently")
      | .notFound => .fail (.storage (.notFound s!"provider-leases/{lease.jobId}.json"))

/-- Create the lease or, when it exists and its owner process is gone, take it
over. -/
def acquire (jobId provider ownerId : String) (resourceTtlSeconds : Nat) :
    Leasing ProviderLease := do
  let lease ← newLease jobId provider ownerId resourceTtlSeconds
  match ← (create lease).attempt with
  | .ok created => pure created
  | .error error =>
    if !error.isConflict then .fail error
    else
      match ← load jobId with
      | none => .fail (.conflict "provider lease disappeared during acquisition")
      | some current =>
        if current.jobId ≠ jobId ∨ current.provider ≠ provider then
          .fail (.conflict "provider lease identity mismatch")
        else do
          let taken ← current.takeover ownerId
          save taken current.version

/-! ## Clients -/

/-- What a client does with the copies it holds. Copies have names, so that a
client may keep one, clone it, and save it whenever it likes. -/
inductive Command where
  | load (copy : Nat) (jobId : String)
  | clone (copy source : Nat)
  | new (copy : Nat) (jobId provider ownerId : String) (resourceTtlSeconds : Nat)
  | create (copy : Nat)
  | acquire (copy : Nat) (jobId provider ownerId : String) (resourceTtlSeconds : Nat)
  | takeover (copy : Nat) (ownerId : String)
  | transition (copy : Nat) (state : LeaseState) (ownerId fenceToken : String)
  | renewOwner (copy : Nat) (ownerId fenceToken : String)
  | renewResource (copy : Nat) (ownerId fenceToken : String) (ttlSeconds : Nat)
  | relinquish (copy : Nat) (ownerId fenceToken : String)
  | record (copy : Nat) (progress : Progress)
  | save (copy : Nat) (expectedVersion : Option Nat)

/-- The copies a client holds. -/
abbrev Copies := Nat → Option ProviderLease

namespace Copies

def set (copies : Copies) (copy : Nat) (lease : ProviderLease) : Copies :=
  fun n => if n = copy then some lease else copies n

/-- Replace a copy by what `f` makes of it; a failed `f` leaves it as it is. -/
def update (copies : Copies) (copy : Nat) (f : ProviderLease → Leasing ProviderLease) :
    Leasing Copies :=
  match copies copy with
  | none => pure copies
  | some lease => do
      match ← (f lease).attempt with
      | .ok changed => pure (copies.set copy changed)
      | .error _ => pure copies

/-- Take a copy from `f`, if it gives one. -/
def fill (copies : Copies) (copy : Nat) (f : Leasing (Option ProviderLease)) :
    Leasing Copies := do
  match ← f.attempt with
  | .ok (some lease) => pure (copies.set copy lease)
  | .ok none => pure copies
  | .error _ => pure copies

end Copies

def Command.run (copies : Copies) : Command → Leasing Copies
  | .load copy jobId => copies.fill copy (Leases.load jobId)
  | .clone copy source => copies.fill copy (pure (copies source))
  | .new copy jobId provider ownerId ttl =>
    copies.fill copy do pure (some (← newLease jobId provider ownerId ttl))
  | .create copy => copies.update copy Leases.create
  | .acquire copy jobId provider ownerId ttl =>
    copies.fill copy do pure (some (← Leases.acquire jobId provider ownerId ttl))
  | .takeover copy ownerId => copies.update copy (·.takeover ownerId)
  | .transition copy state ownerId fenceToken =>
    copies.update copy (·.transition state ownerId fenceToken)
  | .renewOwner copy ownerId fenceToken => copies.update copy (·.renewOwner ownerId fenceToken)
  | .renewResource copy ownerId fenceToken ttl =>
    copies.update copy (·.renewResource ownerId fenceToken ttl)
  | .relinquish copy ownerId fenceToken => copies.update copy (·.relinquish ownerId fenceToken)
  | .record copy progress => copies.update copy fun lease => pure (lease.record progress)
  | .save copy expectedVersion => copies.update copy (Leases.save · expectedVersion)

/-- A client runs its commands in order; a command that fails is passed over. -/
def session (commands : List Command) : Leasing Unit := do
  let _ ← Program.foldList Command.run (fun _ => none) commands
  pure ()

/-- What the environment answers. -/
inductive Answer where
  | instant (at_ : Nat)
  | process (host : String) (pid : Nat)
  | ownerState (state : OwnerState)
  | flag (b : Bool)
  | uuid (token : String)

def acceptAnswer : {β : Type} → Query β → Answer → Option β
  | _, .now, .instant at_ => some at_
  | _, .currentProcess, .process host pid => some (host, pid)
  | _, .ownerState _ _, .ownerState state => some state
  | _, .invocationRunning _, .flag b => some b
  | _, .uuid, .uuid token => some token
  | _, _, _ => none

def holders : Machine Path Contents Site LeaseError Query (List Command) Answer Unit where
  program := fun commands _ => session commands
  accept := acceptAnswer
  lost := .storage .backend

abbrev LeaseSystem := System Path Contents Site LeaseError Query (List Command) Unit

abbrev LeaseEvent := Event (List Command) Answer

/-- Two random tokens are never the same. -/
def freshTokens (_ : LeaseStore) (_ : Nat) (site : Site) (change : Option (Change Path Contents)) :
    Prop :=
  site = .draw → change.isSome

instance (l : LeaseStore) (i : Nat) (site : Site) (change : Option (Change Path Contents)) :
    Decidable (freshTokens l i site change) := by
  unfold freshTokens
  infer_instance

end Stado.Leases
