import Stado.Queue.Objects

/-!
# Provider leases

The stored lease document, its state machine, and the fence-gated mutations a
holder applies to its copy of it. Nothing here writes a lease: a mutation
changes a copy in memory, which `Stado.Leases.Store` persists later.
-/

namespace Stado.Leases

open CasStore

/-! ## The state machine -/

inductive LeaseState where
  | allocating | provisioning | ready | starting | running | collecting | releasing
  | released | failed
deriving DecidableEq

namespace LeaseState

def asStr : LeaseState → String
  | .allocating => "allocating"
  | .provisioning => "provisioning"
  | .ready => "ready"
  | .starting => "starting"
  | .running => "running"
  | .collecting => "collecting"
  | .releasing => "releasing"
  | .released => "released"
  | .failed => "failed"

def allowedTransitions : LeaseState → List LeaseState
  | .allocating => [.provisioning, .failed]
  | .provisioning => [.ready, .failed]
  | .ready => [.starting, .failed]
  | .starting => [.running, .failed]
  | .running => [.collecting, .failed]
  | .collecting => [.releasing, .failed]
  | .releasing => [.released, .failed]
  | .failed => [.releasing, .released]
  | .released => []

def fromStr (value : String) : Option LeaseState :=
  if value = "allocating" then some .allocating
  else if value = "provisioning" then some .provisioning
  else if value = "ready" then some .ready
  else if value = "starting" then some .starting
  else if value = "running" then some .running
  else if value = "collecting" then some .collecting
  else if value = "releasing" then some .releasing
  else if value = "released" then some .released
  else if value = "failed" then some .failed
  else none

@[simp] theorem fromStr_asStr (s : LeaseState) : fromStr s.asStr = some s := by
  cases s <;> decide

end LeaseState

/-! ## The document -/

/-- The lease document; `version` is the backend's token of the read or write
the copy comes from, and is stored nowhere. -/
structure ProviderLease where
  jobId : String
  provider : String
  ownerId : String
  fenceToken : String
  state : String
  ownerExpiresAt : Option Stamp
  ownerHost : String
  ownerPid : Nat
  resourceExpiresAt : Option Stamp
  providerResourceId : String
  operationId : String
  operationStartedAt : String
  promptId : String
  lastError : String
  resultState : String
  createdAt : Option Stamp
  updatedAt : Option Stamp
  version : Option Nat
deriving DecidableEq

/-- `to_value`: every field but the version. -/
def ProviderLease.toValue (lease : ProviderLease) : ProviderLease := { lease with version := none }

theorem ProviderLease.eq_of_toValue {a b : ProviderLease} (h : a.toValue = b.toValue) :
    a.state = b.state ∧ a.ownerId = b.ownerId ∧ a.fenceToken = b.fenceToken := by
  simp only [toValue, ProviderLease.mk.injEq] at h
  simp [h]

/-- What a client writes into its copy beside the mutations below. -/
structure Progress where
  providerResourceId : String
  operationId : String
  operationStartedAt : String
  promptId : String
  lastError : String
  resultState : String
deriving DecidableEq

def ProviderLease.record (lease : ProviderLease) (p : Progress) : ProviderLease :=
  { lease with
    providerResourceId := p.providerResourceId
    operationId := p.operationId
    operationStartedAt := p.operationStartedAt
    promptId := p.promptId
    lastError := p.lastError
    resultState := p.resultState }

/-! ## Objects, errors and questions -/

/-- A lease lives at `provider-leases/{job_id}.json`. `drawn` holds, for each
random fence token, that it was drawn: no code reads it, and it lets a run say
that two draws never give the same token. -/
inductive Path where
  | lease (jobId : String)
  | drawn (token : String)
deriving DecidableEq

inductive Contents where
  | lease (lease : ProviderLease)
  /-- A token drawn for the lease of this job. -/
  | token (jobId : String)
deriving DecidableEq

inductive Site where
  | read
  | draw
  | create
  | save
deriving DecidableEq

inductive LeaseError where
  | conflict (message : String)
  | value (message : String)
  | corrupt (message : String)
  | storage (error : StorageError)
deriving DecidableEq

def LeaseError.isConflict : LeaseError → Bool
  | .conflict _ => true
  | _ => false

inductive Query : Type → Type where
  /-- The clock. -/
  | now : Query Nat
  /-- `ProcessOwner::current`: the host and pid of this process. -/
  | currentProcess : Query (String × Nat)
  /-- `ProcessOwner::state`: what this process can observe about an owner. -/
  | ownerState (host : String) (pid : Nat) : Query OwnerState
  /-- `OwnerInvocation::running`: the owner's invocation runs in this process. -/
  | invocationRunning (ownerId : String) : Query Bool
  /-- `Uuid::new_v4`. -/
  | uuid : Query String

abbrev Leasing := Program Path Contents Site LeaseError Query

abbrev LeaseStore := Store Path Contents Site

abbrev LeaseEntry := Entry Path Contents Site

/-! ## Mutations of a copy -/

def drawToken (jobId : String) : Leasing String := do
  let token ← Program.query .uuid
  let _ ← Program.perform .draw (.create (.drawn token) (.token jobId))
  pure token

/-- `ProviderLease::new`, held by this process. -/
def newLease (jobId provider ownerId : String) (resourceTtlSeconds : Nat) :
    Leasing ProviderLease := do
  let now ← Program.query .now
  let holder ← Program.query .currentProcess
  let token ← drawToken jobId
  pure
    { jobId := jobId
      provider := provider
      ownerId := ownerId
      fenceToken := token
      state := LeaseState.allocating.asStr
      ownerExpiresAt := none
      ownerHost := holder.1
      ownerPid := holder.2
      resourceExpiresAt := some (.instant (now + resourceTtlSeconds))
      providerResourceId := ""
      operationId := ""
      operationStartedAt := ""
      promptId := ""
      lastError := ""
      resultState := ""
      createdAt := some (.instant now)
      updatedAt := some (.instant now)
      version := none }

namespace ProviderLease

def ownerExpired (lease : ProviderLease) : Leasing Bool :=
  if lease.ownerPid = 0 then
    match lease.ownerExpiresAt with
    | none => pure true
    | some stated => do
        let now ← Program.query .now
        match stated with
        | .unreadable text => .fail (.value s!"invalid lease timestamp {text.quote}")
        | .instant expires => pure (decide (expires ≤ now))
  else do
    match ← Program.query (.ownerState lease.ownerHost lease.ownerPid) with
    | .elsewhere => pure false
    | .running => pure false
    | .gone => pure true
    | .this => do
        let running ← Program.query (.invocationRunning lease.ownerId)
        pure (!running)

/-- Who holds the lease, said for a refusal. -/
def holder (lease : ProviderLease) : String :=
  if lease.ownerPid = 0 then
    s!"owner {lease.ownerId} (stated expiry {reprStr lease.ownerExpiresAt})"
  else s!"owner {lease.ownerId} (pid {lease.ownerPid} on {lease.ownerHost})"

/-- The owner and the token must match and the owner must still be live. -/
def assertFence (lease : ProviderLease) (ownerId fenceToken : String) : Leasing Unit :=
  if lease.ownerId ≠ ownerId ∨ lease.fenceToken ≠ fenceToken then
    .fail (.conflict "provider lease fence is no longer valid")
  else do
    if ← lease.ownerExpired then .fail (.conflict "provider lease fence is no longer valid")
    else pure ()

def renewOwner (lease : ProviderLease) (ownerId fenceToken : String) : Leasing ProviderLease := do
  let _ ← lease.assertFence ownerId fenceToken
  let now ← Program.query .now
  pure { lease with updatedAt := some (.instant now) }

def renewResource (lease : ProviderLease) (ownerId fenceToken : String) (ttlSeconds : Nat) :
    Leasing ProviderLease := do
  let _ ← lease.assertFence ownerId fenceToken
  let now ← Program.query .now
  pure { lease with
    resourceExpiresAt := some (.instant (now + ttlSeconds))
    updatedAt := some (.instant now) }

/-- A fence-gated step of the state machine. -/
def transition (lease : ProviderLease) (state : LeaseState) (ownerId fenceToken : String) :
    Leasing ProviderLease := do
  let _ ← lease.assertFence ownerId fenceToken
  match LeaseState.fromStr lease.state with
  | none => .fail (.value s!"{lease.state.quote} is not a valid LeaseState")
  | some current =>
    if state ∉ current.allowedTransitions then
      .fail (.value s!"invalid provider lease transition {current.asStr} -> {state.asStr}")
    else do
      let now ← Program.query .now
      pure { lease with state := state.asStr, updatedAt := some (.instant now) }

def takeover (lease : ProviderLease) (ownerId : String) : Leasing ProviderLease := do
  if !(← lease.ownerExpired) then
    .fail (.conflict s!"provider lease is held by {lease.holder}")
  else do
    let process ← Program.query .currentProcess
    let token ← drawToken lease.jobId
    let now ← Program.query .now
    pure { lease with
      ownerId := ownerId
      fenceToken := token
      ownerHost := process.1
      ownerPid := process.2
      ownerExpiresAt := none
      updatedAt := some (.instant now) }

/-- A fence-gated immediate release. -/
def relinquish (lease : ProviderLease) (ownerId fenceToken : String) :
    Leasing ProviderLease := do
  let _ ← lease.assertFence ownerId fenceToken
  let now ← Program.query .now
  pure { lease with
    ownerHost := ""
    ownerPid := 0
    ownerExpiresAt := none
    updatedAt := some (.instant now) }

end ProviderLease

end Stado.Leases
