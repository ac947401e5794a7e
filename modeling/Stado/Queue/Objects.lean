import Stado.Library.Contract
import Stado.Queue.Records

/-!
# Objects of the store

The paths the queue keeps its objects under and what each of them holds, the
errors and questions of its programs, and the sites of its storage calls.

A site names the statement that makes a call. It is no part of the program's
logic: it lets a condition on a run say which statement it speaks about.
-/

namespace Stado

open CasStore

/-! ## Run manifests -/

/-- Where one entry of a run manifest stands. -/
inductive EntryState where
  | planned | claimed | enqueuing | accepted | terminal | reaped
deriving DecidableEq

/-- The entry's job has ended and carries a retained outcome. -/
def EntryState.ended : EntryState → Bool
  | .terminal | .reaped => true
  | _ => false

structure EntryOutcome where
  toPrefix : Prefix
  recordedAt : Stamp
  job : Job
deriving DecidableEq

/-- Who holds a claimed entry: a process, or the lease an older build wrote. -/
inductive EntryHolder where
  | process (host : String) (pid : Nat)
  | lease (expiresAt : Stamp)
deriving DecidableEq

def EntryHolder.isProcess : EntryHolder → Bool
  | .process _ _ => true
  | .lease _ => false

structure RunEntry where
  jobId : String
  plannedJob : Job
  state : EntryState
  owner : Option String
  holder : Option EntryHolder
  outcome : Option EntryOutcome
deriving DecidableEq

/-- A v3 run manifest that validates as the plan its request derives. -/
structure RunManifest where
  runId : String
  requestDigest : String
  createdAt : Stamp
  entries : List RunEntry
deriving DecidableEq

/-- The object paths. A marker's name is read off the job it indexes; the
other paths carry the id they end with. -/
inductive Path where
  | document (p : Prefix) (jobId : String)
  | transition (jobId : String)
  | marker (priority : Int) (createdAt : String) (jobId : String)
  | markerSweep
  | cancellation (jobId : String)
  | run (runId : String)
  | retainedJob (jobId : String)
  | status (jobId : String) (leaf : String)
  | process (host : String) (jobId : String)
deriving DecidableEq

/-- What an object holds. `unreadable` is a run manifest this build refuses,
with its reason. -/
inductive Contents where
  | job (job : Job)
  | transition (t : JobTransition)
  | marker (jobId : String) (priority : Int)
  | cancellation (jobId : Option String) (requestedAt : Option Stamp)
  | manifest (m : RunManifest)
  | unreadable (reason : String)
  | text (body : String)
deriving DecidableEq

/-- Why a marker is deleted: what the deleting client last saw of the job's
`queue/` document, or the name it keeps. -/
inductive MarkerBasis where
  /-- The document this client read at this version. -/
  | seen (version : Nat)
  /-- No document was there. -/
  | absent
deriving DecidableEq

/-- The statements that make a storage call. `own` says that the caller runs
the recovery of the transition it has itself just recorded. -/
inductive Site where
  /-- A read that no condition speaks about. -/
  | read
  /-- Recovery reads the job's record; `own` is the transition the caller has
  just recorded, if it asks for that one. -/
  | recordRead (own : Option TransitionId)
  /-- Recovery of a prepared transition reads its source. -/
  | sourceRead (t : TransitionId) (own : Bool)
  /-- `set_transition_state` reads the record it is about to move. -/
  | stateRead (t : TransitionId) (wanted : TransitionState) (own : Bool)
  /-- The reaper reads the running document it decides on. -/
  | expiryRead (jobId : String)
  /-- Finishing a completed transition reads its destination. -/
  | finishRead (t : TransitionId) (own : Bool)
  | admission
  | installRecord (t : TransitionId)
  | fenceSource (t : TransitionId) (own : Bool)
  | installDestination (t : TransitionId)
  | setState (t : TransitionId) (wanted : TransitionState)
  | cleanSource (t : TransitionId)
  | retireRecord (t : TransitionId)
  | renewLease
  | rewriteQueued
  | sweepSentinel
  | deleteDocument
  | writeMarker
  | deleteMarker (basis : MarkerBasis)
  | sweepMarkers
  | cancellationRecheck (jobId : String)
  | requestCancellation
  | claimEntry
  | checkpoint
  | createManifest
  | recordOutcome
  | indexRetained
  | writeStatus
  | cleanupStatus
  | spawn
  | kill
deriving DecidableEq

/-! ## Questions to the environment -/

/-- What can be said about an owner from this process. -/
inductive OwnerState where
  | this | running | gone | elsewhere
deriving DecidableEq

/-- What a program asks of its environment. -/
inductive Query : Type → Type where
  /-- The clock. -/
  | now : Query Nat
  /-- The owner word of a new record. -/
  | owner : Query String
  /-- The host and pid of this process. -/
  | currentProcess : Query (String × Nat)
  /-- What this process can say of the process that holds an entry. -/
  | ownerState (host : String) (pid : Nat) : Query OwnerState
  /-- The charge for a submission, refused with a reason. -/
  | charge (runId : String) : Query (Option String)
  /-- Whether the job wrote a pulse or a checkpoint after an instant. -/
  | writtenAfter (jobId : String) (expires : Nat) : Query Bool
  /-- When the release output of a job that started verified as complete. -/
  | verifiedRelease (jobId : String) : Query (Except StorageError (Option Stamp))
  /-- Whether a process of the job still runs on this host. -/
  | stillRunning (jobId : String) : Query (Except String (List String))

abbrev ObjectStore := Store Path Contents Site

abbrev StoreEntry := Entry Path Contents Site

abbrev Storage := Program Path Contents Site StorageError Query

/-! ## The marker index

Every queued job is indexed by a marker whose name is computed from the job.
The index is the whole listing strategy for `queue/`, so a queued job may never
be observable without its marker: whenever a write and a delete both touch one
job's entries, the write goes first.

Job ids are fixed-shape, so the suffix test that recognizes the markers of a
job matches exactly the markers that carry its id. -/

/-- The marker name for `job`. -/
def markerPath (job : Job) : Path :=
  .marker job.priority job.submission.createdAt job.jobId

/-- New submissions and priority changes accept the nonnegative range. -/
def priorityFits (priority : Int) : Bool := 0 ≤ priority

/-- Whether this path is a marker rather than the sweep sentinel. -/
def isMarker : Path → Bool
  | .marker _ _ _ => true
  | _ => false

/-- The job a marker's name ends with. -/
def markerJob : Path → Option String
  | .marker _ _ jobId => some jobId
  | _ => none

/-- Index entry for a queued job. -/
def writePriorityMarker (job : Job) : Storage Unit :=
  Program.perform .writeMarker (.put (markerPath job) (.marker job.jobId job.priority))

def deletePriorityMarkerFor (job : Job) (basis : MarkerBasis) : Storage Unit :=
  Program.perform (.deleteMarker basis) (.delete (markerPath job))

/-- Repair path: drop every marker naming `jobId`, whatever key it was written
under, by walking the index, except `keep`. -/
def repairPriorityMarkers (jobId : String) (keep : Option Path) (basis : MarkerBasis) :
    Storage Unit := do
  let paths ← Program.perform .read (.list isMarker)
  Program.each (fun path => Program.perform (.deleteMarker basis) (.delete path))
    (paths.filter fun path => markerJob path = some jobId ∧ some path ≠ keep)

theorem markerJob_markerPath (job : Job) : markerJob (markerPath job) = some job.jobId := rfl

end Stado
