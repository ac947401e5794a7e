import Stado.Queue.Reaper

/-!
# What a lifecycle move carries

The whole rewritable part of a job document, the copies that the movers of a
job hand to a lifecycle move, and the document the move installs. A copy says
what its mover decided; the merge picks the fields a move carries by the
prefixes it goes between, whoever made it.
-/

namespace Stado

/-- A job document with the fields that tell where it runs. -/
structure JobDocument (W : Type) extends Job where
  workerAllocation : Option W
  gpuUuid : Option String
deriving DecidableEq

variable {W : Type}

def mergeDocuments (current requested : JobDocument W) (fromPrefix toPrefix : Prefix) :
    Except StorageError (JobDocument W) :=
  (mergeTransitionDestination current.toJob requested.toJob fromPrefix toPrefix).map fun job =>
    { current with toJob := job }

/-- What the destination is derived from: the requested document, or the one that already stands
under the destination prefix. -/
def documentBasis (requested current : JobDocument W) (toPrefix : Prefix)
    (existing : Option (JobDocument W)) : Except StorageError (JobDocument W) :=
  match existing with
  | none => .ok requested
  | some there =>
    if immutableJobProjection there.toJob ≠ immutableJobProjection current.toJob then
      .error (.storageConflict <|
        s!"{(Path.document toPrefix requested.jobId).asStr} belongs to different lifecycle data")
    else if isTransitionCleanedState there.state then .ok requested
    else if there.state = prefixState toPrefix then .ok there
    else
      .error (.storageConflict <|
        s!"{(Path.document toPrefix requested.jobId).asStr} is not reusable for lifecycle " ++
          "transition")

def moveDestination (requested current : JobDocument W) (fromPrefix toPrefix : Prefix)
    (existing : Option (JobDocument W)) : Except StorageError (JobDocument W) := do
  let basis ← documentBasis requested current toPrefix existing
  mergeDocuments current basis fromPrefix toPrefix

/-! ## Movers -/

/-- The document `start_slot` claims a queued job with. -/
def startedDocument (copy : JobDocument W) (worker : W) (hostname : String) (board : Option String)
    (now : ℕ) : JobDocument W :=
  { copy with
    workerAllocation := some worker
    state := .running
    startedAt := some (.instant now)
    instanceRef := some s!"local@{hostname}"
    gpuUuid := board }

/-- The document `take_back` claims a queued job with that this process still runs. -/
def takenBackDocument (record slot : JobDocument W) : JobDocument W :=
  { record with
    state := .running
    startedAt := slot.startedAt
    instanceRef := slot.instanceRef
    workerAllocation := slot.workerAllocation }

def claimedDocument (job : JobDocument W) (expires : ℕ) : JobDocument W :=
  { job with leaseExpiresAt := some (.instant expires) }

def yieldedDocument (copy : JobDocument W) : JobDocument W :=
  { copy with
    yieldCount := tally copy.yieldCount
    state := .queued
    instanceRef := none
    startedAt := none }

/-- What `advance_slot` decides of an exited workload: the failure, or none. -/
def finishedDocument (copy : JobDocument W) (failure : Option String) (now : ℕ) (peak : Int) :
    JobDocument W :=
  let job :=
    match failure with
    | some error =>
      { copy with
        state := .failed
        failedAt := some (.instant now)
        error := some error }
    | none => { copy with state := .completed, completedAt := some (.instant now) }
  { job with
    peakVramGb := max job.peakVramGb peak
    peakVramPerGpu := true }

/-- A job out of memory goes back with more of it. -/
def escalatedDocument (job : JobDocument W) (size : Int) : JobDocument W :=
  { job with
    gpuMemGb := size
    state := .queued
    failedAt := none
    error := none
    instanceRef := none
    startedAt := none }

def refusedDocument (copy : JobDocument W) (now : ℕ) (reason : String) : JobDocument W :=
  { copy with
    state := .failed
    failedAt := some (.instant now)
    error := some reason }

def selfTerminatedDocument (copy : JobDocument W) (now : ℕ) : JobDocument W :=
  { copy with
    state := .completed
    completedAt := some (.instant now)
    instanceRef := none }

/-- A move with what its mover knows: a claim of a new or of a lapsed slot, a yield, a requeue
after an OOM, what the reaper settles, the refusals of a slot that starts, and an exit. -/
inductive Mover (W : Type) where
  | started (worker : W) (hostname : String) (board : Option String) (now expires : ℕ)
  | takenBack (slot : JobDocument W) (expires : ℕ)
  | yielded
  | escalated (failure : String) (now : ℕ) (peak size : Int)
  | selfTerminated (now : ℕ)
  | released (completedAt : Stamp)
  | settleRefused (now : ℕ) (reason : String)
  | settleRequeued (now : ℕ) (reason : String)
  | startRefused (now : ℕ) (reason : String)
  | spawnFailed (now : ℕ) (reason : String)
  | finished (failure : Option String) (now : ℕ) (peak : Int)

namespace Mover

def requested (mover : Mover W) (copy : JobDocument W) : JobDocument W :=
  match mover with
  | started worker hostname board now expires =>
    claimedDocument (startedDocument copy worker hostname board now) expires
  | takenBack slot expires => claimedDocument (takenBackDocument copy slot) expires
  | yielded => yieldedDocument copy
  | escalated failure now peak size =>
    escalatedDocument (finishedDocument copy (some failure) now peak) size
  | selfTerminated now => selfTerminatedDocument copy now
  | released completedAt => { copy with toJob := releasedJob copy.toJob completedAt }
  | settleRefused now reason => { copy with toJob := refusedJob copy.toJob now reason }
  | settleRequeued now reason => { copy with toJob := requeuedJob copy.toJob now reason }
  | startRefused now reason => refusedDocument copy now reason
  | spawnFailed now reason => refusedDocument copy now reason
  | finished failure now peak => finishedDocument copy failure now peak

/-- The prefixes the document is moved between. -/
def route (mover : Mover W) : Prefix × Prefix :=
  match mover with
  | started .. | takenBack .. => (.queue, .running)
  | yielded | escalated .. | settleRequeued .. => (.running, .queue)
  | selfTerminated _ | released _ => (.running, .completed)
  | settleRefused .. | spawnFailed .. => (.running, .failed)
  | startRefused .. => (.queue, .failed)
  | finished failure .. => (.running, if failure.isSome then .failed else .completed)

end Mover

end Stado
