import Stado.Queue.Machine

/-!
# The verdict on a work directory

What the janitor reads to decide that a job's work directory may go: the job's
transition record, then its documents under the watched prefixes, then those
under the terminal ones, one read after another.
-/

namespace Stado

open CasStore

inductive WorkdirJobState where
  | terminal
  | live
  | unknown
  deriving DecidableEq

/-- The prefixes a live job may stand under. -/
def watchedPrefixes : List Prefix := [.queue, .running]

/-- A document that is not the job's own one: it has to be the cleaned sentinel of
the same submission, and of the record's own transition where it is its source. -/
def cleanedAside (transition : JobTransition) (p : Prefix) (job : Job) : Bool :=
  decide (immutableJobProjection job = immutableJobProjection transition.destinationJob) &&
    match cleanedTransitionId job.state with
    | none => false
    | some cleaned => decide (p = transition.fromPrefix → cleaned = transition.transitionId)

/-- The watched prefixes, one after another: an answer, or none where all of them
are cleaned or empty. -/
def watchedVerdict (transition : JobTransition) (jobId : String) :
    List Prefix → Storage (Option WorkdirJobState)
  | [] => pure none
  | p :: rest => do
      match ← Program.perform .read (.read (.document p jobId)) with
      | none => watchedVerdict transition jobId rest
      | some (.job job, _) =>
        if job.jobId ≠ jobId then pure (some .unknown)
        else if job.state = prefixState p then pure (some .live)
        else if cleanedAside transition p job then watchedVerdict transition jobId rest
        else pure (some .unknown)
      | some _ => pure (some .unknown)

/-- The terminal prefixes, one after another: the record's destination has to
stand, and every other document to be cleaned. -/
def terminalVerdict (transition : JobTransition) (jobId : String) :
    List Prefix → Bool → Storage WorkdirJobState
  | [], stands => pure (if stands then .terminal else .unknown)
  | p :: rest, stands => do
      match ← Program.perform .read (.read (.document p jobId)) with
      | none => terminalVerdict transition jobId rest stands
      | some (.job job, _) =>
        if job.jobId ≠ jobId then pure .unknown
        else if immutableJobProjection job ≠
            immutableJobProjection transition.destinationJob then pure .unknown
        else if p = transition.toPrefix ∧ job.state = prefixState p then
          terminalVerdict transition jobId rest true
        else if cleanedAside transition p job then
          terminalVerdict transition jobId rest stands
        else pure .unknown
      | some _ => pure .unknown

/-- Resolve one work directory candidate. -/
def workdirJobState (jobId : String) : Storage WorkdirJobState := do
  match ← readJobTransition .read jobId with
  | none => pure .unknown
  | some (transition, _) =>
    if transition.state ≠ .retired ∨ transition.toPrefix ∉ terminalPrefixes ∨
        transition.destinationJob.jobId ≠ jobId ∨
        transition.destinationJob.state ≠ prefixState transition.toPrefix then
      pure .unknown
    else
      match ← watchedVerdict transition jobId watchedPrefixes with
      | some verdict => pure verdict
      | none => terminalVerdict transition jobId terminalPrefixes false

/-! ## The queue and the janitors -/

/-- What runs beside one queue: its clients' operations, and verdicts on work
directories. -/
inductive HostOperation where
  | client (op : Operation)
  | workdir (jobId : String)

inductive HostOutcome where
  | client (outcome : Outcome)
  | workdir (state : WorkdirJobState)
  deriving DecidableEq

def HostOperation.program (op : HostOperation) (fuel : Nat) : Storage HostOutcome :=
  match op with
  | .client op => do pure (.client (← op.program fuel))
  | .workdir jobId => do pure (.workdir (← workdirJobState jobId))

/-- The machine of the queue with its janitors. -/
def hosts : Machine Path Contents Site StorageError Query HostOperation Answer HostOutcome where
  program := HostOperation.program
  accept := acceptAnswer
  lost := .backend

abbrev HostSystem := System Path Contents Site StorageError Query HostOperation HostOutcome

abbrev HostEvent := Event HostOperation Answer

end Stado
