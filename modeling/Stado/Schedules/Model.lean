import Stado.Queue.Objects
import Stado.Schedules.Cron

/-!
# Schedules and their objects

The schedule record with its durable occurrence reservation, the run manifest
an occurrence is submitted as, and the errors, questions and sites of the
programs that fire schedules.
-/

namespace Stado.Schedules

open CasStore

/-! ## The record -/

inductive OverlapPolicy where
  | skip | allow
deriving DecidableEq

inductive ReservationState where
  /-- A firing process holds the occurrence and has not enqueued it yet. -/
  | claimed
  /-- The holder is writing the occurrence's job to the queue. -/
  | enqueuing
deriving DecidableEq

structure ProcessOwner where
  host : String
  pid : Nat
deriving DecidableEq

/-- `Default::default()`. -/
def ProcessOwner.none : ProcessOwner := ⟨"", 0⟩

structure ScheduleOccurrenceReservation where
  occurrenceKey : String
  occurrenceAt : String
  runId : String
  state : ReservationState
  owner : String
  leaseExpiresAt : String
  ownerProcess : ProcessOwner
deriving DecidableEq

/-- The frozen submission options; `pinnedHost` is the one an edit changes by
itself, `frozen` holds the others. -/
structure FrozenOptions where
  pinnedHost : String
  frozen : String
deriving DecidableEq

/-- A recurring job spec with its firing bookkeeping. -/
structure Schedule where
  scheduleId : String
  cron : String
  command : String
  enabled : Bool
  deleted : Bool
  tz : String
  options : FrozenOptions
  /-- ISO-8601 UTC; "" disables firing. -/
  nextDueAt : String
  lastFiredAt : Option String
  lastRunId : String
  lastJobId : String
  fireCount : Int
  pendingOccurrence : Option ScheduleOccurrenceReservation
  overlapPolicy : OverlapPolicy
deriving DecidableEq

/-- A schedule as it is declared: nothing is reserved and nothing has fired. -/
structure NewSchedule where
  schedule : Schedule
  unreserved : schedule.pendingOccurrence = none
  unfired : schedule.fireCount = 0

/-- `Tally::tally` on an `i64`. -/
def tally (count : Int) : Int := if count < 9223372036854775807 then count + 1 else count

/-! ## Runs -/

structure OccurrenceRequest where
  runId : String
  scheduleId : String
  command : String
  options : FrozenOptions
deriving DecidableEq

/-- The run manifest: the request, the hardware resolved when it was planned,
and whether its entry was accepted into the queue. -/
structure RunManifest where
  request : OccurrenceRequest
  hardware : String
  accepted : Bool
deriving DecidableEq

structure Job where
  jobId : String
  runId : String
deriving DecidableEq

def OccurrenceRequest.text (r : OccurrenceRequest) : String :=
  "\n".intercalate [r.runId, r.scheduleId, r.command, r.options.pinnedHost, r.options.frozen]

def RunManifest.job (lib : Libraries) (m : RunManifest) : Job where
  jobId := "job-" ++ String.ofList ((lib.jobKey m.request.text m.hardware).toList.take 24)
  runId := m.request.runId

/-! ## Objects, errors and questions -/

inductive Path where
  | schedule (scheduleId : String)
  | run (runId : String)
deriving DecidableEq

def Path.asStr : Path → String
  | .schedule scheduleId => s!"schedules/{scheduleId}.json"
  | .run runId => s!"runs/{runId}.json"

inductive Contents where
  | schedule (sched : Schedule)
  | run (manifest : RunManifest)
deriving DecidableEq

/-- Why a submission failed; `rejects` are the refusals of the request itself. -/
inductive SubmitError where
  | validation (reason : String)
  | charge (refused : Bool) (reason : String)
  | storage (error : StorageError)
deriving DecidableEq

/-- The errors of a schedule program: a storage error, or what a submission
failed with before it is told as one. -/
inductive Error where
  | storage (error : StorageError)
  | submit (error : SubmitError)
deriving DecidableEq

/-- The statements that make a storage call. -/
inductive Site where
  /-- A read that is not part of settling an occurrence. -/
  | read
  /-- `submit_batch` reads or writes the run. -/
  | submit
  | create
  | setEnabled
  | edit
  | delete
  | reserveDue
  | reserveManual
  | takeover
  | beginRead
  | begin
  | advance
  | releaseRead
  | release
  | abandonRead
  /-- The occurrence is dropped after the failure of its submission. -/
  | abandon (failure : Error)
  | acceptRead
  | accept
deriving DecidableEq

inductive Query : Type → Type where
  /-- `Uuid::new_v4` as an owner string. -/
  | uuid : Query String
  /-- `ProcessOwner::current`. -/
  | currentProcess : Query ProcessOwner
  /-- `ProcessOwner::state`. -/
  | ownerState (owner : ProcessOwner) : Query OwnerState
  /-- The clock, where a reservation states an expiry. -/
  | now : Query Nat
  /-- `prev_instance_live`: where the job still is, read from the queue. -/
  | previousLive (jobId : String) : Query (Option String)
  /-- The request is refused as written. -/
  | validate (request : OccurrenceRequest) : Query (Option String)
  /-- The charge of the build budget, unless it goes through. -/
  | charge (runId : String) : Query (Option (Bool × String))
  /-- The hardware resolved for the request. -/
  | resolveHardware (request : OccurrenceRequest) : Query (Except SubmitError String)
  /-- The entry's job is admitted to the queue, or found there again. -/
  | admitEntry (job : Job) : Query (Option SubmitError)

abbrev Scheduling := Program Path Contents Site Error Query

abbrev ScheduleStore := Store Path Contents Site

abbrev ScheduleEntry := Entry Path Contents Site

def failWith {α : Type} (error : StorageError) : Scheduling α := .fail (.storage error)

end Stado.Schedules
