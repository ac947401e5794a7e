import Mathlib.Algebra.Group.Nat.Defs
import Mathlib.Data.Int.Cast.Basic
import Stado.Library.Crew
import Stado.Library.VersionedStore
import Stado.Queue.Records

/-!
# The objects of the autonomy control plane

Placement leases, the control state, schedule markers, plans, decisions and
queued jobs, each an object under its own path of one store. Coordinators act on
the store, read one clock, draw random ids, and have the resource engine carry
out plans. The world remembers every accepted write with its statement, which
coordinator drew an id, and each execution with what its gate had read.
-/

namespace Stado.Autonomy

open CasStore

/-! ## Documents -/

/-- The process that holds a lease without a declared lifetime. -/
structure ProcessOwner where
  host : String
  pid : ℕ
deriving DecidableEq

/-- `ProcessOwner::default`, which names no process. -/
def ProcessOwner.default : ProcessOwner := ⟨"", 0⟩

/-- A placement lease; `expiresAt` is empty for a lease held by its process
until it is released. -/
structure PlacementLease where
  subjectId : String
  decisionId : String
  token : String
  holder : String
  acquiredAt : Stamp
  expiresAt : Option Stamp
  holderProcess : ProcessOwner
deriving DecidableEq

structure ControlState where
  emergencyPaused : Bool
  reason : Option String
  changedAt : ℕ
  changedBy : String
  mutationFailures : List ℕ
  circuitOpenUntil : Option Stamp
  lastMutationError : Option String
deriving DecidableEq

def ControlState.default (now : ℕ) : ControlState :=
  ⟨false, none, now, "default", [], none, none⟩

/-- The circuit breaker is still open at `now`; an end that is no moment keeps it open. -/
def ControlState.circuitOpenAt (state : ControlState) (now : ℕ) : Bool :=
  match state.circuitOpenUntil with
  | none => false
  | some (.instant ends) => decide (now < ends)
  | some (.unreadable _) => true

structure ScheduleMarker where
  status : String
  startedAt : Option Stamp
  completedAt : Option ℕ
  operationId : Option String
  occurrence : Option ℕ
deriving DecidableEq

inductive ActionKind where
  | startInstance
  | stopInstance
deriving DecidableEq

/-- How the engine's work on a plan ended. -/
inductive Outcome where
  | succeeded
  | failed (error : String)
deriving DecidableEq

def Outcome.isSuccess : Outcome → Bool
  | .succeeded => true
  | .failed _ => false

/-- What a process can observe of the owner of a lease. -/
inductive OwnerState where
  | this | running | gone | elsewhere
deriving DecidableEq

inductive Path where
  | lease (subject : String)
  | control
  | marker (resource : String) (kind : ActionKind) (occurrence : ℕ)
  | plan (operation : String)
  | decision (id : String)
  | savings (id : String)
  | job (id : String)
deriving DecidableEq

inductive Contents where
  | lease (lease : PlacementLease)
  | control (state : ControlState)
  | marker (marker : ScheduleMarker)
  | plan (occurrence : Path)
  | decision
  | savings
  | job (job : Job)
deriving DecidableEq

/-- What a decision writes into a queued job. -/
structure Placement where
  provider : String
  assignedTo : Option String
  notBefore : Option Stamp
deriving DecidableEq

/-- The statements that read the clock or call the storage. Those that use a
lease, record an outcome or write a job are named with what they are about. -/
inductive Site where
  | clock
  | recordClock (outcome : Outcome)
  | planClock
  | acquireCreate
  | acquireRead
  | acquireSwap
  | renewRead
  | renew (token : String)
  | freeRead
  | free (token : String)
  | exactRead
  | exact (released : PlacementLease)
  | ownReleaseRead (decision : String)
  | ownRelease (decision : String)
  | controlRead
  | setControlRead
  | setControl
  | recordRead (operation : String) (outcome : Outcome)
  | record (operation : String) (outcome : Outcome)
  | markerCreate
  | markerRead
  | markerSwap
  | markerDelete (operation : String)
  | markerComplete (operation : String)
  | planWrite
  | decisionWrite
  | savingsWrite
  | placementCheck (placement : Placement)
  | placementRead
  | placement (lease : PlacementLease)
  | queue
deriving DecidableEq

def Site.recordsFailure : Site → Bool
  | .recordRead _ (.failed _) | .recordClock (.failed _) | .record _ (.failed _) => true
  | _ => false

abbrev AutonomyStore := Store Path Contents Site

abbrev AutonomyEntry := Entry Path Contents Site

inductive Act : Type → Type where
  /-- `Utc::now`, in nanoseconds. -/
  | now (site : Site) : Act ℕ
  /-- `Uuid::new_v4`. -/
  | uuid : Act String
  /-- `ProcessOwner::current`. -/
  | currentProcess : Act ProcessOwner
  /-- `ProcessOwner::state`. -/
  | ownerState (owner : ProcessOwner) : Act OwnerState
  | read (site : Site) (p : Path) : Act (Except StorageError (Option (Contents × ℕ)))
  | exist (site : Site) (p : Path) : Act (Except StorageError Bool)
  | create (site : Site) (p : Path) (c : Contents) : Act (Except StorageError Bool)
  | swap (site : Site) (p : Path) (version : ℕ) (c : Contents) : Act (Except StorageError Swap)
  | put (site : Site) (p : Path) (c : Contents) : Act (Except StorageError Unit)
  | delete (site : Site) (p : Path) : Act (Except StorageError Unit)
  | touch (site : Site) (p : Path) : Act (Except StorageError Unit)
  /-- `engine::execute_autonomous` begins. -/
  | begin (operation : String) (lease : PlacementLease) : Act Unit
  /-- `engine::execute_autonomous` ends. -/
  | finish (operation : String) : Act Outcome
  /-- `Plan::validate`, with the reason of a refusal. -/
  | validPlan : Act (Option String)
  /-- `recover_job_transition`. -/
  | recover (jobId : String) : Act (Except StorageError Unit)
  /-- A loop that goes on for ever. -/
  | looping : Act Empty

/-- A program of the autonomy control plane. -/
abbrev Autonomous := Solo.Routine Act StorageError

/-! ## The world -/

/-- The engine's work on a plan: the coordinator that had it done, the slot lease
it runs under, when it began and after how many accepted writes, the store its
control gate had read, and how it ended. -/
structure Execution where
  operation : String
  coordinator : ℕ
  lease : PlacementLease
  begunAt : ℕ
  begunAfter : ℕ
  gate : AutonomyStore
  ended : Option Outcome

structure World where
  store : AutonomyStore
  clock : ℕ
  drawn : List (String × ℕ)
  gone : List ProcessOwner
  gates : ℕ → AutonomyStore
  executions : List Execution

/-- How an action is answered. A storage call is `done`, or `lost` with its write
applied or not. -/
inductive Choice where
  | done
  | lost (applied : Bool)
  | id (id : String)
  | process (owner : ProcessOwner)
  | owner (state : OwnerState)
  | outcome (outcome : Outcome)
  | reason (why : Option String)
deriving DecidableEq

inductive Move where
  | tick (passed : ℕ)
  | exit (owner : ProcessOwner)
  /-- The queue writes the document of a job, or removes it. -/
  | job (id : String) (job : Option Job)

/-- Coordinator `i` makes a storage call at `site`. -/
def World.call {β : Type} (w : World) (i : ℕ) (site : Site) (c : Call Path Contents β) :
    Choice → Option (Except StorageError β × World)
  | .done =>
    some (.ok (c.answer w.store), { w with store := w.store.apply site i (c.change w.store) })
  | .lost applied =>
    some (.error .backend,
      { w with store := if applied then w.store.apply site i (c.change w.store) else w.store })
  | _ => none

def Execution.finished (operation : String) (outcome : Outcome) (e : Execution) : Execution :=
  if e.operation = operation ∧ e.ended = none then { e with ended := some outcome } else e

def World.perform {β : Type} (i : ℕ) (a : Act β) (choice : Choice) (w : World) :
    Option (β × World) :=
  match a with
  | .now _ =>
    match choice with
    | .done => some (w.clock, w)
    | _ => none
  | .uuid =>
    match choice with
    | .id id =>
      if (w.drawn.map Prod.fst).contains id then none
      else some (id, { w with drawn := (id, i) :: w.drawn })
    | _ => none
  | .currentProcess =>
    match choice with
    | .process owner => some (owner, w)
    | _ => none
  | .ownerState owner =>
    match choice with
    | .owner state => if state = .gone ∧ owner ∉ w.gone then none else some (state, w)
    | _ => none
  | .read site p =>
    (w.call i site (.read p) choice).map fun r =>
      (r.1, if site = .controlRead then
          { r.2 with gates := fun j => if j = i then w.store else w.gates j }
        else r.2)
  | .exist site p => w.call i site (.exist p) choice
  | .create site p c => w.call i site (.create p c) choice
  | .swap site p version c => w.call i site (.swap p version c) choice
  | .put site p c => w.call i site (.put p c) choice
  | .delete site p => w.call i site (.delete p) choice
  | .touch site p => w.call i site (.touch p) choice
  | .begin operation lease =>
    match choice with
    | .done =>
      some ((), { w with
        executions :=
          ⟨operation, i, lease, w.clock, w.store.length, w.gates i, none⟩ :: w.executions })
    | _ => none
  | .finish operation =>
    match choice with
    | .outcome outcome =>
      some (outcome, { w with
        executions := w.executions.map (Execution.finished operation outcome) })
    | _ => none
  | .validPlan =>
    match choice with
    | .reason why => some (why, w)
    | _ => none
  | .recover _ =>
    match choice with
    | .done => some (.ok (), w)
    | .lost _ => some (.error .backend, w)
    | _ => none
  | .looping => none

def World.move (m : Move) (w : World) : Option World :=
  match m with
  | .tick passed => some { w with clock := w.clock + passed }
  | .exit owner => some { w with gone := owner :: w.gone }
  | .job id job => some { w with store := ⟨.job id, job.map .job, .queue, 0⟩ :: w.store }

def setting : Crew.Setting Act World Choice Move where
  perform := World.perform
  move := World.move
  stop := fun _ w => w

abbrev Coordinators := Crew.Config Act StorageError World PUnit

/-- No coordinator yet, at an instant. -/
def World.fresh (clock : ℕ) : World := ⟨[], clock, [], [], fun _ => [], []⟩

def nobodyYet (clock : ℕ) : Coordinators := ⟨World.fresh clock, []⟩

def Coordinators.returned (s : Coordinators) (i : ℕ) : Prop :=
  (∃ a, s.tasks[i]? = some (some (.pure a))) ∨ ∃ e, s.tasks[i]? = some (some (.fail e))

/-- A checked value, or the end of the program. -/
def orFail {α : Type} : Except String α → Autonomous α
  | .ok a => pure a
  | .error why => .fail (.other why)

/-- A content of the wrong kind at a path. -/
def invalid {α : Type} (path : String) : Autonomous α := .fail (.other s!"{path} is not readable")

/-! ## Times -/

def nanosPerSecond : ℕ := 1000000000

def lastInstant : ℕ := 8210266876799 * nanosPerSecond + 999999999

/-- `time::positive_duration`, in nanoseconds. -/
def positiveDuration (seconds : ℕ) (field : String) : Except String ℕ :=
  if seconds = 0 then .error s!"{field} must be positive; observed {seconds} seconds"
  else if 2 ^ 63 ≤ seconds then
    .error (s!"{field} cannot represent {seconds} seconds as a duration: " ++
      "out of range integral type conversion attempted")
  else if 9223372036854775 < seconds then
    .error s!"{field} of {seconds} seconds exceeds the supported duration range"
  else .ok (seconds * nanosPerSecond)

/-- `time::expires_at`. -/
def expiresAt (now seconds : ℕ) (field : String) : Except String ℕ :=
  match positiveDuration seconds field with
  | .error why => .error why
  | .ok duration =>
    if lastInstant < now + duration then
      .error (s!"computing {field} expiry from {now} plus {seconds} seconds " ++
        "exceeds the timestamp range")
    else .ok (now + duration)

def firstInstant : ℤ := -8334601228800 * 1000000000

/-- `time::lookback_start`. -/
def lookbackStart (now seconds : ℕ) (field : String) : Except String ℤ :=
  match positiveDuration seconds field with
  | .error why => .error why
  | .ok duration =>
    if (now : ℤ) - duration < firstInstant then
      .error (s!"computing {field} lookback from {now} minus {seconds} seconds " ++
        "exceeds the timestamp range")
    else .ok ((now : ℤ) - duration)

variable {field : String}

theorem positiveDuration_eq {seconds duration : ℕ}
    (h : positiveDuration seconds field = .ok duration) :
    0 < seconds ∧ duration = seconds * nanosPerSecond := by
  unfold positiveDuration at h
  split at h
  · cases h
  split at h
  · cases h
  split at h
  · cases h
  · next hpos _ _ =>
    cases h
    exact ⟨by omega, rfl⟩

theorem expiresAt_eq {now seconds t : ℕ} (h : expiresAt now seconds field = .ok t) :
    0 < seconds ∧ t = now + seconds * nanosPerSecond := by
  unfold expiresAt at h
  split at h
  · cases h
  · next duration hduration =>
    obtain ⟨hpos, rfl⟩ := positiveDuration_eq hduration
    split at h
    · cases h
    · cases h
      exact ⟨hpos, rfl⟩

theorem lookbackStart_eq {now seconds : ℕ} {t : ℤ}
    (h : lookbackStart now seconds field = .ok t) : t = (now : ℤ) - seconds * nanosPerSecond := by
  unfold lookbackStart at h
  split at h
  · cases h
  · next duration hduration =>
    obtain ⟨-, rfl⟩ := positiveDuration_eq hduration
    split at h
    · cases h
    · cases h
      push_cast
      rfl

end Stado.Autonomy
