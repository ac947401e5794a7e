import Stado.Schedules.Store

/-!
# Firing schedules

The submission of one occurrence, the attempt that carries a claimed occurrence
into the queue and settles it, the coordinator's sweep and the operator's
manual fire, and the machine that interleaves them with the declarations.
-/

namespace Stado.Schedules

open CasStore

variable (lib : Libraries)

/-! ## The submission -/

def differentRequest (runId : String) : Error :=
  .submit (.validation s!"run id {runId} already belongs to a different submission request")

def readRun (runId : String) : Scheduling (Option (RunManifest × Nat)) := do
  match ← Program.perform .submit (.read (.run runId)) with
  | none => pure none
  | some (.run manifest, version) => pure (some (manifest, version))
  | some _ => .fail (.submit (.validation "invalid run manifest"))

def planRun (request : OccurrenceRequest) (existing : Option (RunManifest × Nat)) :
    Scheduling RunManifest :=
  match existing with
  | some (manifest, _) =>
    if manifest.request ≠ request then .fail (differentRequest request.runId)
    else pure manifest
  | none => do
      match ← Program.query (.resolveHardware request) with
      | .error error => .fail (.submit error)
      | .ok hardware => do
          let candidate : RunManifest := ⟨request, hardware, false⟩
          if ← Program.perform .submit (.create (.run request.runId) (.run candidate)) then
            pure candidate
          else
            match ← readRun request.runId with
            | none => .fail (.submit (.validation s!"run {request.runId} is absent"))
            | some (stored, _) =>
              if stored.request ≠ request ∨ stored.hardware ≠ hardware then
                .fail (differentRequest request.runId)
              else pure stored

def checkpointAccepted (planned : RunManifest) : Nat → Scheduling Unit
  | 0 => .stop
  | fuel + 1 => do
      match ← readRun planned.request.runId with
      | none => .fail (.submit (.storage (.notFound (Path.run planned.request.runId).asStr)))
      | some (stored, version) =>
        if stored.request ≠ planned.request ∨ stored.hardware ≠ planned.hardware then
          .fail (differentRequest planned.request.runId)
        else if stored.accepted then pure ()
        else
          match ← Program.perform .submit
              (.swap (.run planned.request.runId) version
                (.run { stored with accepted := true })) with
          | .stored _ => pure ()
          | .conflict => checkpointAccepted planned fuel
          | .notFound =>
            .fail (.submit (.storage (.notFound (Path.run planned.request.runId).asStr)))

/-- `submit_batch` of the occurrence's one command. -/
def submitBatch (fuel : Nat) (request : OccurrenceRequest) : Scheduling Job := do
  match ← Program.query (.validate request) with
  | some reason => .fail (.submit (.validation reason))
  | none => do
      let existing ← readRun request.runId
      match ← Program.query (.charge request.runId) with
      | some (refused, reason) => .fail (.submit (.charge refused reason))
      | none => do
          let manifest ← planRun request existing
          match ← Program.query (.admitEntry (manifest.job lib)) with
          | some error => .fail (.submit error)
          | none => do
              let _ ← checkpointAccepted manifest fuel
              pure (manifest.job lib)

/-- A rejection is a property of this exact request; other failures are outages. -/
def Error.rejected : Error → Bool
  | .submit (.validation _) => true
  | .submit (.charge refused _) => refused
  | .submit (.storage _) => false
  | .storage _ => false

def Error.text : Error → String
  | .submit (.validation reason) => reason
  | .submit (.charge _ reason) => reason
  | .submit (.storage error) => reprStr error
  | .storage error => reprStr error

def Schedule.request (sched : Schedule) (runId : String) : OccurrenceRequest :=
  ⟨runId, sched.scheduleId, sched.command, sched.options⟩

/-- After a submission failed: a rejected occurrence is abandoned, any other is
handed back; either way the attempt fails. -/
def settleFailure (fuel : Nat) (scheduleId occurrenceKey owner : String) (error : Error) :
    Scheduling (Option Job) :=
  if error.rejected then do
    let _ ← abandonPendingOccurrence error fuel scheduleId occurrenceKey owner
    failWith (.other s!"durable schedule enqueue rejected this occurrence: {error.text}")
  else do
    match ← (releasePendingOccurrence fuel scheduleId occurrenceKey owner).attempt with
    | .error release =>
      failWith (.other <| s!"durable schedule enqueue failed: {error.text}; the occurrence " ++
        s!"stays reserved until its lease expires: {release.text}")
    | .ok _ => failWith (.other s!"durable schedule enqueue failed: {error.text}")

/-- Carry one claimed occurrence into the queue and settle it. -/
def enqueuePendingOccurrence (fuel : Nat) (sched : Schedule) (owner : String) (firedAt : Nat) :
    Scheduling (Option Job) :=
  match sched.pendingOccurrence with
  | none => failWith (.other s!"schedule {sched.scheduleId} has no pending occurrence")
  | some pending => do
      match ← beginPendingOccurrence sched.scheduleId pending.occurrenceKey owner with
      | none => pure none
      | some begun =>
        match begun.pendingOccurrence with
        | none =>
          failWith (.other <|
            s!"schedule {begun.scheduleId} lost its pending occurrence when it was begun")
        | some pending => do
            match ← (submitBatch lib fuel (begun.request pending.runId)).attempt with
            | .error error =>
              settleFailure fuel begun.scheduleId pending.occurrenceKey owner error
            | .ok job => do
                if ← acceptPendingOccurrence lib fuel begun.scheduleId pending.occurrenceKey
                    owner job firedAt then pure (some job)
                else
                  failWith (.storageConflict <|
                    s!"schedule {begun.scheduleId} ownership changed after durable enqueue")

/-! ## The sweep -/

/-- What the schedule's most recent fire is doing, while it is live. -/
def prevInstanceLive (sched : Schedule) : Scheduling (Option String) :=
  if sched.lastJobId = "" then pure none else Program.query (.previousLive sched.lastJobId)

def priorInstance (sched : Schedule) : Scheduling (Option String) :=
  if sched.overlapPolicy = .skip then prevInstanceLive sched else pure none

def tryEnqueue (fuel : Nat) (claimed : Schedule) (owner : String) (now : Nat) :
    Scheduling (Option Job) := do
  match ← (enqueuePendingOccurrence lib fuel claimed owner now).attempt with
  | .ok job => pure job
  | .error _ => pure none

/-- Fire an occurrence that fell due, unless the last one still runs and the
schedule skips. -/
def fireOccurrence (fuel : Nat) (sched : Schedule) (scheduleId owner : String) (now : Nat) :
    Scheduling (Option Job) :=
  match computeNextDue lib sched.cron now sched.tz with
  | .error error => failWith (.other error)
  | .ok next => do
      match ← priorInstance sched with
      | some _ => do
          let _ ← advanceDueWithoutWork scheduleId sched.nextDueAt (isoformatUtc lib next)
          pure none
      | none => do
          match ← reserveDueOccurrence lib scheduleId sched.nextDueAt (isoformatUtc lib next)
              owner with
          | none => pure none
          | some claimed => tryEnqueue lib fuel claimed owner now

def fireDueSchedule (fuel : Nat) (now : Nat) (scheduleId : String) : Scheduling (Option Job) := do
  match ← readSchedule scheduleId with
  | none => pure none
  | some sched => do
      let owner ← Program.query .uuid
      if sched.pendingOccurrence ≠ none then
        match ← takeoverPendingOccurrence lib scheduleId owner with
        | none => pure none
        | some claimed => tryEnqueue lib fuel claimed owner now
      else if !sched.enabled ∨ sched.nextDueAt = "" then pure none
      else
        match parseIso lib sched.nextDueAt with
        | none => pure none
        | some due =>
          if now < due then pure none
          else fireOccurrence lib fuel sched scheduleId owner now

def fireDueSchedules (fuel : Nat) (now : Nat) : Scheduling Nat := do
  let scheduleIds ← listScheduleIds
  Program.foldList (fun fired scheduleId => do
    match ← fireDueSchedule lib fuel now scheduleId with
    | some _ => pure (fired + 1)
    | none => pure fired) 0 scheduleIds

def fireToken (fuel : Nat) (scheduleId retryToken runId : String) (now : Nat) :
    Nat → Scheduling (Option Job)
  | 0 => .stop
  | rounds + 1 => do
      match ← readSchedule scheduleId with
      | none => pure none
      | some sched =>
        if sched.deleted ∧ sched.pendingOccurrence = none then pure none
        else do
          let owner ← Program.query .uuid
          match sched.pendingOccurrence with
          | some pending => do
              match ← takeoverPendingOccurrence lib scheduleId owner with
              | none => pure none
              | some claimed =>
                if pending.runId ≠ runId then do
                  let _ ← enqueuePendingOccurrence lib fuel claimed owner now
                  fireToken fuel scheduleId retryToken runId now rounds
                else enqueuePendingOccurrence lib fuel claimed owner now
          | none => do
              match ← reserveManualOccurrence lib scheduleId owner retryToken with
              | none => pure none
              | some claimed => enqueuePendingOccurrence lib fuel claimed owner now

/-- Fire a schedule once for the caller's token. An accepted run of the token
answers a repeat. -/
def fireScheduleNow (fuel : Nat) (scheduleId retryToken : String) (now : Nat) :
    Scheduling (Option Job) := do
  let runId := stableRunId lib "schedule" (occurrenceToken scheduleId retryToken)
  match ← readRun runId with
  | some (manifest, _) =>
    if manifest.accepted then pure (some (manifest.job lib))
    else fireToken lib fuel scheduleId retryToken runId now fuel
  | none => fireToken lib fuel scheduleId retryToken runId now fuel

/-! ## The machine -/

inductive Operation where
  | declare (sched : NewSchedule)
  | setEnabled (scheduleId : String) (enabled : Bool) (nextDueAt : Option String)
  | edit (scheduleId : String) (change : Edit)
  | delete (scheduleId : String)
  | sweep (now : Nat)
  | fireNow (scheduleId retryToken : String) (now : Nat)

inductive Outcome where
  | declared
  | written (sched : Option Schedule)
  | deleted (b : Bool)
  | fired (n : Nat)
  | job (job : Option Job)
deriving DecidableEq

def Operation.program (op : Operation) (fuel : Nat) : Scheduling Outcome :=
  match op with
  | .declare sched => do
      let _ ← writeSchedule sched
      pure .declared
  | .setEnabled scheduleId enabled nextDueAt => do
      pure (.written (← setScheduleEnabled fuel scheduleId enabled nextDueAt))
  | .edit scheduleId change => do pure (.written (← editSchedule fuel scheduleId change))
  | .delete scheduleId => do pure (.deleted (← deleteSchedule fuel scheduleId))
  | .sweep now => do pure (.fired (← fireDueSchedules lib fuel now))
  | .fireNow scheduleId retryToken now => do
      pure (.job (← fireScheduleNow lib fuel scheduleId retryToken now))

/-- What the environment answers. -/
inductive Answer where
  | word (text : String)
  | process (owner : ProcessOwner)
  | ownerState (state : OwnerState)
  | instant (at_ : Nat)
  | said (text : Option String)
  | charged (answer : Option (Bool × String))
  | hardware (resolved : Except SubmitError String)
  | admitted (error : Option SubmitError)

def acceptAnswer : {β : Type} → Query β → Answer → Option β
  | _, .uuid, .word text => some text
  | _, .currentProcess, .process owner => some owner
  | _, .ownerState _, .ownerState state => some state
  | _, .now, .instant at_ => some at_
  | _, .previousLive _, .said text => some text
  | _, .validate _, .said text => some text
  | _, .charge _, .charged answer => some answer
  | _, .resolveHardware _, .hardware resolved => some resolved
  | _, .admitEntry _, .admitted error => some error
  | _, _, _ => none

def schedules : Machine Path Contents Site Error Query Operation Answer Outcome where
  program := fun op => op.program lib
  accept := acceptAnswer
  lost := .storage .backend

abbrev ScheduleSystem := System Path Contents Site Error Query Operation Outcome

abbrev ScheduleEvent := Event Operation Answer

/-- The text of one of the epoch's first ten minutes. -/
def minuteText (minute : Nat) : String := "1970-01-01T00:0" ++ toString minute ++ ":00+00:00"

def minuteOf (text : String) : Option Nat :=
  ((List.range 10).find? fun minute => minuteText minute = text).map (· * 60000000)

/-- Libraries that know one cron expression, `* * * * *`, within the epoch's
first ten minutes. -/
def minutes : Libraries where
  CronSchedule := Unit
  cronFromStr := fun expr => if expr = "0 * * * * *" then some () else none
  after := fun _ _ at_ =>
    if at_ / 60000000 + 1 < 10 then some ((at_ / 60000000 + 1) * 60000000) else none
  zoneError := fun zone => if zone = "UTC" then none else some "failed to parse timezone"
  weekday := fun _ => none
  parseFromRfc3339 := minuteOf
  parseNaive := fun _ => none
  format := fun at_ _ => minuteText (at_ / 60000000)
  digestValue := fun scope token => scope ++ "+" ++ token
  jobKey := fun request hardware => request ++ "+" ++ hardware
  after_lt := by
    intro _ _ at_ next h
    split at h
    · cases h
      omega
    · cases h
  after_second := by
    intro _ _ at_ next h
    have read : ∀ minute, minute < 10 → minuteOf (minuteText minute) = some (minute * 60000000) := by
      decide +kernel
    split at h
    · next hlt =>
      cases h
      refine ⟨by omega, ?_⟩
      rw [Nat.mul_div_cancel _ (by decide)]
      exact read _ hlt
    · cases h
  parse_empty := by decide +kernel

def everyMinute : NewSchedule where
  schedule :=
    { scheduleId := "sch-1"
      cron := "* * * * *"
      command := "true"
      enabled := true
      deleted := false
      tz := "UTC"
      options := ⟨"", ""⟩
      nextDueAt := minuteText 1
      lastFiredAt := none
      lastRunId := ""
      lastJobId := ""
      fireCount := 0
      pendingOccurrence := none
      overlapPolicy := .skip }
  unreserved := rfl
  unfired := rfl

end Stado.Schedules
