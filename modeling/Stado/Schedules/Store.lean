import Stado.Schedules.Model

/-!
# Schedule persistence

The create and the compare-and-swaps over a versioned read that are the only
ways a schedule record changes: enablement, edits and deletion, the reservation
and take-over of an occurrence, and its release, abandonment or acceptance.
-/

namespace Stado.Schedules

open CasStore

variable (lib : Libraries)

/-! ## Reads -/

def readVersioned (site : Site) (scheduleId : String) : Scheduling (Option (Schedule × Nat)) := do
  match ← Program.perform site (.read (.schedule scheduleId)) with
  | none => pure none
  | some (.schedule sched, version) => pure (some (sched, version))
  | some _ => failWith (.other s!"{(Path.schedule scheduleId).asStr} is not a schedule")

def readSchedule (scheduleId : String) : Scheduling (Option Schedule) := do
  match ← readVersioned .read scheduleId with
  | none => pure none
  | some (sched, _) => pure (some sched)

def isSchedule : Path → Bool
  | .schedule _ => true
  | .run _ => false

def Path.scheduleId : Path → Option String
  | .schedule scheduleId => some scheduleId
  | .run _ => none

def listScheduleIds : Scheduling (List String) := do
  let paths ← Program.perform .read (.list isSchedule)
  pure (paths.filterMap Path.scheduleId)

/-- One compare-and-swap: what it stored, or nothing when another writer was
first. -/
def swapOnce (site : Site) (scheduleId : String) (version : Nat) (sched : Schedule) :
    Scheduling (Option Schedule) := do
  match ← Program.perform site (.swap (.schedule scheduleId) version (.schedule sched)) with
  | .stored _ => pure (some sched)
  | .conflict => pure none
  | .notFound => pure none

/-- Read, decide, swap, and read again when the swap was lost. `decide` gives
the answer, and what to write before it is given. -/
def swapLoop {α : Type} (readSite site : Site) (scheduleId : String) (absent : α)
    (decide : Schedule → Except α (Schedule × α)) : Nat → Scheduling α
  | 0 => .stop
  | fuel + 1 => do
      match ← readVersioned readSite scheduleId with
      | none => pure absent
      | some (sched, version) =>
        match decide sched with
        | .error answer => pure answer
        | .ok (changed, answer) =>
          match ← Program.perform site
              (.swap (.schedule scheduleId) version (.schedule changed)) with
          | .stored _ => pure answer
          | .conflict => swapLoop readSite site scheduleId absent decide fuel
          | .notFound => pure absent

/-! ## Declarations -/

def writeSchedule (sched : NewSchedule) : Scheduling Unit := do
  if ← Program.perform .create
      (.create (.schedule sched.schedule.scheduleId) (.schedule sched.schedule)) then pure ()
  else failWith (.storageConflict s!"schedule {sched.schedule.scheduleId} already exists")

def enabledAs (enabled : Bool) (nextDueAt : Option String) (sched : Schedule) : Schedule :=
  { sched with
    enabled := enabled
    nextDueAt :=
      if sched.pendingOccurrence = none then nextDueAt.getD sched.nextDueAt else sched.nextDueAt }

/-- Update enablement, preserving any pending occurrence. -/
def setScheduleEnabled (fuel : Nat) (scheduleId : String) (enabled : Bool)
    (nextDueAt : Option String) : Scheduling (Option Schedule) :=
  swapLoop .read .setEnabled scheduleId none (fun sched =>
    if sched.deleted then .error none
    else .ok (enabledAs enabled nextDueAt sched, some (enabledAs enabled nextDueAt sched))) fuel

/-- What the callers of `edit_schedule` write into a live schedule. -/
inductive Edit where
  /-- `schedule edit`. -/
  | settings (command : Option String) (cron tz nextDueAt : String)
  /-- `schedule create --converge`: every declared field is the caller's. -/
  | converge (wanted : Schedule)
  /-- An evacuation repins what is pinned to the host it empties. -/
  | repin (pin pinTo : String)

def Edit.apply (sched : Schedule) : Edit → Schedule
  | .settings command cron tz nextDueAt =>
    { sched with
      command := command.getD sched.command
      cron := cron
      tz := tz
      nextDueAt :=
        if sched.enabled ∧ sched.pendingOccurrence = none then nextDueAt else sched.nextDueAt }
  | .converge wanted =>
    { sched with
      command := wanted.command
      cron := wanted.cron
      tz := wanted.tz
      enabled := wanted.enabled
      options := wanted.options
      overlapPolicy := wanted.overlapPolicy
      nextDueAt := wanted.nextDueAt }
  | .repin pin pinTo =>
    if sched.options.pinnedHost = pin then
      { sched with options := { sched.options with pinnedHost := pinTo } }
    else sched

def editSchedule (fuel : Nat) (scheduleId : String) (edit : Edit) :
    Scheduling (Option Schedule) :=
  swapLoop .read .edit scheduleId none (fun sched =>
    if sched.deleted then .error none else .ok (edit.apply sched, some (edit.apply sched))) fuel

/-- Write a durable deletion tombstone; false when absent or already deleted. -/
def deleteSchedule (fuel : Nat) (scheduleId : String) : Scheduling Bool :=
  swapLoop .read .delete scheduleId false (fun sched =>
    if sched.deleted then .error false
    else .ok ({ sched with deleted := true, enabled := false }, true)) fuel

/-! ## Taking an occurrence -/

/-- Whether the reservation's holder still holds it. -/
def occurrenceLeaseLive (reservation : ScheduleOccurrenceReservation) : Scheduling Bool :=
  if reservation.ownerProcess.pid = 0 then
    match lib.parseFromRfc3339 reservation.leaseExpiresAt with
    | none => pure false
    | some expires => do
        let now ← Program.query .now
        pure (decide (now < expires))
  else do
    let state ← Program.query (.ownerState reservation.ownerProcess)
    pure (decide (state ≠ .gone))

/-- The reservation of an occurrence that `token` names. -/
def reservation (token occurrenceAt owner : String) (process : ProcessOwner) :
    ScheduleOccurrenceReservation where
  occurrenceKey := stableRunId lib "schedule-occurrence" token
  occurrenceAt := occurrenceAt
  runId := stableRunId lib "schedule" token
  state := .claimed
  owner := owner
  leaseExpiresAt := ""
  ownerProcess := process

def reserveDueOccurrence (scheduleId occurrenceAt newNextDueAt owner : String) :
    Scheduling (Option Schedule) := do
  match ← readVersioned .read scheduleId with
  | none => pure none
  | some (sched, version) =>
    if sched.deleted then pure none
    else if sched.pendingOccurrence ≠ none ∨ sched.nextDueAt ≠ occurrenceAt then pure none
    else do
      let process ← Program.query .currentProcess
      swapOnce .reserveDue scheduleId version
        { sched with
          nextDueAt := newNextDueAt
          pendingOccurrence := some (reservation lib (occurrenceToken scheduleId occurrenceAt)
            occurrenceAt owner process) }

def manualOccurrenceAt (token : String) : String := "manual:" ++ stableRunId lib "schedule-manual" token

def reserveManualOccurrence (scheduleId owner retryToken : String) :
    Scheduling (Option Schedule) := do
  match ← readVersioned .read scheduleId with
  | none => pure none
  | some (sched, version) =>
    if sched.deleted then pure none
    else if sched.pendingOccurrence ≠ none then pure none
    else do
      let token := occurrenceToken scheduleId retryToken
      let process ← Program.query .currentProcess
      swapOnce .reserveManual scheduleId version
        { sched with
          pendingOccurrence := some (reservation lib token (manualOccurrenceAt lib token) owner
            process) }

def takeoverPendingOccurrence (scheduleId owner : String) : Scheduling (Option Schedule) := do
  match ← readVersioned .read scheduleId with
  | none => pure none
  | some (sched, version) =>
    match sched.pendingOccurrence with
    | none => pure none
    | some pending => do
        let live ← occurrenceLeaseLive lib pending
        if live ∧ pending.owner ≠ owner then pure none
        else do
          let process ← Program.query .currentProcess
          swapOnce .takeover scheduleId version
            { sched with
              pendingOccurrence := some { pending with
                state := .claimed
                owner := owner
                leaseExpiresAt := ""
                ownerProcess := process } }

def beginPendingOccurrence (scheduleId occurrenceKey owner : String) :
    Scheduling (Option Schedule) := do
  match ← readVersioned .beginRead scheduleId with
  | none => pure none
  | some (sched, version) =>
    match sched.pendingOccurrence with
    | none => pure none
    | some pending =>
      if pending.occurrenceKey ≠ occurrenceKey ∨ pending.owner ≠ owner ∨
          pending.state ≠ .claimed then pure none
      else
        swapOnce .begin scheduleId version
          { sched with pendingOccurrence := some { pending with state := .enqueuing } }

def advanceDueWithoutWork (scheduleId expectedDueAt newNextDueAt : String) : Scheduling Bool := do
  match ← readVersioned .read scheduleId with
  | none => pure false
  | some (sched, version) =>
    if sched.pendingOccurrence ≠ none ∨ sched.nextDueAt ≠ expectedDueAt then pure false
    else
      match ← swapOnce .advance scheduleId version { sched with nextDueAt := newNextDueAt } with
      | some _ => pure true
      | none => pure false

/-! ## Settling an occurrence -/

def heldBy (occurrenceKey owner : String) (sched : Schedule) :
    Option ScheduleOccurrenceReservation :=
  sched.pendingOccurrence.filter fun pending =>
    pending.occurrenceKey = occurrenceKey ∧ pending.owner = owner

def released (pending : ScheduleOccurrenceReservation) : ScheduleOccurrenceReservation :=
  { pending with
    state := .claimed
    owner := ""
    leaseExpiresAt := ""
    ownerProcess := .none }

/-- Hand a failed occurrence's reservation back. -/
def releasePendingOccurrence (fuel : Nat) (scheduleId occurrenceKey owner : String) :
    Scheduling Unit :=
  swapLoop .releaseRead .release scheduleId () (fun sched =>
    match heldBy occurrenceKey owner sched with
    | none => .error ()
    | some pending => .ok ({ sched with pendingOccurrence := some (released pending) }, ())) fuel

/-- Retire a reservation whose request the queue rejected outright; `failure`, what
it is retired for, marks the write. -/
def abandonPendingOccurrence (failure : Error) (fuel : Nat)
    (scheduleId occurrenceKey owner : String) : Scheduling Unit :=
  swapLoop .abandonRead (.abandon failure) scheduleId () (fun sched =>
    match heldBy occurrenceKey owner sched with
    | none => .error ()
    | some _ => .ok ({ sched with pendingOccurrence := none }, ())) fuel

def settled (job : Job) (firedAt : Nat) (sched : Schedule) : Schedule :=
  { sched with
    lastFiredAt := some (isoformatUtc lib firedAt)
    lastRunId := job.runId
    lastJobId := job.jobId
    fireCount := tally sched.fireCount
    pendingOccurrence := none }

def acceptPendingOccurrence (fuel : Nat) (scheduleId occurrenceKey owner : String) (job : Job)
    (firedAt : Nat) : Scheduling Bool :=
  swapLoop .acceptRead .accept scheduleId false (fun sched =>
    match sched.pendingOccurrence with
    | none => .error (decide (sched.lastRunId = job.runId ∧ sched.lastJobId = job.jobId))
    | some pending =>
      if pending.occurrenceKey ≠ occurrenceKey ∨ pending.owner ≠ owner ∨
          pending.state ≠ .enqueuing ∨ pending.runId ≠ job.runId then .error false
      else .ok (settled lib job firedAt sched, true)) fuel

end Stado.Schedules
