import Stado.Queue.Transitions

/-!
# Lifecycle operations

First admission, claiming and leasing, the rewrites of a queued document, the
delete, and the sweep of the sentinels a settled job leaves behind.
-/

namespace Stado

open CasStore

/-- Create a queued job exactly once. Existing content is never overwritten;
the marker is written before the job document is settled. -/
def createQueuedJobIfAbsent (fuel : Nat) (job : Job) : Storage Bool := do
  let _ ← recoverJobTransition fuel job.jobId none
  let lifecycleExists ← standsUnder job.jobId jobPrefixes
  match ← Program.perform .read (.exist (.transition job.jobId)) with
  | true =>
    .fail (.storageConflict <|
      s!"durable prior admission exists for {job.jobId}; refusing first-admission queue " ++
        "recreation")
  | false =>
    if lifecycleExists then pure false
    else do
      let _ ← writePriorityMarker job
      match ← Program.perform .admission (.create (.document .queue job.jobId) (.job job)) with
      | true => do
          let _ ← Program.perform .read (.touch (.document .queue job.jobId))
          pure true
      | false =>
        match ← Program.perform .read (.exist (.document .queue job.jobId)) with
        | true => pure false
        | false => do
            -- Lost the create to a generation that has since left `queue/`.
            let _ ← deletePriorityMarkerFor job .absent
            pure false

def endedState (jobId : String) : Storage (Option Prefix) := do
  match ← Program.perform .read (.read (.transition jobId)) with
  | none => pure none
  | some (.transition transition, _) =>
    if transition.toPrefix ∈ terminalPrefixes then pure (some transition.toPrefix)
    else pure none
  | some _ => .fail (.other s!"invalid durable transition record for {jobId}")

/-- The planned job as it ended, when its record says it left every lifecycle
prefix from a terminal one. -/
def endedByTransition (planned : Job) : Storage (Option Job) := do
  match ← endedState planned.jobId with
  | none => pure none
  | some p => pure (some { planned with state := prefixState p })

/-- Repair admission metadata only after a losing create has been read and
validated. A concurrent move turns this into a no-op. -/
def repairQueuedAdmissionMetadata (planned : Job) : Storage Unit := do
  match ← readVersioned .read .queue planned.jobId with
  | none => pure ()
  | some (current, _) =>
    if current.state ≠ .queued then pure ()
    else if immutableJobProjection current ≠ immutableJobProjection planned then
      .fail (.storageConflict <|
        s!"{(Path.document .queue planned.jobId).asStr} does not match validated durable " ++
          "admission")
    else do
      let _ ← Program.perform .read (.touch (.document .queue planned.jobId))
      let _ ← writePriorityMarker current
      match ← Program.perform .read (.exist (.document .queue planned.jobId)) with
      | true => pure ()
      | false => deletePriorityMarkerFor current .absent

/-! ## Claiming and leasing -/

/-- The queued document still is what the claimer planned against, and nothing
holds it to a later time. -/
def claimable (current job : Job) (now : Nat) : Bool :=
  current.state = .queued ∧ current.assignedTo = job.assignedTo ∧
    current.provider = job.provider ∧ current.pinToProvider = job.pinToProvider ∧
    immutableJobProjection current = immutableJobProjection job ∧
    ¬ ((current.notBefore.bind Stamp.read).any (now < ·))

/-- Whether a cancellation was requested or settled. -/
def cancelled (site : Site) (jobId : String) : Storage Bool := do
  match ← Program.perform site (.exist (.cancellation jobId)) with
  | true => pure true
  | false => Program.perform site (.exist (.document .cancelled jobId))

/-- Claim through a durable transition record. The running job is derived from
the fresh versioned queue body; `promise` is how far ahead the claiming worker
promises its next renewal. -/
def claimQueuedJob (fuel : Nat) (job : Job) (promise : Nat) : Storage Bool := do
  let _ ← recoverJobTransition fuel job.jobId none
  match ← readVersioned .read .queue job.jobId with
  | none => pure false
  | some (current, version) => do
      let now ← Program.query .now
      if ¬ claimable current job now then pure false
      else
        match ← cancelled .read job.jobId with
        | true => pure false
        | false => do
            let now ← Program.query .now
            let claimed := { job with leaseExpiresAt := some (.instant (now + promise)) }
            match ← transitionJobIfVersion fuel none claimed .queue .running (some version) with
            | false => pure false
            | true =>
              match ← cancelled (.cancellationRecheck job.jobId) job.jobId with
              | true => pure false
              | false => pure true

/-- Renew the running job's own lease by compare-and-swap on the running
document. `false` when the job is no longer a live running document. -/
def renewRunningLease : Nat → String → Nat → Storage Bool
  | 0, _, _ => .stop
  | fuel + 1, jobId, promise => do
      match ← readVersioned .read .running jobId with
      | none => pure false
      | some (job, version) =>
        if job.state ≠ .running then pure false
        else do
          let now ← Program.query .now
          match ← Program.perform .renewLease
              (.swap (.document .running jobId) version
                (.job { job with leaseExpiresAt := some (.instant (now + promise)) })) with
          | .stored _ => pure true
          | .conflict => renewRunningLease fuel jobId promise
          | .notFound => pure false

def fenceCancellation (jobId : String) : Storage Unit := do
  let now ← Program.query .now
  let _ ← Program.perform .requestCancellation
    (.create (.cancellation jobId) (.cancellation (some jobId) (some (.instant now))))
  pure ()

def settleQueuedCancellation (fuel : Nat) (jobId : String) : Storage Bool := do
  let _ ← recoverJobTransition fuel jobId none
  match ← readVersioned .read .queue jobId with
  | none => pure false
  | some (job, version) =>
    if job.jobId ≠ jobId ∨ job.state ≠ .queued then pure false
    else
      match ← Program.perform .read (.read (.cancellation jobId)) with
      | none => pure false
      | some (.cancellation named requestedAt, _) =>
        if named ≠ some jobId then
          .fail (.other s!"{(Path.cancellation jobId).asStr} does not name its own job id")
        else
          match requestedAt with
          | none => .fail (.other s!"{(Path.cancellation jobId).asStr} has no requested_at")
          | some (.unreadable text) =>
            .fail (.other <| s!"{(Path.cancellation jobId).asStr} has invalid requested_at: {text}")
          | some (.instant at_) =>
            transitionJobIfVersion fuel none
              { job with
                state := .cancelled
                completedAt := some (.instant at_)
                error := some "cancelled" }
              .queue .cancelled (some version)
      | some _ => .fail (.other s!"{(Path.cancellation jobId).asStr} is not a request")

def listJobIds (p : Prefix) : Storage (List String) := do
  let paths ← Program.perform .read (.list fun
    | .document q _ => decide (q = p)
    | _ => false)
  pure (paths.filterMap fun
    | .document _ jobId => some jobId
    | _ => none)

/-- Finish durable cancellation requests for jobs that remain in `queue/`. -/
def settleQueuedCancellations (fuel : Nat) : Storage Nat := do
  let jobIds ← listJobIds .queue
  Program.foldList (fun settled jobId => do
    match ← settleQueuedCancellation fuel jobId with
    | true => pure (settled + 1)
    | false => pure settled) 0 jobIds

/-! ## Rewrites of a queued document -/

/-- The document a rewrite left behind with its version, or what the rewrite
last saw when no queued generation was there. -/
inductive Rewritten where
  | current (job : Job) (version : Nat)
  | gone (basis : MarkerBasis)

/-- The rewritable fields an operator's update may touch. -/
structure QueuedUpdate where
  apply : JobFields → JobFields
  submission : ∀ fields, (apply fields).submission = fields.submission

def rewriteLoop : Nat → String → QueuedUpdate → Storage Rewritten
  | 0, _, _ => .stop
  | fuel + 1, jobId, update => do
      match ← readVersioned .read .queue jobId with
      | none => pure (.gone .absent)
      | some (job, version) =>
        if job.state ≠ .queued then pure (.gone (.seen version))
        else
          match ← Program.perform .rewriteQueued
              (.swap (.document .queue jobId) version
                (.job { update.apply job.toJobFields with state := job.state })) with
          | .conflict => rewriteLoop fuel jobId update
          | .notFound => .fail (.notFound (Path.document .queue jobId).asStr)
          | .stored written =>
            match ← Program.perform .read (.exist (.document .queue jobId)) with
            | false => pure (.gone .absent)
            | true => do
                let _ ← Program.perform .read (.touch (.document .queue jobId))
                match ← Program.perform .read (.exist (.document .queue jobId)) with
                | false => pure (.gone .absent)
                | true =>
                  pure (.current { update.apply job.toJobFields with state := job.state }
                    written)

/-- Rewrite one current queued generation. A transition still pending is
finished first, so the rewrite never lands under a fence. -/
def rewriteQueuedJob (fuel : Nat) (jobId : String) (update : QueuedUpdate) :
    Storage Rewritten := do
  let _ ← recoverJobTransition fuel jobId none
  rewriteLoop fuel jobId update

def Rewritten.job? : Rewritten → Option Job
  | .current job _ => some job
  | .gone _ => none

def QueuedUpdate.priority (newPriority : Int) : QueuedUpdate :=
  ⟨fun fields => { fields with priority := newPriority }, fun _ => rfl⟩

def QueuedUpdate.gpuMem (gpuMemGb : Int) : QueuedUpdate :=
  ⟨fun fields => { fields with gpuMemGb := gpuMemGb }, fun _ => rfl⟩

def QueuedUpdate.placement (provider : String) (assignedTo : Option String)
    (notBefore : Option Stamp) : QueuedUpdate :=
  ⟨fun fields => { fields with
    provider := provider
    pinToProvider := true
    assignedTo := assignedTo.getD ""
    notBefore := notBefore }, fun _ => rfl⟩

def QueuedUpdate.assignment (assignedTo : String) : QueuedUpdate :=
  ⟨fun fields => { fields with assignedTo := assignedTo }, fun _ => rfl⟩

/-- CAS-update one current queued generation's priority and marker. The new key
is written before the superseded one is dropped. -/
def updateQueuedPriority (fuel : Nat) (jobId : String) (newPriority : Int) :
    Storage (Option Job) :=
  if ¬ priorityFits newPriority then
    .fail (.other s!"job priority {newPriority} must be nonnegative")
  else do
    match ← rewriteQueuedJob fuel jobId (.priority newPriority) with
    | .current job version => do
        let _ ← writePriorityMarker job
        let _ ← repairPriorityMarkers jobId (some (markerPath job)) (.seen version)
        match ← Program.perform .read (.exist (.document .queue jobId)) with
        | true => pure (some job)
        | false => do
            let _ ← deletePriorityMarkerFor job .absent
            pure none
    | .gone basis => do
        -- No current queued generation to index.
        let _ ← repairPriorityMarkers jobId none basis
        pure none

def updateQueuedGpuMem (fuel : Nat) (jobId : String) (gpuMemGb : Int) :
    Storage (Option Job) := do
  pure (← rewriteQueuedJob fuel jobId (.gpuMem gpuMemGb)).job?

def updateQueuedPlacement (fuel : Nat) (jobId : String) (provider : String)
    (assignedTo : Option String) (notBefore : Option Stamp) : Storage (Option Job) := do
  pure (← rewriteQueuedJob fuel jobId (.placement provider assignedTo notBefore)).job?

def updateQueuedAssignment (fuel : Nat) (jobId : String) (assignedTo : String) :
    Storage (Option Job) := do
  pure (← rewriteQueuedJob fuel jobId (.assignment assignedTo)).job?

/-! ## Deletion and sweeps -/

def deleteJob (p : Prefix) (jobId : String) : Storage Unit := do
  let indexed ← (if p = .queue then readJob .read p jobId else pure none)
  let _ ← Program.perform .deleteDocument (.delete (.document p jobId))
  if p = .queue then
    match indexed with
    | some job => deletePriorityMarkerFor job .absent
    | none => repairPriorityMarkers jobId none .absent
  else pure ()

/-- Whether the job's latest transition is retired and landed in a prefix it
can never leave. -/
def jobIsSettledTerminal (jobId : String) : Storage Bool := do
  match ← Program.perform .read (.read (.transition jobId)) with
  | some (.transition transition, _) =>
    pure (decide (transition.state = .retired ∧ transition.toPrefix ∈ terminalPrefixes))
  | some _ => .fail (.other s!"invalid durable transition record for {jobId}")
  | none => standsUnder jobId terminalPrefixes

/-- What one sweep did. -/
structure SettledSentinelSweep where
  inspected : Nat
  retired : Nat
  kept : Nat
deriving DecidableEq

def sweepDocument (p : Prefix) (sweep : SettledSentinelSweep) (jobId : String) :
    Storage SettledSentinelSweep := do
  let sweep := { sweep with inspected := sweep.inspected + 1 }
  match ← readVersioned .read p jobId with
  | none => pure sweep
  | some (job, _) =>
    if cleanedTransitionId job.state = none then pure { sweep with kept := sweep.kept + 1 }
    else
      match ← jobIsSettledTerminal job.jobId with
      | true => do
          let _ ← Program.perform .sweepSentinel (.delete (.document p jobId))
          pure { sweep with retired := sweep.retired + 1 }
      | false => pure { sweep with kept := sweep.kept + 1 }

/-- One pass over a prefix: delete every cleaned sentinel whose job has settled
in a terminal prefix. -/
def retireSettledSentinels (p : Prefix) : Storage SettledSentinelSweep := do
  let jobIds ← listJobIds p
  Program.foldList (sweepDocument p) ⟨0, 0, 0⟩ jobIds

/-- One queued document of the backfill: its marker is written when missing,
and its superseded entries are dropped. -/
def backfillDocument (indexed : List Path) (body : Job × Nat) : Storage Unit :=
  if body.1.state ≠ .queued then pure ()
  else do
    let _ ← (if markerPath body.1 ∈ indexed then pure () else writePriorityMarker body.1)
    Program.each (fun path => Program.perform (.deleteMarker (.seen body.2)) (.delete path))
      (indexed.filter fun path =>
        path ≠ markerPath body.1 ∧ markerJob path = some body.1.jobId)

def pruneStaleMarkers (indexed : List Path) (queuedIds : List String) : Storage Nat := do
  let stale := indexed.filter fun path => ¬ (markerJob path).any (· ∈ queuedIds)
  let _ ← Program.each
    (fun path => Program.perform (.deleteMarker .absent) (.delete path)) stale
  pure stale.length

/-- Scan every queued job and write any missing marker, then prune markers that
name no queued job. Marker names come first and queue names second. -/
def backfillPriorityMarkers : Storage Bool := do
  let indexed ← Program.perform .read (.list isMarker)
  let jobIds ← listJobIds .queue
  let bodies ← Program.foldList (fun bodies jobId => do
    match ← readVersioned .read .queue jobId with
    | none => pure bodies
    | some body => pure (bodies ++ [body])) [] jobIds
  let _ ← Program.each (backfillDocument indexed) bodies
  let _ ← pruneStaleMarkers indexed jobIds
  let _ ← Program.perform .sweepMarkers (.put .markerSweep (.text "done"))
  pure true

end Stado
