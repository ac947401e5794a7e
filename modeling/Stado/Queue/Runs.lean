import Stado.Queue.Objects

/-!
# Run manifests

Recording the settled outcome of a member job in its run manifest entry, and
the per-entry ownership one submission takes while it enqueues a planned job.
-/

namespace Stado

open CasStore

/-- How a message names a path. -/
def Path.asStr : Path → String
  | .document p jobId => s!"{p.asStr}/{jobId}.json"
  | .transition jobId => s!"job-transitions/{jobId}.json"
  | .marker priority createdAt jobId => s!"queue_priority/{priority}-{createdAt}-{jobId}.json"
  | .markerSweep => "queue_priority/.sweep"
  | .cancellation jobId => s!"cancellations/{jobId}.json"
  | .run runId => s!"runs/{runId}.json"
  | .retainedJob jobId => s!"runs/jobs/{jobId}"
  | .status jobId leaf => s!"status/{jobId}/{leaf}"
  | .process host jobId => s!"{host}/{jobId}"

/-- A run id is a path component of ASCII letters, digits, `.`, `_` or `-`. -/
def validRunId (runId : String) : Bool :=
  runId ≠ "" && runId ≠ "." && runId ≠ ".." &&
    runId.toList.all fun c => c.isAlphanum || c = '-' || c = '_' || c = '.'

def readManifest (runId : String) : Storage (Option (RunManifest × Nat)) := do
  match ← Program.perform .read (.read (.run runId)) with
  | none => pure none
  | some (.manifest m, version) => pure (some (m, version))
  | some (.unreadable reason, _) => .fail (.other reason)
  | some _ => .fail (.other s!"invalid run manifest {runId}")

/-! ## Terminal outcomes -/

/-- The part of the projection a job admitted before run manifests shares with
its planned entry. -/
def terminalJobProjection (job : Job) : Submission :=
  { job.submission with
    runId := ""
    submissionRequestDigest := ""
    submissionCommandIndex := none }

def terminalJobMatchesEntry (job planned : Job) (runId : String) (index : Nat) : Bool :=
  let exactLinkage := job.submission.runId = runId ∧
    job.submission.submissionRequestDigest = planned.submission.submissionRequestDigest ∧
    job.submission.submissionCommandIndex = some index
  let legacyUnlinked := job.submission.runId = "" ∧ job.submission.submissionRequestDigest = "" ∧
    job.submission.submissionCommandIndex = none
  planned.submission.runId = runId ∧ planned.submission.submissionCommandIndex = some index ∧
    job.jobId = planned.jobId ∧ (exactLinkage ∨ legacyUnlinked) ∧
    terminalJobProjection job = terminalJobProjection planned

def indexRetainedJob (jobId runId : String) : Storage Unit := do
  let _ ← Program.perform .indexRetained (.create (.retainedJob jobId) (.text runId))
  pure ()

/-- One pass of the retention loop over a manifest that was read: what to write
into the entry, or that the outcome is already there. -/
def retainOutcome (m : RunManifest) (runId : String) (index : Nat) (job : Job)
    (toPrefix : Prefix) (now : Nat) : Except StorageError (Option RunManifest) :=
  match m.entries[index]? with
  | none => .error (.other s!"durable run manifest {runId} has no entry {index}")
  | some entry =>
    if entry.jobId ≠ job.jobId then
      .error (.other s!"durable run manifest {runId} maps entry {index} to a different job")
    else if ¬ terminalJobMatchesEntry job entry.plannedJob runId index then
      .error (.other
        s!"terminal job {job.jobId} does not match its immutable run projection")
    else if entry.state = .reaped then .ok none
    else
      match entry.outcome with
      | some outcome =>
        if outcome.toPrefix = toPrefix ∧ outcome.job = job then .ok none
        else .error (.other s!"terminal outcome for job {job.jobId} changed")
      | none =>
        .ok (some { m with
          entries := m.entries.set index
            { entry with
              state := .terminal
              owner := none
              holder := entry.holder.filter fun h => h.isProcess
              outcome := some ⟨toPrefix, .instant now, job⟩ } })

/-- The retention loop: a lost swap means another writer changed the manifest,
so it is read again. -/
def recordOutcomeLoop : Nat → String → Nat → Job → Prefix → Storage Unit
  | 0, _, _, _, _ => .stop
  | fuel + 1, runId, index, job, toPrefix => do
      match ← readManifest runId with
      | none => .fail (.notFound (Path.run runId).asStr)
      | some (m, version) =>
        let now ← Program.query .now
        match retainOutcome m runId index job toPrefix now with
        | .error e => .fail e
        | .ok none => indexRetainedJob job.jobId runId
        | .ok (some m) =>
          match ← Program.perform .recordOutcome
              (.swap (.run runId) version (.manifest m)) with
          | .stored _ => indexRetainedJob job.jobId runId
          | .conflict => recordOutcomeLoop fuel runId index job toPrefix
          | .notFound => .fail (.notFound (Path.run runId).asStr)

/-- Retain an exact terminal job before its source transition can be retired.
A job without submission identity has no manifest to retain it in. -/
def recordTerminalOutcome (fuel : Nat) (job : Job) (toPrefix : Prefix) : Storage Unit :=
  if ¬ toPrefix.terminal then
    .fail (.other s!"{toPrefix.asStr} is not a terminal job prefix")
  else
    match job.submission.submissionCommandIndex with
    | none => pure ()
    | some index =>
      if job.submission.runId = "" ∨ job.submission.submissionRequestDigest = "" then pure ()
      else if ¬ validRunId job.submission.runId then
        .fail (.other "run id must be ASCII letters, digits, '.', '_' or '-'")
      else do
        -- The migration read refuses a missing manifest before the loop does.
        match ← Program.perform .read (.exist (.run job.submission.runId)) with
        | false => .fail (.notFound (Path.run job.submission.runId).asStr)
        | true => recordOutcomeLoop fuel job.submission.runId index job toPrefix

end Stado
