import Stado.Queue.Lifecycle

/-!
# Submission

The durable submission transaction: the run manifest is created once from the
request, each of its entries is claimed, its planned job admitted or found, and
the entry checkpointed as accepted. Every submitter of one request derives the
same owner, so a repeated submission passes the fence of its own entries.
-/

namespace Stado

open CasStore

/-- A job as its run plans it. -/
abbrev PlannedJob := { job : Job // job.state = .queued }

/-- A validated request: its digest names it, and it derives its planned jobs
under the creation time of its manifest. -/
structure SubmissionRequest where
  runId : String
  requestDigest : String
  plan : Stamp → List PlannedJob

/-- The owner word every submitter of the request takes its entries under. -/
def SubmissionRequest.owner (request : SubmissionRequest) : String :=
  s!"submission:{request.requestDigest}"

/-! ## The manifest of a request -/

def Stamp.text : Stamp → String
  | .instant at_ => toString at_
  | .unreadable text => text

/-- An instant the manifest records, refused naming it. -/
def recordedInstant (stamp : Stamp) (what : String) : Except StorageError Nat :=
  match stamp.read with
  | some at_ => .ok at_
  | none => .error (.other s!"{what} {stamp.text} is not RFC 3339")

/-- When a job ended: a failed job at its failure, every other at completion,
and not at both. -/
def endedAt (p : Prefix) (job : Job) : Option Stamp :=
  if p = .failed then (if job.completedAt = none then job.failedAt else none)
  else if job.failedAt = none then job.completedAt
  else none

def terminalOutcome (entry : RunEntry) (planned : Job) (runId : String) (index : Nat)
    (createdAt now : Nat) : Except StorageError Job :=
  match entry.outcome with
  | none => .error (.other "terminal entry has no outcome")
  | some outcome =>
    if ¬ outcome.toPrefix.terminal ∨ outcome.job.state ≠ prefixState outcome.toPrefix then
      .error (.other "terminal entry prefix and retained job state disagree")
    else do
      let recordedAt ← recordedInstant outcome.recordedAt "terminal outcome recorded_at"
      if recordedAt < createdAt ∨ now < recordedAt then
        .error (.other "terminal outcome recorded_at is outside the run lifetime")
      else
        match endedAt outcome.toPrefix outcome.job with
        | none =>
          .error (.other "terminal retained job has contradictory terminal timestamps")
        | some stamp => do
            let terminalAt ← recordedInstant stamp "terminal retained job timestamp"
            if terminalAt < createdAt ∨ recordedAt < terminalAt then
              .error (.other "terminal retained job timestamp is outside the outcome lifetime")
            else if ¬ terminalJobMatchesEntry outcome.job planned runId index then
              .error (.other
                s!"stable job key {planned.jobId} belongs to different submission content")
            else .ok outcome.job

/-- An entry proved to be the plan of its request. -/
structure ManifestEntry where
  plannedJob : PlannedJob
  state : EntryState
  outcomeJob : Option Job

def validateEntry (runId : String) (createdAt now index : Nat) (entry : RunEntry)
    (planned : PlannedJob) : Except StorageError ManifestEntry :=
  if entry.jobId ≠ planned.val.jobId then
    .error (.other s!"run id {runId} has a corrupt command-to-job mapping at index {index}")
  else if entry.plannedJob ≠ planned.val then
    .error (.other
      s!"run id {runId} has a planned job not derivable from its request at index {index}")
  else if entry.state.ended then
    (terminalOutcome entry planned.val runId index createdAt now).map
      fun job => ⟨planned, entry.state, some job⟩
  else if entry.outcome.isSome then
    .error (.other "non-terminal entry unexpectedly carries an outcome")
  else .ok ⟨planned, entry.state, none⟩

def validateEntries (runId : String) (createdAt now : Nat) :
    Nat → List RunEntry → List PlannedJob → Except StorageError (List ManifestEntry)
  | index, entry :: entries, planned :: plan => do
      let validated ← validateEntry runId createdAt now index entry planned
      let rest ← validateEntries runId createdAt now (index + 1) entries plan
      .ok (validated :: rest)
  | _, _, _ => .ok []

def validateRunManifest (m : RunManifest) (request : SubmissionRequest) (now : Nat) :
    Except StorageError (List ManifestEntry) :=
  if m.runId ≠ request.runId ∨ m.requestDigest ≠ request.requestDigest then
    .error (.other
      s!"run id {request.runId} already belongs to a different or legacy submission request")
  else
    match m.createdAt.read with
    | none => .error (.other s!"run manifest {request.runId} has invalid created_at")
    | some createdAt =>
      let plan := request.plan m.createdAt
      if m.entries.length ≠ plan.length then
        .error (.other <| s!"run id {request.runId} has {m.entries.length} entries for " ++
            s!"{plan.length} commands")
      else validateEntries request.runId createdAt now 0 m.entries plan

def candidateManifest (request : SubmissionRequest) (createdAt : Stamp) : RunManifest where
  runId := request.runId
  requestDigest := request.requestDigest
  createdAt := createdAt
  entries := (request.plan createdAt).map fun planned =>
    { jobId := planned.val.jobId
      plannedJob := planned.val
      state := .planned
      owner := none
      holder := none
      outcome := none }

/-! ## Claiming an entry -/

inductive EntryClaim where
  | owned (plannedJob : PlannedJob)
  | accepted (plannedJob : PlannedJob)
  | terminal (job : Job)

/-- The holder of a claimed entry, when it still holds it. -/
def liveHolder (entry : RunEntry) : Storage (Option String) :=
  match entry.holder with
  | none => pure none
  | some (.lease expiresAt) =>
    match expiresAt with
    | .unreadable text =>
      pure (some (s!"a submission whose lease_expires_at {text} is not a time; " ++
        "it is not taken over on a guess"))
    | .instant at_ => do
        let now ← Program.query .now
        if now < at_ then pure (some s!"a submission whose lease runs to {at_}") else pure none
  | some (.process host pid) => do
      match ← Program.query (.ownerState host pid) with
      | .gone => pure none
      | .this => pure (some s!"pid {pid} on {host}")
      | .running => pure (some s!"pid {pid} on {host}")
      | .elsewhere => pure (some s!"pid {pid} on {host}")

def readValidated (request : SubmissionRequest) :
    Storage (RunManifest × Nat × List ManifestEntry) := do
  match ← readManifest request.runId with
  | none => .fail (.other s!"run manifest {request.runId} disappeared")
  | some (m, version) => do
      let now ← Program.query .now
      match validateRunManifest m request now with
      | .error e => .fail e
      | .ok validated => pure (m, version, validated)

/-- Take an entry for this submission: claimed first, then enqueuing. A
conflict means another writer changed the manifest since it was read. -/
def claimEntry : Nat → SubmissionRequest → Nat → Storage EntryClaim
  | 0, _, _ => .stop
  | fuel + 1, request, index => do
      let (m, version, validated) ← readValidated request
      match validated[index]?, m.entries[index]? with
      | some current, some entry =>
        if current.state = .accepted then pure (.accepted current.plannedJob)
        else if current.state.ended then
          match current.outcomeJob with
          | some job => pure (.terminal job)
          | none => .fail (.other "an ended run checkpoint entry names no outcome job")
        else
          let heldByAnother := entry.owner.any (· ≠ request.owner)
          let claimed := current.state = .claimed ∨ current.state = .enqueuing
          let holder ← (if claimed ∧ heldByAnother then liveHolder entry else pure none)
          match holder with
          | some holder =>
            .fail (.other <|
              s!"run {request.runId} command {index} is being submitted by another owner " ++
                s!"({holder})")
          | none => do
              let process ← Program.query .currentProcess
              let entry :=
                { entry with
                  state := EntryState.claimed
                  owner := some request.owner
                  holder := some (.process process.1 process.2) }
              let m := { m with entries := m.entries.set index entry }
              match ← Program.perform .claimEntry
                  (.swap (.run request.runId) version (.manifest m)) with
              | .conflict => claimEntry fuel request index
              | .notFound => .fail (.notFound (Path.run request.runId).asStr)
              | .stored claimedVersion =>
                let entry := { entry with state := EntryState.enqueuing }
                let m := { m with entries := m.entries.set index entry }
                match ← Program.perform .claimEntry
                    (.swap (.run request.runId) claimedVersion (.manifest m)) with
                | .conflict => claimEntry fuel request index
                | .notFound => .fail (.notFound (Path.run request.runId).asStr)
                | .stored _ => pure (.owned current.plannedJob)
      | _, _ => .fail (.other "run checkpoint entry is missing")

def checkpointAccepted : Nat → SubmissionRequest → Nat → String → Storage Unit
  | 0, _, _, _ => .stop
  | fuel + 1, request, index, jobId => do
      let (m, version, validated) ← readValidated request
      match validated[index]?, m.entries[index]? with
      | some current, some entry =>
        if current.state = .accepted ∨ current.state.ended then pure ()
        else if entry.jobId ≠ jobId ∨ entry.state ≠ .enqueuing ∨
            entry.owner ≠ some request.owner then
          .fail (.other "run checkpoint ownership changed before acceptance")
        else
          let entry := { entry with state := EntryState.accepted, owner := none, holder := none }
          match ← Program.perform .checkpoint
              (.swap (.run request.runId) version
                (.manifest { m with entries := m.entries.set index entry })) with
          | .stored _ => pure ()
          | .conflict => checkpointAccepted fuel request index jobId
          | .notFound => .fail (.notFound (Path.run request.runId).asStr)
      | _, _ => .fail (.other "run checkpoint entry is missing")

/-! ## The submission -/

/-- The job wherever it stands, looked up in probe order. -/
def findJob (jobId : String) : List Prefix → Storage (Option Job)
  | [] => pure none
  | p :: rest => do
      match ← readJob .read p jobId with
      | some job => pure (some job)
      | none => findJob jobId rest

/-- A recovered job is the planned job: of the same request, and while it has
not ended with the same projection. -/
def validateRecoveredJob (job planned : Job) (index : Nat) : Except StorageError Unit :=
  let sameRequest := job.jobId = planned.jobId ∧
    job.submission.submissionRequestDigest = planned.submission.submissionRequestDigest ∧
    job.submission.submissionCommandIndex = some index
  let ended := terminalPrefixes.any fun p => decide (job.state = prefixState p)
  if ¬ sameRequest ∨ (¬ ended ∧ immutableJobProjection job ≠ immutableJobProjection planned) then
    .error (.other s!"stable job key {planned.jobId} belongs to different submission content")
  else .ok ()

def acceptRecovered (existing planned : Job) (index : Nat) : Storage Job :=
  match validateRecoveredJob existing planned index with
  | .error e => .fail e
  | .ok () => do
      let _ ← repairQueuedAdmissionMetadata planned
      pure existing

def admitPlanned (fuel : Nat) (planned : PlannedJob) (index : Nat) : Storage Job := do
  match ← findJob planned.val.jobId jobPrefixes with
  | some existing => acceptRecovered existing planned.val index
  | none =>
    match ← endedByTransition planned.val with
    | some ended => pure ended
    | none =>
      match ← createQueuedJobIfAbsent fuel planned.val with
      | true => pure planned.val
      | false =>
        match ← findJob planned.val.jobId jobPrefixes with
        | some existing => acceptRecovered existing planned.val index
        | none =>
          .fail (.other <|
            s!"stable job {planned.val.jobId} was concurrently created but is unreadable")

def submitEntry (fuel : Nat) (request : SubmissionRequest) (index : Nat) : Storage Job := do
  match ← claimEntry fuel request index with
  | .terminal job => pure job
  | .accepted planned =>
    match ← findJob planned.val.jobId jobPrefixes with
    | some existing => acceptRecovered existing planned.val index
    | none =>
      match ← endedByTransition planned.val with
      | some ended => pure ended
      | none =>
        .fail (.other <|
          s!"accepted stable job {planned.val.jobId} is absent; refusing to recreate it")
  | .owned planned => do
      let job ← admitPlanned fuel planned index
      let _ ← checkpointAccepted fuel request index job.jobId
      pure job

def requireManifest (runId : String) : Storage RunManifest := do
  match ← readManifest runId with
  | some (m, _) => pure m
  | none => .fail (.notFound (Path.run runId).asStr)

def createManifest (request : SubmissionRequest) : Storage RunManifest := do
  let now ← Program.query .now
  let candidate := candidateManifest request (.instant now)
  match ← Program.perform .createManifest
      (.create (.run request.runId) (.manifest candidate)) with
  | true => pure candidate
  | false => requireManifest request.runId

def submit (fuel : Nat) (request : SubmissionRequest) : Storage (List Job) := do
  let existing ← (do
    match ← Program.perform .read (.exist (.run request.runId)) with
    | true => do
        let m ← requireManifest request.runId
        pure (some m)
    | false => pure none)
  match ← Program.query (.charge request.runId) with
  | some refused => .fail (.other refused)
  | none => do
      let m ← (match existing with
        | some m =>
          if m.requestDigest ≠ request.requestDigest then
            .fail (.other <|
              s!"run id {request.runId} already belongs to a different submission request")
          else pure m
        | none => createManifest request)
      let now ← Program.query .now
      match validateRunManifest m request now with
      | .error e => .fail e
      | .ok planned =>
        Program.foldList (fun accepted index => do
          let job ← submitEntry fuel request index
          pure (accepted ++ [job])) [] (List.range planned.length)

end Stado
