import Mathlib.Algebra.Group.Nat.Defs
import Stado.Library.Machine
import Stado.Queue.Submit

/-!
# The run manifest as it is stored

The document of one run, field by field, its validator, and the three
operations that rewrite its entries under a swap: claiming an entry,
checkpointing it as accepted, and retaining its terminal outcome.

A field is what reading it answers: a text field holds its text, and nothing
where it is missing or no text. A field that nothing here reads is left out.
-/

namespace Stado

/-- The state as a manifest stores it. -/
def EntryState.word : EntryState → String
  | .planned => "planned"
  | .claimed => "claimed"
  | .enqueuing => "enqueuing"
  | .accepted => "accepted"
  | .terminal => "terminal"
  | .reaped => "reaped"

def EntryState.ofWord (word : String) : Option EntryState :=
  [EntryState.planned, .claimed, .enqueuing, .accepted, .terminal, .reaped].find?
    fun state => state.word = word

@[simp] theorem EntryState.ofWord_word (state : EntryState) : ofWord state.word = some state := by
  cases state <;> decide

namespace Manifests

/-! ## The document -/

/-- A retained outcome: whether its fields are the three it has, and what they
hold. Reading its job answers the job or why it is none. -/
structure Outcome where
  fieldsExact : Bool
  toPrefix : Option String
  recordedAt : Option String
  job : Option (Except String Job)

/-- The `outcome` field of an entry. -/
inductive OutcomeField where
  | absent
  | notObject
  | object (outcome : Outcome)

def OutcomeField.object? : OutcomeField → Option Outcome
  | .object outcome => some outcome
  | .absent | .notObject => none

structure Entry where
  commandIndex : Option ℕ
  command : Option String
  jobKey : Option String
  jobId : Option String
  plannedJob : Option (Except String Job)
  state : Option String
  owner : Option String
  ownerHost : Option String
  ownerPid : Option ℕ
  leaseExpiresAt : Option String
  acceptedAt : Option String
  outcome : OutcomeField

/-- The manifest; `obsolete` are the field names it has. -/
structure Manifest (Request : Type) where
  schema : Option String
  runId : Option String
  requestDigest : Option String
  request : Option Request
  obsolete : List String
  createdAt : Option String
  submittedBy : Option String
  submittedFrom : Option String
  submitterApp : Option String
  sourceDigest : Option String
  inputDigest : Option String
  migratedFromV2RequestDigest : Option String
  entries : Option (List Entry)

structure SubmissionProvenance where
  createdAt : String
  submittedBy : String
  submittedFrom : String
  submitterApp : String

/-- How a request is read and its plan derived, and how instants are written:
an instant that is written reads back. -/
structure Derivation (Request Options Hardware : Type) where
  digestValue : Request → String
  schema : Request → Option String
  commands : Request → Option (List (Option String))
  options : Request → Option (Except String Options)
  resolvedHardware : Request → Option (Except String (List Hardware))
  submissionSourceDigest : Options → String
  submissionInputDigest : List String → Options → String
  submissionJobKey : String → ℕ → String → String
  jobIdFromKey : String → String
  buildPlannedJob : String → Options → String → Hardware → SubmissionProvenance → Job
  instant : String → Except String ℕ
  rfc3339 : ℕ → String
  instant_rfc3339 : ∀ now, instant (rfc3339 now) = .ok now

/-! ## Validation -/

section Validation

variable {Request Options Hardware : Type} [DecidableEq Request]
  (d : Derivation Request Options Hardware)

def refuse {α : Type} (reason : String) : Except StorageError α := .error (.other reason)

/-- What is there, or a refusal. -/
def orRefuse {α : Type} (found : Option α) (reason : String) : Except StorageError α :=
  match found with
  | some a => .ok a
  | none => refuse reason

def refuseIf (condition : Bool) (reason : String) : Except StorageError Unit :=
  if condition then refuse reason else .ok ()

def readAs {α : Type} (what : String) (read : Except String α) : Except StorageError α :=
  match read with
  | .ok a => .ok a
  | .error e => refuse s!"{what}: {e}"

/-- What the entries of a manifest are held to. -/
structure Plan (Options Hardware : Type) where
  runId : String
  requestDigest : String
  commands : List String
  options : Options
  hardware : List Hardware
  provenance : SubmissionProvenance
  createdAt : ℕ

def lowercaseSha256Hex (value : String) : Bool :=
  value.length = 64 && value.toList.all fun c => c.isDigit || ('a' ≤ c && c ≤ 'f')

def refuseObsolete (runId : String) (fields : List String) : Except StorageError Unit :=
  match ["n_jobs", "job_ids", "commands"].find? (· ∈ fields) with
  | some obsolete => refuse s!"run id {runId} retained obsolete parallel manifest field {obsolete}"
  | none => .ok ()

/-- The manifest without its entries: it is of this request, and its digests
are those of the request's plan. -/
def readPlan (m : Manifest Request) (runId : String) (request : Request) (requestDigest : String) :
    Except StorageError (Plan Options Hardware) := do
  let _ ← refuseIf (m.schema ≠ some "stado.run-submission.v3" ∨ m.runId ≠ some runId ∨
      m.requestDigest ≠ some requestDigest ∨ m.request ≠ some request)
    s!"run id {runId} already belongs to a different or legacy submission request"
  let _ ← refuseIf (d.schema request ≠ some "stado.submission-request.v3")
    s!"run id {runId} requires explicit request-plan migration"
  let _ ← refuseObsolete runId m.obsolete
  let commands ← orRefuse (d.commands request) "submission request commands are missing"
  let commands ← commands.mapM fun command =>
    orRefuse command "submission command is not a string"
  let options ← orRefuse (d.options request) "submission request options are missing"
  let options ← readAs "invalid submission options" options
  let hardware ← orRefuse (d.resolvedHardware request) "submission request hardware plan is missing"
  let hardware ← readAs "invalid submission hardware plan" hardware
  let _ ← refuseIf (hardware.length ≠ commands.length)
    s!"run id {runId} has an incomplete submission hardware plan"
  let required := fun (field : Option String) (name : String) =>
    orRefuse field s!"run manifest {runId} is missing {name}"
  let created ← required m.createdAt "created_at"
  let submittedBy ← required m.submittedBy "submitted_by"
  let submittedFrom ← required m.submittedFrom "submitted_from"
  let submitterApp ← required m.submitterApp "submitter_app"
  let provenance : SubmissionProvenance := ⟨created, submittedBy, submittedFrom, submitterApp⟩
  let createdAt ← orRefuse (d.instant provenance.createdAt).toOption
    s!"run manifest {runId} has invalid created_at"
  let _ ← refuseIf (m.sourceDigest ≠ some (d.submissionSourceDigest options) ∨
      m.inputDigest ≠ some (d.submissionInputDigest commands options))
    s!"run id {runId} has corrupt source or input digests"
  .ok ⟨runId, requestDigest, commands, options, hardware, provenance, createdAt⟩

/-- The planned job of an entry, which is the one its request derives. A run
migrated from v2 keeps the job identities that request gave it, and each of
its jobs its own creation time. -/
def derivedJob (plan : Plan Options Hardware) (legacy : Option String) (index : ℕ)
    (command : String) (hardware : Hardware) (entry : Entry) : Except StorageError Job := do
  let key := d.submissionJobKey plan.requestDigest index command
  let identityDigest := legacy.getD plan.requestDigest
  let jobId := d.jobIdFromKey (d.submissionJobKey identityDigest index command)
  let _ ← refuseIf (entry.commandIndex ≠ some index ∨ entry.command ≠ some command ∨
      entry.jobKey ≠ some key ∨ entry.jobId ≠ some jobId)
    s!"run id {plan.runId} has a corrupt command-to-job mapping at index {index}"
  let planned ← orRefuse entry.plannedJob "run entry has no planned job"
  let job ← readAs "invalid planned job" planned
  let provenance := match legacy with
    | some _ => { plan.provenance with createdAt := job.submission.createdAt }
    | none => plan.provenance
  let built := d.buildPlannedJob command plan.options jobId hardware provenance
  let expected : Job :=
    { built with
      submission :=
        { built.submission with
          submissionRequestDigest := identityDigest
          submissionCommandIndex := some index } }
  let _ ← refuseIf (expected ≠ job)
    s!"run id {plan.runId} has a planned job not derivable from its request at index {index}"
  .ok job

def recordedText (value what : String) : Except StorageError ℕ :=
  match d.instant value with
  | .ok at_ => .ok at_
  | .error e => refuse s!"{what} {value} is not RFC 3339: {e}"

def terminalPrefix (word : String) : Option Prefix :=
  terminalPrefixes.find? fun p => p.asStr = word

/-- The retained job ended between the run's creation and the outcome's
recording, in the one way its prefix says. -/
def endedWithin (p : Prefix) (terminal : Job) (createdAt recordedAt : ℕ) :
    Except StorageError Unit := do
  let stamp ← orRefuse (endedAt p terminal)
    "terminal retained job has contradictory terminal timestamps"
  let terminalAt ← recordedInstant stamp "terminal retained job timestamp"
  refuseIf (terminalAt < createdAt ∨ recordedAt < terminalAt)
    "terminal retained job timestamp is outside the outcome lifetime"

def terminalOutcome (plan : Plan Options Hardware) (now index : ℕ) (job : Job)
    (outcomeJob : Option Job) (outcome : OutcomeField) : Except StorageError Unit := do
  let outcome ← orRefuse outcome.object? "terminal entry has no outcome"
  let _ ← refuseIf (!outcome.fieldsExact) "terminal entry outcome has invalid fields"
  let word ← orRefuse outcome.toPrefix "terminal outcome prefix is not text"
  let terminal ← orRefuse outcomeJob "terminal entry has no retained job"
  let p ← orRefuse ((terminalPrefix word).filter fun p => terminal.state = prefixState p)
    "terminal entry prefix and retained job state disagree"
  let recorded ← orRefuse outcome.recordedAt "terminal outcome recorded_at is not text"
  let recordedAt ← recordedText d recorded "terminal outcome recorded_at"
  let _ ← refuseIf (recordedAt < plan.createdAt ∨ now < recordedAt)
    "terminal outcome recorded_at is outside the run lifetime"
  let _ ← endedWithin p terminal plan.createdAt recordedAt
  refuseIf (¬ terminalJobMatchesEntry terminal job plan.runId index)
    s!"stable job key {job.jobId} belongs to different submission content"

/-- An entry proved to be the plan of its request. -/
structure ManifestEntry where
  plannedJob : Job
  state : EntryState
  outcomeJob : Option Job

def outcomeJob (outcome : OutcomeField) : Except StorageError (Option Job) :=
  match outcome.object?.bind Outcome.job with
  | none => .ok none
  | some read => (readAs "invalid terminal outcome" read).map some

def checkOutcome (plan : Plan Options Hardware) (now index : ℕ) (job : Job) (state : EntryState)
    (retained : Option Job) (outcome : OutcomeField) : Except StorageError Unit :=
  if state.ended then terminalOutcome d plan now index job retained outcome
  else refuseIf retained.isSome "non-terminal entry unexpectedly carries an outcome"

def validateEntry (plan : Plan Options Hardware) (legacy : Option String) (now index : ℕ)
    (command : String) (hardware : Hardware) (entry : Entry) :
    Except StorageError ManifestEntry := do
  let job ← derivedJob d plan legacy index command hardware entry
  let word ← orRefuse entry.state "run entry state is missing"
  let state ← orRefuse (EntryState.ofWord word)
    s!"run id {plan.runId} has invalid entry state {word}"
  let retained ← outcomeJob entry.outcome
  let _ ← checkOutcome d plan now index job state retained entry.outcome
  .ok ⟨job, state, retained⟩

def validateEntries (plan : Plan Options Hardware) (legacy : Option String) (now : ℕ) :
    ℕ → List Entry → List (String × Hardware) → Except StorageError (List ManifestEntry)
  | index, entry :: entries, (command, hardware) :: rows => do
      let validated ← validateEntry d plan legacy now index command hardware entry
      let rest ← validateEntries plan legacy now (index + 1) entries rows
      .ok (validated :: rest)
  | _, _, _ => .ok []

def validateRunManifest (m : Manifest Request) (runId : String) (request : Request)
    (requestDigest : String) (now : ℕ) : Except StorageError (List ManifestEntry) := do
  let plan ← readPlan d m runId request requestDigest
  let entries ← orRefuse m.entries "run manifest entries are missing"
  let _ ← refuseIf (entries.length ≠ plan.commands.length)
    s!"run id {runId} has {entries.length} entries for {plan.commands.length} commands"
  let _ ← refuseIf (m.migratedFromV2RequestDigest.any fun digest => !lowercaseSha256Hex digest)
    s!"run id {runId} has an invalid v2 identity digest"
  validateEntries d plan m.migratedFromV2RequestDigest now 0 entries
    (plan.commands.zip plan.hardware)

def validateStoredRunManifest (m : Manifest Request) (runId : String) (now : ℕ) :
    Except StorageError Unit := do
  let request ← orRefuse m.request "run manifest request is missing"
  let _ ← validateRunManifest d m runId request (d.digestValue request) now
  .ok ()

end Validation

/-! ## The operations -/

section Operations

variable {Request Options Hardware : Type}

namespace Manifest

variable (m : Manifest Request)

def entry (index : ℕ) : Option Entry := m.entries.bind fun entries => entries[index]?

def setEntry (index : ℕ) (entry : Entry) : Manifest Request :=
  { m with entries := m.entries.map fun entries => entries.set index entry }

end Manifest

/-- A process as an entry names it. -/
structure Process where
  host : String
  pid : ℕ

/-- What can be learned at one instant: the clock, the process that asks, and
what it can say of another one. -/
structure Surroundings where
  now : ℕ
  process : Process
  ownerState : Process → OwnerState

/-- The process holding a claimed entry, when it still holds it. -/
def liveHolder (d : Derivation Request Options Hardware) (s : Surroundings) (entry : Entry) :
    Option String :=
  match entry.ownerPid with
  | none =>
    match entry.leaseExpiresAt with
    | none => none
    | some stamp =>
      match d.instant stamp with
      | .ok expires =>
        if s.now < expires then some s!"a submission whose lease runs to {expires}" else none
      | .error e =>
        some (s!"a submission whose lease_expires_at {stamp} is not a time ({e}); " ++
          "it is not taken over on a guess")
  | some pid =>
    if 2 ^ 32 ≤ pid then
      some (s!"a submission whose owner_pid {pid} is not a process id; " ++
        "it is not taken over on a guess")
    else
      match entry.ownerHost with
      | none =>
        some (s!"a submission by process {pid} on a host the record does not name; " ++
          "it is not taken over on a guess")
      | some host =>
        match s.ownerState ⟨host, pid⟩ with
        | .gone => none
        | .this | .running | .elsewhere => some s!"pid {pid} on {host}"

/-- The identity of one submission. -/
structure SubmissionContext (Request : Type) where
  runId : String
  request : Request
  requestDigest : String
  owner : String

inductive Operation (Request : Type) where
  | claimEntry (ctx : SubmissionContext Request) (index : ℕ)
  | checkpointAccepted (ctx : SubmissionContext Request) (index : ℕ) (jobId : String)
  | recordTerminalOutcome (job : Job) (toPrefix : Prefix)

/-- What an operation ends with. A record of a job without submission identity
is skipped. -/
inductive Answer where
  | owned (job : Job)
  | accepted (job : Job)
  | terminal (job : Job)
  | checkpointed
  | retained
  | skipped
  | refused (reason : StorageError)
  | failed

/-- What an operation does about the manifest it read: it ends, it finds the
outcome retained, or it swaps in another one. -/
inductive Decision (Request : Type) where
  | ends (answer : Answer)
  | found
  | swap (next : Manifest Request)

variable [DecidableEq Request] (d : Derivation Request Options Hardware)

/-- An entry taken for a submission. -/
def Entry.claimedBy (entry : Entry) (owner : String) (process : Process) : Entry :=
  { entry with
    state := some EntryState.claimed.word
    owner := some owner
    ownerHost := some process.host
    ownerPid := some process.pid
    leaseExpiresAt := none }

/-- The live holder of an entry claimed by another owner. An entry with no owner
is nobody's. -/
def heldByAnother (owner : String) (s : Surroundings) (state : EntryState) (entry : Entry) :
    Option String :=
  if (state = .claimed ∨ state = .enqueuing) ∧ entry.owner.any fun heldBy => heldBy ≠ owner then
    liveHolder d s entry
  else none

def claimEntry (ctx : SubmissionContext Request) (index : ℕ) (s : Surroundings)
    (m : Manifest Request) : Decision Request :=
  match validateRunManifest d m ctx.runId ctx.request ctx.requestDigest s.now with
  | .error e => .ends (.refused e)
  | .ok validated =>
    match validated[index]?, m.entry index with
    | some current, some entry =>
      if current.state = .accepted then .ends (.accepted current.plannedJob)
      else if current.state.ended then
        match current.outcomeJob with
        | some job => .ends (.terminal job)
        | none =>
          .ends (.refused (.other "an ended run checkpoint entry names no outcome job"))
      else
        match heldByAnother d ctx.owner s current.state entry with
        | some holder =>
          .ends (.refused (.other <|
            s!"run {ctx.runId} command {index} is being submitted by another owner " ++
              s!"({holder})"))
        | none => .swap (m.setEntry index (entry.claimedBy ctx.owner s.process))
    | _, _ => .ends (.refused (.other "run checkpoint entry is missing"))

def Entry.enqueued (entry : Entry) : Entry :=
  { entry with state := some EntryState.enqueuing.word }

def enqueuing (index : ℕ) (claimed : Manifest Request) : Manifest Request :=
  match claimed.entry index with
  | some entry => claimed.setEntry index entry.enqueued
  | none => claimed

/-- An entry whose planned job was accepted. -/
def Entry.acceptedAs (entry : Entry) (now : String) : Entry :=
  { entry with
    state := some EntryState.accepted.word
    acceptedAt := some now
    owner := none
    ownerHost := none
    ownerPid := none
    leaseExpiresAt := none }

def checkpointAccepted (ctx : SubmissionContext Request) (index : ℕ) (jobId : String)
    (s : Surroundings) (m : Manifest Request) : Decision Request :=
  match validateRunManifest d m ctx.runId ctx.request ctx.requestDigest s.now with
  | .error e => .ends (.refused e)
  | .ok validated =>
    match validated[index]?, m.entry index with
    | some current, some entry =>
      if current.state = .accepted ∨ current.state.ended then .ends .checkpointed
      else if entry.jobId ≠ some jobId ∨ entry.state ≠ some EntryState.enqueuing.word ∨
          entry.owner ≠ some ctx.owner then
        .ends (.refused (.other "run checkpoint ownership changed before acceptance"))
      else
        .swap (m.setEntry index (entry.acceptedAs (d.rfc3339 s.now)))
    | _, _ => .ends (.refused (.other "run checkpoint entry is missing"))

def retainedOutcome (job : Job) (toPrefix : Prefix) (now : ℕ) : OutcomeField :=
  .object ⟨true, some toPrefix.asStr, some (d.rfc3339 now), some (.ok job)⟩

def Entry.endedWith (entry : Entry) (outcome : OutcomeField) : Entry :=
  { entry with
    state := some EntryState.terminal.word
    owner := none
    leaseExpiresAt := none
    outcome := outcome }

/-- One pass of the retention over the manifest it read, for the entry at an
index. -/
def retainAt (runId : String) (index : ℕ) (job : Job) (toPrefix : Prefix) (s : Surroundings)
    (m : Manifest Request) : Decision Request :=
  match validateStoredRunManifest d m runId s.now with
  | .error e => .ends (.refused e)
  | .ok () =>
    if m.schema ≠ some "stado.run-submission.v3" then
      .ends (.refused (.other
        s!"durable run manifest {runId} does not match terminal job {job.jobId}"))
    else
      match m.entry index with
      | none =>
        .ends (.refused (.other s!"durable run manifest {runId} has no entry {index}"))
      | some entry =>
        if entry.jobId ≠ some job.jobId then
          .ends (.refused (.other
            s!"durable run manifest {runId} maps entry {index} to a different job"))
        else
          match entry.plannedJob with
          | none => .ends (.refused (.other "durable run entry has no planned job"))
          | some (.error e) => .ends (.refused (.other e))
          | some (.ok planned) =>
            if ¬ terminalJobMatchesEntry job planned runId index then
              .ends (.refused (.other
                s!"terminal job {job.jobId} does not match its immutable run projection"))
            else if entry.state = some EntryState.reaped.word then .found
            else
              match entry.outcome with
              | .absent =>
                .swap (m.setEntry index
                  (entry.endedWith (retainedOutcome d job toPrefix s.now)))
              | .notObject =>
                .ends (.refused (.other
                  s!"terminal outcome for job {job.jobId} changed"))
              | .object outcome =>
                match outcome.job with
                | some (.error e) => .ends (.refused (.other e))
                | some (.ok existing) =>
                  if outcome.toPrefix = some toPrefix.asStr ∧ existing = job then .found
                  else
                    .ends (.refused (.other
                      s!"terminal outcome for job {job.jobId} changed"))
                | none =>
                  .ends (.refused (.other
                    s!"terminal outcome for job {job.jobId} changed"))

/-- Retain an exact terminal job; one without submission identity has no
manifest to retain it in. -/
def recordTerminalOutcome (job : Job) (toPrefix : Prefix) (s : Surroundings)
    (m : Manifest Request) : Decision Request :=
  if ¬ toPrefix.terminal then
    .ends (.refused (.other s!"{toPrefix.asStr} is not a terminal job prefix"))
  else
    match job.submission.submissionCommandIndex with
    | none => .ends .skipped
    | some index =>
      if job.submission.runId = "" ∨ job.submission.submissionRequestDigest = "" then
        .ends .skipped
      else if ¬ validRunId job.submission.runId then
        .ends (.refused (.other "run id must be ASCII letters, digits, '.', '_' or '-'"))
      else retainAt d job.submission.runId index job toPrefix s m

def Operation.decide (op : Operation Request) (s : Surroundings) (m : Manifest Request) :
    Decision Request :=
  match op with
  | .claimEntry ctx index => Manifests.claimEntry d ctx index s m
  | .checkpointAccepted ctx index jobId => Manifests.checkpointAccepted d ctx index jobId s m
  | .recordTerminalOutcome job toPrefix => Manifests.recordTerminalOutcome d job toPrefix s m

def Operation.runId : Operation Request → String
  | .claimEntry ctx _ | .checkpointAccepted ctx _ _ => ctx.runId
  | .recordTerminalOutcome job _ => job.submission.runId

end Operations

/-! ## Clients -/

section Clients

variable {Request Options Hardware : Type}

/-- Where a client stands with its operation. A claim is `taking` its entry
when it makes its second swap; a record that has found or stored its outcome
is `indexing`. -/
inductive Phase (Request : Type) where
  | idle
  | reading (op : Operation Request)
  | deciding (op : Operation Request) (read : Manifest Request) (version : ℕ)
  | swapping (op : Operation Request) (next : Manifest Request) (version : ℕ)
  | taking (op : Operation Request) (next : Manifest Request) (version : ℕ)
  | indexing (op : Operation Request)
  | done (op : Operation Request) (answer : Answer)

/-- The manifest of run `runId` at its version, the index of retained jobs, and
the clients. -/
structure World (Request : Type) where
  runId : String
  clock : ℕ
  manifest : Manifest Request
  version : ℕ
  retained : List (String × String)
  clients : ℕ → Phase Request

namespace World

def start (runId : String) (m : Manifest Request) (clock : ℕ) : World Request :=
  ⟨runId, clock, m, 0, [], fun _ => .idle⟩

variable (w : World Request)

def move (client : ℕ) (phase : Phase Request) : World Request :=
  { w with clients := Function.update w.clients client phase }

def store (next : Manifest Request) : World Request :=
  { w with manifest := next, version := w.version + 1 }

end World

/-- What a call comes back with: its answer, an error after it took effect, or
an error without effect. -/
inductive Reply where
  | answered | lost | failed

inductive Event (Request : Type) where
  | wait (ticks : ℕ)
  | call (client : ℕ) (op : Operation Request)
  | read (client : ℕ)
  | unread (client : ℕ)
  | decide (client : ℕ) (process : Process) (ownerState : Process → OwnerState)
  | swap (client : ℕ) (reply : Reply)
  | index (client : ℕ) (reply : Reply)

def plannedJob (m : Manifest Request) (index : ℕ) : Option Job :=
  match (m.entry index).bind Entry.plannedJob with
  | some (.ok job) => some job
  | _ => none

/-- What follows the first swap of an operation. -/
def swapped (w : World Request) (client : ℕ) (op : Operation Request)
    (next : Manifest Request) : World Request :=
  match op with
  | .claimEntry _ index => w.move client (.taking op (enqueuing index next) w.version)
  | .checkpointAccepted _ _ _ => w.move client (.done op .checkpointed)
  | .recordTerminalOutcome _ _ => w.move client (.indexing op)

/-- What a claim ends with once its second swap took effect. -/
def taken (w : World Request) (client : ℕ) (op : Operation Request) (next : Manifest Request) :
    World Request :=
  match op with
  | .claimEntry _ index =>
    match plannedJob next index with
    | some job => w.move client (.done op (.owned job))
    | none => w.move client (.done op .failed)
  | .checkpointAccepted _ _ _ | .recordTerminalOutcome _ _ => w.move client (.done op .failed)

/-- `create_text_if_absent` of the index row of a retained job. -/
def indexed (w : World Request) : Operation Request → World Request
  | .recordTerminalOutcome job _ =>
    if (w.retained.lookup job.jobId).isSome then w
    else { w with retained := (job.jobId, job.submission.runId) :: w.retained }
  | .claimEntry _ _ | .checkpointAccepted _ _ _ => w

variable [DecidableEq Request] (d : Derivation Request Options Hardware)

def step (w : World Request) : Event Request → Option (World Request)
  | .wait ticks => some { w with clock := w.clock + ticks }
  | .call client op =>
    match w.clients client with
    | .idle | .done _ _ =>
      if op.runId = w.runId then some (w.move client (.reading op)) else none
    | _ => none
  | .read client =>
    match w.clients client with
    | .reading op => some (w.move client (.deciding op w.manifest w.version))
    | _ => none
  | .unread client =>
    match w.clients client with
    | .reading op => some (w.move client (.done op .failed))
    | _ => none
  | .decide client process ownerState =>
    match w.clients client with
    | .deciding op read version =>
      match op.decide d ⟨w.clock, process, ownerState⟩ read with
      | .ends answer => some (w.move client (.done op answer))
      | .found => some (w.move client (.indexing op))
      | .swap next => some (w.move client (.swapping op next version))
    | _ => none
  | .swap client reply =>
    match w.clients client with
    | .swapping op next version =>
      match reply with
      | .failed => some (w.move client (.done op .failed))
      | .answered | .lost =>
        if version = w.version then
          match reply with
          | .answered => some (swapped (w.store next) client op next)
          | .lost | .failed => some ((w.store next).move client (.done op .failed))
        else some (w.move client (.reading op))
    | .taking op next version =>
      match reply with
      | .failed => some (w.move client (.done op .failed))
      | .answered | .lost =>
        if version = w.version then
          match reply with
          | .answered => some (taken (w.store next) client op next)
          | .lost | .failed => some ((w.store next).move client (.done op .failed))
        else some (w.move client (.reading op))
    | _ => none
  | .index client reply =>
    match w.clients client with
    | .indexing op =>
      match reply with
      | .answered => some ((indexed w op).move client (.done op .retained))
      | .lost => some ((indexed w op).move client (.done op .failed))
      | .failed => some (w.move client (.done op .failed))
    | _ => none

end Clients

end Manifests

end Stado
