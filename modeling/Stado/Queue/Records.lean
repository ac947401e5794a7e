import Mathlib.Data.List.Basic

/-!
# Job records

The job document and the durable transition record, with the merge that
decides what a lifecycle move may carry from one document to the next.

A digest is modelled by what it digests: a transition id is the tuple of the
fields hashed into it, and the digest of a source document is the document.
Two of them are equal exactly when the digested texts are, so the model has no
collisions. A timestamp is the instant it names, or a text that names none.
-/

namespace Stado

/-! ## Lifecycle prefixes -/

/-- One lifecycle prefix each. `queue` is the prefix, not the state: a job
under it reports `queued`. -/
inductive Prefix where
  | queue | running | completed | uploaded | failed | cancelled
deriving DecidableEq

namespace Prefix

def asStr : Prefix → String
  | .queue => "queue"
  | .running => "running"
  | .completed => "completed"
  | .uploaded => "uploaded"
  | .failed => "failed"
  | .cancelled => "cancelled"

/-- A job under this prefix can no longer leave it. -/
def terminal : Prefix → Bool
  | .completed | .uploaded | .failed | .cancelled => true
  | .queue | .running => false

end Prefix

/-- Prefixes a job can no longer leave. -/
def terminalPrefixes : List Prefix := [.completed, .uploaded, .failed, .cancelled]

/-- Every prefix a member job can sit in, in probe order. -/
def allPrefixes : List Prefix := [.queue, .running, .completed, .uploaded, .failed, .cancelled]

/-- The prefixes in the order a job is looked up in: destinations precede
`queue`, so a retained source fence cannot mask the newer state. -/
def jobPrefixes : List Prefix := [.cancelled, .failed, .uploaded, .completed, .running, .queue]

theorem mem_terminalPrefixes {p : Prefix} : p ∈ terminalPrefixes ↔ p.terminal = true := by
  cases p <;> decide

/-- The errors of the storage layer. `backend` is whatever a call that never
came back raises. -/
inductive StorageError where
  | storageConflict (reason : String)
  | notFound (path : String)
  | other (reason : String)
  | backend
deriving DecidableEq, Repr

/-! ## The job document -/

/-- An RFC 3339 text: the instant it names, or a text that does not parse. -/
inductive Stamp where
  | instant (at_ : Nat)
  | unreadable (text : String)
deriving DecidableEq, Repr

/-- The instant of a timestamp that parses. -/
def Stamp.read : Stamp → Option Nat
  | .instant n => some n
  | .unreadable _ => none

/-- The immutable submission projection: every field of a job that no step
after admission rewrites. `request` stands for the fields of it that nothing
here reads one by one. -/
structure Submission where
  jobId : String
  command : String
  createdAt : String
  runId : String
  submissionRequestDigest : String
  submissionCommandIndex : Option Nat
  submitterRestarts : Bool
  terminatesAgent : Bool
  pinnedHost : String
  yieldable : Bool
  yieldCommand : String
  request : String
deriving DecidableEq

/-- The fields of a job document without its state. `unread` stands for the
rewritable fields that nothing here reads one by one. -/
structure JobFields where
  submission : Submission
  provider : String
  pinToProvider : Bool
  startedAt : Option Stamp
  completedAt : Option Stamp
  leaseExpiresAt : Option Stamp
  failedAt : Option Stamp
  instanceRef : Option String
  restarts : Int
  lastRestart : Option Stamp
  error : Option String
  preemptCount : Int
  priority : Int
  assignedTo : String
  gpuMemGb : Int
  peakVramGb : Int
  peakVramPerGpu : Bool
  yieldCount : Int
  artifactPaths : List String
  notBefore : Option Stamp
  unread : String
deriving DecidableEq

structure TransitionId where
  jobId : String
  fromPrefix : Prefix
  toPrefix : Prefix
  sourceVersion : Nat
  destination : JobFields
deriving DecidableEq

/-- How a message names a transition. -/
def TransitionId.text (t : TransitionId) : String :=
  s!"{t.jobId}/{t.fromPrefix.asStr}/{t.toPrefix.asStr}/{t.sourceVersion}"

/-- The `state` word of a job document, with the fence a transition stamps on
its source and the sentinel it leaves behind. -/
inductive JobState where
  | queued | running | completed | uploaded | failed | cancelled
  | transitioning (t : TransitionId)
  | transitionCleaned (t : TransitionId)
  | unknown (word : String)
deriving DecidableEq

def isTransitionSentinelState : JobState → Bool
  | .transitioning _ | .transitionCleaned _ => true
  | _ => false

/-- The state starts with the prefix of a cleaned sentinel. -/
def isTransitionCleanedState : JobState → Bool
  | .transitionCleaned _ => true
  | _ => false

def cleanedTransitionId : JobState → Option TransitionId
  | .transitionCleaned t => some t
  | _ => none

/-- The state of a document that stands under a prefix. -/
def prefixState : Prefix → JobState
  | .queue => .queued
  | .running => .running
  | .completed => .completed
  | .uploaded => .uploaded
  | .failed => .failed
  | .cancelled => .cancelled

@[simp] theorem prefixState_ne_transitioning (p : Prefix) (t : TransitionId) :
    prefixState p ≠ .transitioning t := by
  cases p <;> simp [prefixState]

@[simp] theorem prefixState_ne_transitionCleaned (p : Prefix) (t : TransitionId) :
    prefixState p ≠ .transitionCleaned t := by
  cases p <;> simp [prefixState]

@[simp] theorem isTransitionSentinelState_prefixState (p : Prefix) :
    isTransitionSentinelState (prefixState p) = false := by
  cases p <;> rfl

/-- The central job record. -/
structure Job extends JobFields where
  state : JobState
deriving DecidableEq

def Job.jobId (job : Job) : String := job.submission.jobId

def immutableJobProjection (job : Job) : Submission := job.submission

def transitionSchema : String := "stado.job-transition.v1"

/-- Where a durable transition stands. A stored word outside the four was
written outside this state machine and is kept. -/
inductive TransitionState where
  | prepared | completed | aborted | retired
  | unrecognized (word : String)
deriving DecidableEq

def TransitionState.word : TransitionState → String
  | .prepared => "prepared"
  | .completed => "completed"
  | .aborted => "aborted"
  | .retired => "retired:destination-verified-source-retired"
  | .unrecognized word => word

structure JobTransition where
  schema : String
  transitionId : TransitionId
  owner : String
  jobId : String
  fromPrefix : Prefix
  toPrefix : Prefix
  sourceVersion : Nat
  sourceDigest : Job
  destinationVersion : Option Nat
  state : TransitionState
  createdAt : Stamp
  destinationJob : Job
deriving DecidableEq

/-! ## The destination a move promises -/

/-- The fields a requested move carries over the current record. -/
def mergeRequested (destination : JobFields) (requested : Job) (fromPrefix toPrefix : Prefix) :
    JobFields :=
  match toPrefix with
  | .running =>
    { destination with
      startedAt := requested.startedAt
      instanceRef := requested.instanceRef
      leaseExpiresAt := requested.leaseExpiresAt }
  | .queue =>
    if fromPrefix = .running then
      { destination with
        startedAt := requested.startedAt
        instanceRef := requested.instanceRef
        restarts := max destination.restarts requested.restarts
        lastRestart := requested.lastRestart
        error := requested.error
        preemptCount := max destination.preemptCount requested.preemptCount
        yieldCount := max destination.yieldCount requested.yieldCount
        assignedTo := requested.assignedTo }
    else destination
  | .completed | .uploaded | .cancelled =>
    { destination with
      completedAt := requested.completedAt
      instanceRef := requested.instanceRef
      error := requested.error }
  | .failed =>
    { destination with
      failedAt := requested.failedAt
      instanceRef := requested.instanceRef
      error := requested.error }

def mergeTerminal (destination : JobFields) (requested : Job) : JobFields :=
  { destination with
    peakVramGb := max destination.peakVramGb requested.peakVramGb
    peakVramPerGpu := destination.peakVramPerGpu || requested.peakVramPerGpu
    artifactPaths := requested.artifactPaths.foldl
      (fun paths artifact => if artifact ∈ paths then paths else paths ++ [artifact])
      destination.artifactPaths }

/-- The destination document a lifecycle transition promises: the current
record merged with the fields the requested move is allowed to carry. -/
def mergeTransitionDestination (current requested : Job) (fromPrefix toPrefix : Prefix) :
    Except StorageError Job :=
  if immutableJobProjection current ≠ immutableJobProjection requested then
    .error (.storageConflict s!"{current.jobId} immutable submission identity changed")
  else
    -- The worker lease belongs to `running/` and to nothing else.
    let destination := { current.toJobFields with leaseExpiresAt := none }
    let destination := mergeRequested destination requested fromPrefix toPrefix
    let destination :=
      if toPrefix.terminal then mergeTerminal destination requested else destination
    .ok { destination with state := prefixState toPrefix }

theorem mergeRequested_submission (destination : JobFields) (requested : Job)
    (fromPrefix toPrefix : Prefix) :
    (mergeRequested destination requested fromPrefix toPrefix).submission
      = destination.submission := by
  cases toPrefix <;> simp only [mergeRequested]
  split <;> rfl

/-- What a merge answers stands under its destination prefix and is the same
submission. -/
theorem mergeTransitionDestination_ok {current requested destination : Job}
    {fromPrefix toPrefix : Prefix}
    (h : mergeTransitionDestination current requested fromPrefix toPrefix = .ok destination) :
    destination.state = prefixState toPrefix ∧ destination.submission = current.submission ∧
      requested.submission = current.submission := by
  unfold mergeTransitionDestination at h
  split at h
  · cases h
  · next hsame =>
    simp only [ne_eq, not_not, immutableJobProjection] at hsame
    simp only [Except.ok.injEq] at h
    subst h
    refine ⟨rfl, ?_, hsame.symm⟩
    split
    · exact mergeRequested_submission ..
    · exact mergeRequested_submission ..

end Stado
