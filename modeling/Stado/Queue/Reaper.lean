import Stado.Queue.Lifecycle

/-!
# The phantom-job reaper

One running job's expiry decision. The promise its worker wrote into the
running document is the authority, what the job wrote after that promise
defers it, and the version-pinned move follows: a renewal between the read and
the move changes the version, so the move loses to it.
-/

namespace Stado

open CasStore

def leaseExpiredReason : String := "worker lease expired"

def workerReplacedReason : String := "its worker was replaced while it ran"

/-- One more on a counter, which stays at the largest value of its type. -/
def tally (count : Int) : Int := min (count + 1) 9223372036854775807

def lossKind (text : String) : String :=
  let head := text.toList.takeWhile (· ≠ '(')
  String.ofList ((head.dropWhile Char.isWhitespace).reverse.dropWhile Char.isWhitespace).reverse

/-- Why a job is not put back: its submitter starts its own launches, or the
same loss had already put it back once. -/
def restartRefusal (job : Job) (reason : String) : Option String :=
  if job.submission.submitterRestarts then
    some s!"{reason}; its submitter starts every new launch itself"
  else
    (job.error.filter fun previous => lossKind previous = lossKind reason).map fun previous =>
      s!"{reason}, after the same loss had already put it back once ({previous})"

/-- What a running job's own record says about whether it is alive. -/
inductive JobLiveness where
  | promised (expires : Nat)
  | writtenAfter (expires : Nat)
  | lapsed (expires : Nat)
  | unpromised
deriving DecidableEq

/-- The verdict for one running job at `now`. -/
def jobLiveness (job : Job) (now : Nat) : Storage JobLiveness :=
  match job.leaseExpiresAt.bind Stamp.read with
  | none => pure .unpromised
  | some expires =>
    if now < expires then pure (.promised expires)
    else do
      match ← Program.query (.writtenAfter job.jobId expires) with
      | true => pure (.writtenAfter expires)
      | false => pure (.lapsed expires)

/-- The status blobs of a job. -/
def statusLeaves : List String := ["status", "heartbeat"]

def cleanupStatus (jobId : String) : Storage Unit :=
  Program.each (fun leaf => Program.perform .cleanupStatus (.delete (.status jobId leaf)))
    statusLeaves

/-- A job that declares that it stops the agent running it is done when the
agent is gone, and is moved to `completed/`. -/
def finalizeIfSelfTerminating (fuel : Nat) (job : Job) : Storage Bool :=
  if ¬ job.submission.terminatesAgent then pure false
  else do
    let now ← Program.query .now
    let completed :=
      { job with
        state := .completed
        completedAt := some (.instant now)
        instanceRef := none }
    let _ ← moveJob fuel completed .running .completed
    let _ ← cleanupStatus job.jobId
    pure true

/-- What one pass did. -/
structure ReaperSummary where
  requeued : Nat
  failed : Nat
  releaseCompletions : Nat
  unreadable : Nat
  unpromised : Nat
deriving DecidableEq

/-- The job as verified release output ended it. -/
def releasedJob (job : Job) (completedAt : Stamp) : Job :=
  { job with
    state := .completed
    completedAt := some completedAt
    failedAt := none
    error := none }

/-- The job as the same loss repeated fails it. -/
def refusedJob (job : Job) (now : Nat) (reason : String) : Job :=
  { job with
    state := .failed
    failedAt := some (.instant now)
    error := some reason }

/-- The job as its first loss puts it back. -/
def requeuedJob (job : Job) (now : Nat) (reason : String) : Job :=
  { job with
    restarts := tally job.restarts
    state := .queued
    instanceRef := none
    startedAt := none
    lastRestart := some (.instant now)
    error := some reason
    assignedTo := if job.submission.pinnedHost = "" then "" else job.assignedTo }

/-- Settle a running job whose worker is gone: completed from verified release
output, failed on the same loss repeated, else requeued once. -/
def settle (fuel : Nat) (job : Job) (version now : Nat) (reason : String)
    (summary : ReaperSummary) : Storage ReaperSummary := do
  match ← finalizeIfSelfTerminating fuel job with
  | true => pure summary
  | false => do
      let verified ← (match job.startedAt.bind Stamp.read with
        | none => pure none
        | some _ => do
            match ← Program.query (.verifiedRelease job.jobId) with
            | .error e => .fail e
            | .ok verified => pure verified)
      match verified with
      | some completedAt => do
          match ← moveJobIfVersion fuel (releasedJob job completedAt) .running .completed
              version with
          | true => pure { summary with releaseCompletions := summary.releaseCompletions + 1 }
          | false => pure summary
      | none =>
        match restartRefusal job reason with
        | some _ => do
            match ← moveJobIfVersion fuel (refusedJob job now reason) .running .failed
                version with
            | true => pure { summary with failed := summary.failed + 1 }
            | false => pure summary
        | none => do
            match ← moveJobIfVersion fuel (requeuedJob job now reason) .running .queue
                version with
            | true => do
                let _ ← cleanupStatus job.jobId
                pure { summary with requeued := summary.requeued + 1 }
            | false => pure summary

/-- Reap one running job whose worker's promise has passed with nothing written
since. -/
def reapOne (fuel : Nat) (jobId : String) (now : Nat) (summary : ReaperSummary) :
    Storage ReaperSummary := do
  let _ ← recoverJobTransition fuel jobId none
  match ← readVersioned (.expiryRead jobId) .running jobId with
  | none => pure summary
  | some (job, version) =>
    if job.state ≠ .running then do
      let _ ← recoverJobTransition fuel jobId none
      pure summary
    else
      match ← jobLiveness job now with
      | .lapsed _ => settle fuel job version now leaseExpiredReason summary
      | .unpromised => pure { summary with unpromised := summary.unpromised + 1 }
      | .promised _ => pure summary
      | .writtenAfter _ => pure summary

/-- Reap one job, and on failure count it, so the pass goes on. -/
def reapOrReport (fuel : Nat) (now : Nat) (summary : ReaperSummary) (jobId : String) :
    Storage ReaperSummary := do
  match ← (reapOne fuel jobId now summary).attempt with
  | .ok summary => pure summary
  | .error _ => pure { summary with unreadable := summary.unreadable + 1 }

/-- The expiry decision for named running jobs. -/
def reapNamed (fuel : Nat) (jobIds : List String) : Storage ReaperSummary := do
  let now ← Program.query .now
  Program.foldList (reapOrReport fuel now) ⟨0, 0, 0, 0, 0⟩ (jobIds.filter (· ≠ ""))

/-- The expiry pass over every running job. -/
def reapExpiredLeases (fuel : Nat) : Storage ReaperSummary := do
  let now ← Program.query .now
  let jobIds ← listJobIds .running
  Program.foldList (reapOrReport fuel now) ⟨0, 0, 0, 0, 0⟩ (jobIds.filter (· ≠ ""))

/-- Release one running job that names the worker this one replaced, when no
process of it is left. -/
def releaseLeftBehindOne (fuel : Nat) (instanceRef : String) (now : Nat)
    (summary : ReaperSummary) (jobId : String) : Storage ReaperSummary := do
  let _ ← recoverJobTransition fuel jobId none
  match ← readVersioned (.expiryRead jobId) .running jobId with
  | none => pure summary
  | some (job, version) =>
    if job.state ≠ .running ∨ job.instanceRef ≠ some instanceRef then pure summary
    else
      match ← Program.query (.stillRunning jobId) with
      | .ok [] => settle fuel job version now workerReplacedReason summary
      | .ok _ => pure summary
      | .error _ => pure summary

def releaseLeftBehind (fuel : Nat) (instanceRef : String) : Storage ReaperSummary := do
  let now ← Program.query .now
  let jobIds ← listJobIds .running
  Program.foldList (releaseLeftBehindOne fuel instanceRef now) ⟨0, 0, 0, 0, 0⟩ jobIds

end Stado
