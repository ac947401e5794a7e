import Stado.Queue.Submit
import Stado.Queue.Reaper

/-!
# The queue as a system of clients

Every operation a client of the queue runs, and the machine that interleaves
any number of them over one store.
-/

namespace Stado

open CasStore

/-- A move between two different prefixes. -/
structure Route where
  fromPrefix : Prefix
  toPrefix : Prefix
  distinct : fromPrefix ≠ toPrefix

/-- What a client of the queue may run. -/
inductive Operation where
  | submit (request : SubmissionRequest)
  | createQueued (job : PlannedJob)
  | repairAdmission (planned : Job)
  | claim (job : Job) (promise : Nat)
  | renew (jobId : String) (promise : Nat)
  | move (job : Job) (route : Route)
  | moveIfVersion (job : Job) (route : Route) (version : Nat)
  | recover (jobId : String)
  | settleCancellations
  | fenceCancellation (jobId : String)
  | updatePriority (jobId : String) (priority : Int)
  | updateGpuMem (jobId : String) (gpuMemGb : Int)
  | updatePlacement (jobId provider : String) (assignedTo : Option String)
      (notBefore : Option Stamp)
  | updateAssignment (jobId assignedTo : String)
  | reap (jobIds : List String)
  | reapExpired
  | releaseLeftBehind (instanceRef : String)
  | sweep (p : Prefix)
  | backfill
  | delete (p : Prefix) (jobId : String)

/-- What an operation answers its caller. -/
inductive Outcome where
  | done
  | answered (b : Bool)
  | found (job : Option Job)
  | jobs (jobs : List Job)
  | counted (n : Nat)
  | swept (sweep : SettledSentinelSweep)
  | reaped (summary : ReaperSummary)
deriving DecidableEq

def Operation.program (op : Operation) (fuel : Nat) : Storage Outcome :=
  match op with
  | .submit request => do pure (.jobs (← Stado.submit fuel request))
  | .createQueued job => do pure (.answered (← createQueuedJobIfAbsent fuel job.val))
  | .repairAdmission planned => do
      let _ ← repairQueuedAdmissionMetadata planned
      pure .done
  | .claim job promise => do pure (.answered (← claimQueuedJob fuel job promise))
  | .renew jobId promise => do pure (.answered (← renewRunningLease fuel jobId promise))
  | .move job route => do
      let _ ← moveJob fuel job route.fromPrefix route.toPrefix
      pure .done
  | .moveIfVersion job route version => do
      pure (.answered (← moveJobIfVersion fuel job route.fromPrefix route.toPrefix version))
  | .recover jobId => do pure (.answered (← recoverJobTransition fuel jobId none))
  | .settleCancellations => do pure (.counted (← settleQueuedCancellations fuel))
  | .fenceCancellation jobId => do
      let _ ← Stado.fenceCancellation jobId
      pure .done
  | .updatePriority jobId priority => do pure (.found (← updateQueuedPriority fuel jobId priority))
  | .updateGpuMem jobId gpuMemGb => do pure (.found (← updateQueuedGpuMem fuel jobId gpuMemGb))
  | .updatePlacement jobId provider assignedTo notBefore => do
      pure (.found (← updateQueuedPlacement fuel jobId provider assignedTo notBefore))
  | .updateAssignment jobId assignedTo => do
      pure (.found (← updateQueuedAssignment fuel jobId assignedTo))
  | .reap jobIds => do pure (.reaped (← reapNamed fuel jobIds))
  | .reapExpired => do pure (.reaped (← reapExpiredLeases fuel))
  | .releaseLeftBehind instanceRef => do
      pure (.reaped (← Stado.releaseLeftBehind fuel instanceRef))
  | .sweep p => do pure (.swept (← retireSettledSentinels p))
  | .backfill => do pure (.answered (← backfillPriorityMarkers))
  | .delete p jobId => do
      let _ ← deleteJob p jobId
      pure .done

/-- What the environment answers. -/
inductive Answer where
  | instant (at_ : Nat)
  | word (text : String)
  | process (host : String) (pid : Nat)
  | ownerState (state : OwnerState)
  | refused (reason : Option String)
  | flag (b : Bool)
  | verified (stamp : Except StorageError (Option Stamp))
  | processes (left : Except String (List String))

/-- The environment's answer to a question, when it is one. -/
def acceptAnswer : {β : Type} → Query β → Answer → Option β
  | _, .now, .instant at_ => some at_
  | _, .owner, .word text => some text
  | _, .currentProcess, .process host pid => some (host, pid)
  | _, .ownerState _ _, .ownerState state => some state
  | _, .charge _, .refused reason => some reason
  | _, .writtenAfter _ _, .flag b => some b
  | _, .verifiedRelease _, .verified stamp => some stamp
  | _, .stillRunning _, .processes left => some left
  | _, _, _ => none

/-- Every question can be answered. -/
theorem acceptAnswer_answers {β : Type} (q : Query β) : ∃ a b, acceptAnswer q a = some b := by
  cases q with
  | now => exact ⟨.instant 0, 0, rfl⟩
  | owner => exact ⟨.word "", "", rfl⟩
  | currentProcess => exact ⟨.process "" 0, ("", 0), rfl⟩
  | ownerState host pid => exact ⟨.ownerState .gone, .gone, rfl⟩
  | charge runId => exact ⟨.refused none, none, rfl⟩
  | writtenAfter jobId expires => exact ⟨.flag false, false, rfl⟩
  | verifiedRelease jobId => exact ⟨.verified (.ok none), .ok none, rfl⟩
  | stillRunning jobId => exact ⟨.processes (.ok []), .ok [], rfl⟩

def queue : Machine Path Contents Site StorageError Query Operation Answer Outcome where
  program := Operation.program
  accept := acceptAnswer
  lost := .backend

abbrev QueueSystem := System Path Contents Site StorageError Query Operation Outcome

abbrev QueueEvent := Event Operation Answer

/-! ## Runs to look at -/

/-- The next `n` storage calls of client `i`. -/
def calls (i n : Nat) : List QueueEvent := List.replicate n (.call i)

def bareFields (jobId : String) : JobFields where
  submission :=
    { jobId := jobId
      command := ""
      createdAt := ""
      runId := ""
      submissionRequestDigest := ""
      submissionCommandIndex := none
      submitterRestarts := false
      terminatesAgent := false
      pinnedHost := ""
      yieldable := false
      yieldCommand := ""
      request := "" }
  provider := ""
  pinToProvider := false
  startedAt := none
  completedAt := none
  leaseExpiresAt := none
  failedAt := none
  instanceRef := none
  restarts := 0
  lastRestart := none
  error := none
  preemptCount := 0
  priority := 0
  assignedTo := ""
  gpuMemGb := 0
  peakVramGb := 0
  peakVramPerGpu := false
  yieldCount := 0
  artifactPaths := []
  notBefore := none
  unread := ""

def bareJob (jobId : String) : PlannedJob := ⟨{ bareFields jobId with state := .queued }, rfl⟩

/-- What a worker of `host` asks to run. -/
def claimedBy (host jobId : String) : Job :=
  { (bareJob jobId).val with instanceRef := some host, state := .running }

/-- Job `j` is admitted, and worker `a` claims it up to its `n`th call after it
named its transition. The claim ends after nineteen. -/
def claiming (n : Nat) : List QueueEvent :=
  .start (.createQueued (bareJob "j")) 9 :: calls 0 11 ++
    .start (.claim (claimedBy "a" "j") 60) 9 :: calls 1 2 ++ [.answer 1 (.instant 5)] ++
    calls 1 2 ++ [.answer 1 (.instant 5)] ++ calls 1 3 ++
    [.answer 1 (.word "a"), .answer 1 (.instant 5)] ++ calls 1 n

/-- Client `i` moves job `j`, which stands at version `v`, up to its `n`th call
after it named its transition. -/
def moving (i v : Nat) (route : Route) (n : Nat) : List QueueEvent :=
  .start (.moveIfVersion { claimedBy "a" "j" with state := prefixState route.toPrefix } route v) 9 ::
    calls i 3 ++ [.answer i (.word "b"), .answer i (.instant 5)] ++ calls i n

/-- The way of a job that ran to its end. -/
def toCompleted : Route := ⟨.running, .completed, by decide⟩

/-- Client `i` completes job `j`, which runs at version `v`. -/
def completing (i v : Nat) : List QueueEvent :=
  moving i v toCompleted 16

def plannedJob : PlannedJob :=
  ⟨{ bareFields "j" with
      submission :=
        { (bareFields "j").submission with
          runId := "r"
          submissionRequestDigest := "d"
          submissionCommandIndex := some 0 }
      state := .queued }, rfl⟩

def oneCommand : SubmissionRequest := ⟨"r", "d", fun _ => [plannedJob]⟩

/-- A first submitter up to its create, with `n` more calls. -/
def submitterRun (n : Nat) : List QueueEvent :=
  .start (.submit oneCommand) 9 :: calls 0 1 ++
    [.answer 0 (.refused none), .answer 0 (.instant 5)] ++ calls 0 1 ++ [.answer 0 (.instant 5)] ++
    calls 0 1 ++ [.answer 0 (.instant 5), .answer 0 (.process "h" 0)] ++ calls 0 (18 + n)

/-- Client `i` claims the planned job. -/
def claimRun (i : Nat) : List QueueEvent :=
  .start (.claim { plannedJob.val with state := .running } 60) 9 :: calls i 2 ++
    [.answer i (.instant 5)] ++ calls i 2 ++ [.answer i (.instant 5)] ++ calls i 3 ++
    [.answer i (.word "a"), .answer i (.instant 5)] ++ calls i 19

end Stado
