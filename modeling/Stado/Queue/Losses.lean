import Stado.Library.Machine
import Stado.Queue.Reaper

/-!
# A job's moves between the queue and its runs

Each move that a job's document goes through once its version fence is won: the
claim, the loss of a worker as the reaper and the monitor settle it, a
preemption, the returns that are no loss, and the moves that end the job. Every
one installs the document that the merge of the requested job into the current
one promises.
-/

namespace Stado

open CasStore

/-! ## Losses -/

/-- Who settles a lost worker: the reaper, and the worker that replaced another,
or the monitor. -/
inductive LossHandler where
  | reaper
  | monitor
  deriving DecidableEq

/-- The monitor's job that is not put back: its record keeps the refusal. -/
def monitorRefusedJob (job : Job) (now : Nat) (refusal : String) : Job :=
  { job with
    state := .failed
    failedAt := some (.instant now)
    error := some refusal }

/-- The monitor's job that goes back: it stays assigned. -/
def monitorRequeuedJob (job : Job) (now : Nat) (reason : String) : Job :=
  { job with
    restarts := tally job.restarts
    state := .queued
    instanceRef := none
    startedAt := none
    lastRestart := some (.instant now)
    error := some reason }

/-- What a lost worker's job is asked to become, and the prefix it is moved to. -/
def lossMove (handler : LossHandler) (job : Job) (now : Nat) (reason : String) : Job × Prefix :=
  match handler, restartRefusal job reason with
  | .reaper, none => (requeuedJob job now reason, .queue)
  | .reaper, some _ => (refusedJob job now reason, .failed)
  | .monitor, none => (monitorRequeuedJob job now reason, .queue)
  | .monitor, some refusal => (monitorRefusedJob job now refusal, .failed)

/-- A preempted job goes back and keeps what its record said. -/
def preemptedJob (job : Job) (now : Nat) : Job :=
  { job with
    preemptCount := tally job.preemptCount
    state := .queued
    instanceRef := none
    startedAt := none
    lastRestart := some (.instant now) }

/-! ## The moves of one document -/

/-- One move of a job's document. A yield and an OOM requeue ask for a job that
was read before; a rewrite in place leaves the state, the submission and the
kept error. -/
inductive JobMove where
  | claimed (requested : Job)
  | lost (handler : LossHandler) (now : Nat) (reason : String)
  | preempted (now : Nat)
  | returned (requested : Job)
  | rewritten (fields : JobFields)
  | ended (requested : Job) (target : Prefix)

/-- What a move did to the job, as its history keeps it. -/
inductive Passage where
  | lost (reason : String) (target : Prefix)
  | returned (error : Option String)
  | carried
  | ended
  deriving DecidableEq

/-- A job's document and the moves behind it, newest first. -/
structure JobHistory where
  job : Job
  passages : List Passage

namespace JobHistory

def install (s : JobHistory) (requested : Job) (fromPrefix toPrefix : Prefix)
    (passage : Passage) : Option JobHistory :=
  match mergeTransitionDestination s.job requested fromPrefix toPrefix with
  | .ok job => some ⟨job, passage :: s.passages⟩
  | .error _ => none

def step (s : JobHistory) : JobMove → Option JobHistory
  | .claimed requested =>
    if s.job.state = .queued then s.install requested .queue .running .carried else none
  | .lost handler now reason =>
    if s.job.state = .running then
      s.install (lossMove handler s.job now reason).1 .running
        (lossMove handler s.job now reason).2
        (.lost reason (lossMove handler s.job now reason).2)
    else none
  | .preempted now =>
    if s.job.state = .running then
      s.install (preemptedJob s.job now) .running .queue .carried
    else none
  | .returned requested =>
    if s.job.state = .running then
      s.install requested .running .queue (.returned requested.error)
    else none
  | .rewritten fields =>
    if fields.submission = s.job.submission ∧ fields.error = s.job.error then
      some ⟨{ fields with state := s.job.state }, .carried :: s.passages⟩
    else none
  | .ended requested target =>
    if target.terminal = true ∧ s.job.state = .running then
      s.install requested .running target .ended
    else if target.terminal = true ∧ s.job.state = .queued then
      s.install requested .queue target .ended
    else none

end JobHistory

end Stado
