import Mathlib.Data.Int.Notation
import Mathlib.Data.List.Basic
import Stado.Library.Machine

/-!
# One slot's life

A running job's slot from its spawn: the tick that ends, pauses, reaps and
finalizes it, and the cooperative yield that takes it back to the queue. What
the slot does to the outside is kept, newest first, in its acts.
-/

namespace Stado.Agent

/-! ## What a slot does -/

inductive Signal where
  | stop
  | cont
  | term
  | kill
  deriving DecidableEq

/-- What the kernel answers to a signal. -/
inductive KillAnswer where
  | ok
  | esrch
  | eperm
  | other
  deriving DecidableEq

/-- A Python return code: an exit status, or a signal's number negated. -/
structure ExitCode where
  code : ℤ
  low : -127 ≤ code
  high : code ≤ 255
  deriving DecidableEq

/-- The child: running, exited and not waited for, or waited for, after which
its ids are no longer its own. -/
inductive Child where
  | running
  | exited (code : ExitCode)
  | reaped (code : ExitCode)
  deriving DecidableEq

/-- The document a write of this agent leaves for the job. -/
inductive Document where
  | completed
  | failed
  | oomRequeued
  | yielded
  deriving DecidableEq

/-- One act or observation of a slot. -/
inductive Act where
  | signal (sig : Signal) (paused : Bool) (answer : KillAnswer)
  | exited (code : ExitCode)
  | observed (code : ExitCode)
  | sawMissing
  | verified (passed : Bool)
  | uploaded
  | wrote (document : Document)
  | settledElsewhere
  deriving DecidableEq

/-- A slot of the agent; `kept` while the agent still holds it. -/
structure ActiveSlot where
  hasVerifyCommand : Bool
  child : Child
  paused : Bool
  workdirMissing : Bool
  groupEnded : Bool
  kept : Bool
  acts : List Act
  deriving DecidableEq

def ActiveSlot.spawned (hasVerifyCommand : Bool) : ActiveSlot :=
  ⟨hasVerifyCommand, .running, false, false, false, true, []⟩

/-! ## What one tick reads -/

/-- How the verification command ended. -/
inductive Verification where
  | passed
  | unresolved
  | exited (code : ExitCode)
  | unstarted

/-- How a move of the job's document ended; a failed one may have been made. -/
inductive Move where
  | ok
  | failed (made : Bool)

/-- How the OOM escalation ended: not one, an error before its move, the move
failed, or the move made and the status cleared or not. -/
inductive Escalation where
  | refused
  | failed
  | moveFailed (made : Bool)
  | moved (cleared : Bool)

/-- One tick's readings and answers; `none` where the store fails. -/
structure Tick where
  terminalRecord : Option Bool
  held : Option Bool
  vastActive : Bool
  pauseAnswer : KillAnswer
  termAnswer : KillAnswer
  contAnswer : KillAnswer
  killAnswer : KillAnswer
  tryWait : Bool
  waits : Bool
  endCode : ExitCode
  workDir : Bool
  treeMissing : Bool
  heartbeat : Bool
  verification : Verification
  outputRead : Bool
  escalation : Escalation
  upload : Bool
  status : Bool
  move : Move
  settled : Option Bool

/-- `SlotOutcome` of a tick, or its error. -/
inductive Ends where
  | running
  | done
  | failed
  deriving DecidableEq

namespace ActiveSlot

def act (slot : ActiveSlot) (a : Act) : ActiveSlot := { slot with acts := a :: slot.acts }

def pausedSet (slot : ActiveSlot) (paused : Bool) : ActiveSlot := { slot with paused := paused }

/-- The child's exit is waited for: from here its ids are not its own. -/
def observe (slot : ActiveSlot) : ActiveSlot :=
  match slot.child with
  | .running => slot
  | .exited code => { slot.act (.observed code) with child := .reaped code }
  | .reaped _ => slot

def ended (slot : ActiveSlot) (code : ExitCode) : ActiveSlot :=
  match slot.child with
  | .running => { slot.act (.exited code) with child := .exited code }
  | _ => slot

def status (slot : ActiveSlot) : Option ExitCode :=
  match slot.child with
  | .reaped code => some code
  | _ => none

/-- End what the job left running in its group, once. -/
def endLeftoverGroup (slot : ActiveSlot) (answer : KillAnswer) : ActiveSlot :=
  if slot.groupEnded then slot
  else { slot.act (.signal .kill slot.paused answer) with groupEnded := true }

def awaitExit (slot : ActiveSlot) (T : Tick) : ActiveSlot × Bool :=
  if T.waits then ((slot.ended T.endCode).observe, true) else (slot, false)

def continueGroup (slot : ActiveSlot) (T : Tick) : ActiveSlot × Bool :=
  if slot.paused then
    let sent := slot.act (.signal .cont slot.paused T.contAnswer)
    match T.contAnswer with
    | .ok => (sent.pausedSet false).awaitExit T
    | .esrch => (sent.pausedSet false).awaitExit T
    | .eperm => (sent, false)
    | .other => (sent, false)
  else slot.awaitExit T

/-- `terminate_cancelled_slot`, and whether it came to its end. -/
def terminateCancelled (slot : ActiveSlot) (T : Tick) : ActiveSlot × Bool :=
  let sent := slot.act (.signal .term slot.paused T.termAnswer)
  match T.termAnswer with
  | .ok => sent.continueGroup T
  | .esrch => sent.continueGroup T
  | .eperm =>
    if !T.tryWait then (sent, false)
    else if sent.observe.status.isSome then (sent.observe.pausedSet false).continueGroup T
    else (sent.observe, false)
  | .other => (sent, false)

/-! ## Finalization -/

/-- The code a failed verification is recorded with: the largest `i32` where its
secrets cannot be resolved, 1000 above the command's own, 1999 where it could
not start. -/
def verificationCode : Verification → Option ℤ
  | .passed => none
  | .unresolved => some 2147483647
  | .exited code => some (min 2147483647 (1000 + code.code))
  | .unstarted => some 1999

def lookForTree (slot : ActiveSlot) (T : Tick) : ActiveSlot :=
  if T.treeMissing then { slot.act .sawMissing with workdirMissing := true } else slot

/-- The exit code the job is recorded with, after its verification where one is
run. -/
def verify (slot : ActiveSlot) (T : Tick) (code : ExitCode) : ActiveSlot × ℤ :=
  if code.code = 0 ∧ slot.workdirMissing = false ∧ slot.hasVerifyCommand = true then
    (slot.act (.verified (verificationCode T.verification).isNone),
      (verificationCode T.verification).getD code.code)
  else (slot, code.code)

def settle (slot : ActiveSlot) (T : Tick) (document : Document) : ActiveSlot × Ends :=
  match T.move with
  | .ok => (slot.act (.wrote document), .done)
  | .failed made =>
    let slot := if made then slot.act (.wrote document) else slot
    match T.settled with
    | none => (slot, .failed)
    | some true => (slot.act .settledElsewhere, .done)
    | some false => (slot, .running)

/-- Artifacts, then the status, then the terminal move; a failure keeps the slot
for the next tick. -/
def publish (slot : ActiveSlot) (T : Tick) (document : Document) : ActiveSlot × Ends :=
  if !T.upload then (slot, .running)
  else if !T.status then (slot.act .uploaded, .running)
  else (slot.act .uploaded).settle T document

/-- A failed job is first asked whether it ran out of memory. -/
def escalate (slot : ActiveSlot) (T : Tick) : ActiveSlot × Ends :=
  match T.escalation with
  | .refused => slot.publish T .failed
  | .failed => (slot, .failed)
  | .moveFailed made => (if made then slot.act (.wrote .oomRequeued) else slot, .failed)
  | .moved cleared => (slot.act (.wrote .oomRequeued), if cleared then .done else .failed)

/-- The exit judged: a verified success is published, a failure escalated once its
output could be read. -/
def finalize (slot : ActiveSlot) (T : Tick) (code : ExitCode) : ActiveSlot × Ends :=
  if !T.workDir then (slot, .failed)
  else
    let judged := (slot.lookForTree T).verify T code
    if judged.2 ≠ 0 ∨ judged.1.workdirMissing = true then
      if judged.1.workdirMissing = false ∧ T.outputRead = false then (judged.1, .failed)
      else judged.1.escalate T
    else judged.1.publish T .completed

/-! ## The tick -/

/-- Pause for a renter or resume after one; the flag follows the signal that was
sent. -/
def followRenter (slot : ActiveSlot) (T : Tick) : ActiveSlot × Bool :=
  if !slot.paused && T.vastActive then
    let sent := slot.act (.signal .stop slot.paused T.pauseAnswer)
    if T.pauseAnswer = .ok then (sent.pausedSet true, true) else (sent, false)
  else if slot.paused && !T.vastActive then
    let sent := slot.act (.signal .cont slot.paused T.pauseAnswer)
    if T.pauseAnswer = .ok then (sent.pausedSet false, true) else (sent, false)
  else (slot, true)

def runningTick (slot : ActiveSlot) (T : Tick) : ActiveSlot × Ends :=
  if slot.paused then (slot, .running)
  else if !T.heartbeat || !T.workDir then (slot, .failed)
  else (slot.lookForTree T, .running)

/-- The exit is reaped and finalized, or the job goes on. -/
def reapAndFinalize (slot : ActiveSlot) (T : Tick) : ActiveSlot × Ends :=
  if !T.tryWait then (slot, .failed)
  else
    match slot.observe.status with
    | none => slot.observe.runningTick T
    | some code => (slot.observe.endLeftoverGroup T.killAnswer).finalize T code

/-- A job the queue holds as ended, or holds nowhere, is ended here. -/
def dropSlot (slot : ActiveSlot) (T : Tick) (uploads : Bool) : ActiveSlot × Ends :=
  let ended := slot.terminateCancelled T
  if !ended.2 then (ended.1, .failed)
  else if uploads then
    if !T.workDir then (ended.1, .failed)
    else
      let uploaded := if T.upload then ended.1.act .uploaded else ended.1
      (uploaded.act .settledElsewhere, .done)
  else (ended.1.act .settledElsewhere, .done)

def advance (slot : ActiveSlot) (T : Tick) : ActiveSlot × Ends :=
  match T.terminalRecord with
  | none => (slot, .failed)
  | some true => slot.dropSlot T true
  | some false =>
    match T.held with
    | none => (slot, .failed)
    | some false => slot.dropSlot T false
    | some true =>
      let followed := slot.followRenter T
      if !followed.2 then (followed.1, .failed) else followed.1.reapAndFinalize T

/-- What one yield reads: whether the job ended while its hook ran, and the
answers to its signal, its wait and its writes. -/
structure Yield where
  workDir : Bool
  hookEnds : Option ExitCode
  tryWait : Bool
  termAnswer : KillAnswer
  waits : Bool
  endCode : ExitCode
  status : Bool
  upload : Bool
  move : Move

/-- The group is asked to exit when the hook has left it running. -/
def stopForYield (slot : ActiveSlot) (Y : Yield) : ActiveSlot × Bool :=
  if !Y.tryWait then (slot, false)
  else if slot.observe.status.isSome then (slot.observe, true)
  else
    let sent := slot.observe.act (.signal .term slot.paused Y.termAnswer)
    if Y.waits then ((sent.ended Y.endCode).observe, true) else (sent, false)

/-- The job goes back to the queue. -/
def requeue (slot : ActiveSlot) (Y : Yield) : ActiveSlot :=
  if !Y.status then slot
  else
    let uploaded := if Y.upload then slot.act .uploaded else slot
    match Y.move with
    | .ok => uploaded.act (.wrote .yielded)
    | .failed made => if made then uploaded.act (.wrote .yielded) else uploaded

/-- `request_yield`: the slot is given up however it ends. -/
def requestYield (slot : ActiveSlot) (Y : Yield) : ActiveSlot :=
  let slot := { slot with kept := false }
  if !Y.workDir then slot
  else
    let hooked :=
      match Y.hookEnds with
      | some code => slot.ended code
      | none => slot
    let stopped := hooked.stopForYield Y
    if stopped.2 then stopped.1.requeue Y else stopped.1

end ActiveSlot

inductive SlotStep where
  | exits (code : ExitCode)
  | advance (T : Tick)
  | yield (Y : ActiveSlot.Yield)

def ActiveSlot.step (slot : ActiveSlot) (a : SlotStep) : Option ActiveSlot :=
  if !slot.kept then none
  else
    match a with
    | .exits code => if slot.child = .running then some (slot.ended code) else none
    | .advance T =>
      let advanced := slot.advance T
      some { advanced.1 with kept := decide (advanced.2 ≠ .done) }
    | .yield Y => some (slot.requestYield Y)

end Stado.Agent
