import Stado.Autonomy.Leases

/-!
# Autonomous mutations

A plan is carried out under a mutation slot, behind the pause and the circuit
breaker, and its outcome is recorded. A tick of the schedules carries out one
plan for each due occurrence whose marker it gets.
-/

namespace Stado.Autonomy

open CasStore

/-- The ceilings of a validated policy. -/
structure SafetyLimits where
  maxActionsPerTick : ℕ
  maxActionsPerProvider : ℕ
  maxConcurrentMutations : ℕ
  circuitBreakerFailures : ℕ
  circuitBreakerCooldownSeconds : ℕ
  decisionTtlSeconds : ℕ
  actions_pos : 0 < maxActionsPerTick
  provider_pos : 0 < maxActionsPerProvider
  mutations_pos : 0 < maxConcurrentMutations
  failures_pos : 0 < circuitBreakerFailures
  cooldown_valid : (positiveDuration circuitBreakerCooldownSeconds
    "limits.circuit_breaker_cooldown_seconds").isOk
  ttl_valid : (positiveDuration decisionTtlSeconds "limits.decision_ttl_seconds").isOk

/-! ## Carrying out a plan -/

def slotName (slot : ℕ) : String := s!"mutation-slot-{slot}"

/-- The first mutation slot that is free. -/
def takeSlot (operation : String) (limits : SafetyLimits) :
    List ℕ → Autonomous (Option PlacementLease)
  | [] => pure none
  | slot :: rest => do
      let asked ← .take (.now .clock)
      match ← acquirePlacementLease (slotName slot) operation "autonomy-reconciler"
          (some limits.decisionTtlSeconds) asked with
      | some lease => pure (some lease)
      | none => takeSlot operation limits rest

/-- `release_mutation_lease`: why the lease could not be released. -/
def releaseMutationLease (operation : String) (lease : PlacementLease) :
    Autonomous (Option String) := do
  match ← (releaseAt (.ownReleaseRead operation) (.ownRelease operation) lease.subjectId
      lease.token).attempt with
  | .ok true => pure none
  | .ok false => pure (some "mutation lease ownership changed before release")
  | .error error => pure (some s!"mutation lease release failed: {reprStr error}")

def controlGate : Autonomous (Option String) := do
  match ← loadControl.attempt with
  | .error error =>
    pure (some s!"autonomy control state became unreadable before mutation: {reprStr error}")
  | .ok control =>
    if control.emergencyPaused then
      pure (some "autonomy emergency pause became active before mutation")
    else do
      let t ← .take (.now .clock)
      if control.circuitOpenAt t then
        pure (some ("autonomy circuit breaker opened before mutation until " ++
          reprStr control.circuitOpenUntil))
      else pure none

/-- `engine::execute_autonomous`: it begins, and ends when it ends. -/
def execute (operation : String) (lease : PlacementLease) : Autonomous Outcome := do
  let _ ← .take (.begin operation lease)
  .take (.finish operation)

def joined (detail : String) : Option String → String
  | none => detail
  | some more => detail ++ "; " ++ more

def executeWithCircuit (operation : String) (limits : SafetyLimits) : Autonomous PUnit := do
  match ← takeSlot operation limits (List.range limits.maxConcurrentMutations) with
  | none => .fail (.other "autonomy mutation concurrency limit reached")
  | some lease => do
      match ← controlGate with
      | some detail => do
          let releaseError ← releaseMutationLease operation lease
          .fail (.other (joined detail releaseError))
      | none => do
          let outcome ← execute operation lease
          let releaseError ← releaseMutationLease operation lease
          match outcome with
          | .succeeded => do
              let _ ← recordMutationOutcome operation .succeeded limits.circuitBreakerFailures
                limits.circuitBreakerCooldownSeconds
              match releaseError with
              | some error => .fail (.other error)
              | none => pure ()
          | .failed error => do
              let detail := joined error releaseError
              let _ ← recordMutationOutcome operation (.failed detail)
                limits.circuitBreakerFailures limits.circuitBreakerCooldownSeconds
              .fail (.other detail)

/-- A caller of `execute_with_circuit` with a plan of its own. -/
def mutate (limits : SafetyLimits) : Autonomous PUnit := do
  let operation ← .take .uuid
  executeWithCircuit operation limits

/-! ## Schedules -/

inductive LifecyclePhase where
  | running
  | stopped
  | ended
  | unknown
deriving DecidableEq

inductive Ownership where
  | owned
  | adopted
  | foreign
deriving DecidableEq

/-- What the tick reads of a resource of its snapshot. -/
structure ResourceRecord where
  resourceId : String
  provider : String
  isInstance : Bool
  workload : Option String
  ownership : Ownership
  phase : LifecyclePhase
deriving DecidableEq

structure ResourceRule where
  policyRef : String
  stopSchedule : Option String
  startSchedule : Option String
  timezone : Option String

/-- A validated policy: its limits, the rule that matches a resource, and
whether it authorizes a reversible action on it. -/
structure AutonomyPolicy where
  limits : SafetyLimits
  matchingRule : ResourceRecord → Option ResourceRule
  authorized : ResourceRecord → Bool

/-- `schedules::compute_next_due`: the first occurrence of an expression after
an instant, in a timezone. -/
abbrev NextDue := String → ℤ → String → Except String ℕ

/-- `acquire_schedule_marker`, for the tick that began at `tickAt`. -/
def acquireScheduleMarker (path : Path) (limits : SafetyLimits) (tickAt : ℕ) :
    Autonomous Bool := do
  let content : ScheduleMarker := ⟨"in_progress", some (.instant tickAt), none, none, none⟩
  if ← .tries (.create .markerCreate path (.marker content)) then pure true
  else
    match ← .tries (.read .markerRead path) with
    | none => pure false
    | some (.marker existing, version) =>
      if existing.status = "completed" then pure false
      else
        match existing.startedAt with
        | none => invalid "schedule marker"
        | some (.unreadable _) => invalid "schedule marker"
        | some (.instant started) =>
          -- the age in whole seconds, truncated towards zero
          if Int.tdiv ((tickAt : ℤ) - started) nanosPerSecond < limits.decisionTtlSeconds then
            pure false
          else
            match ← .tries (.swap .markerSwap path version (.marker content)) with
            | .stored _ => pure true
            | .conflict => .fail (.storageConflict "schedule marker")
            | .notFound => .fail (.notFound "schedule marker")
    | some _ => invalid "schedule marker"

def schedulePlan (limits : SafetyLimits) : Autonomous String := do
  let created ← .take (.now .planClock)
  let _ ← orFail (expiresAt created limits.decisionTtlSeconds "limits.decision_ttl_seconds")
  let operation ← .take .uuid
  match ← .take .validPlan with
  | some why => .fail (.other why)
  | none => pure operation

def scheduled (rule : ResourceRule) : LifecyclePhase → Option (ActionKind × String)
  | .running => rule.stopSchedule.map fun expression => (.stopInstance, expression)
  | .stopped => rule.startSchedule.map fun expression => (.startInstance, expression)
  | .ended => none
  | .unknown => none

/-- What a tick has done so far. -/
structure TickSummary where
  executed : List String
  providerActions : List (String × String)

/-- The part of a tick that has got the marker of an occurrence. -/
def runOccurrence (policy : AutonomyPolicy) (path : Path) (occurrence : ℕ) :
    Autonomous String := do
  let operation ← schedulePlan policy.limits
  let _ ← .tries (.put .planWrite (.plan operation) (.plan path))
  match ← (executeWithCircuit operation policy.limits).attempt with
  | .error error => do
      -- The marker is released so the occurrence can run again.
      let _ ← .tries (.delete (.markerDelete operation) path)
      .fail error
  | .ok _ => do
      let completed ← .take (.now .clock)
      let _ ← .tries (.put (.markerComplete operation) path
        (.marker ⟨"completed", none, some completed, some operation, some occurrence⟩))
      pure operation

/-- One resource of a tick that began at `tickAt`. -/
def reconcileResource (nextDue : NextDue) (policy : AutonomyPolicy) (tickAt : ℕ)
    (windowStart : ℤ) (summary : TickSummary) (resource : ResourceRecord) :
    Autonomous TickSummary :=
  if policy.limits.maxActionsPerTick ≤ summary.executed.length then pure summary
  else if policy.limits.maxActionsPerProvider ≤
      (summary.providerActions.filter fun done => done.1 = resource.provider).length then
    pure summary
  else if resource.isInstance = false ∨ resource.workload.isSome ∨
      resource.ownership = .foreign then
    pure summary
  else
    match policy.matchingRule resource with
    | none => pure summary
    | some rule =>
      if policy.authorized resource = false then pure summary
      else
        match scheduled rule resource.phase with
        | none => pure summary
        | some (kind, expression) =>
          match rule.timezone with
          | none =>
            .fail (.other (s!"autonomy rule {rule.policyRef} schedules an action but " ++
              "names no timezone; the policy was not validated"))
          | some timezone => do
              let occurrence ← orFail (nextDue expression windowStart timezone)
              if tickAt < occurrence then pure summary
              else do
                let path := Path.marker resource.resourceId kind occurrence
                if ← acquireScheduleMarker path policy.limits tickAt then do
                  let operation ← runOccurrence policy path occurrence
                  pure
                    { executed := summary.executed ++ [operation]
                      providerActions :=
                        summary.providerActions ++ [(resource.provider, operation)] }
                else pure summary

/-- `reconcile_schedules`, over the resources of a snapshot. -/
def reconcileSchedules (nextDue : NextDue) (policy : AutonomyPolicy)
    (resources : List ResourceRecord) : Autonomous (List String) := do
  let tickAt ← .take (.now .clock)
  let windowStart ← orFail
    (lookbackStart tickAt policy.limits.decisionTtlSeconds "limits.decision_ttl_seconds")
  let summary ← resources.foldlM (reconcileResource nextDue policy tickAt windowStart) ⟨[], []⟩
  pure summary.executed

end Stado.Autonomy
