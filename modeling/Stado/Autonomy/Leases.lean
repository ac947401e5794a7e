import Stado.Autonomy.Objects

/-!
# Placement leases and the control state

The lease of a subject is acquired, renewed and released by compare-and-swap.
The control state is read, changed and written back against the version read.
-/

namespace Stado.Autonomy

open CasStore

/-! ## Placement leases -/

namespace PlacementLease

/-- Whether the lease holds at `now`: a lifetime that has not passed, or a
holding process that still exists. An expiry that does not read holds nothing. -/
def activeAt (lease : PlacementLease) (now : ℕ) : Autonomous Bool :=
  match lease.expiresAt with
  | none =>
    if lease.holderProcess = ProcessOwner.default then pure false
    else do
      let state ← .take (.ownerState lease.holderProcess)
      pure (decide (state ≠ .gone))
  | some (.instant expires) => pure (decide (now < expires))
  | some (.unreadable _) => pure false

end PlacementLease

/-- When a lease acquired or renewed at `now` ends. -/
def expiry (ttlSeconds : Option ℕ) (now : ℕ) : Except String (Option Stamp) :=
  match ttlSeconds with
  | none => .ok none
  | some seconds => (expiresAt now seconds "placement lease TTL").map fun t => some (.instant t)

def acquirePlacementLease (subjectId decisionId holder : String) (ttlSeconds : Option ℕ)
    (asked : ℕ) : Autonomous (Option PlacementLease) := do
  let token ← .take .uuid
  let expires ← orFail (expiry ttlSeconds asked)
  let process ← .take .currentProcess
  let lease : PlacementLease :=
    { subjectId := subjectId
      decisionId := decisionId
      token := token
      holder := holder
      acquiredAt := .instant asked
      expiresAt := expires
      holderProcess := process }
  if ← .tries (.create .acquireCreate (.lease subjectId) (.lease lease)) then
    pure (some lease)
  else
    match ← .tries (.read .acquireRead (.lease subjectId)) with
    | none => pure none
    | some (.lease prior, version) => do
        if ← prior.activeAt asked then
          pure (if prior.decisionId = decisionId ∧ prior.holder = holder then some prior else none)
        else
          match ← .tries (.swap .acquireSwap (.lease subjectId) version (.lease lease)) with
          | .stored _ => pure (some lease)
          | .conflict => pure none
          | .notFound => .fail (.notFound "placement lease")
    | some _ => invalid "placement lease"

def renewPlacementLease (subjectId token : String) (ttlSeconds : Option ℕ) (asked : ℕ) :
    Autonomous (Option PlacementLease) := do
  match ← .tries (.read .renewRead (.lease subjectId)) with
  | none => pure none
  | some (.lease lease, version) =>
    if lease.token ≠ token then pure none
    else do
      let expires ← orFail (expiry ttlSeconds asked)
      let process ← .take .currentProcess
      let renewed := { lease with expiresAt := expires, holderProcess := process }
      match ← .tries (.swap (.renew token) (.lease subjectId) version (.lease renewed)) with
      | .stored _ => pure (some renewed)
      | .conflict => pure none
      | .notFound => .fail (.notFound "placement lease")
  | some _ => invalid "placement lease"

/-- `release_placement_lease`; the sites name who releases. -/
def releaseAt (readSite site : Site) (subjectId token : String) : Autonomous Bool := do
  match ← .tries (.read readSite (.lease subjectId)) with
  | none => pure false
  | some (.lease lease, version) =>
    if lease.token ≠ token then pure false
    else do
      let t ← .take (.now .clock)
      let released := { lease with expiresAt := some (.instant t) }
      match ← .tries (.swap site (.lease subjectId) version (.lease released)) with
      | .stored _ => pure true
      | .conflict => pure false
      | .notFound => .fail (.notFound "placement lease")
  | some _ => invalid "placement lease"

def releasePlacementLease (subjectId token : String) : Autonomous Bool :=
  releaseAt .freeRead (.free token) subjectId token

def releasePlacementLeaseExact (owned released : PlacementLease) : Autonomous Bool :=
  if released.subjectId ≠ owned.subjectId ∨ released.decisionId ≠ owned.decisionId ∨
      released.token ≠ owned.token ∨ released.holder ≠ owned.holder ∨
      released.acquiredAt ≠ owned.acquiredAt then
    .fail (.other "exact lease release changed fields other than expires_at")
  else do
    match ← .tries (.read .exactRead (.lease owned.subjectId)) with
    | none => pure false
    | some (.lease current, version) =>
      if current = released then pure true
      else if current.token ≠ owned.token then pure false
      else
        match ← .tries (.swap (.exact released) (.lease owned.subjectId) version (.lease released)) with
        | .stored _ => pure true
        | .conflict => .fail (.storageConflict "placement lease")
        | .notFound => .fail (.notFound "placement lease")
    | some _ => invalid "placement lease"

/-! ## The control state -/

def loadControl : Autonomous ControlState := do
  match ← .tries (.read .controlRead .control) with
  | none => do
      let t ← .take (.now .clock)
      pure (ControlState.default t)
  | some (.control state, _) => pure state
  | some _ => invalid "control.json"

def updateControl (readSite site : Site) (conflict : String)
    (change : ControlState → Autonomous ControlState) : Autonomous ControlState := do
  match ← .tries (.read readSite .control) with
  | none => do
      let t ← .take (.now .clock)
      let state ← change (ControlState.default t)
      if ← .tries (.create site .control (.control state)) then pure state
      else .fail (.storageConflict conflict)
  | some (.control found, version) => do
      let state ← change found
      match ← .tries (.swap site .control version (.control state)) with
      | .stored _ => pure state
      | .conflict => .fail (.storageConflict conflict)
      | .notFound => .fail (.notFound "control.json")
  | some _ => invalid "control.json"

def setControl (emergencyPaused : Bool) (reason : Option String) (actor : String) :
    Autonomous ControlState :=
  updateControl .setControlRead .setControl "autonomy control state changed concurrently"
    fun state => do
      let t ← .take (.now .clock)
      pure { state with
        emergencyPaused := emergencyPaused
        reason := reason
        changedAt := t
        changedBy := actor }

/-- The control state with one more outcome, judged at `t`. -/
def ControlState.recorded (state : ControlState) (outcome : Outcome) (failureThreshold : ℕ)
    (t openUntil : ℕ) : ControlState :=
  match outcome with
  | .succeeded =>
    { state with
      mutationFailures := []
      circuitOpenUntil := none
      lastMutationError := none
      changedAt := t
      changedBy := "autonomy-circuit-breaker" }
  | .failed error =>
    { state with
      mutationFailures := state.mutationFailures ++ [t]
      lastMutationError := some error
      circuitOpenUntil :=
        if failureThreshold ≤ (state.mutationFailures ++ [t]).length then
          some (.instant openUntil)
        else state.circuitOpenUntil
      changedAt := t
      changedBy := "autonomy-circuit-breaker" }

/-- `record_mutation_outcome` for the plan `operation`. -/
def recordMutationOutcome (operation : String) (outcome : Outcome) (failureThreshold : ℕ)
    (cooldownSeconds : ℕ) : Autonomous ControlState :=
  if failureThreshold = 0 then
    .fail (.other "circuit-breaker failure threshold must be positive")
  else
    updateControl (.recordRead operation outcome) (.record operation outcome)
      "autonomy circuit-breaker state changed concurrently" fun state => do
        let t ← .take (.now (.recordClock outcome))
        let openUntil ← orFail
          (expiresAt t cooldownSeconds "limits.circuit_breaker_cooldown_seconds")
        pure (state.recorded outcome failureThreshold t openUntil)

end Stado.Autonomy
