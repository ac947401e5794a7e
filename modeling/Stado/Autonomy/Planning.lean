import Stado.Autonomy.Candidates
import Stado.Autonomy.Leases

/-!
# Planning placements

One pass over the queue: each job is given the cheapest eligible offer under a
placement lease, the decision is written, and the queued job is rewritten. What a
changed job takes is withdrawn from its offer and from the budgets.
-/

namespace Stado.Autonomy

open CasStore

/-! ## The two orders of a pass -/

def knownFirst : Option ℚ → Option ℚ → Ordering
  | some left, some right => compare left right
  | some _, none => .lt
  | none, some _ => .gt
  | none, none => .eq

def candidateOrder (left right : PlacementCandidate) : Ordering :=
  (knownFirst left.expectedTotalCostUsd right.expectedTotalCostUsd).then
    ((knownFirst left.expectedFinishSeconds right.expectedFinishSeconds).then
      (compare left.targetId right.targetId))

/-- The job's deadline; one that is no time orders as none. -/
def jobDeadline (job : PlanJob) : Option ℕ := job.deadlineAt.bind Stamp.read

def jobOrder (left right : PlanJob) : Ordering :=
  (compare right.priority left.priority).then
    (match jobDeadline left, jobDeadline right with
      | some left, some right => compare left right
      | some _, none => .lt
      | none, some _ => .gt
      | none, none => .eq)

/-- The better of the best candidate so far and the next one, each with the place of
its offer. -/
def better (best : Option (PlacementCandidate × ℕ)) (next : PlacementCandidate × ℕ) :
    Option (PlacementCandidate × ℕ) :=
  match best with
  | none => some next
  | some held => if candidateOrder held.1 next.1 = .gt then some next else some held

/-- The cheapest eligible candidate, the first of them among equals. -/
def selectCandidate (candidates : List PlacementCandidate) : Option (PlacementCandidate × ℕ) :=
  (candidates.zipIdx.filter fun entry => entry.1.eligible).foldl better none

/-! ## The queued job -/

def PlacementCandidate.placement (selected : PlacementCandidate) : Placement where
  provider := selected.provider.asStr
  assignedTo := if selected.existingCapacity then some selected.targetId else none
  notBefore := selected.deferredStart.map DeferredStart.startAt

def Placement.standsIn (placement : Placement) (job : Job) : Bool :=
  job.provider = placement.provider ∧ job.pinToProvider ∧
    job.assignedTo = placement.assignedTo.getD "" ∧ job.submission.pinnedHost = "" ∧
      job.notBefore = placement.notBefore

def Placement.applied (placement : Placement) (job : Job) : Job :=
  { job with
    provider := placement.provider
    pinToProvider := true
    assignedTo := placement.assignedTo.getD ""
    notBefore := placement.notBefore }

/-- How `update_job_placement` left the queued job: it answers whether the placement
`changed`; it may have `stood` before, or the job is `gone` from the queue. -/
inductive Placed where
  | changed | stood | gone
deriving DecidableEq

/-- The loop of `rewrite_queued_job`: a lost swap reads the document again. -/
def rewriteQueuedPlacement (lease : PlacementLease) (placement : Placement) (jobId : String) :
    ℕ → Autonomous Placed
  | 0 => .act .looping fun never => nomatch never
  | fuel + 1 => do
      match ← .tries (.read .placementRead (.job jobId)) with
      | none => pure .gone
      | some (.job job, version) =>
        if job.state ≠ .queued then pure .gone
        else
          match ← .tries (.swap (.placement lease) (.job jobId) version
              (.job (placement.applied job))) with
          | .conflict => rewriteQueuedPlacement lease placement jobId fuel
          | .notFound => .fail (.notFound "queued job")
          | .stored _ =>
            if ← .tries (.exist .placementRead (.job jobId)) then do
              let _ ← .tries (.touch .placementRead (.job jobId))
              if ← .tries (.exist .placementRead (.job jobId)) then pure .changed
              else pure .gone
            else pure .gone
      | some _ => invalid "queued job"

/-- `update_job_placement`, for a pass that took `lease`. -/
def updateJobPlacement (fuel : ℕ) (lease : PlacementLease) (jobId : String)
    (selected : PlacementCandidate) : Autonomous Placed := do
  match ← .tries (.read (.placementCheck selected.placement) (.job jobId)) with
  | none => pure .gone
  | some (.job current, _) =>
    if current.state ≠ .queued then pure .gone
    else if selected.placement.standsIn current then pure .stood
    else if current.submission.pinnedHost ≠ "" ∧
        ¬ sameIgnoringCase selected.targetId current.submission.pinnedHost then pure .gone
    else do
      let _ ← .tries (.recover jobId)
      rewriteQueuedPlacement lease selected.placement jobId fuel
  | some _ => invalid "queued job"

/-- `persist_predicted_savings`: what the selected target saves against the first
eligible one that is priced. -/
def persistPredictedSavings (selected : PlacementCandidate) (candidates : List PlacementCandidate) :
    Autonomous PUnit :=
  match selected.expectedTotalCostUsd,
    (candidates.find? fun c => c.eligible && c.expectedTotalCostUsd.isSome) with
  | some selectedCost, some baseline =>
    if baseline.targetId = selected.targetId ∨
        baseline.expectedTotalCostUsd.any (· ≤ selectedCost) then pure ()
    else do
      let savings ← .take .uuid
      if ← .tries (.create .savingsWrite (.savings savings) .savings) then pure ()
      else .fail (.storageConflict "immutable autonomy object already exists")
  | _, _ => pure ()

def writeDecision (decision : String) : Autonomous PUnit := do
  if ← .tries (.create .decisionWrite (.decision decision) .decision) then pure ()
  else .fail (.storageConflict s!"decision {decision} already exists")

def persistUnplacedDecision (policy : PlacementPolicy) : Autonomous PUnit := do
  let now ← .take (.now .clock)
  let _ ← orFail (expiresAt now policy.decisionTtlSeconds "limits.decision_ttl_seconds")
  let decision ← .take .uuid
  writeDecision decision

/-! ## The pass -/

structure PlacementRunSummary where
  consideredJobs : List String
  decidedJobs : List String
  changedJobs : List String
  noEligibleTarget : List String
  activeLeaseSkips : List String

/-- A decision of the pass: the selected candidate, the place of the offer it was
computed for, the candidates of the job, and how the job was left. -/
structure Decision where
  jobId : String
  selected : PlacementCandidate
  offer : ℕ
  candidates : List PlacementCandidate
  placed : Placed

/-- What the pass carries along, with its decisions. -/
structure Pass where
  offers : List CapacityOffer
  budget : CloudBudget
  summary : PlacementRunSummary
  decisions : List Decision

/-- `reserve_offer`: the first offer with the target and the accelerator. -/
def reserveOffer (selected : PlacementCandidate) : List CapacityOffer → List CapacityOffer
  | [] => []
  | offer :: rest =>
    if offer.targetId = selected.targetId ∧ offer.acceleratorType = selected.acceleratorType then
      { offer with availableInstances := max (offer.availableInstances - 1) (-2 ^ 63) } :: rest
    else offer :: reserveOffer selected rest

def CloudBudget.after (budget : CloudBudget) (selected : PlacementCandidate) : CloudBudget :=
  if !selected.existingCapacity ∧ selected.provider.isCloud then
    { hourlyUsd := match selected.hourlyComputeUsd with
        | some hourly => budget.hourlyUsd.spend hourly
        | none => budget.hourlyUsd
      totalUsd := match selected.expectedTotalCostUsd with
        | some cost => budget.totalUsd.spend cost
        | none => budget.totalUsd }
  else budget

/-- The pass after a decision whose job was left as `placed`. -/
def Pass.decided (pass : Pass) (job : PlanJob) (selected : PlacementCandidate) (offer : ℕ)
    (candidates : List PlacementCandidate) (placed : Placed) : Pass :=
  { offers := if placed = .changed then reserveOffer selected pass.offers else pass.offers
    budget := if placed = .changed then pass.budget.after selected else pass.budget
    summary := { pass.summary with
      consideredJobs := pass.summary.consideredJobs ++ [job.jobId]
      decidedJobs := pass.summary.decidedJobs ++ [job.jobId]
      changedJobs := if placed = .changed then pass.summary.changedJobs ++ [job.jobId]
        else pass.summary.changedJobs }
    decisions := pass.decisions ++ [⟨job.jobId, selected, offer, candidates, placed⟩] }

def Pass.considered (pass : Pass) (job : PlanJob) : Pass :=
  { pass with summary := { pass.summary with
      consideredJobs := pass.summary.consideredJobs ++ [job.jobId] } }

def Pass.unplaced (pass : Pass) (job : PlanJob) : Pass :=
  { pass with summary := { pass.summary with
      consideredJobs := pass.summary.consideredJobs ++ [job.jobId]
      noEligibleTarget := pass.summary.noEligibleTarget ++ [job.jobId] } }

def Pass.skipped (pass : Pass) (job : PlanJob) : Pass :=
  { pass with summary := { pass.summary with
      consideredJobs := pass.summary.consideredJobs ++ [job.jobId]
      activeLeaseSkips := pass.summary.activeLeaseSkips ++ [job.jobId] } }

/-- The lease of a decision that could not be carried out is given back. -/
def giveBack {α : Type} (jobId : String) (lease : PlacementLease) (error : StorageError) :
    Autonomous α := do
  let _ : Except StorageError Bool ← (releasePlacementLease jobId lease.token).attempt
  .fail error

def carryOut (fuel : ℕ) (decision : String) (lease : PlacementLease) (job : PlanJob)
    (selected : PlacementCandidate) (candidates : List PlacementCandidate) :
    Autonomous Placed := do
  match ← (writeDecision decision).attempt with
  | .error error => giveBack job.jobId lease error
  | .ok _ =>
    match ← (updateJobPlacement fuel lease job.jobId selected).attempt with
    | .error error => giveBack job.jobId lease error
    | .ok .changed => do
        let _ : Except StorageError PUnit ← (persistPredictedSavings selected candidates).attempt
        pure .changed
    | .ok placed => pure placed

def planJob (fuel : ℕ) (market : Market) (pass : Pass) (job : PlanJob) : Autonomous Pass :=
  if job.pinnedHost ≠ "" ∧ job.pinnedHost ≠ job.assignedTo then pure (pass.considered job)
  else
    let candidates := candidatesForJob job pass.offers pass.budget market
    match selectCandidate candidates with
    | none => do
        let _ ← persistUnplacedDecision market.policy
        pure (pass.unplaced job)
    | some (selected, offer) => do
        let decision ← .take .uuid
        let now ← .take (.now .clock)
        match ← acquirePlacementLease job.jobId decision "coordinator-placement"
            (some market.policy.decisionTtlSeconds) now with
        | none => pure (pass.skipped job)
        | some lease => do
            let placed ← carryOut fuel decision lease job selected candidates
            pure (pass.decided job selected offer candidates placed)

/-- `plan_queued`, over the offers and the queued jobs it read. -/
def planQueued (fuel : ℕ) (market : Market) (offers : List CapacityOffer) (budget : CloudBudget)
    (queued : List PlanJob) : Autonomous Pass :=
  let start : Pass := ⟨offers, budget, ⟨[], [], [], [], []⟩, []⟩
  if market.policy.report || market.policy.emergencyPaused then pure start
  else
    (queued.insertionSort fun left right => jobOrder left right ≠ .gt).foldlM
      (planJob fuel market) start

end Stado.Autonomy
