import Mathlib.Algebra.Order.Ring.Rat
import Mathlib.Data.List.Sort
import Mathlib.Order.WithBot
import Stado.Queue.Records

/-!
# Candidates for a queued job

Every offer of capacity is priced for a job and checked against the job, the
policy and what is left of the budgets. Prices, times and ratios are exact
rationals; the price book, the measured energy and the measured run times are
functions of what they are asked for.
-/

namespace Stado.Autonomy

/-! ## Offers and candidates -/

/-- `ProviderId`; the optimizer names four of them. -/
inductive ProviderId where
  | gcp | azure | aws | localHost
  | other (id : String)
deriving DecidableEq

def ProviderId.asStr : ProviderId → String
  | .gcp => "gcp"
  | .azure => "azure"
  | .aws => "aws"
  | .localHost => "local"
  | .other id => id

/-- The providers whose new capacity counts against the budgets. -/
def ProviderId.isCloud : ProviderId → Bool
  | .gcp | .aws | .azure => true
  | _ => false

/-- What the optimizer reads of a queued job. -/
structure PlanJob where
  jobId : String
  command : String
  priority : ℤ
  deadlineAt : Option Stamp
  deferrable : Bool
  runtimeSecondsEstimate : ℚ
  preemptible : Bool
  maxPreemptsBeforeOndemand : ℤ
  gpuMemGb : ℤ
  gpuType : String
  machineType : String
  region : String
  cpuCores : ℤ
  memoryGb : ℤ
  platformOs : String
  architecture : String
  maxCostPerHourUsd : ℚ
  provider : String
  pinToProvider : Bool
  pinnedHost : String
  assignedTo : String
  startupScriptUri : String
  outputUri : String

/-- A unit of capacity the offer read found. -/
structure CapacityOffer where
  targetId : String
  provider : ProviderId
  region : Option String
  acceleratorType : String
  machineType : String
  freeVramGb : ℤ
  availableInstances : ℤ
  existing : Bool
deriving DecidableEq

/-- A later start of a deferrable job, and the cost of starting now it beat. -/
structure DeferredStart where
  startAt : Stamp
  delaySeconds : ℚ
  costUsd : ℚ
  hourlyUsd : ℚ
  nowCostUsd : ℚ
deriving DecidableEq

structure PlacementCandidate where
  targetId : String
  provider : ProviderId
  region : Option String
  machineType : String
  acceleratorType : String
  vramGb : ℤ
  availableInstances : ℤ
  existingCapacity : Bool
  preemptible : Bool
  startupSeconds : ℚ
  runtimeSeconds : Option ℚ
  hourlyComputeUsd : Option ℚ
  computeCostUsd : Option ℚ
  storageCostUsd : ℚ
  egressCostUsd : Option ℚ
  retryRiskCostUsd : Option ℚ
  sloPenaltyUsd : ℚ
  expectedTotalCostUsd : Option ℚ
  expectedFinishSeconds : Option ℚ
  priceSource : Option String
  eligible : Bool
  rejectedReasons : List String
  deferredStart : Option DeferredStart
deriving DecidableEq

/-- The remaining headroom for new cloud capacity, if it is bounded; the bottom
admits nothing at any price. -/
abbrev Headroom := Option (WithBot ℚ)

/-- What is left after `cost` more. -/
def Headroom.spend (headroom : Headroom) (cost : ℚ) : Headroom :=
  headroom.map fun remaining => remaining.map fun amount => amount - cost

structure PriceQuote where
  hourlyUsd : ℚ
  source : String

structure PlacementFeedback where
  targetId : String
  startupSeconds : Option ℚ
  succeeded : Bool

/-- Each owned host's measured energy at its declared tariff: per hour now, and at
an hour. -/
structure Energy where
  hourly : String → Except String ℚ
  hourlyAt : String → ℤ → Except String ℚ

structure PlacementPolicy where
  report : Bool
  emergencyPaused : Bool
  decisionTtlSeconds : ℕ
  allowSpot : Bool
  requireCheckpointForSpot : Bool
  accountForEgress : Bool
  allowedRegions : List String
  hourlyUsd : Option ℚ
  maxSingleActionUsd : Option ℚ

/-- What a pass reads before it walks the queue. -/
structure Market where
  policy : PlacementPolicy
  feedback : List PlacementFeedback
  energy : Except String Energy
  /-- `PriceBook::find_hourly`. -/
  findHourly : ProviderId → Option String → String → String → Bool → Option PriceQuote
  /-- The measured median wall time of a command on an accelerator. -/
  wallTime : String → String → Option ℚ
  /-- `offer_regions`. -/
  offerRegions : CapacityOffer → List String
  planningNow : ℕ

/-! ## What feedback says about a target -/

/-- `samples::upper_median`. -/
def upperMedian (values : List ℚ) : Option ℚ :=
  let sorted := values.insertionSort (· ≤ ·)
  ((sorted.zip sorted.reverse).find? fun pair => pair.2 ≤ pair.1).map Prod.fst

def observedStartupSeconds (feedback : List PlacementFeedback) (target : String) : Option ℚ :=
  upperMedian ((feedback.filter fun entry => entry.targetId = target).filterMap
    fun entry => entry.startupSeconds)

def observedFailureProbability (feedback : List PlacementFeedback) (target : String) : Option ℚ :=
  let samples := feedback.filter fun entry => entry.targetId = target
  if samples.isEmpty then none
  else some ((samples.filter fun entry => !entry.succeeded).length / samples.length)

def crossesProviderBoundary (job : PlanJob) (provider : ProviderId) : Bool :=
  [job.startupScriptUri, job.outputUri].any fun uri =>
    uri ≠ "" &&
      ((uri.startsWith "gs://" && provider ≠ .gcp) ||
        (uri.startsWith "s3://" && provider ≠ .aws) ||
        (uri.startsWith "https://" && (uri.splitOn "blob.core.windows.net").length > 1 &&
          provider ≠ .azure))

def estimateWallTime (market : Market) (job : PlanJob) (accelerator : String) : Option ℚ :=
  if 0 < job.runtimeSecondsEstimate then some job.runtimeSecondsEstimate
  else (market.wallTime job.command accelerator).filter fun median => 0 < median

/-! ## Starting later -/

def nanosPerHour : ℤ := 3600 * 1000000000

/-- A rational cut to a whole number, towards zero. -/
def truncated (q : ℚ) : ℤ := Int.tdiv q.num q.den

def wholeSeconds (start until_ : ℤ) : ℤ := Int.tdiv (until_ - start) 1000000000

/-- The hours a run from `start` overlaps, each by the milliseconds it covers. -/
def hoursOf (start finish : ℤ) : List (ℤ × ℤ) :=
  let first := start - start % nanosPerHour
  (List.range ((finish - first + nanosPerHour - 1) / nanosPerHour).toNat).map fun k =>
    let hour := first + k * nanosPerHour
    (hour, max 0 (Int.tdiv (min finish (hour + nanosPerHour) - max start hour) 1000000))

/-- The cost of a run of `seconds` from `start`, each hour at its tariff. -/
def runCost (energy : Energy) (host : String) (seconds : ℚ) (start : ℤ) : Option ℚ :=
  (hoursOf start (start + truncated (seconds * 1000) * 1000000)).foldlM
    (fun cost hour =>
      match energy.hourlyAt host hour.1 with
      | .ok rate => some (cost + rate * (hour.2 / 1000) / 3600)
      | .error _ => none) 0

def cheapestOf (energy : Energy) (host : String) (seconds nowCost : ℚ) :
    List ℤ → Option (ℤ × ℚ) → Option (Option (ℤ × ℚ))
  | [], best => some best
  | start :: rest, best =>
    match runCost energy host seconds start with
    | none => none
    | some cost =>
      if cost < (best.map Prod.snd).getD nowCost then
        cheapestOf energy host seconds nowCost rest (some (start, cost))
      else cheapestOf energy host seconds nowCost rest best

/-- `cheapest_start`: the cheapest whole-hour start that still meets the deadline. -/
def cheapestStart (job : PlanJob) (energy : Energy) (host : String) (seconds : ℚ) (now : ℕ) :
    Option DeferredStart := do
  let deadline ← job.deadlineAt.bind Stamp.read
  let slack : ℚ := wholeSeconds now deadline - seconds
  if slack < 0 then none
  else
    let nowCost ← runCost energy host seconds now
    let first : ℤ := (now : ℤ) - now % nanosPerHour + nanosPerHour
    let starts := (List.range (truncated (slack / 3600) + 2).toNat).map fun k =>
      first + k * nanosPerHour
    let best ← cheapestOf energy host seconds nowCost
      (starts.takeWhile fun start => (wholeSeconds now start : ℚ) ≤ slack) none
    let (start, cost) ← best
    some
      { startAt := .instant start.toNat
        delaySeconds := wholeSeconds now start
        costUsd := cost
        hourlyUsd := cost * 3600 / seconds
        nowCostUsd := nowCost }

/-! ## One offer, priced and checked -/

/-- What is left of the two budgets. -/
structure CloudBudget where
  hourlyUsd : Headroom
  totalUsd : Headroom

/-- A figure that is unknown or more than what is left. -/
def exceeds (headroom : Headroom) (figure : Option ℚ) : Bool :=
  match headroom, figure with
  | none, _ => false
  | some _, none => true
  | some remaining, some amount => remaining < (amount : WithBot ℚ)

/-- The figures of a job on an offer. -/
structure Pricing where
  startup : ℚ
  owned : Option (Except String ℚ)
  deferred : Option DeferredStart
  hourly : Option ℚ
  expectedFinish : Option ℚ
  deadlineRejection : Option String
  sloPenalty : ℚ
  compute : Option ℚ
  retry : Option ℚ
  egress : Option ℚ
  total : Option ℚ

def sloPenalty (job : PlanJob) (market : Market) (hourly expectedFinish : Option ℚ) :
    Option String × ℚ :=
  match job.deadlineAt, expectedFinish with
  | some (.instant deadline), some finish =>
    let remaining : ℚ := ((deadline : ℤ) - market.planningNow) / 1000000000
    let lateness := max (finish - remaining) 0
    (if 0 < lateness then
        some s!"completion deadline would be missed by {reprStr lateness} seconds"
      else none, hourly.getD 0 * lateness / 3600)
  | some (.unreadable text), some _ => (some s!"invalid completion deadline: {text}", 0)
  | _, _ => (none, 0)

def pricing (job : PlanJob) (offer : CapacityOffer) (runtime : Option ℚ)
    (quote : Option PriceQuote) (market : Market) : Pricing :=
  let startup :=
    if offer.existing then 0 else (observedStartupSeconds market.feedback offer.targetId).getD 0
  let failureProbability := (observedFailureProbability market.feedback offer.targetId).getD 0
  let ownedHost :=
    if offer.provider = .localHost ∧ quote.isNone then
      some (if offer.targetId.startsWith "local-" then (offer.targetId.drop 6).toString
        else offer.targetId)
    else none
  let owned := ownedHost.map fun host =>
    match market.energy with
    | .ok energy => energy.hourly host
    | .error cause => .error cause
  let deferred :=
    match ownedHost, market.energy, runtime with
    | some host, .ok energy, some run =>
      if job.deferrable then cheapestStart job energy host (run + startup) market.planningNow
      else none
    | _, _, _ => none
  let hourly :=
    match deferred, owned with
    | some start, _ => some start.hourlyUsd
    | none, some (.ok rate) => some rate
    | none, some (.error _) => none
    | none, none => quote.map PriceQuote.hourlyUsd
  let delay := (deferred.map DeferredStart.delaySeconds).getD 0
  let expectedFinish := runtime.map fun run => delay + run + startup
  let slo := sloPenalty job market hourly expectedFinish
  let compute :=
    match deferred with
    | some start => some start.costUsd
    | none => hourly.bind fun rate => runtime.map fun run => rate * (run + startup) / 3600
  let retry := compute.map fun cost => cost * failureProbability
  let egress :=
    if market.policy.accountForEgress ∧ crossesProviderBoundary job offer.provider then none
    else some 0
  { startup := startup
    owned := owned
    deferred := deferred
    hourly := hourly
    expectedFinish := expectedFinish
    deadlineRejection := slo.1
    sloPenalty := slo.2
    compute := compute
    retry := retry
    egress := egress
    total := compute.bind fun cost => egress.bind fun out => retry.map fun risk =>
      cost + out + risk + slo.2 }

/-- Why an owned host has no measured hourly cost. -/
def Pricing.unmeasured (p : Pricing) : Option String :=
  match p.owned with
  | some (.error cause) => some cause
  | _ => none

/-- `eq_ignore_ascii_case`. -/
def sameIgnoringCase (a b : String) : Bool := a.toLower = b.toLower

/-- Every reason an offer cannot be used, in the order they are looked for. -/
def rejections (job : PlanJob) (offer : CapacityOffer) (runtime : Option ℚ)
    (quote : Option PriceQuote) (regions : List String) (budget : CloudBudget) (market : Market)
    (p : Pricing) : List String :=
  let policy := market.policy
  List.filterMap (fun reason : Bool × String => if reason.1 then some reason.2 else none)
    [ (runtime.isNone, s!"no run time for this job on {offer.targetId}: " ++
        "no runtime_seconds_estimate was stated and no completed run was measured"),
      (p.deadlineRejection.isSome, p.deadlineRejection.getD ""),
      (offer.availableInstances ≤ 0, "no available instances"),
      (0 < offer.freeVramGb ∧ offer.freeVramGb < job.gpuMemGb,
        s!"free VRAM {offer.freeVramGb} GiB is below required {job.gpuMemGb} GiB"),
      (job.pinToProvider ∧ job.provider ≠ "" ∧ job.provider ≠ offer.provider.asStr,
        s!"job is pinned to provider {job.provider}"),
      (job.pinnedHost ≠ "" ∧ ¬ sameIgnoringCase offer.targetId job.pinnedHost,
        s!"job is pinned to host {job.pinnedHost}"),
      (!offer.existing ∧ offer.provider.isCloud ∧
          (exceeds budget.hourlyUsd p.hourly ∨ exceeds budget.totalUsd p.total),
        "budget guard blocks new cloud capacity"),
      (job.gpuType ≠ "" ∧ job.gpuType ≠ offer.acceleratorType,
        s!"accelerator must be {job.gpuType}"),
      (job.machineType ≠ "" ∧ offer.machineType ≠ "" ∧ job.machineType ≠ offer.machineType,
        s!"machine type must be {job.machineType}"),
      (job.region ≠ "" ∧ offer.region ≠ some job.region, s!"region must be {job.region}"),
      (!offer.existing ∧ job.region ≠ "" ∧ regions.any (· ≠ job.region),
        s!"provider substitution could leave required region {job.region}"),
      (0 < job.cpuCores ∨ 0 < job.memoryGb,
        "provider shape capacity is unknown for explicit CPU/RAM constraints"),
      (job.platformOs ≠ "" ∧ offer.provider ≠ .localHost ∧
          ¬ sameIgnoringCase job.platformOs "linux",
        s!"platform {job.platformOs} is unavailable"),
      (job.architecture ≠ "" ∧ offer.provider ≠ .localHost ∧ job.architecture ≠ "amd64" ∧
          job.architecture ≠ "x86_64",
        s!"architecture {job.architecture} is unavailable"),
      (policy.allowedRegions ≠ [] ∧ ((∀ region ∈ offer.region, region ∉ policy.allowedRegions) ∨
            (!offer.existing ∧ regions.any fun region => region ∉ policy.allowedRegions)),
        "region is not allowed by policy"),
      (quote.isNone ∧ offer.provider ≠ .localHost, "no fresh dynamic hourly price"),
      (p.unmeasured.isSome, s!"owned hardware has no measured hourly cost: " ++
        p.unmeasured.getD "" ++ "; declare the host's power_tariff and let its beacon measure " ++
        "an hour (`stado cost host`)"),
      (p.egress.isNone, "cross-provider data egress cannot be priced from job metadata"),
      (0 < job.maxCostPerHourUsd ∧ p.hourly.any (job.maxCostPerHourUsd < ·),
        s!"hourly rate exceeds job cap {reprStr job.maxCostPerHourUsd}"),
      (policy.hourlyUsd.any fun limit => p.hourly.any (limit < ·),
        s!"hourly rate exceeds autonomy budget {reprStr policy.hourlyUsd}"),
      (policy.maxSingleActionUsd.any fun limit => p.total.any (limit < ·),
        s!"expected job cost exceeds action budget {reprStr policy.maxSingleActionUsd}") ]

def candidate (job : PlanJob) (offer : CapacityOffer) (runtime : Option ℚ) (preemptible : Bool)
    (quote : Option PriceQuote) (regions : List String) (budget : CloudBudget) (market : Market) :
    PlacementCandidate :=
  let p := pricing job offer runtime quote market
  let rejected := rejections job offer runtime quote regions budget market p
  { targetId := offer.targetId
    provider := offer.provider
    region := offer.region
    machineType := offer.machineType
    acceleratorType := offer.acceleratorType
    vramGb := offer.freeVramGb
    availableInstances := offer.availableInstances
    existingCapacity := offer.existing
    preemptible := preemptible
    startupSeconds := p.startup
    runtimeSeconds := runtime
    hourlyComputeUsd := p.hourly
    computeCostUsd := p.compute
    storageCostUsd := 0
    egressCostUsd := p.egress
    retryRiskCostUsd := p.retry
    sloPenaltyUsd := p.sloPenalty
    expectedTotalCostUsd := p.total
    expectedFinishSeconds := p.expectedFinish
    priceSource := quote.map PriceQuote.source
    eligible := rejected.isEmpty && p.total.isSome
    rejectedReasons := rejected
    deferredStart := p.deferred }

def dearest (quotes : List PriceQuote) : Option PriceQuote :=
  quotes.foldl (fun best quote =>
    match best with
    | none => some quote
    | some other => if quote.hourlyUsd < other.hourlyUsd then some other else some quote) none

def candidateFor (job : PlanJob) (budget : CloudBudget) (market : Market) (offer : CapacityOffer) :
    PlacementCandidate :=
  let policy := market.policy
  let preemptible := job.preemptible && policy.allowSpot &&
    (!policy.requireCheckpointForSpot || 0 < job.maxPreemptsBeforeOndemand)
  let find := fun region =>
    market.findHourly offer.provider region offer.machineType offer.acceleratorType preemptible
  let regions := market.offerRegions offer
  let quote := (dearest (regions.filterMap fun region => find (some region))).or
    (find offer.region)
  candidate job offer (estimateWallTime market job offer.acceleratorType) preemptible quote regions
    budget market

def candidatesForJob (job : PlanJob) (offers : List CapacityOffer) (budget : CloudBudget)
    (market : Market) : List PlacementCandidate :=
  offers.map (candidateFor job budget market)

end Stado.Autonomy
