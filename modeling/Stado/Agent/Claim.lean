import Mathlib.Data.List.Sort
import Stado.Library.Machine

/-!
# Claiming work on one host

The local agent's tick as far as it decides what starts: the gates that say how
much VRAM a claim may see, the claim scan that walks the queue's candidates
against that figure and a budget for each board, and the slots between ticks.
-/

namespace Stado.Agent

/-! ## The queue's documents -/

/-- The fields of a queued job that admission reads. -/
structure Job where
  jobId : String
  command : String
  gpuMemGb : Int64
  gpuType : String
  machineType : String
  provider : String
  pinToProvider : Bool
  priority : Int64
  runId : String
  outputUri : String
  pinnedHost : String
  assignedTo : String
  exclusive : Bool
  platformOs : String
  architecture : String
  cpuCores : Int64
  repo : String
  aptPackages : List String
  preCommand : String
  deriving DecidableEq

def CPU_MACHINE_TYPE : String := "e2-standard-8"

def RELEASE_JOB_PRIORITY : Int64 := 90000000

def RELEASE_DELIVERY_JOB_COMMAND : String :=
  "/usr/bin/tar -xzf release.tar.gz && exec ./stado release delivery worker " ++
    "--request delivery-request.json"

/-- `split_once`: around the first place `pat` stands. -/
def splitOnce (pat : List Char) : List Char → Option (List Char × List Char)
  | [] => if pat.isEmpty then some ([], []) else none
  | c :: rest =>
    if pat.isPrefixOf (c :: rest) then some ([], (c :: rest).drop pat.length)
    else (splitOnce pat rest).map fun parts => (c :: parts.1, parts.2)

def contains (s pat : String) : Bool := (splitOnce pat.toList s.toList).isSome

def buildCacheKey (job : Job) : Option (List Char × List Char) := do
  let (_, rest) ← splitOnce "/runs/build/".toList job.outputUri.toList
  match rest.splitOn '/' with
  | product :: build :: word :: platform :: _ =>
    if product.isEmpty || build.isEmpty || word != "platforms".toList || platform.isEmpty then
      none
    else some (product, platform)
  | _ => none

def isSignedStadoDelivery (job : Job) : Bool :=
  !(0 < job.gpuMemGb) &&
    job.priority == RELEASE_JOB_PRIORITY &&
    job.runId != "" &&
    job.pinnedHost != "" &&
    job.command == RELEASE_DELIVERY_JOB_COMMAND &&
    job.outputUri.startsWith "stado://probierz/runs/release-pipeline/stado/" &&
    contains job.outputUri "/deliveries/" &&
    job.outputUri.endsWith "/output"

def stagesNothing (job : Job) : Bool :=
  !(0 < job.gpuMemGb) &&
    job.pinnedHost != "" &&
    job.repo == "" &&
    job.aptPackages.isEmpty &&
    job.preCommand == "" &&
    job.outputUri == ""

def requestedCpuCores (job : Job) : Int64 := max job.cpuCores 1

/-! ## The host -/

/-- One accelerator, as the driver reports it. -/
structure GpuCard where
  uuid : String
  totalVramGb : Int64
  freeVramGb : Int64
  deriving DecidableEq

/-- One reading of the driver: its boards in its own order, each under its own
UUID. -/
structure Driver where
  boards : List GpuCard
  named : (boards.map (·.uuid)).Nodup

inductive GpuMode where
  | exclusive
  | yieldable
  deriving DecidableEq

/-- The inference deployment that holds this host's boards, or the one it
names. -/
structure Reservation where
  deployment : String
  gpuMode : GpuMode
  gpu : Option String

/-- A running job. `need` is the VRAM its claim was judged by. -/
structure Slot where
  job : Job
  need : Int64
  peakVramGb : Int64
  deriving DecidableEq

/-- What the claim rules read of the agent and of code beside them: the model a
command names, the fleet's model policy, the capability tables. -/
structure Host where
  gpuType : String
  kind : String
  consumerId : String
  toLowercase : String → String
  platformAccepts : String → String → Bool
  executesLocally : Bool
  modelOf : String → Option String
  isLocalOnlyModel : String → Bool
  isExclusiveModel : String → Bool
  sameVariant : String → String → Bool
  providerIsLocal : String → Bool
  compatAccelTypes : Int64 → List String
  systemPackagesEligible : Job → Bool

/-- One reading of the model sizes and of the driver's figures by job;
`estimate` answers nothing where the store fails. -/
structure Readings where
  estimate : String → Option (Option Int64)
  live : String → Option Int64

namespace Host

variable (H : Host)

def slotIsExclusive (slot : Slot) : Bool :=
  slot.job.exclusive || (H.modelOf slot.job.command).any H.isExclusiveModel

def namesThisConsumer (identity : String) : Bool :=
  if identity == "" || H.consumerId == "" then false
  else
    let identity := H.toLowercase identity
    let cid := H.toLowercase H.consumerId
    let machine := (cid.dropPrefix (H.toLowercase H.kind ++ "-")).toString
    let bare := (machine.dropSuffix ".local").toString
    identity == cid || identity == machine || identity == bare

def eligibilityRefusal (job : Job) (vramGb : Int64) (activeJobCount : ℕ) (pinnedOnly : Bool) :
    Option String :=
  let pinMatches := H.namesThisConsumer job.pinnedHost
  let assignedMatches := H.namesThisConsumer job.assignedTo
  if job.pinnedHost != "" && !pinMatches then some "pinned_host names another consumer"
  else if job.assignedTo != "" && H.consumerId != "" && !assignedMatches then
    some "assigned_to names another consumer"
  else if pinnedOnly && !pinMatches && !assignedMatches then
    some "host claims pinned work only and this job names nobody"
  else if job.exclusive && decide (0 < activeJobCount) then
    some "job is exclusive and another job is running"
  else if !H.platformAccepts job.platformOs job.architecture then
    some "platform_os/architecture is not this machine"
  else if !H.executesLocally && (H.modelOf job.command).any H.isLocalOnlyModel then
    some "command names a local-only model on a non-local executor"
  else if job.pinToProvider && !H.sameVariant job.provider H.kind then
    some "pin_to_provider names another provider"
  else if !(H.providerIsLocal job.provider || job.gpuType == "" || job.gpuType == H.gpuType ||
      (decide (0 < vramGb) && (H.compatAccelTypes vramGb).contains job.gpuType)) then
    some "gpu_type is not this machine's accelerator"
  else none

end Host

def declaredVram (job : Job) (estimate : Option Int64) : Int64 :=
  match estimate with
  | some measured => max job.gpuMemGb measured
  | none => job.gpuMemGb

/-- Best known VRAM footprint of a running slot. -/
def slotVram (R : Readings) (slot : Slot) : Option Int64 :=
  (R.estimate slot.job.command).map fun estimate =>
    let counted := max (declaredVram slot.job estimate) slot.peakVramGb
    match R.live slot.job.jobId with
    | some live => max counted live
    | none => counted

def slotsVram (R : Readings) : List Slot → Option Int64
  | [] => some 0
  | slot :: rest => do
      let vram ← slotVram R slot
      let others ← slotsVram R rest
      some (vram + others)

/-! ## The gates -/

/-- The free VRAM one job can use: what the bookkeeping leaves of the total,
and no more than the emptiest board the driver reports when it reports one. -/
def freeForOneJob (totalVramGb usedVram : Int64) (cards : List GpuCard) : Int64 :=
  let booked := totalVramGb - min usedVram totalVramGb
  match ((cards.map (·.freeVramGb)).filter (0 ≤ ·)).max? with
  | some emptiest => min booked emptiest
  | none => booked

/-- What one tick reads of the host before its scan, and what the readings made
by other parts of the agent came to. -/
structure Reading where
  totalVramGb : Int64
  pinnedOnly : Bool
  selfTerminated : Bool
  reservation : Except String (Option Reservation)
  vastActive : Bool
  sizes : Readings
  driver : Except String Driver
  queuedWins : Bool
  containerRunning : Except String Bool
  pauseSucceeds : Bool
  refuseDisk : Bool
  settling : Bool
  cudaOk : Bool
  admits : Bool
  availableCpuCores : Option Int64

/-- What the gates have left: the VRAM counted as used and the boards offered. -/
structure Offer where
  usedVram : Int64
  cards : List GpuCard

section Gates

variable (H : Host) (A : Reading) (slots : List Slot)

/-- Used VRAM, with the whole total for what holds the host, and every board
the driver reports, emptiest first. -/
def measuredOffer : Option Offer :=
  (slotsVram A.sizes slots).map fun booked =>
    let usedVram := if slots.any H.slotIsExclusive then A.totalVramGb else booked
    let usedVram :=
      match A.reservation with
      | .ok _ => usedVram
      | .error _ => A.totalVramGb
    match A.driver with
    | .ok driver => ⟨usedVram, driver.boards.insertionSort fun a b => b.freeVramGb ≤ a.freeVramGb⟩
    | .error _ => ⟨A.totalVramGb, []⟩

def withdrawExclusive (reservation : Reservation) (offer : Offer) : Offer :=
  match reservation.gpu with
  | some board =>
    if offer.cards.any (·.uuid == board) then
      let cards := offer.cards.filter (·.uuid != board)
      ⟨if cards.isEmpty then A.totalVramGb else offer.usedVram, cards⟩
    else ⟨A.totalVramGb, offer.cards⟩
  | none => ⟨A.totalVramGb, offer.cards⟩

/-- A yieldable reservation holds every board while its engine serves; the tick
ends where the engine is paused or resumed. -/
def withdrawYieldable (offer : Offer) : Option Offer :=
  let shouldYield := decide (0 < offer.usedVram) || A.queuedWins
  match A.containerRunning with
  | .ok true =>
    if shouldYield && A.pauseSucceeds then none else some ⟨A.totalVramGb, offer.cards⟩
  | .ok false => if !shouldYield && slots.isEmpty then none else some offer
  | .error _ => some ⟨A.totalVramGb, offer.cards⟩

/-- The free VRAM and the boards for the rest of this tick, or nothing where the
tick ends here. -/
def beforeAdmission : Option (Int64 × List GpuCard) :=
  if A.selfTerminated || A.vastActive then none
  else
    (measuredOffer H A slots).bind fun offer =>
      let held :=
        match A.reservation with
        | .ok (some reservation) =>
          match reservation.gpuMode with
          | .exclusive => some (withdrawExclusive A reservation offer)
          | .yieldable => withdrawYieldable A slots offer
        | .ok none => some offer
        | .error _ => some offer
      held.map fun offer =>
        (freeForOneJob A.totalVramGb offer.usedVram offer.cards, offer.cards)

def measure (offered : Int64 × List GpuCard) : Option (Int64 × List GpuCard) :=
  if A.refuseDisk || A.settling then none
  else if decide (0 < offered.1) && slots.isEmpty && H.gpuType.startsWith "nvidia" && !A.cudaOk then
    some (0, [])
  else some offered

end Gates

/-! ## The claim scan -/

/-- A job the scan started: the VRAM it was judged by and the board named for
it. -/
structure Start where
  job : Job
  need : Int64
  placement : Option String
  running : ℕ
  deriving DecidableEq

/-- One claim scan: what it opened with, its budgets, and what it started,
newest first. -/
structure Scan where
  reading : Reading
  cardBudget : List (String × Int64)
  freeVramGb : Int64
  availableCpuCores : Int64
  started : List Start
  ended : Bool

/-- How the janitor's lock answered. -/
inductive Lock where
  | held
  | busy
  | failed

/-- How `start_slot` ended: the claim's own error, a decline, another error,
nothing started, or a running process. -/
inductive Spawn where
  | claim
  | declined
  | other
  | none
  | started

/-- One candidate of the scan with what was read for it. RAM is counted in
floating point: whether it fits, and whether any is left afterwards, are read
off here. -/
structure Turn where
  job : Job
  sizes : Readings
  ramFits : Bool
  ramLeft : Bool
  lock : Lock
  spawn : Spawn

/-- What `candidate_fit` says of a candidate. -/
inductive Fit where
  | failed
  | refused
  | fits (need requestedCpuCores : Int64)
  deriving DecidableEq

def Turn.cpuOnly (turn : Turn) : Bool :=
  !(0 < turn.job.gpuMemGb) && turn.job.machineType == CPU_MACHINE_TYPE

/-- The VRAM the candidate needs: nothing where the store fails. -/
def Turn.need (turn : Turn) : Option Int64 :=
  if turn.cpuOnly then some turn.job.gpuMemGb
  else (turn.sizes.estimate turn.job.command).map (declaredVram turn.job)

def candidateFit (scan : Scan) (slots : List Slot) (turn : Turn) : Fit :=
  if scan.availableCpuCores < requestedCpuCores turn.job then .refused
  else if !turn.ramFits then .refused
  else
    match turn.need with
    | none => .failed
    | some need =>
      if 0 < need ∧ scan.freeVramGb < need then .refused
      else
        match slotsVram turn.sizes slots with
        | none => .failed
        | some held =>
          if 0 < need ∧ scan.reading.totalVramGb < need + held then .refused
          else .fits need (requestedCpuCores turn.job)

/-- `max_by_key` on the free VRAM: the last entry of those with the most. -/
def emptiest : List (String × Int64) → Option (String × Int64)
  | [] => none
  | entry :: rest =>
    match emptiest rest with
    | some best => if best.2 < entry.2 then some entry else some best
    | none => some entry

/-- Which board: the emptiest that can hold the job. One card, or none, means
nothing to choose and the job keeps the driver's default. -/
def placementFor (need : Int64) (cardBudget : List (String × Int64)) : Option String :=
  if cardBudget.length ≤ 1 then none
  else (emptiest (cardBudget.filter fun entry => need ≤ entry.2)).map (·.1)

/-- Take `need` off the first entry of the board. -/
def chargeBoard (uuid : String) (need : Int64) : List (String × Int64) → List (String × Int64)
  | [] => []
  | (id, free) :: rest =>
    if id = uuid then (id, free - min need free) :: rest
    else (id, free) :: chargeBoard uuid need rest

/-- `i64::saturating_sub`. -/
def saturatingSub (a b : Int64) : Int64 :=
  Int64.ofInt (max Int64.minValue.toInt (min Int64.maxValue.toInt (a.toInt - b.toInt)))

section Turns

variable (H : Host)

/-- Whether the workload may start under the janitor's lock, and where not,
that the scan is over. -/
def workloadAllowed (turn : Turn) : Bool :=
  stagesNothing turn.job ||
    match turn.lock with
    | .held => true
    | .busy => isSignedStadoDelivery turn.job
    | .failed => false

def startSlot (scan : Scan) (slots : List Slot) (turn : Turn) (need cores : Int64) :
    Scan × List Slot :=
  let placement := placementFor need scan.cardBudget
  let slot : Slot := ⟨turn.job, need, 0⟩
  let cpu := saturatingSub scan.availableCpuCores cores
  let free := scan.freeVramGb - need
  let cardBudget :=
    match placement with
    | some uuid => chargeBoard uuid need scan.cardBudget
    | none => scan.cardBudget
  let ended := H.slotIsExclusive slot || !(0 < cpu) || !turn.ramLeft || !(0 < free)
  (⟨scan.reading, cardBudget, free, cpu,
      ⟨turn.job, need, placement, slots.length⟩ :: scan.started, ended⟩, slots ++ [slot])

def startCandidate (scan : Scan) (slots : List Slot) (turn : Turn) (need cores : Int64) :
    Scan × List Slot :=
  if (H.eligibilityRefusal turn.job scan.reading.totalVramGb slots.length
      scan.reading.pinnedOnly).isSome then (scan, slots)
  else if !H.systemPackagesEligible turn.job then (scan, slots)
  else if (buildCacheKey turn.job).any fun key =>
      slots.any fun slot => buildCacheKey slot.job == some key then (scan, slots)
  else if !workloadAllowed turn then ({ scan with ended := true }, slots)
  else
    match turn.spawn with
    | .claim => (scan, slots)
    | .declined => (scan, slots)
    | .none => (scan, slots)
    | .other => ({ scan with ended := true }, slots)
    | .started => startSlot H scan slots turn need cores

def claimTurn (scan : Scan) (slots : List Slot) (turn : Turn) : Scan × List Slot :=
  if slots.any (·.job.jobId == turn.job.jobId) then (scan, slots)
  else
    match candidateFit scan slots turn with
    | .failed => ({ scan with ended := true }, slots)
    | .refused => (scan, slots)
    | .fits need cores => startCandidate H scan slots turn need cores

def Scan.opened (A : Reading) (offered : Int64 × List GpuCard) : Scan where
  reading := A
  cardBudget := offered.2.map fun card => (card.uuid, card.freeVramGb)
  freeVramGb := offered.1
  availableCpuCores := A.availableCpuCores.getD 0
  started := []
  ended := A.availableCpuCores.isNone

/-! ## The agent -/

/-- The agent's loop: its slots, and the claim scan its tick is in. -/
structure AgentLoop where
  slots : List Slot
  scan : Option Scan

/-- A tick reaches its claim scan, the scan walks one candidate, the scan ends;
and between scans a slot ends, yields or is taken, or its peak is read. -/
inductive Step where
  | openScan (A : Reading)
  | turn (t : Turn)
  | close
  | remove (i : ℕ)
  | sample (i : ℕ) (used : Int64)

/-- The highest figure read for the slot so far. -/
def Slot.sampled (slot : Slot) (used : Int64) : Slot :=
  if slot.peakVramGb < used then { slot with peakVramGb := used } else slot

def AgentLoop.openScan (agent : AgentLoop) (A : Reading) : Option AgentLoop :=
  if agent.scan.isSome then none
  else
    (beforeAdmission H A agent.slots).bind fun offered =>
      (measure H A agent.slots offered).bind fun offered =>
        if A.admits then some ⟨agent.slots, some (.opened A offered)⟩ else none

def AgentLoop.turn (agent : AgentLoop) (t : Turn) : Option AgentLoop :=
  agent.scan.bind fun scan =>
    if scan.ended then none
    else
      let (scan, slots) := claimTurn H scan agent.slots t
      some ⟨slots, some scan⟩

def AgentLoop.step (agent : AgentLoop) : Step → Option AgentLoop
  | .openScan A => agent.openScan H A
  | .turn t => agent.turn H t
  | .close => agent.scan.map fun _ => ⟨agent.slots, none⟩
  | .remove i => if agent.scan.isSome then none else some ⟨agent.slots.eraseIdx i, none⟩
  | .sample i used =>
    if agent.scan.isSome then none else some ⟨agent.slots.modify i (·.sampled used), none⟩

end Turns

end Stado.Agent
