import Stado.Agent.Claim

/-!
# Yielding slots to a queued job of higher priority

Where a queued job this host may run does not fit in what is free, running
slots of lower priority that may be yielded are taken off the host to make
room for it: lowest priority first, and among equals the largest first.
-/

namespace Stado.Agent

/-- A running slot with what a yield reads of its job. The peak starts at nothing and only
rises. -/
structure RunningSlot where
  slot : Slot
  yieldable : Bool
  yieldCount : Int64
  maxYieldsBeforeProtected : Int64
  startedMono : ℕ
  sampled : 0 ≤ slot.peakVramGb

/-- A queued job as a listing answers it. -/
structure QueuedJob where
  job : Job
  createdAt : String

/-- The yield-relevant facts of one running slot. -/
structure YieldSlotInfo where
  jobId : String
  priority : Int64
  yieldable : Bool
  exclusive : Bool
  yieldCount : Int64
  maxYieldsBeforeProtected : Int64
  startedMono : ℕ
  vramGb : Int64
  deriving DecidableEq

/-! ## Which slots -/

def vramAt (slots : List YieldSlotInfo) (i : ℕ) : ℤ :=
  match slots[i]? with
  | some info => info.vramGb.toInt
  | none => 0

def YieldSlotInfo.isEvictable (targetPrio : Int64) (now floor : ℕ) (info : YieldSlotInfo) : Bool :=
  info.yieldable && !info.exclusive && decide (info.priority < targetPrio) &&
    decide (info.yieldCount < info.maxYieldsBeforeProtected) &&
    decide (floor ≤ now - info.startedMono)

/-- Lowest priority first; among equal priority, the largest slot first. -/
def evictedBefore (a b : YieldSlotInfo × ℕ) : Prop :=
  a.1.priority < b.1.priority ∨ a.1.priority = b.1.priority ∧ b.1.vramGb ≤ a.1.vramGb

instance instDecidableEvictedBefore : DecidableRel evictedBefore :=
  fun _ _ => inferInstanceAs (Decidable (_ ∨ _))

def evictionOrder (slots : List YieldSlotInfo) (targetPrio : Int64) (now floor : ℕ) : List ℕ :=
  ((slots.zipIdx.filter fun entry => entry.1.isEvictable targetPrio now floor).insertionSort
    evictedBefore).map Prod.snd

/-- Evict one slot after another until the target fits; none where it never does. -/
def makeRoom (slots : List YieldSlotInfo) (need freeVramGb : ℤ) (chosen : List ℕ) :
    List ℕ → List ℕ
  | [] => []
  | i :: rest =>
    let chosen := chosen ++ [i]
    let freed := (chosen.map (vramAt slots)).sum
    if need ≤ freeVramGb + freed then chosen else makeRoom slots need freeVramGb chosen rest

def chooseYieldSlots (slots : List YieldSlotInfo) (targetPrio need freeVramGb : Int64)
    (now floor : ℕ) : List ℕ :=
  makeRoom slots need.toInt freeVramGb.toInt [] (evictionOrder slots targetPrio now floor)

/-! ## One tick's yield -/

/-- What one call reads: the host's figures, the registry's flag, what the queue's listing and
its documents answer (nothing where the store fails), the clock, and for each job whether its
yield was carried out. -/
structure YieldReading where
  totalVramGb : Int64
  freeVramGb : Int64
  pinnedOnly : Bool
  sizes : Readings
  listed : Option (List QueuedJob)
  document : String → Option (Option QueuedJob)
  now : ℕ
  poll : Option ℕ
  requestYield : String → Bool

/-- Highest priority first, and among equals the oldest. -/
def queuedBefore (a b : QueuedJob) : Prop :=
  b.job.priority < a.job.priority ∨ a.job.priority = b.job.priority ∧ ¬ b.createdAt < a.createdAt

instance instDecidableQueuedBefore : DecidableRel queuedBefore :=
  fun _ _ => inferInstanceAs (Decidable (_ ∨ _))

/-- What a choice is made from: the job to make room for, the VRAM it needs, the running slots
and the age at which a slot may be judged. -/
structure YieldCase where
  target : Job
  need : Int64
  infos : List YieldSlotInfo
  floor : ℕ

section Yield

variable (H : Host) (T : YieldReading)

/-- The first candidate this host may run that does not fit in what is free. -/
def yieldTarget (running : ℕ) : List QueuedJob → Option (Option (Job × Int64))
  | [] => some none
  | candidate :: rest =>
    match T.document candidate.job.jobId with
    | none => none
    | some none => yieldTarget running rest
    | some (some queued) =>
      if (H.eligibilityRefusal queued.job T.totalVramGb running false).isSome ||
          !H.systemPackagesEligible queued.job then yieldTarget running rest
      else
        match T.sizes.estimate queued.job.command with
        | none => none
        | some estimate =>
          let need := declaredVram queued.job estimate
          if need ≤ T.freeVramGb then yieldTarget running rest
          else some (some (queued.job, need))

def yieldInfo (active : RunningSlot) : Option YieldSlotInfo :=
  (slotVram T.sizes active.slot).map fun vram =>
    { jobId := active.slot.job.jobId
      priority := active.slot.job.priority
      yieldable := active.yieldable
      exclusive := H.slotIsExclusive active.slot
      yieldCount := active.yieldCount
      maxYieldsBeforeProtected := active.maxYieldsBeforeProtected
      startedMono := active.startedMono
      vramGb := vram }

def yieldInfos : List RunningSlot → Option (List YieldSlotInfo)
  | [] => some []
  | active :: rest =>
    (yieldInfo H T active).bind fun info => (yieldInfos rest).map fun infos => info :: infos

/-- Everything up to the choice: nothing where the store fails, and no case where no slot may be
yielded, no candidate asks for room, or the agent has no poll period yet. -/
def yieldCase (slots : List RunningSlot) : Option (Option YieldCase) :=
  if slots.any (·.yieldable) then
    T.listed.bind fun listed =>
      (yieldTarget H T slots.length (listed.insertionSort queuedBefore)).bind fun
        | none => some none
        | some (target, need) =>
          (yieldInfos H T slots).map fun infos =>
            T.poll.map fun floor => ⟨target, need, infos, floor⟩
  else some none

def YieldCase.chosen (c : YieldCase) : List ℕ :=
  chooseYieldSlots c.infos c.target.priority c.need T.freeVramGb T.now c.floor

/-- Take the slots off the host, in the order of their places; the jobs whose yield was carried
out. -/
def requestYields : List ℕ → List RunningSlot → List String × List RunningSlot
  | [], slots => ([], slots)
  | i :: rest, slots =>
    let (yielded, left) := requestYields rest (slots.eraseIdx i)
    match slots[i]? with
    | some active =>
      if T.requestYield active.slot.job.jobId then
        (active.slot.job.jobId :: yielded, left)
      else (yielded, left)
    | none => (yielded, left)

def maybeYieldForPriority (slots : List RunningSlot) : Option (List String × List RunningSlot) :=
  (yieldCase H T slots).map fun
    | none => ([], slots)
    | some c => requestYields T ((c.chosen T).insertionSort (· ≥ ·)) slots

end Yield

end Stado.Agent
