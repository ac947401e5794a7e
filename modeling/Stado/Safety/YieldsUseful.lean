import Stado.Agent.Yielding
import Stado.Library.Greedy
import Stado.Safety.ExclusiveAlone

/-!
# Preemption is useful and minimal

The slots taken off a host for a queued job are chosen in one order until the
job fits. They make room whenever some choice would. The host's own rule for
pinned work is not asked of the job, and a small slot of low priority goes
although the next one alone would do.
-/

namespace Stado.Agent

open List Option

open Greedy (total Tight takeEnough)

section Choice

variable {infos : List YieldSlotInfo} {targetPrio : Int64} {now floor : ℕ}

theorem makeRoom_eq (need freeVramGb : ℤ) (chosen rest : List ℕ) :
    makeRoom infos need freeVramGb chosen rest =
      takeEnough (vramAt infos) (need - freeVramGb) chosen rest := by
  induction rest generalizing chosen with
  | nil => rfl
  | cons i rest ih =>
    have hgoal : need ≤ freeVramGb + ((chosen ++ [i]).map (vramAt infos)).sum ↔
        need - freeVramGb ≤ total (vramAt infos) (chosen ++ [i]) := by
      unfold total
      omega
    have hstep : makeRoom infos need freeVramGb chosen (i :: rest) =
        if need ≤ freeVramGb + ((chosen ++ [i]).map (vramAt infos)).sum then chosen ++ [i]
        else makeRoom infos need freeVramGb (chosen ++ [i]) rest := rfl
    rw [hstep, takeEnough, ih]
    simp only [hgoal]

/-- A place holds a slot that may be evicted. -/
def EvictableAt (infos : List YieldSlotInfo) (targetPrio : Int64) (now floor i : ℕ) : Prop :=
  ∃ info, infos[i]? = some info ∧ info.isEvictable targetPrio now floor = true

theorem mem_evictionOrder {i : ℕ} : i ∈ evictionOrder infos targetPrio now floor ↔
    EvictableAt infos targetPrio now floor i := by
  unfold evictionOrder EvictableAt
  simp only [List.mem_map, (perm_insertionSort _ _).mem_iff, mem_filter, Prod.exists,
    exists_eq_right, mem_zipIdx_iff_getElem?]

theorem nodup_evictionOrder : (evictionOrder infos targetPrio now floor).Nodup := by
  have hzip : (infos.zipIdx.map Prod.snd).Nodup := by
    rw [zipIdx_map_snd]
    exact nodup_range' ..
  have hfilter : ((infos.zipIdx.filter fun entry =>
      entry.1.isEvictable targetPrio now floor).map Prod.snd).Nodup :=
    hzip.sublist (filter_sublist.map _)
  exact (((perm_insertionSort _ _).map Prod.snd).nodup_iff).mpr hfilter

end Choice

/-! ## The target -/

section Target

variable {H : Host} {T : YieldReading} {slots : List RunningSlot} {infos : List YieldSlotInfo}

def Routed (H : Host) (pinnedOnly : Bool) (job : Job) : Prop :=
  pinnedOnly = true →
    H.namesThisConsumer job.pinnedHost = true ∨ H.namesThisConsumer job.assignedTo = true

/-- A job that was eligible beside running slots, the host's pins aside, is eligible beside any
number of them when it is routed here. -/
theorem eligible_iff_routed {job : Job} {vram : Int64} {running left : ℕ} {pinnedOnly : Bool}
    (h : H.eligibilityRefusal job vram running false = none) (hrunning : 0 < running) :
    H.eligibilityRefusal job vram left pinnedOnly = none ↔ Routed H pinnedOnly job := by
  have hshared : job.exclusive = false := by
    rcases hflag : job.exclusive with _ | _
    · rfl
    · exact absurd (eligible_exclusive h hflag) hrunning.ne'
  unfold Host.eligibilityRefusal at h ⊢
  dsimp only at h ⊢
  split at h
  · cases h
  split at h
  · cases h
  split at h
  · cases h
  split at h
  · cases h
  rename_i hpin hassigned hfree hexclusive
  rw [if_neg hpin, if_neg hassigned, hshared, Bool.false_and, if_neg Bool.false_ne_true, h, Routed]
  rcases pinnedOnly with _ | _
  · simp
  · rcases H.namesThisConsumer job.pinnedHost with _ | _
    · rcases H.namesThisConsumer job.assignedTo with _ | _
      · simp
      · simp
    · simp

theorem yieldTarget_some {running : ℕ} {candidates : List QueuedJob} {target : Job} {need : Int64}
    (h : yieldTarget H T running candidates = some (some (target, need))) :
    H.eligibilityRefusal target T.totalVramGb running false = none ∧
      H.systemPackagesEligible target = true ∧ T.freeVramGb < need := by
  induction candidates with
  | nil => cases h
  | cons candidate rest ih =>
    rw [yieldTarget] at h
    split at h
    · cases h
    · exact ih h
    · split at h
      · exact ih h
      · rename_i hadmitted
        rw [Bool.or_eq_true, not_or, Bool.not_eq_true, isSome_eq_false_iff,
          isNone_iff_eq_none, Bool.not_eq_true, Bool.not_eq_false'] at hadmitted
        split at h
        · cases h
        · dsimp only at h
          split at h
          · exact ih h
          · rename_i hfits
            obtain ⟨rfl, rfl⟩ := Prod.mk.inj (Option.some.inj (Option.some.inj h))
            exact ⟨hadmitted.1, hadmitted.2, Int64.not_le.mp hfits⟩

theorem left_le_max (a b : Int64) : a ≤ max a b := by
  have hmax : max a b = if a ≤ b then b else a := rfl
  rw [hmax]
  split
  · assumption
  · exact Std.le_refl a

theorem right_le_max (a b : Int64) : b ≤ max a b := by
  have hmax : max a b = if a ≤ b then b else a := rfl
  rw [hmax]
  split
  · exact Std.le_refl b
  · exact Std.le_of_not_ge ‹_›

theorem yieldInfo_vram {active : RunningSlot} {info : YieldSlotInfo}
    (h : yieldInfo H T active = some info) : 0 ≤ info.vramGb := by
  obtain ⟨vram, hvram, rfl⟩ := map_eq_some_iff.mp h
  obtain ⟨estimate, -, rfl⟩ := map_eq_some_iff.mp hvram
  have hcounted : 0 ≤ max (declaredVram active.slot.job estimate) active.slot.peakVramGb :=
    Std.le_trans active.sampled (right_le_max _ _)
  dsimp only
  split
  · exact Std.le_trans hcounted (left_le_max _ _)
  · exact hcounted

theorem yieldInfos_vram
    (h : yieldInfos H T slots = some infos) : ∀ info ∈ infos, 0 ≤ info.vramGb := by
  induction slots generalizing infos with
  | nil =>
    obtain rfl := Option.some.inj h
    exact nofun
  | cons active rest ih =>
    obtain ⟨info, hinfo, h⟩ := bind_eq_some_iff.mp h
    obtain ⟨later, hlater, rfl⟩ := map_eq_some_iff.mp h
    exact forall_mem_cons.mpr ⟨yieldInfo_vram hinfo, ih hlater⟩

theorem yieldInfos_length
    (h : yieldInfos H T slots = some infos) : infos.length = slots.length := by
  induction slots generalizing infos with
  | nil =>
    obtain rfl := Option.some.inj h
    rfl
  | cons active rest ih =>
    obtain ⟨info, -, h⟩ := bind_eq_some_iff.mp h
    obtain ⟨later, hlater, rfl⟩ := map_eq_some_iff.mp h
    rw [length_cons, length_cons, ih hlater]

/-- What a case was read from. -/
structure CaseOf (H : Host) (T : YieldReading) (slots : List RunningSlot) (c : YieldCase) :
    Prop where
  eligible : H.eligibilityRefusal c.target T.totalVramGb slots.length false = none
  running : 0 < slots.length
  packages : H.systemPackagesEligible c.target = true
  lacks : 0 < c.need.toInt - T.freeVramGb.toInt
  infos : yieldInfos H T slots = some c.infos

theorem yieldCase_some {c : YieldCase}
    (h : yieldCase H T slots = some (some c)) : CaseOf H T slots c := by
  unfold yieldCase at h
  split at h
  · rename_i hany
    obtain ⟨listed, -, h⟩ := bind_eq_some_iff.mp h
    obtain ⟨found, htarget, h⟩ := bind_eq_some_iff.mp h
    rcases found with _ | ⟨target, need⟩
    · cases h
    · obtain ⟨infos, hinfos, h⟩ := map_eq_some_iff.mp h
      obtain ⟨floor, -, rfl⟩ := map_eq_some_iff.mp h
      obtain ⟨heligible, hpackages, hlacks⟩ := yieldTarget_some htarget
      obtain ⟨active, hactive, -⟩ := List.any_eq_true.mp hany
      exact ⟨heligible, length_pos_of_mem hactive, hpackages,
        sub_pos.mpr (Int64.lt_iff_toInt_lt.mp hlacks), hinfos⟩
  · cases h

end Target

/-- The slots taken off the host and those left are the slots there were. -/
theorem requestYields_perm {T : YieldReading} {places : List ℕ}
    (hsorted : places.Pairwise (· > ·)) (hplaces : ∀ i ∈ places, i < slots.length) :
    ((requestYields T places slots).2 ++ places.filterMap (slots[·]?)).Perm slots := by
  induction places generalizing slots with
  | nil => simp [requestYields]
  | cons i rest ih =>
    obtain ⟨hlater, hsorted⟩ := pairwise_cons.mp hsorted
    have hi : i < slots.length := hplaces i (mem_cons_self ..)
    have hleft : (requestYields T (i :: rest) slots).2 =
        (requestYields T rest (slots.eraseIdx i)).2 := by
      rw [requestYields, List.getElem?_eq_getElem hi]
      dsimp only
      split <;> rfl
    have hbefore : rest.filterMap (slots[·]?) = rest.filterMap ((slots.eraseIdx i)[·]?) := by
      refine filterMap_congr fun j hj => ?_
      rw [List.getElem?_eraseIdx_of_lt (hlater j hj)]
    have hrest := ih hsorted fun j hj => by
      have hlt := hlater j hj
      rw [length_eraseIdx_of_lt hi]
      omega
    rw [hleft, filterMap_cons, List.getElem?_eq_getElem hi, hbefore]
    exact perm_middle.trans ((hrest.cons _).trans (getElem_cons_eraseIdx_perm hi))

/-! ## Useful, minimal and complete yields -/

/-- What a useful yield takes off the host: slots that may be evicted, after which the host's own
rules let the target in and it fits; and none of them could stay. -/
structure Useful (H : Host) (T : YieldReading) (c : YieldCase) (chosen : List ℕ)
    (left : List RunningSlot) : Prop where
  evictable : ∀ i ∈ chosen, EvictableAt c.infos c.target.priority T.now c.floor i
  eligible : H.eligibilityRefusal c.target T.totalVramGb left.length T.pinnedOnly = none
  packages : H.systemPackagesEligible c.target = true
  fits : c.need.toInt ≤ T.freeVramGb.toInt + total (vramAt c.infos) chosen
  minimal : ∀ i ∈ chosen,
    T.freeVramGb.toInt + total (vramAt c.infos) (chosen.erase i) < c.need.toInt

/-- Slots are yielded for a target only usefully, and whenever some of those that may be evicted
would make room; the slots yielded and those left are the slots there were. -/
def YieldsWell (H : Host) (T : YieldReading) (slots : List RunningSlot) : Prop :=
  ∀ c yielded left, yieldCase H T slots = some (some c) →
    maybeYieldForPriority H T slots = some (yielded, left) →
      (left ++ ((c.chosen T).insertionSort (· ≥ ·)).filterMap (slots[·]?)).Perm slots ∧
      (c.chosen T ≠ [] → Useful H T c (c.chosen T) left) ∧
      ∀ others : List ℕ, others.Nodup →
        (∀ i ∈ others, EvictableAt c.infos c.target.priority T.now c.floor i) →
          c.need.toInt ≤ T.freeVramGb.toInt + total (vramAt c.infos) others → c.chosen T ≠ []

/-- Where all that may be evicted makes room for the target: the target is routed to a host that
claims pinned work only, and each slot that goes before the one that makes room is larger than
the room left over. -/
def YieldsTightly (H : Host) (T : YieldReading) (slots : List RunningSlot) : Prop :=
  ∀ c, yieldCase H T slots = some (some c) → c.need.toInt ≤ T.freeVramGb.toInt +
        total (vramAt c.infos) (evictionOrder c.infos c.target.priority T.now c.floor) →
      Routed H T.pinnedOnly c.target ∧ Tight (vramAt c.infos) (c.need.toInt - T.freeVramGb.toInt)
          (evictionOrder c.infos c.target.priority T.now c.floor)

section Cases

variable {H : Host} {T : YieldReading} {slots : List RunningSlot} {c : YieldCase}

theorem CaseOf.sizes (h : CaseOf H T slots c) (i : ℕ) : 0 ≤ vramAt c.infos i := by
  unfold vramAt
  split
  · rename_i info hinfo
    exact zero_le_iff.mp (yieldInfos_vram h.infos _ (mem_of_getElem? hinfo))
  · exact le_rfl

theorem YieldCase.chosen_eq (c : YieldCase) (T : YieldReading) : c.chosen T =
    takeEnough (vramAt c.infos) (c.need.toInt - T.freeVramGb.toInt) []
      (evictionOrder c.infos c.target.priority T.now c.floor) :=
  makeRoom_eq ..

theorem CaseOf.chosen_sublist (h : CaseOf H T slots c) : (c.chosen T).Sublist
    (evictionOrder c.infos c.target.priority T.now c.floor) := by
  rw [c.chosen_eq]
  exact Greedy.takeEnough_subset _ h.lacks

theorem CaseOf.left (h : CaseOf H T slots c) {yielded : List String} {left : List RunningSlot}
    (hcase : yieldCase H T slots = some (some c))
    (hrun : maybeYieldForPriority H T slots = some (yielded, left)) :
    (left ++ ((c.chosen T).insertionSort (· ≥ ·)).filterMap (slots[·]?)).Perm slots := by
  have hperm := perm_insertionSort (· ≥ ·) (c.chosen T)
  have hnodup : ((c.chosen T).insertionSort (· ≥ ·)).Nodup :=
    hperm.nodup_iff.mpr (nodup_evictionOrder.sublist h.chosen_sublist)
  have hsorted : ((c.chosen T).insertionSort (· ≥ ·)).Pairwise (· > ·) := by
    have hdescends := pairwise_insertionSort (· ≥ ·) (c.chosen T)
    exact (hdescends.and hnodup).imp fun hpair => lt_of_le_of_ne hpair.1 hpair.2.symm
  have hplaces : ∀ i ∈ (c.chosen T).insertionSort (· ≥ ·), i < slots.length := by
    intro i hi
    obtain ⟨info, hinfo, -⟩ := mem_evictionOrder.mp (h.chosen_sublist.mem (hperm.mem_iff.mp hi))
    rw [← yieldInfos_length h.infos]
    exact (List.getElem?_eq_some_iff.mp hinfo).1
  unfold maybeYieldForPriority at hrun
  rw [hcase] at hrun
  have hleft : (requestYields T ((c.chosen T).insertionSort (· ≥ ·)) slots).2 = left :=
    congrArg Prod.snd (Option.some.inj hrun)
  rw [← hleft]
  exact requestYields_perm hsorted hplaces

/-- A set of slots that may be evicted is part of the order of their eviction. -/
theorem others_subperm {others : List ℕ} (hnodup : others.Nodup)
    (hothers : ∀ i ∈ others, EvictableAt c.infos c.target.priority T.now c.floor i) :
    others.Subperm (evictionOrder c.infos c.target.priority T.now c.floor) :=
  subperm_of_subset hnodup fun i hi => mem_evictionOrder.mpr (hothers i hi)

theorem CaseOf.reaches (h : CaseOf H T slots c) (hne : c.chosen T ≠ []) :
    c.need.toInt - T.freeVramGb.toInt ≤ total (vramAt c.infos) (c.chosen T) := by
  rw [c.chosen_eq] at hne ⊢
  exact Greedy.takeEnough_reaches h.lacks hne

/-- Slots are chosen exactly where all that may be evicted makes room. -/
theorem CaseOf.chosen_ne_nil (h : CaseOf H T slots c) : c.chosen T ≠ [] ↔
    c.need.toInt ≤ T.freeVramGb.toInt +
      total (vramAt c.infos) (evictionOrder c.infos c.target.priority T.now c.floor) := by
  constructor
  · intro hne
    have hreaches := h.reaches hne
    have hpart := Greedy.total_subperm h.chosen_sublist.subperm fun i _ => h.sizes i
    omega
  · intro henough
    rw [c.chosen_eq]
    exact Greedy.takeEnough_complete h.lacks (fun i _ => h.sizes i) (List.Subperm.refl _)
      (by omega)

/-- What a choice satisfies, and what its use depends on. -/
theorem CaseOf.useful_iff (h : CaseOf H T slots c) (hne : c.chosen T ≠ [])
    (left : List RunningSlot) : Useful H T c (c.chosen T) left ↔ Routed H T.pinnedOnly c.target ∧
        Tight (vramAt c.infos) (c.need.toInt - T.freeVramGb.toInt)
          (evictionOrder c.infos c.target.priority T.now c.floor) := by
  have hminimal := Greedy.takeEnough_minimal h.lacks
    fun i (_ : i ∈ evictionOrder c.infos c.target.priority T.now c.floor) => h.sizes i
  rw [← c.chosen_eq] at hminimal
  have hreaches := h.reaches hne
  constructor
  · intro huseful
    refine ⟨(eligible_iff_routed h.eligible h.running).mp huseful.eligible,
      hminimal.mp fun i hi => ?_⟩
    have hspare := huseful.minimal i hi
    omega
  · rintro ⟨hrouted, htight⟩
    refine ⟨fun i hi => mem_evictionOrder.mp (h.chosen_sublist.mem hi),
      (eligible_iff_routed h.eligible h.running).mpr hrouted, h.packages, by omega,
      fun i hi => ?_⟩
    have hspare := hminimal.mpr htight i hi
    omega

end Cases

/-- Yields are useful, minimal and complete exactly when, wherever room can be made, the target is
routed to a host that claims pinned work only and no slot that goes before the one that makes
room fits in the room left over. -/
theorem yields_well_iff (H : Host) (T : YieldReading) (slots : List RunningSlot) :
    YieldsWell H T slots ↔ YieldsTightly H T slots := by
  constructor
  · intro hwell c hcase henough
    have hc := yieldCase_some hcase
    have hne := hc.chosen_ne_nil.mpr henough
    obtain ⟨yielded, left, hrun⟩ : ∃ yielded left,
        maybeYieldForPriority H T slots = some (yielded, left) := by
      unfold maybeYieldForPriority
      rw [hcase]
      exact ⟨_, _, rfl⟩
    obtain ⟨-, huseful, -⟩ := hwell c yielded left hcase hrun
    exact (hc.useful_iff hne left).mp (huseful hne)
  · intro htightly c yielded left hcase hrun
    have hc := yieldCase_some hcase
    refine ⟨hc.left hcase hrun, fun hne => ?_, fun others hnodup hothers hroom => ?_⟩
    · exact (hc.useful_iff hne left).mpr (htightly c hcase (hc.chosen_ne_nil.mp hne))
    · have hpart := Greedy.total_subperm (others_subperm hnodup hothers)
        fun i _ => hc.sizes i
      exact hc.chosen_ne_nil.mpr (by omega)

/-! ## A slot yielded for nothing -/

/-- A host of one board, which runs whatever names no other. -/
def plainHost : Host where
  gpuType := "nvidia-l4"
  kind := "local"
  consumerId := "local-rig"
  toLowercase := id
  platformAccepts _ _ := true
  executesLocally := true
  modelOf _ := none
  isLocalOnlyModel _ := false
  isExclusiveModel _ := false
  sameVariant _ _ := true
  providerIsLocal _ := true
  compatAccelTypes _ := []
  systemPackagesEligible _ := true

def plainJob (jobId : String) (gpuMemGb priority : Int64) : Job where
  jobId := jobId
  command := "python train.py"
  gpuMemGb := gpuMemGb
  gpuType := ""
  machineType := ""
  provider := ""
  pinToProvider := false
  priority := priority
  runId := ""
  outputUri := ""
  pinnedHost := ""
  assignedTo := ""
  exclusive := false
  platformOs := ""
  architecture := ""
  cpuCores := 1
  repo := ""
  aptPackages := []
  preCommand := ""

def backgroundSlot (jobId : String) (vramGb priority : Int64) : RunningSlot :=
  ⟨⟨plainJob jobId vramGb priority, vramGb, 0⟩, true, 0, 5, 0, Std.le_refl 0⟩

def twoSlots : List RunningSlot := [backgroundSlot "small" 4 0, backgroundSlot "large" 20 1]

/-- A queued job of priority 2 that needs what the large slot holds. -/
def urgent : Job := plainJob "urgent" 20 2

def urgentReading : YieldReading where
  totalVramGb := 24
  freeVramGb := 0
  pinnedOnly := false
  sizes := ⟨fun _ => some none, fun _ => none⟩
  listed := some [⟨urgent, "2026-01-01"⟩]
  document _ := some (some ⟨urgent, "2026-01-01"⟩)
  now := 100
  poll := some 10
  requestYield _ := true

/-- Both slots are yielded, though the large one alone makes room. -/
theorem small_slot_yielded : ¬ YieldsWell plainHost urgentReading twoSlots := by
  intro hwell
  obtain ⟨infos, hinfos⟩ : ∃ infos, yieldInfos plainHost urgentReading twoSlots = some infos :=
    ⟨_, rfl⟩
  obtain rfl := Option.some.inj hinfos
  have hcase : yieldCase plainHost urgentReading twoSlots = some (some ⟨urgent, 20, _, 10⟩) := rfl
  obtain ⟨yielded, left, hrun⟩ : ∃ yielded left,
      maybeYieldForPriority plainHost urgentReading twoSlots = some (yielded, left) := ⟨_, _, rfl⟩
  obtain ⟨-, huseful, -⟩ := hwell _ yielded left hcase hrun
  have hspare := (huseful (by decide +kernel)).minimal 0 (by decide +kernel)
  exact absurd hspare (by decide +kernel)

end Stado.Agent
