import Mathlib.Algebra.Order.Ring.NNRat
import Mathlib.Data.List.Sort
import Stado.Library.Greedy
import Std.Data.TreeMap

/-!
# Jobs assigned to the machine that finishes them first

Times are seconds from now and exact, memory is whole gigabytes. A worker keeps
when each of its slots ends but not when it starts: whatever it was assigned
counts against its memory from now.
-/

namespace Stado.Makespan

open Greedy Function List Option
open Std (TreeMap)

/-- When a slot ends, and the memory it holds until then. -/
abbrev Slot := ℚ≥0 × ℤ

def freedBy (newVram freed : ℤ) : List Slot → Option ℚ≥0
  | [] => none
  | (endTime, vram) :: rest =>
    if newVram ≤ freed + vram then some endTime else freedBy newVram (freed + vram) rest

def earliestStart (slots : List Slot) (newVram totalVram : ℤ) : Option ℚ≥0 :=
  let availableNow := totalVram - total Prod.snd slots
  if newVram ≤ availableNow then none
  else
    let byEnd := slots.insertionSort fun a b => a.1 ≤ b.1
    (freedBy newVram availableNow byEnd).or (byEnd.getLast?.map Prod.fst)

/-- The tiers of `GPU_SIZING` for the provider `gcp`. -/
def gcpSizing : List (ℤ × String) :=
  [(12, "nvidia-tesla-k80"), (16, "nvidia-tesla-t4"), (24, "nvidia-l4"), (32, "nvidia-tesla-v100"),
   (40, "nvidia-tesla-a100"), (80, "nvidia-a100-80gb"), (94, "nvidia-h100-80gb"),
   (141, "nvidia-h200-141gb"), (180, "nvidia-b200-180gb"), (192, "nvidia-gb200-192gb")]

def compatAccelTypes (localVramGb : ℤ) : List String :=
  gcpSizing.foldl (fun accels (tier, accel) =>
    if tier ≤ localVramGb ∧ accel ≠ "" ∧ accel ∉ accels then accels ++ [accel] else accels) []

structure AgentInfo where
  kind : String
  availableAccelerators : TreeMap String ℤ
  totalVramGb : ℤ
  activeJobs : List Slot

structure Job where
  exclusive : Bool
  pinToProvider : Bool
  provider : String
  gpuType : String

/-- A job as it is assigned: with its estimated runtime and the memory it asks for. -/
structure Request where
  job : Job
  runtime : ℚ≥0
  vram : ℤ

abbrev Agents := TreeMap String AgentInfo

/-- None of the three reasons to pass a worker over holds. -/
def Eligible (r : Request) (info : AgentInfo) : Prop :=
  ¬ (r.job.pinToProvider ∧ r.job.provider ≠ info.kind) ∧ ¬ info.totalVramGb < r.vram ∧
    ¬ (r.job.gpuType ≠ "" ∧ ¬ info.availableAccelerators.contains r.job.gpuType ∧
      r.job.gpuType ∉ compatAccelTypes info.totalVramGb)

instance decidableEligible (r : Request) (info : AgentInfo) : Decidable (Eligible r info) :=
  inferInstanceAs (Decidable (_ ∧ _ ∧ _))

def startOn (r : Request) (info : AgentInfo) : ℚ≥0 :=
  (earliestStart info.activeJobs r.vram info.totalVramGb).getD 0

def finishOn (r : Request) (info : AgentInfo) : ℚ≥0 :=
  match earliestStart info.activeJobs r.vram info.totalVramGb with
  | some start => start + r.runtime
  | none => r.runtime

/-- One turn of the walk over the workers; `best` is the pick so far and its finish. -/
def consider (r : Request) (best : Option (String × ℚ≥0)) (entry : String × AgentInfo) :
    Option (String × ℚ≥0) :=
  if Eligible r entry.2 then
    match best with
    | some (bestCid, bestFinish) =>
      if finishOn r entry.2 < bestFinish then some (entry.1, finishOn r entry.2)
      else some (bestCid, bestFinish)
    | none => some (entry.1, finishOn r entry.2)
  else best

def AgentInfo.push (slot : Slot) (info : AgentInfo) : AgentInfo :=
  { info with activeJobs := info.activeJobs ++ [slot] }

def assignOne (agents : Agents) (r : Request) : Option String × Agents :=
  if r.job.exclusive then (none, agents)
  else
    match agents.toList.foldl (consider r) none with
    | some (bestCid, bestFinish) =>
      (some bestCid, agents.modify bestCid (.push (bestFinish, r.vram)))
    | none => (none, agents)

/-! ## The projected timeline -/

structure Booking where
  start : ℚ≥0
  finish : ℚ≥0
  vram : ℤ
deriving DecidableEq

def Booking.slot (b : Booking) : Slot := (b.finish, b.vram)

def used (bookings : List Booking) (t : ℚ≥0) : ℤ :=
  total Booking.vram (bookings.filter fun b => b.start ≤ t ∧ t < b.finish)

/-- The workers, and what each has booked; the assignment never reads the bookings. -/
structure World where
  agents : Agents
  plan : String → List Booking

/-- The slots of the running jobs are taken from now. -/
def running (agents : Agents) : World where
  agents := agents
  plan cid := (agents[cid]?.elim [] AgentInfo.activeJobs).map fun slot => ⟨0, slot.1, slot.2⟩

def place (w : World) (r : Request) : World :=
  match assignOne w.agents r with
  | (some cid, agents) =>
    let start := w.agents[cid]?.elim 0 (startOn r)
    ⟨agents, update w.plan cid (w.plan cid ++ [⟨start, start + r.runtime, r.vram⟩])⟩
  | (none, agents) => { w with agents }

/-- Memory of the slots not ended at `t`. -/
def held (slots : List Slot) (t : ℚ≥0) : ℤ := total Prod.snd (slots.filter (t < ·.1))

/-- The memory is free from `t` on, with every booking counted from now until it ends. -/
def FreeFrom (bookings : List Booking) (vram totalVram : ℤ) (t : ℚ≥0) : Prop :=
  ∀ u ≥ t, held (bookings.map Booking.slot) u + vram ≤ totalVram

variable {slots : List Slot} {v freed : ℤ} {t : ℚ≥0} {r : Request} {agents : Agents} {w : World}
  {cid : String} {info : AgentInfo}

theorem held_cons (slot : Slot) (slots : List Slot) (t : ℚ≥0) :
    held (slot :: slots) t = (if t < slot.1 then slot.2 else 0) + held slots t := by
  rw [held, filter_cons]
  split <;> simp_all [held, total]

/-- In order of their ends, the slots free enough at the first end that makes enough. -/
theorem freedBy_spec (hsorted : slots.Pairwise fun a b => a.1 ≤ b.1)
    (hvram : ∀ slot ∈ slots, 0 ≤ slot.2) (hshort : freed < v)
    (henough : v ≤ freed + total Prod.snd slots) :
    ∃ e, freedBy v freed slots = some e ∧
      ∀ u, e ≤ u ↔ held slots u + v ≤ freed + total Prod.snd slots := by
  induction slots generalizing freed with
  | nil => exact absurd henough (by simpa using hshort)
  | cons slot slots ih =>
    obtain ⟨hfirst, hrest⟩ := pairwise_cons.mp hsorted
    obtain ⟨hslot, hslots⟩ := forall_mem_cons.mp hvram
    have hsum : total Prod.snd (slot :: slots) = slot.2 + total Prod.snd slots := rfl
    have hbefore : ∀ u < slot.1, held slots u = total Prod.snd slots := by
      intro u hu
      rw [held, filter_eq_self.mpr fun later hlater => by
        simpa using hu.trans_le (hfirst later hlater)]
    rw [freedBy, hsum]
    simp only [held_cons]
    split
    · next hmade =>
      refine ⟨_, rfl, fun u => ?_⟩
      by_cases hu : u < slot.1
      · simp only [hbefore u hu, if_pos hu, not_le.mpr hu, false_iff]
        omega
      · have hle : held slots u ≤ total Prod.snd slots :=
          total_subperm filter_sublist.subperm hslots
        simp only [hu, if_false, not_lt.mp hu, true_iff]
        omega
    · next hmade =>
      obtain ⟨e, heq, hiff⟩ := ih hrest hslots (not_le.mp hmade) (by omega)
      refine ⟨e, heq, fun u => (hiff u).trans ?_⟩
      by_cases hu : u < slot.1
      · rw [hbefore u hu, if_pos hu]
        omega
      · rw [if_neg hu]
        omega

/-- A job can start on a worker from the start computed on, and no sooner. -/
theorem startOn_spec (hvram : ∀ slot ∈ info.activeJobs, 0 ≤ slot.2)
    (hfits : ¬ info.totalVramGb < r.vram) (u : ℚ≥0) :
    startOn r info ≤ u ↔ held info.activeJobs u + r.vram ≤ info.totalVramGb := by
  rw [startOn, earliestStart]
  split
  · have hle : held info.activeJobs u ≤ total Prod.snd info.activeJobs :=
      total_subperm filter_sublist.subperm hvram
    simp only [getD_none, zero_le, true_iff]
    omega
  · next hshort =>
    have hperm := perm_insertionSort (fun a b : Slot => a.1 ≤ b.1) info.activeJobs
    have hsum : total Prod.snd _ = _ := total_perm hperm
    have hheld : held _ u = held info.activeJobs u := total_perm (hperm.filter _)
    obtain ⟨e, heq, hiff⟩ := freedBy_spec (pairwise_insertionSort _ info.activeJobs)
      (fun slot hslot => hvram slot (hperm.mem_iff.mp hslot)) (not_le.mp hshort) (by omega)
    dsimp only
    rw [heq, some_or, getD_some, hiff, hheld, hsum]
    omega

/-- What the walk over the workers picks, and that it picks one where one is eligible. -/
theorem consider_spec (r : Request) (entries : List (String × AgentInfo)) :
    (∀ best ∈ entries.foldl (consider r) none, ∃ info, (best.1, info) ∈ entries ∧
      Eligible r info ∧ best.2 = startOn r info + r.runtime) ∧
    ∀ entry ∈ entries, Eligible r entry.2 → ∃ best ∈ entries.foldl (consider r) none,
      best.2 ≤ startOn r entry.2 + r.runtime := by
  induction entries using List.reverseRecOn with
  | nil => simp
  | append_singleton entries entry ih =>
    obtain ⟨cid, added⟩ := entry
    have hfinish : finishOn r added = startOn r added + r.runtime := by
      rw [finishOn, startOn]
      split <;> simp_all
    obtain ⟨hpicked, hall⟩ := ih
    rw [List.foldl_concat, consider.eq_def, hfinish]
    rcases hbest : entries.foldl (consider r) none with _ | ⟨bestCid, bestFinish⟩
    · rw [hbest] at hall
      split <;> simp_all <;> grind
    · rw [hbest] at hpicked hall
      obtain ⟨info, hinfo⟩ := hpicked _ rfl
      have hle : ∀ other ∈ entries, Eligible r other.2 →
          bestFinish ≤ startOn r other.2 + r.runtime := by simpa using hall
      dsimp only
      split_ifs with hok hlt <;> simp <;> grind

/-- Where a job is assigned, a worker's slots and bookings gain one, and no other's change. -/
theorem place_cases (w : World) (r : Request) :
    ((assignOne w.agents r).1 = none ∧ place w r = w) ∨
    ∃ cid info, w.agents[cid]? = some info ∧ Eligible r info ∧ (assignOne w.agents r).1 = some cid ∧
      (place w r).plan = update w.plan cid
        (w.plan cid ++ [⟨startOn r info, startOn r info + r.runtime, r.vram⟩]) ∧
      (∀ other : String, (place w r).agents[other]? =
        if cid = other then some (info.push (startOn r info + r.runtime, r.vram))
        else w.agents[other]?) ∧
      ∀ other ∈ w.agents.toList, Eligible r other.2 →
        startOn r info + r.runtime ≤ startOn r other.2 + r.runtime := by
  obtain ⟨hpicked, hall⟩ := consider_spec r w.agents.toList
  rw [place, assignOne]
  split_ifs
  · exact .inl ⟨rfl, rfl⟩
  rcases hbest : w.agents.toList.foldl (consider r) none with _ | ⟨cid, finish⟩
  · exact .inl ⟨rfl, rfl⟩
  rw [hbest] at hpicked hall
  obtain ⟨info, hmem, heligible, rfl⟩ := hpicked _ rfl
  have hget : w.agents[cid]? = some info := TreeMap.mem_toList_iff_getElem?_eq_some.mp hmem
  refine .inr ⟨cid, info, hget, heligible, rfl, by simp [hget], fun other => ?_, ?_⟩
  · rw [TreeMap.getElem?_modify, hget]
    simp only [Std.LawfulEqCmp.compare_eq_iff_eq, map_some]
  · simpa using hall

/-- Workers keep their memory, their slots are what they have booked, and these fit. -/
structure Sound (agents : Agents) (w : World) : Prop where
  same : ∀ cid : String,
    w.agents[cid]?.map AgentInfo.totalVramGb = agents[cid]?.map AgentInfo.totalVramGb
  kept : ∀ (cid : String) info, w.agents[cid]? = some info →
    info.activeJobs = (w.plan cid).map Booking.slot ∧ ∀ slot ∈ info.activeJobs, 0 ≤ slot.2
  within : ∀ (cid : String) first, agents[cid]? = some first →
    total Prod.snd first.activeJobs ≤ first.totalVramGb →
      ∀ t, used (w.plan cid) t ≤ first.totalVramGb

theorem used_concat (bookings : List Booking) (b : Booking) (t : ℚ≥0) :
    used (bookings ++ [b]) t =
      used bookings t + if b.start ≤ t ∧ t < b.finish then b.vram else 0 := by
  rw [used, filter_append, total_append, filter_singleton]
  by_cases h : b.start ≤ t ∧ t < b.finish
  · rw [if_pos h, decide_eq_true h, cond_true, total_singleton]
    rfl
  · rw [if_neg h, decide_eq_false h]
    rfl

/-- What overlaps an instant is among the slots not ended then. -/
theorem used_le {bookings : List Booking} (h : ∀ slot ∈ bookings.map Booking.slot, 0 ≤ slot.2)
    (t : ℚ≥0) : used bookings t ≤ held (bookings.map Booking.slot) t := by
  rw [held, total, List.filter_map, List.map_map]
  refine total_subperm (List.Sublist.subperm ?_) fun b hb =>
    h b.slot (List.mem_map_of_mem (mem_of_mem_filter hb))
  exact List.monotone_filter_right _ fun b hb => by simp_all [Booking.slot]

theorem place_sound (h : Sound agents w) (hvram : 0 ≤ r.vram) : Sound agents (place w r) := by
  rcases place_cases w r with ⟨-, heq⟩ | ⟨cid, info, hinfo, heligible, -, hplan, hget, -⟩
  · rw [heq]
    exact h
  obtain ⟨hslots, hpos⟩ := h.kept cid info hinfo
  have hsame := h.same cid
  rw [hinfo] at hsame
  constructor
  · intro other
    rw [hget]
    split
    · next heq =>
      rw [← heq, ← hsame]
      rfl
    · exact h.same other
  · intro other info' hinfo'
    rw [hget] at hinfo'
    rw [hplan]
    split at hinfo'
    · next heq =>
      obtain rfl := Option.some.inj hinfo'
      rw [← heq, update_self, map_append, ← hslots]
      exact ⟨rfl, forall_mem_append.mpr ⟨hpos, by simpa using hvram⟩⟩
    · next hne =>
      rw [update_of_ne (Ne.symm hne)]
      exact h.kept other info' hinfo'
  · intro other first hfirst hfits t
    rw [hplan]
    by_cases hother : other = cid
    · subst hother
      rw [update_self, used_concat]
      split
      · next hon =>
        have hfree := (startOn_spec hpos heligible.2.1 t).mp hon.1
        have hle := used_le (hslots ▸ hpos) t
        rw [hfirst] at hsame
        rw [← hslots] at hle
        have hmem : info.totalVramGb = first.totalVramGb := Option.some.inj hsame
        dsimp only
        omega
      · rw [add_zero]
        exact h.within other first hfirst hfits t
    · rw [update_of_ne hother]
      exact h.within other first hfirst hfits t

theorem running_sound
    (h : ∀ (cid : String) info, agents[cid]? = some info → ∀ slot ∈ info.activeJobs, 0 ≤ slot.2) :
    Sound agents (running agents) := by
  have hmap : ∀ (cid : String) info, agents[cid]? = some info →
      info.activeJobs = ((running agents).plan cid).map Booking.slot := by
    intro cid info hinfo
    simp [running, hinfo, Booking.slot, comp_def]
  refine ⟨fun _ => rfl, fun cid info hinfo => ⟨hmap cid info hinfo, h cid info hinfo⟩, ?_⟩
  intro cid first hfirst hfits t
  have hpos := h cid first hfirst
  have hle : held first.activeJobs t ≤ total Prod.snd first.activeJobs :=
    total_subperm filter_sublist.subperm hpos
  have hused := used_le (hmap cid first hfirst ▸ hpos) t
  rw [← hmap cid first hfirst] at hused
  omega

def worker (activeJobs : List Slot) : Agents := (∅ : Agents).insert "a" ⟨"", ∅, 10, activeJobs⟩

def request (runtime : ℚ≥0) (vram : ℤ) : Request := ⟨⟨false, false, "", ""⟩, runtime, vram⟩

end Stado.Makespan
