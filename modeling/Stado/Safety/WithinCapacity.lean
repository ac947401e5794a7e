import Stado.Autonomy.Reservations
import Stado.Safety.PlacementsFenced

/-!
# Capacity and budgets of a pass

Passes plan the queue, one after another and at once. A pass stays within the
instances of its offers and within its budgets while it finds no job already placed
as it decides: for such a job it withdraws nothing.
-/

namespace Stado.Autonomy

open CasStore Crew CapacityOffer

/-! ## The system -/

/-- What a pass is given and what it reads before it walks the queue. -/
structure Given where
  fuel : ℕ
  market : Market
  offers : List CapacityOffer
  budget : CloudBudget
  queued : List PlanJob

/-- `plan_queued`; the result is named with what the pass was given. -/
def passRoutine (given : Given) : Autonomous (Given × Pass) := do
  let pass ← planQueued given.fuel given.market given.offers given.budget given.queued
  pure (given, pass)

abbrev Passes := Crew.Config Act StorageError World (Given × Pass)

def noPassYet (clock : ℕ) : Passes := ⟨World.fresh clock, []⟩

def Passes.ended (s : Passes) (i : ℕ) : Option (Given × Pass) :=
  match s.tasks[i]? with
  | some (some (.pure result)) => some result
  | _ => none

/-- The placement a statement compares with the queued job. -/
def Site.checks : Site → Option Placement
  | .placementCheck asked => some asked
  | _ => none

def World.placedAs (w : World) (placement : Placement) (p : Path) : Bool :=
  match w.store.get p with
  | some (Contents.job job, _) => job.state = JobState.queued && placement.standsIn job
  | _ => false

/-- No pass finds a job already placed as it decides. -/
def newlyPlaced : Terms where
  act _ a c w :=
    match a with
    | .read site p => ∀ placement ∈ site.checks, c = .done → w.placedAs placement p = false
    | _ => True
  move _ _ := True
  stop _ _ := True

/-! ## Each pass keeps its account -/

section

variable {i : ℕ} {w : World} {lease : PlacementLease}

/-- Every action is allowed. -/
def anything : Crew.Rules Act World := ⟨fun _ => True, fun _ _ _ => True⟩

abbrev Keeps {α : Type} (i : ℕ) (p : Autonomous α) (Q : α → Prop) (w : World) : Prop :=
  Does setting anything newlyPlaced i p (fun a _ => Q a) (fun _ => True) w

theorem keeps_any {α : Type} (p : Autonomous α) : Keeps i p (fun _ => True) w := Does.free p

theorem keeps_rewrite {placement : Placement} {jobId : String} (fuel : ℕ)
    (hw : Lived setting anything newlyPlaced w) :
    Keeps i (rewriteQueuedPlacement lease placement jobId fuel) (· ≠ .stood) w := by
  induction fuel generalizing w with
  | zero => exact fun _ _ _ _ b _ _ _ => ⟨trivial, fun _ => nomatch b⟩
  | succ fuel ih =>
    refine .bind (keeps_any _) hw (fun found w hw _ => ?_) fun _ _ h => h
    split
    · exact .pure (by decide)
    · split
      · exact .pure (by decide)
      refine .bind (keeps_any _) hw (fun answer w hw _ => ?_) fun _ _ h => h
      split
      · exact ih hw
      · exact .fail trivial
      · refine .bind (keeps_any _) hw (fun there w hw _ => ?_) fun _ _ h => h
        split
        · refine .bind (keeps_any _) hw (fun _ w hw _ => ?_) fun _ _ h => h
          refine .bind (keeps_any _) hw (fun there w hw _ => ?_) fun _ _ h => h
          split
          · exact .pure (by decide)
          · exact .pure (by decide)
        · exact .pure (by decide)
    · exact .fail trivial

theorem done_of_read {site : Site} {p : Path} {c : Choice} {found : Option (Contents × ℕ)}
    {w' : World} (h : setting.perform i (.read site p) c w = some (.ok found, w')) : c = .done := by
  cases c with
  | done => rfl
  | lost applied =>
    simp only [setting, World.perform, World.call, Option.map_some, Option.some.injEq,
      Prod.mk.injEq] at h
    cases h.1
  | _ => simp [setting, World.perform, World.call] at h

theorem keeps_update (fuel : ℕ) (lease : PlacementLease) (jobId : String)
    (selected : PlacementCandidate) (hw : Lived setting anything newlyPlaced w) :
    Keeps i (updateJobPlacement fuel lease jobId selected) (· ≠ .stood) w := by
  refine .bind (Does.tries (.const True) hw trivial (E := fun _ => True)
    (Q := fun found _ => ∀ job v, found = some (.job job, v) → job.state = .queued →
      selected.placement.standsIn job = false)
    fun w₁ c b w₂ hw₁ _ hperform hcond => ⟨trivial, fun _ => ?_⟩) hw
    (fun found w hw hfound => ?_) fun _ _ h => h
  · obtain ⟨-, hb, -, -⟩ := perform_read hperform
    rcases hb with rfl | rfl
    · intro job v hget hqueued
      have hnot := hcond selected.placement rfl (done_of_read hperform)
      simpa [World.placedAs, hget, hqueued] using hnot
    · trivial
  · split
    · exact .pure (by decide)
    · next job v =>
      split
      · exact .pure (by decide)
      next hqueued =>
      have hnot := hfound job v rfl (not_not.mp hqueued)
      rw [if_neg (by simp [hnot])]
      split
      · exact .pure (by decide)
      · exact .bind (keeps_any _) hw (fun _ w hw _ => keeps_rewrite fuel hw) fun _ _ h => h
    · exact .fail trivial

theorem keeps_carryOut {fuel : ℕ} {decision : String} {job : PlanJob}
    {selected : PlacementCandidate} {candidates : List PlacementCandidate}
    (hw : Lived setting anything newlyPlaced w) :
    Keeps i (carryOut fuel decision lease job selected candidates) (· ≠ .stood) w := by
  refine .bind (keeps_any _) hw (fun written w hw _ => ?_) fun _ _ h => h
  cases written with
  | error e => exact .bind (keeps_any _) hw (fun _ _ _ _ => .fail trivial) fun _ _ h => h
  | ok _ =>
  refine .bind (keeps_update fuel lease job.jobId selected hw).attempt hw
    (fun r w hw hr => ?_) fun _ _ h => h
  cases r with
  | error e => exact .bind (keeps_any _) hw (fun _ _ _ _ => .fail trivial) fun _ _ h => h
  | ok placed =>
    cases placed with
    | changed =>
      exact .bind (keeps_any _) hw (fun _ _ _ _ => .pure (by decide)) fun _ _ h => h
    | stood => exact absurd rfl hr
    | gone => exact .pure hr

theorem keeps_planJob {fuel : ℕ} {market : Market} {offers : List CapacityOffer}
    {budget : CloudBudget} (hkeys : (offers.map key).Nodup) {pass : Pass}
    (h : Accounted offers budget pass) (job : PlanJob) (hw : Lived setting anything newlyPlaced w) :
    Keeps i (planJob fuel market pass job) (Accounted offers budget) w := by
  unfold planJob
  split
  · exact .pure (h.same rfl rfl rfl)
  simp only
  split
  · exact .bind (keeps_any _) hw (fun _ _ _ _ => .pure (h.same rfl rfl rfl)) fun _ _ h => h
  next selected offer hselect =>
  refine .bind (keeps_any _) hw (fun decision w hw _ => ?_) fun _ _ h => h
  refine .bind (keeps_any _) hw (fun now w hw _ => ?_) fun _ _ h => h
  refine .bind (keeps_any _) hw (fun acquired w hw _ => ?_) fun _ _ h => h
  cases acquired with
  | none => exact .pure (h.same rfl rfl rfl)
  | some lease =>
    exact .bind (keeps_carryOut hw) hw
      (fun placed _ _ hplaced => .pure (h.decided hkeys hselect hplaced)) fun _ _ h => h

theorem keeps_passRoutine (given : Given) (hw : Lived setting anything newlyPlaced w) :
    Keeps i (passRoutine given) (fun r => (r.1.offers.map key).Nodup →
      Within r.1.offers r.1.budget r.2) w := by
  by_cases hkeys : (given.offers.map key).Nodup
  · have hfold : ∀ (jobs : List PlanJob) (pass : Pass) (w : World),
        Accounted given.offers given.budget pass → Lived setting anything newlyPlaced w →
        Keeps i (jobs.foldlM (planJob given.fuel given.market) pass)
          (Accounted given.offers given.budget) w := by
      intro jobs
      induction jobs with
      | nil => exact fun _ _ h _ => .pure h
      | cons job rest ih =>
        intro pass w h hw
        exact .bind (keeps_planJob hkeys h job hw) hw (fun pass w hw h => ih pass w h hw)
          fun _ _ h => h
    have hpass : Keeps i (planQueued given.fuel given.market given.offers given.budget given.queued)
        (Accounted given.offers given.budget) w := by
      unfold planQueued
      simp only
      split
      · exact .pure (.start _)
      · exact hfold _ _ w (.start _) hw
    exact .bind hpass hw (fun pass _ _ h => .pure fun _ => h.toWithin) fun _ _ h => h
  · exact .bind (keeps_any _) hw (fun _ _ _ _ => .pure fun h => absurd h hkeys) fun _ _ h => h

end

/-- Where no two offers are found again by the same key and no pass finds a job already
placed as it decides, every pass that ends stays within its offers and budgets. -/
theorem passes_within (clock : ℕ) (s : Passes)
    (h : Config.Reaches setting passRoutine newlyPlaced (noPassYet clock) s) (i : ℕ) (given : Given)
    (pass : Pass) (hended : s.ended i = some (given, pass))
    (hkeys : (given.offers.map key).Nodup) :
    Within given.offers given.budget pass := by
  have hsound : Config.Sound setting anything newlyPlaced
      (fun _ r _ => (r.1.offers.map key).Nodup → Within r.1.offers r.1.budget r.2)
      (fun _ _ => True) s :=
    (Config.Sound.nobody trivial).reaches (fun _ _ => .const _) (fun _ => .const True)
      (fun given _ _ hnew => keeps_passRoutine given hnew.lived) h
  unfold Passes.ended at hended
  split at hended
  · next r hrun =>
    cases hended
    exact hsound.does i _ hrun hkeys
  · cases hended

/-! ## A job onto the last instance -/

instance decidableNewlyPlaced {β : Type} (i : ℕ) (a : Act β) (c : Choice) (w : World) :
    Decidable (newlyPlaced.act i a c w) :=
  match a with
  | .read site p => inferInstanceAs (Decidable (∀ placement ∈ site.checks, c = .done →
      w.placedAs placement p = false))
  | .now _ | .uuid | .currentProcess | .ownerState _ | .exist _ _ | .create _ _ _ | .swap _ _ _ _
  | .put _ _ _ | .delete _ _ | .touch _ _ | .begin _ _ | .finish _ | .validPlan | .recover _
  | .looping => isTrue trivial

/-- A pass over one spare instance. -/
def oneSpare (queued : List PlanJob) : Given :=
  ⟨1, minuteMarket, [standingOffer "spare" 1], unbounded, queued⟩

/-- Coordinator `i` plans the next job, with `calls` storage calls after it has drawn its
ids. -/
def jobRun (i : ℕ) (decision token : String) (calls : ℕ) : List (Event Given Choice Move) :=
  [.act i (.id decision), .act i .done, .act i (.id token), .act i (.process ⟨"host", i⟩)] ++
    List.replicate calls (.act i .done)

/-- The pass of coordinator `i` ended, with `count` jobs on the first offer. -/
def endedWith (i count : ℕ) (queued : List PlanJob) (s : Passes) : Bool :=
  (s.ended i).any fun r => decide (r.1.offers = (oneSpare queued).offers ∧
    (r.2.onto 0).length = count)

/-- A pass that places the one job its offer has room for. -/
theorem last_instance_taken : ∃ s : Passes, ∃ given pass, s.ended 0 = some (given, pass) ∧
    (pass.onto 0).length = 1 ∧ Within given.offers given.budget pass := by
  obtain ⟨s, hreaches, hs⟩ := Config.exists_run setting passRoutine (noPassYet 0)
    decidableNewlyPlaced (fun _ _ => isTrue trivial) (fun _ _ => isTrue trivial)
    ([.move (.job "j" (some (bareJob "j").val)), .start (oneSpare [hourJob "j"])] ++
      jobRun 0 "decision" "token" 9)
    (P := endedWith 0 1 []) (by decide +kernel)
  obtain ⟨⟨given, pass⟩, hended, hcount⟩ := Option.any_eq_true _ _ |>.mp hs
  obtain ⟨hoffers, hone⟩ := of_decide_eq_true hcount
  refine ⟨s, given, pass, hended, hone, passes_within 0 s hreaches 0 given pass hended ?_⟩
  simp only at hoffers
  rw [hoffers]
  decide

/-- The job as the first pass left it. -/
def placedJob : PlanJob :=
  { hourJob "a" with provider := "gcp", pinToProvider := true, assignedTo := "spare" }

/-- The next pass finds one job already placed on the one spare instance, and places
another there. -/
theorem standing_job_uncounted : ¬ ∀ (clock : ℕ) (s : Passes),
    Config.Reaches setting passRoutine .any (noPassYet clock) s → ∀ i given pass,
      s.ended i = some (given, pass) → Within given.offers given.budget pass := by
  intro h
  obtain ⟨s, hreaches, hs⟩ := Config.exists_exec (C := .any) setting passRoutine (noPassYet 0)
    (fun _ _ => true) (fun _ _ _ => Config.meets_any)
    ([.move (.job "a" (some (bareJob "a").val)), .move (.job "b" (some (bareJob "b").val)),
      .start (oneSpare [hourJob "a"])] ++ jobRun 0 "decision" "token" 9 ++
      [.move (.tick (60 * nanosPerSecond)), .start (oneSpare [placedJob, hourJob "b"])] ++
      jobRun 1 "second" "newer" 5 ++ jobRun 1 "third" "other" 9)
    (P := endedWith 1 2 []) (by decide +kernel)
  obtain ⟨⟨given, pass⟩, hended, hcount⟩ := Option.any_eq_true _ _ |>.mp hs
  obtain ⟨hoffers, htwo⟩ := of_decide_eq_true hcount
  have hle := (h 0 s hreaches 1 given pass hended).capacity 0 (standingOffer "spare" 1)
    (by simp only at hoffers; rw [hoffers]; rfl)
  simp only at htwo
  rw [htwo] at hle
  exact absurd hle (by decide)

end Stado.Autonomy
