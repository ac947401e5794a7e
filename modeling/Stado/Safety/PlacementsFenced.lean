import Stado.Autonomy.PlanningSpecs
import Stado.Queue.Machine
import Stado.Safety.MutationGate

/-!
# Placement leases

Coordinators plan the queue while leases are acquired, renewed and released by
whoever has a token. At every instant one token of a subject is active, and a lease
changes only by its token. A pass reads the job again before it writes it, but not
its lease: it overwrites the placement of whoever took the lease over.
-/

namespace Stado.Autonomy

open CasStore Crew Config

/-! ## The system -/

inductive LeaseOp where
  /-- `plan_queued`, over what it read before it walks the queue. -/
  | plan (fuel : ℕ) (market : Market) (offers : List CapacityOffer) (budget : CloudBudget)
      (queued : List PlanJob)
  | acquire (subject decision holder : String) (ttl : Option ℕ)
  | renew (subject token : String) (ttl : Option ℕ) (asked : ℕ)
  | release (subject token : String)
  | releaseExact (owned released : PlacementLease)

def leaseRoutine : LeaseOp → Autonomous PUnit
  | .plan fuel market offers budget queued => do
      let _ ← planQueued fuel market offers budget queued
      pure ()
  | .acquire subject decision holder ttl => do
      let _ ← (do
        let now ← .take (.now .clock)
        acquirePlacementLease subject decision holder ttl now)
      pure ()
  | .renew subject token ttl asked => do
      let _ ← renewPlacementLease subject token ttl asked
      pure ()
  | .release subject token => do
      let _ ← releasePlacementLease subject token
      pure ()
  | .releaseExact owned released => do
      let _ ← releasePlacementLeaseExact owned released
      pure ()

def leaseOf (e : AutonomyEntry) : Option PlacementLease :=
  match e.content with
  | some (.lease lease) => some lease
  | _ => none

def World.unended (w : World) (token : String) : Prop :=
  ∀ e ∈ w.store, ∀ lease ∈ leaseOf e, lease.token = token → ¬ lease.over w

/-- The token a statement places a job under. -/
def Site.places : Site → Option String
  | .placement lease => some lease.token
  | _ => none

/-- A placement that is written is written before a lease of its token has ended. -/
def placementTerms : Terms where
  act _ a c w := ∀ write ∈ a.writes w.store, ∀ token ∈ write.1.places,
    c = .lost false ∨ w.unended token
  move _ _ := True
  stop _ _ := True

/-- One token of a subject is active; a renewal or a release changes a lease of its
own token, and an exact release one that it has not released yet. -/
structure LeasesFenced (s : Coordinators) : Prop where
  single : ∀ subject token token', s.world.active subject token → s.world.active subject token' →
    token = token'
  yielded : ∀ (e : AutonomyEntry) (older : AutonomyStore), (e :: older) <:+ s.world.store →
    e.site.yields = true → ∃ subject prior v, e.path = .lease subject ∧
      older.get e.path = some (.lease prior, v) ∧ Yielded e.site prior

/-- And the placement of a job is written while the token its pass acquired is active:
it is the token of the lease that stands. -/
structure PlacementsFenced (C : Terms) (s : Coordinators) : Prop extends LeasesFenced s where
  placed : ∀ ev s' (e : AutonomyEntry) token, s.Meets C ev →
    s.advance setting leaseRoutine ev = some s' → s'.world.store = e :: s.world.store →
      token ∈ e.site.places → ∃ subject, e.path = .job subject ∧ s.world.active subject token ∧
        ∃ v lease, s.world.store.get (.lease subject) = some (.lease lease, v) ∧
          lease.token = token ∧ ¬ lease.over s.world

/-! ## Each call does as it should -/

section

variable {C : Terms} {i : ℕ} {w : World} {c : Option Contents} {s : Coordinators}

/-- No holder is reserved, and nothing is carried out. -/
def leaseRegime : Regime := ⟨none, oneSlot⟩

theorem right_leaseRoutine (op : LeaseOp) (hw : LivedIn leaseRegime C w) :
    Right leaseRegime C i (leaseRoutine op) (fun _ _ => True) (fun _ => True) w := by
  cases op with
  | plan fuel market offers budget queued =>
    exact .bind (right_planQueued rfl fuel market offers budget queued hw) hw
      (fun _ _ _ _ => .pure trivial) fun _ _ h => h
  | acquire subject decision holder ttl =>
    exact .bind (right_acquireNow rfl hw) hw (fun _ _ _ _ => .pure trivial) fun _ _ h => h
  | renew subject token ttl asked =>
    exact .bind (right_renew rfl hw) hw (fun _ _ _ _ => .pure trivial) fun _ _ h => h
  | release subject token =>
    exact .bind (right_free rfl hw) hw (fun _ _ _ _ => .pure trivial) fun _ _ h => h
  | releaseExact owned released =>
    exact .bind (right_exact rfl hw) hw (fun _ _ _ _ => .pure trivial) fun _ _ h => h

theorem sound_leases {clock : ℕ} (h : Reaches setting leaseRoutine C (nobodyYet clock) s) :
    Sound setting (rules leaseRegime) C (fun _ _ _ => True) (fun _ _ => True) s := by
  have hbegins : (rules leaseRegime).begins (World.fresh clock) := ⟨rfl, rfl, rfl, rfl⟩
  exact (Sound.nobody hbegins).reaches (fun _ _ => .const True) (fun _ => .const True)
    (fun op _ _ hnew => right_leaseRoutine op hnew.lived) h

theorem lease_tokens_fenced {clock : ℕ}
    (h : Reaches setting leaseRoutine C (nobodyYet clock) s) : LeasesFenced s :=
  have hlived := (sound_leases h).lived
  ⟨fun _ _ _ hactive hactive' => active_unique hlived hactive hactive',
    fun _ _ hsuffix hsite => yielded hlived hsuffix hsite⟩

/-- The lease that was last written with a token stands while it has not ended. -/
theorem World.active_of_unended (hw : LivedIn leaseRegime C w) {subject : String} {v : ℕ}
    {lease : PlacementLease} (hwrote : w.wrote v subject lease) (h : w.unended lease.token) :
    w.active subject lease.token ∧ ∃ v held, w.store.get (.lease subject) = some (.lease held, v) ∧
      held.token = lease.token ∧ ¬ held.over w := by
  have hover : ∀ v held, w.wrote v subject held → held.token = lease.token → ¬ held.over w := by
    rintro v held ⟨e, hheld, -, hcontent⟩ htoken
    exact h e hheld.mem held (by simp [leaseOf, hcontent]) htoken
  -- by induction on how many writes came after
  obtain ⟨n, hn⟩ : ∃ n, w.store.length ≤ v + n := ⟨w.store.length, by omega⟩
  induction n generalizing v lease with
  | zero =>
    obtain ⟨e, hheld, -⟩ := hwrote
    have hlt := hheld.lt
    omega
  | succ n ih =>
    rcases (tidy hw).settled v subject lease hwrote with hended | hget | ⟨v', newer, hlt, hnewer, htoken⟩
    · exact absurd hended (hover v lease hwrote rfl)
    · have hnot := hover v lease hwrote rfl
      exact ⟨⟨v, lease, hwrote, rfl, hnot, fun v' newer hnewer _ => hnewer.le_of_get hget⟩,
        v, lease, hget, rfl, hnot⟩
    · rw [← htoken] at h hover ⊢
      exact ih hnewer h hover (by omega)

theorem writes_of_perform {β : Type} {a : Act β} {c : Choice} {b : β} {w w' : World}
    {e : AutonomyEntry} (h : setting.perform i a c w = some (b, w')) (he : w'.store = e :: w.store) :
    a.writes w.store = some (e.site, e.path, e.content) ∧ c ≠ .lost false := by
  have hnot : w'.store ≠ w.store := by
    intro hsame
    rw [hsame] at he
    exact List.cons_ne_self e w.store he.symm
  have hcall : ∀ {β : Type} {site : Site} {call : Call Path Contents β} {b : Except StorageError β},
      w.call i site call c = some (b, w') →
        (call.change w.store).map (site, ·) = some (e.site, e.path, e.content) ∧
          c ≠ .lost false := by
    intro β site call b hcall
    refine ⟨?_, ?_⟩
    · rcases World.call_cases hcall with rfl | ⟨p, content, hchange, rfl⟩
      · exact absurd rfl hnot
      · obtain ⟨rfl, -⟩ := List.cons.inj he
        rw [hchange]
        rfl
    · rintro rfl
      simp only [World.call, Bool.false_eq_true, if_false, Option.some.injEq, Prod.mk.injEq] at hcall
      obtain ⟨-, rfl⟩ := hcall
      exact hnot rfl
  cases a with
  | create site p content => exact hcall h
  | swap site p version content => exact hcall h
  | put site p content => exact hcall h
  | delete site p => exact hcall h
  | begin operation lease => exact absurd (congrArg World.store (perform_begin h)) hnot
  | finish operation => exact absurd (congrArg World.store (perform_finish h)) hnot
  | read site p => exact absurd (perform_read h).1.store hnot
  | exist site p =>
    rcases World.call_cases h with rfl | ⟨p', content, hchange, -⟩
    · exact absurd rfl hnot
    · cases hchange
  | touch site p =>
    rcases World.call_cases h with rfl | ⟨p', content, hchange, -⟩
    · exact absurd rfl hnot
    · cases hchange
  | now site => exact absurd (congrArg World.store (perform_now h).2) hnot
  | uuid => exact absurd (congrArg World.store (perform_uuid h).2) hnot
  | currentProcess => exact absurd (congrArg World.store (perform_process h)) hnot
  | ownerState owner => exact absurd (congrArg World.store (perform_ownerState h).1) hnot
  | validPlan =>
    cases c <;> simp only [setting, World.perform, Option.some.injEq, Prod.mk.injEq,
      reduceCtorEq] at h
    exact absurd (congrArg World.store h.2.symm) hnot
  | recover jobId =>
    cases c <;> simp only [setting, World.perform, Option.some.injEq, Prod.mk.injEq,
      reduceCtorEq] at h
    all_goals exact absurd (congrArg World.store h.2.symm) hnot
  | looping => cases h

theorem permits_of_allowed {g : Regime} {β : Type} {a : Act β} {site : Site} {p : Path}
    (h : (rules g).allowed i a w) (hwrites : a.writes w.store = some (site, p, c)) :
    w.permits g i site p c := by
  cases a with
  | create site' p' c' => exact h site p c hwrites
  | swap site' p' version c' => exact h site p c hwrites
  | put site' p' c' => exact h site p c hwrites
  | delete site' p' => exact h site p c hwrites
  | _ => cases hwrites

theorem placement_of_permits {site : Site} {p : Path}
    {token : String} (h : w.permits leaseRegime i site p c) (htoken : token ∈ site.places) :
    ∃ subject lease v, p = .job subject ∧ w.wrote v subject lease ∧ lease.token = token := by
  cases site with
  | placement lease =>
    cases htoken
    obtain ⟨subject, job, v, hp, -, hwrote⟩ := h
    exact ⟨subject, lease, v, hp, hwrote, rfl⟩
  | _ => cases htoken

end

/-- Leases are fenced in every state of every run; and while a pass writes a placement
before a lease of its token has ended, placements are. -/
theorem placements_fenced (clock : ℕ) :
    (∀ s, Reaches setting leaseRoutine .any (nobodyYet clock) s → LeasesFenced s) ∧
      ∀ s, Reaches setting leaseRoutine placementTerms (nobodyYet clock) s →
        PlacementsFenced placementTerms s := by
  refine ⟨fun s h => lease_tokens_fenced h, fun s h => ⟨lease_tokens_fenced h, ?_⟩⟩
  intro ev s' e token hmeets hadvance he htoken
  have hsound := sound_leases h
  have hnot : s'.world.store ≠ s.world.store := by
    intro hsame
    rw [hsame] at he
    exact List.cons_ne_self e s.world.store he.symm
  cases ev with
  | start op =>
    cases hadvance
    exact absurd rfl hnot
  | act i c =>
    simp only [advance] at hadvance
    split at hadvance
    · next a k hrun =>
      rw [Option.map_eq_some_iff] at hadvance
      obtain ⟨⟨b, w'⟩, hperform, rfl⟩ := hadvance
      have hcond : placementTerms.act i a c s.world := by
        simp only [Meets, Next, hrun] at hmeets
        exact hmeets
      obtain ⟨hwrites, happlied⟩ := writes_of_perform hperform he
      have hallowed := (hsound.does i _ hrun s.world .refl hsound.lived c b w' hperform hcond).1
      obtain ⟨subject, lease, v, hp, hwrote, rfl⟩ :=
        placement_of_permits (permits_of_allowed hallowed hwrites) htoken
      have hunended : s.world.unended lease.token := by
        rcases hcond _ hwrites lease.token htoken with hlost | hunended
        · exact absurd hlost happlied
        · exact hunended
      exact ⟨subject, hp, World.active_of_unended hsound.lived hwrote hunended⟩
    · cases hadvance
  | move m =>
    cases m with
    | tick passed =>
      cases hadvance
      exact absurd rfl hnot
    | exit owner =>
      cases hadvance
      exact absurd rfl hnot
    | job id job =>
      cases hadvance
      obtain ⟨rfl, -⟩ := List.cons.inj he
      cases htoken
  | stop i =>
    simp only [advance] at hadvance
    split at hadvance
    · cases hadvance
      exact absurd rfl hnot
    · cases hadvance

/-! ## A job that is placed -/

instance decidableOver (lease : PlacementLease) (w : World) : Decidable (lease.over w) :=
  match h : lease.expiresAt with
  | some (.instant expires) =>
    decidable_of_iff (expires ≤ w.clock) (by simp [PlacementLease.over, h])
  | some (.unreadable _) => isTrue (by simp [PlacementLease.over, h])
  | none => decidable_of_iff
      (lease.holderProcess = ProcessOwner.default ∨ lease.holderProcess ∈ w.gone)
      (by simp [PlacementLease.over, h])

instance decidableUnended (w : World) (token : String) : Decidable (w.unended token) :=
  inferInstanceAs (Decidable (∀ e ∈ w.store, ∀ lease ∈ leaseOf e, lease.token = token →
    ¬ lease.over w))

instance decidablePlacementAct {β : Type} (i : ℕ) (a : Act β) (c : Choice) (w : World) :
    Decidable (placementTerms.act i a c w) :=
  inferInstanceAs (Decidable (∀ write ∈ a.writes w.store, ∀ token ∈ write.1.places,
    c = .lost false ∨ w.unended token))

def minuteMarket : Market where
  policy :=
    { report := false
      emergencyPaused := false
      decisionTtlSeconds := 60
      allowSpot := false
      requireCheckpointForSpot := false
      accountForEgress := false
      allowedRegions := []
      hourlyUsd := none
      maxSingleActionUsd := none }
  feedback := []
  energy := .error "nothing is measured"
  findHourly := fun _ _ _ _ _ => some ⟨1, "book"⟩
  wallTime := fun _ _ => none
  offerRegions := fun _ => []
  planningNow := 0

def hourJob (jobId : String) : PlanJob where
  jobId := jobId
  command := "train"
  priority := 0
  deadlineAt := none
  deferrable := false
  runtimeSecondsEstimate := 3600
  preemptible := false
  maxPreemptsBeforeOndemand := 0
  gpuMemGb := 0
  gpuType := ""
  machineType := ""
  region := ""
  cpuCores := 0
  memoryGb := 0
  platformOs := ""
  architecture := ""
  maxCostPerHourUsd := 0
  provider := ""
  pinToProvider := false
  pinnedHost := ""
  assignedTo := ""
  startupScriptUri := ""
  outputUri := ""

/-- `available` instances that stand at a provider. -/
def standingOffer (targetId : String) (available : ℤ) : CapacityOffer where
  targetId := targetId
  provider := .gcp
  region := none
  acceleratorType := ""
  machineType := ""
  freeVramGb := 0
  availableInstances := available
  existing := true

def unbounded : CloudBudget := ⟨none, none⟩

/-- The queue has job `j`, and coordinator `i` begins to plan it, with an id for its
decision and a token. -/
def placingRun (i : ℕ) (target decision token : String) : List (Event LeaseOp Choice Move) :=
  [.start (.plan 1 minuteMarket [standingOffer target 1] unbounded [hourJob "j"]),
    .act i (.id decision), .act i .done, .act i (.id token), .act i (.process ⟨"host", i⟩)]

/-- A pass places the job it has taken the lease of. -/
theorem job_placed : ∃ s : Coordinators,
    (∃ e ∈ s.world.store, e.site.places = some "token") ∧ PlacementsFenced placementTerms s := by
  obtain ⟨s, hreaches, hs⟩ := exists_run setting leaseRoutine (nobodyYet 0)
    decidablePlacementAct (fun _ _ => isTrue trivial) (fun _ _ => isTrue trivial)
    (.move (.job "j" (some (bareJob "j").val)) :: placingRun 0 "spare" "decision" "token" ++
      List.replicate 6 (.act 0 .done))
    (P := fun s => decide (∃ e ∈ s.world.store, e.site.places = some "token"))
    (by decide +kernel)
  exact ⟨s, of_decide_eq_true hs, (placements_fenced 0).2 s hreaches⟩

/-- The next action of coordinator 0 places job `j` with its token, and the lease that
stands has another. -/
def overwritesNext (s : Coordinators) : Bool :=
  ((s.advance setting leaseRoutine (.act 0 .done)).any fun s' =>
    s'.world.store.head?.any fun e =>
      decide (s'.world.store = e :: s.world.store ∧ "token" ∈ e.site.places ∧ e.path = .job "j")) &&
    (s.world.store.get (.lease "j")).any fun found =>
      match found.1 with
      | .lease lease => lease.token ≠ "token"
      | _ => false

/-- A pass outlives its lease; another takes the lease over and places the job, and the
first places it again. -/
theorem takeover_overwritten : ¬ ∀ (clock : ℕ) (s : Coordinators),
    Reaches setting leaseRoutine .any (nobodyYet clock) s → PlacementsFenced .any s := by
  intro h
  obtain ⟨s, hreaches, hs⟩ := exists_exec (C := .any) setting leaseRoutine (nobodyYet 0)
    (fun _ _ => true) (fun _ _ _ => meets_any)
    (.move (.job "j" (some (bareJob "j").val)) :: placingRun 0 "spare" "decision" "token" ++
      List.replicate 4 (.act 0 .done) ++ [.move (.tick (60 * nanosPerSecond))] ++
        placingRun 1 "other" "second" "newer" ++ List.replicate 8 (.act 1 .done) ++ [.act 0 .done])
    (P := overwritesNext) (by decide +kernel)
  obtain ⟨hnext, hstands⟩ := Bool.and_eq_true_iff.mp hs
  obtain ⟨s', hadvance, hhead⟩ := Option.any_eq_true _ _ |>.mp hnext
  obtain ⟨e, -, he⟩ := Option.any_eq_true _ _ |>.mp hhead
  obtain ⟨hstore, htoken, hpath⟩ := of_decide_eq_true he
  obtain ⟨subject, hsubject, -, v, lease, hget, hlease, -⟩ :=
    (h 0 s hreaches).placed (.act 0 .done) s' e "token" meets_any hadvance hstore htoken
  obtain rfl := Path.job.inj (hpath.symm.trans hsubject)
  rw [hget] at hstands
  exact absurd hlease (of_decide_eq_true hstands)

end Stado.Autonomy
