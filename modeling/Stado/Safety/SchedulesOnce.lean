import Stado.Autonomy.ScheduleSpecs
import Stado.Safety.MutationGate

/-!
# Scheduled starts and stops

Coordinators tick over the schedules of their resources while others pause and
resume the control plane. An occurrence succeeds once while the record and the
release that follow a success take effect; one whose holder stopped before it was
carried out stays claimed for good.
-/

namespace Stado.Autonomy

open CasStore Crew Config

/-! ## The system -/

inductive ScheduleOp where
  /-- `reconcile_schedules`, over the resources of a snapshot. -/
  | tick (resources : List ResourceRecord)
  | setControl (emergencyPaused : Bool) (reason : Option String) (actor : String)

def scheduleRoutine (nextDue : NextDue) (policy : AutonomyPolicy) : ScheduleOp → Autonomous PUnit
  | .tick resources => do
      let _ ← reconcileSchedules nextDue policy resources
      pure ()
  | .setControl emergencyPaused reason actor => do
      let _ ← setControl emergencyPaused reason actor
      pure ()

def Site.recordsSuccess : Site → Bool
  | .recordRead _ .succeeded | .recordClock .succeeded | .record _ .succeeded => true
  | _ => false

/-- The plan whose slot a statement releases. -/
def Site.releases : Site → Option String
  | .ownReleaseRead operation | .ownRelease operation => some operation
  | _ => none

/-- The plan whose failure removes a marker. -/
def Site.removes : Site → Option String
  | .markerDelete operation => some operation
  | _ => none

/-- The plan of `operation` has been carried out. -/
def World.succeeded (w : World) (operation : String) : Prop :=
  ∃ e ∈ w.executions, e.operation = operation ∧ e.ended = some .succeeded

/-- The lease of the slot at `p` is the one taken for the plan of `operation`. -/
def World.leasedTo (w : World) (operation : String) (p : Path) : Bool :=
  match w.store.get p with
  | some (.lease lease, _) => lease.holder = "autonomy-reconciler" ∧ lease.decisionId = operation
  | _ => false

/-- A success is recorded and its slot, still its own, released; a plan is valid and
written within the calendar; no lost answer, and unless `stops` no stop, leaves the
marker of an occurrence behind that was not carried out. -/
def scheduleTerms (limits : SafetyLimits) (stops : Bool) : Terms where
  act _ a c w :=
    match a with
    | .validPlan => c = .reason none
    | .now site =>
      (site = .planClock → w.clock + limits.decisionTtlSeconds * nanosPerSecond ≤ lastInstant) ∧
        (site.recordsSuccess → w.clock + limits.cooldown ≤ lastInstant)
    | .put site _ _ => site = .planWrite → c = .done
    | .create site p _ => (site = .markerCreate → c ≠ .lost true) ∧
        (site.recordsSuccess → c = .done ∧ w.store.get p = none)
    | .delete site _ => ∀ operation ∈ site.removes,
        c = .done ∨ ∃ e ∈ w.executions, e.operation = operation
    | .read site p => (site.recordsSuccess → c = .done) ∧ ∀ operation ∈ site.releases,
        w.succeeded operation → c = .done ∧ w.leasedTo operation p
    | .swap site p v _ =>
      (site.recordsSuccess → c = .done ∧ (w.store.get p).map (·.2) = some v) ∧
        ∀ operation ∈ site.releases, w.succeeded operation →
          c = .done ∧ (w.store.get p).map (·.2) = some v
    | _ => True
  move _ _ := True
  stop i w := stops = false → w.settledBut i none

def Coordinators.left (s : Coordinators) (i : ℕ) : Prop :=
  s.tasks[i]? = some none ∨ s.returned i

/-- An occurrence succeeds once and keeps its marker then; a marker is removed and
completed by the coordinator that created it; and one whose holder left before its
occurrence was carried out can be taken over. -/
structure ScheduledOnce (nextDue : NextDue) (policy : AutonomyPolicy) (s : Coordinators) : Prop where
  once : ∀ p, ∀ e ∈ s.world.executions, ∀ e' ∈ s.world.executions,
    s.world.plannedFor e.operation p → s.world.plannedFor e'.operation p →
      e.ended = some .succeeded → e'.ended = some .succeeded → e = e'
  claimed : ∀ p, ∀ e ∈ s.world.executions, s.world.plannedFor e.operation p →
    e.ended = some .succeeded → s.world.store.get p ≠ none
  holder : ∀ (e : AutonomyEntry) (older : AutonomyStore), (e :: older) <:+ s.world.store →
    ((∃ operation, e.site = .markerDelete operation) ∨
      ∃ operation, e.site = .markerComplete operation) →
    ∃ c v created, older.get e.path = some (c, v) ∧ older.Held v created ∧
      (created.site = .markerCreate ∨ created.site = .markerSwap) ∧ created.author = e.author
  takeover : ∀ i p v, s.left i → s.world.holds i p v → ¬ s.world.executedSince p v →
    ∃ s', Reaches setting (scheduleRoutine nextDue policy) .any s s' ∧
      ∃ j v', v < v' ∧ s'.world.holds j p v'

/-! ## Each call settles its markers -/

section

variable {policy : AutonomyPolicy} {nextDue : NextDue} {stops : Bool} {i : ℕ}

def scheduleRegime (policy : AutonomyPolicy) : Regime := ⟨some "autonomy-reconciler", policy.limits⟩

variable {w : World} {clock : ℕ} {s : Coordinators}

theorem leased_of_leasedTo {operation : String} {p : Path}
    (h : w.leasedTo operation p = true) : ∃ lease v, w.store.get p = some (.lease lease, v) ∧
      lease.holder = "autonomy-reconciler" ∧ lease.decisionId = operation := by
  unfold World.leasedTo at h
  split at h
  · next lease v hget => exact ⟨lease, v, hget, of_decide_eq_true h⟩
  · cases h

theorem succeeded_of_ended {operation : String} {n : ℕ} {mine : List Execution}
    (h : w.Ended i operation n mine .succeeded) : w.succeeded operation := by
  obtain ⟨e, hop, -, hended, hsame⟩ := h.mine
  have hmem : e ∈ w.mine i := hsame ▸ List.mem_cons_self
  exact ⟨e, (List.mem_filter.mp hmem).1, hop, hended⟩

theorem markersSettle_scheduleTerms :
    MarkersSettle (scheduleRegime policy) (scheduleTerms policy.limits stops) := by
  constructor
  · exact fun i c w hcond => hcond
  · exact fun i c w hcond => hcond.1 rfl
  · exact fun i p plan c w hcond => hcond rfl
  · exact fun i p marker c w hcond => hcond.1 rfl
  · exact fun i operation p c w hcond => hcond operation rfl
  · exact fun i operation n mine => ⟨⟨fun c w _ hcond => hcond.1 rfl,
      fun state c w _ hcond => hcond.2 rfl, fun v state c w _ hcond => found_of_map (hcond.1 rfl)⟩,
      fun c w _ hcond => hcond.2 rfl⟩
  · intro i operation n mine
    constructor
    · intro subject c w hended hcond
      obtain ⟨hdone, hleased⟩ := hcond.2 operation rfl (succeeded_of_ended hended)
      obtain ⟨lease, v, hget, hholder, hdecision⟩ := leased_of_leasedTo hleased
      exact ⟨hdone, lease, v, hget, congrArg some hholder, hdecision⟩
    · intro subject v new c w hended hcond
      exact found_of_map (hcond.2 operation rfl (succeeded_of_ended hended))

theorem settledBut_of_new {g : Regime} {C : Terms} (h : New setting (rules g) C i w) :
    w.settledBut i none := by
  refine h.knows knows_settledBut fun w hbegins p v hholds => ?_
  obtain ⟨-, c, e, hget, -⟩ := hholds
  simp [hbegins.1] at hget

/-- No call leaves a marker behind whose occurrence was not carried out. -/
theorem right_scheduleRoutine (hnext : nextDue.StrictlyAfter) (op : ScheduleOp)
    (h : New setting (rules (scheduleRegime policy)) (scheduleTerms policy.limits stops) i w) :
    Right (scheduleRegime policy) (scheduleTerms policy.limits stops) i
      (scheduleRoutine nextDue policy op) (fun _ w => w.settledBut i none)
      (fun w => w.settledBut i none) w := by
  have hw := h.lived
  have hsettled := settledBut_of_new h
  cases op with
  | tick resources =>
    exact .bind (right_reconcileSchedules markersSettle_scheduleTerms rfl hnext rfl resources hw
      hsettled) hw (fun _ _ _ h => .pure h) fun _ _ h => h
  | setControl emergencyPaused reason actor =>
    have hcontrol : Right (scheduleRegime policy) (scheduleTerms policy.limits stops) i
        (setControl emergencyPaused reason actor) (fun _ _ => True) (fun _ => True) w :=
      right_setControl (.const True) ⟨fun _ _ _ h => h⟩ hw trivial
    exact .bind (hcontrol.frame knows_settledBut (only_setControl fun a ha c w b w' hold hperform =>
      (setAside hperform ha).settledBut hold) hw hsettled) hw (fun _ _ _ h => .pure h.2)
      fun _ _ h => h.2

theorem sound_schedules (hnext : nextDue.StrictlyAfter)
    (h : Reaches setting (scheduleRoutine nextDue policy)
      (scheduleTerms policy.limits stops) (nobodyYet clock) s) :
    Sound setting (rules (scheduleRegime policy)) (scheduleTerms policy.limits stops)
      (fun i _ w => w.settledBut i none) (fun i w => w.settledBut i none) s := by
  have hbegins : (rules (scheduleRegime policy)).begins (World.fresh clock) := ⟨rfl, rfl, rfl, rfl⟩
  exact (Sound.nobody hbegins).reaches (fun _ _ => knows_settledBut)
    (fun _ => knows_settledBut) (fun op _ _ hnew => right_scheduleRoutine hnext op hnew) h

theorem stopped_knows (hnext : nextDue.StrictlyAfter) {s' : Coordinators}
    (h : Reaches setting (scheduleRoutine nextDue policy)
      (scheduleTerms policy.limits stops) (nobodyYet clock) s)
    {G : World → Prop} (hG : Knows (scheduleRegime policy) (scheduleTerms policy.limits stops) i G)
    (hstop : s.tasks[i]? ≠ some none → ∀ w, (scheduleTerms policy.limits stops).stop i w → G w)
    (hbefore : s.tasks[i]? = some none → G s.world)
    (h' : Reaches setting (scheduleRoutine nextDue policy)
      (scheduleTerms policy.limits stops) s s') :
    (s.tasks[i]? = some none → s'.tasks[i]? = some none) ∧
      (s'.tasks[i]? = some none → G s'.world) :=
  (sound_schedules hnext h).stopped (fun _ _ => knows_settledBut) (fun _ => knows_settledBut)
    (fun op _ _ hnew => right_scheduleRoutine hnext op hnew) hG hstop hbefore h'

/-- A coordinator that left holds no marker whose occurrence was not carried out,
unless one stopped with it. -/
theorem settled_of_left (hnext : nextDue.StrictlyAfter)
    (h : Reaches setting (scheduleRoutine nextDue policy)
      (scheduleTerms policy.limits false) (nobodyYet clock) s) (hleft : s.left i) :
    s.world.settledBut i none := by
  rcases hleft with hstopped | ⟨a, hpure⟩ | ⟨e, hfail⟩
  · refine (stopped_knows hnext .refl knows_settledBut (fun _ w hw => hw rfl)
      (fun hnone => ?_) h).2 hstopped
    simp [nobodyYet] at hnone
  · exact (sound_schedules hnext h).does i _ hpure
  · exact (sound_schedules hnext h).does i _ hfail

end

/-- While successes are recorded and released and no holder stops too early, schedules
happen once in every state of every run; a holder that stops keeps its marker for good. -/
theorem schedules_once (nextDue : NextDue) (hnext : nextDue.StrictlyAfter)
    (policy : AutonomyPolicy) (clock : ℕ) :
    (∀ s, Reaches setting (scheduleRoutine nextDue policy)
        (scheduleTerms policy.limits false) (nobodyYet clock) s → ScheduledOnce nextDue policy s) ∧
      ∀ s s' i p v, Reaches setting (scheduleRoutine nextDue policy)
        (scheduleTerms policy.limits true) (nobodyYet clock) s →
        Reaches setting (scheduleRoutine nextDue policy)
          (scheduleTerms policy.limits true) s s' →
        s.tasks[i]? = some none → s.world.holds i p v → s'.world.holds i p v := by
  constructor
  · intro s h
    have hlived := (sound_schedules hnext h).lived
    have honce := oncePer hlived
    refine ⟨fun p e he e' he' hp hp' hdone hdone' => ?_, fun p e he hp hdone => ?_,
      fun e older hsuffix hsite => ?_, fun i p v hleft hholds hnot => ?_⟩
    · have hop := honce.one p e he e' he' hp hp' (.inr hdone) (.inr hdone')
      exact List.inj_on_of_nodup_map (engaged hlived).distinct he he' hop
    · exact honce.stays p e he hp (.inr hdone)
    · obtain ⟨c, v, created, hget, hheld, hcreate, hauthor⟩ :=
        removed_by_holder hlived hsuffix hsite
      exact ⟨c, v, created, hget, hheld, .inl hcreate, hauthor⟩
    · rcases settled_of_left hnext h hleft p v hholds with hexcept | hexecuted
      · cases hexcept
      · exact absurd hexecuted hnot
  · intro s s' i p v h h' hstopped hholds
    obtain ⟨hstays, hkept⟩ := stopped_knows hnext h (knows_holds (p := p) (v := v))
      (fun hrunning => absurd hstopped hrunning) (fun _ => hholds) h'
    exact hkept (hstays hstopped)

/-! ## An occurrence that is carried out -/

instance decidableSucceeded (w : World) (operation : String) : Decidable (w.succeeded operation) :=
  inferInstanceAs (Decidable (∃ e ∈ w.executions, e.operation = operation ∧
    e.ended = some .succeeded))

instance decidableScheduleAct (limits : SafetyLimits) (stops : Bool) {β : Type} (i : ℕ) (a : Act β)
    (c : Choice) (w : World) : Decidable ((scheduleTerms limits stops).act i a c w) :=
  match a with
  | .validPlan => inferInstanceAs (Decidable (c = .reason none))
  | .now site => inferInstanceAs (Decidable ((site = .planClock →
      w.clock + limits.decisionTtlSeconds * nanosPerSecond ≤ lastInstant) ∧
        (site.recordsSuccess → w.clock + limits.cooldown ≤ lastInstant)))
  | .put site _ _ => inferInstanceAs (Decidable (site = .planWrite → c = .done))
  | .create site p _ => inferInstanceAs (Decidable ((site = .markerCreate → c ≠ .lost true) ∧
      (site.recordsSuccess → c = .done ∧ w.store.get p = none)))
  | .delete site _ => inferInstanceAs (Decidable (∀ operation ∈ site.removes,
      c = .done ∨ ∃ e ∈ w.executions, e.operation = operation))
  | .read site p => inferInstanceAs (Decidable ((site.recordsSuccess → c = .done) ∧
      ∀ operation ∈ site.releases, w.succeeded operation → c = .done ∧ w.leasedTo operation p))
  | .swap site p v _ => inferInstanceAs (Decidable (
      (site.recordsSuccess → c = .done ∧ (w.store.get p).map (·.2) = some v) ∧
        ∀ operation ∈ site.releases, w.succeeded operation →
          c = .done ∧ (w.store.get p).map (·.2) = some v))
  | .uuid | .currentProcess | .ownerState _ | .exist _ _ | .touch _ _ | .begin _ _ | .finish _
  | .recover _ | .looping => isTrue trivial

/-- The whole minute strictly after an instant. -/
def nextMinute : NextDue := fun _ start _ =>
  .ok ((start / (60 * nanosPerSecond) + 1) * (60 * nanosPerSecond)).toNat

theorem nextMinute_strictlyAfter : nextMinute.StrictlyAfter := by
  intro expression start timezone t h
  cases h
  simp only [nanosPerSecond]
  omega

/-- Every machine is stopped at each minute. -/
def minutely : AutonomyPolicy where
  limits := oneSlot
  matchingRule := fun _ => some ⟨"rule", some "* * * * *", none, some "UTC"⟩
  authorized := fun _ => true

def machine : ResourceRecord := ⟨"machine", "gcp", true, none, .owned, .running⟩

/-- Coordinator `i` gets the marker that is due and, after `calls` storage calls, a slot;
its plan is carried out and the slot released. -/
def occurrenceRun (i : ℕ) (operation token : String) (calls : ℕ) :
    List (Event ScheduleOp Choice Move) :=
  .start (.tick [machine]) ::
    [.act i .done, .act i .done, .act i .done, .act i (.id operation), .act i (.reason none),
      .act i .done, .act i .done, .act i (.id token), .act i (.process ⟨"host", i⟩)] ++
    List.replicate calls (.act i .done) ++
    [.act i .done, .act i .done, .act i .done, .act i .done, .act i (.outcome .succeeded),
      .act i .done, .act i .done, .act i .done]

def dueMarker : Path := .marker "machine" .stopInstance (60 * nanosPerSecond)

def dueSuccesses (w : World) : List String :=
  (w.executions.filter fun e => decide (e.ended = some .succeeded ∧
    (w.store.get (.plan e.operation)).map (·.1) = some (.plan dueMarker))).map Execution.operation

/-- A machine is stopped at its minute, and the marker completed. -/
theorem occurrence_carried_out : nextMinute.StrictlyAfter ∧ ∃ s : Coordinators,
    dueSuccesses s.world = ["operation"] ∧ ScheduledOnce nextMinute minutely s := by
  obtain ⟨s, hreaches, hs⟩ := exists_run (C := scheduleTerms oneSlot false) setting
    (scheduleRoutine nextMinute minutely) (nobodyYet (70 * nanosPerSecond))
    (decidableScheduleAct oneSlot false) (fun _ _ => isTrue trivial)
    (fun _ _ => Classical.propDecidable _)
    (occurrenceRun 0 "operation" "token" 1 ++ List.replicate 6 (.act 0 .done))
    (P := fun s => decide (dueSuccesses s.world = ["operation"])) (by decide +kernel)
  exact ⟨nextMinute_strictlyAfter, s, of_decide_eq_true hs,
    (schedules_once nextMinute nextMinute_strictlyAfter minutely _).1 s hreaches⟩

/-- The record of a success is lost: the marker is removed, and the next tick carries
the occurrence out again. -/
theorem succeeded_twice : ¬ ∀ (nextDue : NextDue) (_ : nextDue.StrictlyAfter)
    (policy : AutonomyPolicy) (clock : ℕ) (s : Coordinators),
    Reaches setting (scheduleRoutine nextDue policy) .any (nobodyYet clock) s →
      ScheduledOnce nextDue policy s := by
  intro h
  obtain ⟨s, hreaches, hs⟩ := exists_exec (C := .any) setting
    (scheduleRoutine nextMinute minutely) (nobodyYet (70 * nanosPerSecond)) (fun _ _ => true)
    (fun _ _ _ => meets_any)
    (occurrenceRun 0 "operation" "token" 1 ++ [.act 0 (.lost false), .act 0 .done] ++
      occurrenceRun 1 "again" "other" 3)
    (P := fun s => decide (dueSuccesses s.world = ["again", "operation"])) (by decide +kernel)
  have htwice : dueSuccesses s.world = ["again", "operation"] := of_decide_eq_true hs
  have hdone : ∀ operation ∈ dueSuccesses s.world, ∃ e ∈ s.world.executions,
      e.operation = operation ∧ e.ended = some .succeeded ∧
        s.world.plannedFor e.operation dueMarker := by
    intro operation hmem
    obtain ⟨e, he, rfl⟩ := List.mem_map.mp hmem
    obtain ⟨he, hdone⟩ := List.mem_filter.mp he
    obtain ⟨hended, hplan⟩ := of_decide_eq_true hdone
    obtain ⟨⟨c, v⟩, hget, rfl⟩ := Option.map_eq_some_iff.mp hplan
    exact ⟨e, he, rfl, hended, v, hget⟩
  rw [htwice] at hdone
  obtain ⟨e, he, hop, hended, hplan⟩ := hdone "again" (by simp)
  obtain ⟨e', he', hop', hended', hplan'⟩ := hdone "operation" (by simp)
  have hsame := (h nextMinute nextMinute_strictlyAfter minutely _ s hreaches).once dueMarker e he e'
    he' hplan hplan' hended hended'
  rw [hsame, hop'] at hop
  exact absurd hop (by decide)

end Stado.Autonomy
