import Stado.Autonomy.MutationSpecs

/-!
# What a tick of the schedules promises

A tick holds the markers it created, and under the conditions it never leaves one
behind whose occurrence was not carried out. A marker is never stale: the window
a tick looks back over is as long as a marker stays fresh.
-/

namespace Stado.Autonomy

open CasStore Crew Solo List Routine.Only Routine Does Store World

variable {g : Regime} {C : Terms} {i : ℕ} {w w' : World} {p : Path} {operation : String}
  {except : Option Path} {v : ℕ} {β : Type} {who : Option ℕ}

/-! ## Markers that were carried out -/

/-- An execution for the marker at `p` began after write `v`. -/
def World.executedSince (w : World) (p : Path) (v : ℕ) : Prop :=
  ∃ e ∈ w.executions, w.plannedFor e.operation p ∧ v < e.begunAfter

/-- Coordinator `i` holds no marker whose occurrence was not carried out, but the
excepted one. -/
def World.settledBut (w : World) (i : ℕ) (except : Option Path) : Prop :=
  ∀ p v, w.holds i p v → except = some p ∨ w.executedSince p v

theorem holds_back (hget : w'.store.get p = w.store.get p)
    (hpast : w.store.PastOf w'.store) (h : w'.holds i p v) : w.holds i p v := by
  obtain ⟨hp, c, e, hnew, hheld, hsite, hauthor⟩ := h
  rw [hget] at hnew
  obtain ⟨old, hold, -, -⟩ := get_held hnew
  obtain rfl := hheld.unique (hold.mono hpast)
  exact ⟨hp, c, e, hnew, hold, hsite, hauthor⟩

theorem holds_of_other (hwho : who ≠ some i)
    (h : Changed g C who w w') (hholds : w'.holds i p v) : w.holds i p v := by
  obtain ⟨resource, kind, occurrence, rfl⟩ := hholds.1
  rcases get_of_changed (p := .marker resource kind occurrence) h (by simp) with
    hget | ⟨k, site, c, rfl, -, hstore, -⟩
  · exact holds_back hget (pastOf_of_changed h) hholds
  · obtain ⟨-, c', e, hget, hheld, -, rfl⟩ := hholds
    rw [hstore, get_cons_same rfl, Option.map_eq_some_iff] at hget
    obtain ⟨content, -, heq⟩ := hget
    obtain ⟨rfl, rfl⟩ := Prod.mk.inj heq
    rw [hstore] at hheld
    have hsame := hheld.unique (held_cons_self _ _)
    rw [hsame] at hwho
    exact absurd rfl hwho

theorem executedSince_of_changed
    (h : Changed g C who w w') (hexecuted : w.executedSince p v) : w'.executedSince p v := by
  obtain ⟨e, he, hplanned, hlt⟩ := hexecuted
  have hplanned' := planned_of_changed h hplanned
  cases h with
  | began ok cond => exact ⟨e, mem_cons_of_mem _ he, hplanned', hlt⟩
  | finished drew =>
    exact ⟨_, List.mem_map.mpr ⟨e, he, rfl⟩, by simpa using hplanned', by simpa using hlt⟩
  | _ => exact ⟨e, he, hplanned', hlt⟩

theorem knows_settledBut : Knows g C i fun w => w.settledBut i except := by
  refine ⟨fun {who w w'} hwho hw hstep hsettled p v hholds => ?_⟩
  have hchanged := changed_of_step hstep
  rcases hsettled p v (holds_of_other hwho hchanged hholds) with hexcept | hexecuted
  · exact .inl hexcept
  · exact .inr (executedSince_of_changed hchanged hexecuted)

theorem SetAside.settledBut (h : SetAside w w')
    (hsettled : w.settledBut i except) : w'.settledBut i except := by
  intro q u hholds
  obtain ⟨resource, kind, occurrence, rfl⟩ := hholds.1
  rcases hsettled _ u (holds_back (h.get _ marker_elsewhere) h.past hholds) with
    hexcept | ⟨e, he, hplanned, hlt⟩
  · exact .inl hexcept
  · exact .inr ⟨e, h.executions ▸ he, h.plannedFor.mpr hplanned, hlt⟩

/-! ## Holding a marker while its plan is carried out -/

/-- What a coordinator knows while it carries out the plan of a marker it holds. -/
structure World.Doing (w : World) (i : ℕ) (operation : String) (p : Path) (v : ℕ) : Prop where
  holds : w.holds i p v
  planned : w.plannedFor operation p
  only : ∀ e ∈ w.executions, w.plannedFor e.operation p → e.live → e.operation = operation
  others : w.settledBut i (some p)

theorem knows_doing : Knows g C i fun w => w.Doing i operation p v := by
  refine ⟨fun {who w w'} hwho hw hstep hdoing => ?_⟩
  have hchanged := changed_of_step hstep
  refine ⟨knows_holds.keeps hwho hw hstep hdoing.holds,
    planned_of_changed hchanged hdoing.planned, fun e he hplanned hlive => ?_,
    knows_settledBut.keeps hwho hw hstep hdoing.others⟩
  rcases plannedFor_of_changed hchanged hplanned with hbefore | ⟨-, hnew, hsame⟩
  · cases hchanged with
    | @began k _ operation lease ok cond =>
      rcases mem_cons.mp he with rfl | he
      · obtain ⟨⟨u, hother⟩, -⟩ := ok.marker p hbefore
        exact absurd (congrArg some (holds_unique hother hdoing.holds).1) hwho
      · exact hdoing.only e he hbefore hlive
    | @finished k _ operation' outcome drew =>
      obtain ⟨old, hold, rfl⟩ := List.mem_map.mp he
      simp only [Execution.finished_operation] at hbefore ⊢
      exact hdoing.only old hold hbefore (live_of_finished hlive)
    | _ => exact hdoing.only e he hbefore hlive
  · rw [hsame] at he
    exact absurd rfl (hnew e he)

/-- An action that writes leases and the control state only, and begins no other
execution than of one plan. -/
def Modest (operation : String) {β : Type} (a : Act β) : Prop :=
  match a with
  | .begin operation' _ => operation' = operation
  | .finish _ => True
  | a => Aside a

theorem modest_of_aside {a : Act β} (h : Aside a) : Modest operation a := by
  cases a with
  | begin operation' lease => exact h.elim
  | finish operation' => exact h.elim
  | _ => exact h

theorem spares_doing {a : Act β} (ha : Modest operation a) :
    Spares setting i (fun w => w.Doing i operation p v) a := by
  intro c w b w' hdoing hperform
  have haside : Aside a → w'.Doing i operation p v := by
    intro ha
    have hset := setAside hperform ha
    refine ⟨hset.holds hdoing.holds, hset.plannedFor.mpr hdoing.planned,
      fun e he hplanned hlive => ?_, hset.settledBut hdoing.others⟩
    rw [hset.executions] at he
    exact hdoing.only e he (hset.plannedFor.mp hplanned) hlive
  cases a with
  | begin operation' lease =>
    obtain rfl := perform_begin hperform
    obtain rfl := ha
    refine ⟨hdoing.holds, hdoing.planned, fun e he hplanned hlive => ?_, fun q u hholds => ?_⟩
    · rcases mem_cons.mp he with rfl | he
      · rfl
      · exact hdoing.only e he hplanned hlive
    · rcases hdoing.others q u hholds with hexcept | ⟨e, he, hplanned, hlt⟩
      · exact .inl hexcept
      · exact .inr ⟨e, mem_cons_of_mem _ he, hplanned, hlt⟩
  | finish operation' =>
    obtain rfl := perform_finish hperform
    refine ⟨hdoing.holds, hdoing.planned, fun e he hplanned hlive => ?_, fun q u hholds => ?_⟩
    · obtain ⟨old, hold, rfl⟩ := List.mem_map.mp he
      simp only [Execution.finished_operation] at hplanned ⊢
      exact hdoing.only old hold hplanned (live_of_finished hlive)
    · rcases hdoing.others q u hholds with hexcept | ⟨e, he, hplanned, hlt⟩
      · exact .inl hexcept
      · exact .inr ⟨_, List.mem_map.mpr ⟨e, he, rfl⟩, by simpa [plannedFor] using hplanned,
          by simpa using hlt⟩
  | _ => exact haside ha

/-! ## The actions of carrying out a plan -/

section Only

variable {R : World → Prop} {operation : String}

theorem only_takeSlot (limits : SafetyLimits) (slots : List ℕ)
    (hR : ∀ {β : Type} (a : Act β), Modest operation a → Spares setting i R a) :
    (takeSlot operation limits slots).Only (Spares setting i R) := by
  induction slots with
  | nil => trivial
  | cons slot rest ih =>
    refine bind (only_take (hR _ trivial)) fun asked =>
      bind (only_acquire fun a ha => hR a (modest_of_aside ha)) fun r => ?_
    cases r with
    | none => exact ih
    | some lease => trivial

theorem only_releaseMutationLease (lease : PlacementLease)
    (hR : ∀ {β : Type} (a : Act β), Modest operation a → Spares setting i R a) :
    (releaseMutationLease operation lease).Only (Spares setting i R) := by
  have hlease : ∀ subject, ¬ (Path.lease subject).elsewhere := fun s h => h.1 s rfl
  refine bind (attempt ?_) fun r => ?_
  · refine bind (only_tries (hR _ trivial)) fun found => ?_
    split
    · trivial
    · split
      · trivial
      · refine bind (only_take (hR _ trivial)) fun t =>
          bind (only_tries (hR _ (hlease _))) fun answer => ?_
        split <;> trivial
    · trivial
  · split <;> trivial

theorem only_controlGate (hR : ∀ {β : Type} (a : Act β), Modest operation a → Spares setting i R a) :
    controlGate.Only (Spares setting i R) := by
  refine bind (attempt ?_) fun r => ?_
  · refine bind (only_tries (hR _ trivial)) fun found => ?_
    split
    · exact bind (only_take (hR _ trivial)) fun _ => trivial
    · trivial
    · trivial
  · split
    · trivial
    · split
      · trivial
      · refine bind (only_take (hR _ trivial)) fun t => ?_
        split <;> trivial

theorem only_updateControl {readSite site : Site} {conflict : String}
    {change : ControlState → Autonomous ControlState}
    (hR : ∀ {β : Type} (a : Act β), Aside a → Spares setting i R a)
    (hchange : ∀ state, (change state).Only (Spares setting i R)) :
    (updateControl readSite site conflict change).Only (Spares setting i R) := by
  have hcontrol : ¬ Path.control.elsewhere := fun h => h.2 rfl
  refine bind (only_tries (hR _ trivial)) fun found => ?_
  split
  · refine bind (only_take (hR _ trivial)) fun t =>
      bind (hchange _) fun state =>
        bind (only_tries (hR _ hcontrol)) fun created => ?_
    split <;> trivial
  · refine bind (hchange _) fun state =>
      bind (only_tries (hR _ hcontrol)) fun answer => ?_
    split <;> trivial
  · trivial

theorem only_record (limits : SafetyLimits) (outcome : Outcome)
    (hR : ∀ {β : Type} (a : Act β), Modest operation a → Spares setting i R a) :
    (recordMutationOutcome operation outcome limits.circuitBreakerFailures
      limits.circuitBreakerCooldownSeconds).Only (Spares setting i R) := by
  unfold recordMutationOutcome
  split
  · trivial
  · refine only_updateControl (fun a ha => hR a (modest_of_aside ha)) fun state =>
      bind (only_take (hR _ trivial)) fun t =>
        bind ?_ fun openUntil => trivial
    cases expiresAt t limits.circuitBreakerCooldownSeconds
      "limits.circuit_breaker_cooldown_seconds" <;> trivial

theorem only_setControl {emergencyPaused : Bool} {reason : Option String} {actor : String}
    (hR : ∀ {β : Type} (a : Act β), Aside a → Spares setting i R a) :
    (setControl emergencyPaused reason actor).Only (Spares setting i R) :=
  only_updateControl hR fun _ => bind (only_take (hR _ trivial))
    fun _ => trivial

theorem only_executeWithCircuit (limits : SafetyLimits)
    (hR : ∀ {β : Type} (a : Act β), Modest operation a → Spares setting i R a) :
    (executeWithCircuit operation limits).Only (Spares setting i R) := by
  refine bind (only_takeSlot limits _ hR) fun r => ?_
  split
  · trivial
  · refine bind (only_controlGate hR) fun shut => ?_
    split
    · exact bind (only_releaseMutationLease _ hR) fun _ => trivial
    · refine bind (bind (only_take (hR _ rfl)) fun _ =>
        only_take (hR _ trivial)) fun outcome =>
          bind (only_releaseMutationLease _ hR) fun releaseError => ?_
      split
      · refine bind (only_record limits _ hR) fun _ => ?_
        split <;> trivial
      · exact bind (only_record limits _ hR) fun _ => trivial

end Only

/-! ## The marker of a tick -/

variable {w' : World} {site : Site} {v : ℕ} {choice : Choice} {policy : AutonomyPolicy}
  {resource : String} {kind : ActionKind} {occurrence : ℕ} {b : Except StorageError Unit}
  {c : Contents} {mine : List Execution} {nextDue : NextDue}

theorem perform_validPlan {why why' : Option String}
    (h : setting.perform i .validPlan (.reason why) w = some (why', w')) : why' = why ∧ w' = w := by
  simp only [setting, perform, Option.some.injEq, Prod.mk.injEq] at h
  exact ⟨h.1.symm, h.2.symm⟩

theorem allowed_validPlan : (rules g).allowed i .validPlan w := by
  intro site' p' c' hwrites
  cases hwrites

/-- The conditions under which a tick leaves no marker behind whose occurrence was
not carried out, and none behind it is removed that was. -/
structure MarkersSettle (g : Regime) (C : Terms) : Prop where
  valid : ∀ i c w, C.act i .validPlan c w → c = .reason none
  calendar : ∀ i c w, C.act i (.now .planClock) c w →
    w.clock + g.limits.decisionTtlSeconds * nanosPerSecond ≤ lastInstant
  planned : ∀ i p plan c w, C.act i (.put .planWrite p plan) c w → c = .done
  created : ∀ i p marker c w, C.act i (.create .markerCreate p marker) c w → c ≠ .lost true
  deleted : ∀ i operation p c w, C.act i (.delete (.markerDelete operation) p) c w →
    c = .done ∨ ∃ e ∈ w.executions, e.operation = operation
  recorded : ∀ i operation n mine, RecordTakes g.limits C i
    (fun w => w.Ended i operation n mine .succeeded) operation .succeeded
  released : ∀ i operation n mine, ReleaseTakes g C i
    (fun w => w.Ended i operation n mine .succeeded) operation

theorem ReadDone.settledBut (h : ReadDone w w')
    (hsettled : w.settledBut i except) : w'.settledBut i except := by
  simp only [World.settledBut, World.holds, World.executedSince, World.plannedFor, h.store,
    h.executions] at hsettled ⊢
  exact hsettled

/-- A write of a marker is of no plan. -/
theorem plannedFor_wrote
    {c : Option Contents} :
    ({ w with store := ⟨.marker resource kind occurrence, c, site, i⟩ :: w.store } :
      World).plannedFor operation p ↔ w.plannedFor operation p := by
  simp [plannedFor, get_cons_other]

/-- A write at the excepted path leaves the others as they were. -/
theorem settledBut_of_wrote (c : Option Contents) (site : Site)
    (hp : ∃ resource kind occurrence, p = .marker resource kind occurrence)
    (hsettled : w.settledBut i (some p)) :
    ({ w with store := ⟨p, c, site, i⟩ :: w.store } : World).settledBut i (some p) := by
  obtain ⟨resource, kind, occurrence, rfl⟩ := hp
  intro q u hholds
  by_cases hq : Path.marker resource kind occurrence = q
  · exact .inl (congrArg some hq)
  · have hget : get (⟨.marker resource kind occurrence, c, site, i⟩ :: w.store) q =
        w.store.get q := get_cons_other hq w.store
    rcases hsettled q u (holds_back hget (suffix_cons _ _) hholds) with
      hexcept | ⟨e, he, hplanned, hlt⟩
    · exact .inl hexcept
    · exact .inr ⟨e, he, plannedFor_wrote.mpr hplanned, hlt⟩

/-- What a coordinator knows of a marker it has created. -/
structure World.Got (w : World) (i : ℕ) (p : Path) (v : ℕ) : Prop where
  holds : w.holds i p v
  idle : w.idle p
  others : w.settledBut i (some p)

theorem knows_got : Knows g C i fun w => w.Got i p v := by
  refine ⟨fun hwho hw hstep hgot => ?_⟩
  obtain ⟨hholds, hidle⟩ := knows_idle.keeps hwho hw hstep ⟨hgot.holds, hgot.idle⟩
  exact ⟨hholds, hidle, knows_settledBut.keeps hwho hw hstep hgot.others⟩

theorem settledBut_none (h : w.settledBut i none) : w.settledBut i except := by
  intro p v hholds
  rcases h p v hholds with hexcept | hexecuted
  · cases hexcept
  · exact .inr hexecuted

/-- A marker that a coordinator creates is its own, and nothing was carried out
for it that still counts. -/
theorem got_of_created (hw : LivedIn g C w)
    (habsent : w.store.get (.marker resource kind occurrence) = none)
    (hsettled : w.settledBut i none) :
    ({ w with store := ⟨.marker resource kind occurrence, some c, .markerCreate, i⟩ :: w.store } :
      World).Got i (.marker resource kind occurrence) w.store.length := by
  refine ⟨⟨⟨_, _, _, rfl⟩, c, _, get_cons_same rfl _, held_cons_self _ _, rfl, rfl⟩,
    fun e he hplanned => idle_of_absent hw habsent e he (plannedFor_wrote.mp hplanned),
    settledBut_of_wrote _ _ ⟨_, _, _, rfl⟩ (settledBut_none hsettled)⟩

theorem SafetyLimits.ttl_pos (limits : SafetyLimits) : 0 < limits.decisionTtlSeconds := by
  have hvalid := limits.ttl_valid
  cases hduration : positiveDuration limits.decisionTtlSeconds "limits.decision_ttl_seconds" with
  | error why =>
    rw [hduration] at hvalid
    cases hvalid
  | ok duration => exact (positiveDuration_eq hduration).1

/-- An age within the lifetime is within it in whole seconds. -/
theorem age_lt {age : ℤ} {ttl : ℕ} (hpos : 0 < ttl) (h : age < ttl * nanosPerSecond) :
    Int.tdiv age nanosPerSecond < ttl := by
  by_cases hge : 0 ≤ age
  · rw [Int.tdiv_eq_ediv_of_nonneg hge]
    exact Int.ediv_lt_of_lt_mul (by decide) h
  · have hback : Int.tdiv age nanosPerSecond = -Int.tdiv (-age) nanosPerSecond := by
      rw [Int.neg_tdiv, Int.neg_neg]
    have hnonneg : 0 ≤ Int.tdiv (-age) nanosPerSecond := Int.tdiv_nonneg (by omega) (by decide)
    omega

/-- A call whose write was not applied changes nothing. -/
theorem perform_unapplied
    (h : setting.perform i (.create site p c) choice w = some (.error .backend, w'))
    (happlied : choice ≠ .lost true) : w' = w := by
  cases choice <;> simp only [setting, perform, call, Option.some.injEq, Prod.mk.injEq,
    reduceCtorEq, false_and] at h
  next applied =>
    cases applied with
    | true => exact absurd rfl happlied
    | false => exact h.2.symm

/-- A tick gets the marker of an occurrence by creating it; a marker that stands was
started inside the window, so it is never stale. -/
theorem right_acquireScheduleMarker (hC : MarkersSettle g C) {occurrence tickAt : ℕ}
    (hdue : occurrence ≤ tickAt)
    (hwindow : (tickAt : ℤ) - g.limits.decisionTtlSeconds * nanosPerSecond < occurrence)
    (hw : LivedIn g C w) (htick : tickAt ≤ w.clock) (hsettled : w.settledBut i none) :
    Right g C i (acquireScheduleMarker (.marker resource kind occurrence) g.limits tickAt)
      (fun got w => match got with
        | true => ∃ v, w.Got i (.marker resource kind occurrence) v
        | false => w.settledBut i none)
      (fun w => w.settledBut i none) w := by
  refine .bind (tries (knows_clock.and knows_settledBut) hw ⟨htick, hsettled⟩
    (Q := fun created w => match created with
      | true => ∃ v, w.Got i (.marker resource kind occurrence) v
      | false => w.settledBut i none)
    (E := fun w => w.settledBut i none)
    fun w₁ c b w₂ hw₁ hold hperform hcond => ⟨allowed_create fun hnone => ?_, fun hw₂ => ?_⟩) hw
    (fun created w hw hcreated => ?_) fun _ _ h => h
  · exact ⟨resource, kind, occurrence, tickAt, rfl, hnone, hdue, hold.1, rfl⟩
  · rcases perform_create hperform with ⟨rfl, hnone, rfl⟩ | ⟨rfl, -, rfl⟩ | ⟨rfl, -⟩
    · exact ⟨_, got_of_created hw₁ hnone hold.2⟩
    · exact hold.2
    · obtain rfl := perform_unapplied hperform (hC.created i _ _ c w₁ hcond)
      exact hold.2
  cases created with
  | true => exact .pure hcreated
  | false =>
  refine .bind (tries knows_settledBut hw hcreated
    (Q := fun found w => w.settledBut i none ∧ ∀ c v, found = some (c, v) →
      ∃ marker, c = .marker marker ∧ marker.sound occurrence)
    (E := fun w => w.settledBut i none)
    fun w₁ c b w₂ hw₁ hold hperform hcond => ⟨allowed_read, fun hw₂ => ?_⟩) hw
    (fun found w hw hfound => ?_) fun _ _ h => h
  · obtain ⟨hdone, hb, -, -⟩ := perform_read hperform
    rcases hb with rfl | rfl
    · exact ⟨hdone.settledBut hold, fun c v hget => marker_sound hw₁ hget⟩
    · exact hdone.settledBut hold
  obtain ⟨hsettled, hsound⟩ := hfound
  match found with
  | none => exact .pure hsettled
  | some (c, version) =>
    obtain ⟨marker, rfl, hmarker⟩ := hsound c version rfl
    rcases hmarker with hcompleted | ⟨hstatus, started, hstarted, hle⟩
    · simp only [hcompleted, if_true]
      exact .pure hsettled
    · have hfresh : Int.tdiv ((tickAt : ℤ) - started) nanosPerSecond <
          g.limits.decisionTtlSeconds := age_lt g.limits.ttl_pos (by omega)
      have hopen : ¬ marker.status = "completed" := by
        rw [hstatus]
        decide
      simp only [hopen, if_false, hstarted, hfresh, if_true]
      exact .pure hsettled

/-- The operation is the coordinator's, and nothing was planned or carried out for
it yet. -/
structure World.Blank (g : Regime) (w : World) (i : ℕ) (operation : String) : Prop where
  drew : w.drew i operation
  plan : w.store.get (.plan operation) = none
  new : ∀ e ∈ w.executions, e.operation ≠ operation
  undecided : w.undecided g operation

theorem knows_blank : Knows g C i fun w => w.Blank g i operation := by
  refine ⟨fun {who w w'} hwho hw hstep hblank => ?_⟩
  obtain ⟨hdrew, hnew⟩ := knows_new.keeps hwho hw hstep ⟨hblank.drew, hblank.new⟩
  obtain ⟨-, hundecided⟩ := knows_undecided.keeps hwho hw hstep ⟨hblank.drew, hblank.undecided⟩
  refine ⟨hdrew, ?_, hnew, hundecided⟩
  rcases get_of_changed (p := .plan operation) (changed_of_step hstep) (by simp) with
    hget | ⟨k, site, c, rfl, ok, -, -⟩
  · rw [hget]
    exact hblank.plan
  · exact absurd (congrArg some ((tidy hw).drawn operation k i (plan_of_permits ok).1 hblank.drew))
      hwho

theorem blank_of_drawn (hw : LivedIn g C w) (hnew : ∀ j, ¬ w.drew j operation) :
    ({ w with drawn := (operation, i) :: w.drawn } : World).Blank g i operation := by
  refine ⟨mem_cons_self, ?_, fun e he heq => ?_, fun v subject older hwrote hheld heq => ?_⟩
  · cases hget : w.store.get (.plan operation) with
    | none => rfl
    | some found =>
      obtain ⟨j, hj⟩ := plan_drew hw hget
      exact absurd hj (hnew j)
  · exact hnew e.coordinator (heq ▸ (engaged hw).drew e he)
  · obtain ⟨j, -, hdecision⟩ := (tidy hw).token v subject older hwrote
    exact hnew j (heq ▸ hdecision hheld)

theorem right_schedulePlan (hC : MarkersSettle g C) (hw : LivedIn g C w) (hgot : w.Got i p v) :
    Right g C i (schedulePlan g.limits)
      (fun operation w => w.Got i p v ∧ w.Blank g i operation) (fun _ => False) w := by
  refine .bind (take knows_got hw hgot
    (Q := fun created w => w.Got i p v ∧
      created + g.limits.decisionTtlSeconds * nanosPerSecond ≤ lastInstant)
    (E := fun _ => False)
    fun w₁ c created w₂ hw₁ hold hperform hcond => ⟨allowed_now, fun hw₂ => ?_⟩) hw
    (fun created w hw hcreated => ?_) fun _ _ h => h
  · obtain ⟨rfl, rfl⟩ := perform_now hperform
    exact ⟨hold, hC.calendar i c _ hcond⟩
  obtain ⟨hgot, hcalendar⟩ := hcreated
  refine .bind (right_orFail (Q := fun _ w => w.Got i p v) (E := fun _ => False)
    (fun _ _ => hgot) fun why hwhy => ?_) hw (fun _ w hw hgot => ?_) fun _ _ h => h
  · obtain ⟨expires, hexpires⟩ := expiresAt_of_le g.limits.ttl_valid hcalendar
    rw [hexpires] at hwhy
    cases hwhy
  refine .bind (take knows_got hw hgot
    (Q := fun operation w => w.Got i p v ∧ w.Blank g i operation) (E := fun _ => False)
    fun w₁ c operation w₂ hw₁ hold hperform hcond => ⟨allowed_uuid, fun hw₂ => ?_⟩) hw
    (fun operation w hw hblank => ?_) fun _ _ h => h
  · obtain ⟨hnew, rfl⟩ := perform_uuid hperform
    exact ⟨⟨hold.holds, hold.idle, hold.others⟩, blank_of_drawn hw₁ hnew⟩
  refine .bind (take (knows_got.and knows_blank) hw hblank
    (Q := fun why w => why = none ∧ w.Got i p v ∧ w.Blank g i operation) (E := fun _ => False)
    fun w₁ c why w₂ hw₁ hold hperform hcond => ⟨allowed_validPlan, fun hw₂ => ?_⟩) hw
    (fun why w hw hvalid => ?_) fun _ _ h => h
  · obtain rfl := hC.valid i c w₁ hcond
    obtain ⟨rfl, rfl⟩ := perform_validPlan hperform
    exact ⟨rfl, hold⟩
  · obtain ⟨rfl, hvalid⟩ := hvalid
    exact .pure hvalid

/-! ## One occurrence -/

theorem perform_put (h : setting.perform i (.put site p c) choice w = some (b, w')) :
    (b = .ok () ∧ w' = { w with store := ⟨p, some c, site, i⟩ :: w.store }) ∨
      (b = .error .backend ∧ choice ≠ .done ∧
        (w' = w ∨ w' = { w with store := ⟨p, some c, site, i⟩ :: w.store })) := by
  cases choice <;> simp only [setting, perform, call, Option.some.injEq, Prod.mk.injEq,
    reduceCtorEq] at h
  · exact .inl ⟨h.1.symm, h.2.symm⟩
  · next applied =>
    obtain ⟨rfl, rfl⟩ := h
    refine .inr ⟨rfl, by simp, ?_⟩
    cases applied with
    | true => exact .inr rfl
    | false => exact .inl rfl

/-- What a coordinator knows once the plan of the marker it created is written. -/
structure World.Due (g : Regime) (w : World) (i : ℕ) (operation : String) (p : Path) (v : ℕ) :
    Prop where
  doing : w.Doing i operation p v
  undecided : w.undecided g operation
  ready : ∃ mine, (∀ e ∈ mine, e.operation ≠ operation) ∧ w.Ready i operation (v + 1) mine

theorem due_of_planned
    (hgot : w.Got i p v) (hblank : w.Blank g i operation) :
    ({ w with store := ⟨.plan operation, some (.plan p), .planWrite, i⟩ :: w.store } :
      World).Due g i operation p v := by
  have hplanned : ∀ {other : String} {q : Path}, other ≠ operation →
      (({ w with store := ⟨.plan operation, some (.plan p), .planWrite, i⟩ :: w.store } :
        World).plannedFor other q ↔ w.plannedFor other q) := by
    intro other q hne
    have hget : get (⟨.plan operation, some (.plan p), .planWrite, i⟩ :: w.store)
        (.plan other) = w.store.get (.plan other) :=
      get_cons_other (fun heq => hne (Path.plan.inj heq).symm) _
    simp only [plannedFor, hget]
  have hidle : ({ w with store := ⟨.plan operation, some (.plan p), .planWrite, i⟩ :: w.store } :
      World).idle p := fun e he hplan =>
    hgot.idle e he ((hplanned (hblank.new e he)).mp hplan)
  have hholds : ({ w with store := ⟨.plan operation, some (.plan p), .planWrite, i⟩ :: w.store } :
      World).holds i p v := by
    obtain ⟨resource, kind, occurrence, rfl⟩ := hgot.holds.1
    exact holds_of_get (get_cons_other (by simp) _) (suffix_cons _ _) hgot.holds
  have hself : ({ w with store := ⟨.plan operation, some (.plan p), .planWrite, i⟩ :: w.store } :
      World).plannedFor operation p := ⟨_, get_cons_same rfl _⟩
  refine ⟨⟨hholds, hself, fun e he hplan hlive => absurd hlive (hidle e he hplan),
    fun q u hother => ?_⟩, fun v' subject older hwrote => ?_,
    w.mine i, fun e he => hblank.new e (mem_filter.mp he).1,
    ⟨hblank.drew, fun q hplan => ?_, rfl, ?_⟩⟩
  · obtain ⟨resource, kind, occurrence, rfl⟩ := hother.1
    rcases hgot.others _ u
      (holds_back (get_cons_other (by simp) _) (suffix_cons _ _) hother) with
      hexcept | ⟨e, he, hplan, hlt⟩
    · exact .inl hexcept
    · exact .inr ⟨e, he, (hplanned (hblank.new e he)).mpr hplan, hlt⟩
  · rcases wrote_cons.mp hwrote with ⟨-, hpath, -⟩ | hold
    · cases hpath
    · exact hblank.undecided v' subject older hold
  · obtain ⟨u, hget⟩ := hplan
    rw [get_cons_same rfl] at hget
    cases hget
    exact ⟨⟨v, hholds⟩, hidle⟩
  · obtain ⟨-, c, e, -, hheld, -⟩ := hgot.holds
    have hlt := hheld.lt
    simp only [length_cons]
    omega

/-- What a coordinator knows when it removes the marker of an occurrence that was
not carried out. -/
structure World.Undone (w : World) (i : ℕ) (operation : String) (p : Path) (v : ℕ) : Prop where
  got : w.Got i p v
  drew : w.drew i operation
  tried : (∀ e ∈ w.executions, e.operation ≠ operation) ∨ w.executedSince p v

theorem knows_undone : Knows g C i fun w => w.Undone i operation p v := by
  refine ⟨fun hwho hw hstep hundone => ?_⟩
  refine ⟨knows_got.keeps hwho hw hstep hundone.got, knows_drew.keeps hwho hw hstep hundone.drew,
    ?_⟩
  rcases hundone.tried with hnew | hexecuted
  · exact .inl (knows_new.keeps hwho hw hstep ⟨hundone.drew, hnew⟩).2
  · exact .inr (executedSince_of_changed (changed_of_step hstep) hexecuted)

theorem executedSince_of_ended {outcome : Outcome} (h : w.Ended i operation (v + 1) mine outcome)
    (hplanned : w.plannedFor operation p) : w.executedSince p v := by
  obtain ⟨e, hop, hn, -, hsame⟩ := h.mine
  have hmem : e ∈ w.mine i := hsame ▸ mem_cons_self
  exact ⟨e, (mem_filter.mp hmem).1, hop ▸ hplanned, hn⟩

/-- A plan that failed leaves nothing carried out for its marker that still
counts. -/
theorem undone_of_failed (hmine : ∀ e ∈ mine, e.operation ≠ operation)
    (hw : LivedIn g C w) (h : Failed i operation (v + 1) mine False True w)
    (hdoing : w.Doing i operation p v) : w.Undone i operation p v := by
  cases h with
  | unbegun drew same =>
    have hnew : ∀ e ∈ w.executions, e.operation ≠ operation := by
      intro e he heq
      have hmem := mem_mine hw drew he heq
      rw [same] at hmem
      exact hmine e hmem heq
    exact ⟨⟨hdoing.holds, fun e he hplanned hlive => hnew e he (hdoing.only e he hplanned hlive),
      hdoing.others⟩, drew, .inl hnew⟩
  | failed error ended counted =>
    refine ⟨⟨hdoing.holds, fun e he hplanned hlive => ?_, hdoing.others⟩, ended.drew,
      .inr (executedSince_of_ended ended hdoing.planned)⟩
    obtain ⟨e', -, -, hended, hsame⟩ := ended.mine
    have heq := hdoing.only e he hplanned hlive
    have hmem := mem_mine hw ended.drew he heq
    rw [hsame] at hmem
    rcases mem_cons.mp hmem with rfl | hmem
    · simp [Execution.live, hended] at hlive
    · exact hmine e hmem heq
  | spoiled ended unsure => exact absurd trivial unsure

/-- A marker that was removed or completed is held no longer. -/
theorem settled_of_wrote (c : Option Contents)
    (hp : ∃ resource kind occurrence, p = .marker resource kind occurrence)
    (hsite : site ≠ .markerCreate) (hsettled : w.settledBut i (some p)) :
    ({ w with store := ⟨p, c, site, i⟩ :: w.store } : World).settledBut i none := by
  intro q u hholds
  rcases settledBut_of_wrote c site hp hsettled q u hholds with
    hexcept | hexecuted
  · cases hexcept
    obtain ⟨-, c', e, hget, hheld, hcreate, -⟩ := hholds
    rw [get_cons_same rfl, Option.map_eq_some_iff] at hget
    obtain ⟨content, -, heq⟩ := hget
    obtain ⟨-, rfl⟩ := Prod.mk.inj heq
    rw [hheld.unique (held_cons_self _ _)] at hcreate
    exact absurd hcreate hsite
  · exact .inr hexecuted

/-- A marker whose occurrence was carried out is settled too. -/
theorem settled_of_executed (hholds : w.holds i p v) (hexecuted : w.executedSince p v)
    (hsettled : w.settledBut i (some p)) : w.settledBut i none := by
  intro q u hother
  rcases hsettled q u hother with hexcept | hdone
  · cases hexcept
    obtain ⟨-, rfl⟩ := holds_unique hholds hother
    exact .inr hexecuted
  · exact .inr hdone

theorem perform_delete (h : setting.perform i (.delete site p) choice w = some (b, w')) :
    w' = { w with store := ⟨p, none, site, i⟩ :: w.store } ∨
      (w' = w ∧ (choice ≠ .done ∨ w.store.get p = none)) := by
  cases choice <;> simp only [setting, perform, call, Option.some.injEq, Prod.mk.injEq,
    reduceCtorEq] at h
  · obtain ⟨-, rfl⟩ := h
    cases hget : w.store.get p with
    | none => exact .inr (by simp [Call.change, apply, hget])
    | some found => exact .inl (by simp [Call.change, apply, hget])
  · next applied =>
    obtain ⟨-, rfl⟩ := h
    cases applied with
    | false => exact .inr (by simp)
    | true =>
      cases hget : w.store.get p with
      | none => exact .inr (by simp [Call.change, apply, hget])
      | some found => exact .inl (by simp [Call.change, apply, hget])

/-- **One occurrence.** A coordinator with a marker of its own carries out its plan
and completes the marker, or removes it again. -/
theorem right_runOccurrence (hC : MarkersSettle g C)
    (hreserved : g.reserved = some "autonomy-reconciler") (hlimits : policy.limits = g.limits)
    (hp : p = .marker resource kind occurrence) (hw : LivedIn g C w) (hgot : w.Got i p v) :
    Right g C i (runOccurrence policy p occurrence) (fun _ w => w.settledBut i none)
      (fun w => w.settledBut i none) w := by
  unfold runOccurrence
  rw [hlimits]
  refine .bind (right_schedulePlan hC hw hgot) hw (fun operation w hw hplan => ?_)
    fun _ _ h => h.elim
  refine .bind (tries (knows_got.and knows_blank) hw hplan
    (Q := fun _ w => w.Due g i operation p v) (E := fun w => w.settledBut i none)
    fun w₁ c b w₂ hw₁ hold hperform hcond => ⟨allowed_put ?_, fun hw₂ => ?_⟩) hw
    (fun _ w hw hdue => ?_) fun _ _ h => h
  · exact ⟨operation, p, rfl, rfl, hold.1.holds.1, hold.2.drew, hold.2.plan, hold.2.new⟩
  · rcases perform_put hperform with ⟨rfl, rfl⟩ | ⟨-, hlost, -⟩
    · exact due_of_planned hold.1 hold.2
    · exact absurd (hC.planned i _ _ c w₁ hcond) hlost
  obtain ⟨hdoing, hundecided, mine, hmine, hready⟩ := hdue
  have hexecute := (right_executeWithCircuit False True hreserved hmine (fun h => h.elim)
    (fun _ => ⟨hC.recorded i operation _ mine, hC.released i operation _ mine⟩) hw hready
    hundecided).frame knows_doing (only_executeWithCircuit g.limits fun a ha => spares_doing ha) hw
    hdoing
  refine .bind hexecute.attempt hw (fun r w hw hended => ?_) fun _ _ h => h
  cases r with
  | error error =>
    refine .bind (tries knows_undone hw (undone_of_failed hmine hw hended.1 hended.2)
      (Q := fun _ w => w.settledBut i none) (E := fun w => w.settledBut i none)
      fun w₁ c b w₂ hw₁ hold hperform hcond => ⟨allowed_delete fun _ _ _ => ?_, fun hw₂ => ?_⟩) hw
      (fun _ w hw hsettled => .fail hsettled) fun _ _ h => h
    · exact ⟨rfl, hold.got.holds.1, ⟨v, hold.got.holds⟩, hold.got.idle⟩
    · have hsettled : w₂.settledBut i none := by
        rcases perform_delete hperform with rfl | ⟨rfl, hkept⟩
        · exact settled_of_wrote none hold.got.holds.1 (by simp) hold.got.others
        · have hlost : c ≠ .done := by
            rcases hkept with hlost | hnone
            · exact hlost
            · obtain ⟨-, content, e, hget, -⟩ := hold.got.holds
              rw [hnone] at hget
              cases hget
          rcases hold.tried with hnew | hexecuted
          · rcases hC.deleted i operation p c w₂ hcond with hdone | ⟨e, he, heq⟩
            · exact absurd hdone hlost
            · exact absurd heq (hnew e he)
          · exact settled_of_executed hold.got.holds hexecuted hold.got.others
      cases b with
      | _ => exact hsettled
  | ok _ =>
    obtain ⟨hended, hdoing⟩ := hended
    have hexecuted := executedSince_of_ended hended hdoing.planned
    have hknows : Knows g C i fun w => (w.holds i p v ∧ w.executedSince p v) ∧
        w.settledBut i (some p) :=
      (knows_holds.and ⟨fun _ _ hstep h =>
        executedSince_of_changed (changed_of_step hstep) h⟩).and knows_settledBut
    refine .bind (take hknows hw ⟨⟨hdoing.holds, hexecuted⟩, hdoing.others⟩
      (Q := fun _ w => (w.holds i p v ∧ w.executedSince p v) ∧ w.settledBut i (some p))
      (E := fun w => w.settledBut i none)
      fun w₁ c t w₂ hw₁ hold hperform _ => ⟨allowed_now, fun hw₂ => ?_⟩) hw
      (fun completed w hw hknown => ?_) fun _ _ h => h
    · rw [(perform_now hperform).2]
      exact hold
    refine .bind (tries hknows hw hknown (Q := fun _ w => w.settledBut i none)
      (E := fun w => w.settledBut i none)
      fun w₁ c b w₂ hw₁ hold hperform _ => ⟨allowed_put ?_, fun hw₂ => ?_⟩) hw
      (fun _ w hw hsettled => .pure hsettled) fun _ _ h => h
    · exact ⟨resource, kind, occurrence, completed, hp, ⟨v, hold.1.1⟩, rfl⟩
    · have hsettled : w₂.settledBut i none := by
        rcases perform_put hperform with ⟨-, rfl⟩ | ⟨-, -, rfl | rfl⟩
        · exact settled_of_wrote _ hold.1.1.1 (by simp) hold.2
        · exact settled_of_executed hold.1.1 hold.1.2 hold.2
        · exact settled_of_wrote _ hold.1.1.1 (by simp) hold.2
      cases b with
      | _ => exact hsettled

/-- An occurrence is strictly after the instant it is looked for from. -/
def NextDue.StrictlyAfter (nextDue : NextDue) : Prop :=
  ∀ expression start timezone (t : ℕ), nextDue expression start timezone = .ok t → start < t

/-- No action turns the clock back. -/
theorem spares_clock {t : ℕ} (a : Act β) : Spares setting i (fun w => t ≤ w.clock) a := by
  intro choice w b w' ht hperform
  have hcall : ∀ {β : Type} {site : Site} {c : Call Path Contents β} {b : Except StorageError β},
      w.call i site c choice = some (b, w') → t ≤ w'.clock := by
    intro β site c b hcall
    rcases call_cases hcall with rfl | ⟨p, content, -, rfl⟩
    · exact ht
    · exact ht
  cases a with
  | begin operation lease =>
    rw [perform_begin hperform]
    exact ht
  | finish operation =>
    rw [perform_finish hperform]
    exact ht
  | create site p c => exact hcall hperform
  | swap site p version c => exact hcall hperform
  | put site p c => exact hcall hperform
  | delete site p => exact hcall hperform
  | _ =>
    rw [(setAside hperform trivial).clock]
    exact ht

theorem right_reconcileResource (hC : MarkersSettle g C)
    (hreserved : g.reserved = some "autonomy-reconciler") (hnext : nextDue.StrictlyAfter)
    (hlimits : policy.limits = g.limits) {tickAt : ℕ} {windowStart : ℤ}
    (hwindow : windowStart = tickAt - g.limits.decisionTtlSeconds * nanosPerSecond)
    (summary : TickSummary) (resource : ResourceRecord) (hw : LivedIn g C w)
    (htick : tickAt ≤ w.clock) (hsettled : w.settledBut i none) :
    Right g C i (reconcileResource nextDue policy tickAt windowStart summary resource)
      (fun _ w => tickAt ≤ w.clock ∧ w.settledBut i none) (fun w => w.settledBut i none) w := by
  unfold reconcileResource
  split
  · exact .pure ⟨htick, hsettled⟩
  split
  · exact .pure ⟨htick, hsettled⟩
  split
  · exact .pure ⟨htick, hsettled⟩
  split
  · exact .pure ⟨htick, hsettled⟩
  split
  · exact .pure ⟨htick, hsettled⟩
  split
  · exact .pure ⟨htick, hsettled⟩
  split
  · exact .fail hsettled
  · refine .bind (right_orFail (E := fun w => w.settledBut i none)
      (Q := fun (occurrence : ℕ) w => (tickAt ≤ w.clock ∧ w.settledBut i none) ∧
        windowStart < occurrence)
      (fun occurrence h => ⟨⟨htick, hsettled⟩, hnext _ windowStart _ occurrence h⟩)
      fun _ _ => hsettled) hw (fun occurrence w hw hknown => ?_) fun _ _ h => h
    obtain ⟨⟨htick, hsettled⟩, hafter⟩ := hknown
    split
    · exact .pure ⟨htick, hsettled⟩
    · next hdue =>
      rw [hlimits]
      refine .bind ((right_acquireScheduleMarker hC (Nat.le_of_not_lt hdue) (hwindow ▸ hafter) hw
        htick hsettled).frame knows_clock (only_of_forall spares_clock _) hw htick) hw
        (fun got w hw hgot => ?_) fun _ _ h => h.1
      obtain ⟨hgot, htick⟩ := hgot
      cases got with
      | false => exact .pure ⟨htick, hgot⟩
      | true =>
        obtain ⟨v, hgot⟩ := hgot
        refine .bind ((right_runOccurrence hC hreserved hlimits rfl hw hgot).frame knows_clock
          (only_of_forall spares_clock _) hw htick) hw
          (fun operation w hw hdone => ?_) fun _ _ h => h.1
        exact .pure ⟨hdone.2, hdone.1⟩

theorem right_reconcileSchedules (hC : MarkersSettle g C)
    (hreserved : g.reserved = some "autonomy-reconciler")
    (hnext : nextDue.StrictlyAfter) (hlimits : policy.limits = g.limits)
    (resources : List ResourceRecord) (hw : LivedIn g C w) (hsettled : w.settledBut i none) :
    Right g C i (reconcileSchedules nextDue policy resources) (fun _ w => w.settledBut i none)
      (fun w => w.settledBut i none) w := by
  refine .bind (take knows_settledBut hw hsettled
    (Q := fun tickAt w => tickAt ≤ w.clock ∧ w.settledBut i none)
    (E := fun w => w.settledBut i none)
    fun w₁ c tickAt w₂ hw₁ hold hperform _ => ⟨allowed_now, fun hw₂ => ?_⟩) hw
    (fun tickAt w hw hknown => ?_) fun _ _ h => h
  · obtain ⟨rfl, rfl⟩ := perform_now hperform
    exact ⟨Nat.le_refl _, hold⟩
  refine .bind (right_orFail (Q := fun windowStart w => (tickAt ≤ w.clock ∧ w.settledBut i none) ∧
      windowStart = (tickAt : ℤ) - g.limits.decisionTtlSeconds * nanosPerSecond)
    (E := fun w => w.settledBut i none)
    (fun windowStart h => ⟨hknown, hlimits ▸ lookbackStart_eq h⟩) fun _ _ => hknown.2) hw
    (fun windowStart w hw hknown => ?_) fun _ _ h => h
  obtain ⟨hknown, hwindow⟩ := hknown
  have hfold : ∀ (resources : List ResourceRecord) (summary : TickSummary) (w : World),
      LivedIn g C w → tickAt ≤ w.clock ∧ w.settledBut i none →
      Right g C i (resources.foldlM (reconcileResource nextDue policy tickAt windowStart) summary)
        (fun _ w => w.settledBut i none) (fun w => w.settledBut i none) w := by
    intro resources
    induction resources with
    | nil => exact fun _ _ _ hknown => .pure hknown.2
    | cons resource rest ih =>
      intro summary w hw hknown
      exact .bind (right_reconcileResource hC hreserved hnext hlimits hwindow summary resource hw
        hknown.1 hknown.2) hw (fun summary w hw hknown => ih summary w hw hknown) fun _ _ h => h
  exact .bind (hfold resources _ w hw hknown) hw (fun _ _ _ h => .pure h) fun _ _ h => h

end Stado.Autonomy
