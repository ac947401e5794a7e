import Stado.Autonomy.Executions

/-!
# The count of failures

The control state counts the failures recorded since the last recorded success,
and opens the circuit breaker at the threshold until the cooldown after the
newest of them. A record keeps the pause, and a pause keeps the record.
-/

namespace Stado.Autonomy

open CasStore Crew List

variable {g : Regime} {C : Terms} {i : ℕ} {w : World} {e : AutonomyEntry} {state : ControlState}
  {l : AutonomyStore} {P : World → Prop}

/-! ## What the history tells -/

/-- The failures recorded since the last recorded success. -/
def failuresSince : AutonomyStore → ℕ
  | [] => 0
  | e :: older =>
    match e.site with
    | .record _ .succeeded => 0
    | .record _ (.failed _) => failuresSince older + 1
    | _ => failuresSince older

/-- When the newest failure was recorded. -/
def failedAt : AutonomyStore → Option ℕ
  | [] => none
  | e :: older =>
    match e.site, e.content with
    | .record _ (.failed _), some (.control state) => some state.changedAt
    | _, _ => failedAt older

/-- The control state tells the failures of the history, and is open at the
threshold. -/
structure Tally (limits : SafetyLimits) (l : AutonomyStore) : Prop where
  count : (controlIn l).mutationFailures.length = failuresSince l
  opened : limits.circuitBreakerFailures ≤ failuresSince l → ∃ t, failedAt l = some t ∧
    (controlIn l).circuitOpenUntil = some (.instant (t + limits.cooldown))

/-- What the newest write keeps of the control state before it. -/
def Kept (e : AutonomyEntry) (older : AutonomyStore) : Prop :=
  match e.site with
  | .record _ _ => ∃ state, e.content = some (.control state) ∧
      state.emergencyPaused = (controlIn older).emergencyPaused ∧
      state.reason = (controlIn older).reason
  | .setControl => ∃ state, e.content = some (.control state) ∧
      state.mutationFailures = (controlIn older).mutationFailures ∧
      state.circuitOpenUntil = (controlIn older).circuitOpenUntil ∧
      state.lastMutationError = (controlIn older).lastMutationError
  | _ => True

theorem controlIn_cons_other (h : e.path ≠ .control) : controlIn (e :: l) = controlIn l := by
  simp only [controlIn, Store.get_cons_other h]

theorem controlIn_cons_same (hpath : e.path = .control)
    (hcontent : e.content = some (.control state)) : controlIn (e :: l) = state := by
  simp only [controlIn, Store.get_cons_same hpath, hcontent, Option.map_some]

/-- A write that is no write of the control state. -/
structure Apart (site : Site) (p : Path) : Prop where
  path : p ≠ .control
  set : site ≠ .setControl
  record : ∀ operation outcome, site ≠ .record operation outcome

/-- A permitted write changes the control state as its statement says, or leaves
it alone. -/
theorem control_of_permits {site : Site} {p : Path} {c : Option Contents}
    (h : w.permits g i site p c) :
    (p = .control ∧ site = .setControl ∧ ∃ paused reason t actor, c = some (.control
        { controlIn w.store with
          emergencyPaused := paused, reason := reason, changedAt := t, changedBy := actor })) ∨
      (p = .control ∧ ∃ operation outcome, site = .record operation outcome ∧ ∃ t, c = some
        (.control ((controlIn w.store).recorded outcome g.limits.circuitBreakerFailures t
          (t + g.limits.cooldown)))) ∨ Apart site p := by
  cases site with
  | setControl =>
    obtain ⟨rfl, paused, reason, t, actor, rfl⟩ := h
    exact .inl ⟨rfl, rfl, paused, reason, t, actor, rfl⟩
  | record operation outcome =>
    obtain ⟨rfl, -, t, -, rfl⟩ := h
    exact .inr (.inl ⟨rfl, operation, outcome, rfl, t, rfl⟩)
  | acquireCreate =>
    obtain ⟨lease, rfl, -⟩ := h
    exact .inr (.inr ⟨by simp, by simp, by simp⟩)
  | acquireSwap =>
    obtain ⟨lease, prior, v, rfl, -⟩ := h
    exact .inr (.inr ⟨by simp, by simp, by simp⟩)
  | renew token =>
    obtain ⟨subject, prior, v, expires, process, rfl, -⟩ := h
    exact .inr (.inr ⟨by simp, by simp, by simp⟩)
  | free token =>
    obtain ⟨subject, prior, v, t, rfl, -⟩ := h
    exact .inr (.inr ⟨by simp, by simp, by simp⟩)
  | exact released =>
    obtain ⟨prior, v, rfl, -⟩ := h
    exact .inr (.inr ⟨by simp, by simp, by simp⟩)
  | ownRelease decision =>
    obtain ⟨subject, prior, v, t, rfl, -⟩ := h
    exact .inr (.inr ⟨by simp, by simp, by simp⟩)
  | markerCreate =>
    obtain ⟨resource, kind, occurrence, t, rfl, -⟩ := h
    exact .inr (.inr ⟨by simp, by simp, by simp⟩)
  | markerDelete operation =>
    obtain ⟨-, ⟨resource, kind, occurrence, rfl⟩, -⟩ := h
    exact .inr (.inr ⟨by simp, by simp, by simp⟩)
  | markerComplete operation =>
    obtain ⟨resource, kind, occurrence, t, rfl, -⟩ := h
    exact .inr (.inr ⟨by simp, by simp, by simp⟩)
  | planWrite =>
    obtain ⟨operation, marker, rfl, -⟩ := h
    exact .inr (.inr ⟨by simp, by simp, by simp⟩)
  | decisionWrite =>
    obtain ⟨⟨id, rfl⟩, -⟩ := h
    exact .inr (.inr ⟨by simp, by simp, by simp⟩)
  | savingsWrite =>
    obtain ⟨⟨id, rfl⟩, -⟩ := h
    exact .inr (.inr ⟨by simp, by simp, by simp⟩)
  | placement lease =>
    obtain ⟨subject, job, v, rfl, -⟩ := h
    exact .inr (.inr ⟨by simp, by simp, by simp⟩)
  | _ => exact h.elim

section Tally

variable {limits : SafetyLimits} {l : AutonomyStore} {e : AutonomyEntry}

theorem Tally.apart (h : Tally limits l) (hapart : Apart e.site e.path) :
    Tally limits (e :: l) := by
  have hcontrol := controlIn_cons_other (l := l) hapart.path
  have hcount : failuresSince (e :: l) = failuresSince l := by
    rw [failuresSince]
    split
    · next hsite => exact absurd hsite (hapart.record _ _)
    · next hsite => exact absurd hsite (hapart.record _ _)
    · rfl
  have hfailed : failedAt (e :: l) = failedAt l := by
    rw [failedAt]
    split
    · next hsite _ => exact absurd hsite (hapart.record _ _)
    · rfl
  refine ⟨?_, ?_⟩
  · rw [hcontrol, hcount]
    exact h.count
  · rw [hcontrol, hcount, hfailed]
    exact h.opened

/-- A pause keeps the count. -/
theorem Tally.set (h : Tally limits l) (hsite : e.site = .setControl) (hpath : e.path = .control)
    (hcontent : e.content = some (.control state))
    (hfailures : state.mutationFailures = (controlIn l).mutationFailures)
    (hopen : state.circuitOpenUntil = (controlIn l).circuitOpenUntil) : Tally limits (e :: l) := by
  have hcontrol := controlIn_cons_same (l := l) hpath hcontent
  have hcount : failuresSince (e :: l) = failuresSince l := by simp [failuresSince, hsite]
  have hfailed : failedAt (e :: l) = failedAt l := by simp [failedAt, hsite]
  refine ⟨?_, ?_⟩
  · rw [hcontrol, hcount, hfailures]
    exact h.count
  · rw [hcontrol, hcount, hfailed, hopen]
    exact h.opened

theorem Tally.record (h : Tally limits l) {operation : String} {outcome : Outcome} {t : ℕ}
    (hsite : e.site = .record operation outcome) (hpath : e.path = .control)
    (hcontent : e.content = some (.control ((controlIn l).recorded outcome
      limits.circuitBreakerFailures t (t + limits.cooldown)))) : Tally limits (e :: l) := by
  have hcontrol := controlIn_cons_same (l := l) hpath hcontent
  cases outcome with
  | succeeded =>
    have hcount : failuresSince (e :: l) = 0 := by simp [failuresSince, hsite]
    refine ⟨?_, fun hle => ?_⟩
    · rw [hcontrol, hcount]
      rfl
    · rw [hcount] at hle
      exact absurd hle (Nat.not_le.mpr limits.failures_pos)
  | failed error =>
    have hcount : failuresSince (e :: l) = failuresSince l + 1 := by
      simp [failuresSince, hsite]
    have hlength : ((controlIn l).mutationFailures ++ [t]).length = failuresSince l + 1 := by
      rw [length_append, h.count]
      rfl
    refine ⟨?_, fun hle => ⟨t, ?_, ?_⟩⟩
    · rw [hcontrol, hcount]
      exact hlength
    · simp [failedAt, hsite, hcontent, ControlState.recorded]
    · rw [hcount] at hle
      rw [hcontrol]
      simp only [ControlState.recorded, hlength, hle, if_true]

end Tally

/-- What every lived world keeps about the control state, over its whole history. -/
structure Told (g : Regime) (w : World) : Prop where
  tally : ∀ l, l <:+ w.store → Tally g.limits l
  kept : ∀ e older, (e :: older) <:+ w.store → Kept e older
  state : ∀ c v, w.store.get .control = some (c, v) → ∃ state, c = .control state

theorem Told.cons (hw : Told g w) (htally : Tally g.limits (e :: w.store)) (hkept : Kept e w.store)
    (hstate : e.path = .control → ∃ state, e.content = some (.control state)) :
    Told g { w with store := e :: w.store } := by
  refine ⟨fun l hl => ?_, fun f older hl => ?_, fun c v hget => ?_⟩
  · rcases suffix_cons_iff.mp hl with rfl | hl
    · exact htally
    · exact hw.tally l hl
  · rcases suffix_cons_iff.mp hl with heq | hl
    · obtain ⟨rfl, rfl⟩ := List.cons.inj heq
      exact hkept
    · exact hw.kept f older hl
  · by_cases hpath : e.path = .control
    · obtain ⟨state, hcontent⟩ := hstate hpath
      simp only [Store.get_cons_same hpath, hcontent, Option.map_some, Option.some.injEq,
        Prod.mk.injEq] at hget
      exact ⟨state, hget.1.symm⟩
    · simp only [Store.get_cons_other hpath] at hget
      exact hw.state c v hget

theorem Told.step {who : Option ℕ} {w w' : World} (hw : Told g w) (h : Changed g C who w w') :
    Told g w' := by
  have htally : Tally g.limits w.store := hw.tally _ (suffix_refl _)
  cases h with
  | @wrote k _ site p c ok =>
    rcases control_of_permits ok with ⟨rfl, rfl, paused, reason, t, actor, rfl⟩ |
      ⟨rfl, operation, outcome, rfl, t, rfl⟩ | hapart
    · refine hw.cons (htally.set rfl rfl rfl rfl rfl) ⟨_, rfl, rfl, rfl, rfl⟩
        fun _ => ⟨_, rfl⟩
    · refine hw.cons (htally.record rfl rfl rfl) ⟨_, rfl, ?_⟩ fun _ => ⟨_, rfl⟩
      cases outcome <;> exact ⟨rfl, rfl⟩
    · refine hw.cons (htally.apart hapart) ?_ fun hpath => absurd hpath hapart.path
      unfold Kept
      split
      · next hsite => exact absurd hsite (hapart.record _ _)
      · next hsite => exact absurd hsite hapart.set
      · trivial
  | queued =>
    exact hw.cons (htally.apart ⟨by simp, by simp, by simp⟩) trivial fun hpath => by cases hpath
  | _ => exact ⟨hw.tally, hw.kept, hw.state⟩

theorem told (h : LivedIn g C w) : Told g w := by
  refine h.invariant (fun w hbegins => ?_) fun _ hw hstep => hw.step (changed_of_step hstep)
  obtain ⟨hstore, -, -, -⟩ := hbegins
  refine ⟨fun l hl => ?_, fun e older hl => ?_, fun c v hget => ?_⟩
  · rw [hstore, suffix_nil] at hl
    subst hl
    exact ⟨rfl, fun hle => absurd hle (Nat.not_le.mpr g.limits.failures_pos)⟩
  · rw [hstore, suffix_nil] at hl
    cases hl
  · simp [hstore] at hget

/-- **The gate keeps the cooldown.** An execution whose gate had seen the failures
reach the threshold began after the cooldown of the newest of them. -/
theorem cooled (h : LivedIn g C w) {e : Execution} (he : e ∈ w.executions)
    (hfailures : g.limits.circuitBreakerFailures ≤ failuresSince e.gate) :
    ∃ t, failedAt e.gate = some t ∧ t + g.limits.cooldown ≤ e.begunAt := by
  obtain ⟨t, hfailed, hopen⟩ := ((told h).tally _ ((engaged h).gate e he)).opened hfailures
  obtain ⟨read, hread, hclosed⟩ := (engaged h).closed e he
  refine ⟨t, hfailed, ?_⟩
  simp only [ControlState.circuitOpenAt, hopen, decide_eq_false_iff_not] at hclosed
  omega

/-! ## Writing the control state -/

theorem controlIn_of_version {v : ℕ}
    {old : Contents} (hheld : w.store.Held v e) (hcontent : e.content = some (.control state))
    (hget : w.store.get .control = some (old, v)) : controlIn w.store = state := by
  obtain rfl := Store.get_eq_of_held hget hheld hcontent
  simp only [controlIn, hget]

theorem knows_held {v : ℕ} {c : Contents} :
    Knows g C i fun w => ∃ e, w.store.Held v e ∧ e.content = some c := by
  refine ⟨fun _ _ hstep hheld => ?_⟩
  obtain ⟨e, he, hcontent⟩ := hheld
  exact ⟨e, he.mono (pastOf_of_changed (changed_of_step hstep)), hcontent⟩

/-- The conditions under which an update of the control state takes effect. -/
structure UpdateTakes (C : Terms) (i : ℕ) (P : World → Prop) (readSite site : Site) : Prop where
  read : ∀ c w, P w → C.act i (.read readSite .control) c w → c = .done
  create : ∀ state c w, P w → C.act i (.create site .control state) c w →
    c = .done ∧ w.store.get .control = none
  swap : ∀ v state c w, P w → C.act i (.swap site .control v state) c w →
    c = .done ∧ ∃ old, w.store.get .control = some (old, v)

/-- A property that the store, the exits and the gates do not matter for. -/
structure Local (P : World → Prop) : Prop where
  keeps : ∀ {w w' : World}, w'.clock = w.clock → w'.drawn = w.drawn →
    w'.executions = w.executions → P w → P w'

theorem Local.wrote (h : Local P) (hold : P w) (l : AutonomyStore) : P { w with store := l } :=
  h.keeps (w := w) rfl rfl rfl hold

/-- An update of the control state is written as it may be, and where the
conditions make it take effect it leaves its write behind. -/
theorem right_update {readSite site : Site} {conflict : String}
    {change : ControlState → Autonomous ControlState}
    (Fits : ControlState → ControlState → World → Prop) (takes : Prop)
    (hP : Knows g C i P) (hlocal : Local P) (hF : ∀ state new, Knows g C i (Fits state new))
    (hquiet : ∀ state R, (change state).Only (Does.Spares setting i R))
    (hchange : ∀ state w, LivedIn g C w → P w → Right g C i (change state)
      (fun new w => P w ∧ Fits state new w) (fun w => P w ∧ ¬ takes) w)
    (hok : ∀ state new w, P w → Fits state new w → (controlIn w.store = state ∨
        ∃ t, state = ControlState.default t ∧ controlIn w.store = ControlState.default 0) →
      w.permits g i site .control (some (.control new)))
    (htakes : takes → UpdateTakes C i P readSite site) (hw : LivedIn g C w) (hold : P w) :
    Right g C i (updateControl readSite site conflict change)
      (fun _ w => P w ∧ ∃ e ∈ w.store, e.site = site) (fun w => P w ∧ ¬ takes) w := by
  unfold updateControl
  refine .bind (Does.tries hP hw hold
    (Q := fun found w => P w ∧ ∀ c v, found = some (c, v) → ∃ state, c = .control state ∧
      ∃ e, w.store.Held v e ∧ e.content = some (.control state))
    (E := fun w => P w ∧ ¬ takes)
    fun w₁ c b w₂ hw₁ hold₁ hperform hcond => ⟨allowed_read, fun hw₂ => ?_⟩) hw
    (fun found w hw hfound => ?_) fun _ _ h => h
  · obtain ⟨hdone, hb, -, hanswer⟩ := perform_read hperform
    have hold₂ : P w₂ := hlocal.keeps hdone.clock hdone.drawn hdone.executions hold₁
    rcases hb with rfl | rfl
    · refine ⟨hold₂, fun c v hget => ?_⟩
      obtain ⟨state, rfl⟩ := (told hw₁).state c v hget
      obtain ⟨e, he, -, hcontent⟩ := Store.get_held hget
      rw [hdone.store]
      exact ⟨state, rfl, e, he, hcontent⟩
    · refine ⟨hold₂, fun ht => ?_⟩
      cases hanswer ((htakes ht).read c w₁ hold₁ hcond)
  obtain ⟨hold, hstate⟩ := hfound
  rcases found with _ | ⟨c, version⟩
  · refine .bind (Does.take hP hw hold (Q := fun _ w => P w) (E := fun w => P w ∧ ¬ takes)
      fun w₁ c t w₂ hw₁ hold₁ hperform _ => ⟨allowed_now, fun hw₂ => ?_⟩) hw
      (fun t w hw hold => ?_) fun _ _ h => h
    · rw [(perform_now hperform).2]
      exact hold₁
    refine .bind (hchange _ w hw hold) hw (fun new w hw hnew => ?_) fun _ _ h => h
    refine .bind (Does.tries (hP.and (hF _ new)) hw hnew
      (Q := fun created w => P w ∧ (created = true → ∃ e ∈ w.store, e.site = site) ∧
        (created = false → ¬ takes))
      (E := fun w => P w ∧ ¬ takes)
      fun w₁ c b w₂ hw₁ hnew₁ hperform hcond => ⟨allowed_create fun hnone => ?_, fun hw₂ => ?_⟩) hw
      (fun created w hw hcreated => ?_) fun _ _ h => h
    · exact hok _ new w₁ hnew₁.1 hnew₁.2 (.inr ⟨t, rfl, by simp only [controlIn, hnone]⟩)
    · have hsure : takes → c = .done ∧ w₁.store.get .control = none :=
        fun ht => (htakes ht).create _ c w₁ hnew₁.1 hcond
      rcases perform_create hperform with ⟨rfl, -, rfl⟩ | ⟨rfl, hsome, rfl⟩ | ⟨rfl, hlost⟩
      · exact ⟨hlocal.wrote hnew₁.1 _, fun _ => ⟨_, mem_cons_self, rfl⟩,
          by rintro ⟨⟩⟩
      · exact ⟨hnew₁.1, by rintro ⟨⟩, fun _ ht => hsome (hsure ht).2⟩
      · refine ⟨?_, fun ht => hlost (hsure ht).1⟩
        rcases World.call_cases hperform with rfl | ⟨p, content, -, rfl⟩
        · exact hnew₁.1
        · exact hlocal.wrote hnew₁.1 _
    cases created with
    | true => exact .pure ⟨hcreated.1, hcreated.2.1 rfl⟩
    | false => exact .fail ⟨hcreated.1, hcreated.2.2 rfl⟩
  · obtain ⟨state, rfl, hheld⟩ := hstate c version rfl
    have hframe := (hchange state w hw hold).frame knows_held (hquiet state _) hw hheld
    refine .bind hframe hw (fun new w hw hnew => ?_) fun _ _ h => h.1
    refine .bind (Does.tries ((hP.and (hF _ new)).and knows_held) hw hnew
      (Q := fun answer w => P w ∧ Took answer (∃ e ∈ w.store, e.site = site) (¬ takes))
      (E := fun w => P w ∧ ¬ takes)
      fun w₁ c b w₂ hw₁ hnew₁ hperform hcond => ⟨allowed_swap fun old hget => ?_, fun hw₂ => ?_⟩) hw
      (fun answer w hw hanswer => ?_) fun _ _ h => h
    · obtain ⟨e, he, hcontent⟩ := hnew₁.2
      exact hok _ new w₁ hnew₁.1.1 hnew₁.1.2 (.inl (controlIn_of_version he hcontent hget))
    · have hsure : takes → c = .done ∧ ∃ old, w₁.store.get .control = some (old, version) :=
        fun ht => (htakes ht).swap version _ c w₁ hnew₁.1.1 hcond
      rcases perform_swap hperform with ⟨rfl, -, rfl⟩ | ⟨hb, rfl, hstale⟩ | ⟨rfl, hlost⟩
      · exact ⟨hlocal.wrote hnew₁.1.1 _, _, mem_cons_self, rfl⟩
      · have hnot : ¬ takes := fun ht => (hsure ht).2.elim fun old hget => hstale old hget
        rcases hb with rfl | rfl
        · exact ⟨hnew₁.1.1, hnot⟩
        · exact ⟨hnew₁.1.1, hnot⟩
      · refine ⟨?_, fun ht => hlost (hsure ht).1⟩
        rcases World.call_cases hperform with rfl | ⟨p, content, -, rfl⟩
        · exact hnew₁.1.1
        · exact hlocal.wrote hnew₁.1.1 _
    cases answer with
    | stored v => exact .pure hanswer
    | _ => exact .fail hanswer

end Stado.Autonomy
