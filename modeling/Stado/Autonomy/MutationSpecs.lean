import Stado.Autonomy.Markers

/-!
# What carrying out a plan promises

One specification for `executeWithCircuit`, whatever the others do: how the
execution of its plan ended, and what a failure or a success then leaves behind
under the conditions that make its record and its release take effect.
-/

namespace Stado.Autonomy

open CasStore Crew Solo List Routine World Does Only ControlState

variable {g : Regime} {C : Terms} {i : ℕ}

/-! ## Actions that leave plans, markers and executions alone -/

def Path.elsewhere (p : Path) : Prop := (∀ subject, p ≠ .lease subject) ∧ p ≠ .control

/-- An action that writes leases and the control state only, and neither begins
nor ends an execution. -/
def Aside {β : Type} (a : Act β) : Prop :=
  match a with
  | .create _ p _ | .swap _ p _ _ | .put _ p _ | .delete _ p => ¬ p.elsewhere
  | .begin _ _ | .finish _ => False
  | _ => True

/-- What an action aside leaves as it was. -/
structure SetAside (w w' : World) : Prop where
  executions : w'.executions = w.executions
  drawn : ∀ id ∈ w.drawn, id ∈ w'.drawn
  past : w.store.PastOf w'.store
  get : ∀ p : Path, p.elsewhere → w'.store.get p = w.store.get p
  clock : w'.clock = w.clock

variable {w' : World} {operation : String} {n : ℕ} {mine : List Execution} {P : World → Prop}
  {lease : PlacementLease} {w : World} {outcome : Outcome} {β : Type} {choice : Choice}

theorem setAside_of_call {site : Site} {c : Call Path Contents β} {b : Except StorageError β}
    (h : w.call i site c choice = some (b, w'))
    (hc : ∀ p content, c.change w.store = some (p, content) → ¬ p.elsewhere) : SetAside w w' := by
  rcases call_cases h with rfl | ⟨p, content, hchange, rfl⟩
  · exact ⟨rfl, fun _ => id, suffix_refl _, fun _ _ => rfl, rfl⟩
  · refine ⟨rfl, fun _ => id, suffix_cons _ _, fun q hq => ?_, rfl⟩
    refine Store.get_cons_other (fun heq => ?_) _
    subst heq
    exact hc _ content hchange hq

theorem setAside {a : Act β} {b : β}
    (h : setting.perform i a choice w = some (b, w')) (ha : Aside a) : SetAside w w' := by
  cases a with
  | now site =>
    obtain ⟨-, rfl⟩ := perform_now h
    exact ⟨rfl, fun _ => id, suffix_refl _, fun _ _ => rfl, rfl⟩
  | uuid =>
    obtain ⟨-, rfl⟩ := perform_uuid h
    exact ⟨rfl, fun _ hid => mem_cons_of_mem _ hid, suffix_refl _, fun _ _ => rfl, rfl⟩
  | currentProcess =>
    obtain rfl := perform_process h
    exact ⟨rfl, fun _ => id, suffix_refl _, fun _ _ => rfl, rfl⟩
  | ownerState owner =>
    obtain ⟨rfl, -⟩ := perform_ownerState h
    exact ⟨rfl, fun _ => id, suffix_refl _, fun _ _ => rfl, rfl⟩
  | read site p =>
    obtain ⟨hdone, -, -, -⟩ := perform_read h
    have hpast : w.store.PastOf w'.store := hdone.store ▸ suffix_refl w.store
    exact ⟨hdone.executions, fun id hid => hdone.drawn ▸ hid, hpast, fun p _ => by rw [hdone.store],
      hdone.clock⟩
  | exist site p => exact setAside_of_call h fun p content hchange => by cases hchange
  | create site p c =>
    refine setAside_of_call h fun p' content hchange => ?_
    simp only [Call.change] at hchange
    split at hchange
    · cases hchange
      exact ha
    · cases hchange
  | swap site p version c =>
    refine setAside_of_call h fun p' content hchange => ?_
    simp only [Call.change] at hchange
    split at hchange
    · cases hchange
      exact ha
    · cases hchange
  | put site p c =>
    refine setAside_of_call h fun p' content hchange => ?_
    cases hchange
    exact ha
  | delete site p =>
    refine setAside_of_call h fun p' content hchange => ?_
    simp only [Call.change] at hchange
    split at hchange
    · cases hchange
      exact ha
    · cases hchange
  | touch site p => exact setAside_of_call h fun p content hchange => by cases hchange
  | begin operation lease => exact ha.elim
  | finish operation => exact ha.elim
  | validPlan =>
    cases choice <;> simp only [setting, perform, Option.some.injEq, Prod.mk.injEq,
      reduceCtorEq] at h
    obtain ⟨-, rfl⟩ := h
    exact ⟨rfl, fun _ => id, suffix_refl _, fun _ _ => rfl, rfl⟩
  | recover jobId =>
    cases choice <;> simp only [setting, perform, Option.some.injEq, Prod.mk.injEq,
      reduceCtorEq] at h
    all_goals
      obtain ⟨-, rfl⟩ := h
      exact ⟨rfl, fun _ => id, suffix_refl _, fun _ _ => rfl, rfl⟩
  | looping => cases h

theorem marker_elsewhere {resource : String} {kind : ActionKind} {occurrence : ℕ} :
    (Path.marker resource kind occurrence).elsewhere :=
  ⟨by simp, by simp⟩

theorem plan_elsewhere : (Path.plan operation).elsewhere :=
  ⟨by simp, by simp⟩

theorem SetAside.plannedFor (h : SetAside w w') {p : Path} :
    w'.plannedFor operation p ↔ w.plannedFor operation p := by
  simp only [World.plannedFor, h.get _ plan_elsewhere]

theorem SetAside.holds (h : SetAside w w') {j : ℕ} {p : Path} {v : ℕ}
    (hholds : w.holds j p v) : w'.holds j p v := by
  obtain ⟨resource, kind, occurrence, rfl⟩ := hholds.1
  exact holds_of_get (h.get _ marker_elsewhere) h.past hholds

/-! ## What is carried along -/

/-- What a coordinator knows about a plan before it has it carried out: its own
executions so far, and that at least `n` writes were accepted. -/
structure World.Ready (w : World) (i : ℕ) (operation : String) (n : ℕ) (mine : List Execution) :
    Prop where
  drew : w.drew i operation
  cleared : w.cleared i operation
  mine : w.mine i = mine
  length : n ≤ w.store.length

theorem knows_length : Knows g C i fun w => n ≤ w.store.length :=
  ⟨fun _ _ hstep hn => Nat.le_trans hn (pastOf_of_changed (changed_of_step hstep)).length_le⟩

theorem knows_ready : Knows g C i fun w => w.Ready i operation n mine := by
  refine ⟨fun hwho hw hstep hready => ?_⟩
  obtain ⟨hdrew, hcleared⟩ := knows_cleared.keeps hwho hw hstep ⟨hready.drew, hready.cleared⟩
  exact ⟨hdrew, hcleared, knows_mine.keeps hwho hw hstep hready.mine,
    knows_length.keeps hwho hw hstep hready.length⟩

theorem spares_ready {a : Act β}
    (ha : Aside a) : Spares setting i (fun w => w.Ready i operation n mine) a := by
  intro c w b w' hready hperform
  have haside := setAside hperform ha
  refine ⟨haside.drawn _ hready.drew, fun p hplanned => ?_, ?_, ?_⟩
  · obtain ⟨⟨v, hholds⟩, hidle⟩ := hready.cleared p (haside.plannedFor.mp hplanned)
    refine ⟨⟨v, haside.holds hholds⟩, fun e he hplan => ?_⟩
    rw [haside.executions] at he
    exact hidle e he (haside.plannedFor.mp hplan)
  · simp only [World.mine, haside.executions]
    exact hready.mine
  · exact Nat.le_trans hready.length haside.past.length_le

/-- What a coordinator knows once the execution of its plan has ended. -/
structure World.Ended (w : World) (i : ℕ) (operation : String) (n : ℕ) (mine : List Execution)
    (outcome : Outcome) : Prop where
  drew : w.drew i operation
  mine : ∃ e, e.operation = operation ∧ n ≤ e.begunAfter ∧ e.ended = some outcome ∧
    w.mine i = e :: mine

theorem knows_ended : Knows g C i fun w => w.Ended i operation n mine outcome := by
  refine ⟨fun hwho hw hstep hended => ?_⟩
  obtain ⟨e, hop, hn, hend, hmine⟩ := hended.mine
  exact ⟨knows_drew.keeps hwho hw hstep hended.drew, e, hop, hn, hend,
    knows_mine.keeps hwho hw hstep hmine⟩

theorem local_ended : Local fun w => w.Ended i operation n mine outcome := by
  refine ⟨fun hclock hdrawn hexecutions hended => ?_⟩
  obtain ⟨e, hop, hn, hend, hmine⟩ := hended.mine
  refine ⟨?_, e, hop, hn, hend, ?_⟩
  · simp only [World.drew, hdrawn]
    exact hended.drew
  · simp only [World.mine, hexecutions]
    exact hmine

theorem local_ready : Local fun w => w.drew i operation ∧ w.mine i = mine := by
  refine ⟨fun hclock hdrawn hexecutions hknown => ?_⟩
  simp only [World.drew, World.mine, hdrawn, hexecutions] at hknown ⊢
  exact hknown

/-- The conditions under which the record of an outcome takes effect. -/
structure RecordTakes (limits : SafetyLimits) (C : Terms) (i : ℕ) (P : World → Prop)
    (operation : String) (outcome : Outcome) : Prop where
  update : UpdateTakes C i P (.recordRead operation outcome) (.record operation outcome)
  clock : ∀ c w, P w → C.act i (.now (.recordClock outcome)) c w → w.clock + limits.cooldown ≤ lastInstant

theorem expiresAt_of_le {t seconds : ℕ} {field : String}
    (hvalid : (positiveDuration seconds field).isOk)
    (hle : t + seconds * nanosPerSecond ≤ lastInstant) :
    ∃ expires, expiresAt t seconds field = .ok expires := by
  unfold expiresAt
  cases hduration : positiveDuration seconds field with
  | error why =>
    rw [hduration] at hvalid
    cases hvalid
  | ok duration =>
    obtain ⟨-, rfl⟩ := positiveDuration_eq hduration
    exact ⟨_, if_neg (Nat.not_lt.mpr hle)⟩

/-- The state a record writes is the one found with its outcome. -/
def Recorded (limits : SafetyLimits) (outcome : Outcome) (state new : ControlState) (w : World) :
    Prop :=
  ∃ t ≤ w.clock, new = state.recorded outcome limits.circuitBreakerFailures t
    (t + limits.cooldown)

theorem right_record (takes : Prop) (hP : Knows g C i P) (hlocal : Local P)
    (hdrew : ∀ w, P w → w.drew i operation)
    (htakes : takes → RecordTakes g.limits C i P operation outcome) (hw : LivedIn g C w)
    (hold : P w) :
    Right g C i (recordMutationOutcome operation outcome g.limits.circuitBreakerFailures
        g.limits.circuitBreakerCooldownSeconds)
      (fun _ w => P w ∧ ∃ e ∈ w.store, e.site = .record operation outcome)
      (fun w => P w ∧ ¬ takes) w := by
  unfold recordMutationOutcome
  rw [if_neg (Nat.pos_iff_ne_zero.mp g.limits.failures_pos)]
  refine right_update (Recorded g.limits outcome) takes hP hlocal (fun state new => ?_)
    (fun state R => ?_) (fun state w hw hold => ?_) (fun state new w hold hfits hstate => ?_)
    (fun ht => (htakes ht).update) hw hold
  · refine ⟨fun hwho hw hstep hfits => ?_⟩
    obtain ⟨t, ht, hnew⟩ := hfits
    exact ⟨t, clock_of_changed (changed_of_step hstep) ht, hnew⟩
  · refine bind (only_take ?_) fun t => bind ?_ fun openUntil =>
      trivial
    · intro c w t w' hR hperform
      rw [(perform_now hperform).2]
      exact hR
    · cases expiresAt t g.limits.circuitBreakerCooldownSeconds
        "limits.circuit_breaker_cooldown_seconds" <;> trivial
  · refine .bind (take hP hw hold
      (Q := fun t w => P w ∧ t ≤ w.clock ∧ (takes → t + g.limits.cooldown ≤ lastInstant))
      (E := fun w => P w ∧ ¬ takes)
      fun w₁ c t w₂ hw₁ hold₁ hperform hcond => ⟨allowed_now, fun hw₂ => ?_⟩) hw
      (fun t w hw hknown => ?_) fun _ _ h => h
    · obtain ⟨rfl, rfl⟩ := perform_now hperform
      exact ⟨hold₁, Nat.le_refl _, fun ht => (htakes ht).clock c _ hold₁ hcond⟩
    · obtain ⟨hold, ht, hcalendar⟩ := hknown
      refine .bind (right_orFail
        (Q := fun openUntil w => P w ∧ t ≤ w.clock ∧ openUntil = t + g.limits.cooldown)
        (E := fun w => P w ∧ ¬ takes) (fun openUntil hopen => ?_) fun why hwhy => ⟨hold, fun hsure => ?_⟩) hw
        (fun openUntil w hw hknown => ?_) fun _ _ h => h
      · exact ⟨hold, ht, (expiresAt_eq hopen).2⟩
      · obtain ⟨expires, hexpires⟩ := expiresAt_of_le g.limits.cooldown_valid (hcalendar hsure)
        rw [hexpires] at hwhy
        cases hwhy
      · obtain ⟨hold, ht, rfl⟩ := hknown
        exact .pure ⟨hold, t, ht, rfl⟩
  · obtain ⟨t, ht, rfl⟩ := hfits
    refine ⟨rfl, hdrew w hold, t, ht, ?_⟩
    rcases hstate with rfl | ⟨t₀, rfl, hdefault⟩
    · rfl
    · rw [hdefault]
      cases outcome <;> rfl

/-! ## Slot leases -/

theorem ReadDone.own (h : ReadDone w w') (hown : w.Own g i lease) : w'.Own g i lease := by
  refine ⟨hown.holder, ?_, ?_, ?_⟩
  · simp only [drew, h.drawn]
    exact hown.token
  · simp only [drew, h.drawn]
    exact hown.decision
  · simp only [sole, wrote, h.store]
    exact hown.sole

/-- The conditions under which a release finds the lease it is for and takes
effect. -/
structure ReleaseTakes (g : Regime) (C : Terms) (i : ℕ) (P : World → Prop) (operation : String) :
    Prop where
  read : ∀ subject c w, P w → C.act i (.read (.ownReleaseRead operation) (.lease subject)) c w →
    c = .done ∧ ∃ lease v, w.store.get (.lease subject) = some (.lease lease, v) ∧
      some lease.holder = g.reserved ∧ lease.decisionId = operation
  swap : ∀ subject v new c w, P w →
    C.act i (.swap (.ownRelease operation) (.lease subject) v new) c w →
      c = .done ∧ ∃ old, w.store.get (.lease subject) = some (old, v)

theorem right_release (takes : Prop) (hP : Knows g C i P) (hlocal : Local P)
    (hended : ∀ w, LivedIn g C w → P w → ∀ e ∈ w.executions, e.operation = operation →
      e.ended ≠ none)
    (htakes : takes → ReleaseTakes g C i P operation) (hdecision : lease.decisionId = operation)
    (hw : LivedIn g C w) (hold : P w) (hown : w.Own g i lease) :
    Right g C i (releaseAt (.ownReleaseRead operation) (.ownRelease operation) lease.subjectId
        lease.token)
      (fun released w => P w ∧ (takes → released = true)) (fun w => P w ∧ ¬ takes) w := by
  unfold releaseAt
  refine .bind (tries (hP.and knows_own) hw ⟨hold, hown⟩
    (Q := fun found w => (P w ∧ w.Own g i lease) ∧ (∀ c v, found = some (c, v) →
        ∃ prior, c = .lease prior ∧ w.wrote v lease.subjectId prior ∧
          (prior.token = lease.token → prior = lease)) ∧
      (takes → ∃ v, found = some (.lease lease, v)))
    (E := fun w => P w ∧ ¬ takes)
    fun w₁ c b w₂ hw₁ hold₁ hperform hcond => ⟨allowed_read, fun hw₂ => ?_⟩) hw
    (fun found w hw hfound => ?_) fun _ _ h => h
  · obtain ⟨hdone, hb, -, hanswer⟩ := perform_read hperform
    have hold₂ : P w₂ := hlocal.keeps hdone.clock hdone.drawn hdone.executions hold₁.1
    rcases hb with rfl | rfl
    · refine ⟨⟨hold₂, hdone.own hold₁.2⟩, fun c v hget => ?_, fun ht => ?_⟩
      · obtain ⟨prior, rfl⟩ := (tidy hw₁).standing _ c v hget
        refine ⟨prior, rfl, ?_, fun htoken => hold₁.2.eq_of_get hget (.inl htoken)⟩
        simp only [wrote, hdone.store]
        exact wrote_of_get hget
      · obtain ⟨-, found, v, hget, hholder, hop⟩ := (htakes ht).read _ c w₁ hold₁.1 hcond
        have heq := hold₁.2.eq_of_get hget
          (.inr ⟨Option.some.inj (hholder.trans hold₁.2.holder.symm), hop.trans hdecision.symm⟩)
        exact ⟨v, heq ▸ hget⟩
    · refine ⟨hold₂, fun ht => ?_⟩
      cases hanswer ((htakes ht).read _ c w₁ hold₁.1 hcond).1
  obtain ⟨⟨hold, hown⟩, hprior, hsure⟩ := hfound
  rcases found with _ | ⟨c, version⟩
  · refine .pure ⟨hold, fun ht => ?_⟩
    obtain ⟨v, hfound⟩ := hsure ht
    cases hfound
  · obtain ⟨prior, rfl, hwrote, hsame⟩ := hprior c version rfl
    by_cases htoken : prior.token = lease.token
    · obtain rfl := hsame htoken
      simp only [ne_eq, not_true, if_false]
      have hknows : Knows g C i fun w =>
          (P w ∧ w.Own g i prior) ∧ w.wrote version prior.subjectId prior :=
        (hP.and knows_own).and knows_wrote
      refine .bind (take hknows hw ⟨⟨hold, hown⟩, hwrote⟩
        (Q := fun _ w => (P w ∧ w.Own g i prior) ∧ w.wrote version prior.subjectId prior)
        (E := fun w => P w ∧ ¬ takes)
        fun w₁ c t w₂ hw₁ hold₁ hperform _ => ⟨allowed_now, fun hw₂ => ?_⟩) hw
        (fun t w hw hknown => ?_) fun _ _ h => h
      · rw [(perform_now hperform).2]
        exact hold₁
      refine .bind (tries hknows hw hknown
        (Q := fun answer w => P w ∧ Took answer True (¬ takes))
        (E := fun w => P w ∧ ¬ takes)
        fun w₁ c b w₂ hw₁ hold₁ hperform hcond =>
          ⟨allowed_swap fun old hget => ?_, fun hw₂ => ?_⟩) hw
        (fun answer w hw hanswer => ?_) fun _ _ h => h
      · obtain rfl := lease_of_version hw₁ hold₁.2 hget
        exact ⟨_, prior, version, t, rfl, hget, hdecision, hold₁.1.2.token,
          hended w₁ hw₁ hold₁.1.1, rfl⟩
      · have hsure : takes → c = .done ∧
            ∃ old, w₁.store.get (.lease prior.subjectId) = some (old, version) :=
          fun ht => (htakes ht).swap _ version _ c w₁ hold₁.1.1 hcond
        rcases perform_swap hperform with ⟨rfl, -, rfl⟩ | ⟨hb, rfl, hstale⟩ | ⟨rfl, hlost⟩
        · exact ⟨hlocal.wrote hold₁.1.1 _, trivial⟩
        · have hnot : ¬ takes := fun ht => (hsure ht).2.elim fun old hget => hstale old hget
          rcases hb with rfl | rfl
          · exact ⟨hold₁.1.1, hnot⟩
          · exact ⟨hold₁.1.1, hnot⟩
        · refine ⟨?_, fun ht => hlost (hsure ht).1⟩
          rcases call_cases hperform with rfl | ⟨p, content, -, rfl⟩
          · exact hold₁.1.1
          · exact hlocal.wrote hold₁.1.1 _
      cases answer with
      | stored v => exact .pure ⟨hanswer.1, fun _ => rfl⟩
      | conflict => exact .pure ⟨hanswer.1, fun ht => absurd ht hanswer.2⟩
      | notFound => exact .fail hanswer
    · simp only [ne_eq, htoken, not_false_eq_true, if_true]
      refine .pure ⟨hold, fun ht => ?_⟩
      obtain ⟨v, hfound⟩ := hsure ht
      cases hfound
      exact absurd rfl htoken

theorem right_releaseMutationLease (takes : Prop) (hP : Knows g C i P) (hlocal : Local P)
    (hended : ∀ w, LivedIn g C w → P w → ∀ e ∈ w.executions, e.operation = operation →
      e.ended ≠ none)
    (htakes : takes → ReleaseTakes g C i P operation) (hdecision : lease.decisionId = operation)
    (hw : LivedIn g C w) (hold : P w) (hown : w.Own g i lease) :
    Right g C i (releaseMutationLease operation lease)
      (fun error w => P w ∧ (takes → error = none)) (fun _ => False) w := by
  refine .bind (right_release takes hP hlocal hended htakes hdecision hw hold hown).attempt hw
    (fun r w hw hr => ?_) fun _ _ h => h
  cases r with
  | error e => exact .pure ⟨hr.1, fun ht => absurd ht hr.2⟩
  | ok released =>
    cases released with
    | true => exact .pure ⟨hr.1, fun _ => rfl⟩
    | false => exact .pure ⟨hr.1, fun ht => absurd (hr.2 ht) (by simp)⟩

theorem only_acquire {R : World → Prop} {subject decision holder : String} {ttl : Option ℕ}
    {asked : ℕ} (hR : ∀ {β : Type} (a : Act β), Aside a → Spares setting i R a) :
    (acquirePlacementLease subject decision holder ttl asked).Only (Spares setting i R) := by
  have hlease : ∀ subject, ¬ (Path.lease subject).elsewhere := fun s h => h.1 s rfl
  refine bind (only_take (hR _ trivial)) fun token =>
    bind ?_ fun expires => bind (only_take (hR _ trivial))
      fun process => bind (only_tries (hR _ (hlease subject))) fun created => ?_
  · cases expiry ttl asked <;> trivial
  · split
    · trivial
    · refine bind (only_tries (hR _ trivial)) fun found => ?_
      split
      · trivial
      · refine bind ?_ fun active => ?_
        · unfold PlacementLease.activeAt
          split
          · split
            · trivial
            · exact bind (only_take (hR _ trivial)) fun _ => trivial
          · trivial
          · trivial
        · split
          · trivial
          · refine bind (only_tries (hR _ (hlease subject))) fun answer => ?_
            split <;> trivial
      · trivial

/-- A coordinator that looks for a slot gets a lease of its own, or leaves its plan
without one. -/
theorem right_takeSlot (hreserved : g.reserved = some "autonomy-reconciler") (slots : List ℕ)
    (hslots : ∀ slot ∈ slots, slot < g.limits.maxConcurrentMutations) (hw : LivedIn g C w)
    (hready : w.Ready i operation n mine) (hnone : w.undecided g operation) :
    Right g C i (takeSlot operation g.limits slots)
      (fun r w => w.Ready i operation n mine ∧ ∀ lease, r = some lease →
        w.Own g i lease ∧ lease.decisionId = operation ∧
          (∃ slot < g.limits.maxConcurrentMutations, lease.subjectId = slotName slot) ∧
          ∃ t, lease.expiresAt = some (.instant t))
      (fun w => w.Ready i operation n mine) w := by
  induction slots generalizing w with
  | nil => exact .pure ⟨hready, by simp⟩
  | cons slot rest ih =>
    have hknows : Knows g C i fun w => w.Ready i operation n mine ∧ w.drew i operation ∧
        w.undecided g operation := knows_ready.and knows_undecided
    refine .bind (take hknows hw ⟨hready, hready.drew, hnone⟩
      (Q := fun asked w => w.Ready i operation n mine ∧
        Acquiring g i operation "autonomy-reconciler" asked w)
      (E := fun w => w.Ready i operation n mine)
      fun w₁ c asked w₂ hw₁ hknown hperform _ => ⟨allowed_now, fun hw₂ => ?_⟩) hw
      (fun asked w hw hknown => ?_) fun _ _ h => h
    · obtain ⟨rfl, rfl⟩ := perform_now hperform
      exact ⟨hknown.1, Nat.le_refl _, fun _ => hknown.2⟩
    refine .bind ((right_acquire hw hknown.2).frame knows_ready
      (only_acquire fun a ha => spares_ready ha) hw hknown.1) hw (fun r w hw hr => ?_)
      fun _ _ h => h.2
    have hacquired := hr.1.2 hreserved.symm
    cases r with
    | none => exact ih (fun s hs => hslots s (mem_cons_of_mem _ hs)) hw hr.2 hacquired.2
    | some lease =>
      refine .pure ⟨hr.2, fun lease' heq => ?_⟩
      cases heq
      obtain ⟨hown, hsubject, hdecision, hexpires⟩ := hacquired
      exact ⟨hown, hdecision, ⟨slot, hslots slot mem_cons_self, hsubject⟩, hexpires (by simp)⟩

/-! ## The control gate -/

theorem knows_gates {l : AutonomyStore} : Knows g C i fun w => w.gates i = l := by
  refine ⟨fun {who w w'} hwho hw hstep hgates => ?_⟩
  have hgates : w.gates i = l := hgates
  show w'.gates i = l
  have hchanged := changed_of_step hstep
  cases hchanged with
  | @gate k _ =>
    have hk : i ≠ k := fun heq => hwho (congrArg some heq.symm)
    simp only [hk, if_false]
    exact hgates
  | _ => exact hgates

def World.gateOpen (w : World) (i : ℕ) : Prop :=
  (controlIn (w.gates i)).emergencyPaused = false ∧
    ∃ t ≤ w.clock, (controlIn (w.gates i)).circuitOpenAt t = false

theorem knows_gateOpen : Knows g C i fun w => w.gateOpen i := by
  refine ⟨fun {who w w'} hwho hw hstep ⟨hrunning, t, ht, hclosed⟩ => ?_⟩
  have hgates : w'.gates i = w.gates i := knows_gates.keeps hwho hw hstep rfl
  refine ⟨?_, t, clock_of_changed (changed_of_step hstep) ht, ?_⟩
  · rw [hgates]
    exact hrunning
  · rw [hgates]
    exact hclosed

theorem ReadDone.ready
    (h : ReadDone w w') (hready : w.Ready i operation n mine) : w'.Ready i operation n mine := by
  refine ⟨?_, ?_, ?_, ?_⟩
  · simp only [World.drew, h.drawn]
    exact hready.drew
  · simp only [World.cleared, World.plannedFor, World.holds, World.idle, h.store, h.executions]
    exact hready.cleared
  · simp only [World.mine, h.executions]
    exact hready.mine
  · rw [h.store]
    exact hready.length

theorem right_loadControl (hP : Knows g C i P) (hread : ∀ {w w'}, ReadDone w w' → P w → P w')
    (hw : LivedIn g C w) (hold : P w) :
    Right g C i loadControl (fun state w => P w ∧ ∃ t, controlIn (w.gates i) = state ∨
          state = default t ∧ controlIn (w.gates i) = default 0)
      P w := by
  refine .bind (tries hP hw hold
    (Q := fun found w => P w ∧ (∀ c v, found = some (c, v) →
        ∃ state, c = .control state ∧ controlIn (w.gates i) = state) ∧
      (found = none → controlIn (w.gates i) = default 0))
    (E := P) fun w₁ c b w₂ hw₁ hold₁ hperform _ => ⟨allowed_read, fun hw₂ => ?_⟩) hw
    (fun found w hw hfound => ?_) fun _ _ h => h
  · obtain ⟨hdone, hb, hgate, -⟩ := perform_read hperform
    have hold₂ : P w₂ := hread hdone hold₁
    rcases hb with rfl | rfl
    · refine ⟨hold₂, fun c v hget => ?_, fun hget => ?_⟩
      · obtain ⟨state, rfl⟩ := (told hw₁).state c v hget
        refine ⟨state, rfl, ?_⟩
        rw [hgate rfl]
        simp only [controlIn, hget]
      · rw [hgate rfl]
        simp only [controlIn, hget]
    · exact hold₂
  obtain ⟨hold, hsome, hnone⟩ := hfound
  rcases found with _ | ⟨c, v⟩
  · refine .bind (take (hP.and (knows_gates (l := w.gates i))) hw ⟨hold, rfl⟩
      (Q := fun _ w => P w ∧ controlIn (w.gates i) = default 0) (E := P)
      fun w₁ c t w₂ hw₁ hold₁ hperform _ => ⟨allowed_now, fun hw₂ => ?_⟩) hw
      (fun t w hw hknown => ?_) fun _ _ h => h
    · rw [(perform_now hperform).2]
      refine ⟨hold₁.1, ?_⟩
      rw [hold₁.2]
      exact hnone rfl
    · exact .pure ⟨hknown.1, t, .inr ⟨rfl, hknown.2⟩⟩
  · obtain ⟨state, rfl, hstate⟩ := hsome c v rfl
    exact .pure ⟨hold, 0, .inl hstate⟩

theorem right_controlGate (hP : Knows g C i P) (hread : ∀ {w w'}, ReadDone w w' → P w → P w')
    (hw : LivedIn g C w) (hold : P w) :
    Right g C i controlGate (fun shut w => P w ∧ (shut = none → w.gateOpen i)) (fun _ => False)
      w := by
  refine .bind (right_loadControl hP hread hw hold).attempt hw (fun r w hw hr => ?_)
    fun _ _ h => h
  cases r with
  | error e => exact .pure ⟨hr, by rintro ⟨⟩⟩
  | ok control =>
    obtain ⟨hold, t₀, hstate⟩ := hr
    have hseen : control.emergencyPaused = (controlIn (w.gates i)).emergencyPaused ∧
        ∀ t, control.circuitOpenAt t = (controlIn (w.gates i)).circuitOpenAt t := by
      rcases hstate with rfl | ⟨rfl, hdefault⟩
      · exact ⟨rfl, fun _ => rfl⟩
      · rw [hdefault]
        exact ⟨rfl, fun _ => rfl⟩
    simp only
    split
    · exact .pure ⟨hold, by rintro ⟨⟩⟩
    · next hpaused =>
      refine .bind (take (hP.and (knows_gates (l := w.gates i))) hw ⟨hold, rfl⟩
        (Q := fun t w' => P w' ∧ t ≤ w'.clock ∧ w'.gates i = w.gates i) (E := fun _ => False)
        fun w₁ c t w₂ hw₁ hold₁ hperform _ => ⟨allowed_now, fun hw₂ => ?_⟩) hw
        (fun t w' hw hknown => ?_) fun _ _ h => h
      · obtain ⟨rfl, rfl⟩ := perform_now hperform
        exact ⟨hold₁.1, Nat.le_refl _, hold₁.2⟩
      · obtain ⟨hold, ht, hgates⟩ := hknown
        split
        · exact .pure ⟨hold, by rintro ⟨⟩⟩
        · next hopen =>
          refine .pure ⟨hold, fun _ => ⟨?_, t, ht, ?_⟩⟩
          · rw [hgates, ← hseen.1]
            simpa using hpaused
          · rw [hgates, ← hseen.2]
            simpa using hopen

/-! ## Carrying out a plan -/

theorem right_execute (hmine : ∀ e ∈ mine, e.operation ≠ operation)
    (hw : LivedIn g C w) (hready : w.Ready i operation n mine) (hown : w.Own g i lease)
    (hgate : w.gateOpen i) (hdecision : lease.decisionId = operation)
    (hslot : ∃ slot < g.limits.maxConcurrentMutations, lease.subjectId = slotName slot)
    (hexpires : ∃ t, lease.expiresAt = some (.instant t)) :
    Right g C i (execute operation lease)
      (fun outcome w => w.Ended i operation n mine outcome ∧ w.Own g i lease) (fun _ => False)
      w := by
  refine .bind (take ((knows_ready.and knows_own).and knows_gateOpen) hw ⟨⟨hready, hown⟩, hgate⟩
    (Q := fun _ w => (w.drew i operation ∧ w.Own g i lease) ∧ ∃ e, e.operation = operation ∧
      n ≤ e.begunAfter ∧ e.ended = none ∧ w.mine i = e :: mine)
    (E := fun _ => False) fun w₁ c b w₂ hw₁ hold hperform hcond => ⟨?_, fun hw₂ => ?_⟩) hw
    (fun _ w hw hbegun => ?_) fun _ _ h => h
  · obtain ⟨⟨hready, hown⟩, hrunning, hclosed⟩ := hold
    refine ⟨hready.drew, fun e he heq => ?_, hdecision, hslot, hown, hexpires, hrunning, hclosed,
      hready.cleared⟩
    have hmem := mem_mine hw₁ hready.drew he heq
    rw [hready.mine] at hmem
    exact hmine e hmem heq
  · obtain rfl := perform_begin hperform
    obtain ⟨⟨hready, hown⟩, -⟩ := hold
    refine ⟨⟨hready.drew, hown.holder, hown.token, hown.decision, hown.sole⟩,
      ⟨operation, i, lease, w₁.clock, w₁.store.length, w₁.gates i, none⟩, rfl, hready.length, rfl,
      ?_⟩
    have hsame := hready.mine
    simp only [World.mine] at hsame ⊢
    rw [filter_cons_of_pos (by simp), hsame]
  · obtain ⟨hknown, e, hop, hn, hended, hmine'⟩ := hbegun
    refine take ((knows_drew.and knows_own).and knows_mine) hw
      ⟨hknown, hmine'⟩ fun w₁ c outcome w₂ hw₁ hold hperform hcond => ⟨hold.1.1, fun hw₂ => ?_⟩
    obtain rfl := perform_finish hperform
    obtain ⟨⟨hdrew, hown⟩, hmine₁⟩ := hold
    have hmine₁ : w₁.mine i = e :: mine := hmine₁
    refine ⟨⟨hdrew, e.finished operation outcome, by simpa using hop, by simpa using hn, ?_, ?_⟩,
      hown.holder, hown.token, hown.decision, hown.sole⟩
    · simp [Execution.finished, hop, hended]
    · have hsame : mine.map (Execution.finished operation outcome) = mine := by
        have hid : ∀ e ∈ mine, e.finished operation outcome = e := fun e he =>
          Execution.finished_of_ne (hmine e he)
        exact (map_congr_left hid).trans (List.map_id _)
      simp only [World.mine] at hmine₁ ⊢
      rw [List.filter_map]
      simp only [Function.comp_def, Execution.finished_coordinator]
      rw [hmine₁, map_cons, hsame]

/-- What the end of `executeWithCircuit` with an error tells. -/
inductive Failed (i : ℕ) (operation : String) (n : ℕ) (mine : List Execution)
    (recorded finished : Prop) (w : World) : Prop where
  | unbegun (drew : w.drew i operation) (same : w.mine i = mine)
  | failed (error : String) (ended : w.Ended i operation n mine (.failed error))
      (counted : recorded → ∃ detail, ∃ e ∈ w.store, e.site = .record operation (.failed detail))
  | spoiled (ended : w.Ended i operation n mine .succeeded) (unsure : ¬ finished)

/-- An execution whose plan ended leaves none of its plan under way. -/
theorem ended_of_ended (hmine : ∀ e ∈ mine, e.operation ≠ operation) (hw : LivedIn g C w)
    (h : w.Ended i operation n mine outcome) :
    ∀ e ∈ w.executions, e.operation = operation → e.ended ≠ none := by
  intro e he heq
  obtain ⟨e', -, -, hended, hsame⟩ := h.mine
  have hmem := mem_mine hw h.drew he heq
  rw [hsame] at hmem
  rcases mem_cons.mp hmem with rfl | hmem
  · simp [hended]
  · exact absurd heq (hmine e hmem)

/-- **Carrying out a plan.** The plan of a coordinator is carried out once or not at
all; a failure leaves its record and a success ends without an error where the
conditions make record and release take effect. -/
theorem right_executeWithCircuit (recorded finished : Prop)
    (hreserved : g.reserved = some "autonomy-reconciler")
    (hmine : ∀ e ∈ mine, e.operation ≠ operation)
    (hrecorded : recorded → ∀ error detail, RecordTakes g.limits C i
      (fun w => w.Ended i operation n mine (.failed error)) operation (.failed detail))
    (hfinished : finished → RecordTakes g.limits C i
        (fun w => w.Ended i operation n mine .succeeded) operation .succeeded ∧
      ReleaseTakes g C i (fun w => w.Ended i operation n mine .succeeded) operation)
    (hw : LivedIn g C w) (hready : w.Ready i operation n mine) (hnone : w.undecided g operation) :
    Right g C i (executeWithCircuit operation g.limits)
      (fun _ w => w.Ended i operation n mine .succeeded)
      (Failed i operation n mine recorded finished) w := by
  refine .bind (right_takeSlot hreserved _ (by simp) hw hready hnone) hw (fun r w hw hr => ?_)
    fun _ _ h => .unbegun h.drew h.mine
  obtain ⟨hready, hlease⟩ := hr
  cases r with
  | none => exact .fail (.unbegun hready.drew hready.mine)
  | some lease =>
  obtain ⟨hown, hdecision, hslot, hexpires⟩ := hlease lease rfl
  refine .bind (right_controlGate (P := fun w => w.Ready i operation n mine ∧ w.Own g i lease)
    (knows_ready.and knows_own) (fun hdone hknown => ⟨hdone.ready hknown.1, hdone.own hknown.2⟩)
    hw ⟨hready, hown⟩) hw (fun shut w hw hgate => ?_) fun _ _ h => h.elim
  obtain ⟨⟨hready, hown⟩, hopen⟩ := hgate
  cases shut with
  | some detail =>
    -- nothing was begun, so nothing of the plan is under way when its slot is released
    have hunbegun : ∀ w, LivedIn g C w → (w.drew i operation ∧ w.mine i = mine) →
        ∀ e ∈ w.executions, e.operation = operation → e.ended ≠ none := by
      intro w hw hknown e he heq
      have hmem := mem_mine hw hknown.1 he heq
      rw [hknown.2] at hmem
      exact absurd heq (hmine e hmem)
    refine .bind (right_releaseMutationLease False (knows_drew.and knows_mine)
      local_ready hunbegun (fun h => h.elim) hdecision hw ⟨hready.drew, hready.mine⟩ hown) hw
      (fun error w hw hreleased => ?_) fun _ _ h => h.elim
    exact .fail (.unbegun hreleased.1.1 hreleased.1.2)
  | none =>
    refine .bind (right_execute hmine hw hready hown (hopen rfl) hdecision hslot hexpires) hw
      (fun outcome w hw hended => ?_) fun _ _ h => h.elim
    obtain ⟨hended, hown⟩ := hended
    refine .bind (right_releaseMutationLease (finished ∧ outcome = .succeeded)
      knows_ended local_ended (fun w hw hended => ended_of_ended hmine hw hended) ?_ hdecision hw
      hended hown) hw (fun releaseError w hw hreleased => ?_) fun _ _ h => h.elim
    · rintro ⟨hsure, rfl⟩
      exact (hfinished hsure).2
    obtain ⟨hended, hreleased⟩ := hreleased
    cases outcome with
    | succeeded =>
      refine .bind (right_record finished knows_ended local_ended
        (fun w h => h.drew) (fun ht => (hfinished ht).1) hw hended) hw
        (fun _ w hw hrecord => ?_) fun w _ h => .spoiled h.1 h.2
      cases releaseError with
      | none => exact .pure hrecord.1
      | some error =>
        refine .fail (.spoiled hrecord.1 fun ht => ?_)
        cases hreleased ⟨ht, rfl⟩
    | failed error =>
      refine .bind (right_record recorded knows_ended local_ended
        (fun w h => h.drew) (fun ht => hrecorded ht error _) hw hended) hw
        (fun _ w hw hrecord => ?_) fun w _ h => .failed error h.1 fun ht => absurd ht h.2
      exact .fail (.failed error hrecord.1 fun _ => ⟨_, hrecord.2⟩)

/-- A plan with a fresh id is ready to be carried out. -/
theorem ready_of_drawn
    (hw : LivedIn g C w) (hnew : ∀ j, ¬ w.drew j operation) (hmine : w.mine i = mine)
    (hn : n ≤ w.store.length) :
    ({ w with drawn := (operation, i) :: w.drawn } : World).Ready i operation n mine ∧
      ({ w with drawn := (operation, i) :: w.drawn } : World).undecided g operation := by
  refine ⟨⟨mem_cons_self, fun p hplanned => ?_, hmine, hn⟩,
    fun v subject older hwrote hheld heq => ?_⟩
  · obtain ⟨v, hget⟩ := hplanned
    obtain ⟨j, hj⟩ := plan_drew hw hget
    exact absurd hj (hnew j)
  · obtain ⟨j, -, hdecision⟩ := (tidy hw).token v subject older hwrote
    exact hnew j (heq ▸ hdecision hheld)

theorem right_setControl {emergencyPaused : Bool} {reason : Option String} {actor : String}
    (hP : Knows g C i P) (hlocal : Local P) (hw : LivedIn g C w) (hold : P w) :
    Right g C i (setControl emergencyPaused reason actor) (fun _ => P) P w := by
  refine (right_update (fun state new _ => ∃ t, new = { state with
      emergencyPaused := emergencyPaused, reason := reason, changedAt := t, changedBy := actor })
    False hP hlocal (fun state new => .const _) (fun state R => ?_) (fun state w hw hold => ?_)
    (fun state new w hold hfits hstate => ?_) (fun h => h.elim) hw hold).mono hw
    (fun _ _ _ h => h.1) fun _ _ h => h.1
  · refine bind (only_take ?_) fun t => trivial
    intro c w t w' hR hperform
    rw [(perform_now hperform).2]
    exact hR
  · refine .bind (take hP hw hold (Q := fun _ w => P w) (E := fun w => P w ∧ ¬ False)
      fun w₁ c t w₂ hw₁ hold₁ hperform _ => ⟨allowed_now, fun hw₂ => ?_⟩) hw
      (fun t w hw hold => ?_) fun _ _ h => h
    · rw [(perform_now hperform).2]
      exact hold₁
    · exact .pure ⟨hold, t, rfl⟩
  · obtain ⟨t, rfl⟩ := hfits
    refine ⟨rfl, emergencyPaused, reason, t, actor, ?_⟩
    rcases hstate with rfl | ⟨t₀, rfl, hdefault⟩
    · rfl
    · rw [hdefault]
      rfl

end Stado.Autonomy
