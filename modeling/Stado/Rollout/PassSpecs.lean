import Stado.Rollout.Specs

/-!
# Passes follow the rules

One lemma for each routine of `Stado.Rollout.Passes`, up to a whole pass: the
agent may take each of its steps, whatever the host answers.
-/

namespace Stado.Rollout

open Solo Option Acts HostReleaseState Onward
open Solo.Routine (take tries)

variable {L : Libraries} {T : Target} {w w' : World} {α : Type} {E : World → Prop}
  {state : HostReleaseState} {pass : Pass} {desired : DesiredRelease}
  {artifact : ReleaseArtifactRef} {manifest : ReleaseManifest}

/-- A fetched manifest names the artifact the registry wants. -/
theorem checkManifest_digest {bytes : List UInt8}
    (h : checkManifest L T pass desired artifact bytes = .ok manifest) :
    manifest.artifactSha256 = artifact.artifactSha256 := by
  unfold checkManifest at h
  split at h
  · cases h
  · cases hparse : (L.parseManifest bytes).mapError fun error =>
        s!"invalid release manifest: {error}" with
    | error e => simp [hparse, Bind.bind, Except.bind] at h
    | ok m =>
      cases hvalid : L.validateManifest m with
      | error e => simp [hparse, hvalid, Bind.bind, Except.bind] at h
      | ok u =>
        simp only [hparse, hvalid, Bind.bind, Except.bind] at h
        split at h
        · cases h
        · next hmatches =>
          have hm : m = manifest := by
            repeat' split at h
            all_goals cases h
            rfl
          subst hm
          simp only [Bool.not_eq_true', Bool.not_eq_false, manifestMatches,
            Bool.and_eq_true, beq_iff_eq] at hmatches
          exact hmatches.1.1.1.1.1.1.2

theorem fetchChecked_acts {uri : String} {check : List UInt8 → Except String α} :
    Acts T (fetchChecked uri check)
      (fun a w' => Onward T w w' ∧ ∃ bytes, check bytes = .ok a) (Onward T w) w := by
  unfold fetchChecked
  refine take trivial (fun _ _ _ => trivial) fun answer w₁ hon₁ _ => ?_
  cases answer with
  | error e => exact hon₁
  | ok bytes =>
    cases hcheck : check bytes with
    | error e =>
      simp only [hcheck]
      exact hon₁
    | ok a =>
      simp only [hcheck]
      exact ⟨hon₁, bytes, hcheck⟩

theorem fetchCandidate_acts (hw : Lives T w) :
    Acts T (fetchCandidate L T pass desired artifact)
      (fun m w' => Onward T w w' ∧ m.artifactSha256 = artifact.artifactSha256) (Onward T w) w := by
  unfold fetchCandidate
  refine bind fetchChecked_acts hw (fun m w₁ hw₁ hm => ?_) fun _ _ h => h
  obtain ⟨hon₁, bytes, hbytes⟩ := hm
  refine bind fetchChecked_acts hw₁ (fun _ w₂ hw₂ h₂ => ?_) fun _ _ h => hon₁.trans h
  refine bind fetchChecked_acts hw₂ (fun _ w₃ _ h₃ => ?_)
    fun _ _ h => (hon₁.trans h₂.1).trans h
  exact ⟨(hon₁.trans h₂.1).trans h₃.1, checkManifest_digest hbytes⟩

/-! ## Promoting a candidate -/

theorem Acts.spawn {manifestSha : Digest} {port : Port} {f : ProcessRecord → Routine Act String α}
    {Q : α → World → Prop} (hport : port = T.candidatePorts.1 ∨ port = T.candidatePorts.2)
    (hE : ∀ w', w'.doc = w.doc → E w')
    (hk : ∀ record w', record.artifactSha256 = manifest.artifactSha256 → record.port = port →
      w'.doc = w.doc → Launched T w' record → Lives T w' → Acts T (f record) Q E w') :
    Acts T ((Routine.tries (.spawnRelease manifest manifestSha port)).bind f) Q E w := by
  intro w₁ hm hw₁
  have hon := of_moved (T := T) hm
  refine ⟨trivial, fun c b w₂ hstep hw₂ => ?_⟩
  rcases World.spawn_eq hstep with ⟨⟨why, rfl⟩, rfl⟩ | ⟨now, rfl, rfl⟩
  · exact hE _ hon.doc
  · exact hk _ _ rfl rfl hon.doc (.of_spawn hport) hw₂

/-- What a pass may promote: no candidate is recorded, and the digest is neither
quarantined nor the active release's. -/
structure Promotable (state : HostReleaseState) (digest : Digest) : Prop where
  candidate : state.candidate = none
  quarantined : state.quarantined.containsKey digest = false
  active : ∀ a, state.active = some a → a.artifactSha256 ≠ digest

variable {digest : Digest} {n : HostReleaseState} {site : SaveSite} {active : ProcessRecord}
  {strategy : RolloutStrategy} {process : ProcessRecord}

/-- Changing the phase, the detail and times of a document names what it named. -/
theorem Promotable.of_eq (h : Promotable state digest) (hc : n.candidate = state.candidate)
    (hq : n.quarantined = state.quarantined) (ha : n.active = state.active) : Promotable n digest :=
  ⟨hc.trans h.candidate, by rw [hq]; exact h.quarantined, fun a hact => h.active a (ha ▸ hact)⟩

theorem proxyUpstreamPort_asks : proxyUpstreamPort.Only Act.Asks :=
  (Routine.only_tries trivial).bind fun _ => trivial

theorem startCandidate_acts (hsame : Committed state w)
    (hp : Promotable state manifest.artifactSha256) :
    Acts T (startCandidate L T pass manifest state) Committed (fun _ => True) w := by
  unfold startCandidate
  refine tries trivial (fun _ _ _ => trivial) (fun _ _ => trivial) fun _ w₁ hon₁ hw₁ => ?_
  refine bind (savePlain_acts .staged trivial hw₁ (hon₁.committed hsame)
    ⟨rfl, rfl, rfl, rfl, .inr (by simp)⟩) hw₁ (fun staged w₂ hw₂ hsaved => ?_) fun _ _ h => h
  have hcommitted := hsaved.committed
  have hp₂ : Promotable staged manifest.artifactSha256 := by
    rw [hsaved.eq]
    exact hp.of_eq rfl rfl rfl
  refine asking proxyUpstreamPort_asks hw₂ (fun _ _ => trivial)
    fun occupied w₃ hon₃ hw₃ => ?_
  refine spawn (nextPort_mem _ _ _) (fun _ _ => trivial)
    fun record w₄ hdigest hport hdoc hrecord hw₄ => ?_
  have hcommitted₄ : Committed staged w₄ := by
    unfold Committed
    rw [World.document_eq hdoc]
    exact hon₃.committed hcommitted
  refine mono (save_acts .started ?_ ?_) hw₄
    (fun s _ _ h => h.committed) fun _ _ h => h
  · intro q hq
    simp only [mem_slots, Option.some.injEq] at hq
    rcases hq with hq | rfl | hq
    · exact hcommitted₄.launched hw₄ rfl rfl rfl q (by simp [hq])
    · exact hrecord
    · exact hcommitted₄.launched hw₄ rfl rfl rfl q (by simp [hq])
  · refine ⟨hcommitted₄.active.symm, hcommitted₄.previous.symm, ?_, by simp,
      hcommitted₄.quarantined.symm, record, rfl, ?_, fun a ha => ?_⟩
    · rw [hcommitted₄.candidate]
      exact hp₂.candidate
    · rw [hcommitted₄.quarantined, hdigest]
      exact hp₂.quarantined
    · rw [hcommitted₄.active] at ha
      rw [hdigest, hport]
      exact ⟨hp₂.active a ha, (nextPort_ne_active ha).symm⟩

/-- Quarantining a digest that a pass may promote. -/
theorem quarantineDesired_acts {record : QuarantineRecord}
    (hsite : site = .refused ∨ site = .incompatible) (hw : Lives T w) (hsame : Committed state w)
    (hp : Promotable state digest) (ha : n.active = state.active)
    (hpr : n.previous = state.previous) (hc : n.candidate = state.candidate)
    (hphase : n.phase ≠ .rolledBack) (hq : n.quarantined = state.quarantined.insert digest record) :
    Acts T (save site n) Committed (fun _ => True) w := by
  refine mono (save_acts _ (hsame.launched hw ha hpr hc) ?_) hw
    (fun s _ _ h => h.committed) fun _ _ h => h
  have hall : n.active = w.document.active ∧ n.previous = w.document.previous ∧
      w.document.candidate = none ∧ n.candidate = none ∧ n.phase ≠ .rolledBack ∧
      ∃ digest record, n.quarantined = w.document.quarantined.insert digest record ∧
        ∀ a, w.document.active = some a → a.artifactSha256 ≠ digest := by
    rw [hsame.active, hsame.previous, hsame.candidate, hsame.quarantined]
    exact ⟨ha, hpr, hp.candidate, hc.trans hp.candidate, hphase, digest, record, hq, hp.active⟩
  rcases hsite with rfl | rfl <;> exact hall

theorem promoteFetched_acts (hw : Lives T w) (hsame : Committed state w)
    (hdigest : manifest.artifactSha256 = artifact.artifactSha256)
    (hp : Promotable state artifact.artifactSha256) :
    Acts T (promoteFetched L T pass artifact manifest state) Committed (fun _ => True) w := by
  unfold promoteFetched
  refine bind (savePlain_acts .verified trivial hw hsame
    ⟨rfl, rfl, rfl, rfl, .inr (by simp)⟩) hw (fun verified w₁ hw₁ hsaved => ?_) fun _ _ h => h
  have hp₁ : Promotable verified artifact.artifactSha256 := by
    rw [hsaved.eq]
    exact hp.of_eq rfl rfl rfl
  split
  · refine startCandidate_acts hsaved.committed ?_
    rw [hdigest]
    exact hp₁
  · refine take trivial (fun _ _ _ => trivial) fun now w₂ hon₂ hw₂ => ?_
    exact quarantineDesired_acts (.inr rfl) hw₂ (hon₂.committed hsaved.committed) hp₁
      rfl rfl rfl (by simp) rfl

theorem discardIncomplete_acts (hsame : Committed state w) :
    Acts T (discardIncomplete state)
      (fun s w' => Committed s w' ∧ s.candidate = none ∧ s.quarantined = state.quarantined ∧
        s.active = state.active) (fun _ => True) w := by
  unfold discardIncomplete
  split
  · next hnone => exact ⟨hsame, hnone, rfl, rfl⟩
  · next incomplete hsome =>
    refine take trivial (fun w₁ hon₁ _ => ?_) fun _ w₁ hon₁ hw₁ => ?_
    · exact (hon₁.committed hsame).candidate.trans hsome
    have hcommitted := hon₁.committed hsame
    refine mono (save_acts .discarded ?_ ?_) hw₁ (fun s _ _ h => ?_)
      fun _ _ h => h
    · intro q hq
      simp only [mem_slots, reduceCtorEq, false_or] at hq
      exact hcommitted.launched hw₁ rfl rfl rfl q (by simp; tauto)
    · exact ⟨hcommitted.active.symm, hcommitted.previous.symm, rfl, hcommitted.phase.symm,
        hcommitted.quarantined.symm⟩
    · obtain ⟨rfl, -⟩ := h.eq
      exact ⟨h.committed, rfl, rfl, rfl⟩

theorem promoteCandidate_acts (hw : Lives T w) (hsame : Committed state w)
    (hq : state.quarantined.containsKey artifact.artifactSha256 = false)
    (ha : ∀ a, state.active = some a → a.artifactSha256 ≠ artifact.artifactSha256) :
    Acts T (promoteCandidate L T pass desired artifact state) Committed (fun _ => True) w := by
  unfold promoteCandidate
  refine bind (discardIncomplete_acts hsame) hw (fun s w₁ hw₁ hs => ?_) fun _ _ h => h
  obtain ⟨hcommitted, hcandidate, hquarantined, hactive⟩ := hs
  have hp : Promotable s artifact.artifactSha256 :=
    ⟨hcandidate, by rw [hquarantined]; exact hq, fun a hact => ha a (hactive ▸ hact)⟩
  refine tries trivial (fun _ _ _ => trivial) (fun _ _ => trivial)
    fun holder w₂ hon₂ hw₂ => ?_
  cases holder with
  | some holder =>
    exact mono (savePlain_acts .bindHeld trivial hw₂ (hon₂.committed hcommitted)
      ⟨rfl, rfl, rfl, rfl, .inr (by simp)⟩) hw₂ (fun s _ _ h => h.committed) fun _ _ h => h
  | none =>
    refine bind (savePlain_acts .downloading trivial hw₂
      (hon₂.committed hcommitted) ⟨rfl, rfl, rfl, rfl, .inr (by simp)⟩) hw₂
      (fun downloading w₃ hw₃ hsaved => ?_) fun _ _ h => h
    have hp₃ : Promotable downloading artifact.artifactSha256 := by
      rw [hsaved.eq]
      exact hp.of_eq rfl rfl rfl
    refine bind (Does.attempt (fetchCandidate_acts hw₃)) hw₃
      (fun fetched w₄ hw₄ hfetched => ?_) fun _ _ h => h
    rcases fetched with (error | reason) | manifest
    · have hcommitted₄ := committed hfetched hsaved.committed
      exact mono (savePlain_acts .unreachable trivial hw₄ hcommitted₄
        ⟨rfl, rfl, rfl, rfl, .inl rfl⟩) hw₄ (fun s _ _ h => h.committed) fun _ _ h => h
    · have hcommitted₄ := committed hfetched hsaved.committed
      refine take trivial (fun _ _ _ => trivial) fun now w₅ hon₅ hw₅ => ?_
      exact quarantineDesired_acts (.inl rfl) hw₅ (hon₅.committed hcommitted₄) hp₃ rfl rfl rfl
        (by simp) rfl
    · obtain ⟨hon₄, hdigest⟩ := hfetched
      exact promoteFetched_acts hw₄ (hon₄.committed hsaved.committed) hdigest hp₃

/-! ## Routing the active release -/

def TurnTaken (active : ProcessRecord) (state : HostReleaseState) (turn : Turn) (w : World) :
    Prop :=
  match turn with
  | .ended s => Committed s w
  | .goesOn s => Committed s w ∧ Same s state ∧ Routed w active

theorem routeActive_acts (site : SaveSite) {unanswered : Refusal → String} {generation : Nat}
    (hsite : site.Plain) (hw : Lives T w) (hsame : Committed state w)
    (hactive : state.active = some active) :
    Acts T (routeActive L T site unanswered pass generation active state)
      (TurnTaken active state) (fun _ => True) w := by
  unfold routeActive
  have hserves : w.document.Serves active := .inl (hsame.active.trans hactive)
  refine bind (ensureActiveProxy_acts (E := fun _ => True) hw hserves
    fun _ => Same.symm hsame) hw (fun result w₁ hw₁ hproved => ?_) fun _ _ h => h
  obtain ⟨routed, answer⟩ := result
  have hcommitted : Committed routed w₁ := (hproved.kept.same.trans hsame).trans hproved.same.symm
  rcases answer with reason | _ | why
  · simp only
    split
    · exact bind (rollback_acts hw₁ hcommitted (hproved.same.active.trans hactive)) hw₁
        (fun s _ _ h => h) fun _ _ h => h
    · exact bind (savePlain_acts .failedWithoutRollback trivial hw₁ hcommitted
        ⟨rfl, rfl, rfl, rfl, .inr (by simp)⟩) hw₁ (fun s _ _ h => h.committed)
        fun _ _ h => h
  · exact ⟨hcommitted, hproved.same, hproved.routed rfl⟩
  · exact bind (savePlain_acts _ hsite hw₁ hcommitted ⟨rfl, rfl, rfl, rfl, .inl rfl⟩) hw₁
      (fun s _ _ h => h.committed) fun _ _ h => h

theorem quarantineUnready_acts {why : Refusal}
    (hsame : Committed state w) (hcandidate : state.candidate = some process) :
    Acts T (quarantineUnready L process why state) Committed (fun _ => True) w := by
  unfold quarantineUnready
  refine take trivial (fun w₁ hon₁ _ => ?_) fun _ w₁ hon₁ hw₁ => ?_
  · exact (hon₁.committed hsame).candidate.trans hcandidate
  refine bind (quarantineWithLogs_acts (E := fun _ => True)) hw₁
    (fun failure w₂ hw₂ hon₂ => ?_) fun _ _ h => h
  have hcommitted := (hon₁.trans hon₂).committed hsame
  refine mono (save_acts .unready ?_ ?_) hw₂
    (fun s _ _ h => h.committed) fun _ _ h => h
  · intro q hq
    simp only [mem_slots, reduceCtorEq, false_or] at hq
    exact hcommitted.launched hw₂ rfl rfl rfl q (by simp; tauto)
  · refine ⟨hcommitted.active.symm, hcommitted.previous.symm, rfl, by simp, process, failure,
      hcommitted.candidate.trans hcandidate, ?_⟩
    rw [hcommitted.quarantined]

theorem saveRouted_acts (hsite : site = .routed ∨ site = .monitoring ∨ site = .windowStarted)
    (hw : Lives T w) (hsame : Committed state w) (hactive : state.active = some active)
    (hrouted : Routed w active) (ha : n.active = state.active) (hp : n.previous = state.previous)
    (hc : n.candidate = state.candidate) (hq : n.quarantined = state.quarantined)
    (hphase : n.phase ≠ .rolledBack) : Acts T (save site n) (Saved T w n) (fun _ => True) w := by
  refine save_acts _ (hsame.launched hw ha hp hc) ?_
  have hall : n.active = w.document.active ∧ n.previous = w.document.previous ∧
      n.candidate = w.document.candidate ∧ n.phase ≠ .rolledBack ∧
      n.quarantined = w.document.quarantined ∧
      ∃ a, w.document.active = some a ∧ Routed w a := by
    rw [hsame.active, hsame.previous, hsame.candidate, hsame.quarantined]
    exact ⟨ha, hp, hc, hphase, hq, active, hactive, hrouted⟩
  rcases hsite with rfl | rfl | rfl <;> exact hall

theorem cutOver_acts (hsame : Committed state w) (hcandidate : state.candidate = some process) :
    Acts T (cutOver L T pass desired process state) Committed (fun _ => True) w := by
  unfold cutOver
  refine take trivial (fun _ _ _ => trivial) fun now w₁ hon₁ hw₁ => ?_
  have hcommitted := hon₁.committed hsame
  refine bind (save_acts .cutover ?_ ?_) hw₁ (fun s w₂ hw₂ hsaved => ?_)
    fun _ _ h => h
  · intro q hq
    simp only [mem_slots, reduceCtorEq, false_or] at hq
    exact hcommitted.launched hw₁ rfl rfl rfl q (by simp; tauto)
  · exact ⟨hcommitted.active.symm, rfl, by simp, hcommitted.quarantined.symm, process,
      hcommitted.candidate.trans hcandidate, hcandidate⟩
  have hactive : s.active = some process := by
    rw [hsaved.eq]
    exact hcandidate
  refine bind (routeActive_acts .stoppedAnswering trivial hw₂ hsaved.committed
    hactive) hw₂ (fun turn w₃ hw₃ hturn => ?_) fun _ _ h => h
  cases turn with
  | ended s => exact hturn
  | goesOn s =>
    obtain ⟨hcommitted₃, hsame₃, hrouted⟩ := hturn
    exact mono (saveRouted_acts (.inl rfl) hw₃ hcommitted₃
      (hsame₃.active.trans hactive) hrouted rfl rfl rfl rfl (by simp)) hw₃
      (fun s _ _ h => h.committed) fun _ _ h => h

theorem advanceCandidate_acts (hsame : Committed state w) :
    Acts T (advanceCandidate L T pass desired state) Committed (fun _ => True) w := by
  unfold advanceCandidate
  split
  · trivial
  · next process hcandidate =>
    refine take trivial (fun _ _ _ => trivial) fun now w₁ hon₁ hw₁ => ?_
    have hcommitted := hon₁.committed hsame
    have hlaunched := hcommitted.launched hw₁ rfl rfl rfl process (by simp [hcandidate])
    refine bind (readiness_acts (E := fun _ => True) hw₁ hlaunched) hw₁
      (fun read w₂ hw₂ hread => ?_) fun _ _ h => h
    have hcommitted₂ := hread.1.committed hcommitted
    cases read with
    | ready => exact cutOver_acts hcommitted₂ hcandidate
    | pending why =>
      exact mono (savePlain_acts .pending trivial hw₂ hcommitted₂
        ⟨rfl, rfl, rfl, rfl, .inl rfl⟩) hw₂ (fun s _ _ h => h.committed) fun _ _ h => h
    | failed why => exact quarantineUnready_acts hcommitted₂ hcandidate

/-! ## The rollback window -/

theorem secondsSinceCutover_acts :
    Acts T (secondsSinceCutover state) (fun _ w' => Onward T w w') E w := by
  unfold secondsSinceCutover
  split
  · exact refl w
  · exact take trivial (fun _ _ _ => trivial) fun _ _ hon _ => hon

structure Holding (active : ProcessRecord) (state : HostReleaseState) (w : World) : Prop where
  committed : Committed state w
  isActive : state.active = some active
  routed : Routed w active

theorem Holding.onward (h : Holding active state w)
    (hon : Onward T w w') : Holding active state w' :=
  ⟨hon.committed h.committed, h.isActive, hon.routed h.routed⟩

theorem saveHolding_acts (hsite : site = .routed ∨ site = .monitoring ∨ site = .windowStarted)
    (hw : Lives T w) (h : Holding active state w) (ha : n.active = state.active)
    (hp : n.previous = state.previous) (hc : n.candidate = state.candidate)
    (hq : n.quarantined = state.quarantined) (hphase : n.phase ≠ .rolledBack) :
    Acts T (save site n) (fun s w' => s = n ∧ Holding active s w') (fun _ => True) w := by
  refine mono (saveRouted_acts hsite hw h.committed h.isActive h.routed ha hp hc hq hphase) hw
    (fun s w' _ hsaved => ⟨hsaved.eq, hsaved.committed, ?_, hsaved.routed h.routed⟩)
    fun _ _ h => h
  rw [hsaved.eq, ha]
  exact h.isActive

theorem startWindow_acts (h : Holding active state w) (hphase : state.phase ≠ .rolledBack) :
    Acts T (startWindow state) (Holding active) (fun _ => True) w := by
  unfold startWindow
  split
  · exact h
  · refine take trivial (fun _ _ _ => trivial) fun now w₁ hon₁ hw₁ => ?_
    exact mono (saveHolding_acts (.inr (.inr rfl)) hw₁ (h.onward hon₁) rfl rfl rfl rfl
      hphase) hw₁ (fun _ _ _ h => h.2) fun _ _ h => h

theorem monitor_acts (hw : Lives T w)
    (h : Holding active state w) (hphase : state.phase ≠ .rolledBack) :
    Acts T (monitor strategy state) Committed (fun _ => True) w := by
  unfold monitor
  refine bind (startWindow_acts h hphase) hw (fun s w₁ hw₁ h₁ => ?_) fun _ _ h => h
  refine bind (secondsSinceCutover_acts (E := fun _ => True)) hw₁
    (fun elapsed w₂ hw₂ hon₂ => ?_) fun _ _ h => h
  have h₂ := h₁.onward hon₂
  split
  · have hstop : Acts T (terminatePrevious s.previous) (fun _ w' => Onward T w₂ w')
        (fun _ => True) w₂ := by
      unfold terminatePrevious
      split
      · exact refl w₂
      · next previous hprevious =>
        refine act trivial (fun w₃ hon₃ _ => ?_) fun _ _ hon _ => hon
        have h₃ := h₂.onward hon₃
        exact ⟨h₃.committed.previous.trans hprevious, active,
          h₃.committed.active.trans h₃.isActive, h₃.routed⟩
    refine bind hstop hw₂ (fun _ w₃ hw₃ hon₃ => ?_) fun _ _ h => h
    have h₃ := h₂.onward hon₃
    refine mono (save_acts .committed ?_ ?_) hw₃
      (fun s _ _ h => h.committed) fun _ _ h => h
    · intro q hq
      simp only [mem_slots, reduceCtorEq, or_false] at hq
      exact h₃.committed.launched hw₃ rfl rfl rfl q (by simp; tauto)
    · exact ⟨h₃.committed.active.symm, rfl, h₃.committed.candidate.symm, by simp,
        h₃.committed.quarantined.symm, active, h₃.committed.active.trans h₃.isActive, h₃.routed⟩
  · exact h₂.committed

theorem cutoverOrNow_acts : Acts T (cutoverOrNow state) (fun _ w' => Onward T w w') E w := by
  unfold cutoverOrNow
  split
  · exact refl w
  · exact act trivial (fun _ _ _ => trivial) fun _ _ hon _ => hon

theorem recordRouted_acts (hw : Lives T w) (h : Holding active state w) :
    Acts T (recordRouted active state) (Holding active) (fun _ => True) w := by
  unfold recordRouted
  split
  · refine bind (cutoverOrNow_acts (E := fun _ => True)) hw
      (fun cutover w₁ hw₁ hon₁ => ?_) fun _ _ h => h
    exact mono (saveHolding_acts (.inl rfl) hw₁ (h.onward hon₁) rfl rfl rfl rfl (by simp))
      hw₁ (fun _ _ _ h => h.2) fun _ _ h => h
  · exact h

theorem holdActive_acts (hw : Lives T w) (h : Holding active state w) :
    Acts T (holdActive strategy active state) Committed (fun _ => True) w := by
  have hdrain : Acts T (do
      let state ← recordRouted active state
      let elapsed ← secondsSinceCutover state
      if elapsed < strategy.drainTimeoutSeconds then pure state
      else do
        let state ← save .monitoring { state with
          phase := .monitoring
          detail := "previous release drained and retained for rollback window" }
        monitor strategy state) Committed (fun _ => True) w := by
    refine bind (recordRouted_acts hw h) hw (fun s w₁ hw₁ h₁ => ?_) fun _ _ h => h
    refine bind (secondsSinceCutover_acts (E := fun _ => True)) hw₁
      (fun elapsed w₂ hw₂ hon₂ => ?_) fun _ _ h => h
    have h₂ := h₁.onward hon₂
    split
    · exact h₂.committed
    · refine bind (saveHolding_acts (.inr (.inl rfl)) hw₂ h₂ rfl rfl rfl rfl (by simp))
        hw₂ (fun s w₃ hw₃ h₃ => ?_) fun _ _ h => h
      exact monitor_acts hw₃ h₃.2 (by rw [h₃.1]; simp)
  unfold holdActive
  split
  · next hphase => exact monitor_acts hw h (by rw [hphase]; simp)
  · exact h.committed
  · exact hdrain

/-! ## One pass -/

theorem followDesired_acts (hw : Lives T w) (hsame : Committed state w)
    (hq : state.quarantined.containsKey artifact.artifactSha256 = false) :
    Acts T (followDesired L T pass desired artifact state) Committed (fun _ => True) w := by
  unfold followDesired
  split
  · next active hactive =>
    rw [filter_eq_some_iff] at hactive
    refine bind (routeActive_acts .unanswered trivial hw hsame hactive.1) hw
      (fun turn w₁ hw₁ hturn => ?_) fun _ _ h => h
    cases turn with
    | ended s => exact hturn
    | goesOn s =>
      exact holdActive_acts hw₁ ⟨hturn.1, hturn.2.1.active.trans hactive.1, hturn.2.2⟩
  · next hactive =>
    split
    · exact advanceCandidate_acts hsame
    · refine bind (causeHold_acts (E := fun _ => True)) hw
        (fun hold w₁ hw₁ hon₁ => ?_) fun _ _ h => h
      cases hold with
      | some hold =>
        exact mono (savePlain_acts .held trivial hw₁ (hon₁.committed hsame)
          ⟨rfl, rfl, rfl, rfl, .inr (by simp)⟩) hw₁ (fun s _ _ h => h.committed)
          fun _ _ h => h
      | none =>
        refine promoteCandidate_acts hw₁ (hon₁.committed hsame) hq fun a ha heq => ?_
        rw [ha, filter_some, heq] at hactive
        simp at hactive

theorem judgeQuarantine_acts (hw : Lives T w) (hsame : Committed state w) :
    Acts T (judgeQuarantine L T digest state)
      (fun turn w' => match turn with
        | .ended s => Committed s w'
        | .goesOn s => Committed s w' ∧ s.quarantined.containsKey digest = false)
      (fun _ => True) w := by
  unfold judgeQuarantine
  refine bind retireHostCausedQuarantine_acts hw (fun judged w₁ hw₁ hjudged => ?_)
    fun _ _ h => h
  obtain ⟨verdict, judged⟩ := judged
  obtain ⟨hon₁, heq⟩ := hjudged
  have hcommitted := hon₁.committed hsame
  simp only at heq ⊢
  split
  · next hretire =>
    rw [if_pos hretire] at heq
    subst heq
    refine bind (save_acts .retired ?_ ?_) hw₁ (fun s w₂ _ hsaved => ?_)
      fun _ _ h => h
    · exact hcommitted.launched hw₁ rfl rfl rfl
    · exact ⟨hcommitted.active.symm, hcommitted.previous.symm, hcommitted.candidate.symm,
        hcommitted.phase.symm, digest, by rw [hcommitted.quarantined]⟩
    · refine ⟨hsaved.committed, ?_⟩
      rw [hsaved.eq]
      simp
  · next hretire =>
    rw [if_neg hretire] at heq
    subst heq
    exact bind (savePlain_acts .stillQuarantined trivial hw₁ hcommitted
      ⟨rfl, rfl, rfl, rfl, .inr (by simp)⟩) hw₁ (fun s _ _ h => h.committed) fun _ _ h => h

theorem followQuarantined_acts (hw : Lives T w) (hsame : Committed state w) :
    Acts T (followQuarantined L T pass desired artifact state) Committed (fun _ => True) w := by
  unfold followQuarantined
  refine bind (R := fun turn w' => match turn with
    | .ended s => Committed s w'
    | .goesOn s => Committed s w') (F := fun _ => True) ?_ hw (fun turn w₁ hw₁ hturn => ?_)
    fun _ _ h => h
  · unfold routeIfActive
    split
    · exact hsame
    · next active hactive =>
      refine mono (routeActive_acts .unanswered trivial hw hsame hactive) hw
        (fun turn _ _ hturn => ?_) fun _ _ h => h
      cases turn with
      | ended s => exact hturn
      | goesOn s => exact hturn.1
  · cases turn with
    | ended s => exact hturn
    | goesOn s =>
      refine bind (judgeQuarantine_acts hw₁ hturn) hw₁ (fun turn w₂ hw₂ hturn₂ => ?_)
        fun _ _ h => h
      cases turn with
      | ended s => exact hturn₂
      | goesOn s => exact followDesired_acts hw₂ hturn₂.1 hturn₂.2

theorem reconcileDesired_acts (hw : Lives T w) (hsame : Committed state w) :
    Acts T (reconcileDesired L T pass desired artifact state) Committed (fun _ => True) w := by
  unfold reconcileDesired
  have hgeneration : Committed { state with rolloutGeneration := desired.rolloutGeneration } w :=
    Same.trans hsame ⟨rfl, rfl, rfl, rfl, rfl⟩
  simp only
  split
  · next hrepeats =>
    simp only [repeatsFailedRollout, Bool.and_eq_true, beq_iff_eq, isNone_iff_eq_none]
      at hrepeats
    obtain ⟨⟨⟨hphase, -⟩, hactive⟩, hprevious⟩ := hrepeats
    refine take trivial (fun _ _ _ => trivial) fun now w₁ hon₁ hw₁ => ?_
    have hcommitted := hon₁.committed hgeneration
    refine mono (save_acts .repeatsFailure ?_ ?_) hw₁
      (fun s _ _ h => h.committed) fun _ _ h => h
    · exact hcommitted.launched hw₁ rfl rfl rfl
    · refine ⟨hcommitted.phase.trans hphase, hcommitted.active.trans hactive,
        hcommitted.previous.trans hprevious, hactive, hprevious, hcommitted.candidate.symm,
        by simp, artifact.artifactSha256,
        .new L.toCauses state.detail now, ?_⟩
      rw [hcommitted.quarantined]
  · split
    · exact followQuarantined_acts hw hgeneration
    · next hq => exact followDesired_acts hw hgeneration (by simpa using hq)

theorem loadState_acts :
    Acts T loadState (fun s w' => Onward T w w' ∧ Committed s w') (fun _ => True) w := by
  intro w₁ hm hw₁
  have hon := of_moved (T := T) hm
  refine ⟨trivial, fun c b w₂ hstep _ => ?_⟩
  obtain ⟨rfl, hb⟩ := World.reads_eq (w := w₁) (b := w₁.doc) hstep
  cases b with
  | error why => trivial
  | ok doc =>
    obtain rfl := hb doc rfl
    exact ⟨hon, Same.refl _⟩

theorem reconcileProduct_acts : Acts T (reconcileProduct L T pass) Committed (fun _ => True) w := by
  unfold reconcileProduct
  refine tries trivial (fun _ _ _ => trivial) (fun _ _ => trivial) fun _ w₁ hon₁ hw₁ => ?_
  refine bind loadState_acts hw₁ (fun s w₂ hw₂ h₂ => ?_) fun _ _ h => h
  refine bind (reconcileStableProxy_acts h₂.2) hw₂ (fun s w₃ hw₃ h₃ => ?_) fun _ _ h => h
  refine bind (sweepLeakedProcesses_acts (E := fun _ => True) h₃.1) hw₃
    (fun _ w₄ hw₄ hon₄ => ?_) fun _ _ h => h
  have hcommitted := hon₄.committed h₃.1
  split
  · exact mono (savePlain_acts .idle trivial hw₄ hcommitted
      ⟨rfl, rfl, rfl, rfl, .inr (by simp)⟩) hw₄ (fun s _ _ h => h.committed) fun _ _ h => h
  · split
    · trivial
    · exact reconcileDesired_acts hw₄ hcommitted

theorem outcome_acts {result : Except String HostReleaseState} (hw : Lives T w)
    (h : match result with | .ok s => Committed s w | .error _ => True) :
    Acts T (outcome result) Committed (fun _ => True) w := by
  cases result with
  | ok s => exact h
  | error reason =>
    refine bind loadState_acts hw (fun s w₁ hw₁ h₁ => ?_) fun _ _ h => h
    exact mono (savePlain_acts .passFailed trivial hw₁ h₁.2
      ⟨rfl, rfl, rfl, rfl, .inr (by simp)⟩) hw₁ (fun s _ _ h => h.committed) fun _ _ h => h

theorem publish_acts (hsame : Committed state w) :
    Acts T (publish state) (fun _ _ => True) (fun _ => True) w := by
  refine take trivial (fun _ _ _ => trivial) fun answer w₁ hon₁ hw₁ => ?_
  cases answer with
  | ok _ => trivial
  | error error =>
    exact bind (savePlain_acts .publishFailed trivial hw₁
      (hon₁.committed hsame) ⟨rfl, rfl, rfl, rfl, .inl rfl⟩) hw₁ (fun _ _ _ _ => trivial)
      fun _ _ h => h

/-- **A pass follows the rules**, whatever the host answers, whatever moves
around it and wherever it ends. -/
theorem reconcileOnce_acts (pass : Pass) (hw : Lives T w) :
    Acts T (reconcileOnce L T pass) (fun _ _ => True) (fun _ => True) w := by
  unfold reconcileOnce
  refine bind (Does.attempt reconcileProduct_acts) hw (fun result w₁ hw₁ h₁ => ?_)
    fun _ _ h => h
  refine bind (outcome_acts hw₁ ?_) hw₁ (fun s w₂ _ h₂ => publish_acts h₂) fun _ _ h => h
  cases result with
  | ok s => exact h₁
  | error reason => trivial

end Stado.Rollout
