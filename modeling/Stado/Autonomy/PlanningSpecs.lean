import Stado.Autonomy.MutationSpecs
import Stado.Autonomy.Planning

/-!
# What planning promises

A pass writes a placement only with a lease that is its own, and gives back no lease
but its own. Renewals and releases by token change only the lease that has the token.
-/

namespace Stado.Autonomy

open CasStore Crew Solo Routine Only Does

variable {g : Regime} {C : Terms} {i : ℕ} {subject token : String} {w : World}
  {lease : PlacementLease} {site : Site} {v : ℕ} {ttl : Option ℕ}

def World.active (w : World) (subject token : String) : Prop :=
  ∃ v lease, w.wrote v subject lease ∧ lease.token = token ∧ ¬ lease.over w ∧
    ∀ v' newer, w.wrote v' subject newer → newer.token = token → v' ≤ v

theorem World.active.stands (hw : LivedIn g C w) (h : w.active subject token) :
    ∃ v lease, w.store.get (.lease subject) = some (.lease lease, v) ∧ lease.token = token := by
  obtain ⟨v, lease, hwrote, rfl, hover, hnewest⟩ := h
  have hsettled := (tidy hw).settled v subject lease hwrote
  rcases hsettled with hended | hget | ⟨v', newer, hlt, hnewer, htoken⟩
  · exact absurd hended hover
  · exact ⟨v, lease, hget, rfl⟩
  · have hle := hnewest v' newer hnewer htoken
    omega

theorem active_unique {subject token token' : String} (hw : LivedIn g C w)
    (h : w.active subject token) (h' : w.active subject token') : token = token' := by
  obtain ⟨v, lease, hget, rfl⟩ := h.stands hw
  obtain ⟨v', lease', hget', rfl⟩ := h'.stands hw
  rw [hget] at hget'
  cases hget'
  rfl

/-- What a renewal or a release found at the path it wrote. -/
def Yielded (site : Site) (prior : PlacementLease) : Prop :=
  match site with
  | .renew token => prior.token = token
  | .free token => prior.token = token
  | .exact released => prior.token = released.token ∧ prior ≠ released
  | _ => True

def Site.yields : Site → Bool
  | .renew _ | .free _ | .exact _ => true
  | _ => false

theorem yielded_of_permits {p : Path} {c : Option Contents}
    (h : w.permits g i site p c) (hsite : site.yields = true) :
    ∃ subject prior v, p = .lease subject ∧ w.store.get p = some (.lease prior, v) ∧
      Yielded site prior := by
  cases site with
  | renew token =>
    obtain ⟨subject, prior, v, expires, process, rfl, hget, htoken, -⟩ := h
    exact ⟨subject, prior, v, rfl, hget, htoken⟩
  | free token =>
    obtain ⟨subject, prior, v, t, rfl, hget, htoken, -⟩ := h
    exact ⟨subject, prior, v, rfl, hget, htoken⟩
  | exact released =>
    obtain ⟨prior, v, rfl, hget, htoken, hne, -⟩ := h
    exact ⟨_, prior, v, rfl, hget, htoken, hne⟩
  | _ => cases hsite

/-- Every renewal and release changed a lease of the token it was asked for. -/
theorem yielded (h : LivedIn g C w) {e : AutonomyEntry} {older : AutonomyStore}
    (hsuffix : (e :: older) <:+ w.store) (hsite : e.site.yields = true) :
    ∃ subject prior v, e.path = .lease subject ∧ older.get e.path = some (.lease prior, v) ∧
      Yielded e.site prior := by
  refine h.invariant (I := fun w => ∀ (e : AutonomyEntry) (older : AutonomyStore),
    (e :: older) <:+ w.store → e.site.yields = true →
    ∃ subject prior v, e.path = .lease subject ∧ older.get e.path = some (.lease prior, v) ∧
      Yielded e.site prior)
    (fun w hbegins e older hsuffix => ?_) (fun {who w w'} _ hw hstep e older hsuffix hsite => ?_)
    e older hsuffix hsite
  · rw [hbegins.1, List.suffix_nil] at hsuffix
    cases hsuffix
  · have hchanged := changed_of_step hstep
    cases hchanged with
    | @wrote k _ site p c ok =>
      rcases List.suffix_cons_iff.mp hsuffix with heq | hsuffix
      · obtain ⟨rfl, rfl⟩ := List.cons.inj heq
        exact yielded_of_permits ok hsite
      · exact hw e older hsuffix hsite
    | queued =>
      rcases List.suffix_cons_iff.mp hsuffix with heq | hsuffix
      · obtain ⟨rfl, rfl⟩ := List.cons.inj heq
        cases hsite
      · exact hw e older hsuffix hsite
    | _ => exact hw e older hsuffix hsite

/-! ## Renewals and releases by token -/

/-- What a lease that was read is, at its version. -/
def Found (subject : String) (found : Option (Contents × ℕ)) (w : World) : Prop :=
  ∀ c v, found = some (c, v) → ∃ prior, c = .lease prior ∧ w.wrote v subject prior

theorem right_readLease (hw : LivedIn g C w) :
    Right g C i (tries (.read site (.lease subject)))
      (fun found w => Found subject found w) (fun _ => True) w := by
  refine tries (.const True) hw trivial
    fun w₁ c b w₂ hw₁ _ hperform _ => ⟨allowed_read, fun _ => ?_⟩
  obtain ⟨hdone, hb, -, -⟩ := perform_read hperform
  rcases hb with rfl | rfl
  · intro content v hget
    obtain ⟨prior, rfl⟩ := (tidy hw₁).standing subject content v hget
    have hwrote := wrote_of_get hget
    simp only [World.wrote, hdone.store] at hwrote ⊢
    exact ⟨prior, rfl, hwrote⟩
  · trivial

/-- A swap that may be made at the version that was read. -/
theorem right_swapLease {prior new : PlacementLease} (hw : LivedIn g C w)
    (hwrote : w.wrote v subject prior)
    (hok : ∀ w c, C.act i (.swap site (.lease subject) v (.lease new)) c w →
      w.store.get (.lease subject) = some (.lease prior, v) →
        w.permits g i site (.lease subject) (some (.lease new))) :
    Right g C i (tries (.swap site (.lease subject) v (.lease new))) (fun _ _ => True)
      (fun _ => True) w := by
  refine tries knows_wrote hw hwrote
    fun w₁ c b w₂ hw₁ hold hperform hcond => ⟨allowed_swap fun old hget => ?_, fun _ => ?_⟩
  · obtain rfl := lease_of_version hw₁ hold hget
    exact hok w₁ c hcond hget
  · cases b <;> trivial

theorem right_renew (hnone : g.reserved = none) {asked : ℕ} (hw : LivedIn g C w) :
    Right g C i (renewPlacementLease subject token ttl asked) (fun _ _ => True) (fun _ => True)
      w := by
  refine .bind (right_readLease hw) hw (fun found w hw hfound => ?_) fun _ _ _ => trivial
  match found with
  | none => exact .pure trivial
  | some (c, version) =>
  obtain ⟨prior, rfl, hwrote⟩ := hfound c version rfl
  by_cases htoken : prior.token = token
  · simp only [ne_eq, htoken, not_true, if_false]
    refine .bind (right_orFail (Q := fun _ w => w.wrote version subject prior) (E := fun _ => True)
      (fun _ _ => hwrote) fun _ _ => trivial) hw (fun expires w hw hwrote => ?_) fun _ _ _ => trivial
    refine .bind (take knows_wrote hw hwrote (Q := fun _ w => w.wrote version subject prior)
      (E := fun _ => True)
      fun w₁ c process w₂ hw₁ hold hperform _ => ⟨allowed_process, fun _ => ?_⟩) hw
      (fun process w hw hwrote => ?_) fun _ _ _ => trivial
    · rw [perform_process hperform]
      exact hold
    refine .bind (right_swapLease hw hwrote fun w₁ c hcond hget => ?_) hw
      (fun answer w _ _ => ?_) fun _ _ _ => trivial
    · exact ⟨subject, prior, version, expires, process, rfl, hget, htoken, by simp [hnone],
        by rw [htoken]⟩
    · cases answer with
      | stored v => exact .pure trivial
      | conflict => exact .pure trivial
      | notFound => exact .fail trivial
  · simp only [ne_eq, htoken, not_false_eq_true, if_true]
    exact .pure trivial

theorem right_free (hnone : g.reserved = none) (hw : LivedIn g C w) :
    Right g C i (releasePlacementLease subject token) (fun _ _ => True) (fun _ => True) w := by
  refine .bind (right_readLease hw) hw (fun found w hw hfound => ?_) fun _ _ _ => trivial
  match found with
  | none => exact .pure trivial
  | some (c, version) =>
  obtain ⟨prior, rfl, hwrote⟩ := hfound c version rfl
  by_cases htoken : prior.token = token
  · simp only [ne_eq, htoken, not_true, if_false]
    refine .bind (take knows_wrote hw hwrote (Q := fun _ w => w.wrote version subject prior)
      (E := fun _ => True)
      fun w₁ c t w₂ hw₁ hold hperform _ => ⟨allowed_now, fun _ => ?_⟩) hw
      (fun t w hw hwrote => ?_) fun _ _ _ => trivial
    · rw [(perform_now hperform).2]
      exact hold
    refine .bind (right_swapLease hw hwrote fun w₁ c hcond hget => ?_) hw
      (fun answer w _ _ => ?_) fun _ _ _ => trivial
    · exact ⟨subject, prior, version, t, rfl, hget, htoken, by simp [hnone],
        by rw [htoken]⟩
    · cases answer with
      | stored v => exact .pure trivial
      | conflict => exact .pure trivial
      | notFound => exact .fail trivial
  · simp only [ne_eq, htoken, not_false_eq_true, if_true]
    exact .pure trivial

theorem right_exact (hnone : g.reserved = none) {owned released : PlacementLease}
    (hw : LivedIn g C w) :
    Right g C i (releasePlacementLeaseExact owned released) (fun _ _ => True) (fun _ => True)
      w := by
  unfold releasePlacementLeaseExact
  split
  · exact .fail trivial
  next hsame =>
  obtain ⟨hsubject, -, htoken, hholder, -⟩ : released.subjectId = owned.subjectId ∧
      released.decisionId = owned.decisionId ∧ released.token = owned.token ∧
      released.holder = owned.holder ∧ released.acquiredAt = owned.acquiredAt := by
    simpa only [not_or, ne_eq, not_not] using hsame
  refine .bind (right_readLease hw) hw (fun found w hw hfound => ?_) fun _ _ _ => trivial
  match found with
  | none => exact .pure trivial
  | some (c, version) =>
  obtain ⟨current, rfl, hwrote⟩ := hfound c version rfl
  simp only
  split
  · exact .pure trivial
  next hne =>
  split
  · exact .pure trivial
  next hcurrent =>
  refine .bind (right_swapLease hw hwrote fun w₁ c hcond hget => ?_) hw
    (fun answer w _ _ => ?_) fun _ _ _ => trivial
  · have htokens : current.token = released.token := (not_not.mp hcurrent).trans htoken.symm
    exact ⟨current, version, congrArg Path.lease hsubject.symm, hget, htokens, hne,
      by simp [hnone], by simp [hnone], rfl⟩
  · cases answer with
    | stored v => exact .pure trivial
    | _ => exact .fail trivial

/-! ## Placing a job -/

/-- Nothing removes a lease that was written from the history. -/
theorem spares_wrote {β : Type} (a : Act β) :
    Spares setting i (fun w => w.wrote v subject lease) a := by
  intro choice w b w' hwrote hperform
  have hcall : ∀ {β : Type} {site : Site} {c : Call Path Contents β} {b : Except StorageError β},
      w.call i site c choice = some (b, w') → w'.wrote v subject lease := by
    intro β site c b hcall
    rcases World.call_cases hcall with rfl | ⟨p, content, -, rfl⟩
    · exact hwrote
    · exact wrote_cons.mpr (.inr hwrote)
  cases a with
  | begin operation lease =>
    rw [perform_begin hperform]
    exact hwrote
  | finish operation =>
    rw [perform_finish hperform]
    exact hwrote
  | create site p c => exact hcall hperform
  | swap site p version c => exact hcall hperform
  | put site p c => exact hcall hperform
  | delete site p => exact hcall hperform
  | _ =>
    obtain ⟨e, hheld, hpath, hcontent⟩ := hwrote
    exact ⟨e, hheld.mono (setAside hperform trivial).past, hpath, hcontent⟩

def Placing (subject : String) (lease : PlacementLease) {β : Type} (a : Act β) : Prop :=
  match a with
  | .swap site p _ c => site = .placement lease ∧ p = .job subject ∧ ∃ job, c = .job job
  | .create site p c => (site = .decisionWrite ∧ (∃ id, p = .decision id) ∧ c = .decision) ∨
      (site = .savingsWrite ∧ (∃ id, p = .savings id) ∧ c = .savings)
  | .read _ _ | .exist _ _ | .touch _ _ | .recover _ | .uuid | .looping => True
  | _ => False

theorem allowed_placing {β : Type} {a : Act β} (ha : Placing subject lease a)
    (hwrote : w.wrote v subject lease) : (rules g).allowed i a w := by
  cases a with
  | swap site p version c =>
    obtain ⟨rfl, rfl, job, rfl⟩ := ha
    exact allowed_swap fun _ _ => ⟨subject, job, v, rfl, rfl, hwrote⟩
  | create site p c =>
    rcases ha with ⟨rfl, hp, rfl⟩ | ⟨rfl, hp, rfl⟩
    · exact allowed_create fun _ => ⟨hp, rfl⟩
    · exact allowed_create fun _ => ⟨hp, rfl⟩
  | uuid => exact allowed_uuid
  | read site p => exact allowed_read
  | exist site p =>
    intro site' p' c' hwrites
    cases hwrites
  | touch site p =>
    intro site' p' c' hwrites
    cases hwrites
  | recover jobId =>
    intro site' p' c' hwrites
    cases hwrites
  | looping =>
    intro site' p' c' hwrites
    cases hwrites
  | _ => exact ha.elim

/-- A routine that only places the job of a subject may do so under a lease that was
written for it. -/
theorem right_placing {α : Type} {p : Autonomous α} (hp : ∀ {R : {β : Type} → Act β → Prop},
      (∀ {β : Type} (a : Act β), Placing subject lease a → R a) → p.Only R) (hw : LivedIn g C w)
    (hwrote : w.wrote v subject lease) :
    Right g C i p (fun _ w => w.wrote v subject lease) (fun w => w.wrote v subject lease) w :=
  keeping knows_wrote hw hwrote (only_of_forall spares_wrote p)
    (hp fun _ ha _ _ _ hold _ => allowed_placing ha hold)

section Only

variable {R : {β : Type} → Act β → Prop} {subject : String} {lease : PlacementLease}

theorem only_rewriteQueuedPlacement (placement : Placement) (fuel : ℕ)
    (hR : ∀ {β : Type} (a : Act β), Placing subject lease a → R a) :
    (rewriteQueuedPlacement lease placement subject fuel).Only R := by
  induction fuel with
  | zero => exact ⟨hR _ trivial, fun never => nomatch never⟩
  | succ fuel ih =>
    refine bind (only_tries (hR _ trivial)) fun found => ?_
    split
    · trivial
    · split
      · trivial
      · refine bind (only_tries (hR _ ⟨rfl, rfl, _, rfl⟩)) fun answer => ?_
        split
        · exact ih
        · trivial
        · refine bind (only_tries (hR _ trivial)) fun there => ?_
          split
          · refine bind (only_tries (hR _ trivial)) fun _ =>
              bind (only_tries (hR _ trivial)) fun there => ?_
            split <;> trivial
          · trivial
    · trivial

theorem only_updateJobPlacement (fuel : ℕ) (selected : PlacementCandidate)
    (hR : ∀ {β : Type} (a : Act β), Placing subject lease a → R a) :
    (updateJobPlacement fuel lease subject selected).Only R := by
  refine bind (only_tries (hR _ trivial)) fun found => ?_
  split
  · trivial
  · split
    · trivial
    split
    · trivial
    split
    · trivial
    · exact bind (only_tries (hR _ trivial)) fun _ =>
        only_rewriteQueuedPlacement _ fuel hR
  · trivial

theorem only_writeDecision (decision : String)
    (hR : ∀ {β : Type} (a : Act β), Placing subject lease a → R a) :
    (writeDecision decision).Only R := by
  refine bind (only_tries (hR _ (.inl ⟨rfl, ⟨_, rfl⟩, rfl⟩))) fun created => ?_
  split <;> trivial

theorem only_persistPredictedSavings (selected : PlacementCandidate)
    (candidates : List PlacementCandidate)
    (hR : ∀ {β : Type} (a : Act β), Placing subject lease a → R a) :
    (persistPredictedSavings selected candidates).Only R := by
  unfold persistPredictedSavings
  split
  · split
    · trivial
    · refine bind (only_take (hR _ trivial)) fun savings =>
        bind (only_tries (hR _ (.inr ⟨rfl, ⟨_, rfl⟩, rfl⟩))) fun created => ?_
      split <;> trivial
  · trivial

end Only

/-! ## A job of a pass -/

variable {w : World} {decision : String}

theorem right_giveBack {α : Type} (hnone : g.reserved = none) {jobId : String}
    {error : StorageError} {Q : α → World → Prop} (hw : LivedIn g C w) :
    Right g C i (giveBack jobId lease error) Q (fun _ => True) w :=
  .bind (right_free hnone hw).attempt hw (fun _ _ _ _ => .fail trivial) fun _ _ h => h

theorem right_carryOut (hnone : g.reserved = none) {fuel v : ℕ} {job : PlanJob}
    {selected : PlacementCandidate} {candidates : List PlacementCandidate} (hw : LivedIn g C w)
    (hwrote : w.wrote v job.jobId lease) :
    Right g C i (carryOut fuel decision lease job selected candidates) (fun _ _ => True)
      (fun _ => True) w := by
  refine .bind (right_placing (only_writeDecision decision) hw hwrote).attempt hw
    (fun r w hw hwrote => ?_) fun _ _ h => h
  cases r with
  | error e => exact right_giveBack hnone hw
  | ok _ =>
  refine .bind (right_placing (only_updateJobPlacement fuel selected) hw hwrote).attempt hw
    (fun r w hw hwrote => ?_) fun _ _ h => h
  cases r with
  | error e => exact right_giveBack hnone hw
  | ok placed =>
  cases placed with
  | changed =>
    exact .bind (right_placing (only_persistPredictedSavings selected candidates) hw
      hwrote).attempt hw (fun _ _ _ _ => .pure trivial) fun _ _ h => h
  | _ => exact .pure trivial

theorem right_persistUnplacedDecision {policy : PlacementPolicy} (hw : LivedIn g C w) :
    Right g C i (persistUnplacedDecision policy) (fun _ _ => True) (fun _ => True) w := by
  refine keeping (.const True) hw trivial
    (only_of_forall (fun _ _ _ _ _ _ _ => trivial) _) ?_
  refine bind (only_take fun _ _ _ _ _ => allowed_now) fun now =>
    bind ?_ fun _ =>
      bind (only_take fun _ _ _ _ _ => allowed_uuid) fun decision =>
        bind (only_tries fun _ _ _ _ _ => allowed_create fun _ =>
          ⟨⟨_, rfl⟩, rfl⟩) fun created => ?_
  · cases expiresAt now policy.decisionTtlSeconds "limits.decision_ttl_seconds" <;> trivial
  · split <;> trivial

theorem acquiring_of_none (hnone : g.reserved = none) {holder : String} {asked : ℕ}
    (hasked : asked ≤ w.clock) : Acquiring g i decision holder asked w := by
  refine ⟨hasked, fun hres => ?_⟩
  rw [hnone] at hres
  cases hres

theorem right_acquireNow (hnone : g.reserved = none) {subject holder : String} (hw : LivedIn g C w) :
    Right g C i (do
        let now ← .take (.now .clock)
        acquirePlacementLease subject decision holder ttl now)
      (fun r w => Granted subject r w) (fun _ => True) w := by
  refine .bind (take (.const True) hw trivial
    (Q := fun asked w => Acquiring g i decision holder asked w) (E := fun _ => True)
    fun w₁ c asked w₂ hw₁ _ hperform _ => ⟨allowed_now, fun hw₂ => ?_⟩) hw
    (fun asked w hw hknown => ?_) fun _ _ h => h
  · obtain ⟨rfl, rfl⟩ := perform_now hperform
    exact acquiring_of_none hnone (Nat.le_refl _)
  · exact (right_acquire hw hknown).mono hw (fun _ _ _ hr => hr.1) fun _ _ h => h

theorem right_planJob (hnone : g.reserved = none) (fuel : ℕ) (market : Market) (pass : Pass)
    (job : PlanJob) (hw : LivedIn g C w) :
    Right g C i (planJob fuel market pass job) (fun _ _ => True) (fun _ => True) w := by
  unfold planJob
  split
  · exact .pure trivial
  simp only
  split
  · exact .bind (right_persistUnplacedDecision hw) hw (fun _ _ _ _ => .pure trivial) fun _ _ h => h
  next selected offer _ =>
  refine .bind (take (.const True) hw trivial (Q := fun _ _ => True) (E := fun _ => True)
    fun _ _ _ _ _ _ _ _ => ⟨allowed_uuid, fun _ => trivial⟩) hw
    (fun decision w hw _ => ?_) fun _ _ h => h
  refine .bind (take (.const True) hw trivial
    (Q := fun asked w => Acquiring g i decision "coordinator-placement" asked w)
    (E := fun _ => True)
    fun w₁ c asked w₂ hw₁ _ hperform _ => ⟨allowed_now, fun hw₂ => ?_⟩) hw
    (fun asked w hw hknown => ?_) fun _ _ h => h
  · obtain ⟨rfl, rfl⟩ := perform_now hperform
    exact acquiring_of_none hnone (Nat.le_refl _)
  refine .bind (right_acquire hw hknown) hw (fun r w hw hr => ?_) fun _ _ h => h
  cases r with
  | none => exact .pure trivial
  | some lease =>
    obtain ⟨v, hwrote⟩ := hr.1 lease rfl
    exact .bind (right_carryOut hnone hw hwrote) hw (fun _ _ _ _ => .pure trivial) fun _ _ h => h

/-- A pass places jobs with leases it acquired for them only. -/
theorem right_planQueued (hnone : g.reserved = none) (fuel : ℕ) (market : Market)
    (offers : List CapacityOffer) (budget : CloudBudget) (queued : List PlanJob)
    (hw : LivedIn g C w) :
    Right g C i (planQueued fuel market offers budget queued) (fun _ _ => True) (fun _ => True)
      w := by
  have hfold : ∀ (jobs : List PlanJob) (pass : Pass) (w : World), LivedIn g C w →
      Right g C i (jobs.foldlM (planJob fuel market) pass) (fun _ _ => True) (fun _ => True) w := by
    intro jobs
    induction jobs with
    | nil => exact fun _ _ _ => .pure trivial
    | cons job rest ih =>
      intro pass w hw
      exact .bind (right_planJob hnone fuel market pass job hw) hw
        (fun pass w hw _ => ih pass w hw) fun _ _ h => h
  unfold planQueued
  simp only
  split
  · exact .pure trivial
  · exact hfold _ _ w hw

end Stado.Autonomy
