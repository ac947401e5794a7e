import Stado.Autonomy.Mutations

/-!
# What a coordinator may do

The writes a coordinator may make in a world, by the statement that makes them,
and what one step can change. `reserved` is the holder, if any, whose leases belong
to decisions that their coordinator drew itself.
-/

namespace Stado.Autonomy

open CasStore World

/-- The policy a group of coordinators runs under, with the holder of its leases. -/
structure Regime where
  reserved : Option String
  limits : SafetyLimits

/-! ## What a world shows -/

/-- Coordinator `i` drew `id`. -/
def World.drew (w : World) (i : ℕ) (id : String) : Prop := (id, i) ∈ w.drawn

/-- The lease holds nothing any more, and never will. -/
def PlacementLease.over (lease : PlacementLease) (w : World) : Prop :=
  match lease.expiresAt with
  | some (.instant expires) => expires ≤ w.clock
  | some (.unreadable _) => True
  | none => lease.holderProcess = ProcessOwner.default ∨ lease.holderProcess ∈ w.gone

/-- The lease was written as write `v`. -/
def World.wrote (w : World) (v : ℕ) (subject : String) (lease : PlacementLease) : Prop :=
  ∃ e, w.store.Held v e ∧ e.path = .lease subject ∧ e.content = some (.lease lease)

/-- The lease was written, and nothing newer has its token, or its holder and
decision. -/
def World.sole (w : World) (lease : PlacementLease) : Prop :=
  ∃ v, w.wrote v lease.subjectId lease ∧ ∀ v' subject newer, w.wrote v' subject newer →
    newer.token = lease.token ∨
      (newer.holder = lease.holder ∧ newer.decisionId = lease.decisionId) → v' ≤ v

/-- The lease is coordinator `i`'s own, and nothing newer is written for it. -/
structure World.Own (g : Regime) (w : World) (i : ℕ) (lease : PlacementLease) : Prop where
  holder : some lease.holder = g.reserved
  token : w.drew i lease.token
  decision : w.drew i lease.decisionId
  sole : w.sole lease

def controlIn (l : AutonomyStore) : ControlState :=
  match l.get .control with
  | some (.control state, _) => state
  | _ => ControlState.default 0

/-- The marker at `p`, written as write `v`, is one that coordinator `i` created. -/
def World.holds (w : World) (i : ℕ) (p : Path) (v : ℕ) : Prop :=
  (∃ resource kind occurrence, p = .marker resource kind occurrence) ∧
    ∃ c e, w.store.get p = some (c, v) ∧ w.store.Held v e ∧ e.site = .markerCreate ∧ e.author = i

/-- The plan of `operation` is for the occurrence of the marker at `p`. -/
def World.plannedFor (w : World) (operation : String) (p : Path) : Prop :=
  ∃ v, w.store.get (.plan operation) = some (.plan p, v)

def Execution.live (e : Execution) : Prop := e.ended = none ∨ e.ended = some .succeeded

/-- No execution for the marker at `p` is under way or has succeeded. -/
def World.idle (w : World) (p : Path) : Prop :=
  ∀ e ∈ w.executions, w.plannedFor e.operation p → ¬ e.live

/-! ## Permitted writes -/

/-- Coordinator `i` may be granted this new lease. -/
def World.mayGrant (reserved : Option String) (w : World) (i : ℕ) (lease : PlacementLease) : Prop :=
  w.drew i lease.token ∧ (∀ v subject older, w.wrote v subject older → older.token ≠ lease.token) ∧
    (some lease.holder = reserved → w.drew i lease.decisionId)

def SafetyLimits.cooldown (limits : SafetyLimits) : ℕ :=
  limits.circuitBreakerCooldownSeconds * nanosPerSecond

/-- Coordinator `i` may write `c` to `p` at `site`, where `none` removes. -/
def World.permits (g : Regime) (w : World) (i : ℕ) (site : Site) (p : Path)
    (c : Option Contents) : Prop :=
  match site with
  | .acquireCreate =>
    ∃ lease, p = .lease lease.subjectId ∧ c = some (.lease lease) ∧
      w.mayGrant g.reserved i lease ∧ w.store.get p = none
  | .acquireSwap =>
    ∃ lease prior v, p = .lease lease.subjectId ∧ c = some (.lease lease) ∧
      w.mayGrant g.reserved i lease ∧ w.store.get p = some (.lease prior, v) ∧ prior.over w
  | .renew token =>
    ∃ subject prior v expires process, p = .lease subject ∧
      w.store.get p = some (.lease prior, v) ∧ prior.token = token ∧
      some prior.holder ≠ g.reserved ∧
      c = some (.lease { prior with expiresAt := expires, holderProcess := process })
  | .free token =>
    ∃ subject prior v t, p = .lease subject ∧ w.store.get p = some (.lease prior, v) ∧
      prior.token = token ∧ some prior.holder ≠ g.reserved ∧
      c = some (.lease { prior with expiresAt := some (.instant t) })
  | .exact released =>
    ∃ prior v, p = .lease released.subjectId ∧ w.store.get p = some (.lease prior, v) ∧
      prior.token = released.token ∧ prior ≠ released ∧ some prior.holder ≠ g.reserved ∧
      some released.holder ≠ g.reserved ∧ c = some (.lease released)
  | .ownRelease decision =>
    ∃ subject prior v t, p = .lease subject ∧ w.store.get p = some (.lease prior, v) ∧
      prior.decisionId = decision ∧ w.drew i prior.token ∧
      (∀ e ∈ w.executions, e.operation = decision → e.ended ≠ none) ∧
      c = some (.lease { prior with expiresAt := some (.instant t) })
  | .setControl =>
    p = .control ∧ ∃ paused reason t actor, c = some (.control { controlIn w.store with
      emergencyPaused := paused, reason := reason, changedAt := t, changedBy := actor })
  | .record operation outcome =>
    p = .control ∧ w.drew i operation ∧ ∃ t ≤ w.clock, c = some (.control
      ((controlIn w.store).recorded outcome g.limits.circuitBreakerFailures t
        (t + g.limits.cooldown)))
  | .markerCreate =>
    ∃ resource kind occurrence t, p = .marker resource kind occurrence ∧
      w.store.get p = none ∧ occurrence ≤ t ∧ t ≤ w.clock ∧
      c = some (.marker ⟨"in_progress", some (.instant t), none, none, none⟩)
  | .markerDelete _ =>
    c = none ∧ (∃ resource kind occurrence, p = .marker resource kind occurrence) ∧
      (∃ v, w.holds i p v) ∧ w.idle p
  | .markerComplete operation =>
    ∃ resource kind occurrence t, p = .marker resource kind occurrence ∧ (∃ v, w.holds i p v) ∧
      c = some (.marker ⟨"completed", none, some t, some operation, some occurrence⟩)
  | .planWrite =>
    ∃ operation marker, p = .plan operation ∧ c = some (.plan marker) ∧
      (∃ resource kind occurrence, marker = .marker resource kind occurrence) ∧
      w.drew i operation ∧ w.store.get p = none ∧ ∀ e ∈ w.executions, e.operation ≠ operation
  | .decisionWrite => (∃ id, p = .decision id) ∧ c = some .decision
  | .savingsWrite => (∃ id, p = .savings id) ∧ c = some .savings
  | .placement lease =>
    ∃ subject job v, p = .job subject ∧ c = some (.job job) ∧ w.wrote v subject lease
  | _ => False

/-- Coordinator `i` may have the plan of `operation` carried out under `lease`. -/
structure World.MayBegin (g : Regime) (w : World) (i : ℕ) (operation : String)
    (lease : PlacementLease) : Prop where
  drew : w.drew i operation
  new : ∀ e ∈ w.executions, e.operation ≠ operation
  decision : lease.decisionId = operation
  slot : ∃ slot < g.limits.maxConcurrentMutations, lease.subjectId = slotName slot
  own : w.Own g i lease
  expires : ∃ t, lease.expiresAt = some (.instant t)
  running : (controlIn (w.gates i)).emergencyPaused = false
  closed : ∃ t ≤ w.clock, (controlIn (w.gates i)).circuitOpenAt t = false
  marker : ∀ p, w.plannedFor operation p → (∃ v, w.holds i p v) ∧ w.idle p

def Act.writes {β : Type} (a : Act β) (l : AutonomyStore) :
    Option (Site × Path × Option Contents) :=
  match a with
  | .create site p c => ((Call.create p c).change l).map (site, ·)
  | .swap site p version c => ((Call.swap p version c).change l).map (site, ·)
  | .put site p c => ((Call.put p c).change l).map (site, ·)
  | .delete site p => ((Call.delete p : Call Path Contents Unit).change l).map (site, ·)
  | _ => none

def World.allowed (g : Regime) {β : Type} (i : ℕ) (a : Act β) (w : World) : Prop :=
  match a with
  | .begin operation lease => w.MayBegin g i operation lease
  | .finish operation => w.drew i operation
  | a => ∀ site p c, a.writes w.store = some (site, p, c) → w.permits g i site p c

/-- An empty store at any instant. -/
def begins (w : World) : Prop :=
  w.store = [] ∧ w.drawn = [] ∧ w.executions = [] ∧ w.gates = fun _ => []

def rules (g : Regime) : Crew.Rules Act World where
  begins := begins
  allowed := allowed g

abbrev Terms := Crew.Condition Act World Choice Move

/-! ## What a step changes -/

/-- What one step can do to the world. -/
inductive Changed (g : Regime) (C : Terms) : Option ℕ → World → World → Prop where
  | idle {who : Option ℕ} {w : World} : Changed g C who w w
  | wrote {i : ℕ} {w : World} {site : Site} {p : Path} {c : Option Contents}
      (ok : w.permits g i site p c) :
      Changed g C (some i) w { w with store := ⟨p, c, site, i⟩ :: w.store }
  | drew {i : ℕ} {w : World} {id : String} (new : ∀ j, (id, j) ∉ w.drawn) :
      Changed g C (some i) w { w with drawn := (id, i) :: w.drawn }
  | gate {i : ℕ} {w : World} :
      Changed g C (some i) w { w with gates := fun j => if j = i then w.store else w.gates j }
  | began {i : ℕ} {w : World} {operation : String} {lease : PlacementLease}
      (ok : w.MayBegin g i operation lease)
      (cond : C.act i (.begin operation lease) .done w) :
      Changed g C (some i) w { w with
        executions :=
          ⟨operation, i, lease, w.clock, w.store.length, w.gates i, none⟩ :: w.executions }
  | finished {i : ℕ} {w : World} {operation : String} {outcome : Outcome}
      (drew : w.drew i operation) :
      Changed g C (some i) w { w with
        executions := w.executions.map (Execution.finished operation outcome) }
  | ticked {w : World} {passed : ℕ} (cond : C.move (.tick passed) w) :
      Changed g C none w { w with clock := w.clock + passed }
  | exited {w : World} {owner : ProcessOwner} :
      Changed g C none w { w with gone := owner :: w.gone }
  | queued {w : World} {id : String} {job : Option Job} :
      Changed g C none w { w with store := ⟨.job id, job.map .job, .queue, 0⟩ :: w.store }

variable {β : Type} {w' : World} {choice : Choice} {g : Regime} {C : Terms} {w : World}
  {b : Except StorageError β} {c : Call Path Contents β} {i : ℕ}

theorem World.call_cases {site : Site} (h : w.call i site c choice = some (b, w')) :
    w' = w ∨ ∃ p content, c.change w.store = some (p, content) ∧
      w' = { w with store := ⟨p, content, site, i⟩ :: w.store } := by
  have happly : ∀ applied : Bool,
      { w with store := if applied then w.store.apply site i (c.change w.store) else w.store } = w ∨
        ∃ p content, c.change w.store = some (p, content) ∧
          { w with store := if applied then w.store.apply site i (c.change w.store) else w.store } =
            { w with store := ⟨p, content, site, i⟩ :: w.store } := by
    intro applied
    cases applied with
    | false => exact .inl rfl
    | true =>
      cases hchange : c.change w.store with
      | none => exact .inl rfl
      | some change => exact .inr ⟨change.1, change.2, rfl, rfl⟩
  cases choice with
  | done =>
    simp only [call, Option.some.injEq, Prod.mk.injEq] at h
    obtain ⟨-, rfl⟩ := h
    exact happly true
  | lost applied =>
    simp only [call, Option.some.injEq, Prod.mk.injEq] at h
    obtain ⟨-, rfl⟩ := h
    exact happly applied
  | _ => simp [call] at h

theorem changed_of_call {site : Site} (h : w.call i site c choice = some (b, w'))
    (ok : ∀ p content, c.change w.store = some (p, content) → w.permits g i site p content) :
    Changed g C (some i) w w' := by
  rcases call_cases h with rfl | ⟨p, content, hchange, rfl⟩
  · exact .idle
  · exact .wrote (ok p content hchange)

theorem changed_of_perform {a : Act β} {b : β} (ok : w.allowed g i a) (cond : C.act i a choice w)
    (h : perform i a choice w = some (b, w')) : Changed g C (some i) w w' := by
  cases a with
  | now site =>
    cases choice <;> simp only [perform, Option.some.injEq, Prod.mk.injEq, reduceCtorEq] at h
    obtain ⟨-, rfl⟩ := h
    exact .idle
  | uuid =>
    cases choice <;> simp only [perform, reduceCtorEq] at h
    split at h
    · cases h
    · next hnew =>
      simp only [Option.some.injEq, Prod.mk.injEq] at h
      obtain ⟨-, rfl⟩ := h
      refine .drew fun j hj => hnew ?_
      simpa using ⟨j, hj⟩
  | currentProcess =>
    cases choice <;> simp only [perform, Option.some.injEq, Prod.mk.injEq, reduceCtorEq] at h
    obtain ⟨-, rfl⟩ := h
    exact .idle
  | ownerState owner =>
    cases choice <;> simp only [perform, reduceCtorEq] at h
    split at h
    · cases h
    · simp only [Option.some.injEq, Prod.mk.injEq] at h
      obtain ⟨-, rfl⟩ := h
      exact .idle
  | read site p =>
    simp only [perform, Option.map_eq_some_iff] at h
    obtain ⟨⟨answer, w₁⟩, hcall, heq⟩ := h
    simp only [Prod.mk.injEq] at heq
    obtain ⟨-, rfl⟩ := heq
    have hsame : w₁ = w := by
      rcases call_cases hcall with rfl | ⟨p', content, hchange, -⟩
      · rfl
      · cases hchange
    subst hsame
    split
    · exact .gate
    · exact .idle
  | exist site p => exact changed_of_call h fun p content hchange => by cases hchange
  | create site p c =>
    exact changed_of_call h fun p' content hchange =>
      ok site p' content (by rw [Act.writes, hchange]; rfl)
  | swap site p version c =>
    exact changed_of_call h fun p' content hchange =>
      ok site p' content (by rw [Act.writes, hchange]; rfl)
  | put site p c =>
    exact changed_of_call h fun p' content hchange =>
      ok site p' content (by rw [Act.writes, hchange]; rfl)
  | delete site p =>
    exact changed_of_call h fun p' content hchange =>
      ok site p' content (by rw [Act.writes, hchange]; rfl)
  | touch site p => exact changed_of_call h fun p content hchange => by cases hchange
  | begin operation lease =>
    cases choice <;> simp only [perform, Option.some.injEq, Prod.mk.injEq, reduceCtorEq] at h
    obtain ⟨-, rfl⟩ := h
    exact .began ok cond
  | finish operation =>
    cases choice <;> simp only [perform, Option.some.injEq, Prod.mk.injEq, reduceCtorEq] at h
    obtain ⟨-, rfl⟩ := h
    exact .finished ok
  | validPlan =>
    cases choice <;> simp only [perform, Option.some.injEq, Prod.mk.injEq, reduceCtorEq] at h
    obtain ⟨-, rfl⟩ := h
    exact .idle
  | recover jobId =>
    cases choice <;> simp only [perform, Option.some.injEq, Prod.mk.injEq, reduceCtorEq] at h
    all_goals
      obtain ⟨-, rfl⟩ := h
      exact .idle
  | looping => cases h

theorem changed_of_step {who : Option ℕ}
    (h : Crew.Step setting (rules g) C who w w') : Changed g C who w w' := by
  cases h with
  | act ok cond hperform => exact changed_of_perform ok cond hperform
  | stop cond => exact .idle
  | @move _ _ m cond hmove =>
    cases m with
    | tick passed =>
      cases hmove
      exact .ticked cond
    | exit owner =>
      cases hmove
      exact .exited
    | job id job =>
      cases hmove
      exact .queued

end Stado.Autonomy
