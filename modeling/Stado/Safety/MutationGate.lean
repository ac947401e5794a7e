import Stado.Autonomy.MutationSpecs

/-!
# The mutation gate

Coordinators carry out plans of their own while others pause and resume the
control plane. Slots bound the executions under way while no slot lease ends
before its execution does; every failure is counted while each record takes
effect.
-/

namespace Stado.Autonomy

open CasStore Crew

inductive GateOp where
  /-- `execute_with_circuit` on a plan of its own. -/
  | mutate
  | setControl (emergencyPaused : Bool) (reason : Option String) (actor : String)

def gateRoutine (limits : SafetyLimits) : GateOp → Autonomous PUnit
  | .mutate => mutate limits
  | .setControl emergencyPaused reason actor => do
      let _ ← setControl emergencyPaused reason actor
      pure ()

def gateRegime (limits : SafetyLimits) : Regime := ⟨some "autonomy-reconciler", limits⟩

/-- No execution begins under a slot lease that has ended, no slot lease ends while
its execution is under way, and each record of a failure is read and written
against the version read, within the calendar. -/
def gateTerms (limits : SafetyLimits) : Terms where
  act _ a c w :=
    match a with
    | .begin _ lease => lease.holdsAt w.clock
    | .now site => site.recordsFailure → w.clock + limits.cooldown ≤ lastInstant
    | .read site _ => site.recordsFailure → c = .done
    | .create site p _ => site.recordsFailure → c = .done ∧ w.store.get p = none
    | .swap site p v _ => site.recordsFailure → c = .done ∧ (w.store.get p).map (·.2) = some v
    | _ => True
  move m w :=
    match m with
    | .tick passed => ({ w with clock := w.clock + passed } : World).slotsHold
    | _ => True
  stop _ _ := True

/-- The failed executions of coordinator `i` are recorded. -/
def World.counted (w : World) (i : ℕ) : Prop :=
  ∀ e ∈ w.mine i, ∀ error, e.ended = some (.failed error) →
    ∃ entry ∈ w.store, ∃ detail, entry.site = .record e.operation (.failed detail)

/-- The executions under way stay within their number; each failed execution of a
call that has returned is recorded, and the control state counts the failures
recorded since the last success; an execution whose gate had seen them reach the
threshold began after the cooldown; records keep the pause and pauses the count. -/
structure Gated (limits : SafetyLimits) (s : Coordinators) : Prop where
  bounded : s.world.underWay.length ≤ limits.maxConcurrentMutations
  recorded : ∀ i, s.returned i → s.world.counted i
  counted : (controlIn s.world.store).mutationFailures.length = failuresSince s.world.store
  cooled : ∀ e ∈ s.world.executions, e.gate <:+ s.world.store ∧
    (controlIn e.gate).emergencyPaused = false ∧
    (limits.circuitBreakerFailures ≤ failuresSince e.gate → ∃ t, failedAt e.gate = some t ∧
      t + limits.cooldown ≤ e.begunAt)
  kept : ∀ e older, (e :: older) <:+ s.world.store → Kept e older

/-! ## Each call does as it should -/

section

variable {limits : SafetyLimits} {C : Terms} {i : ℕ} {w : World}

theorem slotsHold_gateTerms : SlotsHold (gateTerms limits) :=
  ⟨fun _ _ _ _ hcond => hcond, fun _ _ hcond => hcond⟩

theorem found_of_map {p : Prop} {found : Option (Contents × ℕ)} {v : ℕ}
    (h : p ∧ found.map (·.2) = some v) : p ∧ ∃ old, found = some (old, v) := by
  obtain ⟨hp, hmap⟩ := h
  rw [Option.map_eq_some_iff] at hmap
  obtain ⟨⟨old, u⟩, hfound, rfl⟩ := hmap
  exact ⟨hp, old, hfound⟩

theorem recordTakes_gateTerms {P : World → Prop} {operation error : String} :
    RecordTakes limits (gateTerms limits) i P operation (.failed error) :=
  ⟨⟨fun _ _ _ hcond => hcond rfl, fun _ _ _ _ hcond => hcond rfl,
    fun _ _ _ _ _ hcond => found_of_map (hcond rfl)⟩, fun _ _ _ hcond => hcond rfl⟩

theorem knows_counted {g : Regime} : Knows g C i fun w => w.counted i := by
  refine ⟨fun {who w w'} hwho hw hstep hcounted => ?_⟩
  have hmine : w'.mine i = w.mine i := knows_mine.keeps hwho hw hstep rfl
  intro e he error hended
  rw [hmine] at he
  obtain ⟨entry, hentry, detail, hsite⟩ := hcounted e he error hended
  exact ⟨entry, (pastOf_of_changed (changed_of_step hstep)).subset hentry, detail, hsite⟩

/-- A coordinator that has done nothing has no executions. -/
theorem mine_of_new {g : Regime} (h : New setting (rules g) C i w) : w.mine i = [] := by
  refine h.knows knows_mine fun w hbegins => ?_
  simp [World.mine, hbegins.2.2.1]

theorem counted_of_failed {operation : String}
    (h : Failed i operation 0 [] True False w) : w.counted i := by
  intro e he error hended
  cases h with
  | unbegun drew same =>
    rw [same] at he
    cases he
  | failed error' ended counted =>
    obtain ⟨e', hop, -, -, hsame⟩ := ended.mine
    rw [hsame, List.mem_singleton] at he
    subst he
    obtain ⟨detail, entry, hentry, hsite⟩ := counted trivial
    exact ⟨entry, hentry, detail, hop ▸ hsite⟩
  | spoiled ended unsure =>
    obtain ⟨e', -, -, hsucceeded, hsame⟩ := ended.mine
    rw [hsame, List.mem_singleton] at he
    subst he
    rw [hsucceeded] at hended
    cases hended

theorem right_gateRoutine (op : GateOp)
    (h : New setting (rules (gateRegime limits)) (gateTerms limits) i w) :
    Right (gateRegime limits) (gateTerms limits) i (gateRoutine limits op)
      (fun _ w => w.counted i) (fun w => w.counted i) w := by
  have hw := h.lived
  cases op with
  | mutate =>
    refine .bind (Does.take (knows_mine.and knows_length) hw ⟨mine_of_new h, Nat.zero_le _⟩
      (Q := fun operation w => w.Ready i operation 0 [] ∧ w.undecided (gateRegime limits) operation)
      (E := fun w => w.counted i)
      fun w₁ c operation w₂ hw₁ hknown hperform _ => ⟨allowed_uuid, fun hw₂ => ?_⟩) hw
      (fun operation w hw hready => ?_) fun _ _ h => h
    · obtain ⟨hnew, rfl⟩ := perform_uuid hperform
      exact ready_of_drawn hw₁ hnew hknown.1 hknown.2
    · refine (right_executeWithCircuit (g := gateRegime limits) True False rfl (by simp)
        (fun _ error detail => recordTakes_gateTerms) (fun h => h.elim) hw hready.1
        hready.2).mono hw (fun _ w hw hended => ?_) fun w hw hfailed => counted_of_failed hfailed
      exact counted_of_failed (.spoiled hended id)
  | setControl emergencyPaused reason actor =>
    have hnone : ∀ w : World, w.mine i = [] → w.counted i := by
      intro w hmine e he
      rw [hmine] at he
      cases he
    have hlocal : Local fun w => w.mine i = [] := by
      refine ⟨fun _ _ hexecutions hmine => ?_⟩
      simp only [World.mine, hexecutions] at hmine ⊢
      exact hmine
    exact .bind (right_setControl knows_mine hlocal hw (mine_of_new h)) hw
      (fun _ w _ hmine => .pure (hnone w hmine)) fun w _ hmine => hnone w hmine

end

/-- While slot leases outlast their executions and records take effect, the gate
bounds and counts, in every state of every run. -/
theorem gate_bounds_and_counts (limits : SafetyLimits) (clock : ℕ) (s : Coordinators)
    (h : Config.Reaches setting (gateRoutine limits) (gateTerms limits) (nobodyYet clock) s) :
    Gated limits s := by
  have hbegins : (rules (gateRegime limits)).begins (World.fresh clock) := ⟨rfl, rfl, rfl, rfl⟩
  have hsound : Config.Sound setting (rules (gateRegime limits)) (gateTerms limits)
      (fun i _ w => w.counted i) (fun i w => w.counted i) s :=
    (Config.Sound.nobody hbegins).reaches (fun _ _ => knows_counted) (fun _ => knows_counted)
      (fun op i w hnew => right_gateRoutine op hnew) h
  have hw := hsound.lived
  refine ⟨underWay_le slotsHold_gateTerms hw, ?_, ((told hw).tally _ (List.suffix_refl _)).count,
    fun e he => ⟨(engaged hw).gate e he, (engaged hw).running e he, cooled hw he⟩,
    (told hw).kept⟩
  rintro i (⟨a, hpure⟩ | ⟨error, hfail⟩)
  · exact hsound.does i _ hpure
  · exact hsound.does i _ hfail

/-! ## A failure that is recorded -/

instance decidableGateAct (limits : SafetyLimits) {β : Type} (i : ℕ) (a : Act β) (c : Choice)
    (w : World) : Decidable ((gateTerms limits).act i a c w) :=
  match a with
  | .begin _ lease => inferInstanceAs (Decidable (lease.holdsAt w.clock))
  | .now site =>
    inferInstanceAs (Decidable (site.recordsFailure → w.clock + limits.cooldown ≤ lastInstant))
  | .read site _ => inferInstanceAs (Decidable (site.recordsFailure → c = .done))
  | .create site p _ =>
    inferInstanceAs (Decidable (site.recordsFailure → c = .done ∧ w.store.get p = none))
  | .swap site p v _ => inferInstanceAs
      (Decidable (site.recordsFailure → c = .done ∧ (w.store.get p).map (·.2) = some v))
  | .uuid | .currentProcess | .ownerState _ | .exist _ _ | .put _ _ _ | .delete _ _ | .touch _ _
  | .finish _ | .validPlan | .recover _ | .looping => isTrue trivial

instance decidableGateMove (limits : SafetyLimits) (m : Move) (w : World) :
    Decidable ((gateTerms limits).move m w) :=
  match m with
  | .tick passed =>
    inferInstanceAs (Decidable ({ w with clock := w.clock + passed } : World).slotsHold)
  | .exit _ | .job _ _ => isTrue trivial

def oneSlot : SafetyLimits where
  maxActionsPerTick := 1
  maxActionsPerProvider := 1
  maxConcurrentMutations := 1
  circuitBreakerFailures := 1
  circuitBreakerCooldownSeconds := 60
  decisionTtlSeconds := 30
  actions_pos := by decide
  provider_pos := by decide
  mutations_pos := by decide
  failures_pos := by decide
  cooldown_valid := by decide +kernel
  ttl_valid := by decide +kernel

/-- Coordinator `i` begins to carry out the plan `operation`, in a free slot. -/
def beginsRun (i : ℕ) (operation token : String) : List (Event GateOp Choice Move) :=
  [.act i (.id operation), .act i .done, .act i (.id token), .act i (.process ⟨"host", i⟩),
    .act i .done, .act i .done, .act i .done, .act i .done, .act i .done]

/-- The execution of coordinator `i` fails, and it returns. -/
def failsRun (i : ℕ) : List (Event GateOp Choice Move) :=
  [.act i (.outcome (.failed "refused")), .act i .done, .act i .done, .act i .done,
    .act i .done, .act i .done, .act i .done, .act i .done]

/-- A failed execution, recorded. -/
theorem failed_execution_recorded : ∃ s : Coordinators,
    (failuresSince s.world.store = 1 ∧ s.world.executions.length = 1) ∧ Gated oneSlot s := by
  obtain ⟨s, hreaches, hs⟩ := Config.exists_run setting (gateRoutine oneSlot) (nobodyYet 0)
    (decidableGateAct oneSlot) (decidableGateMove oneSlot) (fun _ _ => isTrue trivial)
    (.start .mutate :: beginsRun 0 "operation" "token" ++ failsRun 0)
    (P := fun s => decide (failuresSince s.world.store = 1 ∧ s.world.executions.length = 1))
    (by decide +kernel)
  exact ⟨s, of_decide_eq_true hs, gate_bounds_and_counts oneSlot 0 s hreaches⟩

/-- A second coordinator takes over the slot of an execution that outlasts its
lease: two executions are under way where one is allowed. -/
theorem two_under_way : ¬ ∀ (limits : SafetyLimits) (clock : ℕ) (s : Coordinators),
    Config.Reaches setting (gateRoutine limits) .any (nobodyYet clock) s → Gated limits s := by
  intro h
  obtain ⟨s, hreaches, hs⟩ := Config.exists_exec (C := .any) setting (gateRoutine oneSlot)
    (nobodyYet 0) (fun _ _ => true) (fun _ _ _ => Config.meets_any)
    (.start .mutate :: beginsRun 0 "operation" "token" ++
      [.move (.tick (30 * nanosPerSecond)), .start .mutate, .act 1 (.id "second"), .act 1 .done,
        .act 1 (.id "other"), .act 1 (.process ⟨"host", 1⟩), .act 1 .done, .act 1 .done,
        .act 1 .done, .act 1 .done, .act 1 .done, .act 1 .done, .act 1 .done])
    (P := fun s => decide (s.world.underWay.length = 2)) (by decide +kernel)
  have hbounded := (h oneSlot 0 s hreaches).bounded
  have htwo : s.world.underWay.length = 2 := of_decide_eq_true hs
  rw [htwo] at hbounded
  exact absurd hbounded (by decide)

end Stado.Autonomy
