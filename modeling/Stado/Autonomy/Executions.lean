import Mathlib.Data.List.Perm.Subperm
import Stado.Autonomy.LeaseSpecs

/-!
# Executions and their slots

Each execution runs for the plan of one coordinator under a slot lease of its
own. While no slot lease ends before its execution does, the lease of an
execution under way stands, so no two executions under way share a slot.
-/

namespace Stado.Autonomy

open CasStore Crew List

variable {g : Regime} {C : Terms} {i : ℕ} {w : World} {operation : String} {w w' : World}
  {who : Option ℕ} {e : Execution}

/-! ## What an execution keeps -/

namespace Execution

variable {operation : String} {outcome : Outcome} {e : Execution}

@[simp] theorem finished_operation : (e.finished operation outcome).operation = e.operation := by
  unfold finished
  split <;> rfl

@[simp] theorem finished_coordinator :
    (e.finished operation outcome).coordinator = e.coordinator := by
  unfold finished
  split <;> rfl

@[simp] theorem finished_lease : (e.finished operation outcome).lease = e.lease := by
  unfold finished
  split <;> rfl

@[simp] theorem finished_gate : (e.finished operation outcome).gate = e.gate := by
  unfold finished
  split <;> rfl

@[simp] theorem finished_begunAt : (e.finished operation outcome).begunAt = e.begunAt := by
  unfold finished
  split <;> rfl

@[simp] theorem finished_begunAfter : (e.finished operation outcome).begunAfter = e.begunAfter := by
  unfold finished
  split <;> rfl

theorem finished_of_ne (h : e.operation ≠ operation) : e.finished operation outcome = e := by
  simp [finished, h]

theorem ended_of_finished (h : (e.finished operation outcome).ended = none) : e.ended = none := by
  unfold finished at h
  split at h
  · cases h
  · exact h

end Execution

/-- What every lived world keeps about executions. -/
structure Engaged (g : Regime) (w : World) : Prop where
  drew : ∀ e ∈ w.executions, w.drew e.coordinator e.operation
  distinct : (w.executions.map Execution.operation).Nodup
  decision : ∀ e ∈ w.executions, e.lease.decisionId = e.operation
  holder : ∀ e ∈ w.executions, some e.lease.holder = g.reserved
  slot : ∀ e ∈ w.executions,
    ∃ slot < g.limits.maxConcurrentMutations, e.lease.subjectId = slotName slot
  expires : ∀ e ∈ w.executions, ∃ t, e.lease.expiresAt = some (.instant t)
  gates : ∀ i, w.gates i <:+ w.store
  gate : ∀ e ∈ w.executions, e.gate <:+ w.store
  running : ∀ e ∈ w.executions, (controlIn e.gate).emergencyPaused = false
  closed : ∀ e ∈ w.executions, ∃ t ≤ e.begunAt, (controlIn e.gate).circuitOpenAt t = false

/-- What holds of each execution still holds after one of them has ended. -/
theorem forall_finished {P : Execution → Prop} {executions : List Execution} {outcome : Outcome}
    (h : ∀ e ∈ executions, P e) (hkeep : ∀ e, P e → P (e.finished operation outcome)) :
    ∀ e ∈ executions.map (Execution.finished operation outcome), P e := by
  intro e he
  obtain ⟨old, hold, rfl⟩ := List.mem_map.mp he
  exact hkeep old (h old hold)

theorem Engaged.step (hw : Engaged g w) (h : Changed g C who w w') : Engaged g w' := by
  cases h with
  | idle => exact hw
  | wrote ok =>
    have hpast : ∀ {l : AutonomyStore} {e : AutonomyEntry}, l <:+ w.store → l <:+ e :: w.store :=
      fun hl => hl.trans (suffix_cons _ _)
    exact ⟨hw.drew, hw.distinct, hw.decision, hw.holder, hw.slot, hw.expires,
      fun j => hpast (hw.gates j), fun e he => hpast (hw.gate e he), hw.running, hw.closed⟩
  | drew new =>
    exact ⟨fun e he => mem_cons_of_mem _ (hw.drew e he), hw.distinct, hw.decision,
      hw.holder, hw.slot, hw.expires, hw.gates, hw.gate, hw.running, hw.closed⟩
  | gate =>
    refine ⟨hw.drew, hw.distinct, hw.decision, hw.holder, hw.slot, hw.expires, fun j => ?_,
      hw.gate, hw.running, hw.closed⟩
    simp only
    split
    · exact suffix_refl _
    · exact hw.gates j
  | @began k _ operation lease ok cond =>
    refine ⟨?_, ?_, ?_, ?_, ?_, ?_, hw.gates, ?_, ?_, ?_⟩
    · exact forall_mem_cons.mpr ⟨ok.drew, hw.drew⟩
    · refine nodup_cons.mpr ⟨fun hmem => ?_, hw.distinct⟩
      obtain ⟨e, he, heq⟩ := List.mem_map.mp hmem
      exact ok.new e he heq
    · exact forall_mem_cons.mpr ⟨ok.decision, hw.decision⟩
    · exact forall_mem_cons.mpr ⟨ok.own.holder, hw.holder⟩
    · exact forall_mem_cons.mpr ⟨ok.slot, hw.slot⟩
    · exact forall_mem_cons.mpr ⟨ok.expires, hw.expires⟩
    · exact forall_mem_cons.mpr ⟨hw.gates k, hw.gate⟩
    · exact forall_mem_cons.mpr ⟨ok.running, hw.running⟩
    · exact forall_mem_cons.mpr ⟨ok.closed, hw.closed⟩
  | @finished k _ operation outcome drew =>
    refine ⟨?_, ?_, ?_, ?_, ?_, ?_, hw.gates, ?_, ?_, ?_⟩
    · exact forall_finished hw.drew fun e he => by simpa [World.drew] using he
    · have hsame : (w.executions.map (Execution.finished operation outcome)).map
          Execution.operation = w.executions.map Execution.operation := by
        simp [List.map_map, Function.comp_def]
      exact hsame ▸ hw.distinct
    · exact forall_finished hw.decision fun e he => by simpa using he
    · exact forall_finished hw.holder fun e he => by simpa using he
    · exact forall_finished hw.slot fun e he => by simpa using he
    · exact forall_finished hw.expires fun e he => by simpa using he
    · exact forall_finished hw.gate fun e he => by simpa using he
    · exact forall_finished hw.running fun e he => by simpa using he
    · exact forall_finished hw.closed fun e he => by simpa using he
  | ticked cond =>
    exact ⟨hw.drew, hw.distinct, hw.decision, hw.holder, hw.slot, hw.expires, hw.gates, hw.gate,
      hw.running, hw.closed⟩
  | exited =>
    exact ⟨hw.drew, hw.distinct, hw.decision, hw.holder, hw.slot, hw.expires, hw.gates, hw.gate,
      hw.running, hw.closed⟩
  | queued =>
    have hpast : ∀ {l : AutonomyStore} {e : AutonomyEntry}, l <:+ w.store → l <:+ e :: w.store :=
      fun hl => hl.trans (suffix_cons _ _)
    exact ⟨hw.drew, hw.distinct, hw.decision, hw.holder, hw.slot, hw.expires,
      fun j => hpast (hw.gates j), fun e he => hpast (hw.gate e he), hw.running, hw.closed⟩

theorem engaged (h : LivedIn g C w) : Engaged g w := by
  refine h.invariant (fun w hbegins => ?_) fun _ hw hstep => hw.step (changed_of_step hstep)
  obtain ⟨-, -, hexecutions, hgates⟩ := hbegins
  have hnone : ∀ {P : Execution → Prop}, ∀ e ∈ w.executions, P e := by
    intro P e he
    rw [hexecutions] at he
    cases he
  refine ⟨hnone, ?_, hnone, hnone, hnone, hnone, fun i => ?_, hnone, hnone, hnone⟩
  · simp [hexecutions]
  · simp [hgates]

def World.mine (w : World) (i : ℕ) : List Execution :=
  w.executions.filter fun e => e.coordinator = i

/-- Nobody else begins or ends the executions of coordinator `i`. -/
theorem knows_mine {mine : List Execution} : Knows g C i fun w => w.mine i = mine := by
  refine ⟨fun {who w w'} hwho hw hstep hmine => ?_⟩
  have hmine : w.mine i = mine := hmine
  show w'.mine i = mine
  have hchanged := changed_of_step hstep
  cases hchanged with
  | @began k _ operation lease ok cond =>
    have hk : ¬ k = i := fun heq => hwho (congrArg some heq)
    simp only [World.mine, filter_cons, hk, decide_false] at hmine ⊢
    exact hmine
  | @finished k _ operation outcome drew =>
    have hk : k ≠ i := fun heq => hwho (congrArg some heq)
    have hsame : ∀ e ∈ w.mine i, e.finished operation outcome = e := by
      intro e he
      obtain ⟨hmem, hcoordinator⟩ := mem_filter.mp he
      refine Execution.finished_of_ne fun heq => hk ?_
      have hdrew := (engaged hw).drew e hmem
      rw [heq, of_decide_eq_true hcoordinator] at hdrew
      exact (tidy hw).drawn operation k i drew hdrew
    have hfilter : (w.executions.map (Execution.finished operation outcome)).filter
        (fun e => e.coordinator = i) = (w.mine i).map (Execution.finished operation outcome) := by
      rw [List.filter_map]
      simp [World.mine, Function.comp_def]
    simp only [World.mine] at hfilter ⊢
    rw [hfilter, ← hmine]
    exact (map_congr_left hsame).trans (List.map_id _)
  | _ => exact hmine

/-- An execution of a plan that coordinator `i` drew is its own. -/
theorem mem_mine (hw : LivedIn g C w) (hdrew : w.drew i operation)
    (he : e ∈ w.executions) (heq : e.operation = operation) : e ∈ w.mine i := by
  refine mem_filter.mpr ⟨he, decide_eq_true ?_⟩
  have hother := (engaged hw).drew e he
  rw [heq] at hother
  exact (tidy hw).drawn operation e.coordinator i hother hdrew

/-- An own operation that nothing was carried out for stays so. -/
theorem knows_new : Knows g C i fun w =>
    w.drew i operation ∧ ∀ e ∈ w.executions, e.operation ≠ operation := by
  refine ⟨fun {who w w'} hwho hw hstep ⟨hdrew, hnew⟩ => ?_⟩
  refine ⟨knows_drew.keeps hwho hw hstep hdrew, fun e he heq => ?_⟩
  have hmine : w'.mine i = w.mine i := knows_mine.keeps hwho hw hstep rfl
  have hmem := mem_mine (hw.step hstep) (knows_drew.keeps hwho hw hstep hdrew) he heq
  rw [hmine] at hmem
  exact hnew e (mem_filter.mp hmem).1 heq

/-! ## Slots -/

def World.underWay (w : World) : List Execution := w.executions.filter fun e => e.ended = none

/-- The lifetime of the lease has not passed at `now`, if it has one. -/
def PlacementLease.holdsAt (lease : PlacementLease) (now : ℕ) : Prop :=
  ∀ t, lease.expiresAt = some (.instant t) → now < t

instance decidableHoldsAt (lease : PlacementLease) (now : ℕ) : Decidable (lease.holdsAt now) :=
  match h : lease.expiresAt with
  | some (.instant t) => decidable_of_iff (now < t) (by simp [PlacementLease.holdsAt, h])
  | some (.unreadable _) => isTrue (by simp [PlacementLease.holdsAt, h])
  | none => isTrue (by simp [PlacementLease.holdsAt, h])

def World.slotsHold (w : World) : Prop := ∀ e ∈ w.underWay, e.lease.holdsAt w.clock

instance decidableSlotsHold (w : World) : Decidable w.slotsHold :=
  inferInstanceAs (Decidable (∀ e ∈ w.underWay, e.lease.holdsAt w.clock))

/-- No execution begins under a lease that has ended, and no slot lease ends while
its execution is under way. -/
structure SlotsHold (C : Terms) : Prop where
  begin : ∀ i operation lease w, C.act i (.begin operation lease) .done w → lease.holdsAt w.clock
  tick : ∀ passed w, C.move (.tick passed) w →
    ({ w with clock := w.clock + passed } : World).slotsHold

theorem mem_underWay : e ∈ w.underWay ↔ e ∈ w.executions ∧ e.ended = none := by
  simp [World.underWay]

structure Standing (w : World) : Prop where
  hold : w.slotsHold
  stands : ∀ e ∈ w.underWay, ∃ v,
    w.store.get (.lease e.lease.subjectId) = some (.lease e.lease, v)

theorem Standing.step (hC : SlotsHold C) (hw : LivedIn g C w)
    (hstanding : Standing w) (h : Changed g C who w w') : Standing w' := by
  have hstore : w'.underWay = w.underWay → w'.clock = w.clock → Standing w' := by
    intro hsame hclock
    refine ⟨fun e he t ht => ?_, fun e he => ?_⟩
    · rw [hsame] at he
      rw [hclock]
      exact hstanding.hold e he t ht
    · rw [hsame] at he
      obtain ⟨hmem, hended⟩ := mem_underWay.mp he
      obtain ⟨v, hget⟩ := hstanding.stands e he
      rcases get_lease_of_changed e.lease.subjectId h with
        hold | ⟨j, new, hlease, -, -, -⟩
      · exact ⟨v, hold.trans hget⟩
      · exfalso
        cases hlease with
        | granted hsubject ok free =>
          obtain ⟨prior, hprior, hover⟩ := free _ _ hget
          cases hprior
          obtain ⟨t, ht⟩ := (engaged hw).expires e hmem
          have hlt := hstanding.hold e he t ht
          simp only [PlacementLease.over, ht] at hover
          omega
        | foreign prior u hprior token old holder =>
          rw [hget] at hprior
          cases hprior
          exact old ((engaged hw).holder e hmem)
        | own prior u t hprior drew ended heq =>
          rw [hget] at hprior
          cases hprior
          exact ended e hmem ((engaged hw).decision e hmem).symm hended
  cases h with
  | @began k _ operation lease ok cond =>
    have hnew : lease.holdsAt w.clock := hC.begin k operation lease w cond
    refine ⟨fun e he t ht => ?_, fun e he => ?_⟩
    · obtain ⟨hmem, hended⟩ := mem_underWay.mp he
      rcases mem_cons.mp hmem with rfl | hmem
      · exact hnew t ht
      · exact hstanding.hold e (mem_underWay.mpr ⟨hmem, hended⟩) t ht
    · obtain ⟨hmem, hended⟩ := mem_underWay.mp he
      rcases mem_cons.mp hmem with rfl | hmem
      · refine ok.own.stands hw fun hover => ?_
        obtain ⟨t, ht⟩ := ok.expires
        have hlt := hnew t ht
        simp only [PlacementLease.over, ht] at hover
        omega
      · exact hstanding.stands e (mem_underWay.mpr ⟨hmem, hended⟩)
  | @finished k _ operation outcome drew =>
    have hold : ∀ e ∈ ({ w with
        executions := w.executions.map (Execution.finished operation outcome) } : World).underWay,
        ∃ old ∈ w.underWay, old.lease = e.lease := by
      intro e he
      obtain ⟨hmem, hended⟩ := mem_underWay.mp he
      obtain ⟨old, hbefore, rfl⟩ := List.mem_map.mp hmem
      exact ⟨old, mem_underWay.mpr ⟨hbefore, Execution.ended_of_finished hended⟩, by simp⟩
    refine ⟨fun e he t ht => ?_, fun e he => ?_⟩
    · obtain ⟨old, hmem, hlease⟩ := hold e he
      exact hstanding.hold old hmem t (hlease ▸ ht)
    · obtain ⟨old, hmem, hlease⟩ := hold e he
      rw [← hlease]
      exact hstanding.stands old hmem
  | ticked cond => exact ⟨hC.tick _ w cond, hstanding.stands⟩
  | _ => exact hstore rfl rfl

theorem standing (hC : SlotsHold C) (h : LivedIn g C w) : Standing w := by
  refine h.invariant (fun w hbegins => ?_) fun hw hstanding hstep =>
    hstanding.step hC hw (changed_of_step hstep)
  obtain ⟨-, -, hexecutions, -⟩ := hbegins
  have hnone : ∀ e, e ∉ w.underWay := by
    simp [World.underWay, hexecutions]
  exact ⟨fun e he => absurd he (hnone e), fun e he => absurd he (hnone e)⟩

/-- **Slots bound executions.** While slot leases outlast their executions, no more
executions are under way than there are slots. -/
theorem underWay_le (hC : SlotsHold C) (h : LivedIn g C w) :
    w.underWay.length ≤ g.limits.maxConcurrentMutations := by
  have hstanding := standing hC h
  have hsubset : w.underWay.map (fun e => e.lease.subjectId) ⊆
      (List.range g.limits.maxConcurrentMutations).map slotName := by
    intro subject hsubject
    obtain ⟨e, he, rfl⟩ := List.mem_map.mp hsubject
    obtain ⟨slot, hlt, heq⟩ := (engaged h).slot e (mem_underWay.mp he).1
    exact List.mem_map.mpr ⟨slot, mem_range.mpr hlt, heq.symm⟩
  have hnodup : (w.underWay.map fun e => e.lease.subjectId).Nodup := by
    -- two leases that stand for one subject are one lease, of one operation
    have hops : (w.underWay.map Execution.operation).Nodup :=
      (engaged h).distinct.sublist (filter_sublist.map _)
    refine List.Nodup.map_on (fun e he e' he' hsame => ?_) hops.of_map
    obtain ⟨v, hget⟩ := hstanding.stands e he
    obtain ⟨v', hget'⟩ := hstanding.stands e' he'
    have hsame : e.lease.subjectId = e'.lease.subjectId := hsame
    rw [hsame, hget'] at hget
    have hlease : e'.lease = e.lease := Contents.lease.inj (Prod.mk.inj (Option.some.inj hget)).1
    have hop : e.operation = e'.operation := by
      rw [← (engaged h).decision e (mem_underWay.mp he).1,
        ← (engaged h).decision e' (mem_underWay.mp he').1, hlease]
    exact inj_on_of_nodup_map hops he he' hop
  have hle := (hnodup.subperm hsubset).length_le
  simpa using hle

end Stado.Autonomy
