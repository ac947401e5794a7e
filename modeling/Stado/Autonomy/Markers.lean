import Stado.Autonomy.ControlSpecs

/-!
# Markers of occurrences

The marker of an occurrence is created by one coordinator when it is absent, and
only that coordinator removes or completes it. While an execution for it is under
way or has succeeded, the marker stays, and no other execution for it begins.
-/

namespace Stado.Autonomy

open CasStore Crew List

variable {g : Regime} {C : Terms} {i : ℕ}

inductive MarkerWrite (w : World) (i : ℕ) (site : Site) (p : Path) (c : Option Contents) : Prop where
  | created (hsite : site = .markerCreate) (absent : w.store.get p = none)
      (marker : ∃ marker, c = some (.marker marker))
  | removed (operation : String) (hsite : site = .markerDelete operation)
      (holds : ∃ v, w.holds i p v) (idle : w.idle p) (hc : c = none)
  | completed (operation : String) (hsite : site = .markerComplete operation)
      (holds : ∃ v, w.holds i p v) (marker : ∃ marker, c = some (.marker marker))

variable {p : Path} {who : Option ℕ} {w' : World} {w : World} {operation : String} {v : ℕ}
  {c : Option Contents}

theorem marker_of_permits {site : Site} (h : w.permits g i site p c) :
    (∃ resource kind occurrence, p = .marker resource kind occurrence) ∧ MarkerWrite w i site p c ∨
      (∀ resource kind occurrence, p ≠ .marker resource kind occurrence) ∧
        site ≠ .markerCreate := by
  cases site with
  | markerCreate =>
    obtain ⟨resource, kind, occurrence, t, rfl, hnone, -, -, rfl⟩ := h
    exact .inl ⟨⟨resource, kind, occurrence, rfl⟩, .created rfl hnone ⟨_, rfl⟩⟩
  | markerDelete operation =>
    obtain ⟨rfl, hp, hholds, hidle⟩ := h
    exact .inl ⟨hp, .removed operation rfl hholds hidle rfl⟩
  | markerComplete operation =>
    obtain ⟨resource, kind, occurrence, t, rfl, hholds, rfl⟩ := h
    exact .inl ⟨⟨resource, kind, occurrence, rfl⟩, .completed operation rfl hholds ⟨_, rfl⟩⟩
  | acquireCreate =>
    obtain ⟨lease, rfl, -⟩ := h
    exact .inr ⟨by simp, by simp⟩
  | acquireSwap =>
    obtain ⟨lease, prior, v, rfl, -⟩ := h
    exact .inr ⟨by simp, by simp⟩
  | renew token =>
    obtain ⟨subject, prior, v, expires, process, rfl, -⟩ := h
    exact .inr ⟨by simp, by simp⟩
  | free token =>
    obtain ⟨subject, prior, v, t, rfl, -⟩ := h
    exact .inr ⟨by simp, by simp⟩
  | exact released =>
    obtain ⟨prior, v, rfl, -⟩ := h
    exact .inr ⟨by simp, by simp⟩
  | ownRelease decision =>
    obtain ⟨subject, prior, v, t, rfl, -⟩ := h
    exact .inr ⟨by simp, by simp⟩
  | setControl =>
    obtain ⟨rfl, -⟩ := h
    exact .inr ⟨by simp, by simp⟩
  | record operation outcome =>
    obtain ⟨rfl, -⟩ := h
    exact .inr ⟨by simp, by simp⟩
  | planWrite =>
    obtain ⟨operation, marker, rfl, -⟩ := h
    exact .inr ⟨by simp, by simp⟩
  | decisionWrite =>
    obtain ⟨⟨id, rfl⟩, -⟩ := h
    exact .inr ⟨by simp, by simp⟩
  | savingsWrite =>
    obtain ⟨⟨id, rfl⟩, -⟩ := h
    exact .inr ⟨by simp, by simp⟩
  | placement lease =>
    obtain ⟨subject, job, v, rfl, -⟩ := h
    exact .inr ⟨by simp, by simp⟩
  | _ => exact h.elim

theorem plan_of_permits {site : Site} (h : w.permits g i site (.plan operation) c) :
    w.drew i operation ∧ w.store.get (.plan operation) = none ∧
      (∀ e ∈ w.executions, e.operation ≠ operation) ∧
      ∃ resource kind occurrence, c = some (.plan (.marker resource kind occurrence)) := by
  cases site with
  | planWrite =>
    obtain ⟨operation', marker, heq, rfl, ⟨resource, kind, occurrence, rfl⟩, hdrew, hnone,
      hnew⟩ := h
    cases heq
    exact ⟨hdrew, hnone, hnew, resource, kind, occurrence, rfl⟩
  | acquireCreate =>
    obtain ⟨lease, heq, -⟩ := h
    cases heq
  | acquireSwap =>
    obtain ⟨lease, prior, v, heq, -⟩ := h
    cases heq
  | renew token =>
    obtain ⟨subject, prior, v, expires, process, heq, -⟩ := h
    cases heq
  | free token =>
    obtain ⟨subject, prior, v, t, heq, -⟩ := h
    cases heq
  | exact released =>
    obtain ⟨prior, v, heq, -⟩ := h
    cases heq
  | ownRelease decision =>
    obtain ⟨subject, prior, v, t, heq, -⟩ := h
    cases heq
  | setControl =>
    obtain ⟨heq, -⟩ := h
    cases heq
  | record operation outcome =>
    obtain ⟨heq, -⟩ := h
    cases heq
  | markerCreate =>
    obtain ⟨resource, kind, occurrence, t, heq, -⟩ := h
    cases heq
  | markerDelete operation =>
    obtain ⟨-, ⟨resource, kind, occurrence, heq⟩, -⟩ := h
    cases heq
  | markerComplete operation =>
    obtain ⟨resource, kind, occurrence, t, heq, -⟩ := h
    cases heq
  | decisionWrite =>
    obtain ⟨⟨id, heq⟩, -⟩ := h
    cases heq
  | savingsWrite =>
    obtain ⟨⟨id, heq⟩, -⟩ := h
    cases heq
  | placement lease =>
    obtain ⟨subject, job, v, heq, -⟩ := h
    cases heq
  | _ => exact h.elim

/-- What a step leaves at a path is what was there, or what a write put there. -/
theorem get_of_changed (h : Changed g C who w w') (hjob : ∀ id, p ≠ .job id) :
    w'.store.get p = w.store.get p ∨ ∃ k site c, who = some k ∧ w.permits g k site p c ∧
        w'.store = ⟨p, c, site, k⟩ :: w.store ∧ w'.executions = w.executions := by
  cases h with
  | @wrote k _ site q c ok =>
    by_cases hq : q = p
    · subst hq
      exact .inr ⟨k, site, c, rfl, ok, rfl, rfl⟩
    · exact .inl (Store.get_cons_other hq _)
  | queued => exact .inl (Store.get_cons_other (fun heq => hjob _ heq.symm) _)
  | _ => exact .inl rfl

/-! ## What the holder of a marker knows -/

/-- Two coordinators do not hold one marker. -/
theorem holds_unique {i j v v' : ℕ} (hi : w.holds i p v)
    (hj : w.holds j p v') : i = j ∧ v = v' := by
  obtain ⟨-, c, e, hget, hheld, -, rfl⟩ := hi
  obtain ⟨-, c', e', hget', hheld', -, rfl⟩ := hj
  rw [hget] at hget'
  cases hget'
  exact ⟨congrArg Entry.author (hheld.unique hheld'), rfl⟩

/-- What stands still at a path is held as before. -/
theorem holds_of_get (hget : w'.store.get p = w.store.get p)
    (hpast : w.store.PastOf w'.store) (h : w.holds i p v) : w'.holds i p v := by
  obtain ⟨hp, c, e, hold, hheld, hsite, hauthor⟩ := h
  exact ⟨hp, c, e, hget.trans hold, hheld.mono hpast, hsite, hauthor⟩

/-- Nobody else writes the marker that coordinator `i` holds. -/
theorem knows_holds : Knows g C i fun w => w.holds i p v := by
  refine ⟨fun {who w w'} hwho hw hstep hholds => ?_⟩
  have hchanged := changed_of_step hstep
  obtain ⟨resource, kind, occurrence, rfl⟩ := hholds.1
  rcases get_of_changed (p := .marker resource kind occurrence) hchanged (by simp) with
    hget | ⟨k, site, c, rfl, ok, -, -⟩
  · exact holds_of_get hget (pastOf_of_changed hchanged) hholds
  · exfalso
    rcases marker_of_permits ok with ⟨-, hwrite⟩ | ⟨hp, -⟩
    · cases hwrite with
      | created hsite absent marker =>
        obtain ⟨-, c, e, hget, -⟩ := hholds
        rw [absent] at hget
        cases hget
      | removed operation hsite holds idle hc =>
        obtain ⟨u, hother⟩ := holds
        exact hwho (congrArg some (holds_unique hother hholds).1)
      | completed operation hsite holds marker =>
        obtain ⟨u, hother⟩ := holds
        exact hwho (congrArg some (holds_unique hother hholds).1)
    · exact hp _ _ _ rfl

theorem plannedFor_of_changed (h : Changed g C who w w') (hplanned : w'.plannedFor operation p) :
    w.plannedFor operation p ∨ (∃ k, who = some k ∧ w.drew k operation) ∧
      (∀ e ∈ w.executions, e.operation ≠ operation) ∧ w'.executions = w.executions := by
  rcases get_of_changed (p := .plan operation) h (by simp) with
    hget | ⟨k, site, c, rfl, ok, -, hsame⟩
  · obtain ⟨v, hplan⟩ := hplanned
    exact .inl ⟨v, hget ▸ hplan⟩
  · obtain ⟨hdrew, -, hnew, -⟩ := plan_of_permits ok
    exact .inr ⟨⟨k, rfl, hdrew⟩, hnew, hsame⟩

theorem planned_of_changed (h : Changed g C who w w') (hplanned : w.plannedFor operation p) :
    w'.plannedFor operation p := by
  obtain ⟨v, hplan⟩ := hplanned
  rcases get_of_changed (p := .plan operation) h (by simp) with hget | ⟨k, site, c, -, ok, -, -⟩
  · exact ⟨v, hget.trans hplan⟩
  · obtain ⟨-, hnone, -, -⟩ := plan_of_permits ok
    rw [hnone] at hplan
    cases hplan

theorem plan_drew (h : LivedIn g C w) {c : Contents}
    (hget : w.store.get (.plan operation) = some (c, v)) : ∃ j, w.drew j operation := by
  refine h.invariant (I := fun w => ∀ c v, w.store.get (.plan operation) = some (c, v) →
    ∃ j, w.drew j operation) (fun w hbegins c v hget => ?_)
    (fun {who w w'} _ hw hstep c v hget => ?_) c v hget
  · simp [hbegins.1] at hget
  · have hchanged := changed_of_step hstep
    rcases get_of_changed (p := .plan operation) hchanged (by simp) with
      hsame | ⟨k, site, content, -, ok, -, -⟩
    · obtain ⟨j, hj⟩ := hw c v (hsame ▸ hget)
      exact ⟨j, drew_of_changed hchanged hj⟩
    · exact ⟨k, drew_of_changed hchanged (plan_of_permits ok).1⟩

theorem planned_marker (h : LivedIn g C w) (hplanned : w.plannedFor operation p) :
    ∃ resource kind occurrence, p = .marker resource kind occurrence := by
  refine h.invariant (I := fun w => ∀ p, w.plannedFor operation p →
    ∃ resource kind occurrence, p = .marker resource kind occurrence) (fun w hbegins p hplanned => ?_)
    (fun {who w w'} _ hw hstep p hplanned => ?_) p hplanned
  · obtain ⟨v, hget⟩ := hplanned
    simp [hbegins.1] at hget
  · obtain ⟨v, hget⟩ := hplanned
    have hchanged := changed_of_step hstep
    rcases get_of_changed (p := .plan operation) hchanged (by simp) with
      hsame | ⟨k, site, content, -, ok, hstore, -⟩
    · exact hw p ⟨v, hsame ▸ hget⟩
    · obtain ⟨-, -, -, resource, kind, occurrence, rfl⟩ := plan_of_permits ok
      rw [hstore, Store.get_cons_same rfl] at hget
      cases hget
      exact ⟨resource, kind, occurrence, rfl⟩

/-- While coordinator `i` holds a marker, nobody else begins an execution for it. -/
theorem knows_idle : Knows g C i fun w => w.holds i p v ∧ w.idle p := by
  refine ⟨fun {who w w'} hwho hw hstep ⟨hholds, hidle⟩ => ?_⟩
  refine ⟨knows_holds.keeps hwho hw hstep hholds, fun e he hplanned hlive => ?_⟩
  have hchanged := changed_of_step hstep
  rcases plannedFor_of_changed hchanged hplanned with hbefore | ⟨-, hnew, hsame⟩
  · cases hchanged with
    | @began k _ operation lease ok cond =>
      rcases mem_cons.mp he with rfl | he
      · obtain ⟨⟨u, hother⟩, -⟩ := ok.marker p hbefore
        exact hwho (congrArg some (holds_unique hother hholds).1)
      · exact hidle e he hbefore hlive
    | @finished k _ operation outcome drew =>
      obtain ⟨old, hold, rfl⟩ := List.mem_map.mp he
      refine hidle old hold (by simpa using hbefore) ?_
      unfold Execution.finished at hlive
      split at hlive
      · next hended => exact .inl hended.2
      · exact hlive
    | _ => exact hidle e he hbefore hlive
  · rw [hsame] at he
    exact hnew e he rfl

/-- The plan that coordinator `i` may have carried out is for a marker it holds. -/
def World.cleared (w : World) (i : ℕ) (operation : String) : Prop :=
  ∀ p, w.plannedFor operation p → (∃ v, w.holds i p v) ∧ w.idle p

theorem knows_cleared : Knows g C i fun w => w.drew i operation ∧ w.cleared i operation := by
  refine ⟨fun {who w w'} hwho hw hstep ⟨hdrew, hcleared⟩ => ?_⟩
  refine ⟨knows_drew.keeps hwho hw hstep hdrew, fun p hplanned => ?_⟩
  rcases plannedFor_of_changed (changed_of_step hstep) hplanned with hplanned | ⟨hother, -, -⟩
  · obtain ⟨⟨v, hholds⟩, hidle⟩ := hcleared p hplanned
    obtain ⟨hholds', hidle'⟩ := knows_idle.keeps hwho hw hstep ⟨hholds, hidle⟩
    exact ⟨⟨v, hholds'⟩, hidle'⟩
  · obtain ⟨k, rfl, hk⟩ := hother
    exact absurd (congrArg some ((tidy hw).drawn operation k i hk hdrew)) hwho

/-! ## One success for each marker -/

/-- The executions for one marker that are under way or have succeeded are of one
operation, and while there is one the marker stays. -/
structure OncePer (w : World) : Prop where
  one : ∀ p, ∀ e ∈ w.executions, ∀ e' ∈ w.executions, w.plannedFor e.operation p →
    w.plannedFor e'.operation p → e.live → e'.live → e.operation = e'.operation
  stays : ∀ p, ∀ e ∈ w.executions, w.plannedFor e.operation p → e.live → w.store.get p ≠ none

theorem live_of_finished {e : Execution} {outcome : Outcome}
    (h : (e.finished operation outcome).live) : e.live := by
  unfold Execution.finished at h
  split at h
  · next hended => exact .inl hended.2
  · exact h

theorem OncePer.step (hw : OncePer w) (hlived : LivedIn g C w)
    (h : Changed g C who w w') : OncePer w' := by
  have hbefore : ∀ {p : Path} {e : Execution}, e ∈ w'.executions →
      w'.plannedFor e.operation p → w'.executions = w.executions → w.plannedFor e.operation p := by
    intro p e he hplanned hsame
    rcases plannedFor_of_changed h hplanned with hplanned | ⟨-, hnew, -⟩
    · exact hplanned
    · rw [hsame] at he
      exact absurd rfl (hnew e he)
  have hquiet : w'.executions = w.executions → OncePer w' := by
    intro hsame
    refine ⟨fun p e he e' he' hp hp' => ?_, fun p e he hp hlive => ?_⟩
    · have hp := hbefore he hp hsame
      have hp' := hbefore he' hp' hsame
      rw [hsame] at he he'
      exact hw.one p e he e' he' hp hp'
    · have hp := hbefore he hp hsame
      rw [hsame] at he
      have hstays := hw.stays p e he hp hlive
      obtain ⟨resource, kind, occurrence, rfl⟩ := planned_marker hlived hp
      rcases get_of_changed (p := .marker resource kind occurrence) h (by simp) with
        hget | ⟨k, site, c, -, ok, hstore, -⟩
      · rw [hget]
        exact hstays
      · rw [hstore, Store.get_cons_same rfl]
        rcases marker_of_permits ok with ⟨-, hwrite⟩ | ⟨hnot, -⟩
        · cases hwrite with
          | created hsite absent marker => exact absurd absent hstays
          | removed operation hsite holds idle hc => exact absurd hlive (idle e he hp)
          | completed operation hsite holds marker =>
            obtain ⟨marker, rfl⟩ := marker
            simp
        · exact absurd rfl (hnot _ _ _)
  cases h with
  | @began k _ operation lease ok cond =>
    have hplan : ∀ {p : Path} {e : Execution}, w.plannedFor operation p → e ∈ w.executions →
        w.plannedFor e.operation p → ¬ e.live := fun hp he hp' => (ok.marker _ hp).2 _ he hp'
    refine ⟨fun p e he e' he' hp hp' hlive hlive' => ?_, fun p e he hp hlive => ?_⟩
    · rcases mem_cons.mp he with rfl | he
      · rcases mem_cons.mp he' with rfl | he'
        · rfl
        · exact absurd hlive' (hplan hp he' hp')
      · rcases mem_cons.mp he' with rfl | he'
        · exact absurd hlive (hplan hp' he hp)
        · exact hw.one p e he e' he' hp hp' hlive hlive'
    · rcases mem_cons.mp he with rfl | he
      · obtain ⟨⟨v, -, c, entry, hget, -⟩, -⟩ := ok.marker p hp
        simp [hget]
      · exact hw.stays p e he hp hlive
  | @finished k _ operation outcome drew =>
    refine ⟨fun p e he e' he' hp hp' hlive hlive' => ?_, fun p e he hp hlive => ?_⟩
    · obtain ⟨old, hold, rfl⟩ := List.mem_map.mp he
      obtain ⟨old', hold', rfl⟩ := List.mem_map.mp he'
      simp only [Execution.finished_operation] at hp hp' ⊢
      exact hw.one p old hold old' hold' hp hp' (live_of_finished hlive)
        (live_of_finished hlive')
    · obtain ⟨old, hold, rfl⟩ := List.mem_map.mp he
      simp only [Execution.finished_operation] at hp
      exact hw.stays p old hold hp (live_of_finished hlive)
  | _ => exact hquiet rfl

theorem oncePer (h : LivedIn g C w) : OncePer w := by
  refine h.invariant (fun w hbegins => ?_) fun hlived hw hstep =>
    hw.step hlived (changed_of_step hstep)
  obtain ⟨-, -, hexecutions, -⟩ := hbegins
  have hnone : ∀ e, e ∉ w.executions := by simp [hexecutions]
  exact ⟨fun p e he => absurd he (hnone e), fun p e he => absurd he (hnone e)⟩

/-- A marker that is absent is of no execution under way or succeeded. -/
theorem idle_of_absent (h : LivedIn g C w) (hnone : w.store.get p = none) : w.idle p :=
  fun e he hplanned hlive => (oncePer h).stays p e he hplanned hlive hnone

def ScheduleMarker.sound (marker : ScheduleMarker) (occurrence : ℕ) : Prop :=
  marker.status = "completed" ∨ marker.status = "in_progress" ∧
    ∃ t, marker.startedAt = some (.instant t) ∧ occurrence ≤ t

theorem marker_sound (h : LivedIn g C w) {resource : String} {kind : ActionKind} {occurrence : ℕ}
    {c : Contents} (hget : w.store.get (.marker resource kind occurrence) = some (c, v)) :
    ∃ marker, c = .marker marker ∧ marker.sound occurrence := by
  refine h.invariant (I := fun w => ∀ c v,
    w.store.get (.marker resource kind occurrence) = some (c, v) →
      ∃ marker, c = .marker marker ∧ marker.sound occurrence) (fun w hbegins c v hget => ?_)
    (fun {who w w'} _ hw hstep c v hget => ?_) c v hget
  · simp [hbegins.1] at hget
  · rcases get_of_changed (p := .marker resource kind occurrence) (changed_of_step hstep)
      (by simp) with hsame | ⟨k, site, content, -, ok, hstore, -⟩
    · exact hw c v (hsame ▸ hget)
    · rw [hstore, Store.get_cons_same rfl] at hget
      rcases marker_of_permits ok with ⟨-, hwrite⟩ | ⟨hnot, -⟩
      · cases hwrite with
        | created hsite absent marker =>
          subst hsite
          obtain ⟨resource', kind', occurrence', t, heq, -, hle, -, rfl⟩ := ok
          cases heq
          cases hget
          exact ⟨_, rfl, .inr ⟨rfl, t, rfl, hle⟩⟩
        | removed operation hsite holds idle hc =>
          subst hc
          cases hget
        | completed operation hsite holds marker =>
          subst hsite
          obtain ⟨resource', kind', occurrence', t, heq, -, rfl⟩ := ok
          cases heq
          cases hget
          exact ⟨_, rfl, .inl rfl⟩
      · exact absurd rfl (hnot _ _ _)

theorem removed_by_holder (h : LivedIn g C w) {e : AutonomyEntry} {older : AutonomyStore}
    (hsuffix : (e :: older) <:+ w.store) (hsite : (∃ operation, e.site = .markerDelete operation) ∨
      ∃ operation, e.site = .markerComplete operation) :
    ∃ c v created, older.get e.path = some (c, v) ∧ older.Held v created ∧
      created.site = .markerCreate ∧ created.author = e.author := by
  refine h.invariant (I := fun w => ∀ (e : AutonomyEntry) (older : AutonomyStore),
    (e :: older) <:+ w.store → ((∃ operation, e.site = .markerDelete operation) ∨
      ∃ operation, e.site = .markerComplete operation) →
    ∃ c v created, older.get e.path = some (c, v) ∧ older.Held v created ∧
      created.site = .markerCreate ∧ created.author = e.author)
    (fun w hbegins e older hsuffix => ?_) (fun {who w w'} _ hw hstep e older hsuffix hsite => ?_)
    e older hsuffix hsite
  · rw [hbegins.1, suffix_nil] at hsuffix
    cases hsuffix
  · have hchanged := changed_of_step hstep
    cases hchanged with
    | @wrote k _ site p c ok =>
      rcases suffix_cons_iff.mp hsuffix with heq | hsuffix
      · obtain ⟨rfl, rfl⟩ := List.cons.inj heq
        rcases hsite with ⟨operation, rfl⟩ | ⟨operation, rfl⟩
        · obtain ⟨-, -, ⟨v, -, c, created, hholds⟩, -⟩ := ok
          exact ⟨c, v, created, hholds⟩
        · obtain ⟨resource, kind, occurrence, t, -, ⟨v, -, c, created, hholds⟩, -⟩ := ok
          exact ⟨c, v, created, hholds⟩
      · exact hw e older hsuffix hsite
    | queued =>
      rcases suffix_cons_iff.mp hsuffix with heq | hsuffix
      · obtain ⟨rfl, rfl⟩ := List.cons.inj heq
        rcases hsite with ⟨operation, heq⟩ | ⟨operation, heq⟩
        · cases heq
        · cases heq
      · exact hw e older hsuffix hsite
    | _ => exact hw e older hsuffix hsite

end Stado.Autonomy
