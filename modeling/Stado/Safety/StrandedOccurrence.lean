import Stado.Schedules.Attempts
import Stado.Schedules.Recovery

/-!
# No failed attempt strands its occurrence

Wherever no call of an attempt fails while its client's claim stands, except
the calls of its submission, every occurrence that is pending is in the middle
of an attempt or was handed back, and the next turn of a sweep settles it.
-/

namespace Stado.Schedules

open CasStore Program

variable {lib : Libraries} {s : ScheduleSystem}

/-- Every pending occurrence is in the middle of an attempt that has not
returned, or was handed back and is settled by the next turn of a sweep. -/
def NeverStranded (lib : Libraries) (s : ScheduleSystem) : Prop :=
  ∀ id sched p, Standing s.store id sched → sched.pendingOccurrence = some p →
    (∃ i t, claimant id s.store = some i ∧ s.tasks[i]? = some t ∧ t.program.result = none) ∨
      (Released p ∧ ∀ i fuel now, 0 < fuel →
        Recovers i (fireDueSchedule lib fuel now id) (fun _ l' => Settled l' id) s.store)

/-- Runs in which a call is lost, or the beginning of an occurrence refused, only
where its client has no claim or is submitting. -/
abbrev SparingRuns (lib : Libraries) (s : ScheduleSystem) : Prop :=
  System.Reaches (schedules lib)
    (fun s ev => s.Respects (scheduling lib beginsClaimed) ev ∧ s.Spares spared ev) ⟨[], []⟩ s

section History

variable {cond : Condition} {l : ScheduleStore} {id : String}

theorem claimant_held {i : Nat} (h : claimant id l = some i) :
    ∃ v e, l.Held v e ∧ e.author = i := by
  induction l with
  | nil => cases h
  | cons e older ih =>
    have earlier (hclaim : claimant id older = some i) :
        ∃ v f, Store.Held (e :: older) v f ∧ f.author = i := by
      obtain ⟨v, f, hf, hauthor⟩ := ih hclaim
      exact ⟨v, f, hf.mono (List.suffix_cons _ _), hauthor⟩
    unfold claimant at h
    split at h
    · split at h
      · exact ⟨_, e, Store.held_cons_self _ _, Option.some.inj h⟩
      · split at h
        · cases h
        · exact earlier h
    · exact earlier h

/-- A write that leaves an occurrence without a claim releases it, or leaves none
pending. -/
theorem Writes.disclaimed {site : Site} {old new : Schedule} (h : Writes lib l id site old new)
    (hdisclaims : site.disclaims = true) : ∀ p, new.pendingOccurrence = some p → Released p := by
  intro p hp
  cases h with
  | release _ =>
    cases hp
    exact ⟨rfl, rfl⟩
  | abandon _ _ => cases hp
  | accept _ _ _ _ => cases hp
  | _ => cases hdisclaims

theorem released_of_unclaimed (h : History (scheduling lib cond) l) :
    ∀ sched v p, l.get (.schedule id) = some (.schedule sched, v) → claimant id l = none →
      sched.pendingOccurrence = some p → Released p := by
  induction h with
  | nil =>
    intro sched v p hget
    cases hget
  | @cons s e older allowed hcond ih =>
    intro sched v p hget hclaim hp
    rcases record_cases (.cons older allowed hcond) hget with ⟨hpath, hold⟩ |
      ⟨hpath, -, hdeclares | ⟨old, w, hold, hwrites⟩⟩
    · rw [claimant_other hpath] at hclaim
      exact ih sched v p hold hclaim hp
    · rw [hdeclares.unreserved] at hp
      cases hp
    · rw [claimant_cons hpath] at hclaim
      by_cases hclaims : e.site.claims = true
      · rw [if_pos hclaims] at hclaim
        cases hclaim
      · by_cases hdisclaims : e.site.disclaims = true
        · exact hwrites.disclaimed hdisclaims p hp
        · rw [if_neg hclaims, if_neg hdisclaims] at hclaim
          rw [hwrites.pending_same (Bool.eq_false_iff.mpr hclaims)
            (Bool.eq_false_iff.mpr hdisclaims)] at hp
          exact ih old w p hold hclaim hp

end History

theorem SparingRuns.runs (h : SparingRuns lib s) : Runs lib beginsClaimed s :=
  h.mono fun _ _ hok => hok.1

theorem free_of_ended (h : SparingRuns lib s) {i : Nat}
    {t : Task Path Contents Site Error Query Operation Outcome} {r : Except Error Outcome}
    (ht : s.tasks[i]? = some t) (hr : t.program.result = some r) : Free i s.store := by
  have hensured : System.Ensured (scheduling lib beginsClaimed) spared
      (fun _ i _ l => Free i l) s :=
    System.Ensured.reaches System.Ensured.initial
      (fun s' hs' => schedules_sound (SparingRuns.runs hs'))
      (fun op fuel i l hist hfresh => attempts_operation hist (free_of_fresh hfresh))
      (fun _ _ hok => hok) h
  obtain ⟨l, hl, -, hfree⟩ := hensured.result ht hr
  exact hfree.idle hl (schedules_sound h.runs).history

/-- **No occurrence is stranded** in a run that spares the calls of attempts. -/
theorem never_stranded {s : ScheduleSystem} (h : SparingRuns lib s) : NeverStranded lib s := by
  intro id sched p hstands hp
  have hsound := schedules_sound h.runs
  obtain ⟨v, hget⟩ := hstands
  cases hclaim : claimant id s.store with
  | none =>
    have hreleased := released_of_unclaimed hsound.history sched v p hget hclaim hp
    refine Or.inr ⟨hreleased, fun i fuel now hfuel => ?_⟩
    exact recovers_fireDueSchedule hfuel ⟨v, hget⟩ (named_of_get hsound.history hget) hp
      hreleased fun c w hrun => run_of_get hsound.history hrun
  | some i =>
    obtain ⟨w, e, he, hauthor⟩ := claimant_held hclaim
    have hlt := hsound.authors w e he
    rw [hauthor] at hlt
    refine Or.inl ⟨i, s.tasks[i], rfl, List.getElem?_eq_getElem hlt, ?_⟩
    cases hr : s.tasks[i].program.result with
    | none => rfl
    | some r =>
      exact absurd hclaim (free_of_ended h (List.getElem?_eq_getElem hlt) hr id)

/-! ## Failures that spare the claim, and one that does not -/

/-- A sweep reserves and begins an occurrence, and its submission fails. -/
def submissionLost : List ScheduleEvent :=
  [.start (.declare everyMinute) 0, .call 0, .start (.sweep 60000000) 2, .call 1, .call 1,
    .answer 1 (.word "o1"), .call 1, .answer 1 (.process ⟨"h", 1⟩), .call 1, .call 1, .call 1,
    .answer 1 (.said none), .lose 1 false, .call 1, .call 1]

/-- A sweep reserves an occurrence, and the read it begins with fails. -/
def beginningLost : List ScheduleEvent :=
  [.start (.declare everyMinute) 0, .call 0, .start (.sweep 60000000) 2, .call 1, .call 1,
    .answer 1 (.word "o1"), .call 1, .answer 1 (.process ⟨"h", 1⟩), .call 1, .lose 1 false]

def stranded (id : String) (s : ScheduleSystem) : Bool :=
  match s.store.get (.schedule id), claimant id s.store with
  | some (.schedule sched, _), some i =>
    (sched.pendingOccurrence.any fun p => decide (p.ownerProcess ≠ .none)) &&
      s.tasks[i]?.all fun t => t.program.result.isSome
  | _, _ => false

/-- Client `i` has returned, and the occurrence of the schedule is still pending. -/
def pendingAfter (i : Nat) (id : String) (s : ScheduleSystem) : Bool :=
  (s.tasks[i]?.any fun t => t.program.result.isSome) &&
    match s.store.get (.schedule id) with
    | some (.schedule sched, _) => sched.pendingOccurrence.isSome
    | _ => false

theorem never_stranded_submission_lost :
    ∃ s : ScheduleSystem, pendingAfter 1 "sch-1" s = true ∧ NeverStranded minutes s := by
  obtain ⟨s, hs, hpending⟩ : ∃ s, SparingRuns minutes s ∧ pendingAfter 1 "sch-1" s = true :=
    System.exists_exec submissionLost (by decide +kernel)
  exact ⟨s, hpending, never_stranded hs⟩

theorem not_neverStranded {id : String} (h : stranded id s = true) : ¬ NeverStranded lib s := by
  intro hnever
  unfold stranded at h
  split at h
  · next sched v i hget hclaim =>
    rw [Bool.and_eq_true] at h
    obtain ⟨hheld, hreturned⟩ := h
    cases hp : sched.pendingOccurrence with
    | none =>
      rw [hp] at hheld
      cases hheld
    | some p =>
      rw [hp] at hheld
      rcases hnever id sched p ⟨v, hget⟩ hp with ⟨j, t, hj, ht, hresult⟩ | ⟨hreleased, -⟩
      · rw [hclaim] at hj
        cases hj
        rw [ht] at hreturned
        simp [hresult] at hreturned
      · exact of_decide_eq_true hheld hreleased.1
  · cases h

theorem stranded_by_beginning_lost :
    ¬ ∀ s, Runs minutes anyStep s → NeverStranded minutes s := by
  intro hall
  obtain ⟨s, hs, hstranded⟩ : ∃ s, Runs minutes anyStep s ∧ stranded "sch-1" s = true :=
    System.exists_exec beginningLost (by decide +kernel)
  exact not_neverStranded hstranded (hall s hs)

end Stado.Schedules
