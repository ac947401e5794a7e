import Stado.Protocol.Kept

/-!
# Transition records move forward

A record is prepared, completed and retired, or prepared and aborted. The
program that moves a record compares the stored id and owner with its own but
not the stored state, so a caller that decided on an old read can move the
record backwards; and a mover that derives the same transition once more
installs its record again. Between these the states of one transition follow
the order, and an aborted transition never had its destination written.
-/

namespace Stado

open CasStore List

/-- No step completes a record that was retired, aborts one whose source was
cleaned, or installs a record under an id that was recorded; and no document is
removed. -/
def forwardRecords : Condition := fun l _ site change =>
  match site, change with
  | .setState t .completed, some _ => ¬ Recorded l t .retired
  | .setState t .aborted, some _ => ¬ Cleaned l t
  | .installRecord t, some _ => ¬ Recorded l t .prepared
  | site, some _ => site.removes = false
  | _, none => True

theorem kept_forwardRecords : Kept forwardRecords := by
  intro l i site change h
  cases site <;> first | rfl | exact h

variable {l : ObjectStore} {e : StoreEntry} {t : TransitionId} {r : JobTransition}

/-! ## The states of one transition -/

def stateWritten (t : TransitionId) (e : StoreEntry) : Option TransitionState :=
  match e.content with
  | some (.transition r) =>
    if e.path = .transition t.jobId ∧ r.transitionId = t then some r.state else none
  | _ => none

def statesOf (l : ObjectStore) (t : TransitionId) : List TransitionState :=
  l.filterMap (stateWritten t)

/-- The sequences of states a transition may go through, newest first. -/
def forwardSequences : List (List TransitionState) :=
  [[], [.prepared], [.completed, .prepared], [.retired, .completed, .prepared],
    [.aborted, .prepared]]

theorem mem_statesOf {s : TransitionState} : s ∈ statesOf l t ↔ Recorded l t s := by
  unfold statesOf Recorded
  rw [mem_filterMap]
  constructor
  · rintro ⟨e, he, hs⟩
    obtain ⟨v, hv⟩ := Store.held_of_mem he
    unfold stateWritten at hs
    split at hs
    · next r hc =>
      split at hs
      · next hcond =>
        cases hs
        exact ⟨v, e, r, hv, hcond.1, hc, hcond.2, rfl⟩
      · cases hs
    · cases hs
  · rintro ⟨v, e, r, he, hp, hc, hid, hs⟩
    refine ⟨e, he.mem, ?_⟩
    simp only [stateWritten, hc, hp, hid, hs, and_self, if_true]

theorem statesOf_cons : statesOf (e :: l) t = (stateWritten t e).toList ++ statesOf l t := by
  unfold statesOf
  rw [filterMap_cons]
  cases stateWritten t e <;> rfl

theorem stateWritten_none (h : e.path ≠ .transition t.jobId) : stateWritten t e = none := by
  unfold stateWritten
  split
  · simp [h]
  · rfl

theorem stateWritten_some (hp : e.path = .transition t.jobId)
    (hc : e.content = some (.transition r)) (hid : r.transitionId = t) :
    stateWritten t e = some r.state := by
  simp [stateWritten, hc, hp, hid]

theorem statesOf_current {v : Nat} (hget : l.get (.transition t.jobId) = some (.transition r, v))
    (hid : r.transitionId = t) : ∃ rest, statesOf l t = r.state :: rest := by
  induction l with
  | nil => cases hget
  | cons e l ih =>
    rw [statesOf_cons]
    by_cases hp : e.path = .transition t.jobId
    · rw [Store.get_cons_same hp, Option.map_eq_some_iff] at hget
      obtain ⟨c, hc, heq⟩ := hget
      cases heq
      exact ⟨statesOf l t, by rw [stateWritten_some hp hc hid]; rfl⟩
    · rw [Store.get_cons_other hp] at hget
      rw [stateWritten_none hp]
      exact ih hget

/-- Whether a write rewrites the source of the transition as its sentinel. -/
def cleans (t : TransitionId) (e : StoreEntry) : Bool :=
  match e.content with
  | some (.job job) => decide (e.path = t.source ∧ job.state = .transitionCleaned t)
  | _ => false

theorem cleans_iff : cleans t e = true ↔ e.path = t.source ∧
    ∃ job, e.content = some (.job job) ∧ job.state = .transitionCleaned t := by
  unfold cleans
  split
  · next job hc => simp [hc]
  · next hnot =>
    simp only [Bool.false_eq_true, false_iff]
    rintro ⟨-, job, hc, -⟩
    exact hnot job hc

theorem cleaned_iff : Cleaned l t ↔ l.any (cleans t) = true := by
  simp only [List.any_eq_true, cleans_iff, ← Store.exists_held_iff, Cleaned, exists_and_left]

instance (l : ObjectStore) (t : TransitionId) (s : TransitionState) : Decidable (Recorded l t s) :=
  decidable_of_iff _ mem_statesOf

instance (l : ObjectStore) (t : TransitionId) : Decidable (Cleaned l t) :=
  decidable_of_iff _ cleaned_iff.symm

/-- `forwardRecords`, computed. -/
def forwardRecordsHolds (l : ObjectStore) (site : Site) (change : Option (Change Path Contents)) :
    Bool :=
  match site, change with
  | .setState t .completed, some _ => decide (¬ Recorded l t .retired)
  | .setState t .aborted, some _ => decide (¬ Cleaned l t)
  | .installRecord t, some _ => decide (¬ Recorded l t .prepared)
  | site, some _ => !site.removes
  | _, none => true

theorem forwardRecordsHolds_iff {i : Nat} {site : Site} {change : Option (Change Path Contents)} :
    forwardRecordsHolds l site change = true ↔ forwardRecords l i site change := by
  unfold forwardRecordsHolds forwardRecords
  split <;> simp

instance (l : ObjectStore) (i : Nat) (site : Site) (change : Option (Change Path Contents)) :
    Decidable (forwardRecords l i site change) :=
  decidable_of_iff _ forwardRecordsHolds_iff

theorem not_fenced_of_aborted (h : History (lifecycle forwardRecords) l)
    (hr : Recorded l t .aborted) : ¬ Fenced l t := by
  obtain ⟨v, e, r, he, hp, hc, hid, hs⟩ := hr
  obtain ⟨older, hpast, -, hal, hcond⟩ := held_allowed h he
  have hpast' := pastOf_of_cons hpast
  have hist := h.of_suffix hpast'
  cases hal.recordWrite hp with
  | records r' wf prepared source free =>
    cases hc
    rw [prepared] at hs
    cases hs
  | moves u s prev w hget hprev differs basis =>
    cases hc
    have hu : u = t := hprev.symm.trans hid
    subst hu
    cases hs
    have basis : AbortedBasis older u := basis
    exact not_fenced_of_dead h hpast' (MoveBasis.superseded hist (s := .aborted) basis)
      (not_fenced_of_left kept_forwardRecords hist basis hcond)
  | retires u prev w hget hprev state basis =>
    cases hc
    cases hs

theorem forward_step (h : History (lifecycle forwardRecords) (e :: l))
    (ih : statesOf l t ∈ forwardSequences) : statesOf (e :: l) t ∈ forwardSequences := by
  have hist := h.tail
  have hcond : forwardRecords l e.author e.site (some (e.path, e.content)) := h.cond
  rw [statesOf_cons]
  by_cases hp : e.path = .transition t.jobId
  · have other : ∀ {r : JobTransition}, e.content = some (.transition r) →
        r.transitionId ≠ t → stateWritten t e = none := fun hc hid => by
      simp [stateWritten, hc, hid]
    cases (show Allowed l e from h.allowed).recordWrite hp with
    | records r wf prepared source free =>
      by_cases hid : r.transitionId = t
      · -- Nothing was recorded under this id before.
        subst hid
        have hempty : statesOf l r.transitionId = [] := by
          refine eq_nil_iff_forall_not_mem.mpr fun s hs => ?_
          exact hcond ((mem_statesOf.mp hs).prepared hist).1
        simp [stateWritten, hempty, prepared, forwardSequences]
      · rw [other rfl hid]
        exact ih
    | moves u s prev v hget hprev differs basis =>
      by_cases hid : prev.transitionId = t
      · have hu : u = t := hprev.symm.trans hid
        subst hu
        obtain ⟨rest, hrest⟩ := statesOf_current hget hprev
        rw [stateWritten_some (r := { prev with state := s }) rfl rfl hprev, hrest]
        rw [hrest] at ih
        have recorded : ∀ {s'}, s' ∈ prev.state :: rest → Recorded l u s' := fun hs' =>
          mem_statesOf.mp (hrest ▸ hs')
        -- The new state, the old one and what came before it.
        simp only [forwardSequences, mem_cons, List.cons.injEq, not_mem_nil,
          or_false, reduceCtorEq, false_or] at ih
        cases s with
        | completed =>
          have hfen : Fenced l u := CompletedBasis.fenced kept_forwardRecords hist basis
          rcases ih with ⟨hs, rfl⟩ | ⟨hs, rfl⟩ | ⟨hs, rfl⟩ | ⟨hs, rfl⟩
          · simp [hs, forwardSequences]
          · exact absurd hs differs
          · exact absurd (recorded (by simp [hs])) hcond
          · exact absurd hfen (not_fenced_of_aborted hist (recorded (by simp [hs])))
        | aborted =>
          have hnot : ¬ Fenced l u := not_fenced_of_left kept_forwardRecords hist basis hcond
          have notCompleted : ¬ Recorded l u .completed := fun hr =>
            hnot (hr.fenced kept_forwardRecords hist)
          rcases ih with ⟨hs, rfl⟩ | ⟨hs, rfl⟩ | ⟨hs, rfl⟩ | ⟨hs, rfl⟩
          · simp [hs, forwardSequences]
          · exact absurd (recorded (by simp [hs])) notCompleted
          · exact absurd (recorded (by simp)) notCompleted
          · exact absurd hs differs
        | _ => exact basis.elim
      · rw [other rfl hid]
        exact ih
    | retires u prev v hget hprev state basis =>
      by_cases hid : prev.transitionId = t
      · have hu : u = t := hprev.symm.trans hid
        subst hu
        obtain ⟨rest, hrest⟩ := statesOf_current hget hprev
        rw [stateWritten_some (r := { prev with state := .retired }) rfl rfl hprev, hrest, state]
        rw [hrest, state] at ih
        simp only [forwardSequences, mem_cons, List.cons.injEq, not_mem_nil,
          or_false, reduceCtorEq, false_or, false_and, true_and] at ih
        simp [ih, forwardSequences]
      · rw [other rfl hid]
        exact ih
  · rw [stateWritten_none hp]
    exact ih

theorem forward_states (h : History (lifecycle forwardRecords) l) (t : TransitionId) :
    statesOf l t ∈ forwardSequences := by
  induction h with
  | nil => exact mem_cons_self
  | cons older allowed cond ih => exact forward_step (.cons older allowed cond) ih

/-! ## Runs -/

structure RecordsForward (l : ObjectStore) : Prop where
  order : ∀ t, statesOf l t ∈ forwardSequences
  aborted : ∀ t, TransitionState.aborted ∈ statesOf l t → ¬ Placed l t

/-- A helper reads the record prepared. The worker finishes its claim, and the
helper resumes: it finds the source cleaned and aborts the retired record. -/
def aborting : List QueueEvent :=
  claiming 4 ++ .start (.recover "j") 9 :: calls 2 1 ++ calls 1 15 ++ calls 2 3

end Stado
