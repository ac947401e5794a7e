import Stado.Protocol.Kept
import Stado.Protocol.LoneRecovery

/-!
# A fenced source is recoverable

While the source of a transition is fenced, the job's record is that transition,
prepared, or completed with its destination standing. So a recovery that runs
alone finishes the move. A record is kept from being replaced while it is
prepared; the step excluded here replaces a completed record whose source is
still fenced, which a mover that is not pinned to a version can do when the
owner stopped between completing the record and cleaning the source.
-/

namespace Stado

open CasStore List Option System Store

def fencedFor (l : ObjectStore) (t : TransitionId) : Bool :=
  match l.get t.source with
  | some (.job job, _) => decide (job.state = .transitioning t)
  | _ => false

theorem fencedNow_iff {l : ObjectStore} {t : TransitionId} :
    FencedNow l t ↔ fencedFor l t = true := by
  unfold fencedFor FencedNow
  split
  · next job v hget => simp [hget]
  · next hnot =>
    simp only [Bool.false_eq_true, iff_false]
    rintro ⟨job, v, hget, -⟩
    exact hnot job v hget

instance (l : ObjectStore) (t : TransitionId) : Decidable (FencedNow l t) :=
  decidable_of_iff _ fencedNow_iff.symm

def currentRecord (l : ObjectStore) (jobId : String) : Option JobTransition :=
  match l.get (.transition jobId) with
  | some (.transition r, _) => some r
  | _ => none

/-- No record is replaced while the source of its transition is fenced; and no
document is removed. -/
def recoverableFences : Condition := fun l _ site change =>
  match site, change with
  | .installRecord t, some _ => ∀ r ∈ currentRecord l t.jobId, ¬ FencedNow l r.transitionId
  | site, some _ => site.removes = false
  | _, none => True

/-- `recoverableFences`, computed. -/
def recoverableFencesHolds (l : ObjectStore) (site : Site) (change : Option (Change Path Contents)) :
    Bool :=
  match site, change with
  | .installRecord t, some _ =>
    decide (∀ r ∈ currentRecord l t.jobId, ¬ FencedNow l r.transitionId)
  | site, some _ => !site.removes
  | _, none => true

theorem recoverableFencesHolds_iff {l : ObjectStore} {i : Nat} {site : Site}
    {change : Option (Change Path Contents)} :
    recoverableFencesHolds l site change = true ↔ recoverableFences l i site change := by
  unfold recoverableFencesHolds recoverableFences
  split <;> simp

instance (l : ObjectStore) (i : Nat) (site : Site) (change : Option (Change Path Contents)) :
    Decidable (recoverableFences l i site change) :=
  decidable_of_iff _ recoverableFencesHolds_iff

theorem kept_recoverableFences : Kept recoverableFences := by
  intro l i site change h
  cases site <;> first | rfl | exact h

variable {l l0 l1 : ObjectStore} {e : StoreEntry} {t u : TransitionId} {jobId : String}

/-! ## What stands behind a fence -/

/-- Behind every fence is its record, prepared, or completed with the
destination standing. -/
def Recoverable (l : ObjectStore) : Prop :=
  ∀ t, FencedNow l t → RecordNow l t .prepared ∨
    (RecordNow l t .completed ∧ Live l t.toPrefix t.jobId)

theorem RecordNow.unique {s s' : TransitionState} (h : RecordNow l t s) (h' : RecordNow l u s')
    (hj : t.jobId = u.jobId) : t = u ∧ s = s' := by
  obtain ⟨r, v, hget, rfl, rfl⟩ := h
  obtain ⟨r', v', hget', rfl, rfl⟩ := h'
  rw [hj, hget'] at hget
  cases hget
  exact ⟨rfl, rfl⟩

theorem Recoverable.recordNow (h : Recoverable l) (hf : FencedNow l t) : ∃ s, RecordNow l t s := by
  rcases h t hf with hr | ⟨hr, -⟩
  · exact ⟨_, hr⟩
  · exact ⟨_, hr⟩

theorem FencedNow.before (h : History (lifecycle recoverableFences) l) (hs : l0.PastOf l)
    (hfen : Fenced l0 t) (hnow : FencedNow l t) : FencedNow l0 t := by
  by_contra hnot
  exact not_fencedNow_of_left h hs (hfen.superseded (h.of_suffix hs)) hnot hnow

theorem AbortedBasis.not_fencedNow (h : History (lifecycle recoverableFences) l)
    (basis : AbortedBasis l t) : ¬ FencedNow l t := by
  rcases basis with ⟨l0, hl0, hleft⟩ | hgone
  · exact hleft.not_fencedNow h hl0
  · exact absurd hgone (not_sourceGone kept_recoverableFences h)

theorem not_fencedNow_of_aborted (h : History (lifecycle recoverableFences) l)
    (hr : Recorded l t .aborted) : ¬ FencedNow l t := by
  obtain ⟨older, hpast, hist, basis | ⟨hfalse, -⟩⟩ := recorded_write h hr (by simp)
  · obtain ⟨l0, hl0, hleft⟩ | hgone := (show AbortedBasis older t from basis)
    · exact hleft.not_fencedNow h (hl0.trans hpast)
    · exact absurd hgone (not_sourceGone kept_recoverableFences hist)
  · cases hfalse

/-- Under a fence a destination that stands goes on standing: its own move would
have to be the job's record. -/
theorem live_step (h : History (lifecycle recoverableFences) (e :: l)) (hl : Recoverable l)
    (hnow : FencedNow l t) (hlive : Live l t.toPrefix t.jobId) :
    Live (e :: l) t.toPrefix t.jobId := by
  have hist := h.tail
  by_cases hp : e.path = t.target
  · have hsite := kept_recoverableFences _ e.author _ _ h.cond
    obtain ⟨v, job, hget, hstate⟩ := hlive
    have hget : l.get t.target = some (.job job, v) := hget
    rw [live_cons_same hp]
    rw [← hp] at hget
    cases (show Allowed l e from h.allowed).documentWrite hp with
    | admits job' state absent =>
      rw [hget] at absent
      cases absent
    | fences u source hget' recorded =>
      obtain ⟨s, hrec⟩ := hl.recordNow hnow
      obtain ⟨hdoc, hj⟩ := Path.document.inj hp
      obtain ⟨rfl, -⟩ := hrec.unique (record_of_current hist recorded hget') hj.symm
      exact absurd hdoc ((hnow.fenced.recorded hist).prepared hist).2.1
    | places u fenced free =>
      obtain ⟨hdoc, -⟩ := Path.document.inj hp
      exact ⟨u.destinationJob, rfl, by rw [← hdoc]; rfl⟩
    | cleans u source w hget' state completed =>
      rw [hget] at hget'
      cases hget'
      rw [state] at hstate
      exact absurd hstate.symm (prefixState_ne_transitioning _ _)
    | renews j job' w lease hget' state =>
      rw [hget] at hget'
      cases hget'
      exact ⟨_, rfl, hstate⟩
    | rewrites j job' w fields hget' state same =>
      rw [hget] at hget'
      cases hget'
      exact ⟨_, rfl, hstate⟩
    | _ => cases hsite
  · exact (live_cons_other hp).mpr hlive

theorem live_while_fenced (h : History (lifecycle recoverableFences) l)
    (past : ∀ l', l'.PastOf l → Recoverable l') (hs : l0.PastOf l) (hfen : Fenced l0 t)
    (hlive : Live l0 t.toPrefix t.jobId) (hnow : FencedNow l t) : Live l t.toPrefix t.jobId := by
  induction h with
  | nil =>
    rw [suffix_nil.mp hs] at hlive
    exact hlive
  | @cons l e older allowed hcond ih =>
    have hist : History (lifecycle recoverableFences) (e :: l) := .cons older allowed hcond
    rcases suffix_cons_iff.mp hs with rfl | hpast
    · exact hlive
    · have hbefore := hnow.before hist (suffix_cons _ _) (hfen.mono hpast)
      have hl := ih (fun l' hl' => past l' (hl'.trans (suffix_cons _ _))) hpast hbefore
      exact live_step hist (past l (suffix_cons _ _)) hbefore hl

theorem completed_while_fenced (h : History (lifecycle recoverableFences) l)
    (past : ∀ l', l'.PastOf l → Recoverable l') (hs : l0.PastOf l)
    (hcompleted : RecordNow l0 t .completed) (hnow : FencedNow l t) : RecordNow l t .completed := by
  have hfen : Fenced l0 t := hcompleted.recorded.fenced kept_recoverableFences (h.of_suffix hs)
  induction h with
  | nil =>
    rw [suffix_nil.mp hs] at hcompleted
    exact hcompleted
  | @cons l e older allowed hcond ih =>
    have hist : History (lifecycle recoverableFences) (e :: l) := .cons older allowed hcond
    rcases suffix_cons_iff.mp hs with rfl | hpast
    · exact hcompleted
    · have hbefore := hnow.before hist (suffix_cons _ _) (hfen.mono hpast)
      have hl := ih (fun l' hl' => past l' (hl'.trans (suffix_cons _ _))) hpast hbefore
      rcases past _ (suffix_refl _) t hnow with hprepared | ⟨hrec, -⟩
      · obtain ⟨r, v, hget, hid, hstate⟩ := hl
        have hp : e.path = .transition t.jobId := by
          by_contra hp
          obtain ⟨r', v', hget', -, hstate'⟩ := hprepared
          rw [get_cons_other hp, hget] at hget'
          cases hget'
          rw [hstate] at hstate'
          cases hstate'
        obtain ⟨r', v', hget', hid', hstate'⟩ := hprepared
        rw [get_cons_same hp, map_eq_some_iff] at hget'
        obtain ⟨c, hc, heq⟩ := hget'
        cases heq
        -- Only a mover writes a prepared record, and it found `t` fenced.
        cases (show Allowed l e from allowed).recordWrite hp with
        | records r'' wf prepared source free =>
          have hj : r''.transitionId.jobId = t.jobId := Path.transition.inj hp
          have hnot : ∀ r ∈ currentRecord l r''.transitionId.jobId,
              ¬ FencedNow l r.transitionId := hcond
          refine absurd hbefore ?_
          rw [← hid]
          refine hnot r ?_
          rw [hj, currentRecord, hget]
          rfl
        | moves u s prev w hget' hprev differs basis =>
          cases hc
          cases hstate'
          exact basis.elim
        | retires u prev w hget' hprev state basis =>
          cases hc
          cases hstate'
      · exact hrec

theorem recoverable_step (h : History (lifecycle recoverableFences) (e :: l))
    (past : ∀ l', l'.PastOf l → Recoverable l') : Recoverable (e :: l) := by
  intro t hnow
  have hist := h.tail
  have hcond : recoverableFences l e.author e.site (some (e.path, e.content)) := h.cond
  have hsite := kept_recoverableFences _ e.author _ _ hcond
  have hIH := past l (suffix_refl _)
  by_cases hsource : e.path = t.source
  · -- The fence itself was just taken, over the version its record names.
    obtain ⟨job, v, hget, hs⟩ := hnow
    rw [get_cons_same hsource, map_eq_some_iff] at hget
    obtain ⟨c, hc, heq⟩ := hget
    cases heq
    obtain ⟨-, hrec, source, hcur⟩ := fence_taken h hsource hc hs
    left
    obtain ⟨r, v, hget, hrest⟩ := record_of_current hist hrec hcur
    refine ⟨r, v, ?_, hrest⟩
    rw [get_cons_other (by rw [hsource]; simp)]
    exact hget
  · have hbefore : FencedNow l t := by
      obtain ⟨job, v, hget, hs⟩ := hnow
      rw [get_cons_other hsource] at hget
      exact ⟨job, v, hget, hs⟩
    by_cases hp : e.path = .transition t.jobId
    · obtain ⟨s, r, v, hget, hid, hstate⟩ := hIH.recordNow hbefore
      have same : ∀ {prev : JobTransition} {w : Nat} {u : TransitionId},
          Path.transition u.jobId = .transition t.jobId →
          l.get (.transition u.jobId) = some (.transition prev, w) → prev.transitionId = u →
          u = t := by
        intro prev w u hj hprev hprevId
        rw [hj, hget] at hprev
        cases hprev
        exact hprevId.symm.trans hid
      cases (show Allowed l e from h.allowed).recordWrite hp with
      | records r' wf prepared source free =>
        have hj : r'.transitionId.jobId = t.jobId := Path.transition.inj hp
        have hnot : ∀ r ∈ currentRecord l r'.transitionId.jobId,
            ¬ FencedNow l r.transitionId := hcond
        refine absurd hbefore ?_
        rw [← hid]
        refine hnot r ?_
        rw [hj, currentRecord, hget]
        rfl
      | moves u s' prev w hget' hprev differs basis =>
        obtain rfl := same hp hget' hprev
        cases s' with
        | completed =>
          refine .inr ⟨⟨{ prev with state := .completed }, l.length, ?_, hprev, rfl⟩, ?_⟩
          · rw [get_cons_same rfl]
            rfl
          · rw [live_cons_other (by simp)]
            rcases basis.2 with ⟨l0, hl0, hfen, w', job, hlive, -⟩ | ⟨haborted, -⟩ | hgone
            · exact live_while_fenced hist past hl0 hfen ⟨w', job, hlive⟩ hbefore
            · exact absurd hbefore (not_fencedNow_of_aborted hist haborted)
            · exact absurd hgone (not_sourceGone kept_recoverableFences hist)
        | aborted => exact absurd hbefore (AbortedBasis.not_fencedNow hist basis)
        | _ => exact basis.elim
      | retires u prev w hget' hprev state basis =>
        obtain rfl := same hp hget' hprev
        rcases basis with ⟨l0, hl0, hleft⟩ | hgone | ⟨l1, l0, h1, h0, hrec, hnot⟩
        · exact absurd hbefore (hleft.not_fencedNow hist hl0)
        · exact absurd hgone (not_sourceGone kept_recoverableFences hist)
        · -- The destination was seen gone while the record stood completed behind the fence.
          have hist0 := hist.of_suffix h0
          have hfen := hrec.recorded.fenced kept_recoverableFences (hist0.of_suffix h1)
          have hnow0 := hbefore.before hist h0 (hfen.mono h1)
          have past0 : ∀ l', l'.PastOf l0 → Recoverable l' := fun l' hl' => past l' (hl'.trans h0)
          rcases past l0 h0 u hnow0 with hprepared | ⟨-, hlive⟩
          · have hcompleted := completed_while_fenced hist0 past0 h1 hrec hnow0
            obtain ⟨-, hs⟩ := hprepared.unique hcompleted rfl
            cases hs
          · exact absurd hlive hnot
    · have kept : ∀ {s}, RecordNow l t s → RecordNow (e :: l) t s := by
        rintro s ⟨r, v, hget, hrest⟩
        refine ⟨r, v, ?_, hrest⟩
        rw [get_cons_other hp]
        exact hget
      exact (hIH t hbefore).imp kept fun hrec =>
        ⟨kept hrec.1, live_step h hIH hbefore hrec.2⟩

theorem recoverable (h : History (lifecycle recoverableFences) l) : Recoverable l := by
  suffices hall : ∀ l', l'.PastOf l → Recoverable l' from hall l (suffix_refl _)
  induction h with
  | nil =>
    intro l' hl' t hnow
    rw [suffix_nil.mp hl'] at hnow
    obtain ⟨job, v, hget, -⟩ := hnow
    cases hget
  | @cons l e older allowed hcond ih =>
    intro l' hl'
    rcases suffix_cons_iff.mp hl' with rfl | hl'
    · exact recoverable_step (.cons older allowed hcond) ih
    · exact ih l' hl'

/-! ## Recovery -/

/-- The record behind a fence with what a lone recovery of it needs. -/
theorem inFlight (h : History (lifecycle recoverableFences) l) (hnow : FencedNow l t) :
    ∃ owner state, InFlight l t owner state ∧
      ((state = .prepared ∧ (l.get t.target = none ∨ ∃ job v,
          l.get t.target = some (.job job, v) ∧ (isTransitionCleanedState job.state = true ∨
            (job.state = prefixState t.toPrefix ∧ job.submission = t.destination.submission)))) ∨
        (state = .completed ∧ Stands l t)) := by
  have hrecoverable := recoverable h
  obtain ⟨-, distinct, -, f, source, hf, hfp, hfc, -, hsub⟩ := (hnow.fenced.recorded h).prepared h
  have only : ∀ {u}, FencedNow l u → u.jobId = t.jobId → u = t := by
    intro u hu hj
    obtain ⟨s, hs⟩ := hrecoverable.recordNow hu
    obtain ⟨s', hs'⟩ := hrecoverable.recordNow hnow
    exact (hs.unique hs' hj).1
  have others : Unfenced l t.jobId (some t.fromPrefix) := by
    intro p hp job v hget u hu
    obtain ⟨job', hjob, -, hstate⟩ := document_get h hget
    cases hjob
    generalize hs : job.state = s at hstate
    cases hstate with
    | live => exact prefixState_ne_transitioning _ _ (hs.symm.trans hu)
    | fenced w hsource =>
      obtain ⟨hfrom, hj⟩ := Path.document.inj hsource
      obtain rfl := only (u := w) ⟨job, v, by rw [hsource]; exact hget, hs⟩ hj
      exact hp (by rw [hfrom])
    | cleaned w hsource =>
      rw [hu] at hs
      cases hs
  have submission : ∀ {job v}, l.get t.target = some (.job job, v) →
      job.submission = t.destination.submission := by
    intro job v hget
    obtain ⟨g, hg, hgp, hgc⟩ := get_held hget
    rw [hsub]
    exact submission_unique kept_recoverableFences h (document_admitted h hg hgp hgc)
      (document_admitted h hf hfp hfc)
  have flight : ∀ {s}, RecordNow l t s → ∃ owner, InFlight l t owner s := by
    rintro s ⟨r, v, hget, hid, hs⟩
    obtain ⟨r', hr', wf, -⟩ := record_get h hget
    cases hr'
    exact ⟨r.owner, distinct, ⟨r, v, hget, wf, hid, rfl, hs⟩, hnow, others⟩
  rcases hrecoverable t hnow with hprepared | ⟨hcompleted, v, job, hget, hs⟩
  · obtain ⟨owner, hflight⟩ := flight hprepared
    refine ⟨owner, _, hflight, .inl ⟨rfl, ?_⟩⟩
    cases hget : l.get t.target with
    | none => exact .inl rfl
    | some found =>
      obtain ⟨c, v⟩ := found
      obtain ⟨job, rfl, -, hstate⟩ := document_get h hget
      refine .inr ⟨job, v, rfl, ?_⟩
      generalize hs : job.state = s at hstate
      cases hstate with
      | live => exact .inr ⟨rfl, submission hget⟩
      | fenced u hsource =>
        exact absurd hs (others t.toPrefix (by simp [Ne.symm distinct]) job v hget u)
      | cleaned u hsource => exact .inl rfl
  · obtain ⟨owner, hflight⟩ := flight hcompleted
    exact ⟨owner, _, hflight, .inr ⟨rfl, v, job, ⟨hget, hs⟩, submission hget⟩⟩

/-- What client `i` of a system answered, or failed with. -/
def outcomeOf (s : QueueSystem) (i : Nat) : Option (Except StorageError Outcome) :=
  s.tasks[i]?.bind fun t => t.program.result

/-- A recovery of the job that is started in `s` and then steps alone comes to
its end, and wherever it ends the move is finished. -/
structure RecoversAlone (s : QueueSystem) (t : TransitionId) : Prop where
  ends : ∀ fuel s', 0 < fuel → s.advance queue (.start (.recover t.jobId) fuel) = some s' →
    ∃ s'' r, Reaches queue (lone s.tasks.length) s' s'' ∧ outcomeOf s'' s.tasks.length = some r
  finished : ∀ fuel s' s'' r, 0 < fuel →
    s.advance queue (.start (.recover t.jobId) fuel) = some s' →
    Reaches queue (lone s.tasks.length) s' s'' →
    outcomeOf s'' s.tasks.length = some r →
    ∃ b, r = .ok (.answered b) ∧ RecoveryEnd t (.ok b) s''.store

/-- What is asked of the fences of a state: each is backed by its record, and a
recovery that runs alone finishes it. -/
structure FencesRecoverable (s : QueueSystem) : Prop where
  record : ∀ p jobId v job t, s.store.get (.document p jobId) = some (.job job, v) →
    job.state = .transitioning t → t.source = .document p jobId ∧
      (RecordNow s.store t .prepared ∨ RecordNow s.store t .completed)
  recovers : ∀ p jobId v job t, s.store.get (.document p jobId) = some (.job job, v) →
    job.state = .transitioning t → RecoversAlone s t

theorem recoversAlone {s : QueueSystem} (h : History (lifecycle recoverableFences) s.store)
    (hnow : FencedNow s.store t) : RecoversAlone s t := by
  obtain ⟨owner, state, flight, hstate⟩ := inFlight h hnow
  have ends : ∀ fuel s', 0 < fuel → s.advance queue (.start (.recover t.jobId) fuel) = some s' →
      s'.EndsAlone s.tasks.length
        fun r l' => ∃ b, r = .ok (.answered b) ∧ RecoveryEnd t (.ok b) l' := by
    intro fuel s' hfuel hstart
    simp only [advance, Option.some.injEq] at hstart
    subst hstart
    refine ⟨_, List.getElem?_concat_length, ?_⟩
    refine Program.ends_bind ((ends_recoverJobTransition hfuel flight hstate).mono ?_)
    intro r l' hend
    have hok : ∃ b, r = .ok b := by
      obtain ⟨v, job, -, -, ⟨hr, -⟩ | ⟨hr, -⟩⟩ := hend
      · exact ⟨true, hr⟩
      · exact ⟨false, hr⟩
    obtain ⟨b, rfl⟩ := hok
    exact ⟨b, rfl, hend⟩
  constructor
  · intro fuel s' hfuel hstart
    obtain ⟨s'', task, r, hrun, htask, hr, -⟩ :=
      lone_end (M := queue) acceptAnswer_answers (ends fuel s' hfuel hstart)
    exact ⟨s'', r, hrun, by rw [outcomeOf, htask]; exact hr⟩
  · intro fuel s' s'' r hfuel hstart hrun hr
    obtain ⟨task, htask, hresult⟩ := bind_eq_some_iff.mp hr
    exact (lone_run (ends fuel s' hfuel hstart) hrun).2 task r htask hresult

/-- **A fenced source is recoverable**, in every run whose steps meet the
condition. -/
theorem fences_recoverable {s : QueueSystem} (h : Runs recoverableFences s) :
    FencesRecoverable s := by
  have hist := queue_sound h
  have fence : ∀ {p jobId v job t}, s.store.get (.document p jobId) = some (.job job, v) →
      job.state = .transitioning t → t.source = .document p jobId ∧ FencedNow s.store t := by
    intro p jobId v job t hget hs
    obtain ⟨e, he, hp, hc⟩ := Store.get_held hget
    obtain ⟨-, -, -, -, -, -, hsource, -⟩ := fence_write hist he hp hc hs
    have hpath : t.source = .document p jobId := hsource.symm.trans hp
    exact ⟨hpath, job, v, by rw [hpath]; exact hget, hs⟩
  refine ⟨fun p jobId v job t hget hs => ?_, fun p jobId v job t hget hs => ?_⟩
  · obtain ⟨hpath, hnow⟩ := fence hget hs
    exact ⟨hpath, (recoverable hist t hnow).imp id And.left⟩
  · exact recoversAlone hist (fence hget hs).2

def fenceAt (l : ObjectStore) (p : Prefix) (jobId : String) : Option TransitionId :=
  match l.get (.document p jobId) with
  | some (.job job, _) =>
    match job.state with
    | .transitioning t => some t
    | _ => none
  | _ => none

theorem fenceAt_some {p : Prefix} (h : fenceAt l p jobId = some t) :
    ∃ v job, l.get (.document p jobId) = some (.job job, v) ∧ job.state = .transitioning t := by
  unfold fenceAt at h
  split at h
  · next job v hget =>
    split at h
    · next u hs =>
      cases h
      exact ⟨v, job, hget, hs⟩
    · cases h
  · cases h

theorem fences_recoverable_claiming :
    ∃ s : QueueSystem, Runs recoverableFences s ∧ (fenceAt s.store .queue "j").isSome = true ∧
      FencesRecoverable s := by
  obtain ⟨s, hs, hfence⟩ : ∃ s, Runs recoverableFences s ∧
      (fenceAt s.store .queue "j").isSome = true :=
    exists_exec (claiming 5) (by decide +kernel)
  exact ⟨s, hs, hfence, fences_recoverable hs⟩

theorem fence_unique_claiming :
    ∃ (s : QueueSystem) (t : TransitionId) (v : ℕ) (e : StoreEntry) (job : Job),
      s.store.Held v e ∧ e.path = t.source ∧ e.content = some (.job job) ∧
      job.state = .transitioning t ∧ ∀ w f job', s.store.Held w f → f.path = t.source →
        f.content = some (.job job') → job'.state = .transitioning t → v = w := by
  obtain ⟨s, hs, hfence⟩ : ∃ s, Runs recoverableFences s ∧
      (fenceAt s.store .queue "j").isSome = true :=
    exists_exec (claiming 5) (by decide +kernel)
  obtain ⟨t, ht⟩ := Option.isSome_iff_exists.mp hfence
  obtain ⟨v, job, hget, hstate⟩ := fenceAt_some ht
  obtain ⟨e, he, hp, hc⟩ := Store.get_held hget
  obtain ⟨-, -, -, -, -, -, hsource, -⟩ := fence_write (queue_sound hs) he hp hc hstate
  exact ⟨s, t, v, e, job, he, hsource, hc, hstate, fun w f job' =>
    fence_unique (queue_sound hs) he hsource hc hstate⟩

/-- A mover that is not pinned to a version reads that the job has no record.
The worker claims the job and stops between completing its record and cleaning
`queue/j`; the mover resumes and replaces the record. -/
def orphaning : List QueueEvent :=
  claiming 0 ++ .start (.move { claimedBy "a" "j" with state := .completed }
      toCompleted) 9 :: calls 2 1 ++ calls 1 10 ++ calls 2 2 ++
    [.answer 2 (.word "b"), .answer 2 (.instant 5)] ++ calls 2 2

/-- A job of another plan that names the run of `j`. -/
def strayJob : PlannedJob :=
  ⟨{ plannedJob.val with submission := { plannedJob.val.submission with jobId := "k" } }, rfl⟩

/-- The stray job is admitted and cancelled: the manifest of its run keeps no
outcome for it, so its fence is left to a recovery that could. -/
def refusing : List QueueEvent :=
  submitterRun 0 ++ .start (.createQueued strayJob) 9 :: calls 1 11 ++
    .start (.move { strayJob.val with state := .cancelled } ⟨.queue, .cancelled, by decide⟩) 9 ::
    calls 2 3 ++ [.answer 2 (.word "b"), .answer 2 (.instant 5)] ++ calls 2 14 ++
    [.answer 2 (.instant 5)]

/-- A lone recovery of job `k` from the state leaves `queue/k` fenced. -/
def leavesFence (s : QueueSystem) : Bool :=
  (s.advance queue (.start (.recover "k") 9)).any fun s' =>
    (s'.exec queue (lone s.tasks.length)
      (calls s.tasks.length 5 ++ [.answer s.tasks.length (.instant 5)])).any fun s'' =>
        (outcomeOf s'' s.tasks.length).isSome && (fenceAt s''.store .queue "k").isSome

theorem fence_lost_and_fence_kept :
    (¬ ∀ s : QueueSystem, Runs anyStep s → ∀ p jobId v job t,
      s.store.get (.document p jobId) = some (.job job, v) → job.state = .transitioning t →
      RecordNow s.store t .prepared ∨ RecordNow s.store t .completed) ∧
    ¬ ∀ s : QueueSystem, Runs recoverableFences s → ∀ jobId fuel s' s'', 0 < fuel →
      s.advance queue (.start (.recover jobId) fuel) = some s' →
      Reaches queue (lone s.tasks.length) s' s'' →
      (outcomeOf s'' s.tasks.length).isSome = true → Unfenced s''.store jobId none := by
  constructor
  · intro h
    obtain ⟨s, hs, hlost⟩ : ∃ s, Runs anyStep s ∧
        (fenceAt s.store .queue "j").any (fun t => (currentRecord s.store t.jobId).all
          fun r => decide (r.transitionId ≠ t)) = true :=
      exists_exec orphaning (by decide +kernel)
    obtain ⟨t, hfence, hall⟩ := Option.any_eq_true _ _ |>.mp hlost
    obtain ⟨v, job, hget, hstate⟩ := fenceAt_some hfence
    have other : ∀ state, ¬ RecordNow s.store t state := by
      rintro state ⟨r, w, hrecord, hid, -⟩
      rw [currentRecord, hrecord] at hall
      exact of_decide_eq_true hall hid
    rcases h s hs _ _ v job t hget hstate with hr | hr
    · exact other _ hr
    · exact other _ hr
  · intro h
    obtain ⟨s, hs, hkept⟩ : ∃ s, Runs recoverableFences s ∧ leavesFence s = true :=
      exists_exec refusing (by decide +kernel)
    obtain ⟨s', hstart, hrun⟩ := Option.any_eq_true _ _ |>.mp hkept
    obtain ⟨s'', hreach, hend⟩ := exists_exec _ hrun
    rw [Bool.and_eq_true] at hend
    obtain ⟨t, hfence⟩ := isSome_iff_exists.mp hend.2
    obtain ⟨v, job, hget, hstate⟩ := fenceAt_some hfence
    exact h s hs "k" 9 s' s'' (by decide) hstart hreach hend.1 .queue (by simp) job v hget t hstate

end Stado
