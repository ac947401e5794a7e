import Stado.Library.Alone
import Stado.Protocol.Rules

/-!
# Recovery that runs alone

What `recoverJobTransition` does when no other client steps and no call is
lost, from a store where the source of a transition is fenced and its record is
prepared or completed. It ends on its first pass through every loop: the
destination stands, and no document of the job is a fence any more. The one
exception is a terminal destination whose outcome the run manifest refuses,
where the source is left fenced.
-/

namespace Stado

open CasStore Program Store

variable {i : Nat} {l l' : ObjectStore} {t : TransitionId} {owner : String}
  {state : TransitionState} {r : JobTransition} {own : Bool} {fuel : Nat} {job : Job} {p : Prefix}

/-! ## A transition in flight -/

/-- No document of the job is a fence, save the one under `except`. -/
def Unfenced (l : ObjectStore) (jobId : String) (except : Option Prefix) : Prop :=
  ∀ p, some p ≠ except → ∀ job v, l.get (.document p jobId) = some (.job job, v) →
    ∀ u, job.state ≠ .transitioning u

/-- The source of `t` is fenced and its record is the job's record. -/
structure InFlight (l : ObjectStore) (t : TransitionId) (owner : String)
    (state : TransitionState) : Prop where
  distinct : t.fromPrefix ≠ t.toPrefix
  record : ∃ r v, l.get (.transition t.jobId) = some (.transition r, v) ∧ r.WellFormed ∧
    r.transitionId = t ∧ r.owner = owner ∧ r.state = state
  fenced : FencedNow l t
  others : Unfenced l t.jobId (some t.fromPrefix)

/-- From `l` to `l'` no job document and no record was written. -/
structure Undisturbed (l l' : ObjectStore) : Prop where
  documents : ∀ p jobId, l'.get (.document p jobId) = l.get (.document p jobId)
  records : ∀ jobId, l'.get (.transition jobId) = l.get (.transition jobId)

theorem Undisturbed.refl (l : ObjectStore) : Undisturbed l l :=
  ⟨fun _ _ => rfl, fun _ => rfl⟩

theorem Undisturbed.trans {l'' : ObjectStore} (h : Undisturbed l l') (h' : Undisturbed l' l'') :
    Undisturbed l l'' :=
  ⟨fun p jobId => (h'.documents p jobId).trans (h.documents p jobId),
    fun jobId => (h'.records jobId).trans (h.records jobId)⟩

theorem Undisturbed.cons {e : StoreEntry} (hd : ∀ p jobId, e.path ≠ .document p jobId)
    (hr : ∀ jobId, e.path ≠ .transition jobId) : Undisturbed l (e :: l) :=
  ⟨fun p jobId => get_cons_other (hd p jobId) l, fun jobId => get_cons_other (hr jobId) l⟩

theorem Unfenced.undisturbed {jobId : String} {except : Option Prefix} (h : Undisturbed l l')
    (hl : Unfenced l jobId except) : Unfenced l' jobId except := by
  intro p hp job v hget
  rw [h.documents] at hget
  exact hl p hp job v hget

theorem InFlight.undisturbed (h : Undisturbed l l') (hl : InFlight l t owner state) :
    InFlight l' t owner state := by
  obtain ⟨r, v, hget, hrest⟩ := hl.record
  obtain ⟨job, w, hsource, hs⟩ := hl.fenced
  exact ⟨hl.distinct, ⟨r, v, by rw [h.records]; exact hget, hrest⟩,
    ⟨job, w, by rw [h.documents]; exact hsource, hs⟩, hl.others.undisturbed h⟩

theorem Stands.undisturbed (h : Undisturbed l l') (hl : Stands l t) : Stands l' t := by
  obtain ⟨v, job, ⟨hget, hs⟩, hsub⟩ := hl
  exact ⟨v, job, ⟨by rw [h.documents]; exact hget, hs⟩, hsub⟩

/-- A write of the destination keeps the transition in flight. -/
theorem InFlight.deliver {site : Site} (hl : InFlight l t owner state)
    (hs : job.state = prefixState t.toPrefix) :
    InFlight (⟨t.target, some (.job job), site, i⟩ :: l) t owner state := by
  have hne : t.target ≠ t.source := by
    simp only [ne_eq, Path.document.injEq, and_true]
    exact fun h => hl.distinct h.symm
  obtain ⟨r, v, hget, hrest⟩ := hl.record
  obtain ⟨source, w, hsource, hstate⟩ := hl.fenced
  refine ⟨hl.distinct, ⟨r, v, ?_, hrest⟩, ⟨source, w, ?_, hstate⟩, ?_⟩
  · rw [get_cons_other (by simp)]
    exact hget
  · rw [get_cons_other hne]
    exact hsource
  · intro p hp job' w' hget'
    by_cases heq : p = t.toPrefix
    · subst heq
      rw [get_cons_same rfl] at hget'
      cases hget'
      intro u hu
      rw [hs] at hu
      exact prefixState_ne_transitioning _ _ hu
    · rw [get_cons_other (by simp [Ne.symm heq])] at hget'
      exact hl.others p hp job' w' hget'

/-- The run manifest refuses the outcome of the job: this build cannot read it,
or its entry is not this job's. -/
def outcomeRefused (l : ObjectStore) (job : Job) (p : Prefix) : Bool :=
  match job.submission.submissionCommandIndex with
  | none => false
  | some index =>
    if job.submission.runId = "" ∨ job.submission.submissionRequestDigest = "" then false
    else if ¬ validRunId job.submission.runId then true
    else
      match l.get (.run job.submission.runId) with
      | none => false
      | some (.manifest m, _) =>
        match retainOutcome m job.submission.runId index job p 0 with
        | .error _ => true
        | .ok _ => false
      | some _ => true

/-- A refusal of the manifest does not look at the clock. -/
theorem retainOutcome_error {m : RunManifest} {runId : String} {index : Nat}
    {now : Nat} {e : StorageError} (h : retainOutcome m runId index job p now = .error e) :
    (∃ reason, e = .other reason) ∧ retainOutcome m runId index job p 0 = .error e := by
  have refused : ∀ reason, .error (.other reason) = (.error e : Except StorageError (Option RunManifest)) →
      (∃ reason, e = .other reason) ∧ .error (.other reason) =
        (.error e : Except StorageError (Option RunManifest)) := fun reason h =>
    ⟨⟨reason, (Except.error.inj h).symm⟩, h⟩
  unfold retainOutcome at h ⊢
  revert h
  cases m.entries[index]? with
  | none => exact refused _
  | some entry =>
    by_cases hid : entry.jobId ≠ job.jobId
    · simp only [if_pos hid]
      exact refused _
    · simp only [if_neg hid]
      split
      · exact refused _
      · split
        · exact fun h => by cases h
        · cases entry.outcome with
          | none => exact fun h => by cases h
          | some outcome =>
            dsimp only
            split
            · exact fun h => by cases h
            · exact refused _

section Reads

variable {α : Type} {site : Site} {p : Prefix} {jobId : String}
  {Q : Except StorageError α → ObjectStore → Prop} {v : Nat}

theorem ends_readVersioned {k : Option (Job × Nat) → Storage α} (found : Option (Job × Nat))
    (hget : l.get (.document p jobId) = found.map fun x => (Contents.job x.1, x.2))
    (h : Ends i (k found) Q l) : Ends i ((readVersioned site p jobId).bind k) Q l := by
  unfold readVersioned
  rw [bind_eq, bind_assoc]
  refine ends_read hget ?_
  cases found with
  | _ => exact h

theorem ends_readJob {k : Option Job → Storage α} (hlive : LiveAt l p jobId v job)
    (h : Ends i (k (some job)) Q l) : Ends i ((readJob site p jobId).bind k) Q l := by
  unfold readJob
  rw [bind_eq, bind_assoc]
  refine ends_readVersioned (some (job, v)) hlive.1 ?_
  have hs : isTransitionSentinelState job.state = false := by
    rw [hlive.2]
    exact isTransitionSentinelState_prefixState p
  simp only [hs, Bool.false_eq_true, if_false]
  exact h

theorem ends_readJobTransition {k : Option (JobTransition × Nat) → Storage α}
    (wf : r.WellFormed) (hid : r.transitionId.jobId = jobId)
    (hget : l.get (.transition jobId) = some (.transition r, v))
    (h : Ends i (k (some (r, v))) Q l) : Ends i ((readJobTransition site jobId).bind k) Q l := by
  unfold readJobTransition
  rw [bind_eq, bind_assoc]
  refine ends_read hget ?_
  simp only [wf.schema, wf.jobId, hid, ne_eq, not_true_eq_false, or_self, if_false]
  exact h

end Reads

/-! ## The parts of a recovery -/

theorem ends_placeDestination (wf : r.WellFormed) (hid : r.transitionId = t) (hfuel : 0 < fuel)
    (flight : InFlight l t owner state)
    (free : l.get t.target = none ∨ ∃ job v, l.get t.target = some (.job job, v) ∧
      (isTransitionCleanedState job.state = true ∨
        (job.state = prefixState t.toPrefix ∧ job.submission = t.destination.submission))) :
    Ends i (placeDestination fuel r)
      (fun res l' => ∃ job, res = .ok job ∧ InFlight l' t owner state ∧ Stands l' t) l := by
  subst hid
  obtain ⟨fuel, rfl⟩ := Nat.exists_eq_succ_of_ne_zero (Nat.pos_iff_ne_zero.mp hfuel)
  have delivered : ∀ l' : ObjectStore, InFlight l' r.transitionId owner state →
      InFlight (⟨r.transitionId.target, some (.job r.transitionId.destinationJob),
        .installDestination r.transitionId, i⟩ :: l') r.transitionId owner state ∧
      Stands (⟨r.transitionId.target, some (.job r.transitionId.destinationJob),
        .installDestination r.transitionId, i⟩ :: l') r.transitionId := by
    intro l' hl'
    refine ⟨hl'.deliver rfl, l'.length, r.transitionId.destinationJob, ⟨?_, rfl⟩, rfl⟩
    rw [get_cons_same rfl]
    rfl
  unfold placeDestination
  rw [wf.toPrefix, wf.jobId, wf.destination]
  rcases free with hnone | ⟨job, v, hget, hfree⟩
  · refine ends_readVersioned none hnone (ends_create hnone ?_)
    exact ⟨_, rfl, delivered l flight⟩
  · refine ends_readVersioned (some (job, v)) hget ?_
    have swapped : ∀ {k : Swap → Storage Job},
        (∀ version, k (.stored version) = .pure r.transitionId.destinationJob) →
        Ends i ((perform (.installDestination r.transitionId)
          (.swap r.transitionId.target v (.job r.transitionId.destinationJob))).bind k)
        (fun res l' => ∃ job, res = .ok job ∧ InFlight l' r.transitionId owner state ∧
          Stands l' r.transitionId) l := by
      intro k hstored
      refine ends_swap hget ?_
      rw [hstored]
      exact ⟨_, rfl, delivered l flight⟩
    by_cases hcleaned : isTransitionCleanedState job.state = true
    · simp only [hcleaned, if_true]
      exact swapped fun _ => rfl
    · obtain ⟨hs, hsub⟩ := hfree.resolve_left hcleaned
      have hmatch : matchesDestination r job = true := by
        simp only [matchesDestination, immutableJobProjection, wf.destination, wf.toPrefix, hs,
          and_true, decide_eq_true_eq]
        exact hsub
      simp only [hcleaned, hmatch, Bool.false_eq_true, if_false, not_true_eq_false]
      split
      · exact swapped fun _ => rfl
      · exact ⟨job, rfl, flight, v, job, ⟨hget, hs⟩, hsub⟩

theorem ends_setTransitionState (wf : r.WellFormed) (hid : r.transitionId = t)
    (hfuel : 0 < fuel) (flight : InFlight l t r.owner .prepared) (stands : Stands l t) :
    Ends i (setTransitionState fuel r .completed own)
      (fun res l' => res = .ok true ∧ InFlight l' t r.owner .completed ∧ Stands l' t) l := by
  subst hid
  obtain ⟨fuel, rfl⟩ := Nat.exists_eq_succ_of_ne_zero (Nat.pos_iff_ne_zero.mp hfuel)
  obtain ⟨current, v, hget, wf', hid', howner, hstate⟩ := flight.record
  obtain ⟨source, w, hsource, hs⟩ := flight.fenced
  unfold setTransitionState
  rw [wf.jobId]
  refine ends_readJobTransition wf' (by rw [hid']) hget ?_
  dsimp only
  rw [if_neg (by simp [hid', howner]), if_neg (by simp [hstate])]
  refine ends_swap hget ⟨rfl, ?_, ?_⟩
  · refine ⟨flight.distinct, ⟨{ current with state := .completed }, l.length, ?_, ?_, hid', howner,
      rfl⟩, ⟨source, w, ?_, hs⟩, fun p hp job v' hget' => ?_⟩
    · rw [get_cons_same rfl]
      rfl
    · exact ⟨wf'.schema, wf'.jobId, wf'.fromPrefix, wf'.toPrefix, wf'.sourceVersion,
        wf'.destination, wf'.distinct, wf'.submission, wf'.named, wf'.sourceState⟩
    · rw [get_cons_other (by simp)]
      exact hsource
    · rw [get_cons_other (by simp)] at hget'
      exact flight.others p hp job v' hget'
  · obtain ⟨v', job, ⟨hget', hs'⟩, hsub⟩ := stands
    refine ⟨v', job, ⟨?_, hs'⟩, hsub⟩
    rw [get_cons_other (by simp)]
    exact hget'

theorem ends_retireTransitionSource (wf : r.WellFormed) (hid : r.transitionId = t)
    (hfuel : 0 < fuel) (flight : InFlight l t r.owner .completed) (stands : Stands l t) :
    Ends i (retireTransitionSource fuel r)
      (fun res l' => res = .ok () ∧ Unfenced l' t.jobId none ∧ Stands l' t ∧
        l'.get (.transition t.jobId) = l.get (.transition t.jobId)) l := by
  subst hid
  obtain ⟨fuel, rfl⟩ := Nat.exists_eq_succ_of_ne_zero (Nat.pos_iff_ne_zero.mp hfuel)
  obtain ⟨source, w, hsource, hs⟩ := flight.fenced
  have hmarker : Undisturbed l (l.apply (.deleteMarker (.seen w)) i
      ((Call.delete (markerPath source) : Call Path Contents Unit).change l)) := by
    simp only [Call.change]
    split
    · exact .cons (fun p jobId => by simp [markerPath]) fun jobId => by simp [markerPath]
    · exact .refl l
  -- The marker of a job that leaves the queue goes first; nothing else is touched.
  have cleaned : ∀ l', Undisturbed l l' → ∀ {k : Swap → Storage Unit},
      (∀ version, k (.stored version) = .pure ()) →
      Ends i ((perform (.cleanSource r.transitionId) (.swap r.transitionId.source w
        (.job { source with state := .transitionCleaned r.transitionId }))).bind k)
      (fun res l'' => res = .ok () ∧ Unfenced l'' r.transitionId.jobId none ∧
        Stands l'' r.transitionId ∧ l''.get (.transition r.transitionId.jobId)
          = l.get (.transition r.transitionId.jobId)) l' := by
    intro l' hl' k hstored
    refine ends_swap (by rw [hl'.documents]; exact hsource) ?_
    rw [hstored]
    refine ⟨rfl, ?_, ?_, ?_⟩
    · intro p _ job v hget u
      by_cases hp : p = r.transitionId.fromPrefix
      · subst hp
        rw [get_cons_same rfl] at hget
        cases hget
        simp
      · rw [get_cons_other (by simp [Ne.symm hp]), hl'.documents] at hget
        exact flight.others p (by simp [hp]) job v hget u
    · obtain ⟨v, job, ⟨hget, hstate⟩, hsub⟩ := stands.undisturbed hl'
      refine ⟨v, job, ⟨?_, hstate⟩, hsub⟩
      rw [get_cons_other (by simp [flight.distinct])]
      exact hget
    · rw [get_cons_other (by simp), hl'.records]
  unfold retireTransitionSource
  rw [wf.fromPrefix, wf.jobId]
  refine ends_readVersioned (some (source, w)) hsource ?_
  simp only [hs, reduceCtorEq, ne_eq, not_true_eq_false, if_false]
  by_cases hqueue : r.transitionId.fromPrefix = .queue
  · rw [if_pos hqueue]
    exact cleaned _ hmarker fun _ => rfl
  · rw [if_neg hqueue]
    exact cleaned l (.refl l) fun _ => rfl

theorem ends_retireTransitionRecord {current : JobTransition} (wf : r.WellFormed)
    (hid : r.transitionId = t) (hfuel : 0 < fuel)
    (hget : l.get (.transition t.jobId) = some (.transition current, v))
    (wf' : current.WellFormed) (hid' : current.transitionId = t) (howner : current.owner = r.owner)
    (hstate : current.state = .completed) :
    Ends i (retireTransitionRecord fuel r)
      (fun res l' => res = .ok () ∧ ∀ p jobId,
        l'.get (.document p jobId) = l.get (.document p jobId)) l := by
  subst hid
  obtain ⟨fuel, rfl⟩ := Nat.exists_eq_succ_of_ne_zero (Nat.pos_iff_ne_zero.mp hfuel)
  unfold retireTransitionRecord
  rw [wf.jobId]
  refine ends_readJobTransition wf' (by rw [hid']) hget ?_
  simp only [hid', howner, hstate, ne_eq, not_true_eq_false, reduceCtorEq, or_self, if_false]
  refine ends_swap hget ⟨rfl, fun p jobId => ?_⟩
  rw [get_cons_other (by simp)]

/-- What a finished recovery leaves: the destination stands, and the job has no
fence left unless the manifest refused its outcome. -/
def RecoveryEnd (t : TransitionId) (res : Except StorageError Bool) (l : ObjectStore) : Prop :=
  ∃ v job, LiveAt l t.toPrefix t.jobId v job ∧ job.submission = t.destination.submission ∧
    ((res = .ok true ∧ Unfenced l t.jobId none) ∨
      (res = .ok false ∧ t.toPrefix.terminal = true ∧ outcomeRefused l job t.toPrefix = true))

theorem ends_settleSource (wf : r.WellFormed) (hid : r.transitionId = t) (hfuel : 0 < fuel)
    (flight : InFlight l t r.owner .completed) (stands : Stands l t) :
    Ends i (settleSource fuel r) (RecoveryEnd t) l := by
  obtain ⟨current, v, hget, wf', hid', howner, hstate⟩ := flight.record
  refine ends_bind ((ends_retireTransitionSource wf hid hfuel flight stands).mono ?_)
  rintro _ l1 ⟨rfl, hclear, hstands, hsame⟩
  refine ends_bind ((ends_retireTransitionRecord wf hid hfuel (hsame.trans hget) wf' hid' howner
    hstate).mono ?_)
  rintro _ l2 ⟨rfl, hdocs⟩
  obtain ⟨w, job, ⟨hlive, hs⟩, hsub⟩ := hstands
  refine ⟨w, job, ⟨by rw [hdocs]; exact hlive, hs⟩, hsub, Or.inl ⟨rfl, ?_⟩⟩
  intro p hp job' v' hget'
  rw [hdocs] at hget'
  exact hclear p hp job' v' hget'

/-- What keeping a terminal outcome comes to: it is kept, there is no manifest
to keep it in, or the manifest refuses it. -/
inductive Retention (l : ObjectStore) (job : Job) (p : Prefix) :
    Except StorageError Unit → ObjectStore → Prop where
  | kept {l' : ObjectStore} (undisturbed : Undisturbed l l') : Retention l job p (.ok ()) l'
  | absent (path : String) : Retention l job p (.error (.notFound path)) l
  | refused (reason : String) (refused : outcomeRefused l job p = true) :
      Retention l job p (.error (.other reason)) l

theorem ends_indexRetainedJob {jobId runId : String}
    (h : Undisturbed l l') : Ends i (indexRetainedJob jobId runId) (Retention l job p) l' := by
  cases hget : l'.get (.retainedJob jobId) with
  | none => exact ends_create hget (.kept (h.trans (.cons (by simp) (by simp))))
  | some found => exact ends_create_of_some hget (.kept h)

theorem ends_recordTerminalOutcome (hfuel : 0 < fuel) (terminal : p.terminal = true) :
    Ends i (recordTerminalOutcome fuel job p) (Retention l job p) l := by
  obtain ⟨fuel, rfl⟩ := Nat.exists_eq_succ_of_ne_zero (Nat.pos_iff_ne_zero.mp hfuel)
  unfold recordTerminalOutcome
  rw [if_neg (by simp [terminal])]
  cases hindex : job.submission.submissionCommandIndex with
  | none => exact .kept (.refl l)
  | some index =>
    dsimp only
    by_cases hlegacy : job.submission.runId = "" ∨ job.submission.submissionRequestDigest = ""
    · rw [if_pos hlegacy]
      exact .kept (.refl l)
    · rw [if_neg hlegacy]
      by_cases hvalid : ¬ validRunId job.submission.runId
      · rw [if_pos hvalid]
        refine .refused _ ?_
        simp only [outcomeRefused, hindex, if_neg hlegacy, if_pos hvalid]
      · rw [if_neg hvalid]
        refine ends_exist ?_
        cases hget : l.get (.run job.submission.runId) with
        | none => exact .absent _
        | some found =>
          obtain ⟨content, v⟩ := found
          show Ends i (recordOutcomeLoop (fuel + 1) job.submission.runId index job p) _ l
          unfold recordOutcomeLoop readManifest
          rw [bind_eq, bind_eq, bind_assoc]
          refine ends_read hget ?_
          cases content with
          | manifest m =>
            intro now
            dsimp only
            rw [pure_bind]
            cases hretain : retainOutcome m job.submission.runId index job p now with
            | error e =>
              obtain ⟨⟨reason, rfl⟩, hzero⟩ := retainOutcome_error hretain
              refine .refused reason ?_
              simp only [outcomeRefused, hindex, if_neg hlegacy, if_neg hvalid, hget, hzero]
            | ok written =>
              cases written with
              | none => exact ends_indexRetainedJob (.refl l)
              | some m' =>
                refine ends_swap hget (ends_indexRetainedJob (.cons ?_ ?_))
                · simp
                · simp
          | _ =>
            refine .refused _ ?_
            simp only [outcomeRefused, hindex, if_neg hlegacy, if_neg hvalid, hget]

theorem ends_retainAndSettle (wf : r.WellFormed) (hid : r.transitionId = t) (hfuel : 0 < fuel)
    (terminal : t.toPrefix.terminal = true) (flight : InFlight l t r.owner .completed)
    (hlive : LiveAt l t.toPrefix t.jobId v job) (hsub : job.submission = t.destination.submission) :
    Ends i (retainAndSettle fuel r job) (RecoveryEnd t) l := by
  have stands : Stands l t := ⟨v, job, hlive, hsub⟩
  subst hid
  unfold retainAndSettle
  rw [wf.toPrefix]
  refine Ends.bind (ends_recordTerminalOutcome hfuel terminal).attempt fun res l1 hres => ?_
  cases hres with
  | kept undisturbed =>
    exact ends_settleSource wf rfl hfuel (flight.undisturbed undisturbed)
      (stands.undisturbed undisturbed)
  | absent path => exact ends_settleSource wf rfl hfuel flight stands
  | refused reason refused =>
    exact ⟨v, job, hlive, hsub, Or.inr ⟨rfl, terminal, refused⟩⟩

theorem ends_finishCompletedTransition (wf : r.WellFormed) (hid : r.transitionId = t)
    (hfuel : 0 < fuel) (flight : InFlight l t r.owner .completed) (stands : Stands l t) :
    Ends i (finishCompletedTransition fuel r own) (RecoveryEnd t) l := by
  obtain ⟨v, job, hlive, hsub⟩ := stands
  obtain ⟨source, w, hsource, hs⟩ := flight.fenced
  subst hid
  have hmatch : matchesDestination r job = true := by
    simp only [matchesDestination, immutableJobProjection, wf.destination, wf.toPrefix, hlive.2,
      and_true, decide_eq_true_eq]
    exact hsub
  unfold finishCompletedTransition
  rw [wf.toPrefix, wf.fromPrefix, wf.jobId]
  refine ends_readJob hlive ?_
  dsimp only
  rw [if_neg (by simp [hmatch])]
  refine ends_readVersioned (some (source, w)) hsource ?_
  dsimp only
  rw [if_neg (by simp [hs])]
  split
  · next terminal => exact ends_retainAndSettle wf rfl hfuel terminal flight hlive hsub
  · exact ends_settleSource wf rfl hfuel flight ⟨v, job, hlive, hsub⟩

theorem ends_installAndFinish (wf : r.WellFormed) (hid : r.transitionId = t) (hfuel : 0 < fuel)
    (flight : InFlight l t r.owner .prepared)
    (free : l.get t.target = none ∨ ∃ job v, l.get t.target = some (.job job, v) ∧
      (isTransitionCleanedState job.state = true ∨
        (job.state = prefixState t.toPrefix ∧ job.submission = t.destination.submission))) :
    Ends i (installAndFinish fuel r own) (RecoveryEnd t) l := by
  refine Ends.bind (ends_placeDestination wf hid hfuel flight free) ?_
  rintro job l1 ⟨flight1, stands1⟩
  show Ends i (Program.bind (if r.toPrefix = .queue then writePriorityMarker job else .pure ()) _) _ l1
  have hmarked : Ends i (if r.toPrefix = .queue then writePriorityMarker job else .pure ())
      (fun res l' => ∃ a, res = .ok a ∧ Undisturbed l1 l') l1 := by
    split
    · exact ⟨(), rfl, .cons (by simp [markerPath]) (by simp [markerPath])⟩
    · exact ⟨(), rfl, .refl l1⟩
  refine Ends.bind hmarked fun _ l2 hl2 => ends_bind ((ends_setTransitionState wf hid hfuel
    (flight1.undisturbed hl2) (stands1.undisturbed hl2)).mono ?_)
  rintro _ l3 ⟨rfl, flight3, stands3⟩
  exact ends_finishCompletedTransition wf hid hfuel flight3 stands3

theorem ends_recoverJobTransition (hfuel : 0 < fuel) {asked : Option TransitionId}
    (flight : InFlight l t owner state)
    (hstate : (state = .prepared ∧ (l.get t.target = none ∨ ∃ job v,
        l.get t.target = some (.job job, v) ∧ (isTransitionCleanedState job.state = true ∨
          (job.state = prefixState t.toPrefix ∧ job.submission = t.destination.submission)))) ∨
      (state = .completed ∧ Stands l t)) :
    Ends i (recoverJobTransition fuel t.jobId asked) (RecoveryEnd t) l := by
  obtain ⟨r, v, hget, wf, hid, rfl, rfl⟩ := flight.record
  obtain ⟨source, w, hsource, hs⟩ := flight.fenced
  unfold recoverJobTransition
  refine ends_readJobTransition wf (by rw [hid]) hget ?_
  dsimp only
  rcases hstate with ⟨hprepared, free⟩ | ⟨hcompleted, stands⟩
  · rw [hprepared] at flight ⊢
    show Ends i (recoverPrepared fuel r _) _ l
    subst hid
    unfold recoverPrepared
    rw [wf.fromPrefix, wf.jobId]
    refine ends_readVersioned (some (source, w)) hsource ?_
    dsimp only
    have hdiffers : ¬ (w = r.sourceVersion ∧ source = r.sourceDigest) := by
      rintro ⟨-, rfl⟩
      rw [wf.sourceState] at hs
      exact prefixState_ne_transitioning _ _ hs
    rw [if_neg hdiffers, if_neg (by simp [hs])]
    exact ends_installAndFinish wf rfl hfuel flight free
  · rw [hcompleted] at flight ⊢
    exact ends_finishCompletedTransition wf hid hfuel flight stands

end Stado
