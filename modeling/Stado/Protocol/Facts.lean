import Stado.Protocol.Rules

/-!
# What a lifecycle history remembers

Facts every history of the lifecycle has, under any condition on its steps:
what the documents and the records hold, that a fence follows its record, and
that a version once superseded is never fenced again.
-/

namespace Stado

open CasStore List Store

variable {cond : Condition} {l l0 : ObjectStore} {t : TransitionId} {s : TransitionState} {v : Nat}
  {e : StoreEntry} {job : Job}

theorem held_allowed (h : History (lifecycle cond) l) (he : l.Held v e) :
    ∃ older : ObjectStore, PastOf (e :: older) l ∧ older.length = v ∧ Allowed older e ∧
      cond older e.author e.site (some (e.path, e.content)) :=
  h.held he

theorem pastOf_of_cons {older : ObjectStore} (h : PastOf (e :: older) l) : older.PastOf l :=
  (suffix_cons _ _).trans h

/-! ## Facts about the past stay -/

theorem Recorded.mono (hs : l0.PastOf l) (h : Recorded l0 t s) : Recorded l t s := by
  obtain ⟨v, e, r, he, hrest⟩ := h
  exact ⟨v, e, r, he.mono hs, hrest⟩

theorem Fenced.mono (hs : l0.PastOf l) (h : Fenced l0 t) : Fenced l t := by
  obtain ⟨v, e, job, he, hrest⟩ := h
  exact ⟨v, e, job, he.mono hs, hrest⟩

theorem Cleaned.mono (hs : l0.PastOf l) (h : Cleaned l0 t) : Cleaned l t := by
  obtain ⟨v, e, job, he, hrest⟩ := h
  exact ⟨v, e, job, he.mono hs, hrest⟩

theorem Placed.mono (hs : l0.PastOf l) (h : Placed l0 t) : Placed l t := by
  obtain ⟨v, e, he, hrest⟩ := h
  exact ⟨v, e, he.mono hs, hrest⟩

theorem SourceGone.mono (hs : l0.PastOf l) (h : SourceGone l0 t) : SourceGone l t := by
  obtain ⟨l1, h1, hrest⟩ := h
  exact ⟨l1, h1.trans hs, hrest⟩

theorem DestinationLeft.mono (hs : l0.PastOf l) (h : DestinationLeft l0 t) :
    DestinationLeft l t := by
  obtain ⟨l2, l1, h2, h1, hrest⟩ := h
  exact ⟨l2, l1, h2, h1.trans hs, hrest⟩

theorem RecordNow.recorded (h : RecordNow l t s) : Recorded l t s := by
  obtain ⟨r, v, hget, hid, hstate⟩ := h
  obtain ⟨e, he, hpath, hcontent⟩ := get_held hget
  exact ⟨v, e, r, he, hpath, hcontent, hid, hstate⟩

theorem FencedNow.fenced (h : FencedNow l t) : Fenced l t := by
  obtain ⟨job, v, hget, hstate⟩ := h
  obtain ⟨e, he, hpath, hcontent⟩ := get_held hget
  exact ⟨v, e, job, he, hpath, hcontent, hstate⟩

section

variable (h : History (lifecycle cond) l)

include h

/-- A written record is well-formed, names its own job, and is in one of the
states this machine writes. -/
theorem record_content (he : l.Held v e) {jobId : String} (hp : e.path = .transition jobId) :
    ∃ r : JobTransition, e.content = some (.transition r) ∧ r.WellFormed ∧
      r.transitionId.jobId = jobId ∧ (∀ word, r.state ≠ .unrecognized word) ∧
      Recorded l r.transitionId .prepared ∧
      ∃ f, l.Held r.transitionId.sourceVersion f ∧ f.path = r.transitionId.source ∧
        f.content = some (.job r.sourceDigest) := by
  revert v e jobId
  suffices hall : ∀ v e, l.Held v e → ∀ jobId, e.path = .transition jobId →
      ∃ r : JobTransition, e.content = some (.transition r) ∧ r.WellFormed ∧
        r.transitionId.jobId = jobId ∧ (∀ word, r.state ≠ .unrecognized word) ∧
        Recorded l r.transitionId .prepared ∧
        ∃ f, l.Held r.transitionId.sourceVersion f ∧ f.path = r.transitionId.source ∧
          f.content = some (.job r.sourceDigest) from
    fun {v e} he {jobId} hp => hall v e he jobId hp
  refine h.forall_held fun older e hpast hist ih jobId hp => ?_
  -- A record that moves keeps everything but its state.
  have moved : ∀ {jobId} {prev : JobTransition} {v : Nat} (s : TransitionState),
      older.get (.transition jobId) = some (.transition prev, v) →
      (∀ word, s ≠ .unrecognized word) →
      ({ prev with state := s } : JobTransition).WellFormed ∧
        prev.transitionId.jobId = jobId ∧ (∀ word, s ≠ .unrecognized word) ∧
        Recorded l prev.transitionId .prepared ∧
        ∃ f, l.Held prev.transitionId.sourceVersion f ∧ f.path = prev.transitionId.source ∧
          f.content = some (.job prev.sourceDigest) := by
    intro jobId prev v s hget hs
    obtain ⟨f, hf, hfp, hfc⟩ := get_held hget
    obtain ⟨r, hr, wf, hid, -, hrest⟩ := ih v f hf jobId hfp
    rw [hfc] at hr
    cases hr
    exact ⟨⟨wf.schema, wf.jobId, wf.fromPrefix, wf.toPrefix, wf.sourceVersion, wf.destination,
      wf.distinct, wf.submission, wf.named, wf.sourceState⟩, hid, hs, hrest⟩
  cases (show Allowed older e from hist.allowed).recordWrite hp with
  | records r wf prepared source free =>
    cases hp
    obtain ⟨f, hf, hrest⟩ := source
    refine ⟨r, rfl, wf, rfl, fun word hword => ?_, ?_, f, hf.mono (pastOf_of_cons hpast), hrest⟩
    · rw [prepared] at hword
      cases hword
    · exact ⟨older.length, _, r, (held_cons_self _ _).mono hpast, rfl, rfl, rfl, prepared⟩
  | moves t s prev v hget id differs basis =>
    cases hp
    refine ⟨_, rfl, moved s hget fun word hword => ?_⟩
    subst hword
    exact basis
  | retires t prev v hget id state basis =>
    cases hp
    exact ⟨_, rfl, moved .retired hget fun word hword => by cases hword⟩

/-- The record a client reads. -/
theorem record_get {jobId : String} {c : Contents} (hget : l.get (.transition jobId) = some (c, v)) :
    ∃ r : JobTransition, c = .transition r ∧ r.WellFormed ∧ r.transitionId.jobId = jobId ∧
      (∀ word, r.state ≠ .unrecognized word) ∧ Recorded l r.transitionId .prepared ∧
      ∃ f, l.Held r.transitionId.sourceVersion f ∧ f.path = r.transitionId.source ∧
        f.content = some (.job r.sourceDigest) := by
  obtain ⟨e, he, hp, hc⟩ := get_held hget
  obtain ⟨r, hr, hrest⟩ := record_content h he hp
  rw [hc] at hr
  exact ⟨r, Option.some.inj hr, hrest⟩

variable {r : JobTransition}

theorem source_before_record {w : Nat}
    (he : l.Held w e) {jobId : String} (hp : e.path = .transition jobId)
    (hc : e.content = some (.transition r)) : r.transitionId.sourceVersion < w := by
  obtain ⟨older, hpast, hlen, -, -⟩ := held_allowed h he
  obtain ⟨r', hr', -, -, -, -, f, hf, hfp, -⟩ :=
    record_content (h.of_suffix hpast) (held_cons_self e older) hp
  rw [hc] at hr'
  cases hr'
  rcases held_cons.mp hf with ⟨-, rfl⟩ | hf
  · rw [hp] at hfp
    cases hfp
  · rw [← hlen]
    exact hf.lt

theorem Recorded.prepared (hr : Recorded l t s) :
    Recorded l t .prepared ∧ t.fromPrefix ≠ t.toPrefix ∧ t.destination.submission.jobId = t.jobId ∧
      ∃ f job, l.Held t.sourceVersion f ∧ f.path = t.source ∧ f.content = some (.job job) ∧
        job.state = prefixState t.fromPrefix ∧ t.destination.submission = job.submission := by
  obtain ⟨v, e, r, he, hp, hc, hid, -⟩ := hr
  obtain ⟨r', hr', wf, -, -, hprep, f, hf, hfp, hfc⟩ := record_content h he hp
  rw [hc] at hr'
  cases hr'
  subst hid
  exact ⟨hprep, wf.distinct, wf.named, f, r.sourceDigest, hf, hfp, hfc, wf.sourceState,
    wf.submission⟩

end

/-! ## Fences -/

/-- A document in the fence state of `t` was written by the fence of `t`, over
the version `t` was prepared from. -/
theorem fence_write (h : History (lifecycle cond) l)
    (he : l.Held v e) {p : Prefix} {jobId : String} (hp : e.path = .document p jobId)
    (hc : e.content = some (.job job)) (hs : job.state = .transitioning t) :
    ∃ (older : ObjectStore) (source : Job) (own : Bool), PastOf (e :: older) l ∧
      older.length = v ∧ e.site = .fenceSource t own ∧ e.path = t.source ∧
      job = { source with state := .transitioning t } ∧
      older.get t.source = some (.job source, t.sourceVersion) ∧ Recorded older t .prepared := by
  obtain ⟨older, hpast, hlen, hal, -⟩ := held_allowed h he
  cases (show Allowed older e from hal).documentWrite hp with
  | fences t' source current recorded =>
    cases hc
    cases hs
    exact ⟨older, source, _, hpast, hlen, rfl, rfl, rfl, current, recorded⟩
  | admits job' state absent =>
    cases hc
    rw [state] at hs
    cases hs
  | places t' fenced free =>
    cases hc
    exact absurd hs (prefixState_ne_transitioning _ _)
  | cleans t' source w current state completed =>
    cases hc
    cases hs
  | renews j job' w lease current state =>
    cases hc
    rw [show job'.state = _ from hs] at state
    cases state
  | rewrites j job' w fields current state same =>
    cases hc
    rw [show job'.state = _ from hs] at state
    cases state
  | _ => cases hc

theorem fence_taken (h : History (lifecycle cond) (e :: l)) {p : Prefix}
    {jobId : String} (hp : e.path = .document p jobId)
    (hc : e.content = some (.job job)) (hs : job.state = .transitioning t) :
    e.path = t.source ∧ Recorded l t .prepared ∧
      ∃ source, l.get t.source = some (.job source, t.sourceVersion) := by
  obtain ⟨older, source, own, hpast, hlen, -, hsource, -, hget, hrec⟩ :=
    fence_write h (held_cons_self e l) hp hc hs
  have heq : e :: older = e :: l := hpast.eq_of_length (by simp [hlen])
  rw [(List.cons.inj heq).2] at hget hrec
  exact ⟨hsource, hrec, source, hget⟩

section

variable (h : History (lifecycle cond) l)

include h

theorem Fenced.recorded (hf : Fenced l t) : Recorded l t .prepared := by
  obtain ⟨v, e, job, he, hp, hc, hs⟩ := hf
  obtain ⟨older, -, -, hpast, -, -, -, -, -, hrec⟩ := fence_write h he hp hc hs
  exact hrec.mono (pastOf_of_cons hpast)

theorem Fenced.superseded (hf : Fenced l t) : l.Superseded t.source t.sourceVersion := by
  obtain ⟨v, e, job, he, hp, hc, hs⟩ := hf
  obtain ⟨older, source, -, -, hlen, -, -, -, hget, -⟩ := fence_write h he hp hc hs
  obtain ⟨f, hf, -, -⟩ := get_held hget
  have hlt := hf.lt
  exact ⟨v, e, he, hp, by omega⟩

/-- A document in the cleaned state of `t` was written over the fence of `t`. -/
theorem clean_write
    (he : l.Held v e) {p : Prefix} {jobId : String} (hp : e.path = .document p jobId)
    (hc : e.content = some (.job job)) (hs : job.state = .transitionCleaned t) :
    ∃ (older : ObjectStore) (source : Job) (w : Nat), PastOf (e :: older) l ∧
      older.length = v ∧ e.site = .cleanSource t ∧ e.path = t.source ∧
      older.get t.source = some (.job source, w) ∧ source.state = .transitioning t ∧
      Recorded older t .completed := by
  obtain ⟨older, hpast, hlen, hal, -⟩ := held_allowed h he
  cases (show Allowed older e from hal).documentWrite hp with
  | cleans t' source w current state completed =>
    cases hc
    cases hs
    exact ⟨older, source, w, hpast, hlen, rfl, rfl, current, state, completed⟩
  | fences t' source current recorded =>
    cases hc
    cases hs
  | admits job' state absent =>
    cases hc
    rw [state] at hs
    cases hs
  | places t' fenced free =>
    cases hc
    exact absurd hs (prefixState_ne_transitionCleaned _ _)
  | renews j job' w lease current state =>
    cases hc
    rw [show job'.state = _ from hs] at state
    cases state
  | rewrites j job' w fields current state same =>
    cases hc
    rw [show job'.state = _ from hs] at state
    cases state
  | _ => cases hc

theorem Cleaned.fenced (hcl : Cleaned l t) : Fenced l t := by
  obtain ⟨v, e, job, he, hp, hc, hs⟩ := hcl
  obtain ⟨older, source, w, hpast, -, -, -, hget, hstate, -⟩ := clean_write h he hp hc hs
  exact (FencedNow.fenced ⟨source, w, hget, hstate⟩).mono (pastOf_of_cons hpast)

theorem fence_unique {v w : Nat} {e f : StoreEntry}
    {job job' : Job} (he : l.Held v e) (hp : e.path = t.source) (hc : e.content = some (.job job))
    (hs : job.state = .transitioning t) (hf : l.Held w f) (hp' : f.path = t.source)
    (hc' : f.content = some (.job job')) (hs' : job'.state = .transitioning t) : v = w := by
  suffices key : ∀ {v w : Nat} {e f : StoreEntry} {job job' : Job}, l.Held v e →
      e.path = t.source → e.content = some (.job job) → job.state = .transitioning t →
      l.Held w f → f.path = t.source → f.content = some (.job job') →
      job'.state = .transitioning t → ¬ v < w by
    have h1 := key he hp hc hs hf hp' hc' hs'
    have h2 := key hf hp' hc' hs' he hp hc hs
    omega
  intro v w e f job job' he hp hc hs hf hp' hc' hs' hlt
  obtain ⟨older, source, -, hpast, hlen, -, -, -, hget, -⟩ := fence_write h he hp hc hs
  obtain ⟨older', source', -, hpast', hlen', -, -, -, hget', -⟩ := fence_write h hf hp' hc' hs'
  -- The later fence would have to find the source at a version older than the earlier fence.
  have he' : older'.Held v e := he.of_lt (pastOf_of_cons hpast') (by omega)
  have hle := le_of_get hget' he' hp
  obtain ⟨g, hg, -, -⟩ := get_held hget
  have hlt' := hg.lt
  omega

end

/-- The states of a document under prefix `p` for job `jobId`. -/
inductive DocumentState (p : Prefix) (jobId : String) : JobState → Prop where
  | live : DocumentState p jobId (prefixState p)
  | fenced (t : TransitionId) (source : t.source = .document p jobId) :
      DocumentState p jobId (.transitioning t)
  | cleaned (t : TransitionId) (source : t.source = .document p jobId) :
      DocumentState p jobId (.transitionCleaned t)

theorem document_content (h : History (lifecycle cond) l) (he : l.Held v e) {p : Prefix}
    {jobId : String} (hp : e.path = .document p jobId) {c : Contents} (hc : e.content = some c) :
    ∃ job : Job, c = .job job ∧ job.jobId = jobId ∧ DocumentState p jobId job.state := by
  revert v e p jobId c
  suffices hall : ∀ v e, l.Held v e → ∀ p jobId c, e.path = .document p jobId →
      e.content = some c → ∃ job : Job, c = .job job ∧ job.jobId = jobId ∧
        DocumentState p jobId job.state from
    fun {v e} he {p jobId} hp {c} hc => hall v e he p jobId c hp hc
  refine h.forall_held fun older e _ hist ih p jobId c hp hc => ?_
  have current : ∀ {p jobId c v}, older.get (.document p jobId) = some (c, v) →
      ∃ job : Job, c = .job job ∧ job.jobId = jobId ∧ DocumentState p jobId job.state := by
    intro p jobId c v hget
    obtain ⟨f, hf, hfp, hfc⟩ := get_held hget
    exact ih v f hf p jobId c hfp hfc
  cases (show Allowed older e from hist.allowed).documentWrite hp with
  | admits job state absent =>
    cases hp; cases hc
    refine ⟨job, rfl, rfl, ?_⟩
    rw [state]
    exact .live
  | fences t source hget recorded =>
    cases hp; cases hc
    obtain ⟨job, hjob, hid, -⟩ := current hget
    cases hjob
    exact ⟨_, rfl, hid, .fenced t rfl⟩
  | places t fenced free =>
    cases hp; cases hc
    obtain ⟨-, -, hid, -⟩ := (fenced.recorded hist.tail).prepared hist.tail
    exact ⟨t.destinationJob, rfl, hid, .live⟩
  | cleans t source v hget state completed =>
    cases hp; cases hc
    obtain ⟨job, hjob, hid, -⟩ := current hget
    cases hjob
    exact ⟨_, rfl, hid, .cleaned t rfl⟩
  | renews j job v lease hget state =>
    cases hp; cases hc
    obtain ⟨job', hjob, hid, hst⟩ := current hget
    cases hjob
    exact ⟨_, rfl, hid, hst⟩
  | rewrites j job v fields hget state same =>
    cases hp; cases hc
    obtain ⟨job', hjob, hid, hst⟩ := current hget
    cases hjob
    refine ⟨_, rfl, ?_, hst⟩
    rw [← hid]
    exact congrArg Submission.jobId same
  | _ => cases hc

/-- The document a client reads. -/
theorem document_get (h : History (lifecycle cond) l) {p : Prefix} {jobId : String}
    {c : Contents} (hget : l.get (.document p jobId) = some (c, v)) :
    ∃ job : Job, c = .job job ∧ job.jobId = jobId ∧ DocumentState p jobId job.state := by
  obtain ⟨e, he, hp, hc⟩ := get_held hget
  exact document_content h he hp hc

/-! ## The record behind a fence -/

section

variable (h : History (lifecycle cond) l)

include h

theorem MoveBasis.superseded (basis : MoveBasis l t s) : l.Superseded t.source t.sourceVersion := by
  have gone : SourceGone l t → l.Superseded t.source t.sourceVersion := by
    rintro ⟨l0, hl0, hrec, hnone⟩
    obtain ⟨-, -, -, g, job, hg, hgp, hgc, -⟩ := hrec.prepared (h.of_suffix hl0)
    exact (superseded_of_get_none hnone hg hgp hgc).mono hl0
  cases s with
  | completed =>
    rcases basis.2 with ⟨l0, hl0, hfen, -⟩ | ⟨-, hfen⟩ | hgone
    · exact (hfen.mono hl0).superseded h
    · exact hfen.superseded h
    · exact gone hgone
  | aborted =>
    rcases basis with ⟨l0, hl0, hsup, -⟩ | hgone
    · exact hsup.mono hl0
    · exact gone hgone
  | _ => exact basis.elim

/-- A record leaves `prepared` only when its source is no longer the version
the move was prepared from. -/
theorem superseded_of_left_prepared {w : Nat} (he : l.Held w e) (hp : e.path = .transition t.jobId)
    (hc : e.content = some (.transition r)) (hid : r.transitionId = t) (hs : r.state = .prepared)
    (hleft : ∀ c, l.get (.transition t.jobId) ≠ some (c, w)) :
    l.Superseded t.source t.sourceVersion := by
  induction h with
  | nil => exact absurd he not_held_nil
  | @cons older f hist hal hcond ih =>
    by_cases hf : f.path = .transition t.jobId
    · rcases held_cons.mp he with ⟨rfl, rfl⟩ | he
      · exact absurd (by rw [get_cons_same hf, hc]; rfl) (hleft (.transition r))
      · by_cases hget : ∃ c, older.get (.transition t.jobId) = some (c, w)
        · obtain ⟨c, hget⟩ := hget
          obtain rfl := get_eq_of_held hget he hc
          have hmono : PastOf older (f :: older) := suffix_cons _ _
          cases (show Allowed older f from hal).recordWrite hf with
          | records r' wf prepared source free =>
            have hj : r'.transitionId.jobId = t.jobId := Path.transition.inj hf
            rw [hj] at free
            exact absurd hs (free r w hget)
          | moves t' s prev v current id differs basis =>
            have hj : t'.jobId = t.jobId := Path.transition.inj hf
            rw [hj, hget] at current
            cases current
            have ht : t' = t := id.symm.trans hid
            subst ht
            exact (MoveBasis.superseded hist basis).mono hmono
          | retires t' prev v current id state basis =>
            have hj : t'.jobId = t.jobId := Path.transition.inj hf
            rw [hj, hget] at current
            cases current
            rw [hs] at state
            cases state
        · refine (ih he fun c hcur => hget ⟨c, hcur⟩).mono (suffix_cons _ _)
    · rcases held_cons.mp he with ⟨-, rfl⟩ | he
      · exact absurd hp hf
      · refine (ih he fun c hcur => hleft c ?_).mono (suffix_cons _ _)
        rw [get_cons_other hf]
        exact hcur

/-- A transition whose source still is the version it was prepared from is the
job's prepared record. -/
theorem record_of_current (hrec : Recorded l t .prepared) {c : Contents}
    (hget : l.get t.source = some (c, t.sourceVersion)) : RecordNow l t .prepared := by
  obtain ⟨w, e, r, he, hp, hc, hid, hs⟩ := hrec
  by_cases hcur : ∃ c, l.get (.transition t.jobId) = some (c, w)
  · obtain ⟨c, hcur⟩ := hcur
    obtain rfl := get_eq_of_held hcur he hc
    exact ⟨r, w, hcur, hid, hs⟩
  · have hsup := superseded_of_left_prepared h he hp hc hid hs fun c hcur' => hcur ⟨c, hcur'⟩
    exact absurd hsup (not_superseded_of_get hget)

theorem superseded_of_recorded (hrec : Recorded l t s) (hnow : ¬ RecordNow l t .prepared) :
    l.Superseded t.source t.sourceVersion := by
  obtain ⟨hprep, -⟩ := hrec.prepared h
  obtain ⟨w, e, r, he, hp, hc, hid, hs⟩ := hprep
  refine superseded_of_left_prepared h he hp hc hid hs fun c hcur => hnow ?_
  obtain rfl := get_eq_of_held hcur he hc
  exact ⟨r, w, hcur, hid, hs⟩

/-- A record that was once in another state than prepared has lost its source
version. -/
theorem Recorded.superseded
    (hrec : Recorded l t s) (hs : s ≠ .prepared) : l.Superseded t.source t.sourceVersion := by
  by_cases hnow : RecordNow l t .prepared
  · -- The record is prepared now: it was prepared again, over the state `s`.
    obtain ⟨v, e, r, he, hp, hc, hid, hstate⟩ := hrec
    obtain ⟨older, hpast, -, hal, -⟩ := held_allowed h he
    have hist := h.of_suffix (pastOf_of_cons hpast)
    refine Superseded.mono (pastOf_of_cons hpast) ?_
    have left : ∀ {prev : JobTransition} {w : Nat},
        older.get (.transition t.jobId) = some (.transition prev, w) → prev.transitionId = t →
        prev.state ≠ .prepared → older.Superseded t.source t.sourceVersion := by
      intro prev w hget hprev hne
      refine superseded_of_recorded hist (RecordNow.recorded ⟨prev, w, hget, hprev, rfl⟩) ?_
      rintro ⟨r', w', hget', -, hs'⟩
      rw [hget] at hget'
      cases hget'
      exact hne hs'
    cases hal.recordWrite hp with
    | records r' wf prepared source free =>
      cases hc
      rw [prepared] at hstate
      exact absurd hstate.symm hs
    | moves t' s' prev w current hprev differs basis =>
      have hj : t'.jobId = t.jobId := Path.transition.inj hp
      have ht : t' = t := by
        cases hc
        exact hprev.symm.trans hid
      subst ht
      exact MoveBasis.superseded hist basis
    | retires t' prev w current hprev state basis =>
      have ht : t' = t := by
        cases hc
        exact hprev.symm.trans hid
      subst ht
      refine left current hprev ?_
      rw [state]
      simp
  · exact superseded_of_recorded h hrec hnow

/-- A source that was superseded and does not stand fenced never does again. -/
theorem not_fencedNow_of_left (hs : l0.PastOf l) (hsup : l0.Superseded t.source t.sourceVersion)
    (hnot : ¬ FencedNow l0 t) : ¬ FencedNow l t := by
  rintro ⟨job, v, hget, hstate⟩
  obtain ⟨e, he, hp, hc⟩ := get_held hget
  obtain ⟨older, source, -, hpast, hlen, -, -, -, hcur, -⟩ := fence_write h he hp hc hstate
  have hlt : v < l0.length := by
    by_contra hge
    have hpast0 : l0.PastOf older := suffix_of_suffix_length_le hs (pastOf_of_cons hpast) (by omega)
    exact not_superseded_of_get hcur (hsup.mono hpast0)
  exact hnot ⟨job, v, get_of_pastOf hs hget hlt, hstate⟩

theorem SourceLeft.not_fencedNow (hs : l0.PastOf l)
    (hleft : SourceLeft l0 t) : ¬ FencedNow l t := by
  obtain ⟨hsup, job, v, hget, hstate⟩ := hleft
  refine not_fencedNow_of_left h hs hsup ?_
  rintro ⟨job', v', hget', hstate'⟩
  rw [hget] at hget'
  cases hget'
  exact hstate hstate'

/-- Superseded and never fenced: the transition never will be. -/
theorem not_fenced_of_dead (hs : l0.PastOf l)
    (hsup : l0.Superseded t.source t.sourceVersion) (hnot : ¬ Fenced l0 t) : ¬ Fenced l t := by
  rintro ⟨v, e, job, he, hp, hc, hstate⟩
  obtain ⟨older, source, -, hpast, hlen, -, -, -, hcur, -⟩ := fence_write h he hp hc hstate
  by_cases hlt : v < l0.length
  · exact hnot ⟨v, e, job, he.of_lt hs hlt, hp, hc, hstate⟩
  · have hpast0 : l0.PastOf older := suffix_of_suffix_length_le hs (pastOf_of_cons hpast) (by omega)
    exact not_superseded_of_get hcur (hsup.mono hpast0)

end

end Stado
