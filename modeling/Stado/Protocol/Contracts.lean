import Stado.Protocol.Facts

/-!
# The programs keep the protocol

Every write of a lifecycle program is one the protocol allows, whatever the
other clients wrote before it; and each program's answer is explained by what
it read. The condition of the run is kept beside each read, so that a claim may
speak about the state a step is taken in.
-/

namespace Stado

open CasStore Program List Store

variable {cond : Condition} {i : Nat} {l l0 : ObjectStore} {t : TransitionId}

variable {site : Site} {jobId runId : String} {fuel v : Nat} {job : Job} {c : Contents}
  {r : JobTransition} {own : Bool} {p : Prefix} {s : TransitionState}

theorem meets_readVersioned :
    Meets (lifecycle cond) i (readVersioned site p jobId)
      (fun found l' => cond l' i site none ∧
        l'.get (.document p jobId) = found.map fun x => (Contents.job x.1, x.2)) l := by
  refine meets_bind (meets_read fun l' _ hist hc => ?_)
  cases hget : l'.get (.document p jobId) with
  | none => exact ⟨hc, hget⟩
  | some found =>
    obtain ⟨c, v⟩ := found
    obtain ⟨job, rfl, -, -⟩ := document_get hist hget
    exact ⟨hc, hget⟩

theorem meets_readJob (hist : History (lifecycle cond) l) :
    Meets (lifecycle cond) i (readJob site p jobId)
      (fun found l' => cond l' i site none ∧
        ((found = none ∧ ¬ Live l' p jobId) ∨ ∃ v job, found = some job ∧ LiveAt l' p jobId v job))
      l := by
  refine meets_bind (meets_readVersioned.mono hist fun found l' _ hist' hfound => ?_)
  obtain ⟨hc, hget⟩ := hfound
  cases found with
  | none =>
    refine ⟨hc, .inl ⟨rfl, ?_⟩⟩
    rintro ⟨v, job, hget', -⟩
    rw [hget] at hget'
    cases hget'
  | some found =>
    obtain ⟨job, v⟩ := found
    obtain ⟨job', hjob, -, hstate⟩ := document_get hist' hget
    cases hjob
    generalize hs : job.state = s at hstate
    cases hstate with
    | live =>
      simp only [hs, isTransitionSentinelState_prefixState, Bool.false_eq_true, if_false]
      exact ⟨hc, .inr ⟨v, job, rfl, hget, hs⟩⟩
    | fenced t source =>
      simp only [hs, isTransitionSentinelState, if_true]
      refine ⟨hc, .inl ⟨rfl, ?_⟩⟩
      rintro ⟨v', job', hget', hs'⟩
      rw [hget] at hget'
      cases hget'
      rw [hs] at hs'
      exact prefixState_ne_transitioning _ _ hs'.symm
    | cleaned t source =>
      simp only [hs, isTransitionSentinelState, if_true]
      refine ⟨hc, .inl ⟨rfl, ?_⟩⟩
      rintro ⟨v', job', hget', hs'⟩
      rw [hget] at hget'
      cases hget'
      rw [hs] at hs'
      exact prefixState_ne_transitionCleaned _ _ hs'.symm

theorem meets_standsUnder {prefixes : List Prefix} (hist : History (lifecycle cond) l) :
    Meets (lifecycle cond) i (standsUnder jobId prefixes) (fun _ _ => True) l := by
  induction prefixes generalizing l with
  | nil => trivial
  | cons p rest ih =>
    refine meets_bind ((meets_readJob hist).mono hist fun found l' _ hist' _ => ?_)
    cases found with
    | none => exact ih hist'
    | some job => trivial

theorem meets_readJobTransition :
    Meets (lifecycle cond) i (readJobTransition site jobId)
      (fun found l' => cond l' i site none ∧
        l'.get (.transition jobId) = found.map fun x => (Contents.transition x.1, x.2)) l := by
  refine meets_bind (meets_read fun l' _ hist hc => ?_)
  cases hget : l'.get (.transition jobId) with
  | none => exact ⟨hc, hget⟩
  | some found =>
    obtain ⟨c, v⟩ := found
    obtain ⟨r, rfl, wf, hid, -⟩ := record_get hist hget
    simp only [wf.schema, wf.jobId, hid, ne_eq, not_true_eq_false, or_self, if_false]
    exact ⟨hc, hget⟩

theorem MoveBasis.mono (hs : l0.PastOf l) (h : MoveBasis l0 t s) : MoveBasis l t s := by
  cases s with
  | completed =>
    obtain ⟨⟨l2, hl2, hstands⟩, h⟩ := h
    refine ⟨⟨l2, hl2.trans hs, hstands⟩, ?_⟩
    rcases h with ⟨l1, hl1, hrest⟩ | ⟨hrec, hfen⟩ | hgone
    · exact .inl ⟨l1, hl1.trans hs, hrest⟩
    · exact .inr (.inl ⟨hrec.mono hs, hfen.mono hs⟩)
    · exact .inr (.inr (hgone.mono hs))
  | aborted =>
    rcases h with ⟨l1, hl1, hrest⟩ | hgone
    · exact .inl ⟨l1, hl1.trans hs, hrest⟩
    · exact .inr (hgone.mono hs)
  | _ => exact h

theorem RetiredBasis.mono (hs : l0.PastOf l) (h : RetiredBasis l0 t) : RetiredBasis l t := by
  rcases h with ⟨l1, hl1, hrest⟩ | hgone | hleft
  · exact .inl ⟨l1, hl1.trans hs, hrest⟩
  · exact .inr (.inl (hgone.mono hs))
  · exact .inr (.inr (hleft.mono hs))

/-- The record that was read is not the one a caller wanted to move. -/
def ReplacedRecord (l : ObjectStore) (t : TransitionId) (owner : String) : Prop :=
  ∃ r v, l.get (.transition t.jobId) = some (.transition r, v) ∧
    (r.transitionId ≠ t ∨ r.owner ≠ owner)

/-- The state is written when the decision for it has a basis; the answer says
whether the record holds it or belongs to another generation. -/
theorem meets_setTransitionState {expected : JobTransition}
    (state : TransitionState) (hist : History (lifecycle cond) l)
    (wf : expected.WellFormed) (basis : MoveBasis l expected.transitionId state) :
    Meets (lifecycle cond) i (setTransitionState fuel expected state own)
      (fun b l' => if b then RecordNow l' expected.transitionId state else
        cond l' i (.stateRead expected.transitionId state own) none ∧
          ReplacedRecord l' expected.transitionId expected.owner) l := by
  induction fuel generalizing l with
  | zero => trivial
  | succ fuel ih =>
    refine meets_bind (meets_readJobTransition.mono hist fun found l1 hl1 hist1 hread => ?_)
    obtain ⟨hc, hget⟩ := hread
    cases found with
    | none => trivial
    | some found =>
      obtain ⟨r, v⟩ := found
      rw [wf.jobId] at hget
      have hget : l1.get (.transition expected.transitionId.jobId)
          = some (.transition r, v) := hget
      show Meets (lifecycle cond) i (if _ then _ else _) _ l1
      split
      · next hother => exact ⟨hc, r, v, hget, hother⟩
      · next hsame =>
        have hid : r.transitionId = expected.transitionId := by
          by_contra hne
          exact hsame (.inl hne)
        split
        · next hstate => exact ⟨r, v, hget, hid, hstate⟩
        · next hdiffers =>
          refine meets_bind (meets_swap ?_ ?_ ?_ ?_)
          · intro l2 old hl2 hist2 hold _
            rw [wf.jobId] at hold ⊢
            obtain ⟨e, he, hep, hec⟩ := get_held hget
            obtain rfl := get_eq_of_held hold (he.mono hl2) hec
            exact .record (.moves _ state r v hold hid hdiffers
              (basis.mono (hl1.trans hl2)))
          · intro l2 old _ _ hist2
            refine ⟨{ r with state := state }, l2.length, ?_, hid, rfl⟩
            rw [get_cons_same (by rw [wf.jobId])]
            rfl
          · intro l2 old w hl2 hist2 _ _ _
            exact ih hist2 (basis.mono (hl1.trans hl2))
          · intro l2 _ _ _ _
            trivial

theorem meets_retireTransitionRecord {completed : JobTransition} (hist : History (lifecycle cond) l)
    (wf : completed.WellFormed) (basis : RetiredBasis l completed.transitionId) :
    Meets (lifecycle cond) i (retireTransitionRecord fuel completed) (fun _ _ => True) l := by
  induction fuel generalizing l with
  | zero => trivial
  | succ fuel ih =>
    refine meets_bind (meets_readJobTransition.mono hist fun found l1 hl1 hist1 hread => ?_)
    obtain ⟨-, hget⟩ := hread
    cases found with
    | none => trivial
    | some found =>
      obtain ⟨r, v⟩ := found
      rw [wf.jobId] at hget
      have hget : l1.get (.transition completed.transitionId.jobId)
          = some (.transition r, v) := hget
      show Meets (lifecycle cond) i (if _ then _ else _) _ l1
      split
      · trivial
      · next hsame =>
        have hid : r.transitionId = completed.transitionId := by
          by_contra hne
          exact hsame (.inl hne)
        split
        · trivial
        · next hstate =>
          refine meets_bind (meets_swap ?_ ?_ ?_ ?_)
          · intro l2 old hl2 hist2 hold _
            rw [wf.jobId] at hold ⊢
            obtain ⟨e, he, hep, hec⟩ := get_held hget
            obtain rfl := get_eq_of_held hold (he.mono hl2) hec
            exact .record (.retires _ r v hold hid (not_not.mp hstate)
              (basis.mono (hl1.trans hl2)))
          · intro l2 old _ _ hist2
            trivial
          · intro l2 old w hl2 hist2 _ _ _
            exact ih hist2 (basis.mono (hl1.trans hl2))
          · intro l2 hl2 hist2 _ _
            exact ih hist2 (basis.mono (hl1.trans hl2))

/-! ## The index and the run manifests -/

theorem meets_writePriorityMarker :
    Meets (lifecycle cond) i (writePriorityMarker job) (fun _ _ => True) l :=
  meets_put (fun _ _ _ _ => .marker (.indexes job)) fun _ _ _ => trivial

theorem meets_deleteMarker {path : Path} {basis : MarkerBasis} (named : markerJob path = some jobId)
    (dropped : ∀ l', l.PastOf l' → MarkerDropped l' path jobId basis) :
    Meets (lifecycle cond) i (perform (.deleteMarker basis) (.delete path) : Storage Unit)
      (fun _ _ => True) l :=
  meets_delete (fun l' hl' _ _ _ => .marker (.unindexes path jobId basis named (dropped l' hl')))
    (fun _ _ _ _ => trivial) fun _ _ _ _ => trivial

/-- A write to an object the lifecycle says nothing about is allowed. -/
theorem meets_auxiliary_swap {p : Path} {Q : Swap → ObjectStore → Prop} (hp : p.auxiliary = true)
    (hs : site.auxiliary = true) (hQ : ∀ b l', l.PastOf l' → History (lifecycle cond) l' → Q b l') :
    Meets (lifecycle cond) i (perform site (.swap p v c) : Storage Swap) Q l :=
  meets_swap (fun _ _ _ _ _ _ => .auxiliary hp hs)
    (fun _ _ hl' _ hist' => hQ _ _ (hl'.trans (suffix_cons _ _)) hist')
    (fun l' _ _ hl' hist' _ _ _ => hQ _ l' hl' hist') fun l' hl' hist' _ _ => hQ _ l' hl' hist'

theorem meets_auxiliary_create {p : Path} {Q : Bool → ObjectStore → Prop} (hp : p.auxiliary = true)
    (hs : site.auxiliary = true) (hQ : ∀ b l', l.PastOf l' → History (lifecycle cond) l' → Q b l') :
    Meets (lifecycle cond) i (perform site (.create p c) : Storage Bool) Q l :=
  meets_create (fun _ _ _ _ _ => .auxiliary hp hs)
    (fun _ hl' _ hist' => hQ _ _ (hl'.trans (suffix_cons _ _)) hist')
    fun l' hl' hist' _ => hQ _ l' hl' hist'

theorem meets_auxiliary_put {p : Path} {Q : Unit → ObjectStore → Prop} (hp : p.auxiliary = true)
    (hs : site.auxiliary = true) (hQ : ∀ l', l.PastOf l' → History (lifecycle cond) l' → Q () l') :
    Meets (lifecycle cond) i (perform site (.put p c) : Storage Unit) Q l :=
  meets_put (fun _ _ _ _ => .auxiliary hp hs)
    fun _ hl' hist' => hQ _ (hl'.trans (suffix_cons _ _)) hist'

theorem meets_indexRetainedJob :
    Meets (lifecycle cond) i (indexRetainedJob jobId runId) (fun _ _ => True) l :=
  meets_bind (meets_auxiliary_create rfl rfl fun _ _ _ _ => trivial)

theorem meets_readManifest : Meets (lifecycle cond) i (readManifest runId) (fun _ _ => True) l := by
  refine meets_bind (meets_read fun l' _ _ _ => ?_)
  split <;> trivial

theorem meets_recordOutcomeLoop {index : Nat} (hist : History (lifecycle cond) l) :
    Meets (lifecycle cond) i (recordOutcomeLoop fuel runId index job p) (fun _ _ => True) l := by
  induction fuel generalizing l with
  | zero => trivial
  | succ fuel ih =>
    refine meets_bind (meets_readManifest.mono hist fun found l1 _ hist1 _ => ?_)
    cases found with
    | none => trivial
    | some found =>
      refine meets_bind (meets_query fun l2 _ _ now => ?_)
      split
      · trivial
      · exact meets_indexRetainedJob
      · refine meets_bind (meets_auxiliary_swap rfl rfl fun answer l3 _ hist3 => ?_)
        cases answer with
        | stored version => exact meets_indexRetainedJob
        | conflict => exact ih hist3
        | notFound => trivial

theorem meets_recordTerminalOutcome :
    Meets (lifecycle cond) i (recordTerminalOutcome fuel job p) (fun _ _ => True) l := by
  unfold recordTerminalOutcome
  split
  · trivial
  · split
    · trivial
    · split
      · trivial
      · split
        · trivial
        · refine meets_bind (meets_exist fun l1 _ hist1 _ => ?_)
          split
          · trivial
          · exact meets_recordOutcomeLoop hist1

theorem Recorded.sourceLeft (h : History (lifecycle cond) l)
    (hrec : Recorded l t s) (hs : s ≠ .prepared) (hget : l.get t.source = some (.job job, v))
    (hstate : job.state ≠ .transitioning t) : SourceLeft l t :=
  ⟨hrec.superseded h hs, job, v, hget, hstate⟩

theorem meets_retireTransitionSource (hist : History (lifecycle cond) l) (wf : r.WellFormed)
    (hrec : Recorded l r.transitionId .completed) :
    Meets (lifecycle cond) i (retireTransitionSource fuel r)
      (fun _ l' => RetiredBasis l' r.transitionId) l := by
  induction fuel generalizing l with
  | zero => trivial
  | succ fuel ih =>
    refine meets_bind (meets_readVersioned.mono hist fun found l1 hl1 hist1 hread => ?_)
    obtain ⟨-, hget⟩ := hread
    have hrec1 := hrec.mono hl1
    rw [wf.fromPrefix, wf.jobId] at hget
    have left : ∀ {job v}, found = some (job, v) → job.state ≠ .transitioning r.transitionId →
        RetiredBasis l1 r.transitionId := fun hfound hne =>
      .inl ⟨l1, suffix_refl _, hrec1.sourceLeft hist1 (by simp)
        (by rw [hget, hfound]; rfl) hne⟩
    cases found with
    | none =>
      exact .inr (.inl ⟨l1, suffix_refl _, (hrec1.prepared hist1).1, hget⟩)
    | some found =>
      obtain ⟨job, v⟩ := found
      show Meets (lifecycle cond) i (if _ then _ else _) _ l1
      split
      · next hcleaned =>
        refine left rfl ?_
        rw [hcleaned]
        simp
      · split
        · next hne => exact left rfl hne
        · next hfence =>
          have hfence : job.state = .transitioning r.transitionId := not_not.mp hfence
          have hget : l1.get r.transitionId.source = some (.job job, v) := hget
          have hmarker : Meets (lifecycle cond) i
              (if r.fromPrefix = .queue then deletePriorityMarkerFor job (.seen v)
                else Pure.pure ()) (fun _ _ => True) l1 := by
            split
            · next hqueue =>
              refine meets_deleteMarker (markerJob_markerPath job) fun l' hl' => ?_
              obtain ⟨e, he, hp, hc⟩ := get_held hget
              obtain ⟨_, hjob, hid, -⟩ := document_get hist1 hget
              cases hjob
              refine ⟨e, job, he.mono hl', ?_, hc, .inl ?_⟩
              · rw [hp, TransitionId.source, ← wf.fromPrefix, hqueue, hid]
              · rw [hfence]
                simp
            · trivial
          refine meets_bind (hmarker.mono hist1 fun _ l2 hl2 hist2 _ => ?_)
          refine meets_bind (meets_swap ?_ ?_ ?_ ?_)
          · intro l3 old hl3 hist3 hold _
            rw [wf.fromPrefix, wf.jobId] at hold ⊢
            obtain ⟨e, he, hep, hec⟩ := get_held hget
            obtain rfl := get_eq_of_held hold (he.mono (hl2.trans hl3)) hec
            exact .document (.cleans _ job v hold hfence (hrec1.mono (hl2.trans hl3)))
          · intro l3 old hl3 _ hist3
            refine .inl ⟨_, suffix_refl _, Recorded.superseded hist3
              (hrec1.mono ((hl2.trans hl3).trans (suffix_cons _ _))) (by simp),
              { job with state := .transitionCleaned r.transitionId }, l3.length, ?_,
              by simp⟩
            rw [get_cons_same (by rw [wf.fromPrefix, wf.jobId])]
            rfl
          · intro l3 old w hl3 hist3 _ _ _
            exact ih hist3 (hrec1.mono (hl2.trans hl3))
          · intro l3 hl3 hist3 _ _
            exact ih hist3 (hrec1.mono (hl2.trans hl3))

theorem meets_settleSource (hist : History (lifecycle cond) l) (wf : r.WellFormed)
    (hrec : Recorded l r.transitionId .completed) :
    Meets (lifecycle cond) i (settleSource fuel r) (fun b _ => b = true) l := by
  refine meets_bind ((meets_retireTransitionSource hist wf hrec).mono hist
    fun _ l1 _ hist1 basis => ?_)
  exact meets_bind ((meets_retireTransitionRecord hist1 wf basis).weaken fun _ _ _ => rfl)

theorem meets_retainAndSettle {destination : Job} (hist : History (lifecycle cond) l)
    (wf : r.WellFormed) (hrec : Recorded l r.transitionId .completed) :
    Meets (lifecycle cond) i (retainAndSettle fuel r destination) (fun _ _ => True) l := by
  refine meets_bind (Meets.mono (Q := fun _ _ => True) (meets_attempt
    meets_recordTerminalOutcome hist fun _ _ _ _ => trivial) hist
    fun result l1 hl1 hist1 _ => ?_)
  have settle : Meets (lifecycle cond) i (settleSource fuel r) (fun _ _ => True) l1 :=
    (meets_settleSource hist1 wf (hrec.mono hl1)).weaken fun _ _ _ => trivial
  split
  · exact settle
  · exact settle
  · trivial
  · trivial

/-- Why a recovery of `t` by client `i` answered false without finishing it:
what the client found when it took the step. -/
inductive Unfinished (cond : Condition) (i : Nat) (t : TransitionId) (own : Bool)
    (owner : String) (l : ObjectStore) : Prop where
  /-- The record belonged to another generation when it was to be completed. -/
  | replaced (l0 : ObjectStore) (past : l0.PastOf l) (hist : History (lifecycle cond) l0)
      (read : cond l0 i (.stateRead t .completed own) none) (other : ReplacedRecord l0 t owner)
  /-- The destination no longer stood. -/
  | moved (l0 : ObjectStore) (past : l0.PastOf l) (hist : History (lifecycle cond) l0)
      (read : cond l0 i (.finishRead t own) none) (left : ¬ Live l0 t.toPrefix t.jobId)
  /-- The terminal outcome was not retained. -/
  | unretained (terminal : t.toPrefix.terminal = true)
  /-- The fence was lost to another write. -/
  | lost (l0 : ObjectStore) (past : l0.PastOf l) (hist : History (lifecycle cond) l0)
      (read : cond l0 i (.fenceSource t own) none)
      (superseded : l0.Superseded t.source t.sourceVersion)
  /-- The source had left. -/
  | left (l0 : ObjectStore) (past : l0.PastOf l) (hist : History (lifecycle cond) l0)
      (read : cond l0 i (.sourceRead t own) none) (left : SourceLeft l0 t)
  | gone (gone : SourceGone l t)

/-- The document that matches a record is the job it promised. -/
theorem stands_of_matches (wf : r.WellFormed) (hlive : LiveAt l r.toPrefix r.jobId v job)
    (hmatch : matchesDestination r job = true) : Stands l r.transitionId := by
  have hmatch := of_decide_eq_true hmatch
  rw [wf.toPrefix, wf.jobId] at hlive
  refine ⟨v, job, hlive, hmatch.1.trans ?_⟩
  rw [wf.destination]
  rfl

theorem meets_finishCompletedTransition (hist : History (lifecycle cond) l) (wf : r.WellFormed)
    (hnow : ∃ l1 : ObjectStore, l1.PastOf l ∧ RecordNow l1 r.transitionId .completed) :
    Meets (lifecycle cond) i (finishCompletedTransition fuel r own)
      (fun b l' => b = false → Unfinished cond i r.transitionId own r.owner l') l := by
  obtain ⟨l1, hl1, hnow⟩ := hnow
  have hrec : Recorded l r.transitionId .completed := hnow.recorded.mono hl1
  refine meets_bind ((meets_readJob hist).mono hist fun found l2 hl2 hist2 hread => ?_)
  obtain ⟨hc, hread⟩ := hread
  rcases hread with ⟨rfl, hnot⟩ | ⟨v, job, rfl, hlive⟩
  · rw [wf.toPrefix, wf.jobId] at hnot
    refine meets_bind ((meets_standsUnder hist2).mono hist2 fun b l3 hl3 hist3 _ => ?_)
    have left : RetiredBasis l3 r.transitionId :=
      .inr (.inr ⟨l1, l2, hl1.trans hl2, hl3, hnow, hnot⟩)
    cases b with
    | false => trivial
    | true =>
      refine meets_bind ((meets_retireTransitionRecord hist3 wf left).mono hist3
        fun _ l4 hl4 _ _ => ?_)
      exact fun _ => .moved l2 (hl3.trans hl4) hist2 hc hnot
  · show Meets (lifecycle cond) i (if _ then _ else _) _ l2
    split
    · trivial
    · refine meets_bind (meets_readVersioned.mono hist2 fun source l3 hl3 hist3 hread => ?_)
      obtain ⟨-, hget⟩ := hread
      have hrec3 := hrec.mono (hl2.trans hl3)
      rw [wf.fromPrefix, wf.jobId] at hget
      cases source with
      | none =>
        have gone : SourceGone l3 r.transitionId :=
          ⟨l3, suffix_refl _, (hrec3.prepared hist3).1, hget⟩
        refine meets_bind ((meets_retireTransitionRecord hist3 wf (.inr (.inl gone))).weaken
          fun _ _ _ hfalse => by cases hfalse)
      | some source =>
        obtain ⟨source, w⟩ := source
        show Meets (lifecycle cond) i (if _ then _ else _) _ l3
        split
        · next hcleaned =>
          have left : SourceLeft l3 r.transitionId :=
            hrec3.sourceLeft hist3 (by simp) hget (by rw [hcleaned.2]; simp)
          refine meets_bind ((meets_retireTransitionRecord hist3 wf
            (.inl ⟨l3, suffix_refl _, left⟩)).weaken fun _ _ _ hfalse => by cases hfalse)
        · split
          · next hterminal =>
            rw [wf.toPrefix] at hterminal
            exact (meets_retainAndSettle hist3 wf hrec3).weaken
              fun _ _ _ _ => .unretained hterminal
          · exact (meets_settleSource hist3 wf hrec3).weaken
              fun b _ hb hfalse => by rw [hb] at hfalse; cases hfalse

theorem meets_completeAndFinish (hist : History (lifecycle cond) l) (wf : r.WellFormed)
    (basis : CompletedBasis l r.transitionId) :
    Meets (lifecycle cond) i (completeAndFinish fuel r own)
      (fun b l' => if b then Recorded l' r.transitionId .completed else
        Unfinished cond i r.transitionId own r.owner l') l := by
  refine meets_bind ((meets_setTransitionState .completed hist wf basis).mono hist
    fun b l1 _ hist1 hb => ?_)
  cases b with
  | false => exact .replaced l1 (suffix_refl _) hist1 hb.1 hb.2
  | true =>
    have hnow : RecordNow l1 r.transitionId .completed := hb
    refine (meets_finishCompletedTransition hist1 wf ⟨l1, suffix_refl _, hnow⟩).mono hist1
      fun b l2 hl2 _ hunfinished => ?_
    cases b with
    | false => exact hunfinished rfl
    | true => exact hnow.recorded.mono hl2

/-! ## Recovery -/

abbrev RecoveryAnswer (cond : Condition) (i : Nat) (r : JobTransition) (own : Bool)
    (b : Bool) (l : ObjectStore) : Prop :=
  if b then Recorded l r.transitionId .completed else
    Unfinished cond i r.transitionId own r.owner l

section

variable (hist : History (lifecycle cond) l)

include hist

theorem meets_recoverAborted (wf : r.WellFormed) (hrec : Recorded l r.transitionId .aborted) :
    Meets (lifecycle cond) i (recoverAborted fuel r own)
      (fun b l' => b = true → Recorded l' r.transitionId .completed ∧
        (Fenced l' r.transitionId ∨ SourceGone l' r.transitionId)) l := by
  refine meets_bind ((meets_readJob hist).mono hist fun found l1 hl1 hist1 hread => ?_)
  obtain ⟨-, ⟨rfl, -⟩ | ⟨v, job, rfl, hlive⟩⟩ := hread
  · exact fun hfalse => by cases hfalse
  · show Meets (lifecycle cond) i (if _ then _ else _) _ l1
    split
    · exact fun hfalse => by cases hfalse
    · next hmatch =>
      rw [not_not] at hmatch
      refine meets_bind (meets_readVersioned.mono hist1 fun source l2 hl2 hist2 hread => ?_)
      obtain ⟨-, hget⟩ := hread
      have hrec2 := hrec.mono (hl1.trans hl2)
      have hstands : Stands l1 r.transitionId := stands_of_matches wf hlive hmatch
      rw [wf.fromPrefix, wf.jobId] at hget
      -- The two ways on end alike: with the record completed and what it was completed on.
      have upgrade : (Fenced l2 r.transitionId ∨ SourceGone l2 r.transitionId) →
          Meets (lifecycle cond) i (completeAndFinish fuel r own)
            (fun b l' => b = true → Recorded l' r.transitionId .completed ∧
              (Fenced l' r.transitionId ∨ SourceGone l' r.transitionId)) l2 := by
        intro hsource
        have basis : CompletedBasis l2 r.transitionId :=
          ⟨⟨l1, hl2, hstands⟩, hsource.elim (fun hfen => .inr (.inl ⟨hrec2, hfen⟩))
            fun hgone => .inr (.inr hgone)⟩
        refine (meets_completeAndFinish hist2 wf basis).mono hist2 fun b l3 hl3 _ hb htrue => ?_
        subst htrue
        exact ⟨hb, hsource.imp (Fenced.mono hl3) (SourceGone.mono hl3)⟩
      cases source with
      | none => exact upgrade (.inr ⟨l2, suffix_refl _, (hrec2.prepared hist2).1, hget⟩)
      | some source =>
        obtain ⟨source, w⟩ := source
        show Meets (lifecycle cond) i (if _ then _ else _) _ l2
        split
        · exact fun hfalse => by cases hfalse
        · next hsource =>
          refine upgrade (.inl ?_)
          by_cases hfence : source.state = .transitioning r.transitionId
          · exact FencedNow.fenced ⟨source, w, hget, hfence⟩
          · have hcleaned : source.state = .transitionCleaned r.transitionId := by
              by_contra hne
              exact hsource ⟨hfence, hne⟩
            obtain ⟨e, he, hp, hcontent⟩ := get_held hget
            exact Cleaned.fenced hist2 ⟨w, e, source, he, hp, hcontent, hcleaned⟩

theorem meets_recoverAbsentSource (wf : r.WellFormed) (gone : SourceGone l r.transitionId) :
    Meets (lifecycle cond) i (recoverAbsentSource fuel r own) (RecoveryAnswer cond i r own) l := by
  refine meets_bind ((meets_readJob hist).mono hist fun found l1 hl1 hist1 hread => ?_)
  have gone1 := gone.mono hl1
  obtain ⟨-, ⟨rfl, -⟩ | ⟨v, job, rfl, hlive⟩⟩ := hread
  · refine meets_bind ((meets_standsUnder hist1).mono hist1 fun b l2 hl2 hist2 _ => ?_)
    cases b with
    | false => trivial
    | true =>
      have basis : AbortedBasis l2 r.transitionId := .inr (gone1.mono hl2)
      refine meets_bind ((meets_setTransitionState .aborted hist2 wf basis).mono hist2
        fun _ l3 hl3 _ _ => ?_)
      exact .gone ((gone1.mono hl2).mono hl3)
  · show Meets (lifecycle cond) i (if _ then _ else _) _ l1
    split
    · trivial
    · next hmatch =>
      rw [not_not] at hmatch
      exact meets_completeAndFinish hist1 wf
        ⟨⟨l1, suffix_refl _, stands_of_matches wf hlive hmatch⟩, .inr (.inr gone1)⟩

/-- The destination is written when nothing that stands would be lost, or found
standing; either way it was seen to stand after the fence. -/
theorem meets_placeDestination (wf : r.WellFormed) (fenced : Fenced l r.transitionId) :
    Meets (lifecycle cond) i (placeDestination fuel r)
      (fun _ l' => ∃ l0 : ObjectStore, l0.PastOf l' ∧ Fenced l0 r.transitionId ∧
        Stands l0 r.transitionId) l := by
  induction fuel generalizing l with
  | zero => trivial
  | succ fuel ih =>
    refine meets_bind (meets_readVersioned.mono hist fun found l1 hl1 hist1 hread => ?_)
    obtain ⟨-, hget⟩ := hread
    have fenced1 := fenced.mono hl1
    rw [wf.toPrefix, wf.jobId] at hget
    -- Whichever call wrote the destination, it stands in the store after it.
    have placed : ∀ {l2 : ObjectStore}, l1.PastOf l2 →
        ∃ l0 : ObjectStore, l0.PastOf (⟨.document r.toPrefix r.jobId,
          some (.job r.destinationJob), .installDestination r.transitionId, i⟩ :: l2) ∧
          Fenced l0 r.transitionId ∧ Stands l0 r.transitionId := by
      intro l2 hl2
      refine ⟨_, suffix_refl _, fenced1.mono (hl2.trans (suffix_cons _ _)),
        l2.length, r.transitionId.destinationJob, ⟨?_, rfl⟩, rfl⟩
      rw [get_cons_same (by rw [wf.toPrefix, wf.jobId]), wf.destination]
      rfl
    -- A swap is allowed over a document that was read cleaned or standing.
    have swapped : ∀ {existing : Job} {v : Nat}, l1.get r.transitionId.target
          = some (.job existing, v) →
        (isTransitionCleanedState existing.state = true ∨
          existing.state = prefixState r.transitionId.toPrefix) →
        ∀ {k : Swap → Storage Job}, (∀ version, k (.stored version) = .pure r.destinationJob) →
        k .conflict = placeDestination fuel r → k .notFound = placeDestination fuel r →
        Meets (lifecycle cond) i ((perform (.installDestination r.transitionId)
          (.swap (.document r.toPrefix r.jobId) v (.job r.destinationJob))).bind k)
          (fun _ l' => ∃ l0 : ObjectStore, l0.PastOf l' ∧ Fenced l0 r.transitionId ∧
            Stands l0 r.transitionId) l1 := by
      intro existing v hget hfree k hstored hconflict hnotFound
      refine meets_bind (meets_swap ?_ ?_ ?_ ?_)
      · intro l2 old hl2 hist2 hold _
        rw [wf.toPrefix, wf.jobId] at hold ⊢
        rw [wf.destination]
        obtain ⟨e, he, hep, hec⟩ := get_held hget
        obtain rfl := get_eq_of_held hold (he.mono hl2) hec
        exact .document (.places _ (fenced1.mono hl2) (.inr ⟨existing, v, hold, hfree⟩))
      · intro l2 old hl2 _ hist2
        rw [hstored]
        exact placed hl2
      · intro l2 old w hl2 hist2 _ _ _
        rw [hconflict]
        exact ih hist2 (fenced1.mono hl2)
      · intro l2 hl2 hist2 _ _
        rw [hnotFound]
        exact ih hist2 (fenced1.mono hl2)
    cases found with
    | none =>
      refine meets_bind (meets_create ?_ ?_ ?_)
      · intro l2 hl2 _ hnone _
        rw [wf.toPrefix, wf.jobId] at hnone ⊢
        rw [wf.destination]
        exact .document (.places _ (fenced1.mono hl2) (.inl hnone))
      · intro l2 hl2 _ hist2
        exact placed hl2
      · intro l2 hl2 hist2 _
        exact ih hist2 (fenced1.mono hl2)
    | some found =>
      obtain ⟨existing, v⟩ := found
      have hget : l1.get r.transitionId.target = some (.job existing, v) := hget
      show Meets (lifecycle cond) i (if _ then _ else _) _ l1
      split
      · next hcleaned => exact swapped hget (.inl hcleaned) (fun _ => rfl) rfl rfl
      · split
        · trivial
        · next hmatch =>
          have hmatch : matchesDestination r existing = true := by simpa using hmatch
          have hstate : existing.state = prefixState r.toPrefix := (of_decide_eq_true hmatch).2
          split
          · exact swapped hget (.inr (by rw [hstate, wf.toPrefix])) (fun _ => rfl)
              rfl rfl
          · refine ⟨l1, suffix_refl _, fenced1, stands_of_matches wf (v := v)
              ⟨?_, hstate⟩ hmatch⟩
            rw [wf.toPrefix, wf.jobId]
            exact hget

theorem meets_installAndFinish (wf : r.WellFormed) (fenced : Fenced l r.transitionId) :
    Meets (lifecycle cond) i (installAndFinish fuel r own) (RecoveryAnswer cond i r own) l := by
  refine meets_bind ((meets_placeDestination hist wf fenced).mono hist fun job l1 _ hist1 hseen => ?_)
  refine meets_bind (meets_touch fun l2 hl2 hist2 => ?_)
  have hmarker : Meets (lifecycle cond) i
      (if r.toPrefix = .queue then writePriorityMarker job else Pure.pure ())
      (fun _ _ => True) l2 := by
    split
    · exact meets_writePriorityMarker
    · trivial
  refine meets_bind (hmarker.mono hist2 fun _ l3 hl3 hist3 _ => ?_)
  obtain ⟨l0, hl0, hrest⟩ := hseen
  have hpast := (hl0.trans hl2).trans hl3
  exact meets_completeAndFinish hist3 wf ⟨⟨l0, hpast, hrest.2⟩, .inl ⟨l0, hpast, hrest⟩⟩

theorem meets_recoverPrepared (wf : r.WellFormed) (hrec : Recorded l r.transitionId .prepared)
    (hsource : ∃ f, l.Held r.transitionId.sourceVersion f ∧ f.path = r.transitionId.source ∧
      f.content = some (.job r.sourceDigest)) :
    Meets (lifecycle cond) i (recoverPrepared fuel r own) (RecoveryAnswer cond i r own) l := by
  refine meets_bind (meets_readVersioned.mono hist fun found l1 hl1 hist1 hread => ?_)
  obtain ⟨hc, hget⟩ := hread
  have hrec1 := hrec.mono hl1
  rw [wf.fromPrefix, wf.jobId] at hget
  cases found with
  | none => exact meets_recoverAbsentSource hist1 wf ⟨l1, suffix_refl _, hrec1, hget⟩
  | some found =>
    obtain ⟨source, v⟩ := found
    have hget : l1.get r.transitionId.source = some (.job source, v) := hget
    show Meets (lifecycle cond) i (if _ then _ else _) _ l1
    split
    · next hcurrent =>
      obtain ⟨hv, -⟩ := hcurrent
      rw [wf.sourceVersion] at hv
      subst hv
      obtain ⟨e, he, hep, hec⟩ := get_held hget
      refine meets_bind (meets_swap ?_ ?_ ?_ ?_)
      · intro l2 old hl2 _ hold _
        rw [wf.fromPrefix, wf.jobId] at hold ⊢
        obtain rfl := get_eq_of_held hold (he.mono hl2) hec
        exact .document (.fences _ source hold (hrec1.mono hl2))
      · intro l2 old hl2 _ hist2
        refine meets_installAndFinish hist2 wf (FencedNow.fenced
          ⟨{ source with state := .transitioning r.transitionId }, l2.length, ?_, rfl⟩)
        rw [get_cons_same (by rw [wf.fromPrefix, wf.jobId])]
        rfl
      · intro l2 old w hl2 hist2 hold hne hc2
        rw [wf.fromPrefix, wf.jobId] at hold
        exact .lost l2 (suffix_refl _) hist2 hc2
          (superseded_of_get_ne hold (he.mono hl2) hep hne)
      · intro l2 hl2 hist2 hold hc2
        rw [wf.fromPrefix, wf.jobId] at hold
        exact .lost l2 (suffix_refl _) hist2 hc2
          (superseded_of_get_none hold (he.mono hl2) hep hec)
    · next hdiffers =>
      split
      · next hne =>
        have hsup : l1.Superseded r.transitionId.source r.transitionId.sourceVersion := by
          obtain ⟨f, hf, hfp, hfc⟩ := hsource
          refine superseded_of_get_ne hget (hf.mono hl1) hfp fun hv => ?_
          -- The version a record names holds the document it digests.
          subst hv
          have hsame := get_eq_of_held hget (hf.mono hl1) hfc
          cases hsame
          exact hdiffers ⟨wf.sourceVersion.symm, rfl⟩
        have left : SourceLeft l1 r.transitionId := ⟨hsup, source, v, hget, hne⟩
        have basis : AbortedBasis l1 r.transitionId := .inl ⟨l1, suffix_refl _, left⟩
        refine meets_bind ((meets_setTransitionState .aborted hist1 wf basis).mono
          hist1 fun _ l2 hl2 _ _ => ?_)
        exact .left l1 hl2 hist1 hc left
      · next hfence =>
        exact meets_installAndFinish hist1 wf
          (FencedNow.fenced ⟨source, v, hget, not_not.mp hfence⟩)

end

/-- What recovery of the record `r` that was read comes to. -/
inductive Recovered (cond : Condition) (i : Nat) (r : JobTransition) (own : Bool) (l : ObjectStore) :
    Bool → Prop where
  | retired (state : r.state = .retired) : Recovered cond i r own l false
  | aborted (b : Bool) (state : r.state = .aborted)
      (upgraded : b = true → Recorded l r.transitionId .completed ∧
        (Fenced l r.transitionId ∨ SourceGone l r.transitionId)) : Recovered cond i r own l b
  | active (b : Bool) (state : r.state = .prepared ∨ r.state = .completed)
      (answer : RecoveryAnswer cond i r own b l) : Recovered cond i r own l b

/-- Recovery read no record and had nothing to do, or read one and its answer
is about that one. -/
def RecoveryOf (cond : Condition) (i : Nat) (jobId : String) (own : Option TransitionId)
    (l : ObjectStore) (b : Bool) (l' : ObjectStore) : Prop :=
  ∃ l1 : ObjectStore, l.PastOf l1 ∧ l1.PastOf l' ∧ History (lifecycle cond) l1 ∧
    cond l1 i (.recordRead own) none ∧ ((l1.get (.transition jobId) = none ∧ b = false) ∨
        ∃ r v, l1.get (.transition jobId) = some (.transition r, v) ∧
          Recovered cond i r (decide (own = some r.transitionId)) l' b)

theorem meets_recoverJobTransition {own : Option TransitionId} (hist : History (lifecycle cond) l) :
    Meets (lifecycle cond) i (recoverJobTransition fuel jobId own)
      (RecoveryOf cond i jobId own l) l := by
  refine meets_bind (meets_readJobTransition.mono hist fun found l1 hl1 hist1 hread => ?_)
  obtain ⟨hc, hget⟩ := hread
  cases found with
  | none =>
    exact ⟨l1, hl1, suffix_refl _, hist1, hc, .inl ⟨hget, rfl⟩⟩
  | some found =>
    obtain ⟨r, v⟩ := found
    have hget : l1.get (.transition jobId) = some (.transition r, v) := hget
    obtain ⟨r', hr', wf, hid, hknown, hprep, hsource⟩ := record_get hist1 hget
    cases hr'
    have hnow : RecordNow l1 r.transitionId r.state := ⟨r, v, by rw [hid]; exact hget, rfl, rfl⟩
    have answer : ∀ {b l2}, l1.PastOf l2 →
        Recovered cond i r (decide (own = some r.transitionId)) l2 b →
        RecoveryOf cond i jobId own l b l2 := fun hl2 hrec =>
      ⟨l1, hl1, hl2, hist1, hc, .inr ⟨r, v, hget, hrec⟩⟩
    dsimp only
    cases hs : r.state with
    | retired => exact answer (suffix_refl _) (.retired hs)
    | aborted =>
      rw [hs] at hnow
      exact (meets_recoverAborted hist1 wf hnow.recorded).mono hist1
        fun b l2 hl2 _ hup => answer hl2 (.aborted b hs hup)
    | completed =>
      rw [hs] at hnow
      refine (meets_finishCompletedTransition hist1 wf ⟨l1, suffix_refl _, hnow⟩).mono
        hist1 fun b l2 hl2 _ hun => answer hl2 (.active b (.inr hs) ?_)
      cases b with
      | false => exact hun rfl
      | true => exact hnow.recorded.mono hl2
    | prepared =>
      exact (meets_recoverPrepared hist1 wf hprep hsource).mono hist1
        fun b l2 hl2 _ hb => answer hl2 (.active b (.inl hs) hb)
    | unrecognized word => exact absurd hs (hknown word)

end Stado
