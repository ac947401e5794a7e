import Stado.Protocol.Contracts

/-!
# Moves keep the protocol

A move records its transition, recovers it, and starts over when recovery did
not finish it. Between two records of its own a mover writes at the sites of
recovery only, so what holds of every transition it recorded so far is an
invariant of its loop.
-/

namespace Stado

open CasStore Program Site

variable {cond : Condition} {i : Nat} {l l0 : ObjectStore} {t : TransitionId}

/-! ## Where recovery writes -/

/-- Every statement but the one that installs a record. -/
def Site.unrecorded (site : Site) : Prop := ∀ t, site ≠ .installRecord t

variable {site : Site} {p : Prefix} {fuel : Nat} {r : JobTransition} {jobId : String} {own : Bool}

theorem sites_readVersioned (h : site.unrecorded) :
    (readVersioned site p jobId).Sites unrecorded := by
  refine (sites_perform h).bind fun found => ?_
  split <;> trivial

theorem sites_readJob (h : site.unrecorded) : (readJob site p jobId).Sites unrecorded := by
  refine (sites_readVersioned h).bind fun found => ?_
  split
  · trivial
  · split <;> trivial

theorem sites_standsUnder {prefixes : List Prefix} :
    (standsUnder jobId prefixes).Sites unrecorded := by
  induction prefixes with
  | nil => trivial
  | cons p rest ih =>
    refine (sites_readJob fun t h => by cases h).bind fun found => ?_
    cases found with
    | none => exact ih
    | some job => trivial

theorem sites_readJobTransition (h : site.unrecorded) :
    (readJobTransition site jobId).Sites unrecorded := by
  refine (sites_perform h).bind fun found => ?_
  split
  · trivial
  · split <;> trivial
  · trivial

theorem sites_setTransitionState {expected : JobTransition} {state : TransitionState} :
    (setTransitionState fuel expected state own).Sites unrecorded := by
  induction fuel with
  | zero => trivial
  | succ fuel ih =>
    refine (sites_readJobTransition fun t h => by cases h).bind fun found => ?_
    split
    · trivial
    · split
      · trivial
      · split
        · trivial
        · refine (sites_perform fun t h => by cases h).bind fun answer => ?_
          cases answer with
          | stored version => trivial
          | conflict => exact ih
          | notFound => trivial

theorem sites_retireTransitionRecord {completed : JobTransition} :
    (retireTransitionRecord fuel completed).Sites unrecorded := by
  induction fuel with
  | zero => trivial
  | succ fuel ih =>
    refine (sites_readJobTransition fun t h => by cases h).bind fun found => ?_
    split
    · trivial
    · split
      · trivial
      · split
        · trivial
        · refine (sites_perform fun t h => by cases h).bind fun answer => ?_
          cases answer with
          | stored version => trivial
          | _ => exact ih

theorem sites_retireTransitionSource : (retireTransitionSource fuel r).Sites unrecorded := by
  induction fuel with
  | zero => trivial
  | succ fuel ih =>
    refine (sites_readVersioned fun t h => by cases h).bind fun found => ?_
    split
    · trivial
    · split
      · trivial
      · split
        · trivial
        · refine Sites.bind ?_ fun _ => (sites_perform fun t h => by cases h).bind fun answer => ?_
          · split
            · exact sites_perform fun t h => by cases h
            · trivial
          · cases answer with
            | stored version => trivial
            | _ => exact ih

theorem sites_settleSource : (settleSource fuel r).Sites unrecorded :=
  sites_retireTransitionSource.bind fun _ => sites_retireTransitionRecord.bind fun _ => trivial

theorem sites_indexRetainedJob {jobId runId : String} :
    (indexRetainedJob jobId runId).Sites unrecorded :=
  (sites_perform fun t h => by cases h).bind fun _ => trivial

theorem sites_recordOutcomeLoop {runId : String} {index : Nat} {job : Job}
    : (recordOutcomeLoop fuel runId index job p).Sites unrecorded := by
  induction fuel with
  | zero => trivial
  | succ fuel ih =>
    refine Sites.bind ?_ fun found => ?_
    · refine (sites_perform fun t h => by cases h).bind fun found => ?_
      split <;> trivial
    · split
      · trivial
      · refine Sites.bind (fun _ => trivial) fun now => ?_
        split
        · trivial
        · exact sites_indexRetainedJob
        · refine (sites_perform fun t h => by cases h).bind fun answer => ?_
          cases answer with
          | stored version => exact sites_indexRetainedJob
          | conflict => exact ih
          | notFound => trivial

theorem sites_recordTerminalOutcome {job : Job} :
    (recordTerminalOutcome fuel job p).Sites unrecorded := by
  unfold recordTerminalOutcome
  split
  · trivial
  · split
    · trivial
    · split
      · trivial
      · split
        · trivial
        · refine (sites_perform fun t h => by cases h).bind fun found => ?_
          split
          · trivial
          · exact sites_recordOutcomeLoop

theorem sites_finishCompletedTransition :
    (finishCompletedTransition fuel r own).Sites unrecorded := by
  refine (sites_readJob fun t h => by cases h).bind fun found => ?_
  split
  · refine sites_standsUnder.bind fun b => ?_
    split
    · exact sites_retireTransitionRecord.bind fun _ => trivial
    · trivial
  · split
    · trivial
    · refine (sites_readVersioned fun t h => by cases h).bind fun source => ?_
      split
      · exact sites_retireTransitionRecord.bind fun _ => trivial
      · split
        · exact sites_retireTransitionRecord.bind fun _ => trivial
        · split
          · refine sites_recordTerminalOutcome.attempt.bind fun answer => ?_
            split
            · exact sites_settleSource
            · exact sites_settleSource
            · trivial
            · trivial
          · exact sites_settleSource

theorem sites_completeAndFinish : (completeAndFinish fuel r own).Sites unrecorded := by
  refine sites_setTransitionState.bind fun b => ?_
  cases b with
  | false => trivial
  | true => exact sites_finishCompletedTransition

theorem sites_placeDestination : (placeDestination fuel r).Sites unrecorded := by
  induction fuel with
  | zero => trivial
  | succ fuel ih =>
    have swapped : ∀ version {k : Swap → Storage Job},
        (∀ v, k (.stored v) = .pure r.destinationJob) →
        k .conflict = placeDestination fuel r → k .notFound = placeDestination fuel r →
        Sites unrecorded ((perform (.installDestination r.transitionId)
          (.swap (.document r.toPrefix r.jobId) version (.job r.destinationJob))).bind k) := by
      intro version k hstored hconflict hnotFound
      refine (sites_perform fun t h => by cases h).bind fun answer => ?_
      cases answer with
      | stored version =>
        rw [hstored]
        trivial
      | conflict =>
        rw [hconflict]
        exact ih
      | notFound =>
        rw [hnotFound]
        exact ih
    refine (sites_readVersioned fun t h => by cases h).bind fun found => ?_
    split
    · refine (sites_perform fun t h => by cases h).bind fun created => ?_
      cases created with
      | true => trivial
      | false => exact ih
    · split
      · exact swapped _ (fun _ => rfl) rfl rfl
      · split
        · trivial
        · split
          · exact swapped _ (fun _ => rfl) rfl rfl
          · trivial

theorem sites_installAndFinish : (installAndFinish fuel r own).Sites unrecorded := by
  refine sites_placeDestination.bind fun job => ?_
  refine (sites_perform fun t h => by cases h).bind fun _ => Sites.bind ?_ fun _ =>
    sites_completeAndFinish
  split
  · exact sites_perform fun t h => by cases h
  · trivial

theorem sites_settleUnrecognizedTransition :
    (settleUnrecognizedTransition fuel r own).Sites unrecorded := by
  have bySource : (settleUnrecognizedTransition.settleBySource fuel r own).Sites
      unrecorded := by
    refine (sites_readVersioned fun t h => by cases h).bind fun source => ?_
    split
    · split
      · exact sites_setTransitionState.bind fun _ => trivial
      · trivial
    · trivial
  refine (sites_readJob fun t h => by cases h).bind fun found => ?_
  split
  · split
    · exact sites_completeAndFinish
    · exact bySource
  · exact bySource

/-- Recovery installs no record. -/
theorem sites_recoverJobTransition {own : Option TransitionId} :
    (recoverJobTransition fuel jobId own).Sites unrecorded := by
  have abort : ∀ {r own}, Sites unrecorded (do
      let _ ← setTransitionState fuel r .aborted own
      Pure.pure false : Storage Bool) := sites_setTransitionState.bind fun _ => trivial
  refine (sites_readJobTransition fun t h => by cases h).bind fun found => ?_
  split
  · trivial
  · split
    · trivial
    · refine (sites_readJob fun t h => by cases h).bind fun found => ?_
      split
      · trivial
      · split
        · trivial
        · refine (sites_readVersioned fun t h => by cases h).bind fun source => ?_
          split
          · exact sites_completeAndFinish
          · split
            · trivial
            · exact sites_completeAndFinish
    · exact sites_finishCompletedTransition
    · refine (sites_readVersioned fun t h => by cases h).bind fun found => ?_
      split
      · refine (sites_readJob fun t h => by cases h).bind fun found => ?_
        split
        · split
          · trivial
          · exact sites_completeAndFinish
        · refine sites_standsUnder.bind fun b => ?_
          cases b with
          | true => exact abort
          | false => trivial
      · split
        · refine (sites_perform fun t h => by cases h).bind fun answer => ?_
          cases answer with
          | stored version => exact sites_installAndFinish
          | _ => trivial
        · split
          · exact abort
          · exact sites_installAndFinish
    · exact sites_settleUnrecognizedTransition

/-! ## The record of a move -/

/-- What a mover records: one move out of a source it read, whose destination
is derived from what stood there after that read. -/
structure Planned (l : ObjectStore) (requested : Job) (p q : Prefix) (r : JobTransition) :
    Prop where
  wf : r.WellFormed
  prepared : r.state = .prepared
  jobId : r.transitionId.jobId = requested.jobId
  fromPrefix : r.transitionId.fromPrefix = p
  toPrefix : r.transitionId.toPrefix = q
  derived : ∃ (l0 : ObjectStore) (existing : Option (Job × Nat)) (basis : Job) (dv : Option Nat),
    l0.PastOf l ∧ (∃ e, l0.Held r.transitionId.sourceVersion e ∧ e.path = r.transitionId.source ∧
        e.content = some (.job r.sourceDigest)) ∧
      l0.get r.transitionId.target = existing.map (fun x => (Contents.job x.1, x.2)) ∧
      destinationBasis requested r.sourceDigest q existing = .ok (basis, dv) ∧
      mergeTransitionDestination r.sourceDigest basis p q = .ok r.destinationJob

/-- Client `i` installed a record of `t` at a version from `n` on. -/
def RecordedBy (l : ObjectStore) (n i : Nat) (t : TransitionId) : Prop :=
  ∃ v e, l.Held v e ∧ n ≤ v ∧ e.author = i ∧ e.site = .installRecord t

section Planned

variable {requested : Job} {p q : Prefix} {r : JobTransition} {n : Nat} {version : Nat}
  {current : Job}

theorem Planned.mono (hs : l0.PastOf l) (h : Planned l0 requested p q r) :
    Planned l requested p q r := by
  obtain ⟨l1, existing, basis, dv, hl1, hrest⟩ := h.derived
  exact { h with derived := ⟨l1, existing, basis, dv, hl1.trans hs, hrest⟩ }

theorem Planned.source (h : Planned l requested p q r) :
    ∃ e, l.Held r.transitionId.sourceVersion e ∧ e.path = r.transitionId.source ∧
      e.content = some (.job r.sourceDigest) := by
  obtain ⟨l1, _, _, _, hl1, ⟨e, he, hrest⟩, -⟩ := h.derived
  exact ⟨e, he.mono hl1, hrest⟩

/-- What a client recorded in the end it had recorded before, unless it wrote
the record since. -/
theorem RecordedBy.before {S : Site → Prop} (hs : l0.PastOf l) (hw : l0.WroteAt i S l)
    (h : RecordedBy l n i t) : RecordedBy l0 n i t ∨ S (.installRecord t) := by
  obtain ⟨v, e, he, hn, ha, hsite⟩ := h
  by_cases hlt : v < l0.length
  · exact .inl ⟨v, e, he.of_lt hs hlt, hn, ha, hsite⟩
  · right
    rw [← hsite]
    exact hw v e he (Nat.not_lt.mp hlt) ha

theorem RecordedBy.unrecorded (hs : l0.PastOf l) (hw : l0.WroteAt i unrecorded l)
    (h : RecordedBy l n i t) : RecordedBy l0 n i t :=
  (h.before hs hw).elim id fun hu => absurd rfl (hu t)

theorem meets_prepareTransition (hist : History (lifecycle cond) l)
    (distinct : p ≠ q) (hget : ∃ e, l.Held version e ∧ e.path = .document p requested.jobId ∧
      e.content = some (.job current)) (live : current.state = prefixState p) :
    Meets (lifecycle cond) i (prepareTransition requested current version p q)
      (fun r l' => Planned l' requested p q r ∧ r.transitionId.sourceVersion = version) l := by
  refine meets_bind (meets_readVersioned.mono hist fun existing l1 hl1 hist1 hread => ?_)
  obtain ⟨-, hexisting⟩ := hread
  obtain ⟨e, he, hp, hc⟩ := hget
  obtain ⟨job, hjob, hid, -⟩ := document_content hist he hp hc
  cases hjob
  have hid : current.submission.jobId = requested.jobId := hid
  split
  · trivial
  · next basis dv hbasis =>
    split
    · trivial
    · next destination hmerge =>
      obtain ⟨hstate, hsub, -⟩ := mergeTransitionDestination_ok hmerge
      refine meets_bind (meets_query fun l2 hl2 hist2 owner => ?_)
      refine meets_bind (meets_query fun l3 hl3 hist3 now => ?_)
      refine ⟨⟨⟨rfl, rfl, rfl, rfl, rfl, ?_, distinct, hsub, ?_, live⟩, rfl, rfl, rfl, rfl,
        l1, existing, basis, dv, hl2.trans hl3, ⟨e, he.mono hl1, hp, hc⟩, hexisting, hbasis,
        hmerge⟩, rfl⟩
      · show destination = { destination.toJobFields with state := prefixState q }
        rw [← hstate]
      · show destination.submission.jobId = requested.jobId
        rw [hsub, hid]

/-- The candidate is installed over a settled record only; a mover that did not
install it wrote nothing. -/
theorem meets_installRecord (hist : History (lifecycle cond) l)
    (plan : Planned l requested p q r) (hn : n ≤ l.length) :
    Meets (lifecycle cond) i (installRecord r)
      (fun installed l' => match installed with
        | .done true => RecordedBy l' n i r.transitionId
        | _ => l.Idle i l') l := by
  have records : ∀ {l1 : ObjectStore}, l.PastOf l1 →
      (∀ prev v, l1.get (.transition r.transitionId.jobId) = some (.transition prev, v) →
        prev.state ≠ .prepared) →
      Allowed l1 ⟨.transition r.transitionId.jobId, some (.transition r),
        .installRecord r.transitionId, i⟩ := fun hl1 free =>
    .record (.records r plan.wf plan.prepared (plan.mono hl1).source free)
  have recorded : ∀ {l1 : ObjectStore}, l.PastOf l1 →
      RecordedBy (⟨.transition r.transitionId.jobId, some (.transition r),
        .installRecord r.transitionId, i⟩ :: l1) n i r.transitionId := fun hl1 =>
    ⟨_, _, Store.held_cons_self _ _, Nat.le_trans hn hl1.length_le, rfl, rfl⟩
  refine meets_bind ((Meets.saw (meets_read (Q := fun found l1 => l.PastOf l1 ∧
    found = l1.get (.transition r.jobId)) fun l1 hl1 _ _ => ⟨hl1, rfl⟩)).mono hist
    fun found l1 _ hist1 hread => ?_)
  obtain ⟨⟨hl1, hget⟩, l1', hidle, -, hsame⟩ := hread
  obtain rfl : l1 = l1' := hsame
  rw [plan.wf.jobId] at hget ⊢
  cases found with
  | none =>
    refine meets_bind ((Meets.saw (meets_create (Q := fun created l' => created = true →
      RecordedBy l' n i r.transitionId) ?_ ?_ ?_)).mono hist1 fun created l2 _ _ h2 => ?_)
    · intro l2 hl2 _ hnone _
      refine records (hl1.trans hl2) fun prev v hprev => ?_
      rw [hnone] at hprev
      cases hprev
    · intro l2 hl2 _ hist2 _
      exact recorded (hl1.trans hl2)
    · intro l2 _ _ _ hfalse
      cases hfalse
    · obtain ⟨hrec, l2', hidle2, hanswer, hstore⟩ := h2
      cases created with
      | true => exact hrec rfl
      | false =>
        rw [Call.change_create_of_false hanswer.symm] at hstore
        subst hstore
        exact hidle.trans hidle2
  | some found =>
    obtain ⟨c, v⟩ := found
    obtain ⟨existing, rfl, -⟩ := record_get hist1 hget.symm
    show Meets (lifecycle cond) i (if _ then _ else _) _ l1
    split
    · exact hidle
    · next hstate =>
      refine meets_bind ((Meets.saw (meets_swap (Q := fun answer l' => (∃ w, answer = .stored w) →
        RecordedBy l' n i r.transitionId) ?_ ?_ ?_ ?_)).mono hist1 fun answer l2 _ _ h2 => ?_)
      · intro l2 old hl2 hist2 hold _
        obtain ⟨e, he, -, hec⟩ := Store.get_held hget.symm
        obtain rfl := Store.get_eq_of_held hold (he.mono hl2) hec
        refine records (hl1.trans hl2) fun prev w hprev => ?_
        rw [hold] at hprev
        cases hprev
        exact hstate
      · intro l2 old hl2 _ hist2 _
        exact recorded (hl1.trans hl2)
      · rintro l2 old w _ _ _ _ _ ⟨_, hfalse⟩
        cases hfalse
      · rintro l2 _ _ _ _ ⟨_, hfalse⟩
        cases hfalse
      · obtain ⟨hrec, l2', hidle2, hanswer, hstore⟩ := h2
        cases answer with
        | stored w => exact hrec ⟨w, rfl⟩
        | conflict =>
          rw [Call.change_swap_of_not_stored fun w hw => by rw [hw] at hanswer; cases hanswer]
            at hstore
          subst hstore
          exact hidle.trans hidle2
        | notFound => trivial

theorem sites_prepareTransition :
    (prepareTransition requested current version p q).Sites unrecorded := by
  refine (sites_readVersioned fun t h => by cases h).bind fun existing => ?_
  split
  · trivial
  · split
    · trivial
    · exact fun _ _ => trivial

theorem sites_installRecord : (installRecord r).Sites
    fun site => site.unrecorded ∨ site = .installRecord r.transitionId := by
  have record : ∀ {β : Type} {c : Call Path Contents β}, Sites
      (fun site => site.unrecorded ∨ site = .installRecord r.transitionId)
      (perform (.installRecord r.transitionId) c : Storage β) :=
    ⟨.inr rfl, fun _ => trivial, fun _ => trivial⟩
  refine Sites.bind (Sites.mono (sites_perform fun t h => by cases h) fun _ => .inl) fun found => ?_
  split
  · exact record.bind fun _ => trivial
  · split
    · trivial
    · refine record.bind fun answer => ?_
      cases answer <;> trivial
  · trivial

end Planned

/-- What a move of client `i` comes to, when `settled` holds of the transitions
it recorded from version `n` on and did not finish. -/
inductive MoveAnswer (cond : Condition) (n i : Nat) (requested : Job) (p q : Prefix)
    (expected : Option Nat) (settled : ObjectStore → TransitionId → Prop) (l : ObjectStore) :
    Bool → Prop where
  /-- No record of its own moved the job. -/
  | declined (all : ∀ t, RecordedBy l n i t → settled l t) :
      MoveAnswer cond n i requested p q expected settled l false
  /-- The source was gone and the job was at its destination. -/
  | arrived (l1 l2 : ObjectStore) (past : l1.PastOf l2) (past' : l2.PastOf l)
      (recorded : n ≤ l1.length) (gone : l1.get (.document p requested.jobId) = none)
      (live : Live l2 q requested.jobId) (all : ∀ t, RecordedBy l n i t → settled l t) :
      MoveAnswer cond n i requested p q expected settled l true
  /-- Recovery of its own record answered true. -/
  | moved (l1 : ObjectStore) (r : JobTransition) (plan : Planned l1 requested p q r)
      (pinned : expected.all (· = r.transitionId.sourceVersion) = true)
      (recorded : RecordedBy l1 n i r.transitionId)
      (recovery : RecoveryOf cond i requested.jobId (some r.transitionId) l1 true l)
      (others : ∀ t, t ≠ r.transitionId → RecordedBy l n i t → settled l t) :
      MoveAnswer cond n i requested p q expected settled l true

/-- A record of one's own that recovery did not finish is settled. -/
def SettlesUnfinished (cond : Condition) (n i : Nat) (requested : Job) (p q : Prefix)
    (expected : Option Nat) (settled : ObjectStore → TransitionId → Prop) : Prop :=
  ∀ (l1 l2 : ObjectStore) (r : JobTransition), History (lifecycle cond) l2 →
    Planned l1 requested p q r → expected.all (· = r.transitionId.sourceVersion) = true →
    RecordedBy l1 n i r.transitionId →
    RecoveryOf cond i requested.jobId (some r.transitionId) l1 false l2 →
    settled l2 r.transitionId

theorem meets_transitionJobIfVersion {unsettled : Option Nat} {requested : Job} {p q : Prefix}
    {expected : Option Nat} {n : Nat} (settled : ObjectStore → TransitionId → Prop)
    (hist : History (lifecycle cond) l) (distinct : p ≠ q) (hn : n ≤ l.length)
    (mono : ∀ (l1 l2 : ObjectStore) t, l1.PastOf l2 → History (lifecycle cond) l2 →
      settled l1 t → settled l2 t)
    (settles : SettlesUnfinished cond n i requested p q expected settled)
    (all : ∀ t, RecordedBy l n i t → settled l t) :
    Meets (lifecycle cond) i (transitionJobIfVersion fuel unsettled requested p q expected)
      (fun b l' => MoveAnswer cond n i requested p q expected settled l' b) l := by
  induction fuel generalizing l unsettled with
  | zero => trivial
  | succ fuel ih =>
    -- A program that records nothing keeps what holds of the records.
    have keep : ∀ {l1 l2 : ObjectStore}, l1.PastOf l2 → History (lifecycle cond) l2 →
        l1.WroteAt i unrecorded l2 → (∀ t, RecordedBy l1 n i t → settled l1 t) →
        ∀ t, RecordedBy l2 n i t → settled l2 t := fun hl hist2 hw hall t ht =>
      mono _ _ t hl hist2 (hall t (ht.unrecorded hl hw))
    have hlen : ∀ {l1 : ObjectStore}, l.PastOf l1 → n ≤ l1.length := fun hl =>
      Nat.le_trans hn hl.length_le
    refine meets_bind (((meets_recoverJobTransition hist).frame sites_recoverJobTransition).mono
      hist fun _ l1 hl1 hist1 h1 => ?_)
    have all1 := keep hl1 hist1 h1.2 all
    refine meets_bind ((meets_readVersioned.frame
      (sites_readVersioned fun t h => by cases h)).mono hist1 fun found l2 hl2 hist2 h2 => ?_)
    obtain ⟨⟨-, hget⟩, hw2⟩ := h2
    have all2 := keep hl2 hist2 hw2 all1
    have hn2 := hlen (hl1.trans hl2)
    cases found with
    | none =>
      refine meets_bind (((meets_readJob hist2).frame
        (sites_readJob fun t h => by cases h)).mono hist2 fun existing l3 hl3 hist3 h3 => ?_)
      obtain ⟨⟨-, hread⟩, hw3⟩ := h3
      have all3 := keep hl3 hist3 hw3 all2
      rcases hread with ⟨rfl, -⟩ | ⟨v, job, rfl, hlive⟩
      · exact .declined all3
      · show MoveAnswer cond n i requested p q expected settled l3 (decide _)
        cases decide (immutableJobProjection job = immutableJobProjection requested) with
        | true => exact .arrived l2 l3 hl3 (List.suffix_refl _) hn2 hget ⟨v, job, hlive⟩ all3
        | false => exact .declined all3
    | some found =>
      obtain ⟨current, version⟩ := found
      show Meets (lifecycle cond) i (if _ then _ else _) _ l2
      split
      · exact .declined all2
      · next hpin =>
        split
        · refine meets_bind (((meets_recoverJobTransition hist2).frame
            sites_recoverJobTransition).mono hist2 fun _ l3 hl3 hist3 h3 => ?_)
          exact .declined (keep hl3 hist3 h3.2 all2)
        · next hlive =>
          obtain ⟨e, he, hp, hc⟩ := Store.get_held hget
          refine meets_bind (((meets_prepareTransition hist2 distinct ⟨e, he, hp, hc⟩
            (not_not.mp hlive)).frame sites_prepareTransition).mono hist2
            fun r l3 hl3 hist3 h3 => ?_)
          obtain ⟨⟨plan, hversion⟩, hw3⟩ := h3
          have all3 := keep hl3 hist3 hw3 all2
          have hpinned : expected.all (· = r.transitionId.sourceVersion) = true := by
            rw [hversion]
            cases expected with
            | none => rfl
            | some w =>
              refine decide_eq_true ?_
              by_contra hne
              exact hpin (decide_eq_true hne)
          have hn3 := hlen ((hl1.trans hl2).trans hl3)
          refine meets_bind (((meets_installRecord hist3 plan hn3).frame
            sites_installRecord).mono hist3 fun installed l4 hl4 hist4 h4 => ?_)
          obtain ⟨hrec, hw4⟩ := h4
          have hn4 := Nat.le_trans hn3 hl4.length_le
          have again : ∀ {l5 : ObjectStore} {unsettled : Option Nat}, l4.PastOf l5 →
              History (lifecycle cond) l5 → (∀ t, RecordedBy l5 n i t → settled l5 t) →
              Meets (lifecycle cond) i
                (transitionJobIfVersion fuel unsettled requested p q expected)
                (fun b l' => MoveAnswer cond n i requested p q expected settled l' b) l5 :=
            fun hl5 hist5 => ih hist5 (Nat.le_trans hn4 hl5.length_le)
          -- A mover that did not install its record wrote nothing.
          have idle : l3.Idle i l4 → ∀ t, RecordedBy l4 n i t → settled l4 t := fun h =>
            keep hl4 hist4 (fun v e he hge ha => absurd ha (h.others v e he hge)) all3
          cases installed with
          | standing existing active =>
            show Meets (lifecycle cond) i (if _ then _ else _) _ l4
            split
            · trivial
            · refine meets_bind (((meets_recoverJobTransition hist4).frame
                sites_recoverJobTransition).mono hist4 fun _ l5 hl5 hist5 h5 => ?_)
              exact again hl5 hist5 (keep hl5 hist5 h5.2 (idle hrec))
          | done installed =>
            cases installed with
            | false => exact again (List.suffix_refl _) hist4 (idle hrec)
            | true =>
              have hrec : RecordedBy l4 n i r.transitionId := hrec
              have plan4 := plan.mono hl4
              -- Only this record is new.
              have others : ∀ t, t ≠ r.transitionId → RecordedBy l4 n i t → settled l4 t := by
                intro t hne ht
                rcases ht.before hl4 hw4 with ht | hu | heq
                · exact mono _ _ t hl4 hist4 (all3 t ht)
                · exact absurd rfl (hu t)
                · cases heq
                  exact absurd rfl hne
              refine meets_bind (((meets_recoverJobTransition hist4).frame
                sites_recoverJobTransition).mono hist4 fun b l5 hl5 hist5 h5 => ?_)
              obtain ⟨hrecovery, hw5⟩ := h5
              have others5 : ∀ t, t ≠ r.transitionId → RecordedBy l5 n i t →
                  settled l5 t := fun t hne ht =>
                mono _ _ t hl5 hist5 (others t hne (ht.unrecorded hl5 hw5))
              cases b with
              | true => exact .moved l4 r plan4 hpinned hrec hrecovery others5
              | false =>
                refine again hl5 hist5 fun t ht => ?_
                by_cases heq : t = r.transitionId
                · subst heq
                  exact settles l4 l5 r hist5 plan4 hpinned hrec hrecovery
                · exact others5 t heq ht

end Stado
