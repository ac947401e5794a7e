import Stado.Queue.Lifecycle

/-!
# The lifecycle protocol

What each write of the lifecycle may be, judged by the writes before it. A
decision a client takes on an old read is stated as a fact about a past of the
store, and such facts stay true however the store grows.
-/

namespace Stado

open CasStore

def TransitionId.destinationJob (t : TransitionId) : Job :=
  { t.destination with state := prefixState t.toPrefix }

abbrev TransitionId.source (t : TransitionId) : Path := .document t.fromPrefix t.jobId

abbrev TransitionId.target (t : TransitionId) : Path := .document t.toPrefix t.jobId

/-- A record this state machine writes: its fields are those its id digests,
and it moves one submission from a live document to another prefix. -/
structure JobTransition.WellFormed (r : JobTransition) : Prop where
  schema : r.schema = transitionSchema
  jobId : r.jobId = r.transitionId.jobId
  fromPrefix : r.fromPrefix = r.transitionId.fromPrefix
  toPrefix : r.toPrefix = r.transitionId.toPrefix
  sourceVersion : r.sourceVersion = r.transitionId.sourceVersion
  destination : r.destinationJob = r.transitionId.destinationJob
  distinct : r.transitionId.fromPrefix ≠ r.transitionId.toPrefix
  submission : r.transitionId.destination.submission = r.sourceDigest.submission
  named : r.transitionId.destination.submission.jobId = r.transitionId.jobId
  sourceState : r.sourceDigest.state = prefixState r.transitionId.fromPrefix

section Facts

variable (l : ObjectStore) (t : TransitionId)

/-! ## Facts about a store and its past -/

def LiveAt (p : Prefix) (jobId : String) (v : Nat) (job : Job) : Prop :=
  l.get (.document p jobId) = some (.job job, v) ∧ job.state = prefixState p

def Live (p : Prefix) (jobId : String) : Prop := ∃ v job, LiveAt l p jobId v job

def RecordNow (s : TransitionState) : Prop :=
  ∃ r v, l.get (.transition t.jobId) = some (.transition r, v) ∧ r.transitionId = t ∧ r.state = s

/-- The job's record was `t` in state `s` at some time. -/
def Recorded (s : TransitionState) : Prop :=
  ∃ v e r, l.Held v e ∧ e.path = .transition t.jobId ∧ e.content = some (.transition r) ∧
    r.transitionId = t ∧ r.state = s

def FencedNow : Prop :=
  ∃ job v, l.get t.source = some (.job job, v) ∧ job.state = .transitioning t

/-- The source of `t` was fenced for it at some time. -/
def Fenced : Prop :=
  ∃ v e job, l.Held v e ∧ e.path = t.source ∧ e.content = some (.job job) ∧
    job.state = .transitioning t

/-- The source of `t` was rewritten as its cleaned sentinel at some time. -/
def Cleaned : Prop :=
  ∃ v e job, l.Held v e ∧ e.path = t.source ∧ e.content = some (.job job) ∧
    job.state = .transitionCleaned t

/-- The destination of `t` was written at some time. -/
def Placed : Prop := ∃ v e, l.Held v e ∧ e.site = .installDestination t

instance : Decidable (Placed l t) := decidable_of_iff _ Store.exists_held_iff.symm

/-- The job `t` promised stands at its destination. -/
def Stands : Prop :=
  ∃ v job, LiveAt l t.toPrefix t.jobId v job ∧ job.submission = t.destination.submission

/-- The source of `t` is no longer the version it was prepared from, and what
stands there is not its fence. -/
def SourceLeft : Prop :=
  l.Superseded t.source t.sourceVersion ∧
    ∃ job v, l.get t.source = some (.job job, v) ∧ job.state ≠ .transitioning t

/-- After `t` was recorded its source was seen absent. -/
def SourceGone : Prop :=
  ∃ l0 : ObjectStore, l0.PastOf l ∧ Recorded l0 t .prepared ∧ l0.get t.source = none

/-- After the record of `t` was seen completed, its destination was seen not to
stand. -/
def DestinationLeft : Prop :=
  ∃ l1 l0 : ObjectStore, l1.PastOf l0 ∧ l0.PastOf l ∧ RecordNow l1 t .completed ∧
    ¬ Live l0 t.toPrefix t.jobId

/-! ## What decides a change of state -/

/-- The destination was seen standing: after the source was fenced, or where an
aborted record met a source fenced for it, or where the source was gone. -/
def CompletedBasis : Prop :=
  (∃ l0 : ObjectStore, l0.PastOf l ∧ Stands l0 t) ∧
    ((∃ l0 : ObjectStore, l0.PastOf l ∧ Fenced l0 t ∧ Stands l0 t) ∨
      (Recorded l t .aborted ∧ Fenced l t) ∨ SourceGone l t)

/-- The source was seen to have left without this transition. -/
def AbortedBasis : Prop :=
  (∃ l0 : ObjectStore, l0.PastOf l ∧ SourceLeft l0 t) ∨ SourceGone l t

/-- What a completed record was retired on. -/
def RetiredBasis : Prop :=
  (∃ l0 : ObjectStore, l0.PastOf l ∧ SourceLeft l0 t) ∨ SourceGone l t ∨ DestinationLeft l t

end Facts

def MoveBasis (l : ObjectStore) (t : TransitionId) : TransitionState → Prop
  | .completed => CompletedBasis l t
  | .aborted => AbortedBasis l t
  | _ => False

/-- What a marker's deletion was decided on: the document last seen was not
queued under this key, or no document was there. -/
def MarkerDropped (l : ObjectStore) (path : Path) (jobId : String) : MarkerBasis → Prop
  | .seen v => ∃ e job, l.Held v e ∧ e.path = .document .queue jobId ∧
      e.content = some (.job job) ∧ (job.state ≠ .queued ∨ markerPath job ≠ path)
  | .absent => True

/-- Objects the lifecycle protocol says nothing about. -/
def Path.auxiliary : Path → Bool
  | .document _ _ | .transition _ | .marker _ _ _ => false
  | _ => true

def Site.auxiliary : Site → Bool
  | .sweepMarkers | .requestCancellation | .claimEntry | .checkpoint | .createManifest
  | .recordOutcome | .indexRetained | .writeStatus | .cleanupStatus | .spawn | .kill => true
  | _ => false

/-! ## The writes the protocol allows -/

inductive DocumentWrite (l : ObjectStore) : StoreEntry → Prop where
  | admits {a : Nat} (job : Job) (state : job.state = .queued)
      (absent : l.get (.document .queue job.jobId) = none) :
      DocumentWrite l ⟨.document .queue job.jobId, some (.job job), .admission, a⟩
  | fences {a : Nat} {own : Bool} (t : TransitionId) (source : Job)
      (current : l.get t.source = some (.job source, t.sourceVersion))
      (recorded : Recorded l t .prepared) :
      DocumentWrite l ⟨t.source, some (.job { source with state := .transitioning t }),
        .fenceSource t own, a⟩
  | places {a : Nat} (t : TransitionId) (fenced : Fenced l t)
      (free : l.get t.target = none ∨ ∃ job v, l.get t.target = some (.job job, v) ∧
        (isTransitionCleanedState job.state = true ∨ job.state = prefixState t.toPrefix)) :
      DocumentWrite l ⟨t.target, some (.job t.destinationJob), .installDestination t, a⟩
  | cleans {a : Nat} (t : TransitionId) (source : Job) (v : Nat)
      (current : l.get t.source = some (.job source, v)) (state : source.state = .transitioning t)
      (completed : Recorded l t .completed) :
      DocumentWrite l ⟨t.source, some (.job { source with state := .transitionCleaned t }),
        .cleanSource t, a⟩
  | renews {a : Nat} (jobId : String) (job : Job) (v : Nat) (lease : Stamp)
      (current : l.get (.document .running jobId) = some (.job job, v))
      (state : job.state = .running) :
      DocumentWrite l ⟨.document .running jobId,
        some (.job { job with leaseExpiresAt := some lease }), .renewLease, a⟩
  | rewrites {a : Nat} (jobId : String) (job : Job) (v : Nat) (fields : JobFields)
      (current : l.get (.document .queue jobId) = some (.job job, v))
      (state : job.state = .queued) (same : fields.submission = job.submission) :
      DocumentWrite l ⟨.document .queue jobId, some (.job { fields with state := job.state }),
        .rewriteQueued, a⟩
  | sweeps {a : Nat} (p : Prefix) (jobId : String)
      (sentinel : ∃ (l0 : ObjectStore) (job : Job) (v : Nat) (t : TransitionId), l0.PastOf l ∧
        l0.get (.document p jobId) = some (.job job, v) ∧ job.state = .transitionCleaned t) :
      DocumentWrite l ⟨.document p jobId, none, .sweepSentinel, a⟩
  | deletes {a : Nat} (p : Prefix) (jobId : String) :
      DocumentWrite l ⟨.document p jobId, none, .deleteDocument, a⟩

inductive RecordWrite (l : ObjectStore) : StoreEntry → Prop where
  | records {a : Nat} (r : JobTransition) (wf : r.WellFormed) (prepared : r.state = .prepared)
      (source : ∃ e, l.Held r.transitionId.sourceVersion e ∧ e.path = r.transitionId.source ∧
        e.content = some (.job r.sourceDigest))
      (free : ∀ prev v, l.get (.transition r.transitionId.jobId) = some (.transition prev, v) →
        prev.state ≠ .prepared) :
      RecordWrite l ⟨.transition r.transitionId.jobId, some (.transition r),
        .installRecord r.transitionId, a⟩
  | moves {a : Nat} (t : TransitionId) (s : TransitionState) (prev : JobTransition) (v : Nat)
      (current : l.get (.transition t.jobId) = some (.transition prev, v))
      (id : prev.transitionId = t) (differs : prev.state ≠ s) (basis : MoveBasis l t s) :
      RecordWrite l ⟨.transition t.jobId, some (.transition { prev with state := s }),
        .setState t s, a⟩
  | retires {a : Nat} (t : TransitionId) (prev : JobTransition) (v : Nat)
      (current : l.get (.transition t.jobId) = some (.transition prev, v))
      (id : prev.transitionId = t) (state : prev.state = .completed) (basis : RetiredBasis l t) :
      RecordWrite l ⟨.transition t.jobId, some (.transition { prev with state := .retired }),
        .retireRecord t, a⟩

inductive MarkerWrite (l : ObjectStore) : StoreEntry → Prop where
  | indexes {a : Nat} (job : Job) :
      MarkerWrite l ⟨markerPath job, some (.marker job.jobId job.priority), .writeMarker, a⟩
  | unindexes {a : Nat} (path : Path) (jobId : String) (basis : MarkerBasis)
      (named : markerJob path = some jobId) (dropped : MarkerDropped l path jobId basis) :
      MarkerWrite l ⟨path, none, .deleteMarker basis, a⟩

/-- `Allowed l e`: the write `e` may follow the writes of `l`. -/
inductive Allowed (l : ObjectStore) : StoreEntry → Prop where
  | document {e : StoreEntry} (h : DocumentWrite l e) : Allowed l e
  | record {e : StoreEntry} (h : RecordWrite l e) : Allowed l e
  | marker {e : StoreEntry} (h : MarkerWrite l e) : Allowed l e
  | auxiliary {e : StoreEntry} (path : e.path.auxiliary = true) (site : e.site.auxiliary = true) :
      Allowed l e

section Paths

variable {l : ObjectStore} {e : StoreEntry} {p : Prefix} {jobId : String}

theorem Path.auxiliary_of_marker {path : Path} (h : (markerJob path).isSome = true) :
    path.auxiliary = false := by
  cases path with
  | marker priority createdAt jobId => rfl
  | _ => cases h

theorem DocumentWrite.path (h : DocumentWrite l e) : ∃ p jobId, e.path = .document p jobId := by
  cases h <;> exact ⟨_, _, rfl⟩

theorem RecordWrite.path (h : RecordWrite l e) : ∃ jobId, e.path = .transition jobId := by
  cases h <;> exact ⟨_, rfl⟩

theorem MarkerWrite.path (h : MarkerWrite l e) : (markerJob e.path).isSome = true := by
  cases h with
  | indexes job => rfl
  | unindexes path jobId basis named dropped => exact Option.isSome_iff_exists.mpr ⟨_, named⟩

theorem Allowed.documentWrite (h : Allowed l e) (hp : e.path = .document p jobId) :
    DocumentWrite l e := by
  cases h with
  | document h => exact h
  | record h =>
    obtain ⟨j, hj⟩ := h.path
    rw [hp] at hj
    cases hj
  | marker h =>
    have hm := h.path
    rw [hp] at hm
    cases hm
  | auxiliary path site =>
    rw [hp] at path
    cases path

/-- A record is written by the statements that write records. -/
theorem Allowed.recordWrite (h : Allowed l e) (hp : e.path = .transition jobId) :
    RecordWrite l e := by
  cases h with
  | record h => exact h
  | document h =>
    obtain ⟨p, j, hj⟩ := h.path
    rw [hp] at hj
    cases hj
  | marker h =>
    have hm := h.path
    rw [hp] at hm
    cases hm
  | auxiliary path site =>
    rw [hp] at path
    cases path

theorem Allowed.markerWrite (h : Allowed l e) (hp : (markerJob e.path).isSome = true) :
    MarkerWrite l e := by
  cases h with
  | marker h => exact h
  | document h =>
    obtain ⟨p, j, hj⟩ := h.path
    rw [hj] at hp
    cases hp
  | record h =>
    obtain ⟨j, hj⟩ := h.path
    rw [hj] at hp
    cases hp
  | auxiliary path site =>
    rw [Path.auxiliary_of_marker hp] at path
    cases path

end Paths

/-- A condition on the steps of a run, judged in the state before the step. -/
abbrev Condition := ObjectStore → Nat → Site → Option (Change Path Contents) → Prop

/-- The lifecycle protocol under a condition on its steps. -/
def lifecycle (cond : Condition) : Rules Path Contents Site where
  allowed := Allowed
  cond := cond

instance (cond : Condition) [∀ l i site change, Decidable (cond l i site change)] (l : ObjectStore)
    (i : Nat) (site : Site) (change : Option (Change Path Contents)) :
    Decidable ((lifecycle cond).cond l i site change) :=
  inferInstanceAs (Decidable (cond l i site change))

def anyStep : Condition := fun _ _ _ _ => True

instance (l : ObjectStore) (i : Nat) (site : Site) (change : Option (Change Path Contents)) :
    Decidable (anyStep l i site change) :=
  isTrue trivial

end Stado
