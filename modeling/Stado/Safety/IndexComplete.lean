import Stado.Protocol.Effects

/-!
# Every queued job is in the index

The index is the whole listing strategy for `queue/`: a queued job is found by
its marker or not at all. Markers are written before the documents they name
and dropped after them, which holds of an admission; a requeue installs its
document first and a priority update rewrites it first, and a marker may be
dropped on what was read of a document that has changed since. Between these
every queued job is indexed.
-/

namespace Stado

open CasStore

def Indexed (l : ObjectStore) (job : Job) : Prop := (l.get (markerPath job)).isSome = true

instance (l : ObjectStore) (job : Job) : Decidable (Indexed l job) :=
  inferInstanceAs (Decidable (_ = true))

/-- The version of the job's `queue/` document. -/
def queuedVersion (l : ObjectStore) (jobId : String) : Option Nat :=
  (l.get (.document .queue jobId)).map (·.2)

/-- What the deletion of a job's marker was decided on still is so. -/
def BasisHolds (l : ObjectStore) (jobId : String) : MarkerBasis → Prop
  | .seen v => queuedVersion l jobId = some v
  | .absent => queuedVersion l jobId = none

instance (l : ObjectStore) (jobId : String) (basis : MarkerBasis) :
    Decidable (BasisHolds l jobId basis) := by
  cases basis <;> unfold BasisHolds <;> infer_instance

def queuedUnder (l : ObjectStore) (jobId : String) (path : Path) : Bool :=
  match l.get (.document .queue jobId) with
  | some (.job job, _) => decide (job.state = .queued ∧ markerPath job = path)
  | _ => false

/-- A rewrite of the document at `path` changes the marker it is found by. -/
def rekeys (l : ObjectStore) (path : Path) (job : Job) : Bool :=
  match l.get path with
  | some (.job old, _) => decide (markerPath old ≠ markerPath job)
  | _ => true

/-- A document enters `queue/` with its marker there, and so does a priority;
and a marker dropped on a read that is out of date is not one its job is queued
under. -/
def indexOrdered : Condition := fun l _ site change =>
  match site, change with
  | .admission, some (_, some (.job job)) => Indexed l job
  | .installDestination t, some _ => t.toPrefix = .queue → Indexed l t.destinationJob
  | .rewriteQueued, some (path, some (.job job)) => rekeys l path job = true → Indexed l job
  | .deleteMarker basis, some (.marker priority createdAt jobId, _) =>
    ¬ BasisHolds l jobId basis → queuedUnder l jobId (.marker priority createdAt jobId) = false
  | _, _ => True

/-- `indexOrdered`, computed. -/
def indexOrderedHolds (l : ObjectStore) (site : Site) (change : Option (Change Path Contents)) :
    Bool :=
  match site, change with
  | .admission, some (_, some (.job job)) => decide (Indexed l job)
  | .installDestination t, some _ =>
    decide (t.toPrefix = .queue → Indexed l t.destinationJob)
  | .rewriteQueued, some (path, some (.job job)) =>
    decide (rekeys l path job = true → Indexed l job)
  | .deleteMarker basis, some (.marker priority createdAt jobId, _) =>
    decide (¬ BasisHolds l jobId basis →
      queuedUnder l jobId (.marker priority createdAt jobId) = false)
  | _, _ => true

theorem indexOrderedHolds_iff {l : ObjectStore} {i : Nat} {site : Site}
    {change : Option (Change Path Contents)} :
    indexOrderedHolds l site change = true ↔ indexOrdered l i site change := by
  unfold indexOrderedHolds indexOrdered
  split <;> simp only [decide_eq_true_eq]

instance (l : ObjectStore) (i : Nat) (site : Site) (change : Option (Change Path Contents)) :
    Decidable (indexOrdered l i site change) :=
  decidable_of_iff _ indexOrderedHolds_iff

variable {l : ObjectStore} {e : StoreEntry} {jobId : String} {job : Job}

/-! ## The invariant -/

/-- Every queued document has its marker. -/
def IndexHolds (l : ObjectStore) : Prop :=
  ∀ jobId v job, LiveAt l .queue jobId v job → Indexed l job

theorem indexed_cons_other (h : e.path ≠ markerPath job) :
    Indexed (e :: l) job ↔ Indexed l job := by
  unfold Indexed
  rw [Store.get_cons_other h]

/-- A document in `queue/` is found by a marker that carries its id. -/
theorem queued_marker {cond : Condition} (h : History (lifecycle cond) l) {v : Nat}
    (hlive : LiveAt l .queue jobId v job) : markerJob (markerPath job) = some jobId := by
  obtain ⟨job', hjob, hid, -⟩ := document_get h hlive.1
  cases hjob
  rw [markerJob_markerPath, hid]

theorem indexed_of_documentWrite (h : History (lifecycle indexOrdered) (e :: l))
    (ih : IndexHolds l) (hp : e.path = .document .queue jobId)
    (hc : e.content = some (.job job)) (hs : job.state = .queued) : Indexed l job := by
  have hcond : indexOrdered l e.author e.site (some (e.path, e.content)) := h.cond
  cases (show Allowed l e from h.allowed).documentWrite hp with
  | admits job' state absent =>
    cases hc
    exact hcond
  | fences t source hget recorded =>
    cases hc
    cases hs
  | places t fenced free =>
    cases hc
    exact hcond (Path.document.inj hp).1
  | cleans t source v hget state completed =>
    cases hc
    cases hs
  | renews j job' v lease hget state =>
    cases hp
  | rewrites j job' v fields hget state same =>
    cases hc
    by_cases hkey : rekeys l (.document .queue j)
        { toJobFields := fields, state := job'.state } = true
    · exact hcond hkey
    · -- The key did not change, so its marker was there for the document before.
      have hsame : markerPath job' = markerPath { toJobFields := fields, state := job'.state } := by
        simpa [rekeys, hget] using hkey
      have hindexed := ih j v job' ⟨hget, state⟩
      unfold Indexed at hindexed ⊢
      rw [← hsame]
      exact hindexed
  | _ => cases hc

theorem indexHolds_step (h : History (lifecycle indexOrdered) (e :: l)) (ih : IndexHolds l) :
    IndexHolds (e :: l) := by
  intro jobId v job hlive
  have hist := h.tail
  have hcond : indexOrdered l e.author e.site (some (e.path, e.content)) := h.cond
  by_cases hp : e.path = .document .queue jobId
  · obtain ⟨hget, hs⟩ := hlive
    rw [Store.get_cons_same hp, Option.map_eq_some_iff] at hget
    obtain ⟨c, hc, heq⟩ := hget
    cases heq
    rw [indexed_cons_other (by rw [hp]; simp [markerPath])]
    exact indexed_of_documentWrite h ih hp hc hs
  · rw [liveAt_cons_other hp] at hlive
    have hindexed := ih jobId v job hlive
    by_cases hm : e.path = markerPath job
    · have hmarker : (markerJob e.path).isSome = true := by
        rw [hm]
        rfl
      have hnamed := queued_marker hist hlive
      cases (show Allowed l e from h.allowed).markerWrite hmarker with
      | indexes job' =>
        unfold Indexed
        rw [Store.get_cons_same hm]
        rfl
      | unindexes path jobId' basis named dropped =>
        -- A fresh decision saw the document not to be this one; a stale one is excluded.
        exfalso
        have hpath : path = markerPath job := hm
        subst hpath
        rw [hnamed] at named
        cases named
        have hjob : job.jobId = jobId := Option.some.inj hnamed
        have hqueued : queuedUnder l jobId (markerPath job) = true := by
          simp [queuedUnder, hlive.1, hlive.2, prefixState]
        by_cases hbasis : BasisHolds l jobId basis
        · cases basis with
          | seen w =>
            obtain ⟨f, job', hf, -, hfc, hdropped⟩ := dropped
            have hw : v = w := by
              have hversion : queuedVersion l jobId = some w := hbasis
              rw [queuedVersion, hlive.1] at hversion
              exact Option.some.inj hversion
            subst hw
            have hsame := Store.get_eq_of_held hlive.1 hf hfc
            cases hsame
            rcases hdropped with hstate | hkey
            · exact hstate hlive.2
            · exact hkey rfl
          | absent =>
            have hnone : queuedVersion l jobId = none := hbasis
            rw [queuedVersion, hlive.1] at hnone
            cases hnone
        · have hnot : queuedUnder l job.jobId (markerPath job) = false :=
            hcond (by rw [hjob]; exact hbasis)
          rw [hjob, hqueued] at hnot
          cases hnot
    · rw [indexed_cons_other hm]
      exact hindexed

theorem indexHolds (h : History (lifecycle indexOrdered) l) : IndexHolds l := by
  induction h with
  | nil =>
    rintro jobId v job ⟨hget, -⟩
    cases hget
  | cons older allowed cond ih => exact indexHolds_step (.cons older allowed cond) ih

/-! ## Runs -/

/-- What a scan that walks only the index finds: the ids its listing names. -/
def scan (l : ObjectStore) : List String :=
  ((Call.list isMarker : Call Path Contents (List Path)).answer l).filterMap markerJob

/-- What is asked of the index of a store: every queued document has the marker
it is found by, so a scan of the index finds its job. -/
structure IndexComplete (l : ObjectStore) : Prop where
  marked : ∀ jobId v job, l.get (.document .queue jobId) = some (.job job, v) →
    job.state = .queued → (l.get (markerPath job)).isSome = true
  scanned : ∀ jobId v job, l.get (.document .queue jobId) = some (.job job, v) →
    job.state = .queued → jobId ∈ scan l

/-- The claimed job is put back. Its document is installed in `queue/` before
its marker is written. -/
def requeueing : List QueueEvent :=
  claiming 19 ++ moving 2 4 ⟨.running, .queue, by decide⟩ 8

end Stado
