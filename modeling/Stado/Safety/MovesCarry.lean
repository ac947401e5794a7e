import Stado.Library.Checks
import Stado.Queue.Carried

/-!
# Lifecycle moves carry what their movers decided

A mover decides some fields on its copy of a job; the merge takes some fields of
the copy, by the prefixes the move goes between. The two lists differ for most
movers. A move carries what was decided, and nothing else, exactly when the
fields in one list only have the same value in both documents.
-/

namespace Stado

variable {W : Type} {current requested : JobDocument W} {document other : JobDocument W}
  {fromPrefix toPrefix : Prefix}

/-! ## Fields -/

/-- The fields a mover or the merge may set. -/
inductive Field where
  | startedAt | completedAt | leaseExpiresAt | failedAt | instanceRef | workerAllocation | gpuUuid
  | restarts | lastRestart | error | preemptCount | assignedTo | gpuMemGb | peakVramGb
  | peakVramPerGpu | yieldCount | artifactPaths
deriving DecidableEq

/-- The artifacts of a document with those of another that it has not. -/
def unionPaths (paths more : List String) : List String :=
  more.foldl (fun paths artifact => if artifact ∈ paths then paths else paths ++ [artifact]) paths

/-- The document with one field of another: the larger of two counters or peaks, the union of
artifacts, else the other's value. -/
def Field.carry (field : Field) (document requested : JobDocument W) : JobDocument W :=
  match field with
  | .startedAt => { document with startedAt := requested.startedAt }
  | .completedAt => { document with completedAt := requested.completedAt }
  | .leaseExpiresAt => { document with leaseExpiresAt := requested.leaseExpiresAt }
  | .failedAt => { document with failedAt := requested.failedAt }
  | .instanceRef => { document with instanceRef := requested.instanceRef }
  | .workerAllocation => { document with workerAllocation := requested.workerAllocation }
  | .gpuUuid => { document with gpuUuid := requested.gpuUuid }
  | .restarts => { document with restarts := max document.restarts requested.restarts }
  | .lastRestart => { document with lastRestart := requested.lastRestart }
  | .error => { document with error := requested.error }
  | .preemptCount =>
    { document with preemptCount := max document.preemptCount requested.preemptCount }
  | .assignedTo => { document with assignedTo := requested.assignedTo }
  | .gpuMemGb => { document with gpuMemGb := requested.gpuMemGb }
  | .peakVramGb => { document with peakVramGb := max document.peakVramGb requested.peakVramGb }
  | .peakVramPerGpu =>
    { document with peakVramPerGpu := document.peakVramPerGpu || requested.peakVramPerGpu }
  | .yieldCount => { document with yieldCount := max document.yieldCount requested.yieldCount }
  | .artifactPaths =>
    { document with artifactPaths := unionPaths document.artifactPaths requested.artifactPaths }

inductive FieldValue (W : Type) where
  | stamp (value : Option Stamp)
  | text (value : Option String)
  | worker (value : Option W)
  | count (value : Int)
  | flag (value : Bool)
  | paths (value : List String)

def Field.read (field : Field) (document : JobDocument W) : FieldValue W :=
  match field with
  | .startedAt => .stamp document.startedAt
  | .completedAt => .stamp document.completedAt
  | .leaseExpiresAt => .stamp document.leaseExpiresAt
  | .failedAt => .stamp document.failedAt
  | .instanceRef => .text document.instanceRef
  | .workerAllocation => .worker document.workerAllocation
  | .gpuUuid => .text document.gpuUuid
  | .restarts => .count document.restarts
  | .lastRestart => .stamp document.lastRestart
  | .error => .text document.error
  | .preemptCount => .count document.preemptCount
  | .assignedTo => .text (some document.assignedTo)
  | .gpuMemGb => .count document.gpuMemGb
  | .peakVramGb => .count document.peakVramGb
  | .peakVramPerGpu => .flag document.peakVramPerGpu
  | .yieldCount => .count document.yieldCount
  | .artifactPaths => .paths document.artifactPaths

/-- Everything else of a document. -/
def JobDocument.others (document : JobDocument W) :
    Submission × String × Bool × Int × Option Stamp × String × JobState :=
  (document.submission, document.provider, document.pinToProvider, document.priority,
    document.notBefore, document.unread, document.state)

theorem read_carry_ne {field other : Field} (h : field ≠ other) (document requested : JobDocument W) :
    field.read (other.carry document requested) = field.read document := by
  cases other <;> cases field <;> first | rfl | exact absurd rfl h

theorem read_carry_congr {field : Field}
    (h : field.read document = field.read other) (requested : JobDocument W) :
    field.read (field.carry document requested) = field.read (field.carry other requested) := by
  cases field <;> simp only [Field.read, FieldValue.stamp.injEq, FieldValue.text.injEq,
    FieldValue.worker.injEq, FieldValue.count.injEq, FieldValue.flag.injEq,
    FieldValue.paths.injEq] at h <;> simp [Field.read, Field.carry, h]

theorem others_carry (field : Field) (document requested : JobDocument W) :
    (field.carry document requested).others = document.others := by
  cases field <;> rfl

/-- A document is its fields and everything else. -/
theorem document_ext (hfields : ∀ field : Field, field.read document = field.read other)
    (hothers : document.others = other.others) : document = other := by
  have hstarted := FieldValue.stamp.inj (hfields .startedAt)
  have hcompleted := FieldValue.stamp.inj (hfields .completedAt)
  have hlease := FieldValue.stamp.inj (hfields .leaseExpiresAt)
  have hfailed := FieldValue.stamp.inj (hfields .failedAt)
  have hinstance := FieldValue.text.inj (hfields .instanceRef)
  have hworker := FieldValue.worker.inj (hfields .workerAllocation)
  have hboard := FieldValue.text.inj (hfields .gpuUuid)
  have hrestarts := FieldValue.count.inj (hfields .restarts)
  have hrestart := FieldValue.stamp.inj (hfields .lastRestart)
  have herror := FieldValue.text.inj (hfields .error)
  have hpreempt := FieldValue.count.inj (hfields .preemptCount)
  have hassigned := Option.some.inj (FieldValue.text.inj (hfields .assignedTo))
  have hsize := FieldValue.count.inj (hfields .gpuMemGb)
  have hpeak := FieldValue.count.inj (hfields .peakVramGb)
  have hprobe := FieldValue.flag.inj (hfields .peakVramPerGpu)
  have hyield := FieldValue.count.inj (hfields .yieldCount)
  have hpaths := FieldValue.paths.inj (hfields .artifactPaths)
  simp only [JobDocument.others, Prod.mk.injEq] at hothers
  obtain ⟨hsubmission, hprovider, hpin, hpriority, hbefore, hunread, hstate⟩ := hothers
  rcases document with ⟨⟨⟨_, _⟩, _⟩, _, _⟩
  rcases other with ⟨⟨⟨_, _⟩, _⟩, _, _⟩
  dsimp only at *
  subst_vars
  rfl

/-! ## Carrying several fields -/

def carryAll (fields : List Field) (document requested : JobDocument W) : JobDocument W :=
  fields.foldl (fun carried field => field.carry carried requested) document

theorem read_carryAll {fields : List Field} (hfields : fields.Nodup) (field : Field)
    (document requested : JobDocument W) : field.read (carryAll fields document requested) =
      if field ∈ fields then field.read (field.carry document requested)
      else field.read document := by
  induction fields generalizing document with
  | nil => rfl
  | cons first rest ih =>
    obtain ⟨hfirst, hrest⟩ := List.nodup_cons.mp hfields
    show field.read (carryAll rest (first.carry document requested) requested) = _
    rw [ih hrest]
    by_cases hmem : field ∈ rest
    · have hne : field ≠ first := fun heq => hfirst (heq ▸ hmem)
      rw [if_pos hmem, if_pos (List.mem_cons_of_mem _ hmem)]
      exact read_carry_congr (read_carry_ne hne document requested) requested
    · rw [if_neg hmem]
      by_cases heq : field = first
      · rw [heq, if_pos (List.mem_cons_self ..)]
      · have hnot : field ∉ first :: rest := by
          rw [List.mem_cons, not_or]
          exact ⟨heq, hmem⟩
        rw [if_neg hnot, read_carry_ne heq]

theorem others_carryAll (fields : List Field) (document requested : JobDocument W) :
    (carryAll fields document requested).others = document.others := by
  induction fields generalizing document with
  | nil => rfl
  | cons first rest ih =>
    show (carryAll rest (first.carry document requested) requested).others = _
    rw [ih, others_carry]

def Field.Idle (field : Field) (document requested : JobDocument W) : Prop :=
  field.read (field.carry document requested) = field.read document

/-- Two lists of fields, each carried from its own document, come to the same exactly when the
fields of both are carried alike and those of one only are idle. -/
theorem carryAll_eq_iff {fields others : List Field} (hfields : fields.Nodup)
    (hothers : others.Nodup) (document requested basis : JobDocument W) :
    carryAll fields document requested = carryAll others document basis ↔
      (∀ field ∈ fields, field ∈ others → field.read (field.carry document requested) =
        field.read (field.carry document basis)) ∧
      (∀ field ∈ fields, field ∉ others → field.Idle document requested) ∧
      ∀ field ∈ others, field ∉ fields → field.Idle document basis := by
  have hread : ∀ field : Field, field.read (carryAll fields document requested) =
      field.read (carryAll others document basis) ↔
        (if field ∈ fields then field.read (field.carry document requested)
          else field.read document) =
        if field ∈ others then field.read (field.carry document basis)
          else field.read document := by
    intro field
    rw [read_carryAll hfields, read_carryAll hothers]
  constructor
  · intro heq
    have hboth : ∀ field : Field, _ := fun field => (hread field).mp (by rw [heq])
    refine ⟨fun field hin hother => ?_, fun field hin hother => ?_, fun field hother hin => ?_⟩
    · have hsame := hboth field
      rw [if_pos hin, if_pos hother] at hsame
      exact hsame
    · have hsame := hboth field
      rw [if_pos hin, if_neg hother] at hsame
      exact hsame
    · have hsame := hboth field
      rw [if_neg hin, if_pos hother] at hsame
      exact hsame.symm
  · rintro ⟨hcommon, hset, htaken⟩
    refine document_ext (fun field => (hread field).mpr ?_) ?_
    · by_cases hin : field ∈ fields
      · rw [if_pos hin]
        by_cases hother : field ∈ others
        · rw [if_pos hother]
          exact hcommon field hin hother
        · rw [if_neg hother]
          exact hset field hin hother
      · rw [if_neg hin]
        by_cases hother : field ∈ others
        · rw [if_pos hother]
          exact (htaken field hother hin).symm
        · rw [if_neg hother]
    · rw [others_carryAll, others_carryAll]

/-! ## What the merge takes -/

/-- The destination before anything is carried to it: the lease belongs to `running/` and to
nothing else. -/
def opened (source : JobDocument W) (toPrefix : Prefix) : JobDocument W :=
  { source with state := prefixState toPrefix, leaseExpiresAt := none }

/-- The fields the merge takes. -/
def arm (fromPrefix toPrefix : Prefix) : List Field :=
  match toPrefix with
  | .running => [.startedAt, .instanceRef, .leaseExpiresAt]
  | .queue =>
    if fromPrefix = .running then
      [.startedAt, .instanceRef, .restarts, .lastRestart, .error, .preemptCount, .yieldCount,
        .assignedTo]
    else []
  | .completed | .uploaded | .cancelled =>
    [.completedAt, .instanceRef, .error, .peakVramGb, .peakVramPerGpu, .artifactPaths]
  | .failed => [.failedAt, .instanceRef, .error, .peakVramGb, .peakVramPerGpu, .artifactPaths]

theorem nodup_arm (fromPrefix toPrefix : Prefix) : (arm fromPrefix toPrefix).Nodup := by
  cases fromPrefix <;> cases toPrefix <;> decide

theorem mergeDocuments_eq (h : current.submission = requested.submission) :
    mergeDocuments current requested fromPrefix toPrefix =
      .ok (carryAll (arm fromPrefix toPrefix) (opened current toPrefix) requested) := by
  have hsame : immutableJobProjection current.toJob = immutableJobProjection requested.toJob := h
  unfold mergeDocuments mergeTransitionDestination
  rw [if_neg (not_ne_iff.mpr hsame)]
  refine congrArg Except.ok (document_ext (fun field => ?_) ?_)
  · rw [read_carryAll (nodup_arm ..)]
    cases toPrefix with
    | queue => cases fromPrefix <;> cases field <;> rfl
    | _ => cases field <;> rfl
  · rw [others_carryAll]
    cases toPrefix with
    | queue => cases fromPrefix <;> rfl
    | _ => rfl

theorem mergeDocuments_conflict
    (h : current.submission ≠ requested.submission) (destination : JobDocument W) :
    mergeDocuments current requested fromPrefix toPrefix ≠ .ok destination := by
  have hother : immutableJobProjection current.toJob ≠ immutableJobProjection requested.toJob := h
  unfold mergeDocuments mergeTransitionDestination
  rw [if_pos hother]
  exact nofun

/-! ## What the movers set -/

namespace Mover

/-- The fields a mover sets on its copy; the reaper clears the assignment of a job no operator
pinned. -/
def sets (mover : Mover W) (pinned : Bool) : List Field :=
  match mover with
  | started .. => [.workerAllocation, .startedAt, .instanceRef, .gpuUuid, .leaseExpiresAt]
  | takenBack .. => [.startedAt, .instanceRef, .workerAllocation, .leaseExpiresAt]
  | yielded => [.yieldCount, .instanceRef, .startedAt]
  | escalated .. =>
    [.peakVramGb, .peakVramPerGpu, .gpuMemGb, .failedAt, .error, .instanceRef, .startedAt]
  | selfTerminated _ => [.completedAt, .instanceRef]
  | released _ => [.completedAt, .failedAt, .error]
  | settleRefused .. | startRefused .. | spawnFailed .. => [.failedAt, .error]
  | settleRequeued .. =>
    [.restarts, .instanceRef, .startedAt, .lastRestart, .error] ++
      if pinned then [] else [.assignedTo]
  | finished failure .. =>
    (if failure.isSome then [.failedAt, .error] else [.completedAt]) ++
      [.peakVramGb, .peakVramPerGpu]

/-- The fields a mover sets that the merge for its move does not take. -/
def forgotten (mover : Mover W) : List Field :=
  match mover with
  | started .. => [.workerAllocation, .gpuUuid]
  | takenBack .. => [.workerAllocation]
  | escalated .. => [.peakVramGb, .peakVramPerGpu, .gpuMemGb, .failedAt]
  | released _ => [.failedAt]
  | _ => []

/-- The fields the merge takes from a copy on which the mover left them as they were. -/
def foreign (mover : Mover W) (pinned : Bool) : List Field :=
  match mover with
  | started .. | takenBack .. => []
  | yielded => [.restarts, .lastRestart, .error, .preemptCount, .assignedTo]
  | escalated .. => [.restarts, .lastRestart, .preemptCount, .yieldCount, .assignedTo]
  | selfTerminated _ => [.error, .peakVramGb, .peakVramPerGpu, .artifactPaths]
  | released _ | settleRefused .. | startRefused .. | spawnFailed .. =>
    [.instanceRef, .peakVramGb, .peakVramPerGpu, .artifactPaths]
  | settleRequeued .. => [.preemptCount, .yieldCount] ++ if pinned then [.assignedTo] else []
  | finished failure .. =>
    .instanceRef :: .artifactPaths :: if failure.isSome then [] else [.error]

variable (mover : Mover W) (pinned : Bool)

theorem nodup_sets : (mover.sets pinned).Nodup := by
  cases mover with
  | settleRequeued now reason => cases pinned <;> simp [sets]
  | finished failure now peak => cases failure <;> simp [sets]
  | _ => simp [sets]

theorem mem_forgotten (field : Field) : field ∈ mover.forgotten ↔
    field ∈ mover.sets pinned ∧ field ∉ arm mover.route.1 mover.route.2 := by
  cases mover with
  | settleRequeued now reason => cases pinned <;> cases field <;> simp [forgotten, sets, arm, route]
  | finished failure now peak =>
    cases failure <;> cases field <;> simp [forgotten, sets, arm, route]
  | _ => cases field <;> simp [forgotten, sets, arm, route]

theorem mem_foreign (field : Field) : field ∈ mover.foreign pinned ↔
    field ∈ arm mover.route.1 mover.route.2 ∧ field ∉ mover.sets pinned := by
  cases mover with
  | settleRequeued now reason => cases pinned <;> cases field <;> simp [foreign, sets, arm, route]
  | finished failure now peak => cases failure <;> cases field <;> simp [foreign, sets, arm, route]
  | _ => cases field <;> simp [foreign, sets, arm, route]

end Mover

def JobDocument.pinned (document : JobDocument W) : Bool := document.submission.pinnedHost ≠ ""

/-- Whenever the move is applied, the destination holds what the mover set on its copy, the larger
of two counters and peaks and the union of artifacts, and of every other field what the source
holds. -/
def Carries (mover : Mover W) (source copy : JobDocument W) (existing : Option (JobDocument W)) :
    Prop :=
  ∀ destination,
    moveDestination (mover.requested copy) source mover.route.1 mover.route.2 existing =
    .ok destination → destination =
      carryAll (mover.sets copy.pinned) (opened source mover.route.2) (mover.requested copy)

/-- A document that stands under the destination prefix already holds what the mover set; the
fields the merge forgets have the same values in the source as on the copy; and so have those it
takes that the mover did not set. -/
def Agrees (mover : Mover W) (source copy : JobDocument W) (existing : Option (JobDocument W)) :
    Prop :=
  ∀ basis, documentBasis (mover.requested copy) source mover.route.2 existing = .ok basis →
    source.submission = basis.submission →
      (∀ field ∈ mover.sets copy.pinned, field ∈ arm mover.route.1 mover.route.2 →
        field.read (field.carry (opened source mover.route.2) (mover.requested copy)) =
          field.read (field.carry (opened source mover.route.2) basis)) ∧
      (∀ field ∈ mover.forgotten, field.Idle (opened source mover.route.2)
        (mover.requested copy)) ∧
      ∀ field ∈ mover.foreign copy.pinned, field.Idle (opened source mover.route.2) basis

theorem moves_carry_iff (mover : Mover W) (source copy : JobDocument W)
    (existing : Option (JobDocument W)) :
    Carries mover source copy existing ↔ Agrees mover source copy existing := by
  have hmerge : ∀ basis, source.submission = basis.submission →
      ((mergeDocuments source basis mover.route.1 mover.route.2 = .ok
          (carryAll (mover.sets copy.pinned) (opened source mover.route.2)
            (mover.requested copy))) ↔
        (∀ field ∈ mover.sets copy.pinned, field ∈ arm mover.route.1 mover.route.2 →
          field.read (field.carry (opened source mover.route.2) (mover.requested copy)) =
            field.read (field.carry (opened source mover.route.2) basis)) ∧
        (∀ field ∈ mover.forgotten, field.Idle (opened source mover.route.2)
          (mover.requested copy)) ∧
        ∀ field ∈ mover.foreign copy.pinned, field.Idle (opened source mover.route.2) basis) := by
    intro basis hsame
    rw [mergeDocuments_eq hsame, Except.ok.injEq, eq_comm,
      carryAll_eq_iff (mover.nodup_sets copy.pinned) (nodup_arm ..)]
    simp only [mover.mem_forgotten copy.pinned, mover.mem_foreign copy.pinned, and_imp]
  constructor
  · intro hcarries basis hbasis hsame
    refine (hmerge basis hsame).mp ?_
    rw [mergeDocuments_eq hsame]
    refine congrArg Except.ok (hcarries _ ?_)
    unfold moveDestination
    rw [hbasis]
    exact mergeDocuments_eq hsame
  · intro hagrees destination hmove
    obtain ⟨basis, hbasis, hdestination⟩ := Checks.bind_eq_ok.mp hmove
    by_cases hsame : source.submission = basis.submission
    · have hwanted := (hmerge basis hsame).mpr (hagrees basis hbasis hsame)
      exact Except.ok.inj (hdestination.symm.trans hwanted)
    · exact absurd hdestination (mergeDocuments_conflict hsame destination)

def plainSubmission : Submission where
  jobId := "job-1"
  command := "python train.py"
  createdAt := "2026-01-01T00:00:00Z"
  runId := "run-1"
  submissionRequestDigest := ""
  submissionCommandIndex := none
  submitterRestarts := false
  terminatesAgent := false
  pinnedHost := ""
  yieldable := false
  yieldCommand := ""
  request := "\x7b\x7d"

def queuedDocument : JobDocument String where
  submission := plainSubmission
  provider := ""
  pinToProvider := false
  startedAt := none
  completedAt := none
  leaseExpiresAt := none
  failedAt := none
  instanceRef := none
  restarts := 0
  lastRestart := none
  error := none
  preemptCount := 0
  priority := 0
  assignedTo := ""
  gpuMemGb := 16
  peakVramGb := 0
  peakVramPerGpu := false
  yieldCount := 0
  artifactPaths := []
  notBefore := none
  unread := ""
  state := .queued
  workerAllocation := none
  gpuUuid := none

/-- A claim of it for a board: the running document names no board. -/
theorem board_forgotten :
    ¬ Carries (.started "rig" "rig.local" (some "GPU-1") 100 160) queuedDocument queuedDocument
      none := by
  intro hcarries
  have hagree := hcarries _ rfl
  have hboard := congrArg JobDocument.gpuUuid hagree
  exact absurd hboard nofun

end Stado
