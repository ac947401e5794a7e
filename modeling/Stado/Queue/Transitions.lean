import Stado.Queue.Runs

/-!
# The durable transition protocol

A move is recorded first: the one typed transition record a job may have names
the source version and the destination document. The source is then fenced, the
destination installed, the record completed, and the fenced source rewritten as
a cleaned sentinel before the record is retired. Any caller can finish a move
another one abandoned, so each program below acts on what it reads.
-/

namespace Stado

open CasStore

/-! ## Reads -/

def readVersioned (site : Site) (p : Prefix) (jobId : String) : Storage (Option (Job × Nat)) := do
  match ← Program.perform site (.read (.document p jobId)) with
  | none => pure none
  | some (.job job, version) => pure (some (job, version))
  | some _ => .fail (.other s!"{(Path.document p jobId).asStr} is not a job record")

def readJob (site : Site) (p : Prefix) (jobId : String) : Storage (Option Job) := do
  match ← readVersioned site p jobId with
  | none => pure none
  | some (job, _) => if isTransitionSentinelState job.state then pure none else pure (some job)

def standsUnder (jobId : String) : List Prefix → Storage Bool
  | [] => pure false
  | p :: rest => do
      match ← readJob .read p jobId with
      | some _ => pure true
      | none => standsUnder jobId rest

def readJobTransition (site : Site) (jobId : String) :
    Storage (Option (JobTransition × Nat)) := do
  match ← Program.perform site (.read (.transition jobId)) with
  | none => pure none
  | some (.transition transition, version) =>
    if transition.schema ≠ transitionSchema ∨ transition.jobId ≠ jobId then
      .fail (.other s!"invalid durable transition record for {jobId}")
    else pure (some (transition, version))
  | some _ => .fail (.other s!"invalid durable transition record for {jobId}")

def matchesDestination (transition : JobTransition) (destination : Job) : Bool :=
  immutableJobProjection destination = immutableJobProjection transition.destinationJob ∧
    destination.state = prefixState transition.toPrefix

/-- Move `expected`'s record to `state`: true once it holds that state, false
when the job's record is no longer `expected`'s generation. A write that loses
a race reads the record again and decides on what it now holds. -/
def setTransitionState : Nat → JobTransition → TransitionState → Bool → Storage Bool
  | 0, _, _, _ => .stop
  | fuel + 1, expected, state, own => do
      match ← readJobTransition (.stateRead expected.transitionId state own) expected.jobId with
      | none =>
        .fail (.other s!"durable transition {expected.transitionId.text} disappeared")
      | some (transition, version) =>
        if transition.transitionId ≠ expected.transitionId ∨
            transition.owner ≠ expected.owner then pure false
        else if transition.state = state then pure true
        else
          match ← Program.perform (.setState expected.transitionId state)
              (.swap (.transition expected.jobId) version
                (.transition { transition with state := state })) with
          | .stored _ => pure true
          | .conflict => setTransitionState fuel expected state own
          | .notFound => .fail (.notFound (Path.transition expected.jobId).asStr)

/-- Retire only the transition generation this caller finished. A plain delete
would erase a newer move that replaced the completed record in between. -/
def retireTransitionRecord : Nat → JobTransition → Storage Unit
  | 0, _ => .stop
  | fuel + 1, completed => do
      match ← readJobTransition .read completed.jobId with
      | none => pure ()
      | some (current, version) =>
        if current.transitionId ≠ completed.transitionId ∨ current.owner ≠ completed.owner ∨
            current.state = .retired then pure ()
        else if current.state ≠ .completed then
          .fail (.storageConflict <|
            s!"durable transition {completed.transitionId.text} changed to " ++
              s!"{current.state.word} before retirement")
        else
          match ← Program.perform (.retireRecord completed.transitionId)
              (.swap (.transition completed.jobId) version
                (.transition { current with state := .retired })) with
          | .stored _ => pure ()
          | .conflict => retireTransitionRecord fuel completed
          | .notFound => retireTransitionRecord fuel completed

/-! ## Settling the source -/

/-- Mark the fenced source cleaned; a write that loses a race reads the source
again and decides on what it now holds. The fenced source still carries the
fields its marker's name was built from, so the marker goes in one delete. -/
def retireTransitionSource : Nat → JobTransition → Storage Unit
  | 0, _ => .stop
  | fuel + 1, transition => do
      match ← readVersioned .read transition.fromPrefix transition.jobId with
      | none => pure ()
      | some (source, version) =>
        if source.state = .transitionCleaned transition.transitionId then pure ()
        else if source.state ≠ .transitioning transition.transitionId then pure ()
        else do
          let _ ← (if transition.fromPrefix = .queue then
            deletePriorityMarkerFor source (.seen version) else pure ())
          match ← Program.perform (.cleanSource transition.transitionId)
              (.swap (.document transition.fromPrefix transition.jobId) version
                (.job { source with state := .transitionCleaned transition.transitionId })) with
          | .stored _ => pure ()
          | .conflict => retireTransitionSource fuel transition
          | .notFound => retireTransitionSource fuel transition

def settleSource (fuel : Nat) (transition : JobTransition) : Storage Bool := do
  let _ ← retireTransitionSource fuel transition
  let _ ← retireTransitionRecord fuel transition
  pure true

/-- The outcome of a terminal move is retained before its source is settled. A
run whose manifest is gone keeps no outcome; one this build cannot read leaves
the source fenced for a build that can. -/
def retainAndSettle (fuel : Nat) (transition : JobTransition) (destination : Job) :
    Storage Bool := do
  match ← (recordTerminalOutcome fuel destination transition.toPrefix).attempt with
  | .ok _ => settleSource fuel transition
  | .error (.notFound _) => settleSource fuel transition
  | .error (.other _) => pure false
  | .error error => .fail error

def finishCompletedTransition (fuel : Nat) (transition : JobTransition) (own : Bool) :
    Storage Bool := do
  match ← readJob (.finishRead transition.transitionId own) transition.toPrefix
      transition.jobId with
  | none =>
    -- A later writer has moved the job out of this destination.
    match ← standsUnder transition.jobId allPrefixes with
    | true => do
        let _ ← retireTransitionRecord fuel transition
        pure false
    | false =>
      .fail (.storageConflict <|
        s!"completed transition {transition.transitionId.text} has no destination, and no " ++
          s!"lifecycle prefix holds job {transition.jobId}")
  | some destination =>
    if ¬ matchesDestination transition destination then
      .fail (.storageConflict <|
        s!"{(Path.document transition.toPrefix transition.jobId).asStr} does not match " ++
          s!"completed transition {transition.transitionId.text}")
    else
      match ← readVersioned .read transition.fromPrefix transition.jobId with
      | none => do
          let _ ← retireTransitionRecord fuel transition
          pure true
      | some (source, _) =>
        if source.jobId = transition.jobId ∧
            source.state = .transitionCleaned transition.transitionId then do
          let _ ← retireTransitionRecord fuel transition
          pure true
        else if transition.toPrefix.terminal then
          retainAndSettle fuel transition destination
        else settleSource fuel transition

/-- The last steps of every recovery that found the destination standing. -/
def completeAndFinish (fuel : Nat) (transition : JobTransition) (own : Bool) :
    Storage Bool := do
  match ← setTransitionState fuel transition .completed own with
  | false => pure false
  | true => finishCompletedTransition fuel transition own

/-- Settle a record whose state this build does not know: the world decides
instead of the label. -/
def settleUnrecognizedTransition (fuel : Nat) (transition : JobTransition) (own : Bool) :
    Storage Bool := do
  match ← readJob .read transition.toPrefix transition.jobId with
  | some destination =>
    if matchesDestination transition destination then completeAndFinish fuel transition own
    else settleBySource
  | none => settleBySource
where
  settleBySource : Storage Bool := do
    match ← readVersioned .read transition.fromPrefix transition.jobId with
    | some (source, _) =>
      if source.state ≠ .transitioning transition.transitionId then do
        let _ ← setTransitionState fuel transition .aborted own
        pure false
      else unsettled
    | none => unsettled
  unsettled : Storage Bool :=
    .fail (.storageConflict <|
      s!"durable transition {transition.transitionId.text} carries unknown state " ++
        s!"{transition.state.word} and neither side of the move settles it")

/-! ## Recovery -/

/-- An aborted record is upgraded only when the destination matches and the
source is absent, fenced, or already cleaned for this generation. -/
def recoverAborted (fuel : Nat) (transition : JobTransition) (own : Bool) : Storage Bool := do
  match ← readJob .read transition.toPrefix transition.jobId with
  | none => pure false
  | some destination =>
    if ¬ matchesDestination transition destination then pure false
    else
      match ← readVersioned .read transition.fromPrefix transition.jobId with
      | none => completeAndFinish fuel transition own
      | some (source, _) =>
        if source.state ≠ .transitioning transition.transitionId ∧
            source.state ≠ .transitionCleaned transition.transitionId then pure false
        else completeAndFinish fuel transition own

/-- The source of a prepared transition is gone: another writer moved or
settled the job, or the destination proves the move. -/
def recoverAbsentSource (fuel : Nat) (transition : JobTransition) (own : Bool) :
    Storage Bool := do
  match ← readJob .read transition.toPrefix transition.jobId with
  | some destination =>
    if ¬ matchesDestination transition destination then
      .fail (.storageConflict <|
        s!"{(Path.document transition.toPrefix transition.jobId).asStr} does not match " ++
          s!"transition {transition.transitionId.text}")
    else completeAndFinish fuel transition own
  | none =>
    match ← standsUnder transition.jobId allPrefixes with
    | true => do
        let _ ← setTransitionState fuel transition .aborted own
        pure false
    | false =>
      .fail (.storageConflict <|
        s!"transition {transition.transitionId.text} lost both source and destination, and " ++
          s!"no lifecycle prefix holds job {transition.jobId}")

/-- Install the destination, or find it standing. A destination another writer
changed between the read and the write is read again. -/
def placeDestination : Nat → JobTransition → Storage Job
  | 0, _ => .stop
  | fuel + 1, transition => do
      match ← readVersioned .read transition.toPrefix transition.jobId with
      | none =>
        match ← Program.perform (.installDestination transition.transitionId)
            (.create (.document transition.toPrefix transition.jobId)
              (.job transition.destinationJob)) with
        | true => pure transition.destinationJob
        | false => placeDestination fuel transition
      | some (existing, version) =>
        if isTransitionCleanedState existing.state then
          match ← Program.perform (.installDestination transition.transitionId)
              (.swap (.document transition.toPrefix transition.jobId) version
                (.job transition.destinationJob)) with
          | .stored _ => pure transition.destinationJob
          | .conflict => placeDestination fuel transition
          | .notFound => placeDestination fuel transition
        else if ¬ matchesDestination transition existing then
          .fail (.storageConflict <|
            s!"{(Path.document transition.toPrefix transition.jobId).asStr} conflicts with " ++
              s!"transition {transition.transitionId.text}")
        else if transition.destinationVersion = some version ∧
            existing ≠ transition.destinationJob then
          match ← Program.perform (.installDestination transition.transitionId)
              (.swap (.document transition.toPrefix transition.jobId) version
                (.job transition.destinationJob)) with
          | .stored _ => pure transition.destinationJob
          | .conflict => placeDestination fuel transition
          | .notFound => placeDestination fuel transition
        else pure existing

/-- The source is fenced for this transition: its destination follows. Anything
re-entering the queue is indexed, whatever its priority. -/
def installAndFinish (fuel : Nat) (transition : JobTransition) (own : Bool) : Storage Bool := do
  let destination ← placeDestination fuel transition
  let _ ← Program.perform .read (.touch (.document transition.toPrefix transition.jobId))
  let _ ← (if transition.toPrefix = .queue then writePriorityMarker destination else pure ())
  completeAndFinish fuel transition own

def recoverPrepared (fuel : Nat) (transition : JobTransition) (own : Bool) : Storage Bool := do
  match ← readVersioned (.sourceRead transition.transitionId own) transition.fromPrefix
      transition.jobId with
  | none => recoverAbsentSource fuel transition own
  | some (source, version) =>
    if version = transition.sourceVersion ∧ source = transition.sourceDigest then
      match ← Program.perform (.fenceSource transition.transitionId own)
          (.swap (.document transition.fromPrefix transition.jobId) version
            (.job { source with state := .transitioning transition.transitionId })) with
      | .stored _ => installAndFinish fuel transition own
      | .conflict => pure false
      | .notFound => pure false
    else if source.state ≠ .transitioning transition.transitionId then do
      let _ ← setTransitionState fuel transition .aborted own
      pure false
    else installAndFinish fuel transition own

/-- Recover or finish the single durable lifecycle transition of a job.
Recovery is ownership-independent; `own` names the transition the caller has
itself just recorded. -/
def recoverJobTransition (fuel : Nat) (jobId : String) (own : Option TransitionId) :
    Storage Bool := do
  match ← readJobTransition (.recordRead own) jobId with
  | none => pure false
  | some (transition, _) =>
    let mine := decide (own = some transition.transitionId)
    match transition.state with
    | .retired => pure false
    | .aborted => recoverAborted fuel transition mine
    | .completed => finishCompletedTransition fuel transition mine
    | .prepared => recoverPrepared fuel transition mine
    | .unrecognized _ => settleUnrecognizedTransition fuel transition mine

/-! ## Preparing a move -/

/-- What the destination is derived from: the requested job, or the job that
already stands under the destination prefix. -/
def destinationBasis (requested current : Job) (toPrefix : Prefix) :
    Option (Job × Nat) → Except StorageError (Job × Option Nat)
  | none => .ok (requested, none)
  | some (existing, version) =>
    if immutableJobProjection existing ≠ immutableJobProjection current then
      .error (.storageConflict <|
        s!"{(Path.document toPrefix requested.jobId).asStr} belongs to different lifecycle data")
    else if isTransitionCleanedState existing.state then .ok (requested, some version)
    else if existing.state = prefixState toPrefix then .ok (existing, some version)
    else
      .error (.storageConflict <|
        s!"{(Path.document toPrefix requested.jobId).asStr} is not reusable for lifecycle " ++
          "transition")

/-- The record a mover installs: its id is the digest of what the move is. -/
def candidateTransition (requested source : Job) (fromPrefix toPrefix : Prefix)
    (sourceVersion : Nat) (destinationVersion : Option Nat) (destination : Job)
    (owner : String) (now : Nat) : JobTransition where
  schema := transitionSchema
  transitionId := ⟨requested.jobId, fromPrefix, toPrefix, sourceVersion, destination.toJobFields⟩
  owner := owner
  jobId := requested.jobId
  fromPrefix := fromPrefix
  toPrefix := toPrefix
  sourceVersion := sourceVersion
  sourceDigest := source
  destinationVersion := destinationVersion
  state := .prepared
  createdAt := .instant now
  destinationJob := destination

/-- What became of installing a record: installed or lost, or a prepared record
of this version stands in the way. -/
inductive Installed where
  | done (installed : Bool)
  | standing (existing : JobTransition) (version : Nat)

def installRecord (candidate : JobTransition) : Storage Installed := do
  match ← Program.perform .read (.read (.transition candidate.jobId)) with
  | none => do
      let created ← Program.perform (.installRecord candidate.transitionId)
        (.create (.transition candidate.jobId) (.transition candidate))
      pure (.done created)
  | some (.transition existing, version) =>
    if existing.state = .prepared then pure (.standing existing version)
    else
      match ← Program.perform (.installRecord candidate.transitionId)
          (.swap (.transition candidate.jobId) version (.transition candidate)) with
      | .stored _ => pure (.done true)
      | .conflict => pure (.done false)
      | .notFound => .fail (.notFound (Path.transition candidate.jobId).asStr)
  | some _ => .fail (.other s!"invalid durable transition record for {candidate.jobId}")

/-- A move whose source is gone succeeded when the job already stands at its
destination. -/
def moveOfAbsentSource (requested : Job) (toPrefix : Prefix) : Storage Bool := do
  match ← readJob .read toPrefix requested.jobId with
  | none => pure false
  | some existing =>
    pure (decide (immutableJobProjection existing = immutableJobProjection requested))

/-- Read the destination and derive the record of the move. -/
def prepareTransition (requested current : Job) (version : Nat) (fromPrefix toPrefix : Prefix) :
    Storage JobTransition := do
  let existing ← readVersioned .read toPrefix requested.jobId
  match destinationBasis requested current toPrefix existing with
  | .error e => .fail e
  | .ok (basis, destinationVersion) =>
    match mergeTransitionDestination current basis fromPrefix toPrefix with
    | .error e => .fail e
    | .ok destination => do
        let owner ← Program.query .owner
        let now ← Program.query .now
        pure (candidateTransition requested current fromPrefix toPrefix version
          destinationVersion destination owner now)

/-- One lifecycle move. Every pass that does not return follows another
writer's change; seeing the same prepared record version twice refuses. -/
def transitionJobIfVersion : Nat → Option Nat → Job → Prefix → Prefix → Option Nat → Storage Bool
  | 0, _, _, _, _, _ => .stop
  | fuel + 1, unsettled, requested, fromPrefix, toPrefix, expectedVersion => do
      let _ ← recoverJobTransition fuel requested.jobId none
      match ← readVersioned .read fromPrefix requested.jobId with
      | none => moveOfAbsentSource requested toPrefix
      | some (current, version) =>
        if expectedVersion.any (· ≠ version) then pure false
        else if current.state ≠ prefixState fromPrefix then do
          let _ ← recoverJobTransition fuel requested.jobId none
          pure false
        else do
          let candidate ← prepareTransition requested current version fromPrefix toPrefix
          match ← installRecord candidate with
          | .standing existing active =>
            if unsettled = some active then
              .fail (.storageConflict <|
                s!"durable transition {existing.transitionId.text} for job " ++
                  s!"{requested.jobId} stays prepared: recovery left it unsettled twice")
            else do
              let _ ← recoverJobTransition fuel requested.jobId none
              transitionJobIfVersion fuel (some active) requested fromPrefix toPrefix
                expectedVersion
          | .done false =>
            transitionJobIfVersion fuel unsettled requested fromPrefix toPrefix
              expectedVersion
          | .done true =>
            match ← recoverJobTransition fuel requested.jobId
                (some candidate.transitionId) with
            | true => pure true
            | false =>
              transitionJobIfVersion fuel unsettled requested fromPrefix toPrefix
                expectedVersion

/-- Move through the recoverable transition record. -/
def moveJob (fuel : Nat) (job : Job) (fromPrefix toPrefix : Prefix) : Storage Unit := do
  match ← transitionJobIfVersion fuel none job fromPrefix toPrefix none with
  | true => pure ()
  | false =>
    .fail (.storageConflict <|
      s!"{(Path.document fromPrefix job.jobId).asStr} changed before transition to " ++
        s!"{toPrefix.asStr}")

/-- Version-pinned lifecycle move for decisions made from a specific read. -/
def moveJobIfVersion (fuel : Nat) (job : Job) (fromPrefix toPrefix : Prefix)
    (expectedVersion : Nat) : Storage Bool :=
  transitionJobIfVersion fuel none job fromPrefix toPrefix (some expectedVersion)

end Stado
