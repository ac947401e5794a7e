import Stado.Rollout.Serving

/-!
# Passes of the rollout agent

One pass over one product: repair the bind, read the declaration, and advance,
keep, roll back or start a release. An error of the pass is recorded as a
failed phase.
-/

namespace Stado.Rollout

open Solo
open Solo.Routine (take tries ofExcept)

variable (L : Libraries) (T : Target)

/-- What one pass is given: the declared policy and the trusted signing keys. -/
structure Pass where
  policy : ProductReleasePolicy
  trustedKeys : String → Option String

/-! ## Fetching a candidate -/

/-- Why a candidate was not fetched. -/
inductive CandidateError where
  | unreachable (error : String)
  | refused (sentence : String)

/-- The manifest is the one the registry wants here. -/
def manifestMatches (pass : Pass) (desired : DesiredRelease) (artifact : ReleaseArtifactRef)
    (manifest : ReleaseManifest) : Bool :=
  manifest.product == T.product && manifest.version == desired.version &&
    manifest.platform == T.platform && manifest.artifactSha256 == artifact.artifactSha256 &&
    manifest.sourceRevision == artifact.sourceRevision && manifest.keyId == artifact.keyId &&
    manifest.binary == pass.policy.binary && manifest.launcher == pass.policy.launcher &&
    manifest.configSchema == pass.policy.configSchema &&
    manifest.stateSchema == pass.policy.stateSchema

def checkManifest (pass : Pass) (desired : DesiredRelease) (artifact : ReleaseArtifactRef)
    (bytes : List UInt8) : Except String ReleaseManifest := do
  if L.sha256 bytes != artifact.manifestSha256 then
    .error "release manifest digest does not match desired state"
  else
    let manifest ← (L.parseManifest bytes).mapError fun error =>
      s!"invalid release manifest: {error}"
    L.validateManifest manifest
    if !manifestMatches T pass desired artifact manifest then
      .error "release manifest does not match registry desired state"
    else if manifest.qualification != .passed then
      .error "release candidate has not passed qualification"
    else if L.versionNewer L.stadoVersion manifest.minimumStadoVersion then
      .error (s!"release requires Stado {manifest.minimumStadoVersion}, host runs " ++
        L.stadoVersion)
    else .ok manifest

def checkSignature (pass : Pass) (artifact : ReleaseArtifactRef) (manifest : ReleaseManifest)
    (bytes : List UInt8) : Except String Unit := do
  match L.utf8 bytes with
  | none => .error "release signature is not UTF-8"
  | some signature =>
    match pass.trustedKeys artifact.keyId with
    | none => .error "release signing key is not trusted by registry"
    | some key => L.verifyManifest key manifest signature

def checkArchive (manifest : ReleaseManifest) (bytes : List UInt8) : Except String Unit :=
  if bytes.length != manifest.artifactBytes || L.sha256 bytes != manifest.artifactSha256 then
    .error "release archive does not match its signed manifest"
  else .ok ()

def fetchChecked {α : Type} (uri : String) (check : List UInt8 → Except String α) :
    Routine Act CandidateError α := do
  match ← take (.fetchBytes uri) with
  | .error error => .fail (.unreachable error)
  | .ok bytes => ofExcept ((check bytes).mapError .refused)

def fetchCandidate (pass : Pass) (desired : DesiredRelease) (artifact : ReleaseArtifactRef) :
    Routine Act CandidateError ReleaseManifest := do
  let manifest ← fetchChecked artifact.manifestUri (checkManifest L T pass desired artifact)
  fetchChecked artifact.signatureUri (checkSignature L pass artifact manifest)
  fetchChecked artifact.archiveUri (checkArchive L manifest)
  pure manifest

/-! ## Promoting a candidate -/

def startCandidate (pass : Pass) (manifest : ReleaseManifest) (state : HostReleaseState) :
    Agent HostReleaseState := do
  tries (.stageRelease manifest)
  let state ← save .staged { state with
    phase := .staged
    detail := s!"staged immutable release at {L.installDirectory manifest}" }
  let port := nextPort T.candidatePorts state (← proxyUpstreamPort)
  let process ← tries (.spawnRelease manifest (L.manifestSha manifest) port)
  save .started { state with
    candidate := some process
    phase := .candidateRunning
    detail := s!"candidate pid={process.pid} port={port} started; later passes read its " ++
      s!"readiness for up to {pass.policy.strategy.readinessTimeoutSeconds}s" }

/-- The candidate declares that it can be rolled back to the active release. -/
def rollbackCompatible (manifest : ReleaseManifest) (state : HostReleaseState) : Bool :=
  match state.active with
  | none => true
  | some active => manifest.rollbackCompatibleWith.contains active.version

def promoteFetched (pass : Pass) (artifact : ReleaseArtifactRef) (manifest : ReleaseManifest)
    (state : HostReleaseState) : Agent HostReleaseState := do
  let state ← save .verified { state with
    phase := .verified
    detail := "signature, provenance, qualification, schema, and digest verified" }
  if rollbackCompatible manifest state then startCandidate L T pass manifest state
  else
    let version := (state.active.map (·.version)).getD ""
    let refusal : Refusal := ⟨.rollbackCompatibilityUndeclared,
      s!"release {manifest.version} does not declare rollback compatibility with {version}"⟩
    let now ← take .now
    save .incompatible { state with
      quarantined := state.quarantined.insert artifact.artifactSha256
        (.observed L.toCauses refusal now)
      phase := .quarantined
      detail := refusal.sentence }

def discardIncomplete (state : HostReleaseState) : Agent HostReleaseState :=
  match state.candidate with
  | none => pure state
  | some incomplete => do
      take (.terminate .discarded incomplete)
      save .discarded { state with
        candidate := none
        detail := "discarded incomplete candidate from an interrupted rollout" }

def promoteCandidate (pass : Pass) (desired : DesiredRelease) (artifact : ReleaseArtifactRef)
    (state : HostReleaseState) : Agent HostReleaseState := do
  let state ← discardIncomplete state
  match ← tries .foreignHolder with
  | some holder =>
    save .bindHeld { state with phase := .failed, detail := s!"{holder}; {noCandidateSpawned}" }
  | none => do
      let state ← save .downloading { state with
        phase := .downloaded, detail := s!"fetching {T.product} {desired.version}" }
      match ← (fetchCandidate L T pass desired artifact).attempt with
      | .ok manifest => promoteFetched L T pass artifact manifest state
      | .error (.unreachable error) =>
        save .unreachable { state with
          detail := s!"cannot fetch {T.product} {desired.version} from the release channel; " ++
            s!"read again next pass: {error}" }
      | .error (.refused reason) => do
          let now ← take .now
          save .refused { state with
            quarantined := state.quarantined.insert artifact.artifactSha256
              (.new L.toCauses reason now)
            phase := .quarantined
            detail := reason }

/-! ## Routing the active release -/

/-- A pass is over, or it goes on. -/
inductive Turn where
  | ended (state : HostReleaseState)
  | goesOn (state : HostReleaseState)

/-- Route the stable bind to `active`: the pass goes on when it answers, is over
when it is read again later, and rolls back when it is lost. `unanswered` says
that it is read again. -/
def routeActive (site : SaveSite) (unanswered : Refusal → String) (pass : Pass)
    (generation : Nat) (active : ProcessRecord) (state : HostReleaseState) : Agent Turn := do
  let (routed, answer) ← ensureActiveProxy L T generation active state pass.policy.strategy
  match answer with
  | .ok none => pure (.goesOn routed)
  | .ok (some why) => do
      let saved ← save site { routed with detail := unanswered why }
      pure (.ended saved)
  | .error reason =>
    if pass.policy.strategy.automaticRollback then do
      let saved ← rollback L T routed reason pass.policy.strategy
      pure (.ended saved)
    else do
      let saved ← save .failedWithoutRollback { routed with
        phase := .failed, detail := reason.sentence }
      pure (.ended saved)

def routeRecorded (pass : Pass) (generation : Nat) (active : ProcessRecord)
    (state : HostReleaseState) : Agent Turn :=
  routeActive L T .unanswered (fun why =>
    s!"active release on port {active.port} is not answering; read again next pass: " ++
      why.sentence) pass generation active state

def quarantineUnready (process : ProcessRecord) (why : Refusal) (state : HostReleaseState) :
    Agent HostReleaseState := do
  take (.terminate .unready process)
  let failure ← quarantineWithLogs L process
    (why.context fun said => s!"candidate did not become ready: {said}")
  save .unready { state with
    quarantined := state.quarantined.insert process.artifactSha256 failure
    candidate := none
    phase := .quarantined
    detail := failure.reason }

def cutOver (pass : Pass) (desired : DesiredRelease) (process : ProcessRecord)
    (state : HostReleaseState) : Agent HostReleaseState := do
  let now ← take .now
  let state ← save .cutover { state with
    previous := state.active
    active := state.candidate
    candidate := none
    phase := .ready
    detail := "candidate readiness passed; stable cutover pending"
    cutoverAt := some now
    readinessLostAt := none }
  let turn ← routeActive L T .stoppedAnswering (fun why =>
    s!"candidate on port {process.port} stopped answering at cutover; read again next pass: " ++
      why.sentence) pass desired.rolloutGeneration process state
  match turn with
  | .ended state => pure state
  | .goesOn state =>
    save .routed { state with
      phase := .routed
      detail := s!"stable proxy routed to candidate port {process.port}; the previous release " ++
        s!"drains for {pass.policy.strategy.drainTimeoutSeconds} s before a later pass reads " ++
        "the candidate" }

def advanceCandidate (pass : Pass) (desired : DesiredRelease) (state : HostReleaseState) :
    Agent HostReleaseState :=
  match state.candidate with
  | none => .fail s!"{T.product} is in phase candidate_running with no candidate process record"
  | some process => do
      let now ← take .now
      let elapsed := secondsBetween process.startedAt now
      match ← readiness T process pass.policy.strategy elapsed with
      | .ready => cutOver L T pass desired process state
      | .pending why =>
        save .pending { state with
          detail := s!"candidate pid={process.pid} port={process.port} not ready after " ++
            s!"{elapsed}s: {why.sentence}" }
      | .failed why => quarantineUnready L process why state

/-! ## The rollback window -/

def secondsSinceCutover (state : HostReleaseState) : Agent Nat :=
  match state.cutoverAt with
  | none => pure 0
  | some cutover => do
      let now ← take .now
      pure (secondsBetween cutover now)

/-- The rollback window of a monitored record starts now when it carried no
cutover time. -/
def startWindow (state : HostReleaseState) : Agent HostReleaseState :=
  if state.cutoverAt.isSome then pure state
  else do
    let now ← take .now
    save .windowStarted { state with
      cutoverAt := some now
      detail := "rollback window started now: the monitored record carried no cutover time" }

/-- End the previous release, if there is one. -/
def terminatePrevious : Option ProcessRecord → Agent Unit
  | none => pure ()
  | some previous => take (.terminate .committed previous)

def monitor (strategy : RolloutStrategy) (state : HostReleaseState) : Agent HostReleaseState := do
  let state ← startWindow state
  let elapsed ← secondsSinceCutover state
  if strategy.rollbackWindowSeconds ≤ elapsed then do
    terminatePrevious state.previous
    save .committed { state with
      previous := none
      phase := .committed
      detail := "release committed after rollback window" }
  else pure state

def cutoverOrNow (state : HostReleaseState) : Agent Time :=
  match state.cutoverAt with
  | some cutover => pure cutover
  | none => take .now

def recordRouted (active : ProcessRecord) (state : HostReleaseState) : Agent HostReleaseState :=
  if state.phase != .routed || state.cutoverAt.isNone then do
    let cutoverAt ← cutoverOrNow state
    save .routed { state with
      phase := .routed
      detail := s!"stable proxy routed to candidate port {active.port}"
      cutoverAt := some cutoverAt }
  else pure state

/-- What a pass does with an active release that answers and is the desired one. -/
def holdActive (strategy : RolloutStrategy) (active : ProcessRecord) (state : HostReleaseState) :
    Agent HostReleaseState := do
  match state.phase with
  | .monitoring => monitor strategy state
  | .committed => pure state
  | _ => do
      let state ← recordRouted active state
      let elapsed ← secondsSinceCutover state
      if elapsed < strategy.drainTimeoutSeconds then pure state
      else do
        let state ← save .monitoring { state with
          phase := .monitoring
          detail := "previous release drained and retained for rollback window" }
        monitor strategy state

/-! ## One pass -/

/-- A candidate is owed the stable bind this pass, so the repair leaves it free. -/
def candidateIsOwedTheBind (state : HostReleaseState) (policy : ProductReleasePolicy) : Bool :=
  match policy.desired with
  | none => false
  | some desired =>
    match desired.artifact with
    | none => false
    | some artifact =>
      !state.quarantined.containsKey artifact.artifactSha256 &&
        (contains state.detail noCandidateSpawned ||
          state.rolloutGeneration != desired.rolloutGeneration)

def followDesired (pass : Pass) (desired : DesiredRelease) (artifact : ReleaseArtifactRef)
    (state : HostReleaseState) : Agent HostReleaseState :=
  match state.active.filter fun active => active.artifactSha256 == artifact.artifactSha256 with
  | some active => do
      match ← routeRecorded L T pass desired.rolloutGeneration active state with
      | .ended state => pure state
      | .goesOn state => holdActive pass.policy.strategy active state
  | none =>
    if state.phase == .candidateRunning && (state.candidate.any fun candidate =>
        candidate.artifactSha256 == artifact.artifactSha256) then
      advanceCandidate L T pass desired state
    else do
      match ← causeHold L state with
      | some hold =>
        save .held { state with
          phase := .quarantined, detail := hold.sentence L.toCauses L.toSentences }
      | none => promoteCandidate L T pass desired artifact state

def judgeQuarantine (digest : Digest) (state : HostReleaseState) : Agent Turn := do
  let (verdict, judged) ← retireHostCausedQuarantine L T digest state
  let detail := verdict.detail L.toSentences
  if verdict.isRetire then do
    let saved ← save .retired { judged with detail := detail }
    pure (.goesOn saved)
  else do
    let saved ← save .stillQuarantined { judged with phase := .quarantined, detail := detail }
    pure (.ended saved)

def routeIfActive (pass : Pass) (generation : Nat) (state : HostReleaseState) : Agent Turn :=
  match state.active with
  | none => pure (.goesOn state)
  | some active => routeRecorded L T pass generation active state

def followQuarantined (pass : Pass) (desired : DesiredRelease) (artifact : ReleaseArtifactRef)
    (state : HostReleaseState) : Agent HostReleaseState := do
  match ← routeIfActive L T pass desired.rolloutGeneration state with
  | .ended state => pure state
  | .goesOn state =>
    match ← judgeQuarantine L T artifact.artifactSha256 state with
    | .ended state => pure state
    | .goesOn state => followDesired L T pass desired artifact state

def repeatsFailedRollout (state : HostReleaseState) (desired : DesiredRelease) : Bool :=
  state.phase == .rolledBack && state.rolloutGeneration == desired.rolloutGeneration &&
    state.active.isNone && state.previous.isNone

def reconcileDesired (pass : Pass) (desired : DesiredRelease) (artifact : ReleaseArtifactRef)
    (state : HostReleaseState) : Agent HostReleaseState :=
  let repeats := repeatsFailedRollout state desired
  let state := { state with rolloutGeneration := desired.rolloutGeneration }
  if repeats then do
    let now ← take .now
    save .repeatsFailure { state with
      quarantined := state.quarantined.orInsert artifact.artifactSha256
        (.new L.toCauses state.detail now)
      phase := .quarantined
      detail := "desired release digest is quarantined after its previous rollback" }
  else if state.quarantined.containsKey artifact.artifactSha256 then
    followQuarantined L T pass desired artifact state
  else followDesired L T pass desired artifact state

def loadState : Agent HostReleaseState := do
  let doc ← tries .loadState
  pure (doc.getD .new)

def reconcileProduct (pass : Pass) : Agent HostReleaseState := do
  tries .requireOwner
  let state ← loadState
  let state ← reconcileStableProxy T (candidateIsOwedTheBind state pass.policy) state
  sweepLeakedProcesses state
  match pass.policy.desired with
  | none => save .idle { state with phase := .idle, detail := "no desired release" }
  | some desired =>
    match desired.artifact with
    | none => .fail s!"desired release has no {T.platform} artifact"
    | some artifact => reconcileDesired L T pass desired artifact state

def recordFailure (reason : String) : Agent HostReleaseState := do
  let state ← loadState
  save .passFailed { state with phase := .failed, detail := reason }

def publish (state : HostReleaseState) : Agent Unit := do
  match ← take (.publishStatus state) with
  | .ok _ => pure ()
  | .error error => do
      let _ ← save .publishFailed { state with
        detail := s!"{state.detail}; status publish failed: {error}" }
      pure ()

/-- The state a pass ends with, its failure recorded. -/
def outcome : Except String HostReleaseState → Agent HostReleaseState
  | .ok state => pure state
  | .error reason => recordFailure reason

/-- One pass over one product, under its lock. -/
def reconcileOnce (pass : Pass) : Agent Unit := do
  let result ← (reconcileProduct L T pass).attempt
  let state ← outcome result
  publish state

end Stado.Rollout
