import Stado.Rollout.Host

/-!
# Serving a release

How the agent reads a release's readiness, routes the stable bind to it and
proves that it answers there, hands the bind back to the previous release, and
repairs what an interrupted pass left behind.
-/

namespace Stado.Rollout

open Solo
open Solo.Routine (take tries)

/-- What the agent runs: errors are sentences. -/
abbrev Agent := Routine Act String

/-- Code the model takes as it is: digests, signatures, parsing, the causes'
vocabulary and the spelling of times. -/
structure Libraries extends Causes, Sentences where
  sha256 : List UInt8 → Digest
  utf8 : List UInt8 → Option String
  parseManifest : List UInt8 → Except String ReleaseManifest
  validateManifest : ReleaseManifest → Except String Unit
  versionNewer : (installed latest : String) → Bool
  stadoVersion : String
  verifyManifest : (key : String) → ReleaseManifest → (signature : String) → Except String Unit
  /-- The digest of the canonical manifest. -/
  manifestSha : ReleaseManifest → Digest
  installDirectory : ReleaseManifest → String

variable (L : Libraries) (T : Target)

def save (site : SaveSite) (state : HostReleaseState) : Agent HostReleaseState := do
  tries (.saveState site state)
  pure state

def listenerPid : Option Port → Agent (Option Pid)
  | none => pure none
  | some port => tries (.listener port)

def proxyUpstreamPort : Agent (Option Port) := do
  let target ← tries .proxyState
  pure (target.map (·.upstream))

/-- One readiness read of a release. -/
inductive Readiness where
  | ready
  | pending (why : Refusal)
  | failed (why : Refusal)

def notReadyBecause (record : ProcessRecord) : Agent (Option Refusal) := do
  if ← take (.releaseAlive record) then
    let url := s!"http://127.0.0.1:{record.port}{T.readinessPath}"
    match ← take (.probe record) with
    | .success => pure none
    | .status code => pure (some (.ofSentence s!"{url} answered HTTP {code}"))
    | .refused => pure (some (.ofSentence s!"{url} refused the connection"))
    | .timedOut error =>
      pure (some ⟨.readinessProbeUnanswered, s!"{url} did not answer: {error}"⟩)
    | .failed error => pure (some (.ofSentence s!"{url} failed: {error}"))
  else
    match ← (listenerPid (some record.port)).attempt with
    | .error error =>
      pure (some ⟨.releaseProcessVanished, s!"pid {record.pid} is gone, and who holds its " ++
        s!"port {record.port} could not be read: {error}"⟩)
    | .ok holder =>
      match holder.filter (· != record.pid) with
      | some holder =>
        pure (some ⟨.stableBindOccupied,
          s!"pid {record.pid} is gone while pid {holder} listens on its port {record.port}"⟩)
      | none => pure (some ⟨.releaseProcessVanished, s!"pid {record.pid} is gone"⟩)

/-- Read a release's readiness once; its window has been open for
`elapsedSeconds`. -/
def readiness (record : ProcessRecord) (strategy : RolloutStrategy) (elapsedSeconds : Nat) :
    Agent Readiness := do
  match ← notReadyBecause T record with
  | none => pure .ready
  | some why =>
    if ← take (.releaseAlive record) then
      let window := strategy.readinessTimeoutSeconds
      if window ≤ elapsedSeconds then
        pure (.failed (why.context fun said =>
          s!"{said}, still after the {window}s readiness window"))
      else pure (.pending why)
    else pure (.failed why)

/-! ## The stable bind -/

/-- Prove that the proxy routes the exact staged release and that it answers on
the stable bind. -/
def stableBindAnswer (proxyPid : Pid) (generation : Nat) (active : ProcessRecord) :
    Agent Unit := do
  if ← take (.pidAlive proxyPid) then
    let manifest ← tries (.readMarker active)
    if L.manifestSha manifest != active.manifestSha256 || manifest.version != active.version ||
        manifest.artifactSha256 != active.artifactSha256 then
      .fail "active process does not match its immutable release identity"
    else
      match ← tries .proxyState with
      | none => .fail s!"cannot read proxy target {T.product}"
      | some proxy =>
        if proxy.generation != generation || proxy.upstream != active.port then
          .fail (s!"stable proxy target is generation {proxy.generation} upstream " ++
            s!"127.0.0.1:{proxy.upstream}, expected generation {generation} upstream " ++
            s!"127.0.0.1:{active.port}")
        else
          let url := s!"http://{T.stableBind}{T.readinessPath}"
          match ← take .stableBindProbe with
          | .success => pure ()
          | .status code => .fail s!"{url} answered HTTP {code}"
          | .refused => .fail s!"{url} did not answer: refused"
          | .timedOut error => .fail s!"{url} did not answer: {error}"
          | .failed error => .fail s!"{url} did not answer: {error}"
  else .fail s!"stable release proxy pid {proxyPid} is gone"

def proxyProcessMatches (pid : Pid) : Agent Bool := do
  if ← take (.pidAlive pid) then
    let owner ← tries .exactProxyPid
    pure (owner == some pid)
  else pure false

def startProxy (generation : Nat) (port : Port) : Agent Pid := do
  tries (.writeProxyTarget generation port)
  tries .ensureListener

/-- The recorded proxy, while it is this product's own. -/
def recordedProxy (state : HostReleaseState) : Agent (Option Pid) :=
  match state.proxyPid with
  | none => pure none
  | some pid => do
      if ← proxyProcessMatches pid then pure (some pid) else pure none

def startOwnedProxy (generation : Nat) (port : Port) : Agent Pid := do
  tries .stopLegacy
  let ownerPid ← startProxy generation port
  match ← (tries .exactProxyPid : Agent (Option Pid)).attempt with
  | .error why => .fail s!"stable release proxy failed to start: {why}"
  | .ok none => .fail "host did not retain the requested stable proxy listener"
  | .ok (some proxyPid) =>
    if proxyPid != ownerPid then
      .fail (s!"stable release proxy acknowledged owner pid {ownerPid}, but exact owner is " ++
        s!"pid {proxyPid}")
    else pure proxyPid

/-- Write the proxy's target and put a proxy in front of it when none stands
there; answers its owner. -/
def routeStableBind (generation : Nat) (active : ProcessRecord) (state : HostReleaseState) :
    Agent Pid := do
  tries .stopLegacy
  tries (.writeProxyTarget generation active.port)
  match ← recordedProxy state with
  | some proxyPid => pure proxyPid
  | none =>
    match ← tries .exactProxyPid with
    | some proxyPid => pure proxyPid
    | none => startOwnedProxy generation active.port

/-- What reading and routing the active release came to: it answers, it is read
again by a later pass, or it is lost. -/
abbrev Routing := Except Refusal (Option Refusal)

/-- `ensure_active_proxy`, once the release answered its readiness request. -/
def proveActiveProxy (generation : Nat) (active : ProcessRecord) (state : HostReleaseState) :
    Agent (HostReleaseState × Routing) := do
  match ← (routeStableBind generation active state).attempt with
  | .error why => pure (state, .error (.ofSentence why))
  | .ok proxyPid =>
    let routed := { state with proxyPid := some proxyPid }
    match ← (stableBindAnswer L T proxyPid generation active).attempt with
    | .ok _ => pure (routed, .ok none)
    | .error why =>
      pure (routed, .error (.ofSentence s!"stable release proxy is invalid: {why}"))

/-- How long readiness has been lost. -/
def lostFor (state : HostReleaseState) : Agent Nat :=
  match state.readinessLostAt with
  | none => pure 0
  | some lost => do
      let now ← take .now
      pure (secondsBetween lost now)

/-- Route the stable bind to `active` and prove it answers there. -/
def ensureActiveProxy (generation : Nat) (active : ProcessRecord) (state : HostReleaseState)
    (strategy : RolloutStrategy) : Agent (HostReleaseState × Routing) := do
  let elapsed ← lostFor state
  match ← readiness T active strategy elapsed with
  | .ready =>
    let answered := { state with readinessLostAt := none }
    if state.readinessLostAt.isSome then
      match ← (save .answersAgain answered).attempt with
      | .error why => pure (answered, .error (.ofSentence why))
      | .ok _ => proveActiveProxy L T generation active answered
    else proveActiveProxy L T generation active answered
  | .pending why =>
    match state.readinessLostAt with
    | some _ => pure (state, .ok (some why))
    | none => do
        let now ← take .now
        pure ({ state with readinessLostAt := some now }, .ok (some why))
  | .failed why =>
    pure ({ state with readinessLostAt := none },
      .error (why.context fun said => s!"active release lost readiness: {said}"))

/-! ## Rollback -/

def quarantineWithLogs (record : ProcessRecord) (why : Refusal) : Agent QuarantineRecord := do
  let (stderr, stdout) ← take (.releaseLogs record)
  let now ← take .now
  let reason := s!"{why.sentence}; stderr {stderr.rendered}; stdout {stdout.rendered}"
  let classified := L.classifyObserved (stderr.body ++ "\n" ++ stdout.body)
    (L.observed why.cause why.sentence)
  pure (.classified reason classified now)

/-- Ask the failed release to stop, if there is one. -/
def terminateFailed (site : StopSite) : Option ProcessRecord → Agent Unit
  | none => pure ()
  | some record => take (.terminate site record)

def handBack (failed : Option ProcessRecord) (previous : ProcessRecord)
    (state : HostReleaseState) (strategy : RolloutStrategy) : Agent HostReleaseState := do
  let (routed, answer) ←
    ensureActiveProxy L T state.rolloutGeneration previous { state with previous := none } strategy
  match answer with
  | .error why => .fail why.sentence
  | .ok (some why) =>
    .fail (s!"{T.product} rollback cannot hand the stable bind back to its previous release " ++
      s!"on port {previous.port}: it does not answer: {why.sentence}")
  | .ok none => do
      terminateFailed .rolledBack failed
      pure { routed with active := some previous }

def stopProxy (state : HostReleaseState) : Agent Unit :=
  if state.proxyPid.isSome then tries .stopListener else pure ()

/-- Give the stable bind up to the legacy unit. -/
def handToLegacy (failed : Option ProcessRecord) (state : HostReleaseState) :
    Agent HostReleaseState := do
  stopProxy state
  let _ ← tries .restoreLegacy
  terminateFailed .handedToLegacy failed
  pure { state with proxyPid := none }

def HostReleaseState.failed (state : HostReleaseState) : Option ProcessRecord :=
  state.active.or state.candidate

/-- The document without the failed release, whose readiness loss is not the
previous release's. -/
def HostReleaseState.takeFailed (state : HostReleaseState) : HostReleaseState :=
  if state.active.isSome then { state with active := none, readinessLostAt := none }
  else { state with candidate := none, readinessLostAt := none }

/-- The reason a rollback records and the document with the failed release's
digest quarantined. -/
def quarantineFailed (state : HostReleaseState) (reason : Refusal) :
    Agent (String × HostReleaseState) :=
  match state.failed with
  | none => pure (reason.sentence, state.takeFailed)
  | some record => do
      let failure ← quarantineWithLogs L record reason
      pure (failure.reason, { state.takeFailed with
        quarantined := state.quarantined.insert record.artifactSha256 failure })

/-- Give the stable bind to the previous release, or to the legacy unit when
there is none. -/
def handOver (failed : Option ProcessRecord) (state : HostReleaseState)
    (strategy : RolloutStrategy) : Agent HostReleaseState :=
  match state.previous with
  | some previous => handBack L T failed previous state strategy
  | none => handToLegacy failed state

/-- Hand the stable bind back to the previous release, or to the legacy unit
when there is none. -/
def rollback (state : HostReleaseState) (reason : Refusal) (strategy : RolloutStrategy) :
    Agent HostReleaseState := do
  let (reason, judged) ← quarantineFailed L state reason
  let handed ← handOver L T state.failed judged strategy
  save .rolledBack { handed with
    candidate := none
    phase := .rolledBack
    detail := reason
    cutoverAt := none }

/-! ## Repairs at the start of a pass -/

def stableBindReady : Agent Bool := do
  match ← take .stableBindProbe with
  | .success => pure true
  | _ => pure false

/-- The bind is nobody's: give it to the declared legacy unit, unless a
candidate is owed it. -/
def reclaimBind (leaveBindForCandidate : Bool) (state : HostReleaseState) : Agent Unit := do
  if state.ownershipEmpty && T.legacyLaunchdPlist.isSome then
    if ← stableBindReady then pure ()
    else if leaveBindForCandidate then pure ()
    else
      if ← tries .restoreLegacy then pure ()
      else .fail (s!"legacy {T.product} is loaded but does not answer on {T.stableBind}: no " ++
        "release proxy and no owned release holds the bind")
  else pure ()

/-- A release process holds the upstream port, by its argument vector or by the
kernel's answer for it or its group leader. -/
def upstreamIsOwned (upstream : Option Port) (holder : Option Pid)
    (processes : List ReleaseProcess) : Bool :=
  match upstream with
  | none => false
  | some port =>
    processes.any (fun process => process.port == some port) ||
      match holder with
      | none => false
      | some pid =>
        processes.any fun process => process.pid == pid || process.processGroup == pid

def ownedProxyReady (owned : Bool) : Agent Bool :=
  if owned then do
    tries .stopLegacy
    stableBindReady
  else pure false

/-- Adopt a proxy whose upstream is owned and ready, or retire one that no
record stands behind. -/
def reconcileOwnedProxy (proxyPid : Pid) (state : HostReleaseState) :
    Agent HostReleaseState := do
  let upstream ← proxyUpstreamPort
  let processes ← tries .releaseProcesses
  let holder ← listenerPid upstream
  if ← ownedProxyReady (upstreamIsOwned upstream holder processes) then save .adopted { state with proxyPid := some proxyPid }
  else if state.ownershipEmpty then do
    tries .stopListener
    let _ ← tries .restoreLegacy
    save .proxyRetired { state with proxyPid := none }
  else pure state

def reconcileStableProxy (leaveBindForCandidate : Bool) (state : HostReleaseState) :
    Agent HostReleaseState := do
  match ← tries .exactProxyPid with
  | none => do
      reclaimBind T leaveBindForCandidate state
      pure state
  | some proxyPid => reconcileOwnedProxy proxyPid state

/-- The groups a sweep leaves alone. -/
def HostReleaseState.knownPids (state : HostReleaseState) : List Pid :=
  state.slots.map (·.pid) ++ state.proxyPid.toList

/-- Terminate release processes the state document does not know about. -/
def sweepLeakedProcesses (state : HostReleaseState) : Agent Unit :=
  take (.sweep state.knownPids)

/-! ## Quarantines and holds -/

/-- Who holds `ports` now, leaving out `own`. -/
def portsNow (own : Option Pid) : List Port → Agent PortsNow
  | [] => pure .free
  | port :: rest => do
      match ← (listenerPid (some port)).attempt with
      | .error why => pure (.unread why)
      | .ok none => portsNow own rest
      | .ok (some pid) =>
        if some pid = own then portsNow own rest
        else pure (.held s!"pid {pid} listens on port {port}")

/-- Who holds the release's ports, read for a record of a port another process
held. -/
def bindHeldNow (cause : QuarantineCause) (state : HostReleaseState) : Agent PortsNow :=
  if cause = .stableBindOccupied then
    portsNow (state.active.map (·.pid)) [T.bindPort, T.candidatePorts.1, T.candidatePorts.2]
  else pure .free

def retireHostCausedQuarantine (digest : Digest) (state : HostReleaseState) :
    Agent (RetireVerdict × HostReleaseState) :=
  match state.quarantined.get digest with
  | none => .fail s!"{T.product} on {T.name} has no quarantine record for {digest}"
  | some record => do
      let room ← take .hostRoom
      let bindHeld ← bindHeldNow T (record.classification L.toCauses).cause state
      let trail ← tries .auditTrail
      let verdict := retireVerdict L.toCauses record (lastAutoRetirement trail digest) room bindHeld
      if verdict.isRetire then do
        let auditedAt ← take .now
        tries (.recordRetirement ⟨digest, auditedAt, room⟩)
        pure (verdict, { state with quarantined := state.quarantined.remove digest })
      else pure (verdict, state)

/-- The live check of a run's cause, when there is one. -/
def askRun (run : CauseRun) : Agent (Option (WallVerdict × Option String)) :=
  match L.predicate run.cause run.evidence with
  | none => pure none
  | some args => do
      let verdict ← take (.askWall args)
      pure (some verdict)

/-- Should the agent spend another candidate, and if not, on what ground? -/
def causeHold (state : HostReleaseState) : Agent (Option CauseHold) :=
  match causeRun state with
  | none => pure none
  | some run => do
      let verdict ← askRun L run
      let now ← take .now
      pure (holdFor L.toCauses run verdict now)

end Stado.Rollout
