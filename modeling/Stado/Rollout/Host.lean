import Stado.Library.Solo
import Stado.Rollout.Records

/-!
# The host a rollout runs on

The process table with its listeners, the files the agent keeps, and the steps
it takes on both. A release is a process group led by its launcher: children
inherit the group and the port their launcher was told. The world moves by
itself: processes fork, start, run other programs, listen, stop listening and
exit at any time. Pids are not used twice.

A signal asks a process to exit and is recorded by nothing, so it changes the
table only where it cannot be refused; otherwise the exit, if it comes, is a
move of the world.
-/

namespace Stado.Rollout

open Solo List

/-! ## Processes -/

/-- What the process table shows of a process whose command line names the
product's releases directory. -/
structure Listing where
  version : String
  /-- The value of `--port`. -/
  port : Option Port
  /-- The command line carries the agent's launch marker. -/
  agentSpawned : Bool

/-- A process. `told` is the port its launcher was told to serve on, in the
environment every process of its group inherits; a process that was told a port
listens on no other. -/
structure Process where
  pid : Pid
  group : Pid
  told : Option Port
  listens : List Port
  listing : Option Listing
  bound : ∀ p, told = some p → ∀ port ∈ listens, port = p

structure ReleaseProcess where
  pid : Pid
  processGroup : Pid
  version : String
  port : Option Port
  agentSpawned : Bool

def Process.release (q : Process) : Option ReleaseProcess :=
  q.listing.map fun l => ⟨q.pid, q.group, l.version, l.port, l.agentSpawned⟩

/-- The process table; `nextPid` is the next pid the kernel gives. -/
structure Table where
  procs : List Process
  nextPid : Pid
  fresh : ∀ q ∈ procs, q.pid < nextPid ∧ q.group < nextPid

namespace Table

/-- A new process in the group `group`. -/
def add (t : Table) (group : Pid) (hgroup : group ≤ t.nextPid) (told : Option Port)
    (listing : Option Listing) : Table where
  procs := ⟨t.nextPid, group, told, [], listing, fun _ _ _ h => by cases h⟩ :: t.procs
  nextPid := t.nextPid + 1
  fresh := by
    intro q hq
    rcases mem_cons.mp hq with rfl | hq
    · exact ⟨Nat.lt_succ_self _, Nat.lt_succ_of_le hgroup⟩
    · have h := t.fresh q hq
      exact ⟨Nat.lt_succ_of_lt h.1, Nat.lt_succ_of_lt h.2⟩

/-- The processes that `keep` keeps. -/
def only (t : Table) (keep : Process → Bool) : Table where
  procs := t.procs.filter keep
  nextPid := t.nextPid
  fresh := fun q hq => t.fresh q (mem_filter.mp hq).1

/-- Change what processes run and where they listen. -/
def alter (t : Table) (f : Process → Process)
    (hf : ∀ q, (f q).pid = q.pid ∧ (f q).group = q.group) : Table where
  procs := t.procs.map f
  nextPid := t.nextPid
  fresh := by
    intro q hq
    obtain ⟨q', hq', rfl⟩ := List.mem_map.mp hq
    rw [(hf q').1, (hf q').2]
    exact t.fresh q' hq'

def find (t : Table) (pid : Pid) : Option Process :=
  t.procs.find? fun q => q.pid == pid

def listener (t : Table) (port : Port) : Option Process :=
  t.procs.find? fun q => q.listens.contains port

/-- `pid_alive`: init is never a release process. -/
def pidAlive (t : Table) (pid : Pid) : Bool :=
  decide (1 < pid) && (t.find pid).isSome

def releaseProcesses (t : Table) : List ReleaseProcess :=
  t.procs.filterMap Process.release

end Table

/-- What happens on the host by itself. -/
inductive Move where
  /-- A process starts another one in its own group. -/
  | fork (parent : Pid) (listing : Option Listing)
  /-- A process that is not the agent's starts, in a group of its own. -/
  | arrive (listing : Option Listing)
  /-- A process runs another program. -/
  | exec (pid : Pid) (listing : Option Listing)
  | exit (pid : Pid)
  /-- A process takes a port nobody listens on. -/
  | listen (pid : Pid) (port : Port)
  | close (pid : Pid) (port : Port)

/-- The process listens on `port` too, if it may. -/
def Process.listen (q : Process) (port : Port) : Process :=
  if h : ∀ p, q.told = some p → port = p then
    { q with
      listens := port :: q.listens
      bound := by
        intro p hp x hx
        rcases mem_cons.mp hx with rfl | hx
        · exact h p hp
        · exact q.bound p hp x hx }
  else q

def Process.close (q : Process) (port : Port) : Process :=
  { q with
    listens := q.listens.filter (· != port)
    bound := fun p hp x hx => q.bound p hp x (mem_filter.mp hx).1 }

theorem Process.listen_pid (q : Process) (port : Port) :
    (q.listen port).pid = q.pid ∧ (q.listen port).group = q.group ∧
      (q.listen port).told = q.told ∧ (q.listen port).listing = q.listing := by
  unfold Process.listen
  split <;> exact ⟨rfl, rfl, rfl, rfl⟩

namespace Table

def move (t : Table) : Move → Option Table
  | .fork parent listing =>
    match h : t.find parent with
    | some q => some (t.add q.group
        (Nat.le_of_lt (t.fresh q (mem_of_find?_eq_some h)).2) q.told listing)
    | none => none
  | .arrive listing => some (t.add t.nextPid (Nat.le_refl _) none listing)
  | .exec pid listing =>
    some (t.alter (fun q => if q.pid = pid then { q with listing := listing } else q)
      fun q => by split <;> exact ⟨rfl, rfl⟩)
  | .exit pid => some (t.only fun q => q.pid != pid)
  | .listen pid port =>
    if (t.listener port).isSome then none
    else some (t.alter (fun q => if q.pid = pid then q.listen port else q)
      fun q => by
        split
        · exact ⟨(q.listen_pid port).1, (q.listen_pid port).2.1⟩
        · exact ⟨rfl, rfl⟩)
  | .close pid port =>
    some (t.alter (fun q => if q.pid = pid then q.close port else q)
      fun q => by split <;> exact ⟨rfl, rfl⟩)

end Table

/-- `ProxyState`: the loopback port the proxy forwards to. -/
structure ProxyState where
  generation : Nat
  upstream : Port

structure World where
  table : Table
  /-- The state document, absent before its first commit. -/
  doc : Option HostReleaseState
  /-- The proxy's target file. -/
  target : Option ProxyState
  /-- The agent's own lines of the quarantine audit trail. -/
  trail : List Retirement
  /-- The pids with a sweep marker. -/
  swept : List Pid
  /-- The releases found alive since the last candidate was started; no step
  reads it. -/
  found : List ProcessRecord

namespace World

/-- The state document as `load_state` answers it. -/
def document (w : World) : HostReleaseState := w.doc.getD .new

/-- The release processes a sweep ends: the agent started them or the leader of
their group, no record names their group, and they do not carry the proxy's
traffic, by their argument vector or by the kernel's answer. -/
def leaked (w : World) (known : List Pid) (q : Process) : Bool :=
  match q.release with
  | none => false
  | some process =>
    let upstream := w.target.map (·.upstream)
    let upstreamHolder := upstream.bind w.table.listener
    let spawnedGroups := (w.table.releaseProcesses.filter (·.agentSpawned)).map (·.processGroup)
    !known.contains process.processGroup &&
      (process.agentSpawned || spawnedGroups.contains process.processGroup) &&
      !(upstream.isSome && (process.port == upstream ||
        upstreamHolder.map (·.pid) == some process.pid))

end World

/-! ## Steps -/

/-- The places the state document is committed from. -/
inductive SaveSite where
  | adopted | proxyRetired | idle | repeatsFailure | unanswered | failedWithoutRollback
  | stillQuarantined | retired | routed | monitoring | windowStarted | committed | held
  | discarded | bindHeld | downloading | unreachable | refused | verified | incompatible
  | staged | started | pending | unready | cutover | stoppedAnswering | answersAgain
  | rolledBack | passFailed | publishFailed
deriving DecidableEq

/-- The places a release is asked to stop from; `handedToLegacy` is a rollback
with no previous release, which gives the stable bind up. -/
inductive StopSite where
  | discarded | unready | rolledBack | handedToLegacy | committed
deriving DecidableEq

/-- One readiness request. -/
inductive Probe where
  | success
  | status (code : Nat)
  | refused
  | timedOut (error : String)
  | failed (error : String)

/-- One release log: what a reason quotes of it, and all of it. -/
structure LogEvidence where
  rendered : String
  body : String

inductive Act : Type → Type where
  | requireOwner : Act (Except String Unit)
  | loadState : Act (Except String (Option HostReleaseState))
  | saveState (site : SaveSite) (state : HostReleaseState) : Act (Except String Unit)
  | exactProxyPid : Act (Except String (Option Pid))
  | stableBindProbe : Act Probe
  | stopLegacy : Act (Except String Unit)
  | restoreLegacy : Act (Except String Bool)
  | proxyState : Act (Except String (Option ProxyState))
  | writeProxyTarget (generation : Nat) (port : Port) : Act (Except String Unit)
  | ensureListener : Act (Except String Pid)
  | stopListener : Act (Except String Unit)
  | releaseProcesses : Act (Except String (List ReleaseProcess))
  | listener (port : Port) : Act (Except String (Option Pid))
  /-- Read the proxy's target, the process table and who holds the upstream,
  and end what leaks. -/
  | sweep (known : List Pid) : Act Unit
  | pidAlive (pid : Pid) : Act Bool
  | releaseAlive (record : ProcessRecord) : Act Bool
  | probe (record : ProcessRecord) : Act Probe
  | readMarker (record : ProcessRecord) : Act (Except String ReleaseManifest)
  | foreignHolder : Act (Except String (Option String))
  | fetchBytes (uri : String) : Act (Except String (List UInt8))
  | stageRelease (manifest : ReleaseManifest) : Act (Except String Unit)
  | spawnRelease (manifest : ReleaseManifest) (manifestSha : Digest) (port : Port) :
      Act (Except String ProcessRecord)
  | terminate (site : StopSite) (record : ProcessRecord) : Act Unit
  | releaseLogs (record : ProcessRecord) : Act (LogEvidence × LogEvidence)
  | askWall (args : List String) : Act (WallVerdict × Option String)
  | auditTrail : Act (Except String (List Retirement))
  | recordRetirement (line : Retirement) : Act (Except String Unit)
  | hostRoom : Act HostRoom
  | publishStatus (state : HostReleaseState) : Act (Except String Unit)
  | now : Act Time

/-- What the adversary chooses of a step's outcome. `lost` is a write that
fails after it took effect. -/
inductive Choice where
  | done
  | fails (why : String)
  | lost (why : String)
  | flag (b : Bool)
  | pid (p : Option Pid)
  | text (t : Option String)
  | bytes (b : List UInt8)
  | time (t : Time)
  | probed (p : Probe)
  | manifest (m : ReleaseManifest)
  | logs (stderr stdout : LogEvidence)
  | wall (v : WallVerdict) (detail : Option String)
  | room (r : HostRoom)
  | skips (pids : List Pid)

namespace World

def reads {β : Type} (c : Choice) (w : World) (b : β) : Option (Except String β × World) :=
  match c with
  | .done => some (.ok b, w)
  | .fails why => some (.error why, w)
  | _ => none

/-- A write that leads to `w'` and may fail, before or after it took effect. -/
def writes (c : Choice) (w w' : World) : Option (Except String Unit × World) :=
  match c with
  | .done => some (.ok (), w')
  | .fails why => some (.error why, w)
  | .lost why => some (.error why, w')
  | _ => none

/-- The answer `read` finds in the adversary's choice, which changes nothing. -/
def asks {β : Type} (c : Choice) (w : World) (read : Choice → Option β) :
    Option (Except String β × World) :=
  match c with
  | .fails why => some (.error why, w)
  | c => (read c).map fun b => (.ok b, w)

/-- An answer that cannot be a failure. -/
def tells {β : Type} (c : Choice) (w : World) (read : Choice → Option β) :
    Option (β × World) :=
  (read c).map fun b => (b, w)

/-- A readiness answer comes from a listener, a refusal from a port without one. -/
def probes (c : Choice) (w : World) (port : Port) : Option (Probe × World) :=
  match c with
  | .probed .success => if (w.table.listener port).isSome then some (.success, w) else none
  | .probed (.status code) =>
    if (w.table.listener port).isSome then some (.status code, w) else none
  | .probed .refused => if (w.table.listener port).isSome then none else some (.refused, w)
  | .probed p => some (p, w)
  | _ => none

/-- The table and the markers after a sweep that left out `skipped`, whose
markers could not be kept: a process swept before cannot refuse this signal,
any other one is marked. -/
def sweep (w : World) (known skipped : List Pid) : World :=
  let ended := fun q => w.leaked known q && !skipped.contains q.pid
  let marked := (w.table.procs.filter ended).map (·.pid)
  { w with
    table := w.table.only fun q => !(ended q && w.swept.contains q.pid)
    swept :=
      if marked.isEmpty then w.swept
      else marked ++ w.swept.filter fun pid => (w.table.find pid).isSome }

/-- Start a release: its launcher leads a new group and is told its port. -/
def spawn (w : World) (manifest : ReleaseManifest) (manifestSha : Digest) (port : Port)
    (now : Time) : ProcessRecord × World :=
  (⟨manifest.version, manifest.artifactSha256, manifestSha, port, w.table.nextPid, now⟩, { w with
      table := w.table.add w.table.nextPid (Nat.le_refl _) (some port)
        (some ⟨manifest.version, none, true⟩)
      found := [] })

def perform {β : Type} : Act β → Choice → World → Option (β × World)
  | .requireOwner, c, w => w.reads c ()
  | .loadState, c, w => w.reads c w.doc
  | .saveState _ state, c, w => w.writes c { w with doc := some state }
  | .exactProxyPid, c, w => w.asks c fun
      | .pid p => some p
      | _ => none
  | .stableBindProbe, c, w => w.tells c fun
      | .probed p => some p
      | _ => none
  | .stopLegacy, c, w => w.reads c ()
  | .restoreLegacy, c, w => w.asks c fun
      | .flag b => some b
      | _ => none
  | .proxyState, c, w => w.reads c w.target
  | .writeProxyTarget generation port, c, w =>
    w.writes c { w with target := some ⟨generation, port⟩ }
  | .ensureListener, c, w => w.asks c fun
      | .pid p => p
      | _ => none
  | .stopListener, c, w => w.reads c ()
  | .releaseProcesses, c, w => w.reads c w.table.releaseProcesses
  | .listener port, c, w => w.reads c ((w.table.listener port).map (·.pid))
  | .sweep known, c, w =>
    match c with
    | .skips skipped => some ((), w.sweep known skipped)
    | .fails _ => some ((), w)
    | _ => none
  | .pidAlive pid, c, w => w.tells c fun
      | .done => some (w.table.pidAlive pid)
      | _ => none
  | .releaseAlive record, c, w =>
    match c with
    | .done =>
      if w.table.pidAlive record.pid then some (true, { w with found := record :: w.found })
      else some (false, w)
    | _ => none
  | .probe record, c, w => w.probes c record.port
  | .readMarker _, c, w => w.asks c fun
      | .manifest m => some m
      | _ => none
  | .foreignHolder, c, w => w.asks c fun
      | .text t => some t
      | _ => none
  | .fetchBytes _, c, w => w.asks c fun
      | .bytes b => some b
      | _ => none
  | .stageRelease _, c, w => w.reads c ()
  | .spawnRelease manifest manifestSha port, c, w =>
    match c with
    | .time now =>
      let (record, w') := w.spawn manifest manifestSha port now
      some (.ok record, w')
    | .fails why => some (.error why, w)
    | _ => none
  | .terminate _ _, c, w => w.tells c fun
      | .done => some ()
      | _ => none
  | .releaseLogs _, c, w => w.tells c fun
      | .logs stderr stdout => some (stderr, stdout)
      | _ => none
  | .askWall _, c, w => w.tells c fun
      | .wall v detail => some (v, detail)
      | _ => none
  | .auditTrail, c, w => w.reads c w.trail
  | .recordRetirement line, c, w => w.writes c { w with trail := w.trail ++ [line] }
  | .hostRoom, c, w => w.tells c fun
      | .room r => some r
      | _ => none
  | .publishStatus _, c, w => w.reads c ()
  | .now, c, w => w.tells c fun
      | .time t => some t
      | _ => none

def move (m : Move) (w : World) : Option World :=
  (w.table.move m).map fun t => { w with table := t }

/-- The processes a step's signals reach. -/
def reached {β : Type} (w : World) : Act β → List Process
  | .sweep known => w.table.procs.filter (w.leaked known)
  | .terminate _ record =>
    if w.table.pidAlive record.pid then
      -- the group, and the process itself when it leads no group
      match w.table.procs.filter fun q => q.group == record.pid with
      | [] => w.table.procs.filter fun q => q.pid == record.pid
      | group => group
    else []
  | _ => []

end World

def setting : Setting Act World Choice Move where
  perform := World.perform
  move := World.move

end Stado.Rollout
