import Mathlib.Data.List.ReduceOption
import Mathlib.Data.List.Sort

/-!
# Rollout records

The state document a host keeps of one product's rollout, the process records
it names, and the digests the host refuses to roll out again, with why and with
what it takes to retire such a refusal.
-/

namespace Stado.Rollout

/-- Nanoseconds since the epoch. -/
abbrev Time := Nat

abbrev Port := Nat

abbrev Pid := Nat

abbrev Digest := String

/-- `signed_duration_since(..).num_seconds().max(0)`. -/
def secondsBetween (since now : Time) : Nat :=
  (now - since) / 1000000000

inductive RolloutPhase where
  | idle | downloaded | verified | staged | candidateRunning | ready | routed | monitoring
  | committed | rolledBack | failed | quarantined
deriving DecidableEq

/-! ## Why a release was refused -/

/-- The named cause behind one quarantine. -/
inductive QuarantineCause where
  | rollbackCompatibilityUndeclared | credentialStoreUnreadable | credentialCannotServe
  | capabilityRoutesUnmapped | capabilityRedemptionRefused | readinessProbeUnanswered
  | releaseProcessVanished | stableBindOccupied | unclassified
deriving DecidableEq

namespace QuarantineCause

def asStr : QuarantineCause → String
  | .rollbackCompatibilityUndeclared => "rollback_compatibility_undeclared"
  | .credentialStoreUnreadable => "credential_store_unreadable"
  | .credentialCannotServe => "credential_cannot_serve"
  | .capabilityRoutesUnmapped => "capability_routes_unmapped"
  | .capabilityRedemptionRefused => "capability_redemption_refused"
  | .readinessProbeUnanswered => "readiness_probe_unanswered"
  | .releaseProcessVanished => "release_process_vanished"
  | .stableBindOccupied => "stable_bind_occupied"
  | .unclassified => "unclassified"

def isClassified (cause : QuarantineCause) : Bool := cause != .unclassified

/-- The cause says something about the candidate itself, not about the host. -/
def holdsTheCandidate : QuarantineCause → Bool
  | .readinessProbeUnanswered | .releaseProcessVanished => false
  | _ => true

end QuarantineCause

/-- Why the agent gave up on a release: the sentence it composed and the cause
it observed. -/
structure Refusal where
  cause : QuarantineCause
  sentence : String
deriving DecidableEq

namespace Refusal

/-- The same cause with the sentence wrapped. -/
def context (why : Refusal) (wrap : String → String) : Refusal :=
  { why with sentence := wrap why.sentence }

/-- `From<String>`: the sentence alone. -/
def ofSentence (sentence : String) : Refusal := ⟨.unclassified, sentence⟩

end Refusal

structure Classification where
  cause : QuarantineCause
  evidence : String
deriving DecidableEq

/-- What the model takes from code it does not embed: how a cause is read out
of a product's own failure envelope, and which causes have a live check. -/
structure Causes where
  /-- `release_cause::classify`. -/
  classify : String → Classification
  /-- `release_cause::classify_observed`. -/
  classifyObserved : (body : String) → Classification → Classification
  /-- `Classification::observed`. -/
  observed : QuarantineCause → (sentence : String) → Classification
  /-- The arguments of `QuarantineCause::predicate`. -/
  predicate : QuarantineCause → (evidence : String) → Option (List String)
  /-- `QuarantineCause::remedy`. -/
  remedy : QuarantineCause → Option String

/-- One digest this host refuses to roll out again, and why. -/
structure QuarantineRecord where
  reason : String
  quarantinedAt : Time
  cause : QuarantineCause
  evidence : String
deriving DecidableEq

namespace QuarantineRecord

def classified (reason : String) (c : Classification) (now : Time) : QuarantineRecord :=
  ⟨reason, now, c.cause, c.evidence⟩

/-- One refusal from its sentence alone. -/
def new (causes : Causes) (reason : String) (now : Time) : QuarantineRecord :=
  classified reason (causes.classify reason) now

def observed (causes : Causes) (refusal : Refusal) (now : Time) : QuarantineRecord :=
  classified refusal.sentence (causes.observed refusal.cause refusal.sentence) now

/-- The named cause this record carries, derived from its reason when it has
none of its own. -/
def classification (causes : Causes) (record : QuarantineRecord) : Classification :=
  if record.cause.isClassified then ⟨record.cause, record.evidence⟩
  else causes.classify record.reason

end QuarantineRecord

/-! ## Quarantined digests -/

/-- `BTreeMap<String, QuarantineRecord>`: sorted by digest, each digest once. -/
abbrev Quarantined := List (Digest × QuarantineRecord)

namespace Quarantined

def containsKey (q : Quarantined) (digest : Digest) : Bool :=
  q.any fun entry => entry.1 == digest

def get (q : Quarantined) (digest : Digest) : Option QuarantineRecord :=
  (q.find? fun entry => entry.1 == digest).map (·.2)

def remove (q : Quarantined) (digest : Digest) : Quarantined :=
  q.filter fun entry => entry.1 != digest

def insert (q : Quarantined) (digest : Digest) (record : QuarantineRecord) : Quarantined :=
  (q.remove digest).orderedInsert (fun a b => a.1 ≤ b.1) (digest, record)

/-- `entry(..).or_insert_with(..)`. -/
def orInsert (q : Quarantined) (digest : Digest) (record : QuarantineRecord) : Quarantined :=
  if q.containsKey digest then q else q.insert digest record

variable {q : Quarantined} {digest other : Digest} {record : QuarantineRecord}

@[simp] theorem containsKey_remove :
    (q.remove digest).containsKey other = (q.containsKey other && other != digest) := by
  unfold containsKey remove
  rw [Bool.eq_iff_iff]
  simp only [List.any_eq_true, List.mem_filter, beq_iff_eq, bne_iff_ne, ne_eq, Bool.and_eq_true]
  constructor
  · rintro ⟨entry, ⟨hmem, hne⟩, rfl⟩
    exact ⟨⟨entry, hmem, rfl⟩, hne⟩
  · rintro ⟨⟨entry, hmem, rfl⟩, hne⟩
    exact ⟨entry, ⟨hmem, hne⟩, rfl⟩

@[simp] theorem containsKey_insert :
    (q.insert digest record).containsKey other = (other == digest || q.containsKey other) := by
  unfold insert containsKey
  rw [Bool.eq_iff_iff]
  simp only [List.any_eq_true, List.mem_orderedInsert, beq_iff_eq, Bool.or_eq_true, remove,
    List.mem_filter, bne_iff_ne, ne_eq]
  constructor
  · rintro ⟨entry, rfl | ⟨hmem, -⟩, rfl⟩
    · exact .inl rfl
    · exact .inr ⟨entry, hmem, rfl⟩
  · rintro (rfl | ⟨entry, hmem, rfl⟩)
    · exact ⟨(other, record), .inl rfl, rfl⟩
    · by_cases hne : entry.1 = digest
      · exact ⟨(digest, record), .inl rfl, hne.symm⟩
      · exact ⟨entry, .inr ⟨hmem, hne⟩, rfl⟩

end Quarantined

/-! ## The state document -/

/-- A release the agent started. Its launcher leads a process group of its own,
so `pid` names the group too. -/
structure ProcessRecord where
  version : String
  artifactSha256 : Digest
  manifestSha256 : Digest
  port : Port
  pid : Pid
  startedAt : Time
deriving DecidableEq

structure HostReleaseState where
  rolloutGeneration : Nat
  phase : RolloutPhase
  active : Option ProcessRecord
  previous : Option ProcessRecord
  candidate : Option ProcessRecord
  proxyPid : Option Pid
  cutoverAt : Option Time
  /-- When the active release first refused a readiness read that has not
  answered since. -/
  readinessLostAt : Option Time
  quarantined : Quarantined
  detail : String

namespace HostReleaseState

def new : HostReleaseState where
  rolloutGeneration := 0
  phase := .idle
  active := none
  previous := none
  candidate := none
  proxyPid := none
  cutoverAt := none
  readinessLostAt := none
  quarantined := []
  detail := ""

/-- The releases the document names. -/
def slots (state : HostReleaseState) : List ProcessRecord :=
  [state.active, state.candidate, state.previous].reduceOption

def ownershipEmpty (state : HostReleaseState) : Bool :=
  state.active.isNone && state.candidate.isNone && state.previous.isNone

/-- Whole seconds since the stable bind was routed to the active release; zero
without a cutover time. -/
def secondsSinceCutover (state : HostReleaseState) (now : Time) : Nat :=
  match state.cutoverAt with
  | some cutover => secondsBetween cutover now
  | none => 0

end HostReleaseState

/-- The words the agent appends to `detail` when nothing was spawned because a
foreign program holds the stable bind. -/
def noCandidateSpawned : String := "no candidate was spawned"

def contains (text words : String) : Bool :=
  text.toList.tails.any words.toList.isPrefixOf

/-! ## What a pass is given -/

structure ReleaseArtifactRef where
  manifestUri : String
  signatureUri : String
  archiveUri : String
  manifestSha256 : Digest
  artifactSha256 : Digest
  sourceRevision : String
  keyId : String

/-- The release the registry wants; `artifact` is the one for this host's
platform. -/
structure DesiredRelease where
  version : String
  rolloutGeneration : Nat
  artifact : Option ReleaseArtifactRef

structure RolloutStrategy where
  readinessTimeoutSeconds : Nat
  drainTimeoutSeconds : Nat
  rollbackWindowSeconds : Nat
  automaticRollback : Bool

/-- The product's release policy as one pass reads it. -/
structure ProductReleasePolicy where
  desired : Option DesiredRelease
  strategy : RolloutStrategy
  binary : String
  launcher : String
  configSchema : Nat
  stateSchema : Nat

/-- Where one product is served on one host. The registry refuses a target
whose candidate ports are the same port. -/
structure Target where
  product : String
  name : String
  platform : String
  stableBind : String
  bindPort : Port
  candidatePorts : Port × Port
  readinessPath : String
  legacyLaunchdPlist : Option String
  portsDistinct : candidatePorts.1 ≠ candidatePorts.2

inductive QualificationStatus where
  | pending | passed | failed
deriving DecidableEq

structure ReleaseManifest where
  product : String
  version : String
  platform : String
  sourceRevision : String
  artifactSha256 : Digest
  artifactBytes : Nat
  binary : String
  launcher : String
  configSchema : Nat
  stateSchema : Nat
  minimumStadoVersion : String
  rollbackCompatibleWith : List String
  qualification : QualificationStatus
  keyId : String

/-! ## Retiring a quarantine the host caused -/

/-- What the host had free, each reading absent when it could not be read. -/
structure HostRoom where
  availableMemoryBytes : Option Int
  freeDiskBytes : Option Int
deriving DecidableEq

namespace HostRoom

def more : Option Int → Option Int → Bool
  | some now, some past => decide (past < now)
  | _, _ => false

def exceeds (now before : HostRoom) : Bool :=
  more now.availableMemoryBytes before.availableMemoryBytes ||
    more now.freeDiskBytes before.freeDiskBytes

def larger : Option Int → Option Int → Option Int
  | some left, some right => some (max left right)
  | some only, none | none, some only => some only
  | none, none => none

def widest (left right : HostRoom) : HostRoom :=
  ⟨larger left.availableMemoryBytes right.availableMemoryBytes,
    larger left.freeDiskBytes right.freeDiskBytes⟩

end HostRoom

/-- Who holds a release's loopback ports, besides its own active process. -/
inductive PortsNow where
  | free
  | held (holder : String)
  | unread (why : String)
deriving DecidableEq

inductive RetireVerdict where
  | retire (cause : QuarantineCause)
  | candidateHeld (cause : QuarantineCause)
  | waiting (retiredAt : Time) (best now : HostRoom)
  | bindHeld (holder : String)
deriving DecidableEq

/-- The sentences of `RetireVerdict::detail`. -/
structure Sentences where
  rfc3339 : Time → String
  room : HostRoom → String

namespace RetireVerdict

def detail (say : Sentences) : RetireVerdict → String
  | .retire cause =>
    s!"desired release digest was quarantined for {cause.asStr}, a host condition; " ++
      "the agent retired that record and is rolling it out again"
  | .candidateHeld cause =>
    s!"desired release digest is quarantined on this host for {cause.asStr}; " ++
      "it names the candidate, so it is cleared with " ++
      "stado release quarantine clear --digest <digest> --reason <text>"
  | .waiting retiredAt best now =>
    "desired release digest is quarantined on this host; the agent last retried it at " ++
      s!"{say.rfc3339 retiredAt}, and its retries failed with up to {say.room best}; it " ++
      s!"retries once the host has more of either (now {say.room now})"
  | .bindHeld holder =>
    "desired release digest is quarantined on this host for stable_bind_occupied, and the " ++
      s!"release's ports are still taken ({holder}); the agent retires the record by itself " ++
      "once no other process listens on them. Name the holder with stado service serving " ++
      "<product> --host <host>"

def isRetire : RetireVerdict → Bool
  | .retire _ => true
  | _ => false

end RetireVerdict

/-- The decision itself: `previous` is when this digest was last retired
automatically and the most room any of its retirements had. -/
def retireVerdict (causes : Causes) (record : QuarantineRecord)
    (previous : Option (Time × HostRoom)) (now : HostRoom) (bindHeld : PortsNow) :
    RetireVerdict :=
  let cause := (record.classification causes).cause
  if cause = .stableBindOccupied then
    match bindHeld with
    | .free => .retire cause
    | .held holder => .bindHeld holder
    | .unread why => .bindHeld s!"who holds its ports could not be read: {why}"
  else if cause.holdsTheCandidate then .candidateHeld cause
  else
    match previous with
    | some (retiredAt, best) =>
      if now.exceeds best then .retire cause else .waiting retiredAt best now
    | none => .retire cause

/-- One line of the quarantine audit trail that this agent wrote. -/
structure Retirement where
  digest : Digest
  auditedAt : Time
  room : HostRoom

/-- When this digest was last retired, and the most room any of its retirements
recorded; nothing when no retirement of it recorded a reading. -/
def lastAutoRetirement (trail : List Retirement) (digest : Digest) : Option (Time × HostRoom) :=
  match trail.filter fun line => line.digest == digest with
  | [] => none
  | first :: rest =>
    let latest := rest.foldl (fun t line => max t line.auditedAt) first.auditedAt
    let best := rest.foldl (fun room line => room.widest line.room) first.room
    if best = ⟨none, none⟩ then none else some (latest, best)

/-! ## The latest run of one cause -/

/-- The latest consecutive quarantines sharing a classified cause. -/
structure CauseRun where
  cause : QuarantineCause
  evidence : String
  since : Time
  digests : List Digest

def causeRun (state : HostReleaseState) : Option CauseRun :=
  let recent := state.quarantined.insertionSort
    fun a b => b.2.quarantinedAt ≤ a.2.quarantinedAt
  match recent with
  | [] => none
  | (digest, newest) :: rest =>
    if newest.cause.isClassified then
      let run := (digest, newest) :: rest.takeWhile fun entry => entry.2.cause == newest.cause
      some {
        cause := newest.cause
        evidence := newest.evidence
        since := (run.getLast?.map (·.2.quarantinedAt)).getD newest.quarantinedAt
        digests := (state.quarantined.map (·.1)).filter fun digest =>
          run.any fun entry => entry.1 == digest }
    else none

inductive WallVerdict where
  | present | gone | unknown
deriving DecidableEq

inductive HoldGround where
  | observed (check detail : String) (readAt : Time)
  | recorded (count : Nat) (since : Time) (unreachable : Option String)

/-- A hold on the next candidate, with the ground it rests on. -/
structure CauseHold where
  cause : QuarantineCause
  evidence : String
  digests : List Digest
  ground : HoldGround

/-- Apply the cause's live verdict to its retained quarantine evidence. -/
def holdFor (causes : Causes) (run : CauseRun)
    (verdict : Option (WallVerdict × Option String)) (now : Time) : Option CauseHold :=
  let recorded (unreachable : Option String) : Option CauseHold :=
    some ⟨run.cause, run.evidence, run.digests, .recorded run.digests.length run.since unreachable⟩
  if run.cause.holdsTheCandidate then
    match verdict with
    | none => recorded none
    | some (.present, detail) =>
      let check := match causes.predicate run.cause run.evidence with
        | some args => "skarbiec " ++ " ".intercalate args
        | none => "skarbiec route verify"
      some ⟨run.cause, run.evidence, run.digests, .observed check (detail.getD run.evidence) now⟩
    | some (.gone, _) => none
    | some (.unknown, why) => recorded why
  else none

def CauseHold.sentence (causes : Causes) (say : Sentences) (hold : CauseHold) : String :=
  let ground := match hold.ground with
    | .observed check detail readAt =>
      s!"refusing to promote another candidate: {hold.cause.asStr} still refuses. Checked " ++
        s!"with `{check}` at {say.rfc3339 readAt}, which reported: {detail}."
    | .recorded count since unreachable =>
      s!"refusing to promote another candidate: {count} retained quarantines on this host " ++
        s!"record {hold.cause.asStr} since {say.rfc3339 since}; recovery has not been " ++
        s!"established. {hold.evidence}" ++
        match unreachable with
        | some why =>
          s!" The condition behind this cause could not be checked ({why}); the retained " ++
            "quarantine is not a fresh observation of that condition."
        | none => ""
  let remedy := match causes.remedy hold.cause with
    | some remedy => s!" Remedy: {remedy}."
    | none => ""
  let digest := hold.digests.head?.getD "<digest>"
  ground ++ remedy ++
    " Retire unresolved digests explicitly with: stado release quarantine clear <product> " ++
    s!"--target <target> --digest {digest} --reason <text>."

/-- The port the next candidate starts on; `occupied` is the proxy's upstream. -/
def nextPort (candidatePorts : Port × Port) (state : HostReleaseState)
    (occupied : Option Port) : Port :=
  match (state.active.map (·.port)).or occupied with
  | some port => if port = candidatePorts.1 then candidatePorts.2 else candidatePorts.1
  | none => candidatePorts.1

theorem nextPort_mem (ports : Port × Port) (state : HostReleaseState) (occupied : Option Port) :
    nextPort ports state occupied = ports.1 ∨ nextPort ports state occupied = ports.2 := by
  unfold nextPort
  split
  · split
    · exact .inr rfl
    · exact .inl rfl
  · exact .inl rfl

theorem nextPort_ne_active {T : Target} {state : HostReleaseState} {occupied : Option Port}
    {active : ProcessRecord} (hactive : state.active = some active) :
    nextPort T.candidatePorts state occupied ≠ active.port := by
  unfold nextPort
  rw [hactive]
  simp only [Option.map_some, Option.some_or]
  split
  · next h =>
    rw [h]
    exact T.portsDistinct.symm
  · next h => exact fun heq => h heq.symm

end Stado.Rollout
