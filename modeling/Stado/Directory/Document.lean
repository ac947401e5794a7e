import Stado.Directory.Texts
import Std.Data.TreeMap

/-!
# The registry document

The sections of the registry the service directory and release control read:
the directory and its routes, the targets with their resolver and their managed
records, the placement profiles and transactions, and the rollout policy. A
section is what its typed reader answers: absent, read, or refused with the
reader's cause.
-/

namespace Stado.Directory

open Std

/-- A map ordered by its keys. -/
abbrev Table (α : Type) := TreeMap String α

/-! ## The service directory -/

/-- How a route is checked against the world; `vantage` is its `from`. -/
structure VerifyDescriptor where
  kind : String
  vantage : String
  expect : String
deriving DecidableEq

/-- The deployable half of a declaration, as far as it is checked. -/
structure ServiceDeclaration where
  artifact : String
  sha256 : String
  program : Option String
  args : List String
  env : List String
deriving DecidableEq

structure ServiceEndpoint where
  url : String
  releaseId : Option String
  sourceRevision : Option String
  basePath : Option String
deriving DecidableEq

structure ServiceConsumer where
  capabilities : List String
deriving DecidableEq

structure ServiceRoute where
  placementProfile : Option String
  managedService : Option String
  activeHost : String
  endpoints : Table ServiceEndpoint
  standby : Table ServiceEndpoint
  consumers : Table ServiceConsumer
  verify : Option VerifyDescriptor
  declaration : Option ServiceDeclaration

structure ServiceAuthority where
  target : String
  command : String

structure ServiceDirectory where
  authority : ServiceAuthority
  generation : ℕ
  services : Table ServiceRoute

/-! ## Targets -/

structure ResolverAdapter where
  service : String
  bind : String
  consumer : String

structure ResolverConfig where
  apiBind : String
  refreshSeconds : ℕ
  maxStaleSeconds : ℕ
  adapters : List ResolverAdapter

structure SshConnectionPath where
  name : String
  destination : String
deriving DecidableEq

/-- What `ssh_fallbacks` holds: paths, or a value that does not read as paths,
which may still be a list with something in it. -/
inductive SshFallbacks where
  | paths (paths : List SshConnectionPath)
  | unread (listed : Bool) (cause : String)
deriving DecidableEq

/-- One element of `services`: the members of a managed record, each with the
text it holds, or a value that is no record. -/
structure ManagedRecord where
  name : Option String
  unit : Option String
  label : Option String
  path : Option String
  kind : Option String
  managedSince : Option String
  hostHeuristic : Option String
deriving DecidableEq

inductive Declared where
  | record (record : ManagedRecord)
  | other
deriving DecidableEq

/-- One target. Its `services` are absent, or no list, or a list of declared
services. -/
structure Target where
  name : Option String
  kind : Option String
  ssh : Option String
  sshFallbacks : Option SshFallbacks
  services : Option (Option (List Declared))
  serviceResolver : Except String (Option ResolverConfig)

def Target.records (target : Target) : List Declared := target.services.join.getD []

/-! ## Placement -/

inductive UnitKind where
  | launchd
  | systemd
deriving DecidableEq

structure ManagedPlacementUnit where
  unit : String
  path : String
  kind : UnitKind
deriving DecidableEq

inductive PlacementLifecycle where
  | managed (unit : ManagedPlacementUnit)
  | releaseControl (product : String)
deriving DecidableEq

structure PlacementUnit where
  name : String
  lifecycle : PlacementLifecycle
deriving DecidableEq

def PlacementUnit.managed (unit : PlacementUnit) : Option ManagedPlacementUnit :=
  match unit.lifecycle with
  | .managed managed => some managed
  | .releaseControl _ => none

def PlacementUnit.releaseControlled (unit : PlacementUnit) : Option String :=
  match unit.lifecycle with
  | .managed _ => none
  | .releaseControl product => some product

structure PlacementProbe where
  service : String
  url : String

structure PlacementHost where
  units : Table PlacementUnit
  probes : List PlacementProbe

structure PlacementProfile where
  name : String
  services : List String
  hosts : Table PlacementHost

structure PlacementTransaction where
  id : String
  profile : String
  fromHost : String
  toHost : String
  startedAt : String
deriving DecidableEq

/-! ## Release control -/

inductive StrategyKind where
  | blueGreen
  | replace
deriving DecidableEq

structure RolloutStrategy where
  kind : StrategyKind
  readinessTimeoutSeconds : ℕ
  drainTimeoutSeconds : ℕ
  rollbackWindowSeconds : ℕ

structure ReleaseArtifactRef where
  manifestUri : String
  signatureUri : String
  archiveUri : String
  manifestSha256 : String
  artifactSha256 : String
  keyId : String

structure DesiredRelease where
  version : String
  rolloutGeneration : ℕ
  artifacts : Table ReleaseArtifactRef

/-- One rollout target. A legacy launchd key may be present with `null`. -/
structure ReleaseTargetPolicy where
  platform : String
  runAsUser : String
  home : String
  stateDir : String
  runtimeRoot : String
  logsRoot : String
  stableBind : Option String
  candidatePorts : Option (ℕ × ℕ)
  readinessPath : Option String
  legacyLaunchdLabel : Option (Option String)
  legacyLaunchdPlist : Option (Option String)

structure ProductReleasePolicy where
  service : String
  configSchema : ℕ
  stateSchema : ℕ
  installRoot : String
  binary : String
  launcher : String
  binaryEnv : String
  portEnv : String
  runtimeEnv : String
  environment : Table String
  strategy : RolloutStrategy
  targets : Table ReleaseTargetPolicy
  desired : Option DesiredRelease
  previous : Option DesiredRelease

structure ReleaseControl where
  schemaVersion : ℕ
  generation : ℕ
  trustedKeys : Table String
  products : Table ProductReleasePolicy

structure BlueGreenServing where
  stableBind : String
  candidatePorts : ℕ × ℕ
  readinessPath : String

def ReleaseTargetPolicy.blueGreenServing (policy : ReleaseTargetPolicy) :
    Except String BlueGreenServing :=
  match policy.stableBind, policy.candidatePorts, policy.readinessPath with
  | some stableBind, some candidatePorts, some readinessPath =>
    .ok ⟨stableBind, candidatePorts, readinessPath⟩
  | _, _, _ =>
    .error "blue-green target must declare stable_bind, candidate_ports and readiness_path"

/-! ## The document and its typed reads -/

structure Document where
  serviceDirectory : Except String (Option ServiceDirectory)
  targets : Option (List Target)
  placementProfiles : Except String (List PlacementProfile)
  placementTransactions : Except String (List PlacementTransaction)
  releaseControl : Except String (Option ReleaseControl)

def directory (document : Document) : Except String (Option ServiceDirectory) :=
  document.serviceDirectory.mapError fun error => s!"registry.service_directory: {error}"

def profiles (document : Document) : Except String (List PlacementProfile) :=
  document.placementProfiles.mapError fun error => s!"registry.placement_profiles: {error}"

def transactions (document : Document) : Except String (List PlacementTransaction) :=
  document.placementTransactions.mapError fun error => s!"registry.placement_transactions: {error}"

def control (document : Document) : Except String (Option ReleaseControl) :=
  document.releaseControl.mapError fun error => s!"registry.release_control: {error}"

def insertTarget (table : Table Target) (entry : Target) : Table Target :=
  match entry.name with
  | some name => table.insert name entry
  | none => table

/-- The targets by name; the last one of a name stands. -/
def targetTable (entries : List Target) : Table Target := entries.foldl insertTarget ∅

def targets (document : Document) : Except String (Table Target) :=
  match document.targets with
  | none => .error "registry.targets: must be an array"
  | some entries => .ok (targetTable entries)

inductive Host where
  | ip (address : IpAddr)
  | domain (name : String)

/-- What the URL parser reads: the host as it is kind by kind and as text, and
the port with the default of its scheme. -/
structure Url where
  scheme : String
  username : String
  password : Option String
  query : Option String
  fragment : Option String
  path : String
  host : Option Host
  hostText : Option String
  port : Option ℕ

/-- The URL parser, the base64 decoder and the shipped service catalog, which
names the unit of a service. -/
structure Readers where
  url : String → Except String Url
  base64 : String → Option (List UInt8)
  catalogUnit : String → Except String (Option String)

/-- The socket an endpoint names, so that addresses both sides spell differently
compare as sockets. -/
def socketOf (lib : Readers) (url : String) : Option SocketAddr :=
  match lib.url url with
  | .error _ => none
  | .ok parsed => do
      let host ← parsed.hostText
      let port ← parsed.port
      listenerAddress host port

end Stado.Directory
