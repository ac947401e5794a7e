import Stado.Directory.Contract

/-!
# The rollout policy's contract, and resolution

`validate_registry_contract` of `release_control` holds trusted keys, products,
their targets and their desired releases to their shapes. `resolve` answers one
service for one consumer from a document.
-/

namespace Stado.Directory

open Std Checks

variable (lib : Readers)

/-! ## Release control -/

def parentAndName (path : String) : Option (List Component × String) :=
  match (components path).getLast? with
  | some (.normal name) => some ((components path).dropLast, name)
  | _ => none

def stemAndExtension (name : String) : String × Option String :=
  match rsplitOnce '.' name.toList with
  | none => (name, none)
  | some (before, after) =>
    if before = [] then (name, none) else (String.ofList before, some (String.ofList after))

def validLegacyLaunchdUnit (label plist : String) : Bool :=
  let shaped := label.toList.all fun c => isAlphanumeric c || c == '.' || c == '-' || c == '_'
  match parentAndName plist with
  | none => false
  | some (parent, name) =>
    !label.isEmpty && shaped && parent == components "/Library/LaunchDaemons" &&
      stemAndExtension name == (label, some "plist")

def defaultReplaceReadinessPath : String := "/healthz"

/-- The loopback address candidates are started and probed on. -/
def candidateIp : IpAddr := .v4 127 0 0 1

def readinessPathOf (strategy : StrategyKind) (policy : ReleaseTargetPolicy) (location : String) :
    Except String String :=
  match strategy with
  | .replace => .ok (policy.readinessPath.getD defaultReplaceReadinessPath)
  | .blueGreen =>
    orRefuse policy.readinessPath s!"{location}: blue-green rollout requires readiness_path"

/-- The serving coordinates a blue-green target declares and a replace target
must not declare. -/
def servingOf (strategy : StrategyKind) (policy : ReleaseTargetPolicy) (location : String) :
    Except String (Option BlueGreenServing) :=
  match strategy with
  | .blueGreen =>
    (policy.blueGreenServing.map some).mapError fun _ =>
      s!"{location}: blue-green rollout requires stable_bind, candidate_ports and readiness_path"
  | .replace =>
    if policy.stableBind = none ∧ policy.candidatePorts = none then .ok none
    else .error s!"{location}: replace rollout forbids stable_bind and candidate_ports"

def validateLegacyUnit (policy : ReleaseTargetPolicy) (location : String) : Except String Unit :=
  match policy.legacyLaunchdLabel.join, policy.legacyLaunchdPlist.join with
  | none, none => .ok ()
  | some label, some plist =>
    require (validLegacyLaunchdUnit label plist = true)
      s!"{location}: invalid legacy launchd label or path"
  | _, _ => .error s!"{location}: legacy launchd label and plist must be declared together"

/-- A stable bind is a loopback socket, and its port and the candidates' are
three ports. -/
def validateServing (serving : BlueGreenServing) (location : String) : Except String Unit := do
  let bind ← orRefuse (parseSocketAddr serving.stableBind)
    s!"{location}.stable_bind is not a socket address"
  let (first, second) := serving.candidatePorts
  require (bind.ip.isLoopback = true ∧ first ≠ second ∧ bind.port ≠ first ∧ bind.port ≠ second)
    s!"{location}: blue-green ports are invalid"

def validateReleaseTarget (strategy : StrategyKind) (targetNames : List String) (target : String)
    (policy : ReleaseTargetPolicy) (product : String) : Except String Unit := do
  let location := s!"registry.release_control.products.{product}.targets.{target}"
  require (target ∈ targetNames) s!"{location}: unknown target"
  let readinessPath ← readinessPathOf strategy policy location
  let serving ← servingOf strategy policy location
  require (identifier policy.platform = true ∧ identifier policy.runAsUser = true ∧
      safeAbsolute policy.home = true ∧ safeAbsolute policy.stateDir = true ∧
      safeAbsolute policy.runtimeRoot = true ∧ safeAbsolute policy.logsRoot = true ∧
      policy.legacyLaunchdPlist.join.all safeAbsolute = true ∧
      readinessPath.toList.head? = some '/' ∧ contains "..".toList readinessPath.toList = false)
    s!"{location}: invalid platform, identity, path, or readiness path"
  validateLegacyUnit policy location
  match serving with
  | none => .ok ()
  | some serving => validateServing serving location

/-- A desired release names, for every platform of its targets, artifacts under
its own coordinate, signed by a trusted key. -/
def validateDesired (trustedKeys : Table String) (platforms : List String) (product : String)
    (desired : DesiredRelease) : Except String Unit := do
  let location := s!"registry.release_control.products.{product}"
  require (canonicalCoordinate desired.version = true ∧ desired.rolloutGeneration ≠ 0)
    s!"{location}.desired release coordinate or generation is invalid"
  each platforms fun platform => do
    let artifact ← orRefuse desired.artifacts[platform]?
      s!"{location}.desired.artifacts: missing platform {platform}"
    let version := desired.version
    let coordinate := s!"stado://releases/{product}/{version}/{platform}/"
    each [artifact.manifestUri, artifact.signatureUri, artifact.archiveUri] fun uri =>
      require (coordinate.toList.isPrefixOf uri.toList = true)
        s!"{location}.desired artifact URI is outside its immutable coordinate"
    require (sha256 artifact.manifestSha256 = true ∧ sha256 artifact.artifactSha256 = true ∧
        artifact.keyId ∈ trustedKeys)
      s!"{location}.desired artifact trust metadata is invalid"

def platformsOf (policy : ProductReleasePolicy) : List String :=
  (policy.targets.toList.foldl (fun (platforms : Table Unit) (_, target) =>
    platforms.insert target.platform ()) ∅).keys

def validateProduct (control : ReleaseControl) (targetNames : List String)
    (services : Table ServiceRoute) (product : String) (policy : ProductReleasePolicy) :
    Except String Unit := do
  let location := s!"registry.release_control.products.{product}"
  require (identifier product = true ∧ policy.service ∈ services)
    s!"{location}: product or logical service is invalid"
  require (policy.configSchema ≠ 0 ∧ policy.stateSchema ≠ 0 ∧
      safeInstallRoot policy.installRoot = true ∧ safeRelative policy.binary = true ∧
      safeRelative policy.launcher = true ∧ envName policy.binaryEnv = true ∧
      envName policy.portEnv = true ∧ envName policy.runtimeEnv = true)
    s!"{location}: paths or environment variable names are invalid"
  require (policy.targets.isEmpty = false) s!"{location}.targets must not be empty"
  require (policy.strategy.readinessTimeoutSeconds ≠ 0 ∧ policy.strategy.drainTimeoutSeconds ≠ 0 ∧
      policy.strategy.drainTimeoutSeconds ≤ policy.strategy.rollbackWindowSeconds)
    s!"{location}.strategy has invalid time bounds"
  each policy.environment.toList fun (name, value) =>
    require (envName name = true ∧ value ≠ "" ∧ value.toList.any isControl = false)
      s!"{location}.environment.{name} is invalid"
  each policy.targets.toList fun (target, targetPolicy) =>
    validateReleaseTarget policy.strategy.kind targetNames target targetPolicy product
  each (policy.desired.toList ++ policy.previous.toList) fun desired =>
    validateDesired control.trustedKeys (platformsOf policy) product desired

/-- The optional rollout policy: what a release may be delivered with and to. -/
def validateReleaseControl (document : Document) : Except String Unit := do
  let found ← control document
  match found with
  | none => .ok ()
  | some control => do
      require (control.schemaVersion = 1) "registry.release_control.schema_version must be 1"
      require (control.generation ≠ 0) "registry.release_control.generation must be positive"
      require (control.products.isEmpty = false ∨ control.trustedKeys.isEmpty = false)
        "registry.release_control must declare trusted_keys or products"
      each control.trustedKeys.toList fun (keyId, publicKey) =>
        require (identifier keyId = true ∧ (lib.base64 publicKey).map List.length = some 32)
          s!"registry.release_control.trusted_keys.{keyId} is not an Ed25519 public key"
      let entries ← orRefuse document.targets "registry.targets must be an array"
      let found ← directory document
      let services := (found.map ServiceDirectory.services).getD ∅
      each control.products.toList fun (product, policy) =>
        validateProduct control (entries.filterMap Target.name) services product policy

/-! ## Resolution -/

structure ResolvedService where
  name : String
  generation : ℕ
  activeHost : String
  endpoint : ServiceEndpoint
  ssh : Option String
  sshFallbacks : List SshConnectionPath
  capabilities : List String
deriving DecidableEq

/-- Why a consumer gets no route to a service. -/
inductive ResolveError where
  | declaration (detail : String)
  | unknownService (service : String)
  | unauthorized (service consumer : String)
  | moving (service : String) (transaction : PlacementTransaction)
deriving DecidableEq

/-- The fleet vault, which resolves while its own move is open. -/
def vaultService : String := "skarbiec"

/-- The placement transaction holding `profile`, if one does. -/
def holdingTransaction (document : Document) (profile : String) :
    Except String (Option PlacementTransaction) := do
  let transactions ← transactions document
  return transactions.find? (·.profile = profile)

def refuseMoving (document : Document) (service : String) (route : ServiceRoute) :
    Except ResolveError Unit :=
  match route.placementProfile with
  | none => .ok ()
  | some profile =>
    if service = vaultService then .ok ()
    else do
      let held ← (holdingTransaction document profile).mapError ResolveError.declaration
      match held with
      | some transaction => .error (.moving service transaction)
      | none => .ok ()

/-- The SSH fallbacks of a target: a target that declares none has none, and a
value that does not read as paths is refused with its cause. -/
def fallbackPaths (service : String) (target : Target) :
    Except ResolveError (List SshConnectionPath) :=
  let serviceText := debug service
  match target.sshFallbacks with
  | none => .ok []
  | some (.paths paths) => .ok paths
  | some (.unread _ cause) =>
    .error (.declaration s!"service {serviceText} has invalid SSH fallback paths: {cause}")

/-- Resolve a logical service for one workload identity. -/
def resolve (document : Document) (service consumer : String) :
    Except ResolveError ResolvedService := do
  let found ← (directory document).mapError ResolveError.declaration
  let directory ← orRefuse found
    (.declaration "registry.service_directory: is required for resolution")
  let serviceText := debug service
  let route ← orRefuse directory.services[service]? (.unknownService service)
  let policy ← orRefuse route.consumers[consumer]? (.unauthorized service consumer)
  refuseMoving document service route
  let endpoint ← orRefuse route.endpoints[route.activeHost]?
    (.declaration s!"service {serviceText} has no endpoint on its active host")
  let targetEntries ← (targets document).mapError ResolveError.declaration
  let target ← orRefuse targetEntries[route.activeHost]?
    (.declaration s!"service {serviceText} references an unknown active host")
  let sshFallbacks ← fallbackPaths service target
  return {
    name := service
    generation := directory.generation
    activeHost := route.activeHost
    endpoint := endpoint
    ssh := target.ssh
    sshFallbacks := sshFallbacks
    capabilities := policy.capabilities }

end Stado.Directory
