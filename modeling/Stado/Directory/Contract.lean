import Stado.Directory.Document
import Stado.Library.Checks

/-!
# The service directory's contract

`validate_registry_contract` of `service_resolution`: the whole document is
read together, every service, route, consumer and resolver, and the ports a
resolver and a release claim on one host.
-/

namespace Stado.Directory

open Std Checks

variable (lib : Readers)

/-- Refuse with `refusal` where `found` holds. -/
def refuseIf (found : Bool) (refusal : String) : Except String Unit :=
  require (found = false) refusal

def validateIdentifier (value location : String) : Except String Unit :=
  require (lowercaseIdentifier value = true)
    s!"{location}: must be a lowercase identifier without empty edges"

/-! ## One route's descriptors -/

/-- The words this build answers to, as the refusal writes them. -/
def wordsText (known : List String) : String :=
  "[" ++ String.intercalate ", " (known.map fun word => "'" ++ word ++ "'") ++ "]"

def verifyProblem (location field value : String) (known : List String) : Option String :=
  if value ∈ known then none
  else
    let words := wordsText known
    some s!"{location}.verify.{field}: unknown value '{value}'; this build implements {words}"

def validateVerification (location : String) (descriptor : VerifyDescriptor) : List String :=
  [("kind", descriptor.kind, ["http", "tcp"]),
    ("from", descriptor.vantage, ["endpoint-holders", "active-host"]),
    ("expect", descriptor.expect, ["any-response"])].filterMap
      fun (field, value, known) => verifyProblem location field value known

def safeReference (value : String) : Bool :=
  !value.isEmpty && !isAbsolute value && !contains "..".toList value.toList &&
    !value.toList.any isControl

def safeHostPath (value : String) : Bool :=
  isAbsolute value && !contains "..".toList value.toList && !value.toList.any isControl

/-- Every problem with one declaration. -/
def validateDeclaration (location : String) (declaration : ServiceDeclaration) : List String :=
  let digest := !declaration.sha256.toList.any isUpper && sha256 declaration.sha256
  (if safeReference declaration.artifact then []
    else [s!"{location}.declaration.source.artifact: must be a non-empty reference without '..'"]) ++
  (if digest then []
    else [s!"{location}.declaration.source.sha256: must be one SHA-256 digest in lowercase hex"]) ++
  (if declaration.program.all safeHostPath then []
    else [s!"{location}.declaration.run.program: must be an absolute path without '..'"]) ++
  declaration.args.zipIdx.filterMap (fun (arg, index) =>
    if arg.toList.any isControl then
      some s!"{location}.declaration.run.args[{index}]: must not contain control characters"
    else none) ++
  declaration.env.filterMap fun key =>
    if key.isEmpty || key.toList.any isControl then
      some s!"{location}.declaration.run.env: keys must be non-empty without control characters"
    else none

def refuseProblems (problems : List String) : Except String Unit :=
  require (problems = []) (String.intercalate "; " problems)

/-! ## One target, one profile -/

/-- Whether a managed record carries a name under one of the keys a record may
carry its own name under. -/
def Declared.names (declared : Declared) (name : String) : Bool :=
  match declared with
  | .record managed =>
    managed.label == some name || managed.unit == some name || managed.name == some name
  | .other => false

/-- Whether `target` declares `service` under its own name or the unit the
service catalog gives it. -/
def targetDeclaresService (target : Target) (service : String) : Except String Bool := do
  let serviceText := debug service
  let catalogUnit ← (lib.catalogUnit service).mapError fun cause =>
    s!"the service catalog could not be read for {serviceText}, so whether a target " ++
      s!"declares it is unknown: {cause}"
  return target.records.any fun entry =>
    entry.names service || catalogUnit.any entry.names

def declaredOn (found : Option Target) (service : String) : Except String Bool :=
  match found with
  | some target => targetDeclaresService lib target service
  | none => .ok false

def activeHosts (profile : PlacementProfile) (service : String) (targetEntries : Table Target) :
    List (String × PlacementHost) → Except String (List String)
  | [] => .ok []
  | (host, hostProfile) :: later => do
      let profileText := debug profile.name
      let serviceText := debug service
      let hostText := debug host
      let unit ← orRefuse hostProfile.units[service]?
        s!"placement profile {profileText} has no unit for service {serviceText} on {hostText}"
      let declares ← declaredOn lib targetEntries[host]? unit.name
      let active ← activeHosts profile service targetEntries later
      return if declares then host :: active else active

def activeProfileHost (profile : PlacementProfile) (service : String)
    (targetEntries : Table Target) : Except String String := do
  let active ← activeHosts lib profile service targetEntries profile.hosts.toList
  let profileText := debug profile.name
  let serviceText := debug service
  match active with
  | [host] => return host
  | [] =>
    .error s!"placement profile {profileText} service {serviceText} has no active managed unit"
  | _ =>
    let hosts := String.intercalate ", " active
    .error (s!"placement profile {profileText} service {serviceText} has multiple active " ++
      s!"managed units: {hosts}")

/-- The release products a profile's hosts name for a service, and how many
hosts name one. -/
def releaseOwners (profile : PlacementProfile) (service : String) (product : Option String)
    (external : ℕ) : List (String × PlacementHost) → Except String (Option String × ℕ)
  | [] => .ok (product, external)
  | (host, hostProfile) :: later => do
      let profileText := debug profile.name
      let serviceText := debug service
      let hostText := debug host
      let unit ← orRefuse hostProfile.units[service]?
        s!"placement profile {profileText} has no unit for service {serviceText} on {hostText}"
      match unit.releaseControlled with
      | none => releaseOwners profile service product external later
      | some owner => do
          let unitText := debug unit.name
          let ownerText := debug owner
          require (unit.name = service)
            (s!"placement profile {profileText} release-controlled service {serviceText} must " ++
              s!"retain that exact logical name, not {unitText}")
          match product with
          | none => releaseOwners profile service (some owner) (external + 1) later
          | some existing => do
              let existingText := debug existing
              require (existing = owner)
                (s!"placement profile {profileText} service {serviceText} mixes release " ++
                  s!"products {existingText} and {ownerText}")
              releaseOwners profile service (some existing) (external + 1) later

def releaseControlledProduct (profile : PlacementProfile) (service : String) :
    Except String (Option String) := do
  let (product, external) ← releaseOwners profile service none 0 profile.hosts.toList
  let profileText := debug profile.name
  let serviceText := debug service
  if external = 0 then return none
  require (external = profile.hosts.toList.length)
    (s!"placement profile {profileText} service {serviceText} must be release-controlled in " ++
      "every host template or managed in every host template")
  return product

/-- A release-controlled route's product owns its service, keeps no launchd
restore fields, and binds where the route's endpoint and probe point. -/
def validateReleaseServing (document : Document) (profile : PlacementProfile) (service : String)
    (route : ServiceRoute) (product location : String) : Except String Unit := do
  let serviceText := debug service
  let productText := debug product
  let activeText := debug route.activeHost
  let found ← control document
  let control ← orRefuse found
    s!"{location}: release-controlled service requires release_control"
  let policy ← orRefuse control.products[product]?
    s!"{location}: release-control product {productText} is not declared"
  let ownedText := debug policy.service
  require (policy.service = service)
    (s!"{location}: release-control product {productText} owns logical service {ownedText}, not " ++
      s!"{serviceText}")
  each policy.targets.toList fun (target, releaseTarget) =>
    let targetText := debug target
    require (releaseTarget.legacyLaunchdLabel = none ∧ releaseTarget.legacyLaunchdPlist = none)
      (s!"{location}: release-controlled service {serviceText} must not retain legacy " ++
        s!"launchd restore fields on release target {targetText}")
  let targetPolicy ← orRefuse policy.targets[route.activeHost]?
    s!"{location}: release-control product {productText} has no target {activeText}"
  let serving ← targetPolicy.blueGreenServing.mapError fun error =>
    s!"{location}: release-controlled placement requires a blue-green target: {error}"
  let stableBind ← orRefuse (parseSocketAddr serving.stableBind)
    s!"{location}: invalid release stable_bind: invalid socket address syntax"
  let stableText := stableBind.display
  let endpoint ← orRefuse (route.endpoints[route.activeHost]?.bind fun endpoint =>
      socketOf lib endpoint.url)
    s!"{location}: active release-controlled host {activeText} has no usable endpoint"
  let endpointText := endpoint.display
  require (endpoint = stableBind)
    (s!"{location}: active endpoint {endpointText} must equal release-control stable_bind " ++
      s!"{stableText}")
  let probe ← orRefuse (do
      let host ← profile.hosts[route.activeHost]?
      let probe ← host.probes.find? (·.service = service)
      socketOf lib probe.url)
    s!"{location}: active release-controlled host {activeText} has no usable placement probe"
  let probeText := probe.display
  require (probe = stableBind)
    (s!"{location}: placement probe socket {probeText} must equal release-control stable_bind " ++
      s!"{stableText}")

/-- A release-controlled route: no target retains a managed record of it, and it
serves at its product's stable bind. -/
def validateReleaseControlledRoute (document : Document) (targetEntries : Table Target)
    (profile : PlacementProfile) (service : String) (route : ServiceRoute)
    (product location : String) : Except String Unit := do
  let serviceText := debug service
  each targetEntries.toList fun (host, target) => do
    let declares ← targetDeclaresService lib target service
    let hostText := debug host
    refuseIf declares
      (s!"{location}: release-controlled service {serviceText} must not retain a " ++
        s!"targets[].services[] lifecycle record on {hostText}")
  validateReleaseServing lib document profile service route product location

def validateEndpoint (endpoint : ServiceEndpoint) (location : String) : Except String Unit := do
  let url ← (lib.url endpoint.url).mapError fun error => s!"{location}.url: invalid URL: {error}"
  require (url.scheme = "http") s!"{location}.url: must use host-relative loopback HTTP"
  require (url.username = "" ∧ url.password = none ∧ url.query = none ∧ url.fragment = none)
    s!"{location}.url: must not contain credentials, query, or fragment"
  require (url.path = "/" ∨ url.path = "") s!"{location}.url: must be an origin without a path"
  let loopback := match url.host with
    | some (.ip address) => address.isLoopback
    | some (.domain _) => false
    | none => false
  require (loopback = true ∧ url.port ≠ none)
    s!"{location}.url: must use host-relative loopback with a known port"
  match endpoint.basePath with
  | none => .ok ()
  | some basePath =>
    let text := basePath.toList
    refuseIf (text.head? != some '/' || text.getLast? == some '/' ||
        contains "//".toList text || text.contains '?' || text.contains '#')
      s!"{location}.base_path: must be an absolute path with no trailing slash"

/-! ## Resolvers and the ports of a host -/

/-- A resolver's configuration: its binds are loopback sockets and no two are
written alike, and its adapters name routes that admit them. -/
def validateResolverConfig (targetName : String) (target : Target)
    (directory : ServiceDirectory) : Except String Unit := do
  let location := s!"registry.targets[{targetName}].service_resolver"
  let declared ← target.serviceResolver.mapError fun error => s!"{location}: {error}"
  match declared with
  | none => .ok ()
  | some config => do
      require (config.refreshSeconds ≠ 0) s!"{location}.refresh_seconds: must be positive"
      require (config.refreshSeconds ≤ config.maxStaleSeconds)
        s!"{location}.max_stale_seconds: must not be shorter than refresh_seconds"
      let api ← orRefuse (parseSocketAddr config.apiBind)
        s!"{location}.api_bind: must be an IP socket address: invalid socket address syntax"
      require (api.ip.isLoopback = true) s!"{location}.api_bind: must be loopback"
      fresh (fun (adapter, _) => adapter.bind)
        (fun (adapter, index) => do
          let adapterLocation := s!"{location}.adapters[{index}]"
          validateIdentifier adapter.service s!"{adapterLocation}.service"
          validateIdentifier adapter.consumer s!"{adapterLocation}.consumer"
          let bind ← orRefuse (parseSocketAddr adapter.bind)
            s!"{adapterLocation}.bind: must be an IP socket address"
          require (bind.ip.isLoopback = true) s!"{adapterLocation}.bind: must be loopback")
        (fun (adapter, index) => do
          let adapterLocation := s!"{location}.adapters[{index}]"
          let route ← orRefuse directory.services[adapter.service]?
            s!"{adapterLocation}.service: unknown logical service"
          require (adapter.consumer ∈ route.consumers)
            s!"{adapterLocation}.consumer: is not authorized by the service route")
        (fun (_, index) => s!"{location}.adapters[{index}].bind: duplicate resolver bind")
        [config.apiBind] config.adapters.zipIdx

/-- Claim a port, when there is one; a later claim of a port takes the place of
an earlier one. -/
def claimPort (claimed : TreeMap ℕ String) (port : Option ℕ) (claimant : String) :
    TreeMap ℕ String :=
  match port with
  | some port => claimed.insert port claimant
  | none => claimed

def claimedPorts (resolver : ResolverConfig) : TreeMap ℕ String :=
  let adapters := resolver.adapters.foldl (fun claimed adapter =>
    claimPort claimed (socketPort adapter.bind) ("resolver adapter " ++ adapter.service)) ∅
  claimPort adapters (socketPort resolver.apiBind) "resolver api_bind"

def releasePorts (release : ReleaseTargetPolicy) : List (ℕ × String) :=
  ((release.stableBind.bind socketPort).map fun port => (port, "stable_bind")).toList ++
    (match release.candidatePorts with
      | some (first, second) => [(first, "candidate port"), (second, "candidate port")]
      | none => [])

def refuseReleasePortCollisions (document : Document) (targetEntries : Table Target) :
    Except String Unit := do
  let found ← control document
  match found with
  | none => .ok ()
  | some control =>
    each targetEntries.toList fun (targetName, target) =>
      match target.serviceResolver with
      | .ok (some resolver) =>
        each control.products.toList fun (product, policy) =>
          match policy.targets[targetName]? with
          | none => .ok ()
          | some release =>
            each (releasePorts release) fun (port, what) =>
              match (claimedPorts resolver)[port]? with
              | none => .ok ()
              | some claimant => .error
                  (s!"registry.targets[{targetName}].service_resolver: {claimant} claims " ++
                    s!"loopback port {port}, which " ++
                    s!"registry.release_control.products.{product} declares as its {what} " ++
                    "on this host; one loopback port has one owner")
      | _ => .ok ()

/-! ## The whole document -/

def Target.hasPrimary (target : Target) : Bool :=
  target.ssh.any fun destination => trim destination != ""

def Target.hasFallback (target : Target) : Bool :=
  match target.sshFallbacks with
  | some (.paths paths) => !paths.isEmpty
  | some (.unread listed _) => listed
  | none => false

def validateAuthority (authority : ServiceAuthority) (targetEntries : Table Target) :
    Except String Unit := do
  let target ← orRefuse targetEntries[authority.target]?
    "registry.service_directory.authority.target: unknown registry target"
  require (isAbsolute authority.command = true ∧ authority.command.toList.any isControl = false ∧
      .parentDir ∉ components authority.command)
    "registry.service_directory.authority.command: must be an absolute path without '..'"
  require (target.hasPrimary = true ∨ target.hasFallback = true)
    "registry.service_directory.authority.target: must declare an SSH connection path"

def validateEndpoints (targetEntries : Table Target) (route : ServiceRoute) (location : String) :
    Except String Unit :=
  each route.endpoints.toList fun (host, endpoint) => do
    let target ← orRefuse targetEntries[host]? s!"{location}.endpoints.{host}: unknown registry target"
    validateEndpoint lib endpoint s!"{location}.endpoints.{host}"
    require (target.ssh ≠ none)
      s!"{location}.endpoints.{host}: remote resolution requires targets[].ssh"

/-- A standby address is checked for shape and for naming a real host that is
not the active one, and for nothing else. -/
def validateStandby (targetEntries : Table Target) (route : ServiceRoute) (location : String) :
    Except String Unit :=
  each route.standby.toList fun (host, endpoint) => do
    require (host ∈ targetEntries) s!"{location}.standby.{host}: unknown registry target"
    require (host ≠ route.activeHost)
      (s!"{location}.standby.{host}: is the active host, which serves rather than " ++ "stands by")
    validateEndpoint lib endpoint s!"{location}.standby.{host}"

def validateConsumers (route : ServiceRoute) (location : String) : Except String Unit :=
  each route.consumers.toList fun (consumer, policy) => do
    validateIdentifier consumer s!"{location}.consumers.{consumer}"
    fresh (fun (capability, _) => capability)
      (fun (capability, index) =>
        validateIdentifier capability s!"{location}.consumers.{consumer}.capabilities[{index}]")
      (fun _ => .ok ())
      (fun (_, index) =>
        s!"{location}.consumers.{consumer}.capabilities[{index}]: duplicate capability")
      [] policy.capabilities.zipIdx

/-- A placement-backed route: its hosts are its profile's, and it is active
where its managed unit is declared or serves at its release's stable bind. -/
def validatePlacedRoute (document : Document) (targetEntries : Table Target)
    (profiles : Table PlacementProfile) (profileName name : String) (route : ServiceRoute)
    (location : String) : Except String Unit := do
  require (route.managedService = none)
    (s!"{location}.managed_service: placement-backed routes derive their managed unit from " ++
      "the profile")
  let profile ← orRefuse profiles[profileName]?
    s!"{location}.placement_profile: unknown placement profile"
  require (name ∈ profile.services)
    s!"{location}.placement_profile: profile does not contain this service"
  let declared := route.endpoints.keys ++ route.standby.keys
  require ((∀ host ∈ declared, host ∈ profile.hosts) ∧ ∀ host ∈ profile.hosts.keys, host ∈ declared)
    (s!"{location}: endpoints and standby together must name every placement host exactly " ++
      "once")
  let product ← releaseControlledProduct profile name
  match product with
  | some product =>
    validateReleaseControlledRoute lib document targetEntries profile name route product location
  | none => do
      let declaredHost ← activeProfileHost lib profile name targetEntries
      let hostText := debug declaredHost
      require (route.activeHost = declaredHost)
        s!"{location}.active_host: must match the managed unit on {hostText}"

def validateFixedRoute (targetEntries : Table Target) (route : ServiceRoute) (location : String) :
    Except String Unit := do
  let managedService ← orRefuse route.managedService
    s!"{location}.managed_service: fixed routes must name their managed service"
  validateIdentifier managedService s!"{location}.managed_service"
  let target ← orRefuse targetEntries[route.activeHost]?
    s!"{location}.active_host: unknown registry target"
  let declares ← targetDeclaresService lib target managedService
  require (declares = true) s!"{location}.managed_service: is not declared on the active host"

def validateRoute (document : Document) (targetEntries : Table Target)
    (profiles : Table PlacementProfile) (name : String) (route : ServiceRoute) :
    Except String Unit := do
  let location := s!"registry.service_directory.services.{name}"
  validateIdentifier name location
  refuseProblems ((route.verify.map (validateVerification location)).getD [])
  refuseProblems ((route.declaration.map (validateDeclaration location)).getD [])
  require (route.activeHost ∈ targetEntries) s!"{location}.active_host: unknown registry target"
  require (route.endpoints.isEmpty = false) s!"{location}.endpoints: must not be empty"
  require (route.activeHost ∈ route.endpoints)
    s!"{location}.active_host: has no declared endpoint"
  validateEndpoints lib targetEntries route location
  validateStandby lib targetEntries route location
  require (route.consumers.isEmpty = false) s!"{location}.consumers: must not be empty"
  validateConsumers route location
  match route.placementProfile with
  | some profileName =>
    validatePlacedRoute lib document targetEntries profiles profileName name route location
  | none => validateFixedRoute lib targetEntries route location

def profilesByName (profiles : List PlacementProfile) : Table PlacementProfile :=
  profiles.foldl (fun table profile => table.insert profile.name profile) ∅

def validateProfiles (profiles : Table PlacementProfile) (directory : ServiceDirectory) :
    Except String Unit :=
  each profiles.toList fun (profileName, profile) =>
    each profile.services fun service => do
      let profileText := debug profileName
      let serviceText := debug service
      let route ← orRefuse directory.services[service]?
        (s!"registry.service_directory.services: placement profile {profileText} is missing " ++
          s!"service {serviceText}")
      require (route.placementProfile = some profileName)
        (s!"registry.service_directory.services.{service}.placement_profile: must be " ++
          s!"{profileText}")

/-- The optional service directory and the resolver of every host. A registry
that predates the directory stays readable. -/
def validateRegistryContract (document : Document) : Except String Unit := do
  let found ← directory document
  match found with
  | none => .ok ()
  | some directory => do
      require (directory.generation ≠ 0)
        "registry.service_directory.generation: must be positive"
      require (directory.services.isEmpty = false)
        "registry.service_directory.services: must not be empty"
      let targetEntries ← targets document
      validateAuthority directory.authority targetEntries
      let profiles ← profiles document
      let profiles := profilesByName profiles
      each directory.services.toList fun (name, route) =>
        validateRoute lib document targetEntries profiles name route
      validateProfiles profiles directory
      each targetEntries.toList fun (targetName, target) =>
        validateResolverConfig targetName target directory
      refuseReleasePortCollisions document targetEntries

end Stado.Directory
