import Mathlib.Algebra.Group.Nat.Defs
import Stado.Directory.Contract

/-!
# The registry change that places a profile on another host

`placed_on` moves each service's managed record from the source to the
destination, promotes the destination's standby addresses, and retargets the
profile's routes. A section that does not read fails at its first typed read.
-/

namespace Stado.Directory

open Std Checks

/-- A text as Python's `repr` writes it. -/
def pyRepr (text : String) : String :=
  let quote := if '\'' ∈ text.toList ∧ '"' ∉ text.toList then '"' else '\''
  let escaped (c : Char) : List Char :=
    if c = '\\' then ['\\', '\\']
    else if c = '\n' then ['\\', 'n']
    else if c = '\r' then ['\\', 'r']
    else if c = '\t' then ['\\', 't']
    else if c = quote then ['\\', c]
    else if c.toNat < 0x20 ∨ c.toNat = 0x7f then
      ['\\', 'x'] ++ (if c.toNat < 0x10 then ['0'] else []) ++ Nat.toDigits 16 c.toNat
    else [c]
  String.ofList (quote :: text.toList.flatMap escaped ++ [quote])

/-! ## Managed records -/

/-- `from_record` and `matches`: the logical name or the host's own name for the
unit. A record without a name goes by its label, and one without a label by its
unit. -/
def Declared.goesBy (declared : Declared) (query : String) : Bool :=
  match declared with
  | .other => false
  | .record managed =>
    let label := managed.label.getD ""
    let unitId := if label = "" then managed.unit.getD "" else label
    let name := managed.name.getD ""
    let name := if name = "" then unitId else name
    name == query || unitId == query

def destinationRecord (hostHeuristic : Option String) (spec : PlacementUnit)
    (unit : ManagedPlacementUnit) (managedSince : String) : ManagedRecord where
  name := some spec.name
  unit := some (match unit.kind with | .launchd => "" | .systemd => unit.unit)
  label := some (match unit.kind with | .launchd => unit.unit | .systemd => "")
  path := some unit.path
  kind := some (match unit.kind with | .launchd => "launchd" | .systemd => "systemd")
  managedSince := some managedSince
  hostHeuristic := hostHeuristic

def withEntry (host : String) (change : Target → Except String Target) :
    List Target → Except String (List Target)
  | [] =>
    let hostText := pyRepr host
    .error s!"target {hostText} is not in the canonical registry"
  | entry :: later =>
    if entry.name = some host then do
      let hostText := pyRepr host
      require (entry.kind = some "local") s!"target {hostText} is not a local host"
      let changed ← change entry
      return changed :: later
    else do
      let later ← withEntry host change later
      return entry :: later

def withTarget (document : Document) (host : String) (change : Target → Except String Target) :
    Except String Document := do
  let entries ← orRefuse document.targets "registry.targets: must be an array"
  let entries ← withEntry host change entries
  return { document with targets := some entries }

/-- What `services` holds when these records are left: the last one off takes the
key with it. -/
def kept (remaining : List Declared) : Option (Option (List Declared)) :=
  if remaining = [] then none else some (some remaining)

/-- Take the first record that goes by `unit` off a target. -/
def takeRecord (host unit : String) (target : Target) : Except String Target := do
  let hostText := pyRepr host
  let unitText := pyRepr unit
  let declared ← orRefuse target.services.join s!"{hostText} declares no managed services"
  require (declared.any (·.goesBy unit) = true)
    s!"{unitText} is not a registry-managed service on {hostText}"
  return { target with services := kept (declared.eraseP (·.goesBy unit)) }

def removeService (document : Document) (host unit : String) : Except String Document :=
  withTarget document host (takeRecord host unit)

def putRecord (host unit name : String) (record : ManagedRecord) (target : Target) :
    Except String Target := do
  let hostText := pyRepr host
  let unitText := pyRepr unit
  let declared ← orRefuse (target.services.getD (some []))
    s!"registry target {hostText} has a non-array services key"
  require (declared.any (fun entry => entry.goesBy unit || entry.goesBy name) = false)
    s!"the registry already manages {unitText} on {hostText}"
  return { target with services := some (some (declared ++ [.record record])) }

def addService (document : Document) (host : String) (unit : ManagedPlacementUnit)
    (spec : PlacementUnit) (record : ManagedRecord) : Except String Document :=
  withTarget document host (putRecord host unit.unit spec.name record)

/-- Give a route an endpoint on the destination: its own, or its standby address
there, which is moved. -/
def promoteRoute (profile destination name : String) (route : ServiceRoute) :
    Except String ServiceRoute :=
  if route.placementProfile ≠ some profile then .ok route
  else if destination ∈ route.endpoints then .ok route
  else
    match route.standby[destination]? with
    | none => .error
        (s!"directory service {name} names {destination} neither as an endpoint nor as a " ++
          "standby, so after the move no host could reach it there; run stado placement " ++
          s!"standby {profile} --host {destination} first")
    | some address => .ok { route with
        standby := route.standby.erase destination
        endpoints := route.endpoints.insert destination address }

def withDirectory (document : Document)
    (change : ServiceDirectory → Except String ServiceDirectory) : Except String Document := do
  let found ← document.serviceDirectory.mapError fun error => s!"registry.service_directory: {error}"
  match found with
  | none => return document
  | some directory => do
      let changed ← change directory
      return { document with serviceDirectory := .ok (some changed) }

def promoteStandby (document : Document) (profile destination : String) : Except String Document :=
  withDirectory document fun directory => do
    let services ← rewriteTable (promoteRoute profile destination) directory.services
    return { directory with services := services }

def u64Max : ℕ := 2 ^ 64 - 1

def retargetRoute (profile destination _name : String) (route : ServiceRoute) :
    Except String ServiceRoute := do
  let profileText := debug profile
  let destinationText := debug destination
  if route.placementProfile ≠ some profile then return route
  require (destination ∈ route.endpoints)
    s!"service route for profile {profileText} has no endpoint on {destinationText}"
  return { route with activeHost := destination }

/-- Retarget a profile's routes; the generation advances once when one of them
was active elsewhere, however many there are. -/
def retargetProfile (document : Document) (profile destination : String) :
    Except String Document :=
  withDirectory document fun directory => do
    let services ← rewriteTable (retargetRoute profile destination) directory.services
    if directory.services.toList.any fun (_, route) =>
        route.placementProfile == some profile && route.activeHost != destination then do
      require (directory.generation < u64Max) "registry.service_directory.generation overflow"
      return { directory with generation := directory.generation + 1, services := services }
    else return directory

/-! ## The move -/

def profileHost (profile : PlacementProfile) (host : String) : Except String PlacementHost :=
  let profileText := debug profile.name
  let hostText := debug host
  let name := profile.name
  orRefuse profile.hosts[host]?
    (s!"placement profile {profileText} does not support destination {hostText}; prepare it " ++
      s!"with stado placement standby {name} --host {host} --reason <why>")

def unitOf (host : PlacementHost) (logical : String) : Except String PlacementUnit :=
  let logicalText := debug logical
  orRefuse host.units[logical]?
    s!"placement profile has no concrete unit for service {logicalText}"

def managedUnit (unit : PlacementUnit) : Except String ManagedPlacementUnit :=
  let nameText := debug unit.name
  match unit.lifecycle with
  | .managed managed => .ok managed
  | .releaseControl product =>
    let productText := debug product
    .error (s!"release-controlled placement member {nameText} for product {productText} is " ++
      "owned by controller \"release-control\"; placement lifecycle mutation is forbidden")

def moveRecords (sourceProfile destinationProfile : PlacementHost)
    (source destination : String) (hostHeuristic : Option String) (managedSince : String) :
    List String → Document → Except String Document
  | [], document => .ok document
  | logical :: later, document => do
      let sourceSpec ← unitOf sourceProfile logical
      let sourceUnit ← managedUnit sourceSpec
      let document ← removeService document source sourceUnit.unit
      let spec ← unitOf destinationProfile logical
      let unit ← managedUnit spec
      let document ← addService document destination unit spec
        (destinationRecord hostHeuristic spec unit managedSince)
      moveRecords sourceProfile destinationProfile source destination hostHeuristic managedSince
        later document

/-- `document` with `profile` placed on `destination` instead of `source`. -/
def placedOn (document : Document) (profile : PlacementProfile) (source destination : String)
    (hostHeuristic : Option String) (managedSince : String) : Except String Document := do
  let sourceProfile ← profileHost profile source
  let destinationProfile ← profileHost profile destination
  let document ← moveRecords sourceProfile destinationProfile source destination hostHeuristic
    managedSince profile.services document
  let document ← promoteStandby document profile.name destination
  retargetProfile document profile.name destination

end Stado.Directory
