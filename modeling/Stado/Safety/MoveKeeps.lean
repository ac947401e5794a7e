import Mathlib.Data.List.Forall2
import Stado.Directory.PlacedSpecs

/-!
# A committed move keeps the directory valid

Placing a managed profile on another host writes a document that is accepted and
says what a move means, exactly when the two targets can exchange the profile's
records and no one else reads a name that goes or comes, the destination's
addresses can be called once they are promoted, and the generation can advance.
-/

namespace Stado.Directory

open Std Checks List Option TreeMap Declared

/-! ## What a move promises -/

def memberRecord (host : PlacementHost) (services : List String) (entry : Declared) : Bool :=
  (members host services).any fun (spec, unit) => entry.goesBy unit.unit || entry.goesBy spec.name

/-- A target keeps everything but the profile's records, and one that is neither
the source nor the destination keeps everything. -/
structure EntryKept (member : Declared → Bool) (source destination : String)
    (entry entry' : Target) : Prop where
  bare : entry'.bare = entry.bare
  elsewhere : entry.name ≠ some source → entry.name ≠ some destination → entry' = entry
  others : entry'.records.filter (!member ·) = entry.records.filter (!member ·)

/-- A route of the profile after the move: active on the destination with the
address the old one named there, with an address on the source, and otherwise as
it was. -/
structure RouteMoved (source destination : String) (route route' : ServiceRoute) : Prop where
  active : route'.activeHost = destination
  address : route'.endpoints[destination]? =
    route.endpoints[destination]?.or route.standby[destination]?
  reachable : destination ∈ route'.endpoints
  source : source ∈ route'.endpoints ∨ source ∈ route'.standby
  consumers : route'.consumers = route.consumers
  elsewhere : ∀ host : String, host ≠ destination →
    route'.endpoints[host]? = route.endpoints[host]? ∧ route'.standby[host]? = route.standby[host]?

structure Moved (document document' : Document) (profile : PlacementProfile)
    (sourceProfile destinationProfile : PlacementHost) (source destination : String)
    (directory directory' : ServiceDirectory) (entries entries' : List Target) : Prop where
  before : document.serviceDirectory = .ok (some directory)
  after : document'.serviceDirectory = .ok (some directory')
  generation : directory'.generation = directory.generation + 1
  routes : ∀ service ∈ profile.services, ∃ route route',
    directory.services[service]? = some route ∧ directory'.services[service]? = some route' ∧
      RouteMoved source destination route route'
  otherRoutes : ∀ service : String, service ∉ profile.services →
    directory'.services[service]? = directory.services[service]?
  targets : document.targets = some entries
  targets' : document'.targets = some entries'
  records : List.Forall₂ (EntryKept (fun entry => memberRecord sourceProfile profile.services entry ||
    memberRecord destinationProfile profile.services entry) source destination) entries entries'
  profiles : document'.placementProfiles = document.placementProfiles
  transactions : document'.placementTransactions = document.placementTransactions
  control : document'.releaseControl = document.releaseControl

/-- The move succeeds, and what it writes is accepted and says what a move means. -/
def KeepsDirectory (lib : Readers) (document : Document) (profile : PlacementProfile)
    (sourceProfile destinationProfile : PlacementHost) (source destination : String)
    (hostHeuristic : Option String) (managedSince : String) : Prop :=
  ∃ document', placedOn document profile source destination hostHeuristic managedSince =
      .ok document' ∧
    validateRegistryContract lib document' = .ok () ∧
    ∃ directory directory' entries entries', Moved document document' profile sourceProfile
      destinationProfile source destination directory directory' entries entries'

/-- An accepted document, a managed profile of it, and two of its hosts, with the
profile active on the first. -/
structure ActiveOn (lib : Readers) (document : Document) (profiles : List PlacementProfile)
    (profile : PlacementProfile) (sourceProfile destinationProfile : PlacementHost)
    (source destination : String) : Prop where
  accepted : validateRegistryContract lib document = .ok ()
  placements : document.placementProfiles = .ok profiles
  declared : (profilesByName profiles)[profile.name]? = some profile
  managed : ∀ (host : String) (hostProfile : PlacementHost), profile.hosts[host]? = some hostProfile →
    ∀ (logical : String) (unit : PlacementUnit), hostProfile.units[logical]? = some unit →
      unit.releaseControlled = none
  atSource : profile.hosts[source]? = some sourceProfile
  atDestination : profile.hosts[destination]? = some destinationProfile
  active : ∀ directory, document.serviceDirectory = .ok (some directory) →
    ∀ service ∈ profile.services, ∀ route : ServiceRoute,
      directory.services[service]? = some route → route.activeHost = source

def OtherReads (directory : ServiceDirectory) (profiles : Table PlacementProfile)
    (profile : PlacementProfile) (host name : String) : Prop :=
  ∃ (service : String) (route : ServiceRoute), directory.services[service]? = some route ∧
    route.placementProfile ≠ some profile.name ∧ ReadsName profiles service route host name

/-- The two hosts can exchange the profile. The source, the one local target of
its name, has records for the members' units; what is left of it declares none of
their names and every name another route reads there. The destination, the one
local target of its name, has no record that goes by what arrives; what arrives
declares no name another route reads there, unless it was declared before. Each
route has one address on the destination, and one that is promoted is on a host
with an SSH destination. -/
structure Exchangeable (lib : Readers) (directory : ServiceDirectory)
    (profiles : Table PlacementProfile) (profile : PlacementProfile)
    (sourceProfile destinationProfile : PlacementHost) (source destination : String)
    (hostHeuristic : Option String) (managedSince : String) (entries : List Target)
    (src dst : Target) (left : List Declared) : Prop where
  apart : source ≠ destination
  serves : profile.services ≠ []
  bounded : directory.generation < u64Max
  soleSource : named source entries = [src]
  sourceLocal : src.kind = some "local"
  soleDestination : named destination entries = [dst]
  destinationLocal : dst.kind = some "local"
  array : dst.services ≠ some none
  unclaimed : Unclaimed hostHeuristic managedSince dst.records
    (members destinationProfile profile.services)
  withdrawn : withdrawn ((members sourceProfile profile.services).map (·.2.unit)) src.records =
    some left
  gone : ∀ service ∈ profile.services, ∀ unit, sourceProfile.units[service]? = some unit →
    declares lib left unit.name = false
  keeps : ∀ name, OtherReads directory profiles profile source name →
    declares lib src.records name = true → declares lib left name = true
  adds : ∀ name, OtherReads directory profiles profile destination name →
    declares lib (arriving hostHeuristic managedSince
      (members destinationProfile profile.services)) name = true →
        declares lib dst.records name = true
  addresses : ∀ service ∈ profile.services, ∀ route : ServiceRoute,
    directory.services[service]? = some route →
      (destination ∈ route.endpoints → destination ∉ route.standby) ∧
        (destination ∉ route.endpoints → dst.ssh ≠ none)

/-- The condition under which a move keeps the directory. -/
def Movable (lib : Readers) (document : Document) (profiles : Table PlacementProfile)
    (profile : PlacementProfile) (sourceProfile destinationProfile : PlacementHost)
    (source destination : String) (hostHeuristic : Option String) (managedSince : String) : Prop :=
  ∃ directory entries src dst left, document.serviceDirectory = .ok (some directory) ∧
    document.targets = some entries ∧
    Exchangeable lib directory profiles profile sourceProfile destinationProfile source destination
      hostHeuristic managedSince entries src dst left

/-! ## Targets after the move -/

section Targets

variable {source destination : String} {entries : List Target} {src dst src' dst' : Target}
  {host : String} {entry changed : Target}

theorem map_bare_replaceFirst
    (hentry : (named host entries).head? = some entry) (hbare : changed.bare = entry.bare) :
    (replaceFirst host changed entries).map Target.bare = entries.map Target.bare := by
  induction entries with
  | nil => rfl
  | cons first later ih =>
    by_cases hfirst : first.name = some host
    · have heq : first = entry := by simpa [named, hfirst] using hentry
      rw [replaceFirst, if_pos hfirst, map_cons, map_cons, hbare, heq]
    · have hlater : (named host later).head? = some entry := by
        simpa [named, hfirst] using hentry
      simp [replaceFirst, hfirst, ih hlater]

theorem map_bare_named (host : String) (entries : List Target) :
    (named host entries).map Target.bare =
      (entries.map Target.bare).filter fun entry => entry.name = some host := by
  rw [List.filter_map]
  rfl

theorem sameTargets_of_bare {entries' : List Target}
    (h : entries'.map Target.bare = entries.map Target.bare) :
    SameTargets (targetTable entries) (targetTable entries') := by
  intro host
  rw [getElem?_targetTable, getElem?_targetTable, ← List.getLast?_map, ← List.getLast?_map,
    map_bare_named, map_bare_named, h]

abbrev both (source destination : String) (src' dst' : Target) (entries : List Target) :
    List Target :=
  replaceFirst destination dst' (replaceFirst source src' entries)

section

variable (hne : source ≠ destination)

include hne

theorem sameTargets_both
    (hsrc : (named source entries).head? = some src)
    (hdst : (named destination entries).head? = some dst) (hsrc' : src'.bare = src.bare)
    (hdst' : dst'.bare = dst.bare) :
    SameTargets (targetTable entries) (targetTable (both source destination src' dst' entries)) := by
  refine sameTargets_of_bare ?_
  have hname : src'.name = some source := by
    rw [show src'.name = src.name from (congrArg Target.name hsrc' :)]
    exact name_of_head hsrc
  have hfound : (named destination (replaceFirst source src' entries)).head? = some dst := by
    rw [named_replaceFirst_of_ne hne.symm hname]
    exact hdst
  rw [map_bare_replaceFirst hfound hdst', map_bare_replaceFirst hsrc hsrc']

section

variable (hsrc' : src'.name = some source)

include hsrc'

section

variable (hdst' : dst'.name = some destination)

include hdst'

theorem named_both_source :
    named source (both source destination src' dst' entries) = swapHead src' (named source entries) := by
  rw [named_replaceFirst_of_ne hne hdst', named_replaceFirst hsrc']

theorem named_both_destination :
    named destination (both source destination src' dst' entries) =
      swapHead dst' (named destination entries) := by
  rw [named_replaceFirst hdst', named_replaceFirst_of_ne hne.symm hsrc']

theorem lookup_source (hsole : named source entries = [src]) :
    (targetTable entries)[source]? = some src ∧
      (targetTable (both source destination src' dst' entries))[source]? = some src' := by
  constructor
  · rw [getElem?_targetTable, hsole]
    rfl
  · rw [getElem?_targetTable, named_both_source hne hsrc' hdst', hsole]
    rfl

theorem lookup_destination (hsole : named destination entries = [dst]) :
    (targetTable entries)[destination]? = some dst ∧
      (targetTable (both source destination src' dst' entries))[destination]? = some dst' := by
  constructor
  · rw [getElem?_targetTable, hsole]
    rfl
  · rw [getElem?_targetTable, named_both_destination hne hsrc' hdst', hsole]
    rfl

end

end

end

theorem lookup_elsewhere (hsource : host ≠ source) (hdestination : host ≠ destination)
    (hsrc' : src'.name = some source) (hdst' : dst'.name = some destination) :
    (targetTable (both source destination src' dst' entries))[host]? =
      (targetTable entries)[host]? := by
  rw [getElem?_targetTable, named_replaceFirst_of_ne hdestination hdst',
    named_replaceFirst_of_ne hsource hsrc', getElem?_targetTable]

end Targets

variable {service host : String} {hostProfile : PlacementHost} {lib : Readers}
  {targetEntries targetEntries' : Table Target} {entries : List Target}

theorem hostDeclares_congr (h : targetEntries'[host]? = targetEntries[host]?) :
    hostDeclares lib targetEntries' service (host, hostProfile) =
      hostDeclares lib targetEntries service (host, hostProfile) := by
  simp only [hostDeclares, h]

theorem exists_head (h : host ∈ targetTable entries) :
    ∃ first, (named host entries).head? = some first := by
  rw [mem_iff_isSome_getElem?, getElem?_targetTable] at h
  cases hnamed : named host entries with
  | nil => simp [hnamed] at h
  | cons first later => exact ⟨first, rfl⟩

/-! ## An accepted document with its profile on the source -/

/-- A document that passes, with a managed profile active on one of its hosts, to
be moved to another. -/
structure Setting (lib : Readers) (document : Document) (directory : ServiceDirectory)
    (entries : List Target) (profiles : List PlacementProfile) (profile : PlacementProfile)
    (sourceProfile destinationProfile : PlacementHost) (source destination : String) : Prop where
  read : document.serviceDirectory = .ok (some directory)
  targets : document.targets = some entries
  placements : document.placementProfiles = .ok profiles
  valid : Valid lib document directory (targetTable entries) (profilesByName profiles)
  declared : (profilesByName profiles)[profile.name]? = some profile
  managed : ∀ (host : String) (hostProfile : PlacementHost), profile.hosts[host]? = some hostProfile →
    ∀ (logical : String) (unit : PlacementUnit), hostProfile.units[logical]? = some unit →
      unit.releaseControlled = none
  atSource : profile.hosts[source]? = some sourceProfile
  atDestination : profile.hosts[destination]? = some destinationProfile
  active : ∀ service ∈ profile.services, ∀ route : ServiceRoute,
    directory.services[service]? = some route → route.activeHost = source

section Facts

variable {lib : Readers} {document : Document} {directory : ServiceDirectory}
  {entries : List Target} {profiles : List PlacementProfile} {profile : PlacementProfile}
  {sourceProfile destinationProfile : PlacementHost} {source destination : String}

variable (h : Setting lib document directory entries profiles profile sourceProfile
  destinationProfile source destination)

include h

theorem Setting.route (hservice : service ∈ profile.services) :
    ∃ route : ServiceRoute, directory.services[service]? = some route ∧
      route.placementProfile = some profile.name := by
  exact validateProfiles_eq_ok.mp h.valid.profiles profile.name profile h.declared service hservice

variable {route : ServiceRoute}

theorem Setting.placed (hroute : directory.services[service]? = some route)
    (hprofile : route.placementProfile = some profile.name) :
    RouteValid lib document (targetTable entries) (profilesByName profiles) service route
        s!"registry.service_directory.services.{service}" ∧
      PlacedValid lib document (targetTable entries) profile service route
        s!"registry.service_directory.services.{service}" ∧
      releaseControlledProduct profile service = .ok none ∧
      activeProfileHost lib profile service (targetTable entries) = .ok source := by
  have hvalid := validateRoute_eq_ok.mp (h.valid.routes service route hroute)
  have hplaced := hvalid.placed
  rw [hprofile, PlacementValid, validatePlacedRoute_eq_ok] at hplaced
  obtain ⟨found, hfound, hcontract⟩ := hplaced
  rw [h.declared] at hfound
  cases hfound
  obtain ⟨product, hproduct, hactive⟩ := hcontract.active
  have hmanaged : ∀ entry ∈ profile.hosts.toList, ∀ unit, entry.2.units[service]? = some unit →
      unit.releaseControlled = none := fun entry hmem unit hunit =>
    h.managed entry.1 entry.2 (mem_toList_iff_getElem?_eq_some.mp hmem) service unit hunit
  obtain ⟨rfl, -⟩ := (releaseControlledProduct_managed hmanaged).mp hproduct
  rw [ServesAs, h.active service hcontract.serves route hroute] at hactive
  exact ⟨hvalid, hcontract, hproduct, hactive⟩

theorem Setting.manages
    (hservice : service ∈ profile.services) (hhost : profile.hosts[host]? = some hostProfile) :
    ∃ spec unit, Manages hostProfile service spec unit := by
  obtain ⟨route, hroute, hprofile⟩ := h.route hservice
  obtain ⟨-, -, -, hactive⟩ := h.placed hroute hprofile
  obtain ⟨hreads, -⟩ := activeProfileHost_eq_ok.mp hactive
  obtain ⟨spec, hspec, -⟩ := hreads (host, hostProfile) (mem_toList_iff_getElem?_eq_some.mpr hhost)
  have hfree := h.managed host hostProfile hhost service spec hspec
  cases hlifecycle : spec.lifecycle with
  | managed unit => exact ⟨spec, unit, hspec, hlifecycle⟩
  | releaseControl product => simp [PlacementUnit.releaseControlled, hlifecycle] at hfree

theorem Setting.target (hservice : service ∈ profile.services)
    (hhost : profile.hosts[host]? = some hostProfile) : host ∈ targetTable entries := by
  obtain ⟨route, hroute, hprofile⟩ := h.route hservice
  obtain ⟨hvalid, hcontract, -, -⟩ := h.placed hroute hprofile
  have hkey : host ∈ profile.hosts.keys := by
    rw [TreeMap.mem_keys, TreeMap.mem_iff_isSome_getElem?, hhost]
    rfl
  rcases mem_append.mp (hcontract.covers.2 host hkey) with hendpoint | hstandby
  · obtain ⟨endpoint, hget⟩ := isSome_iff_exists.mp
      (TreeMap.mem_iff_isSome_getElem?.mp (TreeMap.mem_keys.mp hendpoint))
    obtain ⟨⟨target, htarget, -⟩, -⟩ := validateEndpoints_eq_ok.mp hvalid.endpoints host endpoint hget
    rw [TreeMap.mem_iff_isSome_getElem?, htarget]
    rfl
  · obtain ⟨endpoint, hget⟩ := isSome_iff_exists.mp
      (TreeMap.mem_iff_isSome_getElem?.mp (TreeMap.mem_keys.mp hstandby))
    exact (validateStandby_eq_ok.mp hvalid.standby host endpoint hget).1

theorem Setting.addressed (hroute : directory.services[service]? = some route)
    (hprofile : route.placementProfile = some profile.name) : Addressed destination route := by
  obtain ⟨-, hcontract, -, -⟩ := h.placed hroute hprofile
  have hkey : destination ∈ profile.hosts.keys := by
    rw [TreeMap.mem_keys, TreeMap.mem_iff_isSome_getElem?, h.atDestination]
    rfl
  have hdeclared := hcontract.covers.2 destination hkey
  rw [mem_append, TreeMap.mem_keys, TreeMap.mem_keys] at hdeclared
  exact hdeclared

end Facts

/-! ## What a move that keeps the directory needs -/

theorem getLast?_swapHead {found : List Target} {first : Target} (hfirst : found.head? = some first)
    (changed : Target) : found = [first] ∨ (swapHead changed found).getLast? = found.getLast? := by
  cases found with
  | nil => cases hfirst
  | cons head later =>
    cases hfirst
    cases later with
    | nil => exact .inl rfl
    | cons second rest => exact .inr (by simp [swapHead])

variable {source destination : String} {hostHeuristic : Option String} {member : Declared → Bool}
  {managedSince : String} {sourceProfile destinationProfile : PlacementHost}
  {document document' : Document} {arrivals : List (PlacementUnit × ManagedPlacementUnit)}
  {profile : PlacementProfile} {services : List String} {spec : PlacementUnit}

theorem placedOn_eq_ok (hsource : profile.hosts[source]? = some sourceProfile)
    (hdestination : profile.hosts[destination]? = some destinationProfile) :
    placedOn document profile source destination hostHeuristic managedSince = .ok document' ↔
      ∃ moved between,
        moveRecords sourceProfile destinationProfile source destination hostHeuristic managedSince
          profile.services document = .ok moved ∧
        promoteStandby moved profile.name destination = .ok between ∧
        retargetProfile between profile.name destination = .ok document' := by
  simp only [placedOn, bind_eq_ok, profileHost_eq_ok, hsource, hdestination, Option.some.injEq,
    exists_eq_left']
  constructor
  · rintro ⟨moved, hmoved, between, hbetween, hdocument⟩
    exact ⟨moved, between, hmoved, hbetween, hdocument⟩
  · rintro ⟨moved, between, hmoved, hbetween, hdocument⟩
    exact ⟨moved, hmoved, between, hbetween, hdocument⟩

section Needs

variable {lib : Readers} {document document' : Document} {directory directory' : ServiceDirectory}
  {entries : List Target} {profiles : List PlacementProfile} {profile : PlacementProfile}
  {sourceProfile destinationProfile : PlacementHost} {source destination : String}
  {hostHeuristic : Option String} {managedSince : String}

structure PlacedDocument (document document' : Document) (directory directory' : ServiceDirectory)
    (entries : List Target) (profile : PlacementProfile)
    (sourceProfile destinationProfile : PlacementHost) (source destination : String)
    (hostHeuristic : Option String) (managedSince : String) (src dst : Target)
    (left : List Declared) : Prop where
  apart : source ≠ destination
  serves : profile.services ≠ []
  firstSource : (named source entries).head? = some src
  firstDestination : (named destination entries).head? = some dst
  sourceLocal : src.kind = some "local"
  destinationLocal : dst.kind = some "local"
  array : dst.services ≠ some none
  unclaimed : Unclaimed hostHeuristic managedSince dst.records
    (members destinationProfile profile.services)
  withdrawn : withdrawn ((members sourceProfile profile.services).map (·.2.unit)) src.records =
    some left
  retargeted : Retargeted profile.name destination directory directory'
  document' : document' = { document with
    serviceDirectory := .ok (some directory')
    targets := some (both source destination { src with services := kept left }
      { dst with services := some (some (dst.records ++
        arriving hostHeuristic managedSince (members destinationProfile profile.services))) }
      entries) }

theorem placed_of_ok (h : Setting lib document directory entries profiles profile sourceProfile
      destinationProfile source destination)
    (hplaced : placedOn document profile source destination hostHeuristic managedSince =
      .ok document') (hafter : document'.serviceDirectory = .ok (some directory'))
    (hgeneration : directory'.generation = directory.generation + 1) :
    ∃ src dst left, PlacedDocument document document' directory directory' entries profile
      sourceProfile destinationProfile source destination hostHeuristic managedSince src dst
      left := by
  obtain ⟨moved, between, hmoved, hbetween, hretargeted⟩ :=
    (placedOn_eq_ok h.atSource h.atDestination).mp hplaced
  have hsections := moveRecords_sections hmoved
  have hread : moved.serviceDirectory = .ok (some directory) := by
    rw [hsections]
    exact h.read
  obtain ⟨other, heq, hresult⟩ := retarget_of_ok hread hbetween hretargeted
  have hsame : other = directory' := by
    rw [heq] at hafter
    exact Option.some.inj (Except.ok.inj hafter)
  subst hsame
  have hretargeted : Retargeted profile.name destination directory other := by
    rcases hresult with hequal | hretargeted
    · omega
    · exact hretargeted
  obtain ⟨service, route, hroute, hprofile, helsewhere⟩ := hretargeted.elsewhere
  obtain ⟨-, hcontract, -, -⟩ := h.placed hroute hprofile
  have hne : source ≠ destination := by
    rw [← h.active service hcontract.serves route hroute]
    exact helsewhere
  have hservices : profile.services ≠ [] := ne_nil_of_mem hcontract.serves
  obtain ⟨src, hsrc⟩ := exists_head (h.target hcontract.serves h.atSource)
  obtain ⟨dst, hdst⟩ := exists_head (h.target hcontract.serves h.atDestination)
  obtain ⟨hlocal, hlocal', harray, hunclaimed, left, hleft, hdocument⟩ :=
    (moveRecords_eq_ok hne hservices (fun logical hlogical =>
      ⟨h.manages hlogical h.atSource, h.manages hlogical h.atDestination⟩) h.targets hsrc hdst).mp
      hmoved
  refine ⟨src, dst, left, hne, hservices, hsrc, hdst, hlocal, hlocal', harray, hunclaimed, hleft,
    hretargeted, ?_⟩
  rw [heq, hdocument]
  rfl

variable {src dst : Target} {left : List Declared}

/-- The source as the move leaves it. -/
abbrev afterSource (src : Target) (left : List Declared) : Target :=
  { src with services := kept left }

/-- The destination as the move leaves it. -/
abbrev afterDestination (dst : Target) (arrived : List Declared) : Target :=
  { dst with services := some (some (dst.records ++ arrived)) }

theorem records_afterSource (src : Target) (left : List Declared) :
    (afterSource src left).records = left := join_kept left

theorem records_afterDestination (dst : Target) (arrived : List Declared) :
    (afterDestination dst arrived).records = dst.records ++ arrived := rfl

section

variable (h : Setting lib document directory entries profiles profile sourceProfile
  destinationProfile source destination)

include h

section

variable (hp : PlacedDocument document document' directory directory' entries profile sourceProfile
  destinationProfile source destination hostHeuristic managedSince src dst left)

include hp

/-- A placed document that is accepted has its profile on the destination, to be
moved back. -/
theorem PlacedDocument.setting (hvalid : validateRegistryContract lib document' = .ok ()) :
    Setting lib document' directory' (both source destination (afterSource src left)
        (afterDestination dst (arriving hostHeuristic managedSince
          (members destinationProfile profile.services))) entries) profiles profile
      destinationProfile sourceProfile destination source := by
  have hread : document'.serviceDirectory = .ok (some directory') := by rw [hp.document']
  have htargets : document'.targets = some (both source destination (afterSource src left)
      (afterDestination dst (arriving hostHeuristic managedSince
        (members destinationProfile profile.services))) entries) := by rw [hp.document']
  have hplacements : document'.placementProfiles = .ok profiles := by
    rw [hp.document']
    exact h.placements
  refine ⟨hread, htargets, hplacements, ?_, h.declared, h.managed, h.atDestination, h.atSource, ?_⟩
  · rcases validateRegistryContract_eq_ok.mp hvalid with hnone |
      ⟨_, targetEntries, found, hsame, htable, hfound, hvalid'⟩
    · rw [hread] at hnone
      cases hnone
    · rw [hread] at hsame
      cases hsame
      rw [hplacements] at hfound
      cases hfound
      simp only [targets, htargets, Except.ok.injEq] at htable
      subst htable
      exact hvalid'
  · intro service hservice route' hroute'
    obtain ⟨route, hroute, hprofile⟩ := h.route hservice
    rw [hp.retargeted.routes, hroute, map_some, Option.some.injEq] at hroute'
    rw [← hroute', placedRoute, if_pos hprofile]

theorem exchangeable_of_placed (hvalid : validateRegistryContract lib document' = .ok ()) :
    Exchangeable lib directory (profilesByName profiles) profile sourceProfile destinationProfile
      source destination hostHeuristic managedSince entries src dst left := by
  have h' := hp.setting h hvalid
  obtain ⟨arrived, harrived⟩ : ∃ arrived, arrived = arriving hostHeuristic managedSince
    (members destinationProfile profile.services) := ⟨_, rfl⟩
  rw [← harrived] at h'
  have hsrcName : (afterSource src left).name = some source := by
    have hname := name_of_head hp.firstSource
    exact hname
  have hdstName : (afterDestination dst arrived).name = some destination := by
    have hname := name_of_head hp.firstDestination
    exact hname
  have hsame : SameTargets (targetTable entries) (targetTable (both source destination
      (afterSource src left) (afterDestination dst arrived) entries)) :=
    sameTargets_both hp.apart hp.firstSource hp.firstDestination rfl rfl
  obtain ⟨service, hservice⟩ := exists_mem_of_ne_nil _ hp.serves
  obtain ⟨route, hroute, hprofile⟩ := h.route hservice
  obtain ⟨route', hroute', hprofile'⟩ := h'.route hservice
  have hone := (activeProfileHost_eq_ok.mp (h.placed hroute hprofile).2.2.2).2.2
  have hone' := (activeProfileHost_eq_ok.mp (h'.placed hroute' hprofile').2.2.2).2.2
  -- a second target of either name would still say where the profile was
  have hsole : named source entries = [src] := by
    rcases getLast?_swapHead hp.firstSource (afterSource src left) with hsole | hunchanged
    · exact hsole
    · have hlookup : (targetTable (both source destination (afterSource src left)
          (afterDestination dst arrived) entries))[source]? = (targetTable entries)[source]? := by
        rw [getElem?_targetTable, named_both_source hp.apart hsrcName hdstName, hunchanged,
          getElem?_targetTable]
      have hdeclares := (hone source sourceProfile h.atSource).mpr rfl
      rw [← hostDeclares_congr hlookup] at hdeclares
      exact absurd ((hone' source sourceProfile h.atSource).mp hdeclares) hp.apart
  have hsole' : named destination entries = [dst] := by
    rcases getLast?_swapHead hp.firstDestination (afterDestination dst arrived) with
      hsole' | hunchanged
    · exact hsole'
    · have hlookup : (targetTable (both source destination (afterSource src left)
          (afterDestination dst arrived) entries))[destination]? =
            (targetTable entries)[destination]? := by
        rw [getElem?_targetTable, named_both_destination hp.apart hsrcName hdstName, hunchanged,
          getElem?_targetTable]
      have hdeclares := (hone' destination destinationProfile h.atDestination).mpr rfl
      rw [hostDeclares_congr hlookup] at hdeclares
      exact absurd ((hone destination destinationProfile h.atDestination).mp hdeclares).symm hp.apart
  obtain ⟨hbefore, hafter⟩ := lookup_source hp.apart hsrcName hdstName hsole
  obtain ⟨hbefore', hafter'⟩ := lookup_destination hp.apart hsrcName hdstName hsole'
  have hcontrol : document'.releaseControl = document.releaseControl := by rw [hp.document']
  -- a route that is not rewritten passed before and passes now
  have hothers {host name : String}
      (hreads : OtherReads directory (profilesByName profiles) profile host name) :
      declaresOn lib (targetTable (both source destination (afterSource src left)
          (afterDestination dst arrived) entries))[host]? name =
        declaresOn lib (targetTable entries)[host]? name := by
    obtain ⟨other, otherRoute, hother, hne, hreads⟩ := hreads
    have hother' : directory'.services[other]? = some otherRoute := by
      rw [hp.retargeted.routes, hother, map_some, placedRoute, if_neg hne]
    have hpassed := validateRoute_eq_ok.mp (h.valid.routes other otherRoute hother)
    have hpasses := validateRoute_eq_ok.mp (h'.valid.routes other otherRoute hother')
    exact (routeValid_iff hsame hcontrol hpassed).mp hpasses host name hreads
  refine ⟨hp.apart, hp.serves, hp.retargeted.bounded, hsole, hp.sourceLocal, hsole',
    hp.destinationLocal, hp.array, hp.unclaimed, hp.withdrawn, ?_, ?_, ?_, ?_⟩
  · intro member hmember unit hunit
    obtain ⟨memberRoute, hmemberRoute, hmemberProfile⟩ := h'.route hmember
    have hactive := (activeProfileHost_eq_ok.mp (h'.placed hmemberRoute hmemberProfile).2.2.2).2.2
    have hnot := hactive source sourceProfile h.atSource
    simp only [hostDeclares, hunit, hafter, declaresOn, records_afterSource] at hnot
    rw [Bool.eq_false_iff]
    exact fun hdeclares => hp.apart (hnot.mp hdeclares)
  · intro name hreads hdeclares
    have hequal := hothers hreads
    rw [hbefore, hafter] at hequal
    simp only [declaresOn, records_afterSource] at hequal
    rw [hequal]
    exact hdeclares
  · intro name hreads hdeclares
    have hequal := hothers hreads
    rw [hbefore', hafter'] at hequal
    simp only [declaresOn, records_afterDestination, declares_append] at hequal
    rw [← hequal, harrived, hdeclares, Bool.or_true]
  · intro member hmember memberRoute hmemberRoute
    obtain ⟨found, hfound, hmemberProfile⟩ := h.route hmember
    rw [hmemberRoute] at hfound
    cases hfound
    have hplaced : directory'.services[member]? =
        some { promoted destination memberRoute with activeHost := destination } := by
      rw [hp.retargeted.routes, hmemberRoute, map_some, placedRoute, if_pos hmemberProfile]
    have hpasses := validateRoute_eq_ok.mp (h'.valid.routes member _ hplaced)
    constructor
    · intro hendpoint hstandby
      obtain ⟨endpoint, hget⟩ := isSome_iff_exists.mp (mem_iff_isSome_getElem?.mp hstandby)
      have hstill : (promoted destination memberRoute).standby[destination]? = some endpoint := by
        rw [promoted, if_pos hendpoint]
        exact hget
      exact (validateStandby_eq_ok.mp hpasses.standby destination endpoint hstill).2.1 rfl
    · intro hendpoint
      obtain ⟨endpoint, hget⟩ := isSome_iff_exists.mp
        (mem_iff_isSome_getElem?.mp hpasses.active)
      obtain ⟨⟨target, htarget, hssh⟩, -⟩ :=
        validateEndpoints_eq_ok.mp hpasses.endpoints destination endpoint hget
      rw [hafter'] at htarget
      cases htarget
      exact hssh

end

end

end Needs

/-! ## Records that go and come -/

theorem filter_eraseP {member taken : Declared → Bool}
    (h : ∀ entry, taken entry = true → member entry = true) (records : List Declared) :
    (records.eraseP taken).filter (!member ·) = records.filter (!member ·) := by
  induction records with
  | nil => rfl
  | cons entry later ih =>
    by_cases htaken : taken entry = true
    · rw [eraseP_cons_of_pos htaken, filter_cons_of_neg (by simp [h entry htaken])]
    · rw [eraseP_cons_of_neg htaken, filter_cons, filter_cons, ih]

theorem filter_withdrawn {units : List String} {records left : List Declared}
    (hunits : ∀ unit ∈ units, ∀ entry : Declared,
      entry.goesBy unit = true → member entry = true) (h : withdrawn units records = some left) :
    left.filter (!member ·) = records.filter (!member ·) := by
  induction units generalizing records with
  | nil =>
    cases h
    rfl
  | cons unit later ih =>
    obtain ⟨-, hlater⟩ := withdrawn_cons.mp h
    rw [ih (fun other hother => hunits other (mem_cons_of_mem _ hother)) hlater,
      filter_eraseP (hunits unit mem_cons_self)]

theorem goesBy_destinationRecord (hostHeuristic : Option String) (spec : PlacementUnit)
    (unit : ManagedPlacementUnit) (managedSince : String) :
    goesBy (.record (destinationRecord hostHeuristic spec unit managedSince)) unit.unit =
      true := by
  cases hkind : unit.kind with
  | launchd =>
    by_cases hempty : unit.unit = ""
    · simp [goesBy, destinationRecord, hkind, hempty]
    · simp [goesBy, destinationRecord, hkind, hempty]
  | systemd => simp [goesBy, destinationRecord, hkind]

theorem filter_arriving
    (h : ∀ arrival ∈ arrivals, ∀ entry : Declared, entry.goesBy arrival.2.unit = true →
      member entry = true) (records : List Declared) :
    (records ++ arriving hostHeuristic managedSince arrivals).filter (!member ·) =
      records.filter (!member ·) := by
  rw [filter_append]
  have hnone : (arriving hostHeuristic managedSince arrivals).filter (!member ·) = [] := by
    rw [filter_eq_nil_iff]
    intro entry hentry
    obtain ⟨⟨spec, unit⟩, harrival, rfl⟩ := List.mem_map.mp hentry
    simp [h _ harrival _ (goesBy_destinationRecord hostHeuristic spec unit managedSince)]
  rw [hnone, append_nil]

theorem declares_arriving {unit : ManagedPlacementUnit} (h : (spec, unit) ∈ arrivals) :
    declares lib (arriving hostHeuristic managedSince arrivals) spec.name = true := by
  refine List.any_eq_true.mpr ⟨_, List.mem_map.mpr ⟨_, h, rfl⟩, ?_⟩
  simp [names, destinationRecord]

theorem mem_members {host : PlacementHost} {logical : String} {unit : ManagedPlacementUnit}
    (hlogical : logical ∈ services) (h : Manages host logical spec unit) :
    (spec, unit) ∈ members host services := by
  refine mem_filterMap.mpr ⟨logical, hlogical, ?_⟩
  simp [h.1, h.2, PlacementUnit.managed]

theorem memberRecord_of_goesBy {host : PlacementHost}
    {arrival : PlacementUnit × ManagedPlacementUnit} (h : arrival ∈ members host services)
    {entry : Declared} (hentry : entry.goesBy arrival.2.unit = true) :
    memberRecord host services entry = true :=
  List.any_eq_true.mpr ⟨arrival, h, by simp [hentry]⟩

theorem EntryKept.refl (member : Declared → Bool) (source destination : String) (entry : Target) :
    EntryKept member source destination entry entry := ⟨rfl, fun _ _ => rfl, rfl⟩

theorem EntryKept.trans
    {first second third : Target} (h : EntryKept member source destination first second)
    (h' : EntryKept member source destination second third) :
    EntryKept member source destination first third := by
  have hname : second.name = first.name := (congrArg Target.name h.bare :)
  refine ⟨h'.bare.trans h.bare, fun hsource hdestination => ?_, h'.others.trans h.others⟩
  rw [h'.elsewhere (by rwa [hname]) (by rwa [hname]), h.elsewhere hsource hdestination]

theorem forall₂_replaceFirst {Kept : Target → Target → Prop} {before entries : List Target}
    (h : List.Forall₂ Kept before entries) (hentry : (named host entries).head? = some entry)
    (hchanged : ∀ old, Kept old entry → Kept old changed) :
    List.Forall₂ Kept before (replaceFirst host changed entries) := by
  induction h with
  | nil => exact .nil
  | @cons old first before later hfirst hlater ih =>
    by_cases hname : first.name = some host
    · have heq : first = entry := by simpa [named, hname] using hentry
      rw [replaceFirst, if_pos hname]
      exact .cons (hchanged old (heq ▸ hfirst)) hlater
    · have hnext : (named host later).head? = some entry := by simpa [named, hname] using hentry
      rw [replaceFirst, if_neg hname]
      exact .cons hfirst (ih hnext)

/-! ## The profile's routes after the move -/

section Promoted

variable {destination : String} {route : ServiceRoute}

/-- A promoted route is its old one, or has its standby address on the
destination among its endpoints instead. -/
theorem promoted_cases (h : Addressed destination route) :
    destination ∈ route.endpoints ∧ promoted destination route = route ∨
      destination ∉ route.endpoints ∧ ∃ address, route.standby[destination]? = some address ∧
        promoted destination route = { route with
          standby := route.standby.erase destination
          endpoints := route.endpoints.insert destination address } := by
  by_cases hendpoint : destination ∈ route.endpoints
  · exact .inl ⟨hendpoint, if_pos hendpoint⟩
  · have hstandby : destination ∈ route.standby := h.resolve_left hendpoint
    obtain ⟨address, haddress⟩ := isSome_iff_exists.mp (mem_iff_isSome_getElem?.mp hstandby)
    refine .inr ⟨hendpoint, address, haddress, ?_⟩
    simp only [promoted, if_neg hendpoint, haddress]

theorem mem_endpoints_of_promoted (h : host ∈ route.endpoints) :
    host ∈ (promoted destination route).endpoints := by
  unfold promoted
  split
  · exact h
  · split
    · exact h
    · simp [h]

theorem routeMoved_promoted (h : Addressed destination route)
    (hsource : source ∈ route.endpoints) : RouteMoved source destination route
      { promoted destination route with activeHost := destination } := by
  refine ⟨rfl, ?_, mem_promoted.mpr h, .inl (mem_endpoints_of_promoted hsource), ?_, ?_⟩
  · rcases promoted_cases h with ⟨hendpoint, heq⟩ | ⟨hendpoint, address, haddress, heq⟩
    · obtain ⟨endpoint, hget⟩ := isSome_iff_exists.mp (TreeMap.mem_iff_isSome_getElem?.mp hendpoint)
      rw [heq, hget, some_or]
    · have hnone : route.endpoints[destination]? = none := by
        rw [← not_isSome_iff_eq_none, ← TreeMap.mem_iff_isSome_getElem?]
        exact hendpoint
      rw [heq, hnone, none_or, haddress]
      simp
  · rcases promoted_cases h with ⟨-, heq⟩ | ⟨-, address, -, heq⟩
    · rw [heq]
    · rw [heq]
  · intro host hhost
    rcases promoted_cases h with ⟨-, heq⟩ | ⟨-, address, -, heq⟩
    · rw [heq]
      exact ⟨rfl, rfl⟩
    · rw [heq]
      simp [TreeMap.getElem?_insert, TreeMap.getElem?_erase, hhost.symm]

theorem consumers_promoted (destination : String) (route : ServiceRoute) :
    (promoted destination route).consumers = route.consumers := by
  unfold promoted
  split
  · rfl
  · split <;> rfl

theorem placementProfile_placedRoute (profile destination : String) (route : ServiceRoute) :
    (placedRoute profile destination route).placementProfile = route.placementProfile := by
  unfold placedRoute
  split
  · exact placementProfile_promoted destination route
  · rfl

theorem consumers_placedRoute (profile destination : String) (route : ServiceRoute) :
    (placedRoute profile destination route).consumers = route.consumers := by
  unfold placedRoute
  split
  · exact consumers_promoted destination route
  · rfl

theorem Retargeted.sameServices {profile : String} {directory directory' : ServiceDirectory}
    (h : Retargeted profile destination directory directory') :
    SameServices directory directory' := by
  intro service
  rw [h.routes, Option.map_map]
  congr 1
  funext route
  simp only [Function.comp_apply, placementProfile_placedRoute, consumers_placedRoute]

/-- The route as the move leaves it passes its own checks where the destination's
address can be called, and as one of its profile where that is active on the
destination. -/
theorem routeValid_promoted {profiles : Table PlacementProfile}
    {service location : String}
    (hvalid : RouteValid lib document targetEntries profiles service route location)
    (hsame : SameTargets targetEntries targetEntries') (haddressed : Addressed destination route)
    (htarget : destination ∈ targetEntries')
    (honce : destination ∈ route.endpoints → destination ∉ route.standby)
    (hssh : destination ∉ route.endpoints →
      ∃ target, targetEntries'[destination]? = some target ∧ target.ssh ≠ none)
    (hplaced : PlacementValid lib document' targetEntries' profiles service
      { promoted destination route with activeHost := destination } location
      route.placementProfile) :
    RouteValid lib document' targetEntries' profiles service
      { promoted destination route with activeHost := destination } location := by
  have hendpoints := validateEndpoints_eq_ok.mp (hsame.endpoints hvalid.endpoints)
  have hstandby := validateStandby_eq_ok.mp (hsame.standby hvalid.standby)
  have hmem : destination ∈ (promoted destination route).endpoints := mem_promoted.mpr haddressed
  have hverify := hvalid.verify
  have hdeclaration := hvalid.declaration
  have hadmits := hvalid.admits
  have hconsumers := hvalid.consumers
  rcases promoted_cases haddressed with ⟨hendpoint, heq⟩ | ⟨hendpoint, address, haddress, heq⟩
  · rw [heq] at hplaced ⊢
    refine ⟨hvalid.identifier, hverify, hdeclaration, htarget, hvalid.addressed, hendpoint, ?_, ?_,
      hadmits, hconsumers, hplaced⟩
    · rw [validateEndpoints_eq_ok]
      exact hendpoints
    · rw [validateStandby_eq_ok]
      intro host endpoint hget
      obtain ⟨hhost, -, hpasses⟩ := hstandby host endpoint hget
      refine ⟨hhost, ?_, hpasses⟩
      rintro rfl
      refine honce hendpoint ?_
      rw [TreeMap.mem_iff_isSome_getElem?]
      exact isSome_iff_exists.mpr ⟨endpoint, hget⟩
  · rw [heq] at hplaced hmem ⊢
    refine ⟨hvalid.identifier, hverify, hdeclaration, htarget, ?_, hmem, ?_, ?_, hadmits, hconsumers,
      hplaced⟩
    · exact TreeMap.isEmpty_eq_false_iff_exists_mem.mpr ⟨_, hmem⟩
    · rw [validateEndpoints_eq_ok]
      intro host endpoint hget
      by_cases hhost : host = destination
      · subst hhost
        rw [TreeMap.getElem?_insert_self, Option.some.injEq] at hget
        subst hget
        exact ⟨hssh hendpoint, (hstandby host address haddress).2.2⟩
      · simp only [TreeMap.getElem?_insert, Std.compare_eq_iff_eq, Ne.symm hhost, if_false] at hget
        exact hendpoints host endpoint hget
    · rw [validateStandby_eq_ok]
      intro host endpoint hget
      by_cases hhost : host = destination
      · subst hhost
        simp at hget
      · simp only [TreeMap.getElem?_erase, Std.compare_eq_iff_eq, Ne.symm hhost, if_false] at hget
        obtain ⟨htarget', -, hpasses⟩ := hstandby host endpoint hget
        exact ⟨htarget', hhost, hpasses⟩

end Promoted

/-! ## A profile the two hosts can exchange is moved -/

section Keeps

variable {lib : Readers} {document : Document} {directory : ServiceDirectory}
  {entries : List Target} {profiles : List PlacementProfile} {profile : PlacementProfile}
  {sourceProfile destinationProfile : PlacementHost} {source destination : String}
  {hostHeuristic : Option String} {managedSince : String} {src dst : Target}
  {left arrived : List Declared}

abbrev movedEntries (source destination : String) (src dst : Target)
    (left arrived : List Declared) (entries : List Target) : List Target :=
  both source destination (afterSource src left) (afterDestination dst arrived) entries

theorem placedOn_of_exchangeable (h : Setting lib document directory entries profiles profile
      sourceProfile destinationProfile source destination)
    (hx : Exchangeable lib directory (profilesByName profiles) profile sourceProfile
      destinationProfile source destination hostHeuristic managedSince entries src dst left) :
    ∃ directory', Retargeted profile.name destination directory directory' ∧
      placedOn document profile source destination hostHeuristic managedSince = .ok { document with
          serviceDirectory := .ok (some directory')
          targets := some (movedEntries source destination src dst left (arriving hostHeuristic
            managedSince (members destinationProfile profile.services)) entries) } := by
  have hsrc : (named source entries).head? = some src := by rw [hx.soleSource]; rfl
  have hdst : (named destination entries).head? = some dst := by rw [hx.soleDestination]; rfl
  have hmoved : moveRecords sourceProfile destinationProfile source destination hostHeuristic
      managedSince profile.services document = .ok (withBoth document entries source destination
        (afterSource src left) (afterDestination dst (arriving hostHeuristic managedSince
          (members destinationProfile profile.services)))) :=
    (moveRecords_eq_ok hx.apart hx.serves
      (fun logical hlogical => ⟨h.manages hlogical h.atSource, h.manages hlogical h.atDestination⟩)
      h.targets hsrc hdst).mpr
    ⟨hx.sourceLocal, hx.destinationLocal, hx.array, hx.unclaimed, left, hx.withdrawn, rfl⟩
  obtain ⟨service, hservice⟩ := exists_mem_of_ne_nil _ hx.serves
  obtain ⟨route, hroute, hprofile⟩ := h.route hservice
  have helsewhere : ActiveElsewhere profile.name destination directory := by
    refine ⟨service, route, hroute, hprofile, ?_⟩
    rw [h.active service hservice route hroute]
    exact hx.apart
  have hread : (withBoth document entries source destination (afterSource src left)
      (afterDestination dst (arriving hostHeuristic managedSince
        (members destinationProfile profile.services)))).serviceDirectory =
      .ok (some directory) := h.read
  obtain ⟨between, directory', hpromote, hretarget, hretargeted⟩ := exists_retarget hread
    (fun _ route hroute hprofile => h.addressed hroute hprofile) helsewhere hx.bounded
  exact ⟨directory', hretargeted,
    (placedOn_eq_ok h.atSource h.atDestination).mpr ⟨_, between, hmoved, hpromote, hretarget⟩⟩

section

variable (hx : Exchangeable lib directory (profilesByName profiles) profile sourceProfile
  destinationProfile source destination hostHeuristic managedSince entries src dst left)

include hx

/-- The two hosts of a profile that can exchange it, as targets before and after
the move. -/
theorem Exchangeable.lookups :
    SameTargets (targetTable entries)
        (targetTable (movedEntries source destination src dst left arrived entries)) ∧
      ((targetTable entries)[source]? = some src ∧
        (targetTable (movedEntries source destination src dst left arrived entries))[source]? =
          some (afterSource src left)) ∧
      ((targetTable entries)[destination]? = some dst ∧
        (targetTable (movedEntries source destination src dst left arrived entries))[destination]? =
          some (afterDestination dst arrived)) ∧
      ∀ host : String, host ≠ source → host ≠ destination →
        (targetTable (movedEntries source destination src dst left arrived entries))[host]? =
          (targetTable entries)[host]? := by
  have hsrc : (named source entries).head? = some src := by rw [hx.soleSource]; rfl
  have hdst : (named destination entries).head? = some dst := by rw [hx.soleDestination]; rfl
  have hsrcName : (afterSource src left).name = some source := by
    have hname := name_of_head hsrc
    exact hname
  have hdstName : (afterDestination dst arrived).name = some destination := by
    have hname := name_of_head hdst
    exact hname
  exact ⟨sameTargets_both hx.apart hsrc hdst rfl rfl,
    lookup_source hx.apart hsrcName hdstName hx.soleSource,
    lookup_destination hx.apart hsrcName hdstName hx.soleDestination,
    fun host hsource hdestination => lookup_elsewhere hsource hdestination hsrcName hdstName⟩

variable {host name : String}

theorem Exchangeable.answers
    (hreads : OtherReads directory (profilesByName profiles) profile host name) :
    declaresOn lib (targetTable (movedEntries source destination src dst left
        (arriving hostHeuristic managedSince (members destinationProfile profile.services))
        entries))[host]? name =
      declaresOn lib (targetTable entries)[host]? name := by
  obtain ⟨-, ⟨hbefore, hafter⟩, ⟨hbefore', hafter'⟩, helsewhere⟩ :=
    @Exchangeable.lookups lib directory entries profiles profile sourceProfile destinationProfile
      source destination hostHeuristic managedSince src dst left (arriving hostHeuristic
        managedSince (members destinationProfile profile.services)) hx
  by_cases hsource : host = source
  · subst hsource
    rw [hbefore, hafter]
    simp only [declaresOn, records_afterSource]
    rw [Bool.eq_iff_iff]
    exact ⟨declares_of_sublist (withdrawn_sublist hx.withdrawn), hx.keeps name hreads⟩
  · by_cases hdestination : host = destination
    · subst hdestination
      rw [hbefore', hafter']
      simp only [declaresOn, records_afterDestination, declares_append]
      rw [Bool.eq_iff_iff, Bool.or_eq_true]
      constructor
      · rintro (hdeclares | harrived)
        · exact hdeclares
        · exact hx.adds name hreads harrived
      · exact .inl
    · rw [helsewhere host hsource hdestination]

end

theorem active_of_exchangeable (h : Setting lib document directory entries profiles profile
      sourceProfile destinationProfile source destination)
    (hx : Exchangeable lib directory (profilesByName profiles) profile sourceProfile
      destinationProfile source destination hostHeuristic managedSince entries src dst left)
    (hservice : service ∈ profile.services) :
    activeProfileHost lib profile service (targetTable (movedEntries source destination src dst left
      (arriving hostHeuristic managedSince (members destinationProfile profile.services))
      entries)) = .ok destination := by
  obtain ⟨hsame, ⟨hbefore, hafter⟩, ⟨hbefore', hafter'⟩, helsewhere⟩ :=
    @Exchangeable.lookups lib directory entries profiles profile sourceProfile destinationProfile
      source destination hostHeuristic managedSince src dst left (arriving hostHeuristic
        managedSince (members destinationProfile profile.services)) hx
  obtain ⟨route, hroute, hprofile⟩ := h.route hservice
  obtain ⟨hreads, -, hone⟩ := activeProfileHost_eq_ok.mp (h.placed hroute hprofile).2.2.2
  rw [activeProfileHost_eq_ok]
  refine ⟨fun entry hentry => (hreads entry hentry).same hsame, ?_, ?_⟩
  · rw [mem_iff_isSome_getElem?, h.atDestination]
    rfl
  · intro host hostProfile hhost
    by_cases hsource : host = source
    · subst hsource
      rw [h.atSource] at hhost
      cases hhost
      obtain ⟨spec, unit, hspec, -⟩ := h.manages hservice h.atSource
      simp only [hostDeclares, hspec, hafter, declaresOn, records_afterSource,
        hx.gone service hservice spec hspec, Bool.false_eq_true, false_iff]
      exact hx.apart
    · by_cases hdestination : host = destination
      · subst hdestination
        rw [h.atDestination] at hhost
        cases hhost
        obtain ⟨spec, unit, hspec⟩ := h.manages hservice h.atDestination
        have harrived := @declares_arriving lib hostHeuristic managedSince _ spec unit
          (mem_members hservice hspec)
        simp only [hostDeclares, hspec.1, hafter', declaresOn, records_afterDestination,
          declares_append, harrived, Bool.or_true]
      · have hnot := hone host hostProfile hhost
        rw [hostDeclares_congr (helsewhere host hsource hdestination), hnot]
        exact ⟨fun heq => absurd heq hsource, fun heq => absurd heq hdestination⟩

abbrev movedDocument (document : Document) (directory' : ServiceDirectory) (source destination : String)
    (src dst : Target) (left arrived : List Declared) (entries : List Target) : Document :=
  { document with
    serviceDirectory := .ok (some directory')
    targets := some (movedEntries source destination src dst left arrived entries) }

section

variable (h : Setting lib document directory entries profiles profile sourceProfile
  destinationProfile source destination)

include h

section

variable (hx : Exchangeable lib directory (profilesByName profiles) profile sourceProfile
  destinationProfile source destination hostHeuristic managedSince entries src dst left)

include hx

theorem route_of_exchangeable
    (document' : Document)
    (hroute : directory.services[service]? = some route)
    (hprofile : route.placementProfile = some profile.name) :
    RouteValid lib document' (targetTable (movedEntries source destination src dst left
        (arriving hostHeuristic managedSince (members destinationProfile profile.services))
        entries)) (profilesByName profiles) service
      { promoted destination route with activeHost := destination }
      s!"registry.service_directory.services.{service}" := by
  obtain ⟨hsame, -, ⟨-, hafter'⟩, -⟩ :=
    @Exchangeable.lookups lib directory entries profiles profile sourceProfile destinationProfile
      source destination hostHeuristic managedSince src dst left (arriving hostHeuristic
        managedSince (members destinationProfile profile.services)) hx
  obtain ⟨hvalid, hcontract, hproduct, -⟩ := h.placed hroute hprofile
  have haddressed := h.addressed hroute hprofile
  obtain ⟨honce, hssh⟩ := hx.addresses service hcontract.serves route hroute
  have htarget : destination ∈ targetTable (movedEntries source destination src dst left
      (arriving hostHeuristic managedSince (members destinationProfile profile.services))
      entries) := by
    rw [TreeMap.mem_iff_isSome_getElem?, hafter']
    rfl
  refine routeValid_promoted hvalid hsame haddressed htarget honce
    (fun hendpoint => ⟨_, hafter', hssh hendpoint⟩) ?_
  rw [hprofile, PlacementValid, validatePlacedRoute_eq_ok]
  refine ⟨profile, h.declared, ?_⟩
  have hactive := active_of_exchangeable h hx hcontract.serves
  rcases promoted_cases haddressed with ⟨-, heq⟩ | ⟨hendpoint, address, haddress, heq⟩
  · rw [heq]
    exact ⟨hcontract.unmanaged, hcontract.serves, hcontract.covers, none, hproduct, hactive⟩
  · rw [heq]
    refine ⟨hcontract.unmanaged, hcontract.serves, ?_, none, hproduct, hactive⟩
    -- the destination's key went from the standby addresses to the endpoints
    have hdestination : destination ∈ profile.hosts := by
      rw [TreeMap.mem_iff_isSome_getElem?, h.atDestination]
      rfl
    obtain ⟨hknown, hcovered⟩ := hcontract.covers
    simp only [mem_append, TreeMap.mem_keys] at hknown hcovered ⊢
    constructor
    · intro host hhost
      by_cases heq : host = destination
      · exact heq ▸ hdestination
      · simp only [TreeMap.mem_insert, TreeMap.mem_erase, Std.compare_eq_iff_eq] at hhost
        rcases hhost with (hsame | hendpoint) | ⟨-, hstandby⟩
        · exact absurd hsame.symm heq
        · exact hknown host (.inl hendpoint)
        · exact hknown host (.inr hstandby)
    · intro host hhost
      simp only [TreeMap.mem_insert, TreeMap.mem_erase, Std.compare_eq_iff_eq]
      by_cases heq : host = destination
      · exact .inl (.inl heq.symm)
      · rcases hcovered host hhost with hendpoint | hstandby
        · exact .inl (.inr hendpoint)
        · exact .inr ⟨fun hsame => heq (Std.compare_eq_iff_eq.mp hsame).symm, hstandby⟩

variable {directory' : ServiceDirectory}

theorem valid_of_exchangeable
    (hretargeted : Retargeted profile.name destination directory directory') :
    validateRegistryContract lib (movedDocument document directory' source destination src dst left
      (arriving hostHeuristic managedSince (members destinationProfile profile.services))
      entries) = .ok () := by
  obtain ⟨hsame, -, -, -⟩ :=
    @Exchangeable.lookups lib directory entries profiles profile sourceProfile destinationProfile
      source destination hostHeuristic managedSince src dst left (arriving hostHeuristic
        managedSince (members destinationProfile profile.services)) hx
  refine validateRegistryContract_eq_ok.mpr (.inr ⟨directory', _, profiles, rfl, rfl,
    h.placements, ?_⟩)
  refine ⟨?_, ?_, ?_, ?_, hretargeted.sameServices.profiles h.valid.profiles, ?_,
    hsame.ports rfl h.valid.ports⟩
  · rw [hretargeted.generation]
    exact Nat.succ_ne_zero _
  · obtain ⟨service, route, hroute, -, -⟩ := hretargeted.elsewhere
    refine isEmpty_eq_false_iff_exists_mem.mpr ⟨service, ?_⟩
    rw [mem_iff_isSome_getElem?, hretargeted.routes, hroute]
    rfl
  · rw [hretargeted.authority]
    exact hsame.authority h.valid.authority
  · intro service route' hroute'
    rw [hretargeted.routes] at hroute'
    obtain ⟨route, hroute, rfl⟩ := map_eq_some_iff.mp hroute'
    refine validateRoute_eq_ok.mpr ?_
    by_cases hprofile : route.placementProfile = some profile.name
    · rw [placedRoute, if_pos hprofile]
      exact route_of_exchangeable h hx _ hroute hprofile
    · rw [placedRoute, if_neg hprofile]
      have hpassed := validateRoute_eq_ok.mp (h.valid.routes service route hroute)
      have hcontrol : (movedDocument document directory' source destination src dst left
          (arriving hostHeuristic managedSince (members destinationProfile profile.services))
          entries).releaseControl = document.releaseControl := rfl
      refine (routeValid_iff hsame hcontrol hpassed).mpr fun host name hreads => ?_
      exact hx.answers ⟨service, route, hroute, hprofile, hreads⟩
  · intro host target' htarget'
    obtain ⟨target, htarget, hbare⟩ := hsame.symm.some htarget'
    exact hretargeted.sameServices.resolver hbare.symm (h.valid.resolvers host target htarget)

theorem moved_of_exchangeable
    (hretargeted : Retargeted profile.name destination directory directory') :
    Moved document (movedDocument document directory' source destination src dst left
        (arriving hostHeuristic managedSince (members destinationProfile profile.services)) entries)
      profile sourceProfile destinationProfile source destination directory directory' entries
      (movedEntries source destination src dst left
        (arriving hostHeuristic managedSince (members destinationProfile profile.services))
        entries) := by
  refine ⟨h.read, rfl, hretargeted.generation, ?_, ?_, h.targets, rfl, ?_, rfl, rfl, rfl⟩
  · intro service hservice
    obtain ⟨route, hroute, hprofile⟩ := h.route hservice
    obtain ⟨hvalid, -, -, -⟩ := h.placed hroute hprofile
    have hsource : source ∈ route.endpoints := by
      rw [← h.active service hservice route hroute]
      exact hvalid.active
    refine ⟨route, _, hroute, ?_, routeMoved_promoted (h.addressed hroute hprofile) hsource⟩
    rw [hretargeted.routes, hroute, map_some, placedRoute, if_pos hprofile]
  · intro service hservice
    rw [hretargeted.routes]
    cases hroute : directory.services[service]? with
    | none => rfl
    | some route =>
      have hprofile : route.placementProfile ≠ some profile.name := fun hprofile =>
        hservice (h.placed hroute hprofile).2.1.serves
      rw [map_some, placedRoute, if_neg hprofile]
  · have hsrc : (named source entries).head? = some src := by rw [hx.soleSource]; rfl
    have hdst : (named destination entries).head? = some dst := by rw [hx.soleDestination]; rfl
    have hsrcName := name_of_head hsrc
    have hdstName := name_of_head hdst
    have hsrcKept : EntryKept (fun entry => memberRecord sourceProfile profile.services entry ||
        memberRecord destinationProfile profile.services entry) source destination src
        (afterSource src left) := by
      refine ⟨rfl, fun hne => absurd hsrcName hne, ?_⟩
      rw [records_afterSource]
      refine filter_withdrawn (fun unit hunit entry hentry => ?_) hx.withdrawn
      obtain ⟨member, hmember, rfl⟩ := List.mem_map.mp hunit
      rw [memberRecord_of_goesBy hmember hentry, Bool.true_or]
    have hdstKept : EntryKept (fun entry => memberRecord sourceProfile profile.services entry ||
        memberRecord destinationProfile profile.services entry) source destination dst
        (afterDestination dst (arriving hostHeuristic managedSince
          (members destinationProfile profile.services))) := by
      refine ⟨rfl, fun _ hne => absurd hdstName hne, ?_⟩
      rw [records_afterDestination]
      refine filter_arriving (fun arrival harrival entry hentry => ?_) dst.records
      rw [memberRecord_of_goesBy harrival hentry, Bool.or_true]
    have hnone : List.Forall₂ (EntryKept (fun entry =>
        memberRecord sourceProfile profile.services entry ||
          memberRecord destinationProfile profile.services entry) source destination) entries
        entries := forall₂_same.mpr fun entry _ =>
      EntryKept.refl _ source destination entry
    have hfound : (named destination (replaceFirst source (afterSource src left) entries)).head? =
        some dst := by
      have hname : (afterSource src left).name = some source := hsrcName
      rw [named_replaceFirst_of_ne hx.apart.symm hname]
      exact hdst
    exact forall₂_replaceFirst
      (forall₂_replaceFirst hnone hsrc fun old hold => hold.trans hsrcKept) hfound
      fun old hold => hold.trans hdstKept

end

end

end Keeps

theorem ActiveOn.setting {document : Document} {profiles : List PlacementProfile}
    {directory : ServiceDirectory}
    (h : ActiveOn lib document profiles profile sourceProfile destinationProfile source destination)
    (hread : document.serviceDirectory = .ok (some directory))
    (htargets : document.targets = some entries) :
    Setting lib document directory entries profiles profile sourceProfile destinationProfile source
      destination := by
  refine ⟨hread, htargets, h.placements, ?_, h.declared, h.managed, h.atSource, h.atDestination,
    h.active directory hread⟩
  rcases validateRegistryContract_eq_ok.mp h.accepted with hnone |
    ⟨_, targetEntries, found, hsame, htable, hfound, hvalid⟩
  · rw [hread] at hnone
    cases hnone
  · rw [hread] at hsame
    cases hsame
    rw [h.placements] at hfound
    cases hfound
    simp only [targets, htargets, Except.ok.injEq] at htable
    subst htable
    exact hvalid

/-- A managed profile is moved, and the document stays accepted and says what the
move means, exactly when its two hosts can exchange it. -/
theorem move_keeps (lib : Readers) (document : Document) (profiles : List PlacementProfile)
    (profile : PlacementProfile) (sourceProfile destinationProfile : PlacementHost)
    (source destination : String) (hostHeuristic : Option String) (managedSince : String)
    (h : ActiveOn lib document profiles profile sourceProfile destinationProfile source
      destination) :
    KeepsDirectory lib document profile sourceProfile destinationProfile source destination
        hostHeuristic managedSince ↔
      Movable lib document (profilesByName profiles) profile sourceProfile destinationProfile source
        destination hostHeuristic managedSince := by
  constructor
  · rintro ⟨document', hplaced, hvalid, directory, directory', entries, entries', hmoved⟩
    have hsetting := h.setting hmoved.before hmoved.targets
    obtain ⟨src, dst, left, hp⟩ := placed_of_ok hsetting hplaced hmoved.after hmoved.generation
    exact ⟨directory, entries, src, dst, left, hmoved.before, hmoved.targets,
      exchangeable_of_placed hsetting hp hvalid⟩
  · rintro ⟨directory, entries, src, dst, left, hread, htargets, hx⟩
    have hsetting := h.setting hread htargets
    obtain ⟨directory', hretargeted, hplaced⟩ := placedOn_of_exchangeable hsetting hx
    exact ⟨_, hplaced, valid_of_exchangeable hsetting hx hretargeted, directory, directory', entries,
      _, moved_of_exchangeable hsetting hx hretargeted⟩

/-! ## A site and its standby -/

def siteReaders : Readers where
  url text :=
    if text = "http://127.0.0.1:7100" then
      .ok ⟨"http", "", none, none, none, "/", some (.ip (.v4 127 0 0 1)), some "127.0.0.1",
        some 7100⟩
    else .error "relative URL without a base"
  base64 _ := none
  catalogUnit _ := .ok none

def siteUnit : ManagedPlacementUnit where
  unit := "ai.stado.site"
  path := "/Library/LaunchDaemons/ai.stado.site.plist"
  kind := .launchd

/-- Each host runs `site` under launchd. -/
def siteHost : PlacementHost where
  units := (∅ : Table PlacementUnit).insert "site" ⟨"site", .managed siteUnit⟩
  probes := [⟨"site", "http://127.0.0.1:7100"⟩]

def siteProfile : PlacementProfile where
  name := "sites"
  services := ["site"]
  hosts := ((∅ : Table PlacementHost).insert "alpha" siteHost).insert "beta" siteHost

/-- The route of `site`, served on `alpha`, with a standby address on `beta`. -/
def siteRoute : ServiceRoute where
  placementProfile := some "sites"
  managedService := none
  activeHost := "alpha"
  endpoints := (∅ : Table ServiceEndpoint).insert "alpha" ⟨"http://127.0.0.1:7100", none, none, none⟩
  standby := (∅ : Table ServiceEndpoint).insert "beta" ⟨"http://127.0.0.1:7100", none, none, none⟩
  consumers := (∅ : Table ServiceConsumer).insert "cli" ⟨[]⟩
  verify := none
  declaration := none

def siteRecord : Declared :=
  .record ⟨some "site", none, some "ai.stado.site", none, some "launchd", none, none⟩

def alphaTarget : Target where
  name := some "alpha"
  kind := some "local"
  ssh := some "alpha"
  sshFallbacks := none
  services := some (some [siteRecord])
  serviceResolver := .ok none

/-- The standby host, with or without an SSH destination. -/
def betaTarget (ssh : Option String) : Target where
  name := some "beta"
  kind := some "local"
  ssh := ssh
  sshFallbacks := none
  services := none
  serviceResolver := .ok none

def siteDirectory : ServiceDirectory where
  authority := ⟨"alpha", "/usr/local/bin/stado"⟩
  generation := 1
  services := (∅ : Table ServiceRoute).insert "site" siteRoute

def siteDocument (ssh : Option String) : Document where
  serviceDirectory := .ok (some siteDirectory)
  targets := some [alphaTarget, betaTarget ssh]
  placementProfiles := .ok [siteProfile]
  placementTransactions := .ok []
  releaseControl := .ok none

theorem activeOn_site {ssh : Option String}
    (haccepted : validateRegistryContract siteReaders (siteDocument ssh) = .ok ()) :
    ActiveOn siteReaders (siteDocument ssh) [siteProfile] siteProfile siteHost siteHost "alpha"
      "beta" := by
  refine ⟨haccepted, rfl, by simp [profilesByName, siteProfile], ?_, ?_, ?_, ?_⟩
  · intro host hostProfile hhost logical unit hunit
    have heq : hostProfile = siteHost := by
      simp only [siteProfile, TreeMap.getElem?_insert] at hhost
      split at hhost
      · exact (Option.some.inj hhost).symm
      · split at hhost
        · exact (Option.some.inj hhost).symm
        · simp at hhost
    subst heq
    simp only [siteHost, TreeMap.getElem?_insert] at hunit
    split at hunit
    · cases hunit
      rfl
    · simp at hunit
  · simp [siteProfile, TreeMap.getElem_insert]
  · simp [siteProfile]
  · intro directory hread service hservice route hroute
    cases hread
    obtain rfl : service = "site" := by simpa [siteProfile] using hservice
    obtain rfl : siteRoute = route := by simpa [siteDirectory] using hroute
    rfl

theorem not_otherReads_site {profiles : Table PlacementProfile} :
    ¬ OtherReads siteDirectory profiles siteProfile host name := by
  rintro ⟨service, route, hroute, hprofile, -⟩
  obtain ⟨rfl, rfl⟩ : "site" = service ∧ siteRoute = route := by
    simpa [siteDirectory, TreeMap.getElem?_insert] using hroute
  exact hprofile rfl

/-- With an SSH destination on `beta`, the site is moved there. -/
theorem site_moves : KeepsDirectory siteReaders (siteDocument (some "beta")) siteProfile siteHost
    siteHost "alpha" "beta" none "2026-01-01T00:00:00.000Z" := by
  have haccepted : validateRegistryContract siteReaders (siteDocument (some "beta")) = .ok () := by
    decide +kernel
  refine (move_keeps siteReaders _ _ siteProfile siteHost siteHost "alpha" "beta" none
    "2026-01-01T00:00:00.000Z" (activeOn_site haccepted)).mpr ?_
  refine ⟨siteDirectory, [alphaTarget, betaTarget (some "beta")], alphaTarget,
    betaTarget (some "beta"), [], rfl, rfl, ?_⟩
  refine ⟨by decide, by simp [siteProfile], by decide, rfl, rfl, rfl, rfl, by simp [betaTarget],
    ?_, by decide +kernel, ?_, ?_, ?_, ?_⟩
  · have hmembers : members siteHost siteProfile.services = [(⟨"site", .managed siteUnit⟩,
        siteUnit)] := by decide +kernel
    rw [hmembers]
    exact ⟨rfl, trivial⟩
  · intro service hservice unit hunit
    rfl
  · intro name hreads
    exact absurd hreads not_otherReads_site
  · intro name hreads
    exact absurd hreads not_otherReads_site
  · intro service hservice route hroute
    obtain ⟨-, rfl⟩ : "site" = service ∧ siteRoute = route := by
      simpa [siteDirectory, TreeMap.getElem?_insert] using hroute
    constructor
    · intro hendpoint
      simp [siteRoute] at hendpoint
    · simp [betaTarget]

/-- A standby host without an SSH destination is accepted, and the document that
places the site there is not. -/
theorem unreachable_standby_refused :
    ActiveOn siteReaders (siteDocument none) [siteProfile] siteProfile siteHost siteHost "alpha"
        "beta" ∧
      ¬ KeepsDirectory siteReaders (siteDocument none) siteProfile siteHost siteHost "alpha" "beta"
        none "2026-01-01T00:00:00.000Z" := by
  refine ⟨activeOn_site (by decide +kernel), ?_⟩
  rintro ⟨document', hplaced, hvalid, -⟩
  have hrefused : (placedOn (siteDocument none) siteProfile "alpha" "beta" none
      "2026-01-01T00:00:00.000Z" >>= validateRegistryContract siteReaders) ≠ .ok () := by
    decide +kernel
  exact hrefused (bind_eq_ok.mpr ⟨document', hplaced, hvalid⟩)

end Stado.Directory
