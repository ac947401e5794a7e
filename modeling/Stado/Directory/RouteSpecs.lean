import Stado.Directory.ContractSpecs

/-!
# What an accepted route says of its targets

A route reads the targets through the names they declare: a managed route is
active on the one host of its profile that declares its unit, a fixed one on a
host that declares its managed service, and a release-controlled one is declared
nowhere.
-/

namespace Stado.Directory

open Std Checks List Option Target TreeMap

variable {lib : Readers} {document : Document} {targetEntries : Table Target}

/-! ## Declared names -/

def catalogName (lib : Readers) (service : String) : Option String :=
  match lib.catalogUnit service with
  | .ok unit => unit
  | .error _ => none

def declares (lib : Readers) (records : List Declared) (service : String) : Bool :=
  records.any fun entry => entry.names service || (catalogName lib service).any entry.names

def Catalogued (lib : Readers) (service : String) : Prop :=
  ∃ unit, lib.catalogUnit service = .ok unit

variable {service location : String} {route : ServiceRoute} {profile : PlacementProfile}
  {records more : List Declared} {entries : List (String × PlacementHost)} {target : Target}

theorem targetDeclaresService_eq_ok {found : Bool} :
    targetDeclaresService lib target service = .ok found ↔
      Catalogued lib service ∧ declares lib target.records service = found := by
  simp only [targetDeclaresService, bind_eq_ok, mapError_eq_ok, Catalogued, declares, catalogName]
  constructor
  · rintro ⟨unit, hunit, heq⟩
    cases heq
    exact ⟨⟨unit, hunit⟩, by simp [hunit]⟩
  · rintro ⟨⟨unit, hunit⟩, rfl⟩
    exact ⟨unit, hunit, by simp [hunit]; rfl⟩

theorem declares_append :
    declares lib (records ++ more) service =
      (declares lib records service || declares lib more service) := by
  simp [declares]

theorem declares_of_sublist (hsub : records.Sublist more)
    (h : declares lib records service = true) : declares lib more service = true := by
  obtain ⟨entry, hmem, hnames⟩ := List.any_eq_true.mp h
  exact List.any_eq_true.mpr ⟨entry, hsub.subset hmem, hnames⟩

/-! ## Active hosts -/

def declaresOn (lib : Readers) (found : Option Target) (service : String) : Bool :=
  match found with
  | some target => declares lib target.records service
  | none => false

theorem declaredOn_eq_ok {found : Option Target} {answer : Bool} :
    declaredOn lib found service = .ok answer ↔
      (found ≠ none → Catalogued lib service) ∧ declaresOn lib found service = answer := by
  cases found with
  | none => simp [declaredOn, declaresOn]
  | some target => simp [declaredOn, declaresOn, targetDeclaresService_eq_ok]

def hostDeclares (lib : Readers) (targetEntries : Table Target) (service : String)
    (entry : String × PlacementHost) : Bool :=
  match entry.2.units[service]? with
  | some unit => declaresOn lib targetEntries[entry.1]? unit.name
  | none => false

/-- A profile's host has a unit for the service, whose name the catalog answers
for. -/
def HostReads (lib : Readers) (targetEntries : Table Target) (service : String)
    (entry : String × PlacementHost) : Prop :=
  ∃ unit, entry.2.units[service]? = some unit ∧
    (targetEntries[entry.1]? ≠ none → Catalogued lib unit.name)

theorem activeHosts_eq_ok {active : List String} :
    activeHosts lib profile service targetEntries entries = .ok active ↔
      (∀ entry ∈ entries, HostReads lib targetEntries service entry) ∧
        active = (entries.filter (hostDeclares lib targetEntries service)).map Prod.fst := by
  induction entries generalizing active with
  | nil => simp [activeHosts, eq_comm]
  | cons entry later ih =>
    obtain ⟨host, hostProfile⟩ := entry
    simp only [activeHosts, bind_eq_ok, orRefuse_eq_ok, declaredOn_eq_ok, ih,
      forall_mem_cons, HostReads, filter_cons]
    constructor
    · rintro ⟨unit, hunit, answer, ⟨hcatalog, hanswer⟩, hosts, ⟨hlater, rfl⟩, heq⟩
      refine ⟨⟨⟨unit, hunit, hcatalog⟩, hlater⟩, ?_⟩
      have hdeclares : hostDeclares lib targetEntries service (host, hostProfile) = answer := by
        simpa only [hostDeclares, hunit] using hanswer
      cases heq
      rw [hdeclares]
      cases answer <;> rfl
    · rintro ⟨⟨⟨unit, hunit, hcatalog⟩, hlater⟩, rfl⟩
      refine ⟨unit, hunit, _, ⟨hcatalog, rfl⟩, _, ⟨hlater, rfl⟩, ?_⟩
      have hdeclares : hostDeclares lib targetEntries service (host, hostProfile) =
          declaresOn lib targetEntries[host]? unit.name := by
        simp only [hostDeclares, hunit]
      rw [hdeclares]
      cases declaresOn lib targetEntries[host]? unit.name <;> rfl

/-- The keys of the entries of a table that pass a test are one key alone when the
entry of that key passes and no other does. -/
theorem filter_keys_eq_singleton {α : Type} {table : Table α} {passes : String × α → Bool}
    {key : String} : (table.toList.filter passes).map Prod.fst = [key] ↔
      key ∈ table ∧ ∀ other a, table[other]? = some a → (passes (other, a) = true ↔ other = key) := by
  have hmem (other : String) : other ∈ (table.toList.filter passes).map Prod.fst ↔
      ∃ a, table[other]? = some a ∧ passes (other, a) = true := by
    simp only [List.mem_map, mem_filter, Prod.exists, mem_toList_iff_getElem?_eq_some]
    constructor
    · rintro ⟨_, a, ⟨hget, hpasses⟩, rfl⟩
      exact ⟨a, hget, hpasses⟩
    · rintro ⟨a, hget, hpasses⟩
      exact ⟨other, a, ⟨hget, hpasses⟩, rfl⟩
  constructor
  · intro heq
    simp only [heq, mem_singleton] at hmem
    constructor
    · obtain ⟨a, hget, -⟩ := (hmem key).mp rfl
      rw [mem_iff_isSome_getElem?, hget]
      rfl
    · intro other a hget
      constructor
      · exact fun hpasses => (hmem other).mpr ⟨a, hget, hpasses⟩
      · intro hother
        obtain ⟨b, hget', hpasses⟩ := (hmem other).mp hother
        rw [hget] at hget'
        cases hget'
        exact hpasses
  · rintro ⟨hkey, hall⟩
    have hnodup : ((table.toList.filter passes).map Prod.fst).Nodup := by
      rw [List.Nodup, pairwise_map]
      exact (pairwise_keys table).sublist filter_sublist
    obtain ⟨a, hget⟩ := isSome_iff_exists.mp (mem_iff_isSome_getElem?.mp hkey)
    have hin : key ∈ (table.toList.filter passes).map Prod.fst :=
      (hmem key).mpr ⟨a, hget, (hall key a hget).mpr rfl⟩
    have honly : ∀ other ∈ (table.toList.filter passes).map Prod.fst, other = key := by
      intro other hother
      obtain ⟨b, hget', hpasses⟩ := (hmem other).mp hother
      exact (hall other b hget').mp hpasses
    refine perm_singleton.mp ((perm_ext_iff_of_nodup hnodup (by simp)).mpr fun other => ?_)
    rw [mem_singleton]
    refine ⟨honly other, ?_⟩
    rintro rfl
    exact hin

theorem activeProfileHost_eq_ok {host : String} :
    activeProfileHost lib profile service targetEntries = .ok host ↔
      (∀ entry ∈ profile.hosts.toList, HostReads lib targetEntries service entry) ∧
        host ∈ profile.hosts ∧ ∀ other hostProfile, profile.hosts[other]? = some hostProfile →
          (hostDeclares lib targetEntries service (other, hostProfile) = true ↔ other = host) := by
  rw [← filter_keys_eq_singleton]
  simp only [activeProfileHost, bind_eq_ok, activeHosts_eq_ok]
  constructor
  · rintro ⟨active, ⟨hreads, hactive⟩, hone⟩
    refine ⟨hreads, ?_⟩
    rw [← hactive]
    split at hone
    · cases hone
      rfl
    · cases hone
    · cases hone
  · rintro ⟨hreads, hone⟩
    exact ⟨[host], ⟨hreads, hone.symm⟩, rfl⟩

/-! ## Placed routes -/

theorem releaseOwners_managed {product found : Option String} {external count : ℕ}
    (hmanaged : ∀ entry ∈ entries, ∀ unit, entry.2.units[service]? = some unit →
      unit.releaseControlled = none) :
    releaseOwners profile service product external entries = .ok (found, count) ↔
      (∀ entry ∈ entries, ∃ unit, entry.2.units[service]? = some unit) ∧
        found = product ∧ count = external := by
  induction entries with
  | nil => simp [releaseOwners, eq_comm]
  | cons entry later ih =>
    obtain ⟨host, hostProfile⟩ := entry
    have hlater := ih fun entry hmem => hmanaged entry (mem_cons_of_mem _ hmem)
    simp only [releaseOwners, bind_eq_ok, orRefuse_eq_ok, forall_mem_cons]
    constructor
    · rintro ⟨unit, hunit, hrest⟩
      have hfree := hmanaged _ mem_cons_self unit hunit
      simp only [hfree] at hrest
      obtain ⟨hunits, heq⟩ := hlater.mp hrest
      exact ⟨⟨⟨unit, hunit⟩, hunits⟩, heq⟩
    · rintro ⟨⟨⟨unit, hunit⟩, hunits⟩, heq⟩
      have hfree := hmanaged _ mem_cons_self unit hunit
      refine ⟨unit, hunit, ?_⟩
      simp only [hfree]
      exact hlater.mpr ⟨hunits, heq⟩

/-- A profile managed on every host has no release product for a service, and a
unit for it on every host. -/
theorem releaseControlledProduct_managed {found : Option String}
    (hmanaged : ∀ entry ∈ profile.hosts.toList, ∀ unit, entry.2.units[service]? = some unit →
      unit.releaseControlled = none) :
    releaseControlledProduct profile service = .ok found ↔ found = none ∧
      ∀ entry ∈ profile.hosts.toList, ∃ unit, entry.2.units[service]? = some unit := by
  simp only [releaseControlledProduct, bind_eq_ok, Prod.exists, releaseOwners_managed hmanaged]
  constructor
  · rintro ⟨product, external, ⟨hunits, rfl, rfl⟩, heq⟩
    cases heq
    exact ⟨rfl, hunits⟩
  · rintro ⟨rfl, hunits⟩
    exact ⟨none, 0, ⟨hunits, rfl, rfl⟩, rfl⟩

/-- A placed route serves a release product, or is active where its managed unit
is declared. -/
def ServesAs (lib : Readers) (document : Document) (targetEntries : Table Target)
    (profile : PlacementProfile) (name : String) (route : ServiceRoute)
    (location : String) : Option String → Prop
  | some product => validateReleaseControlledRoute lib document targetEntries profile name route
      product location = .ok ()
  | none => activeProfileHost lib profile name targetEntries = .ok route.activeHost

structure PlacedValid (lib : Readers) (document : Document) (targetEntries : Table Target)
    (profile : PlacementProfile) (name : String) (route : ServiceRoute)
    (location : String) : Prop where
  unmanaged : route.managedService = none
  serves : name ∈ profile.services
  covers : (∀ host ∈ route.endpoints.keys ++ route.standby.keys, host ∈ profile.hosts) ∧
    ∀ host ∈ profile.hosts.keys, host ∈ route.endpoints.keys ++ route.standby.keys
  active : ∃ found, releaseControlledProduct profile name = .ok found ∧
    ServesAs lib document targetEntries profile name route location found

theorem validatePlacedRoute_eq_ok {profiles : Table PlacementProfile} {profileName name : String} :
    validatePlacedRoute lib document targetEntries profiles profileName name route location =
        .ok () ↔
      ∃ profile, profiles[profileName]? = some profile ∧
        PlacedValid lib document targetEntries profile name route location := by
  simp only [validatePlacedRoute, bind_eq_ok, require_eq_ok, orRefuse_eq_ok]
  constructor
  · rintro ⟨_, hunmanaged, profile, hprofile, _, hserves, _, hcovers, found, hfound, hactive⟩
    refine ⟨profile, hprofile, hunmanaged, hserves, hcovers, found, hfound, ?_⟩
    cases found with
    | some product => exact hactive
    | none =>
      simp only [bind_eq_ok, require_eq_ok] at hactive
      obtain ⟨host, hhost, rfl⟩ := hactive
      exact hhost
  · rintro ⟨profile, hprofile, h⟩
    obtain ⟨found, hfound, hactive⟩ := h.active
    refine ⟨(), h.unmanaged, profile, hprofile, (), h.serves, (), h.covers, found, hfound, ?_⟩
    cases found with
    | some product => exact hactive
    | none =>
      simp only [bind_eq_ok, require_eq_ok]
      exact ⟨route.activeHost, hactive, rfl⟩

theorem validateReleaseControlledRoute_eq_ok {product : String} :
    validateReleaseControlledRoute lib document targetEntries profile service route product
        location = .ok () ↔
      (∀ (host : String) (target : Target), targetEntries[host]? = some target →
        Catalogued lib service ∧ declares lib target.records service = false) ∧
      validateReleaseServing lib document profile service route product location = .ok () := by
  simp only [validateReleaseControlledRoute, bind_eq_ok, each_toList_eq_ok, refuseIf,
    require_eq_ok, targetDeclaresService_eq_ok]
  constructor
  · rintro ⟨_, htargets, hserving⟩
    refine ⟨fun host target htarget => ?_, hserving⟩
    obtain ⟨found, ⟨hcatalog, hfound⟩, hfalse⟩ := htargets host target htarget
    exact ⟨hcatalog, hfound.trans hfalse⟩
  · rintro ⟨htargets, hserving⟩
    refine ⟨(), fun host target htarget => ?_, hserving⟩
    exact ⟨false, htargets host target htarget, rfl⟩

theorem validateFixedRoute_eq_ok :
    validateFixedRoute lib targetEntries route location = .ok () ↔
      ∃ managed, route.managedService = some managed ∧
        validateIdentifier managed s!"{location}.managed_service" = .ok () ∧
        ∃ target, targetEntries[route.activeHost]? = some target ∧ Catalogued lib managed ∧
          declares lib target.records managed = true := by
  simp only [validateFixedRoute, bind_eq_ok, orRefuse_eq_ok, require_eq_ok,
    targetDeclaresService_eq_ok]
  constructor
  · rintro ⟨managed, hmanaged, _, hidentifier, target, htarget, found, ⟨hcatalog, hfound⟩, htrue⟩
    exact ⟨managed, hmanaged, hidentifier, target, htarget, hcatalog, hfound.trans htrue⟩
  · rintro ⟨managed, hmanaged, hidentifier, target, htarget, hcatalog, htrue⟩
    exact ⟨managed, hmanaged, (), hidentifier, target, htarget, true, ⟨hcatalog, htrue⟩, rfl⟩

/-- An endpoint passes at one location when it passes at another. -/
theorem validateEndpoint_location {endpoint : ServiceEndpoint} {other : String}
    (h : validateEndpoint lib endpoint location = .ok ()) :
    validateEndpoint lib endpoint other = .ok () := by
  simp only [validateEndpoint, bind_eq_ok, mapError_eq_ok, require_eq_ok] at h ⊢
  obtain ⟨url, hurl, _, hscheme, _, hbare, _, hpath, _, hloopback, hbase⟩ := h
  refine ⟨url, hurl, (), hscheme, (), hbare, (), hpath, (), hloopback, ?_⟩
  cases hbasePath : endpoint.basePath with
  | none => rfl
  | some basePath =>
    simp only [hbasePath, refuseIf, require_eq_ok] at hbase ⊢
    exact hbase

theorem validateEndpoints_eq_ok :
    validateEndpoints lib targetEntries route location = .ok () ↔
      ∀ (host : String) (endpoint : ServiceEndpoint), route.endpoints[host]? = some endpoint →
        (∃ target, targetEntries[host]? = some target ∧ target.ssh ≠ none) ∧
          validateEndpoint lib endpoint location = .ok () := by
  simp only [validateEndpoints, each_toList_eq_ok, bind_eq_ok, orRefuse_eq_ok, require_eq_ok]
  refine forall_congr' fun host => forall_congr' fun endpoint => imp_congr_right fun _ => ?_
  constructor
  · rintro ⟨target, htarget, _, hendpoint, hssh⟩
    exact ⟨⟨target, htarget, hssh⟩, validateEndpoint_location hendpoint⟩
  · rintro ⟨⟨target, htarget, hssh⟩, hendpoint⟩
    exact ⟨target, htarget, (), validateEndpoint_location hendpoint, hssh⟩

theorem validateStandby_eq_ok :
    validateStandby lib targetEntries route location = .ok () ↔
      ∀ (host : String) (endpoint : ServiceEndpoint), route.standby[host]? = some endpoint →
        host ∈ targetEntries ∧ host ≠ route.activeHost ∧
          validateEndpoint lib endpoint location = .ok () := by
  simp only [validateStandby, each_toList_eq_ok, bind_eq_ok, require_eq_ok]
  refine forall_congr' fun host => forall_congr' fun endpoint => imp_congr_right fun _ => ?_
  constructor
  · rintro ⟨_, htarget, _, hactive, hendpoint⟩
    exact ⟨htarget, hactive, validateEndpoint_location hendpoint⟩
  · rintro ⟨htarget, hactive, hendpoint⟩
    exact ⟨(), htarget, (), hactive, validateEndpoint_location hendpoint⟩

/-! ## Targets that differ in their records -/

/-- A target without its records. -/
def Target.bare (target : Target) : Target := { target with services := none }

/-- Two tables of targets that differ in their records alone. -/
def SameTargets (targetEntries targetEntries' : Table Target) : Prop :=
  ∀ host : String, targetEntries[host]?.map bare = targetEntries'[host]?.map bare

variable {targetEntries' : Table Target}

theorem SameTargets.symm (h : SameTargets targetEntries targetEntries') :
    SameTargets targetEntries' targetEntries := fun host => (h host).symm

variable {host location : String} {document' : Document} {directory directory' : ServiceDirectory}
  {service product : String}

section

variable (h : SameTargets targetEntries targetEntries')

include h

theorem SameTargets.some (htarget : targetEntries[host]? = some target) :
    ∃ target', targetEntries'[host]? = some target' ∧ target'.bare = target.bare := by
  have hsame := h host
  rw [htarget] at hsame
  exact map_eq_some_iff.mp hsame.symm

theorem SameTargets.none_iff : targetEntries[host]? = none ↔ targetEntries'[host]? = none := by
  rw [← map_eq_none_iff (f := bare), h host, map_eq_none_iff]

theorem SameTargets.mem_iff : host ∈ targetEntries ↔ host ∈ targetEntries' := by
  rw [mem_iff_isSome_getElem?, mem_iff_isSome_getElem?, isSome_iff_ne_none,
    isSome_iff_ne_none, ne_eq, ne_eq, h.none_iff]

theorem SameTargets.authority {authority : ServiceAuthority}
    (hauthority : validateAuthority authority targetEntries = .ok ()) :
    validateAuthority authority targetEntries' = .ok () := by
  simp only [validateAuthority, bind_eq_ok, orRefuse_eq_ok, require_eq_ok] at hauthority ⊢
  obtain ⟨target, htarget, _, hcommand, hpaths⟩ := hauthority
  obtain ⟨target', htarget', hbare⟩ := h.some htarget
  have hssh : target'.ssh = target.ssh := (congrArg ssh hbare :)
  have hfallbacks : target'.sshFallbacks = target.sshFallbacks := (congrArg sshFallbacks hbare :)
  refine ⟨target', htarget', (), hcommand, ?_⟩
  rw [hasPrimary, hasFallback, hssh, hfallbacks]
  exact hpaths

theorem SameTargets.endpoints
    (hendpoints : validateEndpoints lib targetEntries route location = .ok ()) :
    validateEndpoints lib targetEntries' route location = .ok () := by
  rw [validateEndpoints_eq_ok] at hendpoints ⊢
  intro host endpoint hendpoint
  obtain ⟨⟨target, htarget, hssh⟩, hpasses⟩ := hendpoints host endpoint hendpoint
  obtain ⟨target', htarget', hbare⟩ := h.some htarget
  have hsame : target'.ssh = target.ssh := (congrArg ssh hbare :)
  exact ⟨⟨target', htarget', by rwa [hsame]⟩, hpasses⟩

theorem SameTargets.standby (hstandby : validateStandby lib targetEntries route location = .ok ()) :
    validateStandby lib targetEntries' route location = .ok () := by
  rw [validateStandby_eq_ok] at hstandby ⊢
  intro host endpoint hendpoint
  obtain ⟨htarget, hrest⟩ := hstandby host endpoint hendpoint
  exact ⟨h.mem_iff.mp htarget, hrest⟩

theorem SameTargets.ports (hcontrol : document'.releaseControl = document.releaseControl)
    (hports : refuseReleasePortCollisions document targetEntries = .ok ()) :
    refuseReleasePortCollisions document' targetEntries' = .ok () := by
  simp only [refuseReleasePortCollisions, bind_eq_ok, control_eq_ok, hcontrol] at hports ⊢
  obtain ⟨found, hfound, hpasses⟩ := hports
  refine ⟨found, hfound, ?_⟩
  cases found with
  | none => rfl
  | some control =>
    simp only [each_toList_eq_ok] at hpasses ⊢
    intro host target' htarget'
    obtain ⟨target, htarget, hbare⟩ := h.symm.some htarget'
    have hresolver : target.serviceResolver = target'.serviceResolver :=
      (congrArg serviceResolver hbare :)
    have := hpasses host target htarget
    rwa [hresolver] at this

end

def SameServices (directory directory' : ServiceDirectory) : Prop :=
  ∀ service : String, directory.services[service]?.map (fun route =>
      (route.placementProfile, route.consumers)) =
    directory'.services[service]?.map fun route => (route.placementProfile, route.consumers)

theorem SameServices.some (h : SameServices directory directory')
    (hroute : directory.services[service]? = some route) :
    ∃ route', directory'.services[service]? = some route' ∧
      route'.placementProfile = route.placementProfile ∧ route'.consumers = route.consumers := by
  have hsame := h service
  rw [hroute] at hsame
  obtain ⟨route', hroute', heq⟩ := map_eq_some_iff.mp hsame.symm
  exact ⟨route', hroute', Prod.mk.inj heq⟩

theorem SameServices.resolver (h : SameServices directory directory') {name : String}
    {target target' : Target} (hbare : target'.bare = target.bare)
    (hresolver : validateResolverConfig name target directory = .ok ()) :
    validateResolverConfig name target' directory' = .ok () := by
  have hsame : target'.serviceResolver = target.serviceResolver :=
    (congrArg serviceResolver hbare :)
  simp only [validateResolverConfig, bind_eq_ok, mapError_eq_ok, hsame] at hresolver ⊢
  obtain ⟨declared, hdeclared, hpasses⟩ := hresolver
  refine ⟨declared, hdeclared, ?_⟩
  cases declared with
  | none => rfl
  | some config =>
    simp only [bind_eq_ok, require_eq_ok, orRefuse_eq_ok, fresh_eq_ok] at hpasses ⊢
    obtain ⟨_, hrefresh, _, hstale, api, hapi, _, hloopback, hchecks, hfresh⟩ := hpasses
    refine ⟨(), hrefresh, (), hstale, api, hapi, (), hloopback, fun entry hmem => ?_, hfresh⟩
    obtain ⟨hbefore, route, hroute, hconsumer⟩ := hchecks entry hmem
    obtain ⟨route', hroute', -, hconsumers⟩ := h.some hroute
    exact ⟨hbefore, route', hroute', by rwa [hconsumers]⟩

theorem validateProfiles_eq_ok {profiles : Table PlacementProfile} :
    validateProfiles profiles directory = .ok () ↔
      ∀ (name : String) (profile : PlacementProfile), profiles[name]? = some profile →
        ∀ service ∈ profile.services, ∃ route : ServiceRoute,
          directory.services[service]? = some route ∧ route.placementProfile = some name := by
  rw [validateProfiles, each_toList_eq_ok]
  simp only [each_eq_ok, bind_eq_ok, orRefuse_eq_ok, require_eq_ok]

theorem SameServices.profiles (h : SameServices directory directory')
    {profiles : Table PlacementProfile} (hprofiles : validateProfiles profiles directory = .ok ()) :
    validateProfiles profiles directory' = .ok () := by
  rw [validateProfiles_eq_ok] at hprofiles ⊢
  intro name profile hprofile service hservice
  obtain ⟨route, hroute, hplaced⟩ := hprofiles name profile hprofile service hservice
  obtain ⟨route', hroute', hsame, -⟩ := h.some hroute
  exact ⟨route', hroute', hsame.trans hplaced⟩

/-! ## What a route reads of the targets' records -/

/-- The names a route's check asks the targets for: a fixed route its managed
service on its active host, a release-controlled one its own name everywhere, and
a managed one its unit's name on each host of its profile. -/
def ReadsName (profiles : Table PlacementProfile) (service : String) (route : ServiceRoute)
    (host name : String) : Prop :=
  match route.placementProfile with
  | none => host = route.activeHost ∧ route.managedService = some name
  | some profileName => ∃ profile, profiles[profileName]? = some profile ∧
      ((∃ product, releaseControlledProduct profile service = .ok (some product)) ∧ name = service ∨
        releaseControlledProduct profile service = .ok none ∧ ∃ hostProfile unit,
          profile.hosts[host]? = some hostProfile ∧ hostProfile.units[service]? = some unit ∧
            name = unit.name)

theorem fixed_iff (h : SameTargets targetEntries targetEntries')
    (hfixed : validateFixedRoute lib targetEntries route location = .ok ()) :
    validateFixedRoute lib targetEntries' route location = .ok () ↔
      ∀ name, route.managedService = some name →
        declaresOn lib targetEntries'[route.activeHost]? name =
          declaresOn lib targetEntries[route.activeHost]? name := by
  obtain ⟨managed, hmanaged, hidentifier, target, htarget, hcatalog, htrue⟩ :=
    validateFixedRoute_eq_ok.mp hfixed
  obtain ⟨target', htarget', -⟩ := h.some htarget
  rw [validateFixedRoute_eq_ok]
  constructor
  · rintro ⟨other, hother, -, found, hfound, -, hdeclares⟩ name hname
    rw [hmanaged] at hother hname
    cases hother
    cases hname
    simp only [hfound, htarget, declaresOn, hdeclares, htrue]
  · intro hsame
    have hdeclares := hsame managed hmanaged
    simp only [htarget', htarget, declaresOn, htrue] at hdeclares
    exact ⟨managed, hmanaged, hidentifier, target', htarget', hcatalog, hdeclares⟩

theorem HostReads.same (h : SameTargets targetEntries targetEntries')
    {entry : String × PlacementHost} (hreads : HostReads lib targetEntries service entry) :
    HostReads lib targetEntries' service entry := by
  obtain ⟨unit, hunit, hcatalog⟩ := hreads
  exact ⟨unit, hunit, fun hne => hcatalog fun hnone => hne (h.none_iff.mp hnone)⟩

theorem managed_iff (h : SameTargets targetEntries targetEntries') {service active : String}
    (hactive : activeProfileHost lib profile service targetEntries = .ok active) :
    activeProfileHost lib profile service targetEntries' = .ok active ↔
      ∀ (host : String) (hostProfile : PlacementHost) (unit : PlacementUnit),
        profile.hosts[host]? = some hostProfile → hostProfile.units[service]? = some unit →
          declaresOn lib targetEntries'[host]? unit.name =
            declaresOn lib targetEntries[host]? unit.name := by
  obtain ⟨hreads, hmem, hone⟩ := activeProfileHost_eq_ok.mp hactive
  rw [activeProfileHost_eq_ok]
  constructor
  · rintro ⟨-, -, hone'⟩ host hostProfile unit hhost hunit
    have hbefore := hone host hostProfile hhost
    have hafter := hone' host hostProfile hhost
    simp only [hostDeclares, hunit] at hbefore hafter
    rw [Bool.eq_iff_iff, hbefore, hafter]
  · intro hsame
    refine ⟨fun entry hentry => (hreads entry hentry).same h, hmem, ?_⟩
    intro host hostProfile hhost
    have hbefore := hone host hostProfile hhost
    obtain ⟨unit, hunit, -⟩ :=
      hreads (host, hostProfile) (mem_toList_iff_getElem?_eq_some.mpr hhost)
    simp only [hostDeclares, hunit] at hbefore ⊢
    rw [hsame host hostProfile unit hhost hunit]
    exact hbefore

theorem validateReleaseServing_congr (hcontrol : document'.releaseControl = document.releaseControl) :
    validateReleaseServing lib document' profile service route product location =
      validateReleaseServing lib document profile service route product location := by
  simp only [validateReleaseServing, control, hcontrol]

theorem released_iff (h : SameTargets targetEntries targetEntries')
    (hcontrol : document'.releaseControl = document.releaseControl)
    (hreleased : validateReleaseControlledRoute lib document targetEntries profile service route
      product location = .ok ()) :
    validateReleaseControlledRoute lib document' targetEntries' profile service route product
        location = .ok () ↔
      ∀ host : String, declaresOn lib targetEntries'[host]? service =
        declaresOn lib targetEntries[host]? service := by
  obtain ⟨htargets, hserving⟩ := validateReleaseControlledRoute_eq_ok.mp hreleased
  rw [validateReleaseControlledRoute_eq_ok, validateReleaseServing_congr hcontrol]
  have hnone (host : String) : declaresOn lib targetEntries[host]? service = false := by
    cases htarget : targetEntries[host]? with
    | none => rfl
    | some target => exact (htargets host target htarget).2
  constructor
  · rintro ⟨hafter, -⟩ host
    rw [hnone host]
    cases htarget : targetEntries'[host]? with
    | none => rfl
    | some target => exact (hafter host target htarget).2
  · intro hsame
    refine ⟨fun host target' htarget' => ?_, hserving⟩
    obtain ⟨target, htarget, -⟩ := h.symm.some htarget'
    have hdeclares := hsame host
    rw [hnone host, htarget'] at hdeclares
    exact ⟨(htargets host target htarget).1, hdeclares⟩

/-- A route that is not rewritten still passes exactly when the targets answer as
before for the names it reads. -/
theorem routeValid_iff (h : SameTargets targetEntries targetEntries')
    (hcontrol : document'.releaseControl = document.releaseControl)
    {profiles : Table PlacementProfile}
    (hvalid : RouteValid lib document targetEntries profiles service route location) :
    RouteValid lib document' targetEntries' profiles service route location ↔
      ∀ host name, ReadsName profiles service route host name →
        declaresOn lib targetEntries'[host]? name = declaresOn lib targetEntries[host]? name := by
  have hplaced := hvalid.placed
  have hiff : RouteValid lib document' targetEntries' profiles service route location ↔
      PlacementValid lib document' targetEntries' profiles service route location
        route.placementProfile := by
    refine ⟨fun hafter => hafter.placed, fun hplaced' => ?_⟩
    exact ⟨hvalid.identifier, hvalid.verify, hvalid.declaration, h.mem_iff.mp hvalid.activeHost,
      hvalid.addressed, hvalid.active, h.endpoints hvalid.endpoints, h.standby hvalid.standby,
      hvalid.admits, hvalid.consumers, hplaced'⟩
  rw [hiff]
  cases hprofile : route.placementProfile with
  | none =>
    simp only [hprofile, PlacementValid] at hplaced
    simp only [ReadsName, hprofile, PlacementValid, fixed_iff h hplaced]
    constructor
    · rintro hsame _ name ⟨rfl, hname⟩
      exact hsame name hname
    · exact fun hsame name hname => hsame route.activeHost name ⟨rfl, hname⟩
  | some profileName =>
    simp only [hprofile, PlacementValid] at hplaced
    obtain ⟨profile, hfound, hcontract⟩ := validatePlacedRoute_eq_ok.mp hplaced
    obtain ⟨product, hproduct, hactive⟩ := hcontract.active
    have hafter : validatePlacedRoute lib document' targetEntries' profiles profileName service
        route location = .ok () ↔
        ServesAs lib document' targetEntries' profile service route location product := by
      rw [validatePlacedRoute_eq_ok]
      constructor
      · rintro ⟨other, hother, hcontract'⟩
        rw [hfound] at hother
        cases hother
        obtain ⟨product', hproduct', hactive'⟩ := hcontract'.active
        rw [hproduct] at hproduct'
        cases hproduct'
        exact hactive'
      · exact fun hactive' => ⟨profile, hfound, hcontract.unmanaged, hcontract.serves,
          hcontract.covers, product, hproduct, hactive'⟩
    simp only [PlacementValid, hafter, ReadsName, hprofile, hfound, Option.some.injEq,
      exists_eq_left']
    cases product with
    | some product =>
      simp only [ServesAs] at hactive
      simp only [ServesAs, hproduct, released_iff h hcontrol hactive]
      constructor
      · rintro hsame host name (⟨-, rfl⟩ | ⟨heq, -⟩)
        · exact hsame host
        · cases heq
      · exact fun hsame host => hsame host service (.inl ⟨⟨product, rfl⟩, rfl⟩)
    | none =>
      simp only [ServesAs] at hactive
      simp only [ServesAs, hproduct, managed_iff h hactive]
      constructor
      · rintro hsame host name (⟨⟨_, heq⟩, -⟩ | ⟨-, hostProfile, unit, hhost, hunit, rfl⟩)
        · cases heq
        · exact hsame host hostProfile unit hhost hunit
      · exact fun hsame host hostProfile unit hhost hunit =>
          hsame host unit.name (.inr ⟨trivial, hostProfile, unit, hhost, hunit, rfl⟩)

end Stado.Directory
