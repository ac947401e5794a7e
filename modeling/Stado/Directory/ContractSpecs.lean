import Stado.Directory.Releases

/-!
# What an accepted document says

The contracts as propositions: a document is accepted when it has no directory
or every part of its directory passes, and what each part that passes says.
-/

namespace Stado.Directory

open Std Checks List Option ReleaseTargetPolicy

variable {lib : Readers} {document : Document} {targetEntries : Table Target} {targetName : String}
  {target : Target}

theorem directory_eq_ok {found : Option ServiceDirectory} :
    directory document = .ok found ↔ document.serviceDirectory = .ok found :=
  mapError_eq_ok

theorem profiles_eq_ok {found : List PlacementProfile} :
    profiles document = .ok found ↔ document.placementProfiles = .ok found :=
  mapError_eq_ok

theorem transactions_eq_ok {found : List PlacementTransaction} :
    transactions document = .ok found ↔ document.placementTransactions = .ok found :=
  mapError_eq_ok

theorem control_eq_ok {found : Option ReleaseControl} :
    control document = .ok found ↔ document.releaseControl = .ok found :=
  mapError_eq_ok

/-! ## The directory's contract -/

/-- A directory every part of which passes. -/
structure Valid (lib : Readers) (document : Document) (directory : ServiceDirectory)
    (targetEntries : Table Target) (profiles : Table PlacementProfile) : Prop where
  generation : directory.generation ≠ 0
  services : directory.services.isEmpty = false
  authority : validateAuthority directory.authority targetEntries = .ok ()
  routes : ∀ name route, directory.services[name]? = some route →
    validateRoute lib document targetEntries profiles name route = .ok ()
  profiles : validateProfiles profiles directory = .ok ()
  resolvers : ∀ name target, targetEntries[name]? = some target →
    validateResolverConfig name target directory = .ok ()
  ports : refuseReleasePortCollisions document targetEntries = .ok ()

theorem validateRegistryContract_eq_ok :
    validateRegistryContract lib document = .ok () ↔ document.serviceDirectory = .ok none ∨
      ∃ directory targetEntries profiles, document.serviceDirectory = .ok (some directory) ∧
        targets document = .ok targetEntries ∧ document.placementProfiles = .ok profiles ∧
        Valid lib document directory targetEntries (profilesByName profiles) := by
  simp only [validateRegistryContract, bind_eq_ok, directory_eq_ok]
  constructor
  · rintro ⟨found, hfound, hcheck⟩
    cases found with
    | none => exact .inl hfound
    | some directory =>
      simp only [bind_eq_ok, require_eq_ok, each_toList_eq_ok, profiles_eq_ok] at hcheck
      obtain ⟨_, hgeneration, _, hservices, targetEntries, htargets, _, hauthority, profiles,
        hprofiles, _, hroutes, _, hcovered, _, hresolvers, hports⟩ := hcheck
      exact .inr ⟨directory, targetEntries, profiles, hfound, htargets, hprofiles, hgeneration,
        hservices, hauthority, hroutes, hcovered, hresolvers, hports⟩
  · rintro (hnone | ⟨directory, targetEntries, profiles, hfound, htargets, hprofiles, hvalid⟩)
    · exact ⟨none, hnone, rfl⟩
    · refine ⟨some directory, hfound, ?_⟩
      simp only [bind_eq_ok, require_eq_ok, each_toList_eq_ok, profiles_eq_ok]
      exact ⟨(), hvalid.generation, (), hvalid.services, targetEntries, htargets, (),
        hvalid.authority, profiles, hprofiles, (), hvalid.routes, (), hvalid.profiles, (),
        hvalid.resolvers, hvalid.ports⟩

def PlacementValid (lib : Readers) (document : Document) (targetEntries : Table Target)
    (profiles : Table PlacementProfile) (name : String) (route : ServiceRoute)
    (location : String) : Option String → Prop
  | some profileName => validatePlacedRoute lib document targetEntries profiles profileName name
      route location = .ok ()
  | none => validateFixedRoute lib targetEntries route location = .ok ()

/-- What every route that passes says of itself. -/
structure RouteValid (lib : Readers) (document : Document) (targetEntries : Table Target)
    (profiles : Table PlacementProfile) (name : String) (route : ServiceRoute)
    (location : String) : Prop where
  identifier : validateIdentifier name location = .ok ()
  verify : refuseProblems ((route.verify.map (validateVerification location)).getD []) = .ok ()
  declaration :
    refuseProblems ((route.declaration.map (validateDeclaration location)).getD []) = .ok ()
  activeHost : route.activeHost ∈ targetEntries
  addressed : route.endpoints.isEmpty = false
  active : route.activeHost ∈ route.endpoints
  endpoints : validateEndpoints lib targetEntries route location = .ok ()
  standby : validateStandby lib targetEntries route location = .ok ()
  admits : route.consumers.isEmpty = false
  consumers : validateConsumers route location = .ok ()
  placed : PlacementValid lib document targetEntries profiles name route location
    route.placementProfile

theorem validateRoute_eq_ok {profiles : Table PlacementProfile}
    {name : String} {route : ServiceRoute} :
    validateRoute lib document targetEntries profiles name route = .ok () ↔
      RouteValid lib document targetEntries profiles name route
        s!"registry.service_directory.services.{name}" := by
  simp only [validateRoute, bind_eq_ok, require_eq_ok]
  constructor
  · rintro ⟨_, hidentifier, _, hverify, _, hdeclaration, _, hactiveHost, _, haddressed, _, hactive,
      _, hendpoints, _, hstandby, _, hadmits, _, hconsumers, hplaced⟩
    refine ⟨hidentifier, hverify, hdeclaration, hactiveHost, haddressed, hactive, hendpoints,
      hstandby, hadmits, hconsumers, ?_⟩
    cases hprofile : route.placementProfile with
    | _ => simpa only [hprofile, PlacementValid] using hplaced
  · intro h
    refine ⟨(), h.identifier, (), h.verify, (), h.declaration, (), h.activeHost, (), h.addressed,
      (), h.active, (), h.endpoints, (), h.standby, (), h.admits, (), h.consumers, ?_⟩
    have hplaced := h.placed
    cases hprofile : route.placementProfile with
    | _ => simpa only [hprofile, PlacementValid] using hplaced

def ResolverConfig.binds (config : ResolverConfig) : List String :=
  config.apiBind :: config.adapters.map (·.bind)

/-- The binds of a resolver that passes are sockets, and no two are written
alike. -/
theorem binds_of_valid {directory : ServiceDirectory}
    {config : ResolverConfig} (hconfig : target.serviceResolver = .ok (some config))
    (h : validateResolverConfig targetName target directory = .ok ()) :
    config.binds.Nodup ∧ ∀ bind ∈ config.binds, (parseSocketAddr bind).isSome := by
  simp only [validateResolverConfig, bind_eq_ok, mapError_eq_ok, hconfig, Except.ok.injEq,
    exists_eq_left', require_eq_ok, orRefuse_eq_ok, fresh_eq_ok] at h
  obtain ⟨_, -, _, -, api, hapi, _, -, hchecks, hnodup, hnew⟩ := h
  have hadapters : config.adapters.zipIdx.map Prod.fst = config.adapters :=
    zipIdx_map_fst 0 config.adapters
  have hkeys : config.adapters.zipIdx.map (fun adapter => adapter.1.bind) =
      config.adapters.map (·.bind) := by
    rw [← congrArg (List.map (·.bind)) hadapters, List.map_map]
    rfl
  have hindexed {adapter : ResolverAdapter} (hmem : adapter ∈ config.adapters) :
      ∃ index, (adapter, index) ∈ config.adapters.zipIdx := by
    rw [← hadapters] at hmem
    obtain ⟨⟨_, index⟩, hpair, rfl⟩ := List.mem_map.mp hmem
    exact ⟨index, hpair⟩
  constructor
  · rw [ResolverConfig.binds, nodup_cons, ← hkeys]
    refine ⟨?_, hnodup⟩
    intro hmem
    obtain ⟨pair, hpair, heq⟩ := List.mem_map.mp hmem
    exact hnew pair hpair (mem_singleton.mpr heq)
  · intro bind hmem
    rcases mem_cons.mp hmem with rfl | hmem
    · exact isSome_iff_exists.mpr ⟨api, hapi⟩
    · obtain ⟨adapter, hadapter, rfl⟩ := List.mem_map.mp hmem
      obtain ⟨index, hpair⟩ := hindexed hadapter
      obtain ⟨⟨_, -, _, -, socket, hsocket, -⟩, -⟩ := hchecks _ hpair
      exact isSome_iff_exists.mpr ⟨socket, hsocket⟩

variable {config : ResolverConfig} {port : ℕ} {product : String} {policy : ProductReleasePolicy}
  {claimed : TreeMap ℕ String} {control : ReleaseControl}

theorem mem_claimPort {found : Option ℕ} {claimant : String}
    : port ∈ claimPort claimed found claimant ↔ found = some port ∨ port ∈ claimed := by
  cases found with
  | _ => simp [claimPort]

theorem mem_claimAdapters {adapters : List ResolverAdapter} :
    port ∈ adapters.foldl (fun claimed adapter =>
        claimPort claimed (socketPort adapter.bind) ("resolver adapter " ++ adapter.service))
      claimed ↔ (∃ adapter ∈ adapters, socketPort adapter.bind = some port) ∨ port ∈ claimed := by
  induction adapters generalizing claimed with
  | nil => simp
  | cons adapter later ih =>
    rw [foldl_cons, ih, mem_claimPort]
    simp only [mem_cons, exists_eq_or_imp]
    exact or_left_comm.trans or_assoc.symm

theorem mem_claimedPorts :
    port ∈ claimedPorts config ↔ ∃ bind ∈ config.binds, socketPort bind = some port := by
  simp [claimedPorts, mem_claimPort, mem_claimAdapters, ResolverConfig.binds]

theorem releasePorts_unclaimed {release : ReleaseTargetPolicy}
    (h : refuseReleasePortCollisions document targetEntries = .ok ())
    (hcontrol : document.releaseControl = .ok (some control))
    (htarget : targetEntries[targetName]? = some target)
    (hconfig : target.serviceResolver = .ok (some config))
    (hproduct : control.products[product]? = some policy)
    (hrelease : policy.targets[targetName]? = some release) :
    ∀ claim ∈ releasePorts release, claim.1 ∉ claimedPorts config := by
  simp only [refuseReleasePortCollisions, bind_eq_ok, control_eq_ok, hcontrol, Except.ok.injEq,
    exists_eq_left', each_toList_eq_ok] at h
  have htargetPasses := h targetName target htarget
  simp only [hconfig, each_toList_eq_ok] at htargetPasses
  have hpasses := htargetPasses product policy hproduct
  simp only [hrelease, each_eq_ok] at hpasses
  rintro ⟨port, what⟩ hclaim hmem
  have hpass := hpasses (port, what) hclaim
  obtain ⟨claimant, hclaimant⟩ := isSome_iff_exists.mp (TreeMap.mem_iff_isSome_getElem?.mp hmem)
  simp [hclaimant] at hpass

/-- The sockets one release target claims: its stable bind, and its candidates on
the loopback address they are started on. -/
def ReleaseTargetPolicy.sockets (policy : ReleaseTargetPolicy) : List SocketAddr :=
  (policy.stableBind.bind parseSocketAddr).toList ++ (match policy.candidatePorts with
      | some (first, second) => [⟨candidateIp, first, 0⟩, ⟨candidateIp, second, 0⟩]
      | none => [])

theorem port_of_sockets {policy : ReleaseTargetPolicy} {socket : SocketAddr}
    (h : socket ∈ policy.sockets) : ∃ what, (socket.port, what) ∈ releasePorts policy := by
  rcases mem_append.mp h with hstable | hcandidate
  · obtain ⟨bind, hbind, hparse⟩ := bind_eq_some_iff.mp (mem_toList.mp hstable)
    refine ⟨"stable_bind", mem_append_left _ ?_⟩
    simp [hbind, socketPort_of_parse hparse]
  · refine ⟨"candidate port", mem_append_right _ ?_⟩
    cases hports : policy.candidatePorts with
    | none => simp [hports] at hcandidate
    | some ports =>
      simp only [hports, mem_cons, not_mem_nil, or_false] at hcandidate
      rcases hcandidate with rfl | rfl
      · simp
      · simp

theorem sockets_nodup {strategy : StrategyKind} {targetNames : List String}
    {target : String} {policy : ReleaseTargetPolicy}
    (h : validateReleaseTarget strategy targetNames target policy product = .ok ()) :
    policy.sockets.Nodup := by
  simp only [validateReleaseTarget, bind_eq_ok, require_eq_ok] at h
  obtain ⟨_, -, _, -, serving, hserving, _, -, _, -, hvalid⟩ := h
  cases strategy with
  | replace =>
    simp only [servingOf] at hserving
    split_ifs at hserving with hnone
    simp [sockets, hnone]
  | blueGreen =>
    simp only [servingOf, mapError_eq_ok, blueGreenServing] at hserving
    cases hstable : policy.stableBind with
    | none => simp [hstable, Except.map] at hserving
    | some stableBind =>
      cases hports : policy.candidatePorts with
      | none => simp [hstable, hports, Except.map] at hserving
      | some ports =>
        cases hpath : policy.readinessPath with
        | none => simp [hstable, hports, hpath, Except.map] at hserving
        | some path =>
          simp only [hstable, hports, hpath, Except.map, Except.ok.injEq] at hserving
          subst hserving
          simp only [validateServing, bind_eq_ok, orRefuse_eq_ok, require_eq_ok] at hvalid
          obtain ⟨bind, hparse, -, hcandidates, hfirst, hsecond⟩ := hvalid
          have hne {port : ℕ} (h : bind.port ≠ port) : bind ≠ ⟨candidateIp, port, 0⟩ := by
            rintro rfl
            exact h rfl
          simp [sockets, hstable, hports, hparse, hcandidates,
            hne hfirst, hne hsecond]

/-- What a rollout policy that passes says of each target of each product, and
that its products name services of the directory. -/
theorem validateReleaseControl_product (h : validateReleaseControl lib document = .ok ())
    (hcontrol : document.releaseControl = .ok (some control))
    (hproduct : control.products[product]? = some policy) :
    (∃ directory, document.serviceDirectory = .ok (some directory)) ∧
      ∀ (target : String) (release : ReleaseTargetPolicy), policy.targets[target]? = some release →
        release.sockets.Nodup := by
  simp only [validateReleaseControl, bind_eq_ok, control_eq_ok, hcontrol, Except.ok.injEq,
    exists_eq_left', require_eq_ok, orRefuse_eq_ok, directory_eq_ok, each_toList_eq_ok] at h
  obtain ⟨_, -, _, -, _, -, _, -, entries, -, found, hfound, hproducts⟩ := h
  have hpasses := hproducts product policy hproduct
  simp only [validateProduct, bind_eq_ok, require_eq_ok, each_toList_eq_ok] at hpasses
  obtain ⟨_, ⟨-, hservice⟩, _, -, _, -, _, -, _, -, _, htargets, -⟩ := hpasses
  constructor
  · cases found with
    | none => simp at hservice
    | some directory => exact ⟨directory, hfound⟩
  · exact fun target release hrelease => sockets_nodup (htargets target release hrelease)

end Stado.Directory
