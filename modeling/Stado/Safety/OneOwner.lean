import Stado.Directory.ContractSpecs
import Mathlib.Data.List.Nodup
import Mathlib.Data.List.Pairwise

/-!
# An accepted registry resolves, and one socket has one owner

A document both contracts accept gives every socket of a host one owner and
resolves every service for every consumer its route names, exactly when no two
binds of one resolver spell one socket differently, no two products share a
socket of a host, the SSH fallbacks of every active host read as paths, and the
placement transactions read at all. Binds are compared as they are written, the
products of one host are not compared with each other, and neither contract
reads the fallbacks or the transactions that resolution reads.
-/

namespace Stado.Directory

open Std Checks List TreeMap

/-! ## What is claimed and answered -/

def resolverSockets (target : Target) : List SocketAddr :=
  match target.serviceResolver with
  | .ok (some config) => config.binds.filterMap parseSocketAddr
  | _ => []

def productSockets (target : String) (policy : ProductReleasePolicy) : List SocketAddr :=
  match policy.targets[target]? with
  | some release => release.sockets
  | none => []

def releaseSockets (document : Document) (target : String) : List SocketAddr :=
  match document.releaseControl with
  | .ok (some control) => control.products.toList.flatMap fun (_, policy) => productSockets target policy
  | _ => []

/-- On each target the claimed sockets are pairwise different. -/
def OneOwner (document : Document) : Prop :=
  ∀ targetEntries, targets document = .ok targetEntries →
    ∀ name target, targetEntries[name]? = some target →
      (resolverSockets target ++ releaseSockets document name).Nodup

def OpenOn (document : Document) (route : ServiceRoute) : Prop :=
  ∃ transactions, document.placementTransactions = .ok transactions ∧
    ∃ transaction ∈ transactions, route.placementProfile = some transaction.profile

/-- Every consumer a route names, while no transaction holds its profile, is
answered the active host's endpoint, its own capabilities and the directory's
generation; one the route does not name is refused. -/
def Resolves (document : Document) : Prop :=
  ∀ directory, document.serviceDirectory = .ok (some directory) →
    ∀ (service : String) (route : ServiceRoute), directory.services[service]? = some route →
      (∀ (consumer : String) (policy : ServiceConsumer), route.consumers[consumer]? = some policy →
        ¬ OpenOn document route → ∃ endpoint answer,
          route.endpoints[route.activeHost]? = some endpoint ∧
          resolve document service consumer = .ok answer ∧ answer.activeHost = route.activeHost ∧
          answer.endpoint = endpoint ∧ answer.capabilities = policy.capabilities ∧
          answer.generation = directory.generation) ∧
      ∀ consumer, consumer ∉ route.consumers →
        resolve document service consumer = .error (.unauthorized service consumer)

/-- No two binds of a resolver that are written differently are one socket; in a
registry that predates the directory, no two binds are. -/
def BindsApart (document : Document) (target : Target) : Prop :=
  ∀ config, target.serviceResolver = .ok (some config) → config.binds.Pairwise fun bind other =>
      (bind ≠ other ∨ document.serviceDirectory = .ok none) →
        ∀ socket, parseSocketAddr bind = some socket → parseSocketAddr other ≠ some socket

def ProductsApart (document : Document) (target : String) : Prop :=
  ∀ control, document.releaseControl = .ok (some control) →
    ∀ (product other : String) (policy policy' : ProductReleasePolicy), product ≠ other →
      control.products[product]? = some policy → control.products[other]? = some policy' →
        (productSockets target policy).Disjoint (productSockets target policy')

/-- What resolution reads of a route, and no contract, reads: the placement
transactions unless nothing holds the route, and the SSH fallbacks of its active
host unless a transaction holds it. -/
def RouteReads (document : Document) (targetEntries : Table Target) (service : String)
    (route : ServiceRoute) : Prop :=
  (route.placementProfile = none ∨ service = vaultService ∨
    ∃ transactions, document.placementTransactions = .ok transactions) ∧
  (¬ OpenOn document route → ∀ target, targetEntries[route.activeHost]? = some target →
    ∀ listed cause, target.sshFallbacks ≠ some (.unread listed cause))

/-- The condition under which an accepted document keeps its promises. -/
def Consistent (document : Document) : Prop :=
  ∀ targetEntries, targets document = .ok targetEntries →
    (∀ name target, targetEntries[name]? = some target →
      BindsApart document target ∧ ProductsApart document name) ∧
    ∀ directory, document.serviceDirectory = .ok (some directory) →
      ∀ service route, directory.services[service]? = some route →
        RouteReads document targetEntries service route

/-! ## Owners -/

variable {lib : Readers} {document : Document} {target : Target}

theorem resolverSockets_nodup : (resolverSockets target).Nodup ↔
    ∀ config, target.serviceResolver = .ok (some config) → config.binds.Pairwise fun bind other =>
        ∀ socket, parseSocketAddr bind = some socket → parseSocketAddr other ≠ some socket := by
  have hpairwise (binds : List String) : (binds.filterMap parseSocketAddr).Nodup ↔
      binds.Pairwise fun bind other =>
        ∀ socket, parseSocketAddr bind = some socket → parseSocketAddr other ≠ some socket := by
    rw [List.Nodup, pairwise_filterMap]
    refine ⟨fun h => h.imp ?_, fun h => h.imp ?_⟩
    · intro bind other hapart socket hbind hother
      exact hapart socket hbind socket hother rfl
    · rintro bind other hapart socket hbind _ hother rfl
      exact hapart socket hbind hother
  unfold resolverSockets
  split
  · next config hconfig => simp [hconfig, hpairwise]
  · next hnone =>
    simp only [nodup_nil, true_iff]
    exact fun config hconfig => absurd hconfig (hnone config)

/-- With a directory that passes, a resolver's binds are written differently. -/
theorem bindsApart_iff (h : ∀ config, target.serviceResolver = .ok (some config) →
      document.serviceDirectory = .ok none ∨ config.binds.Nodup) :
    BindsApart document target ↔ (resolverSockets target).Nodup := by
  rw [resolverSockets_nodup]
  refine forall_congr' fun config => forall_congr' fun hconfig => ?_
  constructor
  · intro hapart
    rcases h config hconfig with hnone | hnodup
    · exact hapart.imp fun hpair => hpair (.inr hnone)
    · exact (hapart.and hnodup).imp fun hpair => hpair.1 (.inl hpair.2)
  · intro hapart
    refine hapart.imp ?_
    exact fun hpair _ => hpair

/-- The sockets of a host's releases are different ones when each product's are
and no two products share one. -/
theorem releaseSockets_nodup {target : String}
    (h : ∀ control, document.releaseControl = .ok (some control) →
      ∀ (product : String) (policy : ProductReleasePolicy), control.products[product]? = some policy →
        (productSockets target policy).Nodup) :
    (releaseSockets document target).Nodup ↔ ProductsApart document target := by
  unfold releaseSockets ProductsApart
  split
  · next control hcontrol =>
    simp only [hcontrol, Except.ok.injEq, Option.some.injEq, forall_eq', nodup_flatMap]
    have hentry {product : String} {policy : ProductReleasePolicy} :
        (product, policy) ∈ control.products.toList ↔ control.products[product]? = some policy :=
      mem_toList_iff_getElem?_eq_some
    have hkeys := pairwise_keys control.products
    constructor
    · rintro ⟨-, hdisjoint⟩ product other policy policy' hne hpolicy hpolicy'
      have : Std.Symm (Function.onFun List.Disjoint fun entry : String × ProductReleasePolicy =>
          productSockets target entry.2) := ⟨fun _ _ hapart _ hmem hmem' => hapart hmem' hmem⟩
      exact hdisjoint.forall (hentry.mpr hpolicy) (hentry.mpr hpolicy')
        (fun heq => hne (congrArg Prod.fst heq))
    · intro hapart
      refine ⟨fun entry hmem => h control hcontrol entry.1 entry.2 (hentry.mp hmem), ?_⟩
      refine hkeys.imp_of_mem fun {entry other} hmem hmem' hne => ?_
      exact hapart entry.1 other.1 entry.2 other.2 hne (hentry.mp hmem) (hentry.mp hmem')
  · next hnone =>
    simp only [nodup_nil, true_iff]
    exact fun control hcontrol => absurd hcontrol (hnone control)

theorem release_of_socket {target : String} {socket : SocketAddr}
    (h : socket ∈ releaseSockets document target) :
    ∃ (control : ReleaseControl) (product : String) (policy : ProductReleasePolicy)
        (release : ReleaseTargetPolicy),
      document.releaseControl = .ok (some control) ∧ control.products[product]? = some policy ∧
        policy.targets[target]? = some release ∧ socket ∈ release.sockets := by
  unfold releaseSockets at h
  split at h
  · next control hcontrol =>
    obtain ⟨⟨product, policy⟩, hproduct, hsocket⟩ := mem_flatMap.mp h
    have hpolicy := mem_toList_iff_getElem?_eq_some.mp hproduct
    cases hrelease : policy.targets[target]? with
    | none => simp [productSockets, hrelease] at hsocket
    | some release =>
      simp only [productSockets, hrelease] at hsocket
      exact ⟨control, product, policy, release, hcontrol, hpolicy, hrelease, hsocket⟩
  · cases h

variable {directory : ServiceDirectory} {targetEntries : Table Target} {service : String}
  {route : ServiceRoute} {profiles : Table PlacementProfile} {consumer : String} {name : String}

theorem resolver_disjoint_releases (hvalid : Valid lib document directory targetEntries profiles)
    (htarget : targetEntries[name]? = some target) :
    (resolverSockets target).Disjoint (releaseSockets document name) := by
  intro socket hresolver hrelease
  obtain ⟨control, product, policy, release, hcontrol, hpolicy, hfound, hsocket⟩ :=
    release_of_socket hrelease
  unfold resolverSockets at hresolver
  split at hresolver
  · next config hconfig =>
    obtain ⟨bind, hbind, hparse⟩ := mem_filterMap.mp hresolver
    obtain ⟨what, hclaim⟩ := port_of_sockets hsocket
    refine releasePorts_unclaimed hvalid.ports hcontrol htarget hconfig hpolicy hfound
      (socket.port, what) hclaim ?_
    exact mem_claimedPorts.mpr ⟨bind, hbind, socketPort_of_parse hparse⟩
  · cases hresolver

theorem releaseSockets_nil (h : validateReleaseControl lib document = .ok ())
    (hnone : document.serviceDirectory = .ok none) (target : String) :
    releaseSockets document target = [] := by
  rw [eq_nil_iff_forall_not_mem]
  intro socket hsocket
  obtain ⟨control, product, policy, -, hcontrol, hpolicy, -, -⟩ := release_of_socket hsocket
  obtain ⟨⟨directory, hdirectory⟩, -⟩ := validateReleaseControl_product h hcontrol hpolicy
  rw [hnone] at hdirectory
  cases hdirectory

/-- The sockets of each target have one owner when its resolver's binds and its
products stay apart. -/
theorem claimed_nodup (hdirectory : validateRegistryContract lib document = .ok ())
    (hrelease : validateReleaseControl lib document = .ok ())
    (htargets : targets document = .ok targetEntries) (htarget : targetEntries[name]? = some target) :
    (resolverSockets target ++ releaseSockets document name).Nodup ↔
      BindsApart document target ∧ ProductsApart document name := by
  have hproducts (control : ReleaseControl) (hcontrol : document.releaseControl = .ok (some control))
      (product : String) (policy : ProductReleasePolicy)
      (hpolicy : control.products[product]? = some policy) : (productSockets name policy).Nodup := by
    obtain ⟨-, hnodup⟩ := validateReleaseControl_product hrelease hcontrol hpolicy
    unfold productSockets
    split
    · next release hfound => exact hnodup name release hfound
    · exact nodup_nil
  rw [← releaseSockets_nodup hproducts, nodup_append']
  rcases validateRegistryContract_eq_ok.mp hdirectory with hnone |
    ⟨directory, entries, profiles, hfound, hentries, hprofiles, hvalid⟩
  · rw [bindsApart_iff fun _ _ => .inl hnone, releaseSockets_nil hrelease hnone]
    simp
  · rw [htargets] at hentries
    cases hentries
    have hnodup := fun config hconfig =>
      (@binds_of_valid name target directory config hconfig (hvalid.resolvers name target htarget)).1
    rw [bindsApart_iff fun config hconfig => .inr (hnodup config hconfig)]
    exact ⟨fun h => ⟨h.1, h.2.1⟩, fun h => ⟨h.1, h.2, resolver_disjoint_releases hvalid htarget⟩⟩

/-! ## Answers -/

theorem refuseMoving_eq_ok
    (hopen : ¬ OpenOn document route) : refuseMoving document service route = .ok () ↔
      route.placementProfile = none ∨ service = vaultService ∨
        ∃ transactions, document.placementTransactions = .ok transactions := by
  unfold refuseMoving
  cases hprofile : route.placementProfile with
  | none => simp
  | some profile =>
    by_cases hvault : service = vaultService
    · simp [hvault]
    · simp only [hvault, if_false, bind_eq_ok, mapError_eq_ok, holdingTransaction,
        transactions_eq_ok, reduceCtorEq, false_or]
      constructor
      · rintro ⟨_, ⟨transactions, htransactions, -⟩, -⟩
        exact ⟨transactions, htransactions⟩
      · rintro ⟨transactions, htransactions⟩
        have hfree : transactions.find? (·.profile = profile) = none := by
          rw [List.find?_eq_none]
          intro transaction hmem hheld
          refine hopen ⟨transactions, htransactions, transaction, hmem, ?_⟩
          rw [hprofile, of_decide_eq_true hheld]
        exact ⟨none, ⟨transactions, htransactions, by rw [hfree]; rfl⟩, rfl⟩

theorem fallbackPaths_eq_ok :
    (∃ paths, fallbackPaths service target = .ok paths) ↔
      ∀ listed cause, target.sshFallbacks ≠ some (.unread listed cause) := by
  unfold fallbackPaths
  cases hfallbacks : target.sshFallbacks with
  | none => simp
  | some fallbacks => cases fallbacks <;> simp

/-- A consumer the route does not name is refused, whatever else the document
holds. -/
theorem resolve_unauthorized (hdirectory : document.serviceDirectory = .ok (some directory))
    (hroute : directory.services[service]? = some route) (hconsumer : consumer ∉ route.consumers) :
    resolve document service consumer = .error (.unauthorized service consumer) := by
  have hnone : route.consumers[consumer]? = none := getElem?_eq_none hconsumer
  simp [resolve, Directory.directory, hdirectory, hroute, hnone, orRefuse, Except.mapError, bind,
    Except.bind]

/-- A consumer the route names is answered when what resolution reads of the
route can be read, and then as its route and the directory say. -/
theorem resolve_named {policy : ServiceConsumer} {endpoint : ServiceEndpoint}
    (hdirectory : document.serviceDirectory = .ok (some directory))
    (htargets : targets document = .ok targetEntries)
    (hroute : directory.services[service]? = some route)
    (hpolicy : route.consumers[consumer]? = some policy) (hopen : ¬ OpenOn document route)
    (hendpoint : route.endpoints[route.activeHost]? = some endpoint)
    (htarget : targetEntries[route.activeHost]? = some target) :
    (∃ answer, resolve document service consumer = .ok answer ∧
      answer.activeHost = route.activeHost ∧ answer.endpoint = endpoint ∧
      answer.capabilities = policy.capabilities ∧ answer.generation = directory.generation) ↔
      RouteReads document targetEntries service route := by
  have hreads : RouteReads document targetEntries service route ↔
      refuseMoving document service route = .ok () ∧
        ∃ paths, fallbackPaths service target = .ok paths := by
    rw [RouteReads, refuseMoving_eq_ok hopen, fallbackPaths_eq_ok]
    simp [hopen, htarget]
  rw [hreads]
  simp only [resolve, bind_eq_ok, mapError_eq_ok, directory_eq_ok, hdirectory, Except.ok.injEq,
    exists_eq_left', orRefuse_eq_ok, Option.some.injEq, hroute, hpolicy, hendpoint, htargets,
    htarget]
  constructor
  · rintro ⟨answer, ⟨_, hmoving, paths, hpaths, -⟩, -⟩
    exact ⟨hmoving, paths, hpaths⟩
  · rintro ⟨hmoving, paths, hpaths⟩
    exact ⟨_, ⟨(), hmoving, paths, hpaths, rfl⟩, rfl, rfl, rfl, rfl⟩

/-- What a route that passes has: an endpoint on its active host, a target there
and a consumer. -/
theorem parts_of_valid (hvalid : Valid lib document directory targetEntries profiles)
    (hroute : directory.services[service]? = some route) :
    (∃ endpoint, route.endpoints[route.activeHost]? = some endpoint) ∧
      (∃ target, targetEntries[route.activeHost]? = some target) ∧
      ∃ (consumer : String) (policy : ServiceConsumer), route.consumers[consumer]? = some policy := by
  have hpasses := validateRoute_eq_ok.mp (hvalid.routes service route hroute)
  have hget {α : Type} {table : Table α} {key : String} (hmem : key ∈ table) :
      ∃ a, table[key]? = some a :=
    Option.isSome_iff_exists.mp (mem_iff_isSome_getElem?.mp hmem)
  refine ⟨hget hpasses.active, hget hpasses.activeHost, ?_⟩
  obtain ⟨consumer, hconsumer⟩ := isEmpty_eq_false_iff_exists_mem.mp hpasses.admits
  exact ⟨consumer, hget hconsumer⟩

/-- A document both contracts accept gives each socket of a host one owner and
resolves for the consumers its routes name, exactly when its binds and products
stay apart and what resolution reads beyond the contracts can be read. -/
theorem one_owner (lib : Readers) (document : Document)
    (hdirectory : validateRegistryContract lib document = .ok ())
    (hrelease : validateReleaseControl lib document = .ok ()) :
    OneOwner document ∧ Resolves document ↔ Consistent document := by
  constructor
  · rintro ⟨howner, hresolves⟩ targetEntries htargets
    refine ⟨fun name target htarget => ?_, fun directory hfound service route hroute => ?_⟩
    · exact (claimed_nodup hdirectory hrelease htargets htarget).mp
        (howner targetEntries htargets name target htarget)
    · rcases validateRegistryContract_eq_ok.mp hdirectory with hnone |
        ⟨_, entries, profiles, hsame, hentries, hprofiles, hvalid⟩
      · rw [hnone] at hfound
        cases hfound
      · rw [hfound] at hsame
        cases hsame
        rw [htargets] at hentries
        cases hentries
        obtain ⟨⟨endpoint, hendpoint⟩, ⟨target, htarget⟩, consumer, policy, hpolicy⟩ :=
          parts_of_valid hvalid hroute
        by_cases hopen : OpenOn document route
        · refine ⟨.inr (.inr ?_), fun hfree => absurd hopen hfree⟩
          obtain ⟨transactions, htransactions, -⟩ := hopen
          exact ⟨transactions, htransactions⟩
        · obtain ⟨other, answer, hother, hanswer, hhost, hsame, hrest⟩ :=
            (hresolves directory hfound service route hroute).1 consumer policy hpolicy hopen
          rw [hendpoint] at hother
          cases hother
          exact (resolve_named hfound htargets hroute hpolicy hopen hendpoint htarget).mp
            ⟨answer, hanswer, hhost, hsame, hrest⟩
  · intro hconsistent
    refine ⟨fun targetEntries htargets name target htarget => ?_, fun directory hfound => ?_⟩
    · exact (claimed_nodup hdirectory hrelease htargets htarget).mpr
        ((hconsistent targetEntries htargets).1 name target htarget)
    · intro service route hroute
      refine ⟨fun consumer policy hpolicy hopen => ?_,
        fun consumer hconsumer => resolve_unauthorized hfound hroute hconsumer⟩
      rcases validateRegistryContract_eq_ok.mp hdirectory with hnone |
        ⟨_, targetEntries, profiles, hsame, htargets, hprofiles, hvalid⟩
      · rw [hnone] at hfound
        cases hfound
      · rw [hfound] at hsame
        cases hsame
        obtain ⟨⟨endpoint, hendpoint⟩, ⟨target, htarget⟩, -⟩ := parts_of_valid hvalid hroute
        have hreads := (hconsistent targetEntries htargets).2 directory hfound service route hroute
        obtain ⟨answer, hanswer⟩ :=
          (resolve_named hfound htargets hroute hpolicy hopen hendpoint htarget).mpr hreads
        exact ⟨endpoint, answer, hendpoint, hanswer⟩

/-! ## One host with a resolver -/

def originReaders : Readers where
  url text :=
    if text = "http://127.0.0.1:7000" then
      .ok ⟨"http", "", none, none, none, "/", some (.ip (.v4 127 0 0 1)), some "127.0.0.1",
        some 7000⟩
    else .error "relative URL without a base"
  base64 _ := none
  catalogUnit _ := .ok none

/-- A fixed route of `web` for one consumer. -/
def webRoute : ServiceRoute where
  placementProfile := none
  managedService := some "web"
  activeHost := "alpha"
  endpoints := (∅ : Table ServiceEndpoint).insert "alpha" ⟨"http://127.0.0.1:7000", none, none, none⟩
  standby := ∅
  consumers := (∅ : Table ServiceConsumer).insert "cli" ⟨[]⟩
  verify := none
  declaration := none

/-- A target that serves `web`, whose resolver binds its API and one adapter. -/
def webTarget (apiBind adapterBind : String) : Target where
  name := some "alpha"
  kind := some "local"
  ssh := some "alpha"
  sshFallbacks := none
  services := some (some [.record ⟨some "web", none, none, none, none, none, none⟩])
  serviceResolver := .ok (some ⟨apiBind, 30, 60, [⟨"web", adapterBind, "cli"⟩]⟩)

/-- The registry of that host alone. -/
def hostDocument (apiBind adapterBind : String) : Document where
  serviceDirectory := .ok <| some
    ⟨⟨"alpha", "/usr/local/bin/stado"⟩, 1, (∅ : Table ServiceRoute).insert "web" webRoute⟩
  targets := some [webTarget apiBind adapterBind]
  placementProfiles := .ok []
  placementTransactions := .ok []
  releaseControl := .ok none

theorem targets_hostDocument (apiBind adapterBind : String) :
    targets (hostDocument apiBind adapterBind) =
      .ok ((∅ : Table Target).insert "alpha" (webTarget apiBind adapterBind)) := rfl

theorem hostDocument_keeps :
    OneOwner (hostDocument "127.0.0.1:8400" "127.0.0.1:8401") ∧
      Resolves (hostDocument "127.0.0.1:8400" "127.0.0.1:8401") := by
  have hdirectory : validateRegistryContract originReaders
      (hostDocument "127.0.0.1:8400" "127.0.0.1:8401") = .ok () := by decide +kernel
  have hrelease : validateReleaseControl originReaders
      (hostDocument "127.0.0.1:8400" "127.0.0.1:8401") = .ok () := by decide +kernel
  refine (one_owner originReaders _ hdirectory hrelease).mpr ?_
  intro targetEntries htargets
  rw [targets_hostDocument] at htargets
  cases htargets
  constructor
  · intro name target htarget
    obtain ⟨rfl, rfl⟩ : "alpha" = name ∧ webTarget "127.0.0.1:8400" "127.0.0.1:8401" = target := by
      simpa [TreeMap.getElem?_insert] using htarget
    refine (claimed_nodup hdirectory hrelease (targets_hostDocument _ _)
      TreeMap.getElem?_insert_self).mp ?_
    decide +kernel
  · intro directory hfound service route hroute
    cases hfound
    obtain ⟨rfl, rfl⟩ : "web" = service ∧ webRoute = route := by
      simpa [TreeMap.getElem?_insert] using hroute
    refine ⟨.inl rfl, fun _ target htarget => ?_⟩
    obtain ⟨-, rfl⟩ : "alpha" = webRoute.activeHost ∧
        webTarget "127.0.0.1:8400" "127.0.0.1:8401" = target := by
      simpa [TreeMap.getElem?_insert] using htarget
    simp [webTarget]

/-- The API and the adapter of this resolver are one socket, written with and
without a leading zero of the port. -/
theorem respelled_accepted :
    validateRegistryContract originReaders (hostDocument "127.0.0.1:8400" "127.0.0.1:08400") =
      .ok () ∧
    validateReleaseControl originReaders (hostDocument "127.0.0.1:8400" "127.0.0.1:08400") =
      .ok () ∧
    ¬ OneOwner (hostDocument "127.0.0.1:8400" "127.0.0.1:08400") := by
  refine ⟨by decide +kernel, by decide +kernel, ?_⟩
  intro h
  have hnodup := h _ (targets_hostDocument _ _) "alpha" _ getElem?_insert_self
  revert hnodup
  decide +kernel

end Stado.Directory
