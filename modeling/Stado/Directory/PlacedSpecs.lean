import Stado.Directory.Placed
import Stado.Directory.RouteSpecs

/-!
# What a placed document holds

The records of two targets change and nothing else of any target; the routes of
one profile are promoted and retargeted and no other is. Each rewrite of
`placed_on` is described by what it needs of the document and what it leaves.
-/

namespace Stado.Directory

open Std Checks List Option

variable {document document' : Document} {host : String} {spec : PlacementUnit}
  {later : List String} {logical : String} {records left : List Declared} {target target' : Target}
  {entry other : Target} {change : Target → Except String Target} {unit : ManagedPlacementUnit}
  {entries : List Target}

/-! ## The first and the last target of a name -/

def named (host : String) (entries : List Target) : List Target :=
  entries.filter fun entry => entry.name = some host

def replaceFirst (host : String) (entry : Target) : List Target → List Target
  | [] => []
  | other :: later =>
    if other.name = some host then entry :: later else other :: replaceFirst host entry later

def swapHead (entry : Target) : List Target → List Target
  | [] => []
  | _ :: later => entry :: later

theorem named_replaceFirst (hentry : entry.name = some host) (entries : List Target) :
    named host (replaceFirst host entry entries) = swapHead entry (named host entries) := by
  induction entries with
  | nil => rfl
  | cons other later ih =>
    by_cases hother : other.name = some host
    · simp [named, replaceFirst, hother, hentry, swapHead]
    · simpa [named, replaceFirst, hother] using ih

theorem named_replaceFirst_of_ne {host other : String} (hne : other ≠ host)
    (hentry : entry.name = some host) (entries : List Target) :
    named other (replaceFirst host entry entries) = named other entries := by
  induction entries with
  | nil => rfl
  | cons first later ih =>
    by_cases hfirst : first.name = some host
    · have hfirst' : first.name ≠ some other := by simp [hfirst, hne.symm]
      have hentry' : entry.name ≠ some other := by simp [hentry, hne.symm]
      simp [named, replaceFirst, hfirst, hentry, hne.symm]
    · simp only [named, replaceFirst, hfirst, if_false, filter_cons] at ih ⊢
      rw [ih]

theorem getElem?_targetTable (entries : List Target) (host : String) :
    (targetTable entries)[host]? = (named host entries).getLast? := by
  have hfold (table : Table Target) :
      (entries.foldl insertTarget table)[host]? = (named host entries).getLast?.or table[host]? := by
    induction entries generalizing table with
    | nil => simp [named]
    | cons entry later ih =>
      rw [foldl_cons, ih]
      cases hname : entry.name with
      | none => simp [named, insertTarget, hname]
      | some name =>
        by_cases hhost : name = host
        · subst hhost
          simp [named, insertTarget, hname, List.getLast?_cons]
        · simp [named, insertTarget, hname, hhost, TreeMap.getElem?_insert]
  simpa [targetTable] using hfold ∅

theorem withEntry_eq_ok
    {entries entries' : List Target} : withEntry host change entries = .ok entries' ↔
      ∃ entry changed, (named host entries).head? = some entry ∧ entry.kind = some "local" ∧
        change entry = .ok changed ∧ entries' = replaceFirst host changed entries := by
  induction entries generalizing entries' with
  | nil => simp [withEntry, named]
  | cons first later ih =>
    by_cases hfirst : first.name = some host
    · simp only [withEntry, hfirst, if_true, bind_eq_ok, require_eq_ok, replaceFirst]
      simp only [named, hfirst, decide_true, filter_cons_of_pos, List.head?_cons, Option.some.injEq]
      constructor
      · rintro ⟨_, hlocal, changed, hchanged, heq⟩
        cases heq
        exact ⟨first, changed, rfl, hlocal, hchanged, rfl⟩
      · rintro ⟨_, changed, rfl, hlocal, hchanged, rfl⟩
        exact ⟨(), hlocal, changed, hchanged, rfl⟩
    · simp only [withEntry, hfirst, if_false, bind_eq_ok, ih, replaceFirst]
      have hnamed : named host (first :: later) = named host later := by simp [named, hfirst]
      rw [hnamed]
      constructor
      · rintro ⟨_, ⟨entry, changed, hentry, hlocal, hchanged, rfl⟩, heq⟩
        cases heq
        exact ⟨entry, changed, hentry, hlocal, hchanged, rfl⟩
      · rintro ⟨entry, changed, hentry, hlocal, hchanged, rfl⟩
        exact ⟨_, ⟨entry, changed, hentry, hlocal, hchanged, rfl⟩, rfl⟩

theorem withTarget_eq_ok :
    withTarget document host change = .ok document' ↔
      ∃ entries entry changed, document.targets = some entries ∧
        (named host entries).head? = some entry ∧ entry.kind = some "local" ∧
        change entry = .ok changed ∧
        document' = { document with targets := some (replaceFirst host changed entries) } := by
  simp only [withTarget, bind_eq_ok, orRefuse_eq_ok, withEntry_eq_ok]
  constructor
  · rintro ⟨entries, hentries, _, ⟨entry, changed, hentry, hlocal, hchanged, rfl⟩, heq⟩
    cases heq
    exact ⟨entries, entry, changed, hentries, hentry, hlocal, hchanged, rfl⟩
  · rintro ⟨entries, entry, changed, hentries, hentry, hlocal, hchanged, rfl⟩
    exact ⟨entries, hentries, _, ⟨entry, changed, hentry, hlocal, hchanged, rfl⟩, rfl⟩

theorem replaceFirst_replaceFirst
    (hentry : entry.name = some host) (entries : List Target) :
    replaceFirst host other (replaceFirst host entry entries) = replaceFirst host other entries := by
  induction entries with
  | nil => rfl
  | cons first later ih =>
    by_cases hfirst : first.name = some host
    · simp [replaceFirst, hfirst, hentry]
    · simp [replaceFirst, hfirst, ih]

theorem replaceFirst_comm {host host' : String} (hne : host ≠ host') {entry entry' : Target}
    (hentry : entry.name = some host) (hentry' : entry'.name = some host') (entries : List Target) :
    replaceFirst host entry (replaceFirst host' entry' entries) =
      replaceFirst host' entry' (replaceFirst host entry entries) := by
  induction entries with
  | nil => rfl
  | cons first later ih =>
    by_cases hfirst : first.name = some host
    · simp [replaceFirst, hfirst, hentry, hne]
    · by_cases hfirst' : first.name = some host'
      · simp [replaceFirst, hfirst', hentry', hne.symm]
      · simp [replaceFirst, hfirst, hfirst', ih]

theorem name_of_head (h : (named host entries).head? = some entry) : entry.name = some host := by
  have hmem := mem_of_mem_head? h
  simpa using (mem_filter.mp hmem).2

theorem head_replaceFirst
    (h : (named host entries).head? = some entry) (hother : other.name = some host) :
    (named host (replaceFirst host other entries)).head? = some other := by
  rw [named_replaceFirst hother]
  cases hnamed : named host entries with
  | nil => simp [hnamed] at h
  | cons => rfl

/-! ## Records -/

theorem takeRecord_eq_ok {host unit : String} :
    takeRecord host unit target = .ok target' ↔ target.records.any (·.goesBy unit) = true ∧
        target' = { target with services := kept (target.records.eraseP (·.goesBy unit)) } := by
  simp only [takeRecord, bind_eq_ok, orRefuse_eq_ok, require_eq_ok, Target.records]
  constructor
  · rintro ⟨declared, hdeclared, _, hany, heq⟩
    cases heq
    simp only [hdeclared, getD_some]
    exact ⟨hany, trivial⟩
  · rintro ⟨hany, rfl⟩
    cases hdeclared : target.services.join with
    | none => simp [hdeclared] at hany
    | some declared =>
      simp only [hdeclared, getD_some] at hany ⊢
      exact ⟨declared, rfl, (), hany, rfl⟩

theorem putRecord_eq_ok {host unit name : String} {record : ManagedRecord} :
    putRecord host unit name record target = .ok target' ↔ target.services ≠ some none ∧
        target.records.any (fun entry => entry.goesBy unit || entry.goesBy name) = false ∧
        target' = { target with services := some (some (target.records ++ [.record record])) } := by
  simp only [putRecord, bind_eq_ok, orRefuse_eq_ok, require_eq_ok, Target.records]
  cases hservices : target.services with
  | none =>
    simp only [getD_none, Option.some.injEq, exists_eq_left', join_none]
    constructor
    · rintro ⟨_, hany, heq⟩
      cases heq
      exact ⟨by simp, hany, rfl⟩
    · rintro ⟨-, hany, rfl⟩
      exact ⟨(), hany, rfl⟩
  | some found =>
    cases found with
    | none => simp
    | some declared =>
      simp only [getD_some, Option.some.injEq, exists_eq_left', join_some]
      constructor
      · rintro ⟨_, hany, heq⟩
        cases heq
        exact ⟨by simp, hany, rfl⟩
      · rintro ⟨-, hany, rfl⟩
        exact ⟨(), hany, rfl⟩

@[simp] theorem join_kept (remaining : List Declared) :
    (kept remaining).join.getD [] = remaining := by
  unfold kept
  by_cases h : remaining = [] <;> simp [h]

/-- The managed units of a profile's host for these services, each with its
logical unit. -/
def members (host : PlacementHost) (services : List String) :
    List (PlacementUnit × ManagedPlacementUnit) :=
  services.filterMap fun logical =>
    host.units[logical]?.bind fun spec => spec.managed.map fun unit => (spec, unit)

def Manages (host : PlacementHost) (logical : String) (spec : PlacementUnit)
    (unit : ManagedPlacementUnit) : Prop :=
  host.units[logical]? = some spec ∧ spec.lifecycle = .managed unit

theorem members_cons {host : PlacementHost} (h : Manages host logical spec unit) :
    members host (logical :: later) = (spec, unit) :: members host later := by
  simp [members, h.1, h.2, PlacementUnit.managed]

/-- The records left when, for each unit in turn, the first that goes by it is
taken; nothing is left when one is missing. -/
def withdrawn : List String → List Declared → Option (List Declared)
  | [], records => some records
  | unit :: later, records =>
    if records.any (·.goesBy unit) then withdrawn later (records.eraseP (·.goesBy unit)) else none

/-- The records the members are managed under on the destination. -/
def arriving (hostHeuristic : Option String) (managedSince : String)
    (arrivals : List (PlacementUnit × ManagedPlacementUnit)) : List Declared :=
  arrivals.map fun (spec, unit) =>
    .record (destinationRecord hostHeuristic spec unit managedSince)

/-- No record of the destination, nor of a member that arrived before, goes by an
arriving member's unit or name. -/
def Unclaimed (hostHeuristic : Option String) (managedSince : String) :
    List Declared → List (PlacementUnit × ManagedPlacementUnit) → Prop
  | _, [] => True
  | records, (spec, unit) :: later =>
    records.any (fun entry => entry.goesBy unit.unit || entry.goesBy spec.name) = false ∧
      Unclaimed hostHeuristic managedSince
        (records ++ arriving hostHeuristic managedSince [(spec, unit)]) later

theorem withdrawn_cons {unit : String} :
    withdrawn (unit :: later) records = some left ↔ records.any (·.goesBy unit) = true ∧
        withdrawn later (records.eraseP (·.goesBy unit)) = some left := by
  rw [withdrawn, ite_none_right_eq_some]

theorem withdrawn_sublist {units : List String}
    (h : withdrawn units records = some left) : left.Sublist records := by
  induction units generalizing records with
  | nil =>
    cases h
    exact List.Sublist.refl _
  | cons unit later ih =>
    rw [withdrawn] at h
    split_ifs at h
    exact (ih h).trans (eraseP_sublist)

section Moves

variable {sourceProfile destinationProfile : PlacementHost} {source destination : String}
  {hostHeuristic : Option String} {managedSince : String}

theorem unitOf_eq_ok {host : PlacementHost} :
    unitOf host logical = .ok spec ↔ host.units[logical]? = some spec := by
  simp [unitOf]

theorem managedUnit_eq_ok : managedUnit spec = .ok unit ↔ spec.lifecycle = .managed unit := by
  unfold managedUnit
  cases spec.lifecycle <;> simp

def withBoth (document : Document) (entries : List Target) (source destination : String)
    (src dst : Target) : Document :=
  { document with targets := some (replaceFirst destination dst (replaceFirst source src entries)) }

variable {entries : List Target} {src dst : Target} {services : List String}

theorem withBoth_withBoth (hne : source ≠ destination)
    {src' dst' : Target} (hsrc : src.name = some source) (hdst : dst.name = some destination)
    (hsrc' : src'.name = some source) :
    withBoth (withBoth document entries source destination src dst)
        (replaceFirst destination dst (replaceFirst source src entries)) source destination src'
        dst' =
      withBoth document entries source destination src' dst' := by
  have hentries : replaceFirst destination dst' (replaceFirst source src'
      (replaceFirst destination dst (replaceFirst source src entries))) =
      replaceFirst destination dst' (replaceFirst source src' entries) := by
    rw [replaceFirst_comm hne hsrc' hdst, replaceFirst_replaceFirst hsrc,
      replaceFirst_replaceFirst hdst]
  simp only [withBoth, hentries]

/-- One service moved: its record is taken off the source and put on the
destination. -/
theorem moveRecords_cons {spec destinationSpec : PlacementUnit}
    {unit destinationUnit : ManagedPlacementUnit}
    (hne : source ≠ destination) (hspec : Manages sourceProfile logical spec unit)
    (hdestination : Manages destinationProfile logical destinationSpec destinationUnit)
    (hentries : document.targets = some entries)
    (hsrc : (named source entries).head? = some src)
    (hdst : (named destination entries).head? = some dst) :
    moveRecords sourceProfile destinationProfile source destination hostHeuristic managedSince
        (logical :: later) document = .ok document' ↔
      src.kind = some "local" ∧ dst.kind = some "local" ∧
        src.records.any (·.goesBy unit.unit) = true ∧ dst.services ≠ some none ∧
        dst.records.any (fun entry =>
          entry.goesBy destinationUnit.unit || entry.goesBy destinationSpec.name) = false ∧
        moveRecords sourceProfile destinationProfile source destination hostHeuristic managedSince
          later (withBoth document entries source destination
            { src with services := kept (src.records.eraseP (·.goesBy unit.unit)) }
            { dst with services := some (some (dst.records ++
              arriving hostHeuristic managedSince [(destinationSpec, destinationUnit)])) }) =
            .ok document' := by
  have hsrcName := name_of_head hsrc
  have hdstName := name_of_head hdst
  have hdst' (changed : Target) (hchanged : changed.name = some source) :
      (named destination (replaceFirst source changed entries)).head? = some dst := by
    rw [named_replaceFirst_of_ne hne.symm hchanged]
    exact hdst
  simp only [moveRecords, bind_eq_ok, unitOf_eq_ok, managedUnit_eq_ok, hspec.1, hspec.2,
    hdestination.1, hdestination.2, removeService, addService, withTarget_eq_ok, takeRecord_eq_ok,
    putRecord_eq_ok, Option.some.injEq, exists_eq_left', PlacementLifecycle.managed.injEq, hentries]
  constructor
  · rintro ⟨_, ⟨_, _, _, rfl, hfirst, hlocal, ⟨hany, rfl⟩, rfl⟩, _,
      ⟨_, _, _, heq, hfound, hlocal', ⟨harray, hfree, rfl⟩, rfl⟩, hlater⟩
    rw [hsrc] at hfirst
    cases hfirst
    cases heq
    have hsame := (hdst' { src with services := kept (src.records.eraseP (·.goesBy unit.unit)) }
      hsrcName).symm.trans hfound
    cases hsame
    exact ⟨hlocal, hlocal', hany, harray, hfree, hlater⟩
  · rintro ⟨hlocal, hlocal', hany, harray, hfree, hlater⟩
    exact ⟨_, ⟨_, _, _, rfl, hsrc, hlocal, ⟨hany, rfl⟩, rfl⟩, _,
      ⟨_, _, _, rfl, hdst' _ hsrcName, hlocal', ⟨harray, hfree, rfl⟩, rfl⟩, hlater⟩

/-- A move of records needs two local targets: a source whose records go by the
members' units, and a destination none of whose records go by what arrives. It
leaves what was not withdrawn and what was there with what arrived. -/
theorem moveRecords_eq_ok
    (hne : source ≠ destination) (hservices : services ≠ [])
    (hmanaged : ∀ logical ∈ services, (∃ spec unit, Manages sourceProfile logical spec unit) ∧
      ∃ spec unit, Manages destinationProfile logical spec unit)
    (hentries : document.targets = some entries)
    (hsrc : (named source entries).head? = some src)
    (hdst : (named destination entries).head? = some dst) :
    moveRecords sourceProfile destinationProfile source destination hostHeuristic managedSince
        services document = .ok document' ↔
      src.kind = some "local" ∧ dst.kind = some "local" ∧ dst.services ≠ some none ∧
        Unclaimed hostHeuristic managedSince dst.records (members destinationProfile services) ∧
        ∃ left, withdrawn ((members sourceProfile services).map (·.2.unit)) src.records = some left ∧
          document' = withBoth document entries source destination
            { src with services := kept left }
            { dst with services := some (some (dst.records ++
              arriving hostHeuristic managedSince (members destinationProfile services))) } := by
  induction services generalizing document entries src dst with
  | nil => exact absurd rfl hservices
  | cons logical later ih =>
    obtain ⟨⟨spec, unit, hspec⟩, destinationSpec, destinationUnit, hdestination⟩ :=
      hmanaged logical mem_cons_self
    rw [moveRecords_cons hne hspec hdestination hentries hsrc hdst, members_cons hspec,
      members_cons hdestination]
    simp only [map_cons, withdrawn_cons, Unclaimed]
    have hsrcName := name_of_head hsrc
    have hdstName := name_of_head hdst
    by_cases hlater : later = []
    · subst hlater
      simp only [members, filterMap_nil, map_nil, withdrawn, Unclaimed, and_true,
        moveRecords, Except.ok.injEq, Option.some.injEq]
      constructor
      · rintro ⟨hlocal, hlocal', hany, harray, hfree, rfl⟩
        exact ⟨hlocal, hlocal', harray, hfree, _, ⟨hany, rfl⟩, rfl⟩
      · rintro ⟨hlocal, hlocal', harray, hfree, _, ⟨hany, rfl⟩, rfl⟩
        exact ⟨hlocal, hlocal', hany, harray, hfree, rfl⟩
    · -- the induction goes on from the two targets as this service leaves them
      obtain ⟨src', hsrcEq⟩ : ∃ src' : Target, src' = { src with
        services := kept (src.records.eraseP (·.goesBy unit.unit)) } := ⟨_, rfl⟩
      obtain ⟨dst', hdstEq⟩ : ∃ dst' : Target, dst' = { dst with
        services := some (some (dst.records ++
          arriving hostHeuristic managedSince [(destinationSpec, destinationUnit)])) } := ⟨_, rfl⟩
      rw [← hsrcEq, ← hdstEq]
      have hsrcName' : src'.name = some source := by rw [hsrcEq]; exact hsrcName
      have hdstName' : dst'.name = some destination := by rw [hdstEq]; exact hdstName
      have hsrc' : (named source (replaceFirst destination dst'
          (replaceFirst source src' entries))).head? = some src' := by
        rw [named_replaceFirst_of_ne hne hdstName']
        exact head_replaceFirst hsrc hsrcName'
      have hdst' : (named destination (replaceFirst destination dst'
          (replaceFirst source src' entries))).head? = some dst' := by
        have hfound : (named destination (replaceFirst source src' entries)).head? = some dst := by
          rw [named_replaceFirst_of_ne hne.symm hsrcName']
          exact hdst
        exact head_replaceFirst hfound hdstName'
      have hih := @ih (withBoth document entries source destination src' dst') _ src' dst' hlater
        (fun other hmem => hmanaged other (mem_cons_of_mem _ hmem)) rfl hsrc' hdst'
      have hboth (left : List Declared) (last : Target) :
          withBoth (withBoth document entries source destination src' dst')
              (replaceFirst destination dst' (replaceFirst source src' entries)) source destination
              { src' with services := kept left } last =
            withBoth document entries source destination { src' with services := kept left } last :=
        withBoth_withBoth hne hsrcName' hdstName' hsrcName'
      rw [hih]
      simp only [hboth]
      simp only [hsrcEq, hdstEq, Target.records, join_kept, join_some, getD_some,
        ne_eq, Option.some.injEq, reduceCtorEq, not_false_eq_true, true_and, append_assoc]
      have harrive : arriving hostHeuristic managedSince [(destinationSpec, destinationUnit)] ++
          arriving hostHeuristic managedSince (members destinationProfile later) =
            arriving hostHeuristic managedSince
              ((destinationSpec, destinationUnit) :: members destinationProfile later) := rfl
      simp only [harrive]
      constructor
      · rintro ⟨hlocal, hlocal', hany, harray, hfree, -, -, hunclaimed, left, hleft, hdocument⟩
        exact ⟨hlocal, hlocal', harray, ⟨hfree, hunclaimed⟩, left, ⟨hany, hleft⟩, hdocument⟩
      · rintro ⟨hlocal, hlocal', harray, ⟨hfree, hunclaimed⟩, left, ⟨hany, hleft⟩, hdocument⟩
        exact ⟨hlocal, hlocal', hany, harray, hfree, hlocal, hlocal', hunclaimed, left, hleft,
          hdocument⟩

theorem moveRecords_sections
    (h : moveRecords sourceProfile destinationProfile source destination hostHeuristic managedSince
      services document = .ok document') :
    document' = { document with targets := document'.targets } := by
  induction services generalizing document with
  | nil =>
    cases h
    rfl
  | cons logical later ih =>
    simp only [moveRecords, bind_eq_ok, removeService, addService, withTarget_eq_ok] at h
    obtain ⟨_, -, _, -, _, ⟨_, _, _, -, -, -, -, rfl⟩, _, -, _, -, _,
      ⟨_, _, _, -, -, -, -, rfl⟩, hlater⟩ := h
    have hsame := ih hlater
    exact hsame

end Moves

theorem profileHost_eq_ok {profile : PlacementProfile} {found : PlacementHost} :
    profileHost profile host = .ok found ↔ profile.hosts[host]? = some found := by
  simp [profileHost]

/-! ## Routes -/

variable {directory : ServiceDirectory} {destination : String} {table table' : Table ServiceRoute}
  {profile : String} {route route' : ServiceRoute} {profile name : String}

theorem withDirectory_eq_ok {change : ServiceDirectory → Except String ServiceDirectory}
    (h : document.serviceDirectory = .ok (some directory)) :
    withDirectory document change = .ok document' ↔ ∃ changed, change directory = .ok changed ∧
      document' = { document with serviceDirectory := .ok (some changed) } := by
  simp only [withDirectory, bind_eq_ok, mapError_eq_ok, h, Except.ok.injEq, exists_eq_left']
  constructor
  · rintro ⟨changed, hchanged, heq⟩
    cases heq
    exact ⟨changed, hchanged, rfl⟩
  · rintro ⟨changed, hchanged, rfl⟩
    exact ⟨changed, hchanged, rfl⟩

/-- A route with its own endpoint on the destination, or else its standby address
there, moved. -/
def promoted (destination : String) (route : ServiceRoute) : ServiceRoute :=
  if destination ∈ route.endpoints then route
  else
    match route.standby[destination]? with
    | none => route
    | some address => { route with
        standby := route.standby.erase destination
        endpoints := route.endpoints.insert destination address }

/-- What a move makes of a route. -/
def placedRoute (profile destination : String) (route : ServiceRoute) : ServiceRoute :=
  if route.placementProfile = some profile then
    { promoted destination route with activeHost := destination }
  else route

def Addressed (destination : String) (route : ServiceRoute) : Prop :=
  destination ∈ route.endpoints ∨ destination ∈ route.standby

theorem mem_promoted {route : ServiceRoute} :
    destination ∈ (promoted destination route).endpoints ↔ Addressed destination route := by
  unfold promoted Addressed
  by_cases hendpoint : destination ∈ route.endpoints
  · simp [hendpoint]
  · rw [if_neg hendpoint]
    cases hstandby : route.standby[destination]? with
    | none =>
      have : destination ∉ route.standby := by
        rw [TreeMap.mem_iff_isSome_getElem?, hstandby]
        simp
      simp [hendpoint, this]
    | some address =>
      have : destination ∈ route.standby := by
        rw [TreeMap.mem_iff_isSome_getElem?, hstandby]
        rfl
      simp [this]

theorem promoteRoute_eq_ok :
    promoteRoute profile destination name route = .ok route' ↔
      (route.placementProfile = some profile → Addressed destination route) ∧
        route' = if route.placementProfile = some profile then promoted destination route
          else route := by
  unfold promoteRoute promoted Addressed
  by_cases hprofile : route.placementProfile = some profile
  · simp only [hprofile, ne_eq, not_true_eq_false, if_false, if_true, forall_true_left]
    by_cases hendpoint : destination ∈ route.endpoints
    · simp [hendpoint, eq_comm]
    · simp only [hendpoint, if_false, false_or, TreeMap.mem_iff_isSome_getElem?]
      cases route.standby[destination]? with
      | none => simp
      | some address => simp [eq_comm]
  · simp [hprofile, eq_comm]

theorem placementProfile_promoted (destination : String) (route : ServiceRoute) :
    (promoted destination route).placementProfile = route.placementProfile := by
  unfold promoted
  split
  · rfl
  · split <;> rfl

theorem activeHost_promoted (destination : String) (route : ServiceRoute) :
    (promoted destination route).activeHost = route.activeHost := by
  unfold promoted
  split
  · rfl
  · split <;> rfl

theorem retargetRoute_eq_ok :
    retargetRoute profile destination name route = .ok route' ↔
      (route.placementProfile = some profile → destination ∈ route.endpoints) ∧
        route' = if route.placementProfile = some profile then { route with activeHost := destination }
          else route := by
  unfold retargetRoute
  by_cases hprofile : route.placementProfile = some profile
  · simp only [hprofile, ne_eq, not_true_eq_false, if_false, if_true, forall_true_left]
    constructor
    · intro h
      obtain ⟨_, hendpoint, heq⟩ := bind_eq_ok.mp h
      cases heq
      exact ⟨require_eq_ok.mp hendpoint, rfl⟩
    · rintro ⟨hendpoint, rfl⟩
      exact bind_eq_ok.mpr ⟨(), require_eq_ok.mpr hendpoint, rfl⟩
  · simp only [hprofile, ne_eq, not_false_eq_true, if_true, if_false, false_imp_iff, true_and]
    constructor
    · intro h
      cases h
      rfl
    · rintro rfl
      rfl

def ActiveElsewhere (profile destination : String) (directory : ServiceDirectory) : Prop :=
  ∃ (service : String) (route : ServiceRoute), directory.services[service]? = some route ∧
    route.placementProfile = some profile ∧ route.activeHost ≠ destination

/-- What promotion and retargeting leave when they pass. -/
structure Retargeted (profile destination : String) (directory directory' : ServiceDirectory) :
    Prop where
  elsewhere : ActiveElsewhere profile destination directory
  authority : directory'.authority = directory.authority
  bounded : directory.generation < u64Max
  generation : directory'.generation = directory.generation + 1
  routes : ∀ service : String, directory'.services[service]? =
    directory.services[service]?.map (placedRoute profile destination)

theorem getElem?_rewritten {rewrite : String → ServiceRoute → Except String ServiceRoute}
    {table table' : Table ServiceRoute} {f : ServiceRoute → ServiceRoute}
    (hrewrite : ∀ name route route', rewrite name route = .ok route' → route' = f route)
    (h : rewriteTable rewrite table = .ok table') (service : String) :
    table'[service]? = table[service]?.map f := by
  obtain ⟨hnone, hsome⟩ := getElem?_rewriteTable h service
  cases hroute : table[service]? with
  | none => simpa using hnone hroute
  | some route =>
    obtain ⟨route', hroute', hget⟩ := hsome route hroute
    rw [hget, hrewrite service route route' hroute', map_some]

theorem getElem?_promoted
    (h : rewriteTable (promoteRoute profile destination) table = .ok table') (service : String) :
    table'[service]? = table[service]?.map fun route =>
      if route.placementProfile = some profile then promoted destination route else route :=
  @getElem?_rewritten (promoteRoute profile destination) table table' _
    (fun _ _ _ hroute => (promoteRoute_eq_ok.mp hroute).2) h service

theorem getElem?_retargeted
    (h : rewriteTable (retargetRoute profile destination) table = .ok table') (service : String) :
    table'[service]? = table[service]?.map fun route =>
      if route.placementProfile = some profile then { route with activeHost := destination }
      else route :=
  @getElem?_rewritten (retargetRoute profile destination) table table' _
    (fun _ _ _ hroute => (retargetRoute_eq_ok.mp hroute).2) h service

/-- Promotion and retargeting pass when every route of the profile has an address
on the destination and the generation can advance; they leave the directory as
`Retargeted` says, or its generation as it was. -/
theorem retarget_of_ok {between : Document}
    (hdirectory : document.serviceDirectory = .ok (some directory))
    (hpromote : promoteStandby document profile destination = .ok between)
    (hretarget : retargetProfile between profile destination = .ok document') :
    ∃ directory', document' = { document with serviceDirectory := .ok (some directory') } ∧
      (directory'.generation = directory.generation ∨
        Retargeted profile destination directory directory') := by
  obtain ⟨first, hfirst, rfl⟩ := (withDirectory_eq_ok hdirectory).mp hpromote
  obtain ⟨services, hservices, heq⟩ := bind_eq_ok.mp hfirst
  cases heq
  obtain ⟨directory', hchanged, rfl⟩ := (withDirectory_eq_ok rfl).mp hretarget
  obtain ⟨services', hservices', hresult⟩ := bind_eq_ok.mp hchanged
  refine ⟨directory', rfl, ?_⟩
  split_ifs at hresult with hany
  · obtain ⟨_, hbounded, heq⟩ := bind_eq_ok.mp hresult
    cases heq
    have helsewhere : ActiveElsewhere profile destination directory := by
      obtain ⟨⟨service, route'⟩, hmem, hroute'⟩ := List.any_eq_true.mp hany
      have hget := TreeMap.mem_toList_iff_getElem?_eq_some.mp hmem
      rw [getElem?_promoted hservices service] at hget
      obtain ⟨route, hroute, rfl⟩ := map_eq_some_iff.mp hget
      by_cases hprofile : route.placementProfile = some profile
      · simp only [hprofile, if_true, placementProfile_promoted, activeHost_promoted,
          Bool.and_eq_true, bne_iff_ne] at hroute'
        exact ⟨service, route, hroute, hprofile, hroute'.2⟩
      · simp [hprofile] at hroute'
    refine .inr ⟨helsewhere, rfl, require_eq_ok.mp hbounded, rfl, fun service => ?_⟩
    have hpromoted := getElem?_promoted hservices service
    have hretargeted := getElem?_retargeted hservices' service
    dsimp only at hretargeted ⊢
    rw [hretargeted, hpromoted, Option.map_map]
    congr 1
    funext route
    by_cases hprofile : route.placementProfile = some profile
    · simp [placedRoute, hprofile, placementProfile_promoted]
    · simp [placedRoute, hprofile]
  · cases hresult
    exact .inl rfl

theorem exists_retarget
    (hdirectory : document.serviceDirectory = .ok (some directory))
    (haddressed : ∀ (service : String) (route : ServiceRoute),
      directory.services[service]? = some route → route.placementProfile = some profile →
        Addressed destination route)
    (helsewhere : ActiveElsewhere profile destination directory)
    (hbounded : directory.generation < u64Max) :
    ∃ between directory', promoteStandby document profile destination = .ok between ∧
      retargetProfile between profile destination =
        .ok { document with serviceDirectory := .ok (some directory') } ∧
      Retargeted profile destination directory directory' := by
  obtain ⟨services, hservices⟩ := @exists_rewriteTable String ServiceRoute
    (promoteRoute profile destination) directory.services fun name route hroute =>
      ⟨_, promoteRoute_eq_ok.mpr ⟨haddressed name route hroute, rfl⟩⟩
  have hpromoted := getElem?_promoted hservices
  obtain ⟨services', hservices'⟩ := @exists_rewriteTable String ServiceRoute
    (retargetRoute profile destination) services fun name route hroute => by
      refine ⟨_, retargetRoute_eq_ok.mpr ⟨fun hprofile => ?_, rfl⟩⟩
      rw [hpromoted] at hroute
      obtain ⟨old, hold, rfl⟩ := map_eq_some_iff.mp hroute
      by_cases hold' : old.placementProfile = some profile
      · rw [if_pos hold']
        exact mem_promoted.mpr (haddressed name old hold hold')
      · rw [if_neg hold'] at hprofile
        exact absurd hprofile hold'
  have hany : services.toList.any (fun entry =>
      entry.2.placementProfile == some profile && entry.2.activeHost != destination) = true := by
    obtain ⟨service, route, hroute, hprofile, hactive⟩ := helsewhere
    have hget : services[service]? = some (promoted destination route) := by
      rw [hpromoted, hroute, map_some, if_pos hprofile]
    refine List.any_eq_true.mpr
      ⟨_, TreeMap.mem_toList_iff_getElem?_eq_some.mpr hget, ?_⟩
    simp [placementProfile_promoted, activeHost_promoted, hprofile, hactive]
  have hpromote : promoteStandby document profile destination =
      .ok { document with serviceDirectory := .ok (some { directory with services := services }) } :=
    (withDirectory_eq_ok hdirectory).mpr ⟨_, bind_eq_ok.mpr ⟨services, hservices, rfl⟩, rfl⟩
  have hretarget : retargetProfile
      { document with serviceDirectory := .ok (some { directory with services := services }) }
      profile destination = .ok { document with serviceDirectory := .ok (some { directory with
        generation := directory.generation + 1, services := services' }) } := by
    refine (withDirectory_eq_ok rfl).mpr ⟨_, bind_eq_ok.mpr ⟨services', hservices', ?_⟩, rfl⟩
    rw [if_pos hany]
    exact bind_eq_ok.mpr ⟨(), require_eq_ok.mpr hbounded, rfl⟩
  obtain ⟨directory', hdocument, hresult⟩ := retarget_of_ok hdirectory hpromote hretarget
  refine ⟨_, directory', hpromote, hdocument ▸ hretarget, ?_⟩
  rcases hresult with hsame | hretargeted
  · injection hdocument with hsections
    cases hsections
    simp at hsame
  · exact hretargeted

end Stado.Directory
