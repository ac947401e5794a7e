import Stado.S3.ObjectNames
import Stado.S3.Signers

/-!
# The namespace map of the object API

`object_api.namespaces`: each namespace with its Skarbiec item and the prefixes
its bearer reaches, refused with every problem it has.
-/

namespace Stado.S3.Listener

open Sigv4 List ObjectPrefixPolicy

/-- A JSON value: `other` is one that is neither a text, an array nor an object. -/
inductive Json where
  | string (text : Text)
  | array (items : List Json)
  | object (fields : List (Text × Json))
  | other (text : String)

def Json.get (fields : List (Text × Json)) (name : String) : Option Json :=
  (fields.find? fun field => field.1 = name.toList).map Prod.snd

def unknownField (declared : List String) (expected : String) (fields : List (Text × Json)) :
    Option String :=
  (fields.find? fun field => field.1 ∉ declared.map String.toList).map fun field =>
    let name := String.ofList field.1
    s!"unknown field `{name}`, expected {expected}"

def isSubtree (stem : Text) : Bool := stem.getLast? = some '/'

/-- A prefix in canonical form: empty, one top-level key, or a path ending in `/`. -/
def validObjectPrefix (stem : Text) : Bool :=
  if stem = [] then true
  else if trim stem ≠ stem ∨ stem.head? = some '/' then false
  else
    let path := stem.rdropWhile isSlash
    path ≠ [] && (isSubtree stem || !path.contains '/') && (path.splitOn '/').all properPart &&
      plainPath path

def objectPrefixesOverlap (left right : Text) : Bool :=
  left = right || left = [] || right = [] || (isSubtree left && left.isPrefixOf right) ||
    (isSubtree right && right.isPrefixOf left)

/-! ## Actions -/

/-- What the object API lets a grant do. -/
def objectApiActions : List Action := [.delete, .get, .list, .put, .stat]

def Action.word : Action → String
  | .get => "get"
  | .stat => "stat"
  | .list => "list"
  | .put => "put"
  | .delete => "delete"

def Action.parse (text : Text) : Option Action :=
  objectApiActions.find? fun action => action.word.toList = text

/-- Actions in order, and the problems of those that are refused. -/
def parseActions (location : String) :
    List Json → List Action → List Action × List String
  | [], parsed => (parsed, [])
  | .string text :: later, parsed =>
    let textShown := shown text
    match Action.parse text with
    | none =>
      let (actions, problems) := parseActions location later parsed
      (actions, s!"{location} contains unsupported action {textShown}" :: problems)
    | some action =>
      if action ∈ parsed then
        let (actions, problems) := parseActions location later parsed
        (actions, s!"{location} contains duplicate action {textShown}" :: problems)
      else parseActions location later (parsed ++ [action])
  | _ :: later, parsed =>
    let (actions, problems) := parseActions location later parsed
    (actions, s!"{location} entries must be strings" :: problems)

def parseObjectActions (value : Option Json) (location : String) (useDefault : Bool) :
    List Action × List String :=
  match value with
  | none => if useDefault then (objectApiActions, []) else ([], [s!"{location} is required"])
  | some (.array []) => ([], [s!"{location} must not be empty"])
  | some (.array values) => parseActions location values []
  | some _ => ([], [s!"{location} must be an array of actions"])

/-! ## Policies -/

/-- Prefixes in order, and the problems of those that are refused. -/
def parsePrefixes (location : String) : List Json → List Text → List Text × List String
  | [], parsed => (parsed, [])
  | .string text :: later, parsed =>
    let textShown := shown text
    if validObjectPrefix text = false then
      let (prefixes, problems) := parsePrefixes location later parsed
      (prefixes, (s!"{location} entry {textShown} must be empty for namespace root, a " ++
        "canonical top-level object key, or a canonical path ending in '/'") :: problems)
    else
      match parsed.find? fun earlier => objectPrefixesOverlap earlier text with
      | some earlier =>
        let earlierShown := shown earlier
        let (prefixes, problems) := parsePrefixes location later parsed
        (prefixes, (s!"{location} contains ambiguous overlapping prefixes {earlierShown} " ++
          s!"and {textShown}") :: problems)
      | none => parsePrefixes location later (parsed ++ [text])
  | _ :: later, parsed =>
    let (prefixes, problems) := parsePrefixes location later parsed
    (prefixes, s!"{location} entries must be strings" :: problems)

def parseLegacyObjectPrefixes (value : Option Json) (location : String) :
    List Text × List String :=
  match value with
  | none => ([[]], [])
  | some (.array []) => ([], [s!"{location} must not be empty"])
  | some (.array values) => parsePrefixes location values []
  | some _ => ([], [s!"{location} must be an array of strings"])

def parsePolicyPrefix (render : Json → String) (location : String) (value : Option Json) :
    Text × List String :=
  match value with
  | some (.string stem) =>
    if stem = [] ∨ validObjectPrefix stem = false then
      (stem, [s!"{location}.prefix must be a non-empty canonical top-level object key or path " ++
        "ending in '/'"])
    else (stem, [])
  | some value =>
    let valueText := render value
    ([], [s!"{location}.prefix must be a string, not {valueText}"])
  | none => ([], [s!"{location}.prefix is required"])

def overlapProblem (location : String) (earlier : List ObjectPrefixPolicy) (stem : Text) :
    List String :=
  match earlier.find? fun policy => objectPrefixesOverlap policy.boundary stem with
  | some policy =>
    let stemText := shown stem
    let earlierText := shown policy.boundary
    [s!"{location}.prefix {stemText} ambiguously overlaps earlier prefix {earlierText}"]
  | none => []

def parsePolicies (render : Json → String) (nameSpace : String) :
    ℕ → List Json → List ObjectPrefixPolicy → List ObjectPrefixPolicy × List String
  | _, [], earlier => (earlier, [])
  | index, .object fields :: later, earlier =>
    let location := s!"object_api.namespaces.{nameSpace}.prefix_policies[{index}]"
    let unknown := (unknownField ["prefix", "actions"] "`prefix` or `actions`" fields).map
      fun error => s!"{location}: {error}"
    let (stem, misread) := parsePolicyPrefix render location (Json.get fields "prefix")
    let (actions, refused) := parseObjectActions (Json.get fields "actions")
      (location ++ ".actions") false
    let overlapping := overlapProblem location earlier stem
    let (policies, problems) := parsePolicies render nameSpace (index + 1) later
      (earlier ++ [⟨stem, actions⟩])
    (policies, unknown.toList ++ misread ++ refused ++ overlapping ++ problems)
  | index, _ :: later, earlier =>
    let location := s!"object_api.namespaces.{nameSpace}.prefix_policies[{index}]"
    let (policies, problems) := parsePolicies render nameSpace (index + 1) later earlier
    (policies, s!"{location} must be an object with exact prefix and actions" :: problems)

def parseEntryPolicies (render : Json → String) (nameSpace : String)
    (fields : List (Text × Json)) : List ObjectPrefixPolicy × List String :=
  match Json.get fields "prefix_policies" with
  | some explicit =>
    let combined := if (Json.get fields "prefixes").isSome ∨ (Json.get fields "actions").isSome then
      [s!"object_api.namespaces.{nameSpace} cannot combine prefix_policies with legacy " ++
        "prefixes/actions"] else []
    match explicit with
    | .array [] => ([], combined ++
        [s!"object_api.namespaces.{nameSpace}.prefix_policies must not be empty"])
    | .array values =>
      let (policies, problems) := parsePolicies render nameSpace 0 values []
      (policies, combined ++ problems)
    | _ => ([], combined ++
        [s!"object_api.namespaces.{nameSpace}.prefix_policies must be an array"])
  | none =>
    let (prefixes, misread) := parseLegacyObjectPrefixes (Json.get fields "prefixes")
      s!"object_api.namespaces.{nameSpace}.prefixes"
    let (actions, refused) := parseObjectActions (Json.get fields "actions")
      s!"object_api.namespaces.{nameSpace}.actions" true
    (prefixes.map fun stem => ⟨stem, actions⟩, misread ++ refused)

/-! ## Namespaces -/

/-- The Skarbiec item that holds a namespace's bearer. -/
def namespaceItem (nameSpace : Text) : Text :=
  if nameSpace = "wisent-backend".toList then "wisent-backend-object-client".toList
  else nameSpace ++ "-object-api".toList

def namespaceProblem (nameSpace : Text) : List String :=
  let shownName := shown nameSpace
  if trim nameSpace ≠ nameSpace ∨ nameSpace = "releases".toList ∨
      (ObjectRef.new nameSpace "sentinel".toList).toOption = none then
    [s!"object_api.namespaces key {shownName} is not a canonical private product namespace"]
  else []

def itemProblem (render : Json → String) (nameSpace : Text) (value : Option Json) : List String :=
  let name := String.ofList nameSpace
  let expected := shown (namespaceItem nameSpace)
  match value with
  | some (.string item) =>
    let stated := shown item
    if item = namespaceItem nameSpace then []
    else [s!"object_api.namespaces.{name}.item must be {expected}, got {stated}"]
  | some value =>
    let stated := render value
    [s!"object_api.namespaces.{name}.item must be the string {expected}, not {stated}"]
  | none => [s!"object_api.namespaces.{name}.item is required and must be {expected}"]

/-- One entry of the map, and its problems; `items` are those of earlier entries. -/
def parseNamespace (render : Json → String) (items : List Text) (nameSpace : Text) (raw : Json) :
    Option ObjectApiNamespace × List String :=
  let name := String.ofList nameSpace
  match raw with
  | .object fields =>
    let unknown := (unknownField ["item", "prefixes", "actions", "prefix_policies"]
      "one of `item`, `prefixes`, `actions`, `prefix_policies`" fields).map
      fun error => s!"object_api.namespaces.{name}: {error}"
    let (policies, refused) := parseEntryPolicies render name fields
    let item := namespaceItem nameSpace
    let itemText := shown item
    let repeated := if item ∈ items then
      [s!"object_api.namespaces maps more than one namespace to item {itemText}"] else []
    (some ⟨item, policies⟩, namespaceProblem nameSpace ++ unknown.toList ++
      itemProblem render nameSpace (Json.get fields "item") ++ refused ++ repeated)
  | _ => (none, namespaceProblem nameSpace ++
      [s!"object_api.namespaces.{name} must be an object with item and either prefix_policies " ++
        "or legacy prefixes/actions"])

def parseNamespaces (render : Json → String) :
    List (Text × Json) → List Text → List (Text × ObjectApiNamespace) × List String
  | [], _ => ([], [])
  | (nameSpace, raw) :: later, items =>
    let (parsed, problems) := parseNamespace render items nameSpace raw
    let items := if parsed.isSome then namespaceItem nameSpace :: items else items
    let (entries, others) := parseNamespaces render later items
    match parsed, problems with
    | some entry, [] => ((nameSpace, entry) :: entries, others)
    | _, problems => (entries, problems ++ others)

/-- The namespace map, or everything that is wrong with it. -/
def parseObjectApiNamespaces (render : Json → String) (value : Option Json) :
    Except (List String) (List (Text × ObjectApiNamespace)) :=
  match value with
  | some (.object []) => .error ["object_api.namespaces must not be empty; product object routes " ++
      "fail closed without an explicit mapping"]
  | some (.object entries) =>
    match parseNamespaces render entries [] with
    | (namespaces, []) => .ok namespaces
    | (_, problems) => .error problems
  | _ => .error ["object_api.namespaces must be a non-empty object mapping namespaces to Skarbiec items"]

/-! ## What is accepted -/

/-- Boundaries in canonical form, none of which overlaps another. -/
def Bounded (stems : List Text) : Prop :=
  (∀ stem ∈ stems, validObjectPrefix stem = true) ∧
    stems.Pairwise fun left right => objectPrefixesOverlap left right = false

theorem bounded_snoc {stems : List Text} {stem : Text} (h : Bounded stems)
    (hvalid : validObjectPrefix stem = true)
    (hfind : stems.find? (fun earlier => objectPrefixesOverlap earlier stem) = none) :
    Bounded (stems ++ [stem]) := by
  constructor
  · intro other hother
    rcases mem_append.mp hother with hother | hother
    · exact h.1 other hother
    · rwa [mem_singleton.mp hother]
  · refine pairwise_append.mpr ⟨h.2, pairwise_singleton _ _, ?_⟩
    intro earlier hearlier last hlast
    rw [mem_singleton.mp hlast]
    exact Bool.eq_false_iff.mpr (List.find?_eq_none.mp hfind earlier hearlier)

variable {location : String} {values : List Json}

theorem parsePrefixes_bounded {parsed : List Text}
    (h : Bounded parsed) (haccepted : (parsePrefixes location values parsed).2 = []) :
    Bounded (parsePrefixes location values parsed).1 := by
  induction values generalizing parsed with
  | nil => exact h
  | cons value later ih =>
    cases value with
    | string text =>
      unfold parsePrefixes at haccepted ⊢
      dsimp only at haccepted ⊢
      by_cases hvalid : validObjectPrefix text = false
      · rw [if_pos hvalid] at haccepted
        cases haccepted
      · rw [if_neg hvalid] at haccepted ⊢
        cases hfind : parsed.find? fun earlier => objectPrefixesOverlap earlier text with
        | some earlier =>
          rw [hfind] at haccepted
          cases haccepted
        | none =>
          rw [hfind] at haccepted
          exact ih (bounded_snoc h (Bool.not_eq_false _ ▸ hvalid) hfind) haccepted
    | _ => cases haccepted

theorem bounded_root : Bounded [[]] :=
  ⟨fun stem hstem => by rw [mem_singleton.mp hstem]; rfl, pairwise_singleton _ _⟩

variable {value : Option Json} {render : Json → String} {earlier : List ObjectPrefixPolicy}
  {nameSpace : String}

theorem parseLegacyObjectPrefixes_bounded
    (haccepted : (parseLegacyObjectPrefixes value location).2 = []) :
    Bounded (parseLegacyObjectPrefixes value location).1 := by
  unfold parseLegacyObjectPrefixes at haccepted ⊢
  split at haccepted
  · exact bounded_root
  · cases haccepted
  · exact parsePrefixes_bounded ⟨nofun, .nil⟩ haccepted
  · cases haccepted

theorem parsePolicyPrefix_valid (haccepted : (parsePolicyPrefix render location value).2 = []) :
    validObjectPrefix (parsePolicyPrefix render location value).1 = true := by
  unfold parsePolicyPrefix at haccepted ⊢
  split at haccepted
  · split_ifs at haccepted with hrefused
    rw [if_neg hrefused]
    exact Bool.not_eq_false _ ▸ (not_or.mp hrefused).2
  · cases haccepted
  · cases haccepted

theorem overlapProblem_none {stem : Text} (haccepted : overlapProblem location earlier stem = []) :
    (earlier.map boundary).find?
      (fun earlier => objectPrefixesOverlap earlier stem) = none := by
  unfold overlapProblem at haccepted
  rw [List.find?_map, Option.map_eq_none_iff]
  split at haccepted
  · cases haccepted
  · assumption

theorem parsePolicies_bounded {index : ℕ} (h : Bounded (earlier.map boundary))
    (haccepted : (parsePolicies render nameSpace index values earlier).2 = []) :
    Bounded ((parsePolicies render nameSpace index values earlier).1.map
      boundary) := by
  induction values generalizing index earlier with
  | nil => exact h
  | cons value later ih =>
    cases value with
    | object fields =>
      unfold parsePolicies at haccepted ⊢
      dsimp only at haccepted ⊢
      obtain ⟨hrest, hlater⟩ := append_eq_nil_iff.mp haccepted
      obtain ⟨hrest, hoverlap⟩ := append_eq_nil_iff.mp hrest
      obtain ⟨hrest, -⟩ := append_eq_nil_iff.mp hrest
      obtain ⟨-, hprefix⟩ := append_eq_nil_iff.mp hrest
      refine ih ?_ hlater
      rw [map_append]
      exact bounded_snoc h (parsePolicyPrefix_valid hprefix) (overlapProblem_none hoverlap)
    | _ => cases haccepted

theorem parseEntryPolicies_bounded {fields : List (Text × Json)}
    (haccepted : (parseEntryPolicies render nameSpace fields).2 = []) :
    Bounded ((parseEntryPolicies render nameSpace fields).1.map boundary) := by
  unfold parseEntryPolicies at haccepted ⊢
  cases hexplicit : Json.get fields "prefix_policies" with
  | some explicit =>
    rw [hexplicit] at haccepted
    dsimp only at haccepted ⊢
    split at haccepted
    · exact ⟨nofun, .nil⟩
    · exact parsePolicies_bounded ⟨nofun, .nil⟩ (append_eq_nil_iff.mp haccepted).2
    · exact ⟨nofun, .nil⟩
  | none =>
    rw [hexplicit] at haccepted
    dsimp only at haccepted ⊢
    have hsame : ∀ (actions : List Action) (stems : List Text),
        (stems.map fun stem => (⟨stem, actions⟩ : ObjectPrefixPolicy)).map
          boundary = stems := by
      intro actions stems
      rw [List.map_map]
      exact List.map_id stems
    rw [hsame]
    exact parseLegacyObjectPrefixes_bounded (append_eq_nil_iff.mp haccepted).1

theorem namespaceProblem_none {nameSpace : Text} (h : namespaceProblem nameSpace = []) :
    ValidNamespace nameSpace := by
  unfold namespaceProblem at h
  dsimp only at h
  split_ifs at h with hrefused
  obtain ⟨htrim, -, hnamed⟩ : trim nameSpace = nameSpace ∧ nameSpace ≠ "releases".toList ∧
      (ObjectRef.new nameSpace "sentinel".toList).toOption ≠ none := by
    simpa only [not_or, not_not] using hrefused
  unfold ObjectRef.new at hnamed
  rw [htrim] at hnamed
  dsimp only at hnamed
  split_ifs at hnamed with hpublic hvalid hkeyed
  · exact absurd rfl hnamed
  · exact hvalid
  · exact hvalid
  · exact absurd rfl hnamed

def Declared (nameSpace : Text) (entry : ObjectApiNamespace) : Prop :=
  ValidNamespace nameSpace ∧ Bounded (entry.prefixPolicies.map boundary)

theorem parseNamespace_declared {items : List Text} {nameSpace : Text} {raw : Json}
    {entry : ObjectApiNamespace} (h : parseNamespace render items nameSpace raw = (some entry, [])) :
    Declared nameSpace entry := by
  unfold parseNamespace at h
  cases raw with
  | object fields =>
    dsimp only at h
    obtain ⟨hentry, hproblems⟩ := Prod.mk.inj h
    obtain ⟨hrest, -⟩ := append_eq_nil_iff.mp hproblems
    obtain ⟨hrest, hpolicies⟩ := append_eq_nil_iff.mp hrest
    obtain ⟨hrest, -⟩ := append_eq_nil_iff.mp hrest
    obtain ⟨hname, -⟩ := append_eq_nil_iff.mp hrest
    obtain rfl := Option.some.inj hentry
    exact ⟨namespaceProblem_none hname, parseEntryPolicies_bounded hpolicies⟩
  | _ => cases (Prod.mk.inj h).1

theorem parseNamespaces_declared {raws : List (Text × Json)} {items : List Text} {nameSpace : Text}
    {entry : ObjectApiNamespace} (h : (nameSpace, entry) ∈ (parseNamespaces render raws items).1) :
    Declared nameSpace entry := by
  induction raws generalizing items with
  | nil => cases h
  | cons raw later ih =>
    unfold parseNamespaces at h
    dsimp only at h
    split at h
    · rename_i found problems hfound hproblems
      rcases mem_cons.mp h with heq | hlater
      · obtain ⟨rfl, rfl⟩ := Prod.mk.inj heq
        exact parseNamespace_declared (Prod.ext hfound hproblems)
      · exact ih hlater
    · exact ih h

/-- Every namespace of an accepted map is declared. -/
theorem parseObjectApiNamespaces_declared {table : List (Text × ObjectApiNamespace)}
    (haccepted : parseObjectApiNamespaces render value = .ok table) {nameSpace : Text}
    {entry : ObjectApiNamespace} (h : (nameSpace, entry) ∈ table) : Declared nameSpace entry := by
  unfold parseObjectApiNamespaces at haccepted
  split at haccepted
  · cases haccepted
  · rename_i entries hentries
    split at haccepted
    · rename_i namespaces hparsed
      obtain rfl := Except.ok.inj haccepted
      refine @parseNamespaces_declared render entries [] nameSpace entry ?_
      rw [hparsed]
      exact h
    · cases haccepted
  · cases haccepted

end Stado.S3.Listener
