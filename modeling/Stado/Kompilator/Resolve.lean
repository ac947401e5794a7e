import Stado.Library.Postorder
import Stado.Library.Procedures

/-!
# Feature resolution

Which packages are compiled, for which side, with which features. The graph
holds the manifest of every locked package and, for each dependency line, the
package it is. Resolution fills a map of the units that are compiled, by three
procedures that call one another: `ensure` a unit is there with its required
dependencies, `enableLine` one dependency line, `activate` one feature. A unit
holds its features, its dependency edges, and the weak features that wait for
a dependency that is not enabled yet.
-/

namespace Stado.Kompilator

open Procedures

/-! ## Manifests -/

inductive Kind where
  | normal
  | build
deriving DecidableEq

/-- A dependency line; `aliasName` is the name the depending crate calls it by. -/
structure Dependency where
  aliasName : String
  optional : Bool
  defaultFeatures : Bool
  features : List String
  kind : Kind
deriving DecidableEq

structure Lib where
  procMacro : Bool

structure Manifest where
  name : String
  version : String
  lib : Option Lib
  buildScript : Option String
  /-- The feature table: what each feature enables. -/
  features : List (String × List String)
  dependencies : List Dependency
  features_nodup : (features.map Prod.fst).Nodup

inductive Entry where
  | dep (name : String)
  | sub (name : String) (feature : String) (weak : Bool)
  | feature
deriving DecidableEq

def stripPrefix (before text : List Char) : Option (List Char) :=
  if before.isPrefixOf text then some (text.drop before.length) else none

/-- What stands before and after the first `/`. -/
def splitOnce : List Char → Option (List Char × List Char)
  | [] => none
  | '/' :: rest => some ([], rest)
  | c :: rest => (splitOnce rest).map fun halves => (c :: halves.1, halves.2)

def stripSuffix (last : Char) (text : List Char) : Option (List Char) :=
  if text.getLast? = some last then some text.dropLast else none

def Entry.of (entry : String) : Entry :=
  match stripPrefix "dep:".toList entry.toList with
  | some name => .dep (String.ofList name)
  | none =>
    match splitOnce entry.toList with
    | some (name, after) =>
      match stripSuffix '?' name with
      | some name => .sub (String.ofList name) (String.ofList after) true
      | none => .sub (String.ofList name) (String.ofList after) false
    | none => .feature

example : Entry.of "dep:x" = .dep "x" ∧ Entry.of "x?/f" = .sub "x" "f" true ∧
    Entry.of "x/f" = .sub "x" "f" false ∧ Entry.of "x" = .feature := by decide

namespace Manifest

variable (m : Manifest)

/-- The optional dependencies a `dep:` entry names somewhere in the table:
those have no implicit feature of their own name. -/
def explicitDepFeatures : List String :=
  (m.features.flatMap Prod.snd).filterMap fun entry =>
    match Entry.of entry with
    | .dep name => some name
    | _ => none

/-- `name` is the implicit feature of an optional dependency. -/
def implicit (name : String) : Bool :=
  m.dependencies.any (fun d => d.aliasName == name && d.optional) &&
    !m.explicitDepFeatures.contains name

/-- What the table says of a feature. -/
def enables (feature : String) : Option (List String) := m.features.lookup feature

end Manifest

/-! ## The graph -/

/-- A package compiled for the target, or for the host. -/
structure BuildUnit (n : ℕ) where
  node : Fin n
  host : Bool
deriving DecidableEq

/-- A dependency edge; `target` is the unit it reaches. -/
structure Edge (n : ℕ) where
  aliasName : String
  kind : Kind
  target : BuildUnit n
deriving DecidableEq

structure UnitState (n : ℕ) where
  features : List String
  edges : List (Edge n)
  weak : List (String × String)

def UnitState.empty {n : ℕ} : UnitState n := ⟨[], [], []⟩

abbrev Units (n : ℕ) : Type := BuildUnit n → Option (UnitState n)

/-- The locked packages: each dependency line of a node is one of the nodes, or
does not apply to the build. -/
structure Graph (n : ℕ) where
  nodes : Fin n → Manifest
  targets : (node : Fin n) → Fin (nodes node).dependencies.length → Option (Fin n)
  root : BuildUnit n

/-- The root's features as the build asks for them. -/
structure Features where
  /-- Its `default` feature. -/
  default : Bool
  /-- Every feature it declares. -/
  all : Bool
  /-- The features asked for by name. -/
  named : List String

variable {n : ℕ}

abbrev Resolving (n : ℕ) (α : Type) : Type := Command (Units n) String α

def stateOf (unit : BuildUnit n) : Resolving n (UnitState n) := do
  let units ← Command.get
  match units unit with
  | some state => pure state
  | none => Command.throw "a unit vanished"

def setState (unit : BuildUnit n) (state : UnitState n) : Resolving n PUnit := do
  let units ← Command.get
  Command.put (Function.update units unit (some state))

def addEdge (unit : BuildUnit n) (edge : Edge n) : Resolving n PUnit := do
  let state ← stateOf unit
  if edge ∈ state.edges then
    pure ⟨⟩
  else
    setState unit { state with edges := state.edges ++ [edge] }

def addFeature (unit : BuildUnit n) (feature : String) : Resolving n PUnit := do
  let state ← stateOf unit
  setState unit { state with features := state.features.insert feature }

def addWeak (unit : BuildUnit n) (name feature : String) : Resolving n PUnit := do
  let state ← stateOf unit
  setState unit { state with weak := state.weak ++ [(name, feature)] }

/-- The weak features that wait for `name`, which wait no longer. -/
def takeWaiting (unit : BuildUnit n) (name : String) : Resolving n (List String) := do
  let state ← stateOf unit
  let (now, later) := state.weak.partition fun waiting => waiting.1 == name
  setState unit { state with weak := later }
  pure (now.map Prod.snd)

namespace Graph

variable (g : Graph n)

/-- A procedure and its arguments. -/
inductive Call where
  | ensure (unit : BuildUnit n)
  | enableLine (unit : BuildUnit n) (position : Fin (g.nodes unit.node).dependencies.length)
      (extra : Option String)
  | activate (unit : BuildUnit n) (feature : String)

def manifest (unit : BuildUnit n) : Manifest := g.nodes unit.node

/-- The unit a dependency edge of `source` reaches. -/
def reached (source : BuildUnit n) (dependency : Dependency) (node : Fin n) : BuildUnit n :=
  let procMacro := (g.nodes node).lib.any fun lib => lib.procMacro
  { node := node, host := source.host || dependency.kind == .build || procMacro }

/-- The manifest lines of `unit` called `name`. -/
def lines (unit : BuildUnit n) (name : String) :
    List (Fin (g.nodes unit.node).dependencies.length) :=
  (List.finRange _).filter fun position =>
    let dependency := (g.nodes unit.node).dependencies.get position
    dependency.aliasName == name &&
      (dependency.kind == .normal || (g.manifest unit).buildScript.isSome)

def enabled (units : Units n) (unit : BuildUnit n) (name : String) : Bool :=
  (units unit).any fun state => state.edges.any fun edge => edge.aliasName == name

variable (call : g.Call → Resolving n PUnit)

def ensure (unit : BuildUnit n) : Resolving n PUnit := do
  let units ← Command.get
  if (units unit).isSome then
    pure ⟨⟩
  else
    setState unit .empty
    Command.forEach (List.finRange _) fun position => do
      let dependency := (g.nodes unit.node).dependencies.get position
      if dependency.optional then
        pure ⟨⟩
      else if dependency.kind = .build ∧ (g.manifest unit).buildScript = none then
        pure ⟨⟩
      else
        call (.enableLine unit position none)

/-- Enable one dependency line of a unit, with one more feature of it when
`extra` names one. -/
def enableLine (unit : BuildUnit n) (position : Fin (g.nodes unit.node).dependencies.length)
    (extra : Option String) : Resolving n PUnit := do
  match g.targets unit.node position with
  | none => pure ⟨⟩
  | some node =>
    let dependency := (g.nodes unit.node).dependencies.get position
    let target := g.reached unit dependency node
    call (.ensure target)
    addEdge unit ⟨dependency.aliasName, dependency.kind, target⟩
    Command.onlyIf
      (dependency.defaultFeatures = true ∧ ((g.nodes node).enables "default").isSome)
      (call (.activate target "default"))
    Command.forEach dependency.features fun feature => call (.activate target feature)
    Command.forEach extra.toList fun feature => call (.activate target feature)
    -- A weak feature waiting on this dependency applies now.
    let waiting ← takeWaiting unit dependency.aliasName
    Command.forEach waiting fun feature => call (.activate target feature)

def apply (unit : BuildUnit n) (entry : String) : Resolving n PUnit :=
  match Entry.of entry with
  | .dep name =>
    Command.forEach (g.lines unit name) fun line => call (.enableLine unit line none)
  | .sub name feature weak => do
      let units ← Command.get
      if weak = true ∧ enabled units unit name = false then
        addWeak unit name feature
      else
        Command.onlyIf (weak = false ∧ (g.manifest unit).implicit name = true)
          (addFeature unit name)
        Command.forEach (g.lines unit name) fun line =>
          call (.enableLine unit line (some feature))
  | .feature => call (.activate unit entry)

def activate (unit : BuildUnit n) (feature : String) : Resolving n PUnit := do
  call (.ensure unit)
  let state ← stateOf unit
  if feature ∈ state.features then
    pure ⟨⟩
  else
    addFeature unit feature
    match (g.manifest unit).enables feature with
    | some entries => Command.forEach entries fun entry => g.apply call unit entry
    | none =>
      if (g.manifest unit).implicit feature then
        Command.forEach (g.lines unit feature) fun line => call (.enableLine unit line none)
      else
        Command.throw
          s!"{(g.manifest unit).name} {(g.manifest unit).version} has no feature {feature}"

def body : g.Call → Resolving n PUnit
  | .ensure unit => g.ensure call unit
  | .enableLine unit position extra => g.enableLine call unit position extra
  | .activate unit feature => g.activate call unit feature

/-- What the build asks of the root, besides its `default` feature. -/
def wanted (features : Features) : List String :=
  if features.all then (g.nodes g.root.node).features.map Prod.fst else features.named

/-- The whole resolution, with calls `depth` deep. -/
def build (features : Features) (depth : ℕ) : Resolving n PUnit := do
  run g.body depth (.ensure g.root)
  Command.onlyIf
    (features.default = true ∧ "default" ∈ (g.nodes g.root.node).features.map Prod.fst)
    (run g.body depth (.activate g.root "default"))
  Command.forEach (g.wanted features) fun feature =>
    Command.mapError (fun why => s!"--features {feature}: {why}")
      (run g.body depth (.activate g.root feature))

/-- The resolution ends, with the units or with the reason there are none. -/
def Builds (features : Features) (result : Except String (Units n)) : Prop :=
  ∃ enough, ∀ depth ≥ enough,
    g.build features depth (fun _ => none) = some (result.map fun units => (⟨⟩, units))

def successors (units : Units n) (unit : BuildUnit n) : List (BuildUnit n) :=
  match units unit with
  | some state => state.edges.map Edge.target
  | none => []

/-- Every unit, each after every unit it depends on; the loop takes at most
`fuel` turns. -/
def order (units : Units n) (fuel : ℕ) : Option (List (BuildUnit n)) :=
  Postorder.run (successors units) fuel (.start g.root)

end Graph

end Stado.Kompilator
