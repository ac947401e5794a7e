import Mathlib.Order.FixedPoints
import Mathlib.Order.CompletePartialOrder
import Stado.Kompilator.Resolve

/-!
# What a build activates

The activation rules, as one monotone operator on sets of facts: a unit is
compiled, it has a dependency edge, it has a feature. What is active is the
least fixed point. The rules speak of the dependency lines and of the entries
of the tables as sets, so nothing here knows an order: two graphs that list
the same lines and entries have the same rules.
-/

namespace Stado.Kompilator

open List Entry

variable {n : ℕ}

inductive Fact (n : ℕ) where
  | unit (unit : BuildUnit n)
  | edge (unit : BuildUnit n) (edge : Edge n)
  | feature (unit : BuildUnit n) (feature : String)

namespace Graph

variable (g : Graph n) (asked : Features)

/-- A dependency line of `unit` the build uses, and the node it is. -/
def Line (unit : BuildUnit n) (d : Dependency) (node : Fin n) : Prop :=
  (∃ p, (g.nodes unit.node).dependencies.get p = d ∧ g.targets unit.node p = some node) ∧
    (d.kind = .normal ∨ (g.manifest unit).buildScript.isSome)

/-- The edge a line of `unit` is. -/
def edgeOf (unit : BuildUnit n) (d : Dependency) (node : Fin n) : Edge n :=
  ⟨d.aliasName, d.kind, g.reached unit d node⟩

/-- Some entry of the table of `feature` is `entry`. -/
def Enables (unit : BuildUnit n) (feature entry : String) : Prop :=
  ∃ entries, (g.manifest unit).enables feature = some entries ∧ entry ∈ entries

/-- What an enabled line brings: its edge, the unit it reaches, that unit's
default feature and the features the line names. -/
inductive Brings (unit : BuildUnit n) (d : Dependency) (node : Fin n) : Fact n → Prop
  | edge : Brings unit d node (.edge unit (g.edgeOf unit d node))
  | unit : Brings unit d node (.unit (g.reached unit d node))
  | default (asked : d.defaultFeatures = true)
      (declared : ((g.nodes node).enables "default").isSome) :
      Brings unit d node (.feature (g.reached unit d node) "default")
  | feature {f : String} (named : f ∈ d.features) :
      Brings unit d node (.feature (g.reached unit d node) f)

def Asks (f : String) : Prop :=
  f ∈ g.wanted asked ∨ (f = "default" ∧ asked.default = true ∧
      "default" ∈ (g.nodes g.root.node).features.map Prod.fst)

/-- One application of one rule to the facts of `S`. -/
inductive Follows (S : Set (Fact n)) : Fact n → Prop
  | root : Follows S (.unit g.root)
  | asked {f : String} (h : g.Asks asked f) : Follows S (.feature g.root f)
  | required {u : BuildUnit n} {d : Dependency} {node : Fin n} {φ : Fact n}
      (active : .unit u ∈ S) (line : g.Line u d node) (required : d.optional = false)
      (brings : g.Brings u d node φ) : Follows S φ
  | named {u : BuildUnit n} {f entry : String} (active : .feature u f ∈ S)
      (enables : g.Enables u f entry) (isFeature : of entry = .feature) :
      Follows S (.feature u entry)
  | dep {u : BuildUnit n} {f entry x : String} {d : Dependency} {node : Fin n} {φ : Fact n}
      (active : .feature u f ∈ S) (enables : g.Enables u f entry)
      (isDep : of entry = .dep x) (line : g.Line u d node) (called : d.aliasName = x)
      (brings : g.Brings u d node φ) : Follows S φ
  | implicit {u : BuildUnit n} {f : String} {d : Dependency} {node : Fin n} {φ : Fact n}
      (active : .feature u f ∈ S) (untold : (g.manifest u).enables f = none)
      (isImplicit : (g.manifest u).implicit f = true) (line : g.Line u d node)
      (called : d.aliasName = f) (brings : g.Brings u d node φ) : Follows S φ
  | strongLine {u : BuildUnit n} {f entry x sub : String} {d : Dependency} {node : Fin n}
      {φ : Fact n} (active : .feature u f ∈ S) (enables : g.Enables u f entry)
      (isSub : of entry = .sub x sub false) (line : g.Line u d node)
      (called : d.aliasName = x) (brings : g.Brings u d node φ) : Follows S φ
  | strongFeature {u : BuildUnit n} {f entry x sub : String} {d : Dependency} {node : Fin n}
      (active : .feature u f ∈ S) (enables : g.Enables u f entry)
      (isSub : of entry = .sub x sub false) (line : g.Line u d node)
      (called : d.aliasName = x) : Follows S (.feature (g.reached u d node) sub)
  | strongName {u : BuildUnit n} {f entry x sub : String} (active : .feature u f ∈ S)
      (enables : g.Enables u f entry) (isSub : of entry = .sub x sub false)
      (isImplicit : (g.manifest u).implicit x = true) : Follows S (.feature u x)
  | weak {u : BuildUnit n} {f entry x sub : String} {e : Edge n} (active : .feature u f ∈ S)
      (enables : g.Enables u f entry) (isSub : of entry = .sub x sub true)
      (edge : .edge u e ∈ S) (called : e.aliasName = x) : Follows S (.feature e.target sub)

variable {g asked} {φ : Fact n}

theorem Follows.mono {S T : Set (Fact n)} (hST : S ⊆ T)
    (h : g.Follows asked S φ) : g.Follows asked T φ := by
  cases h with
  | root => exact .root
  | asked h => exact .asked h
  | required active line required brings => exact .required (hST active) line required brings
  | named active enables isFeature => exact .named (hST active) enables isFeature
  | dep active enables isDep line called brings =>
    exact .dep (hST active) enables isDep line called brings
  | implicit active untold isImplicit line called brings =>
    exact .implicit (hST active) untold isImplicit line called brings
  | strongLine active enables isSub line called brings =>
    exact .strongLine (hST active) enables isSub line called brings
  | strongFeature active enables isSub line called =>
    exact .strongFeature (hST active) enables isSub line called
  | strongName active enables isSub isImplicit =>
    exact .strongName (hST active) enables isSub isImplicit
  | weak active enables isSub edge called =>
    exact .weak (hST active) enables isSub (hST edge) called

variable (g asked) {S : Set (Fact n)}

def rules : Set (Fact n) →o Set (Fact n) where
  toFun S := {φ | g.Follows asked S φ}
  monotone' _ _ hST _ h := Follows.mono hST h

/-- The facts the rules force: their least fixed point. -/
def active : Set (Fact n) := OrderHom.lfp (g.rules asked)

theorem active_of_follows (h : g.Follows asked (g.active asked) φ) : φ ∈ g.active asked := by
  have hfix : g.rules asked (g.active asked) = g.active asked := OrderHom.map_lfp _
  rw [← hfix]
  exact h

theorem active_subset (h : ∀ φ, g.Follows asked S φ → φ ∈ S) : g.active asked ⊆ S :=
  OrderHom.lfp_le _ h

/-- A feature the table or an optional dependency knows. -/
def Known (unit : BuildUnit n) (f : String) : Prop :=
  (g.manifest unit).enables f ≠ none ∨ (g.manifest unit).implicit f = true

/-- Nothing active is unknown to its package. -/
def AllKnown : Prop := ∀ u f, .feature u f ∈ g.active asked → g.Known u f

/-- The lines of one name are told apart nowhere: they reach the same unit and
are enabled together. -/
def OneTarget (unit : BuildUnit n) (x : String) : Prop :=
  ∀ d node d' node', g.Line unit d node → d.aliasName = x → g.Line unit d' node' →
    d'.aliasName = x → g.reached unit d node = g.reached unit d' node' ∧ d.optional = d'.optional

/-- Every active weak entry of an active dependency names one unit by it, and
no active `x/f` names an optional dependency whose name is also a feature of
the table. -/
structure Plain : Prop where
  weak : ∀ u f entry x sub e, .feature u f ∈ g.active asked → g.Enables u f entry →
    of entry = .sub x sub true → .edge u e ∈ g.active asked → e.aliasName = x →
    g.OneTarget u x
  strong : ∀ u f entry x sub, .feature u f ∈ g.active asked → g.Enables u f entry →
    of entry = .sub x sub false → (g.manifest u).implicit x = true →
    (g.manifest u).enables x = none

end Graph

def Units.facts (units : Units n) : Set (Fact n) := fun
  | .unit u => (units u).isSome
  | .edge u e => ∃ state, units u = some state ∧ e ∈ state.edges
  | .feature u f => ∃ state, units u = some state ∧ f ∈ state.features

/-! ## Graphs that differ in the order of what they list -/

/-- Node for node, the same lines and the same table entries, in any order. -/
structure Graph.Reordered (g g' : Graph n) : Prop where
  root : g.root = g'.root
  lib : ∀ node, (g.nodes node).lib = (g'.nodes node).lib
  buildScript : ∀ node, (g.nodes node).buildScript = (g'.nodes node).buildScript
  tables : ∀ node f, (g.nodes node).enables f = none ↔ (g'.nodes node).enables f = none
  entries : ∀ node f entry, (∃ es, (g.nodes node).enables f = some es ∧ entry ∈ es) ↔
    ∃ es, (g'.nodes node).enables f = some es ∧ entry ∈ es
  dependencies : ∀ node d, d ∈ (g.nodes node).dependencies ↔ d ∈ (g'.nodes node).dependencies
  targets : ∀ node d target,
    (∃ p, (g.nodes node).dependencies.get p = d ∧ g.targets node p = some target) ↔
      ∃ p, (g'.nodes node).dependencies.get p = d ∧ g'.targets node p = some target

namespace Manifest

variable {m : Manifest}

theorem mem_features_iff {f : String} {entries : List String} :
    (f, entries) ∈ m.features ↔ m.enables f = some entries := by
  have hnodup := m.features_nodup
  unfold enables
  generalize m.features = table at *
  induction table with
  | nil => simp
  | cons row rest ih =>
    obtain ⟨name, es⟩ := row
    rw [map_cons, nodup_cons] at hnodup
    rw [lookup_cons, mem_cons]
    by_cases hname : f = name
    · subst hname
      have hout : (f, entries) ∉ rest := fun h =>
        hnodup.1 (List.mem_map.mpr ⟨_, h, rfl⟩)
      simp only [hout, or_false, beq_self_eq_true, Option.some.injEq, Prod.mk.injEq, true_and]
      exact eq_comm
    · have hne : (f == name) = false := by simpa using hname
      simp only [hne, Prod.mk.injEq, hname, false_and, false_or]
      exact ih hnodup.2

theorem mem_explicit {x : String} : x ∈ m.explicitDepFeatures ↔
    ∃ f entry, (∃ es, m.enables f = some es ∧ entry ∈ es) ∧ of entry = .dep x := by
  unfold explicitDepFeatures
  rw [mem_filterMap]
  constructor
  · rintro ⟨entry, hentry, hof⟩
    obtain ⟨⟨f, es⟩, hrow, hes⟩ := mem_flatMap.mp hentry
    refine ⟨f, entry, ⟨es, mem_features_iff.mp hrow, hes⟩, ?_⟩
    split at hof
    · next heq =>
      cases hof
      exact heq
    · cases hof
  · rintro ⟨f, entry, ⟨es, hes, hentry⟩, hof⟩
    refine ⟨entry, mem_flatMap.mpr ⟨(f, es), mem_features_iff.mpr hes, hentry⟩, ?_⟩
    rw [hof]

end Manifest

namespace Graph

variable {g g' : Graph n} {asked asked' : Features}

theorem Reordered.symm (h : g.Reordered g') : g'.Reordered g where
  root := h.root.symm
  lib node := (h.lib node).symm
  buildScript node := (h.buildScript node).symm
  tables node f := (h.tables node f).symm
  entries node f entry := (h.entries node f entry).symm
  dependencies node d := (h.dependencies node d).symm
  targets node d target := (h.targets node d target).symm

theorem Reordered.reached (h : g.Reordered g') (u : BuildUnit n) (d : Dependency)
    (node : Fin n) : g.reached u d node = g'.reached u d node := by
  unfold Graph.reached
  rw [h.lib]

variable {u : BuildUnit n} {f : String}

section

variable (h : g.Reordered g')

include h

variable {d : Dependency} {node : Fin n}

theorem Reordered.line (hl : g.Line u d node) : g'.Line u d node := by
  obtain ⟨hp, hkept⟩ := hl
  refine ⟨(h.targets u.node d node).mp hp, ?_⟩
  unfold manifest at hkept ⊢
  rw [← h.buildScript]
  exact hkept

theorem Reordered.implicit {x : String}
    (hi : (g.manifest u).implicit x = true) : (g'.manifest u).implicit x = true := by
  unfold manifest Manifest.implicit at hi ⊢
  simp only [Bool.and_eq_true, List.any_eq_true, Bool.not_eq_true', contains_eq_mem,
    decide_eq_false_iff_not] at hi ⊢
  obtain ⟨⟨d, hd, hopt⟩, hexplicit⟩ := hi
  refine ⟨⟨d, (h.dependencies u.node d).mp hd, hopt⟩, fun hx => hexplicit ?_⟩
  obtain ⟨f, entry, hentry, hof⟩ := Manifest.mem_explicit.mp hx
  exact Manifest.mem_explicit.mpr ⟨f, entry, (h.entries u.node f entry).mpr hentry, hof⟩

theorem Reordered.enables {entry : String} (he : g.Enables u f entry) : g'.Enables u f entry :=
  (h.entries u.node f entry).mp he

theorem Reordered.enables_none
    (hn : (g.manifest u).enables f = none) : (g'.manifest u).enables f = none :=
  (h.tables u.node f).mp hn

theorem Reordered.brings (hb : g.Brings u d node φ) : g'.Brings u d node φ := by
  cases hb with
  | edge =>
    unfold edgeOf
    rw [h.reached]
    exact .edge
  | unit =>
    rw [h.reached]
    exact .unit
  | default hasks hdeclared =>
    rw [h.reached]
    refine .default hasks ?_
    rw [Option.isSome_iff_ne_none] at hdeclared ⊢
    exact fun hnone => hdeclared ((h.tables node "default").mpr hnone)
  | feature hf =>
    rw [h.reached]
    exact .feature hf

theorem Reordered.follows (hasks : ∀ f, g.Asks asked f → g'.Asks asked' f)
    (hφ : g.Follows asked S φ) : g'.Follows asked' S φ := by
  cases hφ with
  | root =>
    rw [h.root]
    exact .root
  | asked hf =>
    rw [h.root]
    exact .asked (hasks _ hf)
  | required active line required brings =>
    exact .required active (h.line line) required (h.brings brings)
  | named active enables isFeature => exact .named active (h.enables enables) isFeature
  | dep active enables isDep line called brings =>
    exact .dep active (h.enables enables) isDep (h.line line) called (h.brings brings)
  | implicit active untold isImplicit line called brings =>
    exact .implicit active (h.enables_none untold) (h.implicit isImplicit) (h.line line) called
      (h.brings brings)
  | strongLine active enables isSub line called brings =>
    exact .strongLine active (h.enables enables) isSub (h.line line) called (h.brings brings)
  | strongFeature active enables isSub line called =>
    rw [h.reached]
    exact .strongFeature active (h.enables enables) isSub (h.line line) called
  | strongName active enables isSub isImplicit =>
    exact .strongName active (h.enables enables) isSub (h.implicit isImplicit)
  | weak active enables isSub edge called =>
    exact .weak active (h.enables enables) isSub edge called

theorem Reordered.rules (hasks : ∀ f, g.Asks asked f ↔ g'.Asks asked' f) :
    g.rules asked = g'.rules asked' := by
  apply OrderHom.ext
  funext S
  ext φ
  exact ⟨h.follows fun f => (hasks f).mp, h.symm.follows fun f => (hasks f).mpr⟩

theorem Reordered.active (hasks : ∀ f, g.Asks asked f ↔ g'.Asks asked' f) :
    g.active asked = g'.active asked' := by
  unfold Graph.active
  rw [h.rules hasks]

theorem Reordered.known (hk : g.Known u f) : g'.Known u f := by
  rcases hk with hk | hk
  · exact .inl fun hnone => hk (h.symm.enables_none hnone)
  · exact .inr (h.implicit hk)

theorem Reordered.allKnown (hasks : ∀ f, g.Asks asked f ↔ g'.Asks asked' f)
    (hall : g.AllKnown asked) : g'.AllKnown asked' := by
  intro u f hf
  rw [← h.active hasks] at hf
  exact h.known (hall u f hf)

theorem Reordered.plain (hasks : ∀ f, g.Asks asked f ↔ g'.Asks asked' f)
    (hplain : g.Plain asked) : g'.Plain asked' := by
  have hactive := h.active hasks
  constructor
  · intro u f entry x sub e hf hentry hof he hx d node d' node' hl hd hl' hd'
    rw [← hactive] at hf he
    rw [← h.reached, ← h.reached]
    exact hplain.weak u f entry x sub e hf (h.symm.enables hentry) hof he hx d node d' node'
      (h.symm.line hl) hd (h.symm.line hl') hd'
  · intro u f entry x sub hf hentry hof hi
    rw [← hactive] at hf
    exact h.enables_none
      (hplain.strong u f entry x sub hf (h.symm.enables hentry) hof (h.symm.implicit hi))

end

end Graph

end Stado.Kompilator
