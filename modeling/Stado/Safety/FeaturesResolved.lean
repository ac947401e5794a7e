import Stado.Kompilator.Termination

/-!
# Features are resolved to the least fixed point

Resolution always ends. On a plain graph, units come out exactly when every
active feature is known, and they hold the least set of facts closed under the
activation rules: what the lines, the entries and the requests say in whatever
order. A graph is plain where a weak entry's name reaches one unit, and where
no `x/f` names an optional dependency whose name the table has as a feature.
The code treats a name as one dependency: a waiting feature is handed to the
first line that is enabled and to no other, and `x/f` takes the feature `x` as
activated without what the table says of it.
-/

namespace Stado.Kompilator

open Procedures Command List

variable {n : ℕ} {g g' : Graph n} {asked asked' : Features}

namespace Graph

def SameOutcome : Except String (Units n) → Except String (Units n) → Prop
  | .ok units, .ok units' => units.facts = units'.facts
  | .error _, .error _ => True
  | _, _ => False

theorem Builds.outcome {result : Except String (Units n)} (hplain : g.Plain asked)
    (h : g.Builds asked result) :
    match result with
    | .ok units => units.facts = g.active asked ∧ g.AllKnown asked
    | .error _ => ¬g.AllKnown asked := by
  obtain ⟨enough, hbuild⟩ := h
  have hright := build_right hplain enough
  unfold Meets at hright
  rw [hbuild enough le_rfl] at hright
  cases result with
  | _ => exact hright

theorem Builds.units_iff (hplain : g.Plain asked) :
    (∃ units, g.Builds asked (.ok units)) ↔ g.AllKnown asked := by
  constructor
  · rintro ⟨units, h⟩
    exact (h.outcome hplain).2
  · intro hall
    obtain ⟨result, h⟩ := exists_builds g asked
    cases result with
    | ok units => exact ⟨units, h⟩
    | error why => exact absurd hall (h.outcome hplain)

theorem Builds.same (hplain : g.Plain asked) (hreordered : g.Reordered g')
    (hasks : ∀ f, g.Asks asked f ↔ g'.Asks asked' f) {result result' : Except String (Units n)}
    (h : g.Builds asked result) (h' : g'.Builds asked' result') : SameOutcome result result' := by
  have hout := h.outcome hplain
  have hout' := h'.outcome (hreordered.plain hasks hplain)
  have hknown := hreordered.allKnown hasks
  have hknown' := hreordered.symm.allKnown fun f => (hasks f).symm
  cases result with
  | ok units =>
    cases result' with
    | ok units' =>
      show units.facts = units'.facts
      rw [hout.1, hout'.1, hreordered.active hasks]
    | error why => exact hout' (hknown hout.2)
  | error why =>
    cases result' with
    | ok units' => exact hout (hknown' hout'.2)
    | error why' => trivial

/-- **Feature resolution.** It ends; on a plain graph it leaves the least set
closed under the rules, or fails where an active feature is unknown; and the
order of lines, entries and requests does not matter. -/
theorem features_resolved (g : Graph n) (asked : Features) :
    (∃ result, g.Builds asked result) ∧ (g.Plain asked → (∀ units, g.Builds asked (.ok units) →
          IsLeast {S | ∀ φ, g.Follows asked S φ → φ ∈ S} units.facts) ∧
        ((∃ units, g.Builds asked (.ok units)) ↔ g.AllKnown asked) ∧
        ∀ g' asked', g.Reordered g' → (∀ f, g.Asks asked f ↔ g'.Asks asked' f) →
          ∀ result result', g.Builds asked result → g'.Builds asked' result' →
            SameOutcome result result') := by
  refine ⟨exists_builds g asked, fun hplain => ⟨fun units h => ?_, Builds.units_iff hplain, ?_⟩⟩
  · rw [(h.outcome hplain).1]
    exact ⟨fun φ hφ => g.active_of_follows asked hφ, fun S hS => g.active_subset asked hS⟩
  · exact fun g' asked' hreordered hasks result result' h h' => h.same hplain hreordered hasks h'

/-- A resolution that is computed and ends with units of a property. -/
theorem builds_of_computed (g : Graph n) (asked : Features) (depth : ℕ) (p : Units n → Bool)
    (h : (match g.build asked depth (fun _ => none) with
      | some (.ok (_, units)) => p units
      | _ => false) = true) : ∃ units, g.Builds asked (.ok units) ∧ p units = true := by
  cases hbuild : g.build asked depth (fun _ => none) with
  | none =>
    rw [hbuild] at h
    cases h
  | some r =>
    rw [hbuild] at h
    cases r with
    | error why => cases h
    | ok x =>
      refine ⟨x.2, ⟨depth, fun depth' hdepth => ?_⟩, h⟩
      rcases build_extends hdepth (fun _ => none) with hnone | hsame
      · rw [hbuild] at hnone
        cases hnone
      · rw [← hsame, hbuild]
        rfl

end Graph

/-! ## One name, two lines -/

def weakLib : Manifest where
  name := "x"
  version := "1.0.0"
  lib := some ⟨false⟩
  buildScript := none
  features := [("f", [])]
  dependencies := []
  features_nodup := by decide

/-- A package that may use `x` itself, and in its build script where `twice` is set. -/
def weakApp (twice : Bool) : Manifest where
  name := "app"
  version := "1.0.0"
  lib := none
  buildScript := some "build.rs"
  features := [("A", ["x?/f"]), ("B", ["dep:x"])]
  dependencies :=
    ⟨"x", true, false, [], .normal⟩ :: if twice then [⟨"x", true, false, [], .build⟩] else []
  features_nodup := by decide

def weakGraph (twice : Bool) : Graph 2 where
  nodes node := if node = 0 then weakApp twice else weakLib
  targets _ _ := some 1
  root := ⟨0, false⟩

/-- A package whose table has a feature of the name of its optional dependency. -/
def namedApp : Manifest where
  name := "app"
  version := "1.0.0"
  lib := none
  buildScript := none
  features := [("A", ["x/f"]), ("x", ["y"]), ("y", [])]
  dependencies := [⟨"x", true, false, [], .normal⟩]
  features_nodup := by decide

def namedGraph : Graph 2 where
  nodes node := if node = 0 then namedApp else weakLib
  targets _ _ := some 1
  root := ⟨0, false⟩

def named (names : List String) : Features := ⟨false, false, names⟩

def hasFeature (unit : BuildUnit 2) (feature : String) (units : Units 2) : Bool :=
  (units unit).any fun state => feature ∈ state.features

theorem hasFeature_iff {unit : BuildUnit 2} {feature : String} {units : Units 2} :
    hasFeature unit feature units = true ↔ .feature unit feature ∈ units.facts := by
  unfold hasFeature
  rw [Option.any_eq_true]
  simp only [decide_eq_true_eq]
  exact Iff.rfl

/-- Read before its dependency is enabled, `x?/f` reaches the first line called
`x` only; and `x/f` turns the feature `x` on without the feature `y` it enables. -/
theorem features_lost :
    (∃ units units', (weakGraph true).Builds (named ["A", "B"]) (.ok units) ∧
      (weakGraph true).Builds (named ["B", "A"]) (.ok units') ∧
      .feature ⟨1, true⟩ "f" ∉ units.facts ∧ .feature ⟨1, true⟩ "f" ∈ units'.facts) ∧
    ∃ units units', namedGraph.Builds (named ["A", "x"]) (.ok units) ∧
      namedGraph.Builds (named ["x", "A"]) (.ok units') ∧
      .feature ⟨0, false⟩ "y" ∉ units.facts ∧ .feature ⟨0, false⟩ "y" ∈ units'.facts := by
  constructor
  · obtain ⟨units, h, hno⟩ := Graph.builds_of_computed (weakGraph true)
      (named ["A", "B"]) 10 (fun units => !hasFeature ⟨1, true⟩ "f" units)
      (by decide +kernel)
    obtain ⟨units', h', hyes⟩ := Graph.builds_of_computed (weakGraph true)
      (named ["B", "A"]) 10 (hasFeature ⟨1, true⟩ "f") (by decide +kernel)
    refine ⟨units, units', h, h', fun hf => ?_, hasFeature_iff.mp hyes⟩
    rw [hasFeature_iff.mpr hf] at hno
    cases hno
  · obtain ⟨units, h, hno⟩ := Graph.builds_of_computed namedGraph
      (named ["A", "x"]) 10 (fun units => !hasFeature ⟨0, false⟩ "y" units)
      (by decide +kernel)
    obtain ⟨units', h', hyes⟩ := Graph.builds_of_computed namedGraph
      (named ["x", "A"]) 10 (hasFeature ⟨0, false⟩ "y") (by decide +kernel)
    refine ⟨units, units', h, h', fun hf => ?_, hasFeature_iff.mp hyes⟩
    rw [hasFeature_iff.mpr hf] at hno
    cases hno

/-- With one line called `x` the graph is plain, whatever is asked for. -/
theorem weakGraph_plain (asked : Features) : (weakGraph false).Plain asked := by
  have hentry : ∀ u f entry, (weakGraph false).Enables u f entry →
      entry = "x?/f" ∨ entry = "dep:x" := by
    rintro u f entry ⟨entries, hentries, hmem⟩
    have hrow := Manifest.mem_features_iff.mpr hentries
    unfold Graph.manifest weakGraph at hrow
    dsimp only at hrow
    split at hrow
    · simp only [weakApp, mem_cons, Prod.mk.injEq, not_mem_nil, or_false] at hrow
      rcases hrow with ⟨-, rfl⟩ | ⟨-, rfl⟩
      · exact .inl (mem_singleton.mp hmem)
      · exact .inr (mem_singleton.mp hmem)
    · simp only [weakLib, mem_cons, Prod.mk.injEq, not_mem_nil, or_false] at hrow
      rw [hrow.2] at hmem
      cases hmem
  have hline : ∀ u d node, (weakGraph false).Line u d node →
      d = ⟨"x", true, false, [], .normal⟩ ∧ node = 1 := by
    rintro u d node ⟨⟨p, rfl, htarget⟩, -⟩
    refine ⟨?_, (Option.some.inj htarget).symm⟩
    have hmem := List.get_mem ((weakGraph false).nodes u.node).dependencies p
    generalize ((weakGraph false).nodes u.node).dependencies.get p = d at hmem ⊢
    unfold weakGraph at hmem
    dsimp only at hmem
    split at hmem
    · simpa [weakApp] using hmem
    · simp [weakLib] at hmem
  constructor
  · intro u f entry x sub e _ _ _ _ _ d node d' node' hl _ hl' _
    obtain ⟨rfl, rfl⟩ := hline u d node hl
    obtain ⟨rfl, rfl⟩ := hline u d' node' hl'
    exact ⟨rfl, rfl⟩
  · intro u f entry x sub _ henables hof
    rcases hentry u f entry henables with rfl | rfl
    · exact absurd hof (by rw [show Entry.of "x?/f" = .sub "x" "f" true by decide]; rintro ⟨⟩)
    · exact absurd hof (by rw [show Entry.of "dep:x" = .dep "x" by decide]; rintro ⟨⟩)

theorem weak_feature_resolved (units : Units 2)
    (h : (weakGraph false).Builds (named ["A", "B"]) (.ok units)) :
    IsLeast {S | ∀ φ, (weakGraph false).Follows (named ["A", "B"]) S φ → φ ∈ S} units.facts :=
  ((weakGraph false).features_resolved (named ["A", "B"])).2 (weakGraph_plain _) |>.1 units h

end Stado.Kompilator
