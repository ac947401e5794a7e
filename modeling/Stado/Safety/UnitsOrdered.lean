import Stado.Safety.FeaturesResolved

/-!
# The order of compilation

The order ends, and lists every unit after those it depends on, exactly when no
units that the root reaches depend on one another in a circle; in a circle it
walks for ever.
-/

namespace Stado.Kompilator

open Procedures Postorder

variable {n : ℕ}

instance instFiniteBuildUnit : Finite (BuildUnit n) :=
  Finite.of_injective (fun unit => (unit.node, unit.host)) fun u v h => by
    obtain ⟨hnode, hhost⟩ := Prod.mk.inj h
    cases u
    cases v
    cases hnode
    cases hhost
    rfl

namespace Graph

variable (g : Graph n) (units : Units n)

/-- What a caller may be answered: an order of the units that are compiled, or
that there is none. -/
def RightAnswer : Except String (List (BuildUnit n)) → Prop
  | .ok listed => Topological (successors units) g.root listed
  | .error _ => ¬Acyclic (successors units) g.root

/-- `order` ends, and what it answers is right. -/
def OrdersWell : Prop :=
  ∃ fuel listed, g.order units fuel = some listed ∧ g.RightAnswer units (.ok listed)

theorem order_endless (h : ¬Acyclic (successors units) g.root) (fuel : ℕ) :
    g.order units fuel = none := by
  cases horder : g.order units fuel with
  | none => rfl
  | some listed => exact absurd (topological_of_run horder).acyclic h

/-- The order is right exactly when no cycle can be reached from the root. -/
theorem units_ordered : g.OrdersWell units ↔ Acyclic (successors units) g.root := by
  constructor
  · rintro ⟨fuel, listed, horder, -⟩
    exact (topological_of_run horder).acyclic
  · intro hacyclic
    obtain ⟨fuel, listed, horder⟩ := ends_iff.mpr hacyclic
    exact ⟨fuel, listed, horder, topological_of_run horder⟩

end Graph

def twin (name other : String) : Manifest where
  name := name
  version := "1.0.0"
  lib := some ⟨false⟩
  buildScript := none
  features := []
  dependencies := [⟨other, false, true, [], .normal⟩]
  features_nodup := List.nodup_nil

def twins : Graph 2 where
  nodes node := if node.val = 0 then twin "left" "right" else twin "right" "left"
  targets node _ := some node.rev
  root := ⟨⟨0, Nat.two_pos⟩, false⟩

/-- Their units are resolved, and the order of them never ends. -/
theorem twins_endless : ∃ units, twins.Builds (named []) (.ok units) ∧
    (∀ fuel, twins.order units fuel = none) ∧ ¬twins.OrdersWell units := by
  obtain ⟨units, hbuilds, hedges⟩ := Graph.builds_of_computed twins (named []) 10
    (fun units => decide (⟨1, false⟩ ∈ Graph.successors units ⟨0, false⟩ ∧
      ⟨0, false⟩ ∈ Graph.successors units ⟨1, false⟩)) (by decide +kernel)
  obtain ⟨hright, hleft⟩ := of_decide_eq_true hedges
  have hcycle : ¬Acyclic (Graph.successors units) twins.root :=
    fun hacyclic => hacyclic twins.root .refl (.tail (.single hright) hleft)
  refine ⟨units, hbuilds, twins.order_endless units hcycle, ?_⟩
  intro horders
  obtain ⟨fuel, listed, horder, -⟩ := horders
  rw [twins.order_endless units hcycle fuel] at horder
  cases horder

end Stado.Kompilator
