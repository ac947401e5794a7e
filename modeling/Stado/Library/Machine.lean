import Mathlib.Logic.Basic

/-!
# Machines that run under a condition

A machine takes labelled steps on a state; a step that is not enabled answers
nothing. A run is judged under a condition on the state before each step and
the step's label, so that "every run whose steps meet the condition" is one
relation, and an invariant is proved by one induction over it.
-/

namespace Machine

variable {State Step : Type}

/-- `t` is reached from `s` by steps that all meet `C`. -/
inductive Reaches (step : State → Step → Option State) (C : State → Step → Prop) (s : State) :
    State → Prop
  | refl : Reaches step C s s
  | tail {t u : State} {a : Step} (h : Reaches step C s t) (met : C t a)
      (next : step t a = some u) : Reaches step C s u

/-- Every run: no condition on its steps. -/
def always : State → Step → Prop := fun _ _ => True

/-- Run the steps one after another, stopping at one that is not enabled or
does not meet the condition. -/
def exec (step : State → Step → Option State) (C : State → Step → Prop)
    [∀ s a, Decidable (C s a)] : State → List Step → Option State
  | s, [] => some s
  | s, a :: rest => if C s a then (step s a).bind fun t => exec step C t rest else none

section Runs

variable {step : State → Step → Option State} {C D : State → Step → Prop} {s t u : State}

theorem Reaches.trans (h : Reaches step C s t) (h' : Reaches step C t u) : Reaches step C s u := by
  induction h' with
  | refl => exact h
  | tail _ met next ih => exact .tail ih met next

theorem Reaches.invariant {I : State → Prop} (h : Reaches step C s t) (hs : I s)
    (keeps : ∀ t a u, I t → C t a → step t a = some u → I u) : I t := by
  induction h with
  | refl => exact hs
  | tail _ met next ih => exact keeps _ _ _ ih met next

theorem Reaches.mono (h : Reaches step C s t) (hCD : ∀ s a, C s a → D s a) :
    Reaches step D s t := by
  induction h with
  | refl => exact .refl
  | tail _ met next ih => exact .tail ih (hCD _ _ met) next

instance : ∀ (s : State) (a : Step), Decidable (always s a) := fun _ _ => .isTrue trivial

theorem exec_reaches [∀ s a, Decidable (C s a)] {as : List Step}
    (h : exec step C s as = some t) : Reaches step C s t := by
  induction as generalizing s with
  | nil =>
    unfold exec at h
    cases h
    exact .refl
  | cons a rest ih =>
    unfold exec at h
    split at h
    · next met =>
      rw [Option.bind_eq_some_iff] at h
      obtain ⟨r, next, hrest⟩ := h
      exact Reaches.trans (.tail .refl met next) (ih hrest)
    · cases h

/-- A run that is computed and ends in a state with a property. -/
theorem exists_reaches [∀ s a, Decidable (C s a)] (as : List Step) (p : State → Bool)
    (h : (exec step C s as).any p = true) : ∃ t, Reaches step C s t ∧ p t = true := by
  rw [Option.any_eq_true] at h
  obtain ⟨t, hrun, hp⟩ := h
  exact ⟨t, exec_reaches hrun, hp⟩

end Runs

end Machine
