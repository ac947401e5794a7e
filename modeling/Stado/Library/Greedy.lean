import Mathlib.Algebra.BigOperators.Group.List.Lemmas
import Mathlib.Algebra.Order.BigOperators.Group.List
import Mathlib.Data.List.Perm.Subperm
import Mathlib.Tactic.Linarith

/-!
# Taking items until they are enough

Items of known sizes are taken in a fixed order until their sizes come to a
goal; where all of them together do not, none is taken. Such a choice reaches
the goal whenever some choice does. It has nothing to spare exactly when every
item taken before the last is larger than what the last one leaves over.
-/

namespace Greedy

open List

variable {α : Type} (size : α → ℤ)

def total (xs : List α) : ℤ := (xs.map size).sum

/-- Take items in order, after those already taken, until they come to the goal. -/
def takeEnough (goal : ℤ) (taken : List α) : List α → List α
  | [] => []
  | x :: rest =>
    if goal ≤ total size (taken ++ [x]) then taken ++ [x]
    else takeEnough goal (taken ++ [x]) rest

variable {size} {goal : ℤ} {taken xs : List α} {last last' : α} {ys : List α}

@[simp] theorem total_nil : total size [] = 0 := rfl

@[simp] theorem total_append (xs ys : List α) :
    total size (xs ++ ys) = total size xs + total size ys := by
  rw [total, map_append, sum_append]
  rfl

@[simp] theorem total_singleton (x : α) : total size [x] = size x := by
  rw [total, map_singleton, sum_singleton]

theorem total_perm (h : xs.Perm ys) : total size xs = total size ys :=
  (h.map size).sum_eq

/-- Part of a list of items, none of negative size, comes to no more than the list. -/
theorem total_subperm (h : xs.Subperm ys) (hsize : ∀ y ∈ ys, 0 ≤ size y) :
    total size xs ≤ total size ys := by
  obtain ⟨zs, hperm, hsublist⟩ := h
  rw [← total_perm hperm]
  refine (hsublist.map size).sum_le_sum fun s hs => ?_
  obtain ⟨y, hy, rfl⟩ := List.mem_map.mp hs
  exact hsize y hy

/-- Either no number of items comes to the goal, or they are taken up to the first that does. -/
theorem takeEnough_cases (htaken : total size taken < goal) :
    (takeEnough size goal taken xs = [] ∧
      ∀ front rest, xs = front ++ rest → total size (taken ++ front) < goal) ∨
    ∃ front last rest, xs = front ++ last :: rest ∧
      takeEnough size goal taken xs = taken ++ front ++ [last] ∧
      total size (taken ++ front) < goal ∧ goal ≤ total size (taken ++ front) + size last := by
  induction xs generalizing taken with
  | nil =>
    refine .inl ⟨rfl, fun front rest hsplit => ?_⟩
    obtain ⟨rfl, -⟩ := append_eq_nil_iff.mp hsplit.symm
    rw [append_nil]
    exact htaken
  | cons x later ih =>
    rw [takeEnough]
    by_cases hgoal : goal ≤ total size (taken ++ [x])
    · rw [if_pos hgoal]
      refine .inr ⟨[], x, later, rfl, ?_, ?_, ?_⟩
      · rw [append_nil]
      · rw [append_nil]
        exact htaken
      · rw [append_nil, ← @total_singleton α size x, ← total_append]
        exact hgoal
    · rw [if_neg hgoal]
      rcases ih (not_le.mp hgoal) with ⟨hnone, hshort⟩ | ⟨front, last, rest, rfl, htake, hfront, hlast⟩
      · refine .inl ⟨hnone, fun front rest hsplit => ?_⟩
        rcases front with _ | ⟨y, front⟩
        · rw [append_nil]
          exact htaken
        · obtain ⟨rfl, hlater⟩ := List.cons.inj hsplit
          rw [append_cons]
          exact hshort front rest hlater
      · refine .inr ⟨x :: front, last, rest, rfl, ?_, ?_, ?_⟩
        · rw [htake, append_cons taken x front]
        · rw [append_cons]
          exact hfront
        · rw [append_cons]
          exact hlast

/-- Each item that goes before the one that makes enough is larger than what that one leaves
over. -/
def Tight (size : α → ℤ) (goal : ℤ) (xs : List α) : Prop :=
  ∀ front last rest, xs = front ++ last :: rest → total size front < goal →
    goal ≤ total size front + size last → ∀ x ∈ front, total size front + size last - goal < size x

/-- No item taken could be left out. -/
def Minimal (size : α → ℤ) [DecidableEq α] (goal : ℤ) (chosen : List α) : Prop :=
  ∀ x ∈ chosen, total size (chosen.erase x) < goal

theorem total_erase [DecidableEq α] {x : α} (h : x ∈ xs) :
    total size (xs.erase x) = total size xs - size x := by
  have hperm := @total_perm α size _ _ (perm_cons_erase h)
  rw [← singleton_append, total_append, total_singleton] at hperm
  omega

/-- Where none of the items has a negative size, some choice reaches the goal only if this one
does. -/
theorem takeEnough_complete (hgoal : 0 < goal) (hsize : ∀ x ∈ xs, 0 ≤ size x)
    (hsub : ys.Subperm xs) (henough : goal ≤ total size ys) : takeEnough size goal [] xs ≠ [] := by
  rcases @takeEnough_cases α size goal [] xs hgoal with
    ⟨-, hshort⟩ | ⟨front, last, rest, -, htake, -⟩
  · have hall := hshort xs [] (append_nil xs).symm
    rw [nil_append] at hall
    have hle := total_subperm hsub hsize
    omega
  · rw [htake]
    simp

theorem takeEnough_reaches (hgoal : 0 < goal) (hne : takeEnough size goal [] xs ≠ []) :
    goal ≤ total size (takeEnough size goal [] xs) := by
  rcases @takeEnough_cases α size goal [] xs hgoal with
    ⟨hnone, -⟩ | ⟨front, last, rest, -, htake, -, henough⟩
  · exact absurd hnone hne
  · rw [htake, total_append, total_singleton]
    exact henough

theorem takeEnough_subset (xs : List α) (hgoal : 0 < goal) :
    (takeEnough size goal [] xs).Sublist xs := by
  rcases @takeEnough_cases α size goal [] xs hgoal with
    ⟨hnone, -⟩ | ⟨front, last, rest, rfl, htake, -⟩
  · rw [hnone]
    exact nil_sublist _
  · rw [htake, nil_append]
    exact List.Sublist.append_left (singleton_sublist.mpr (mem_cons_self ..)) front

theorem total_nonneg (hsize : ∀ x ∈ xs, 0 ≤ size x) : 0 ≤ total size xs := by
  rw [← @total_nil α size]
  exact total_subperm (nil_sublist xs).subperm hsize

/-- Items that make enough are not among those before which there is not enough. -/
theorem split_ends {front middle rest rest' : List α} (hsize : ∀ x ∈ front ++ middle, 0 ≤ size x)
    (hfront : goal ≤ total size front + size last) (hshort : total size (front ++ middle) < goal)
    (hsplit : last :: rest = middle ++ last' :: rest') : middle = [] := by
  rcases middle with _ | ⟨y, middle⟩
  · rfl
  · obtain ⟨rfl, -⟩ := List.cons.inj hsplit
    have hmiddle : 0 ≤ total size middle := total_nonneg fun x hx =>
      hsize x (mem_append_right _ (mem_cons_of_mem _ hx))
    rw [append_cons, total_append, total_append, total_singleton] at hshort
    omega

/-- There is one item that makes enough. -/
theorem split_unique {front other rest rest' : List α}
    (hsize : ∀ x ∈ front ++ last :: rest, 0 ≤ size x)
    (hsplit : front ++ last :: rest = other ++ last' :: rest') (hfront : total size front < goal)
    (hlast : goal ≤ total size front + size last) (hother : total size other < goal)
    (hlast' : goal ≤ total size other + size last') : front = other ∧ last = last' := by
  have hnil : ∃ middle, (other = front ++ middle ∨ front = other ++ middle) ∧ middle = [] := by
    rcases append_eq_append_iff.mp hsplit with ⟨middle, rfl, hrest⟩ | ⟨middle, rfl, hrest⟩
    · refine ⟨middle, .inl rfl, split_ends (fun x hx => hsize x ?_) hlast hother hrest⟩
      rw [hsplit]
      exact mem_append_left _ hx
    · exact ⟨middle, .inr rfl, split_ends (fun x hx =>
        hsize x (mem_append_left _ hx)) hlast' hfront hrest⟩
  obtain ⟨middle, hsame, rfl⟩ := hnil
  have heq : front = other := by
    rcases hsame with hsame | hsame
    · rw [hsame, append_nil]
    · rw [hsame, append_nil]
  refine ⟨heq, ?_⟩
  rw [heq] at hsplit
  exact (List.cons.inj (append_cancel_left hsplit)).1

/-- The choice has nothing to spare exactly when the items are tight. -/
theorem takeEnough_minimal [DecidableEq α] (hgoal : 0 < goal) (hsize : ∀ x ∈ xs, 0 ≤ size x) :
    Minimal size goal (takeEnough size goal [] xs) ↔ Tight size goal xs := by
  rcases @takeEnough_cases α size goal [] xs hgoal with
    ⟨hnone, hshort⟩ | ⟨front, last, rest, rfl, htake, hfront, henough⟩
  · rw [hnone]
    refine iff_of_true (fun x hx => absurd hx not_mem_nil) ?_
    rintro front last rest rfl - hlast x -
    have hall := hshort (front ++ [last]) rest (by simp)
    rw [nil_append, total_append, total_singleton] at hall
    omega
  · rw [nil_append] at hfront henough
    rw [htake, nil_append]
    constructor
    · intro hminimal other last' rest' hsplit hother hlast' x hx
      obtain ⟨rfl, rfl⟩ := split_unique hsize hsplit hfront henough hother hlast'
      have hspare := hminimal x (mem_append_left _ hx)
      rw [total_erase (mem_append_left _ hx), total_append, total_singleton] at hspare
      omega
    · intro htight x hx
      rw [total_erase hx, total_append, total_singleton]
      rcases mem_append.mp hx with hx | hx
      · have hlarge := htight front last rest rfl hfront henough x hx
        omega
      · obtain rfl := mem_singleton.mp hx
        omega

end Greedy
