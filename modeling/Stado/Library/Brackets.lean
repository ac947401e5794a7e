import Mathlib.Data.Nat.Basic

/-!
# Brackets

How deep a row of brackets is nested where it ends, and the rows that close
everything they open.
-/

namespace Brackets

inductive Bracket where
  | opening
  | closing
deriving DecidableEq

/-- The depth after a row that starts at `d`, none where a bracket closes what
is not open. -/
def depth : ℕ → List Bracket → Option ℕ
  | d, [] => some d
  | d, .opening :: row => depth (d + 1) row
  | 0, .closing :: _ => none
  | d + 1, .closing :: row => depth d row

def Balanced (row : List Bracket) : Prop := depth 0 row = some 0

@[simp] theorem depth_nil (d : ℕ) : depth d [] = some d := by
  cases d <;> rfl

@[simp] theorem depth_opening (d : ℕ) (row : List Bracket) :
    depth d (.opening :: row) = depth (d + 1) row := by
  cases d <;> rfl

@[simp] theorem depth_closing (d : ℕ) (row : List Bracket) :
    depth (d + 1) (.closing :: row) = depth d row := rfl

theorem depth_append (d : ℕ) (row later : List Bracket) :
    depth d (row ++ later) = (depth d row).bind fun e => depth e later := by
  induction row generalizing d with
  | nil => simp
  | cons bracket row ih =>
    rw [List.cons_append]
    cases bracket with
    | opening => rw [depth_opening, depth_opening, ih]
    | closing =>
      cases d with
      | zero => rfl
      | succ d => rw [depth_closing, depth_closing, ih]

end Brackets
