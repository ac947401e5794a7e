import Mathlib.Data.Nat.Notation

/-!
# Scripts that may be cut short

A script is commands and tests on a state. A command that fails ends it, and a
crash may end it between any two commands.
-/

namespace Scripts

variable {State : Type}

inductive Script (State : Type) where
  | done
  | fail
  | act (command : State → Option State) (next : Script State)
  | test (condition : State → Bool) (yes no : Script State)

namespace Script

def andThen : Script State → Script State → Script State
  | done, after => after
  | fail, _ => fail
  | act command next, after => act command (next.andThen after)
  | test condition yes no, after => test condition (yes.andThen after) (no.andThen after)

/-- Whether a script comes to its end, and the state it leaves. -/
def run : Script State → State → Bool × State
  | done, s => (true, s)
  | fail, s => (false, s)
  | act command next, s =>
    match command s with
    | some t => next.run t
    | none => (false, s)
  | test condition yes no, s => if condition s then yes.run s else no.run s

/-- The state after at most `n` commands. -/
def cut : ℕ → Script State → State → State
  | _, done, s => s
  | _, fail, s => s
  | 0, act _ _, s => s
  | n + 1, act command next, s =>
    match command s with
    | some t => next.cut n t
    | none => s
  | n, test condition yes no, s => if condition s then yes.cut n s else no.cut n s

variable {command : State → Option State} {condition : State → Bool} {next yes no : Script State}
  {s t : State} {n : ℕ}

theorem act_run : (act command next).run s =
    match command s with
    | some t => next.run t
    | none => (false, s) := rfl

theorem test_run : (test condition yes no).run s =
    if condition s then yes.run s else no.run s := rfl

theorem run_act (h : command s = some t) : (act command next).run s = next.run t := by
  rw [act_run, h]

theorem run_yes (h : condition s = true) : (test condition yes no).run s = yes.run s := by
  rw [test_run, if_pos h]

theorem run_no (h : condition s = false) : (test condition yes no).run s = no.run s := by
  rw [test_run, h]
  rfl

theorem cut_zero_act : (act command next).cut 0 s = s := rfl

theorem cut_done : (done : Script State).cut n s = s := by
  cases n <;> rfl

theorem act_cut : (act command next).cut (n + 1) s =
    match command s with
    | some t => next.cut n t
    | none => s := rfl

theorem test_cut : (test condition yes no).cut n s =
    if condition s then yes.cut n s else no.cut n s := by
  cases n <;> rfl

theorem cut_act (h : command s = some t) : (act command next).cut (n + 1) s = next.cut n t := by
  rw [act_cut, h]

theorem cut_yes (h : condition s = true) : (test condition yes no).cut n s = yes.cut n s := by
  rw [test_cut, if_pos h]

theorem cut_no (h : condition s = false) : (test condition yes no).cut n s = no.cut n s := by
  rw [test_cut, h]
  rfl

end Script

end Scripts
