import Stado.Library.Program

/-!
# Interleaved clients

A machine runs operations as client programs over one store. Any number of
clients run at once; an event starts an operation, lets one client take one
step, loses one of its calls, or stops it for good. A run is a list of events,
so every interleaving of the clients' storage calls is a run.
-/

namespace CasStore

open List Option System

/-- The operations of a system and what they run. `accept` reads the answer of
the environment to a question, and `lost` is the error of a lost call. -/
structure Machine (Path Content Site Error : Type) (Query : Type → Type)
    (Op Answer Outcome : Type) where
  program : Op → Nat → Program Path Content Site Error Query Outcome
  accept : {β : Type} → Query β → Answer → Option β
  lost : Error

/-- A client: its operation and what is left of its program. -/
structure Task (Path Content Site Error : Type) (Query : Type → Type) (Op Outcome : Type) :
    Type 1 where
  op : Op
  program : Program Path Content Site Error Query Outcome

structure System (Path Content Site Error : Type) (Query : Type → Type) (Op Outcome : Type) :
    Type 1 where
  store : Store Path Content Site
  tasks : List (Task Path Content Site Error Query Op Outcome)

/-- `start` begins an operation with fuel for its loops, `call` makes the next
storage call of client `i`, `answer` answers its question, `lose` loses its
next call, applied or not, and `stop` ends it for good. -/
inductive Event (Op Answer : Type) where
  | start (op : Op) (fuel : Nat)
  | call (i : Nat)
  | answer (i : Nat) (a : Answer)
  | lose (i : Nat) (applied : Bool)
  | stop (i : Nat)
deriving DecidableEq

variable {Path Content Site Error : Type} {Query : Type → Type} {Op Answer Outcome : Type}

namespace Program

variable [DecidableEq Path] {α : Type}

/-- Client `i` makes its next storage call. -/
def stepCall (i : Nat) (s : Store Path Content Site) :
    Program Path Content Site Error Query α →
      Option (Store Path Content Site × Program Path Content Site Error Query α)
  | .call site c k _ => some (s.apply site i (c.change s), k (c.answer s))
  | _ => none

/-- The next storage call of client `i` is lost with `error`. -/
def stepLose (i : Nat) (error : Error) (applied : Bool) (s : Store Path Content Site) :
    Program Path Content Site Error Query α →
      Option (Store Path Content Site × Program Path Content Site Error Query α)
  | .call site c _ lost =>
    some (if applied then s.apply site i (c.change s) else s, lost error)
  | _ => none

/-- The environment answers the next question. -/
def stepAnswer (accept : {β : Type} → Query β → Answer → Option β) (a : Answer) :
    Program Path Content Site Error Query α → Option (Program Path Content Site Error Query α)
  | .ask q k => (accept q a).map k
  | _ => none

end Program

namespace System

variable [DecidableEq Path] {s s' : Store Path Content Site}

/-- Client `i` is now at `program` and the store is `store`. -/
def update (s : System Path Content Site Error Query Op Outcome) (i : Nat)
    (t : Task Path Content Site Error Query Op Outcome)
    (store : Store Path Content Site)
    (program : Program Path Content Site Error Query Outcome) :
    System Path Content Site Error Query Op Outcome :=
  ⟨store, s.tasks.set i ⟨t.op, program⟩⟩

def advance (M : Machine Path Content Site Error Query Op Answer Outcome)
    (s : System Path Content Site Error Query Op Outcome) :
    Event Op Answer → Option (System Path Content Site Error Query Op Outcome)
  | .start op fuel => some ⟨s.store, s.tasks ++ [⟨op, M.program op fuel⟩]⟩
  | .call i =>
    s.tasks[i]?.bind fun t =>
      (t.program.stepCall i s.store).map fun r => s.update i t r.1 r.2
  | .answer i a =>
    s.tasks[i]?.bind fun t =>
      (t.program.stepAnswer M.accept a).map fun p => s.update i t s.store p
  | .lose i applied =>
    s.tasks[i]?.bind fun t =>
      (t.program.stepLose i M.lost applied s.store).map fun r => s.update i t r.1 r.2
  | .stop i => s.tasks[i]?.map fun t => s.update i t s.store .stop

/-- The system after a list of events, each of which `ok` allows. -/
def exec (M : Machine Path Content Site Error Query Op Answer Outcome)
    (ok : System Path Content Site Error Query Op Outcome → Event Op Answer → Prop)
    [∀ s ev, Decidable (ok s ev)] :
    List (Event Op Answer) → System Path Content Site Error Query Op Outcome →
      Option (System Path Content Site Error Query Op Outcome)
  | [], s => some s
  | ev :: rest, s => if ok s ev then (s.advance M ev).bind (exec M ok rest) else none

/-- The storage call client `i` is about to make. -/
def pending (s : System Path Content Site Error Query Op Outcome) (i : Nat) :
    Option (Site × Option (Change Path Content)) :=
  s.tasks[i]?.bind fun t => t.program.pending s.store

/-- `s'` is reached from `s` by events each of which `ok` allows in the state
it happens in. -/
inductive Reaches (M : Machine Path Content Site Error Query Op Answer Outcome)
    (ok : System Path Content Site Error Query Op Outcome → Event Op Answer → Prop)
    (s : System Path Content Site Error Query Op Outcome) :
    System Path Content Site Error Query Op Outcome → Prop where
  | refl : Reaches M ok s s
  | step {s' s'' : System Path Content Site Error Query Op Outcome} {ev : Event Op Answer}
      (h : Reaches M ok s s') (hok : ok s' ev) (hstep : s'.advance M ev = some s'') :
      Reaches M ok s s''

namespace Reaches

variable {M : Machine Path Content Site Error Query Op Answer Outcome}
  {ok ok' : System Path Content Site Error Query Op Outcome → Event Op Answer → Prop}
  {s s' s'' : System Path Content Site Error Query Op Outcome}

theorem trans (h : Reaches M ok s s') (h' : Reaches M ok s' s'') : Reaches M ok s s'' := by
  induction h' with
  | refl => exact h
  | step _ hok hstep ih => exact ih.step hok hstep

theorem mono (h : Reaches M ok s s') (hok : ∀ s ev, ok s ev → ok' s ev) : Reaches M ok' s s' := by
  induction h with
  | refl => exact .refl
  | step _ hev hstep ih => exact ih.step (hok _ _ hev) hstep

end Reaches

theorem suffix_stepCall {α : Type} {i : Nat} {p p' : Program Path Content Site Error Query α}
    (h : p.stepCall i s = some (s', p')) : s.PastOf s' := by
  cases p with
  | call site c k lost =>
    simp only [Program.stepCall, Option.some.injEq, Prod.mk.injEq] at h
    obtain ⟨rfl, -⟩ := h
    exact s.suffix_apply _ _ _
  | _ => simp [Program.stepCall] at h

theorem suffix_stepLose {α : Type} {i : Nat} {error : Error} {applied : Bool}
    {p p' : Program Path Content Site Error Query α}
    (h : p.stepLose i error applied s = some (s', p')) : s.PastOf s' := by
  cases p with
  | call site c k lost =>
    simp only [Program.stepLose, Option.some.injEq, Prod.mk.injEq] at h
    obtain ⟨rfl, -⟩ := h
    split
    · exact s.suffix_apply _ _ _
    · exact suffix_refl _
  | _ => simp [Program.stepLose] at h

variable {M : Machine Path Content Site Error Query Op Answer Outcome}
  {ok : System Path Content Site Error Query Op Outcome → Event Op Answer → Prop}
  {s s' : System Path Content Site Error Query Op Outcome}

theorem suffix_advance {ev : Event Op Answer}
    (h : s.advance M ev = some s') : s.store.PastOf s'.store := by
  cases ev with
  | start op fuel =>
    simp only [advance, Option.some.injEq] at h
    subst h
    exact suffix_refl _
  | call i =>
    simp only [advance, bind_eq_some_iff, map_eq_some_iff] at h
    obtain ⟨t, -, r, hr, rfl⟩ := h
    exact suffix_stepCall hr
  | answer i a =>
    simp only [advance, bind_eq_some_iff, map_eq_some_iff] at h
    obtain ⟨t, -, p, -, rfl⟩ := h
    exact suffix_refl _
  | lose i applied =>
    simp only [advance, bind_eq_some_iff, map_eq_some_iff] at h
    obtain ⟨t, -, r, hr, rfl⟩ := h
    exact suffix_stepLose hr
  | stop i =>
    simp only [advance, map_eq_some_iff] at h
    obtain ⟨t, -, rfl⟩ := h
    exact suffix_refl _

/-- A run only adds to the store. -/
theorem Reaches.pastOf (h : Reaches M ok s s') : s.store.PastOf s'.store := by
  induction h with
  | refl => exact suffix_refl _
  | step _ _ hstep ih => exact ih.trans (suffix_advance hstep)

theorem exec_reaches [∀ s ev, Decidable (ok s ev)] {events : List (Event Op Answer)}
    (h : s.exec M ok events = some s') : Reaches M ok s s' := by
  induction events generalizing s with
  | nil =>
    simp only [exec, Option.some.injEq] at h
    subst h
    exact .refl
  | cons ev rest ih =>
    simp only [exec] at h
    split at h
    · next hok =>
      rw [bind_eq_some_iff] at h
      obtain ⟨s1, hstep, hrest⟩ := h
      exact (Reaches.refl.step hok hstep).trans (ih hrest)
    · cases h

/-- A run of given events reaches a state with a property that can be checked. -/
theorem exists_exec [∀ s ev, Decidable (ok s ev)] (events : List (Event Op Answer))
    {P : System Path Content Site Error Query Op Outcome → Bool}
    (h : (s.exec M ok events).any P = true) : ∃ s', Reaches M ok s s' ∧ P s' = true := by
  cases hs : s.exec M ok events with
  | none =>
    rw [hs] at h
    cases h
  | some s' =>
    rw [hs] at h
    exact ⟨s', exec_reaches hs, h⟩

end System

end CasStore
