import Mathlib.Logic.Basic

/-!
# Recursive procedures with fuel

A group of procedures call one another on a shared state and may fail. Each
body is written over the calls it makes; `run` gives the calls a depth, and
nothing comes back when the depth is not enough. A triple is judged with what
a missing result means: `True` for partial correctness, `False` for total. The
recursion rules take the triple of every call for granted in the bodies; the
total one asks that a measure falls from a body to the calls it makes.
-/

namespace Procedures

variable {State Error Call α β : Type}

/-- A command reads and changes the state, and ends with a result or an error;
`none` is a command whose calls were cut off. -/
def Command (State Error α : Type) : Type := State → Option (Except Error (α × State))

namespace Command

def pure (a : α) : Command State Error α := fun s => some (.ok (a, s))

def bind (c : Command State Error α) (f : α → Command State Error β) :
    Command State Error β := fun s =>
  match c s with
  | none => none
  | some (.error e) => some (.error e)
  | some (.ok (a, t)) => f a t

instance : Monad (Command State Error) where
  pure := Command.pure
  bind := Command.bind

def get : Command State Error State := fun s => some (.ok (s, s))

def put (t : State) : Command State Error PUnit := fun _ => some (.ok (⟨⟩, t))

def throw (e : Error) : Command State Error α := fun _ => some (.error e)

/-- `c` where the condition holds, nothing where it does not. -/
def onlyIf (condition : Prop) [Decidable condition] (c : Command State Error PUnit) :
    Command State Error PUnit :=
  if condition then c else pure ⟨⟩

/-- The error of `c`, told with more words. -/
def mapError (f : Error → Error) (c : Command State Error α) : Command State Error α := fun s =>
  match c s with
  | some (.error e) => some (.error (f e))
  | ended => ended

/-- One command for each element, in order; an error ends the loop. -/
def forEach : List α → (α → Command State Error PUnit) → Command State Error PUnit
  | [], _ => pure ⟨⟩
  | x :: xs, c => bind (c x) fun _ => forEach xs c

/-! ## Triples -/

/-- Run from `s`, the command ends with `Q` or with an error of `X`; `N` is
what a missing result counts as. -/
def Meets (N : Prop) (c : Command State Error α) (s : State) (Q : α → State → Prop)
    (X : Error → Prop) : Prop :=
  match c s with
  | none => N
  | some (.error e) => X e
  | some (.ok (a, t)) => Q a t

section Rules

variable {N : Prop} {c : Command State Error α} {s t : State} {Q R : α → State → Prop}
  {X Y : Error → Prop} {f : Error → Error} {condition : Prop}

theorem Meets.mono (h : Meets N c s Q X) (hQ : ∀ a t, Q a t → R a t) (hX : ∀ e, X e → Y e) :
    Meets N c s R Y := by
  unfold Meets at h ⊢
  split
  · next heq => rw [heq] at h; exact h
  · next heq => rw [heq] at h; exact hX _ h
  · next heq => rw [heq] at h; exact hQ _ _ h

theorem Meets.post (h : Meets N c s Q X) (hQ : ∀ a t, Q a t → R a t) : Meets N c s R X :=
  h.mono hQ fun _ he => he

@[simp] theorem meets_get {P : State → State → Prop} :
    Meets N (get : Command State Error State) s P X ↔ P s s := Iff.rfl

@[simp] theorem meets_bind {f : α → Command State Error β} {P : β → State → Prop} :
    Meets N (c >>= f) s P X ↔ Meets N c s (fun a t => Meets N (f a) t P X) X := by
  show Meets N (bind c f) s P X ↔ _
  unfold Meets bind
  constructor
  · intro h
    split
    · next heq => rw [heq] at h; exact h
    · next heq => rw [heq] at h; exact h
    · next heq => rw [heq] at h; exact h
  · intro h
    cases hc : c s with
    | none => rw [hc] at h; exact h
    | some r =>
      rw [hc] at h
      cases r with
      | _ => exact h

theorem meets_onlyIf [Decidable condition] {c : Command State Error PUnit}
    {Q : PUnit → State → Prop} (holds : condition → Meets N c s Q X)
    (fails : ¬condition → Q ⟨⟩ s) : Meets N (onlyIf condition c) s Q X := by
  unfold onlyIf
  split
  · next h => exact holds h
  · next h => exact fails h

theorem meets_mapError (h : Meets N c s Q fun e => X (f e)) : Meets N (mapError f c) s Q X := by
  unfold Meets mapError at *
  cases hc : c s with
  | none => rw [hc] at h; exact h
  | some r =>
    rw [hc] at h
    cases r with
    | _ => exact h

/-- The loop rule: `I` holds between the rounds, and each round adds `R` of
its element and loses no `R` of an earlier one. -/
theorem meets_forEach {I : State → Prop} {c : α → Command State Error PUnit}
    (xs : List α) (hI : I s) (round : ∀ x ∈ xs, ∀ t, I t →
      Meets N (c x) t (fun _ u => I u ∧ R x u ∧ ∀ y, R y t → R y u) X) :
    Meets N (forEach xs c) s (fun _ u => I u ∧ (∀ x ∈ xs, R x u) ∧ ∀ y, R y s → R y u) X := by
  induction xs generalizing s with
  | nil => exact ⟨hI, by simp, fun _ h => h⟩
  | cons x xs ih =>
    show Meets N (c x >>= fun _ => forEach xs c) s _ X
    rw [meets_bind]
    refine (round x (List.mem_cons_self ..) s hI).post fun _ t ht => ?_
    obtain ⟨hIt, hx, hkept⟩ := ht
    refine (ih hIt fun y hy => round y (List.mem_cons_of_mem _ hy)).post fun _ u hu => ?_
    obtain ⟨hIu, hxs, hlater⟩ := hu
    refine ⟨hIu, ?_, fun y hy => hlater y (hkept y hy)⟩
    intro y hy
    rcases List.mem_cons.mp hy with rfl | hy
    · exact hlater _ hx
    · exact hxs y hy

end Rules

/-! ## More depth gives the same answer -/

/-- `d` answers what `c` answers, where `c` answers. -/
def Extends (c d : Command State Error α) : Prop := ∀ s, c s = none ∨ c s = d s

theorem Extends.refl (c : Command State Error α) : Extends c c := fun _ => .inr rfl

variable {c d : Command State Error α}

theorem Extends.bind {f g : α → Command State Error β}
    (h : Extends c d) (hf : ∀ a, Extends (f a) (g a)) : Extends (c >>= f) (d >>= g) := by
  intro s
  show Command.bind c f s = none ∨ Command.bind c f s = Command.bind d g s
  unfold Command.bind
  rcases h s with hn | he
  · rw [hn]
    exact .inl rfl
  · rw [← he]
    cases hc : c s with
    | none => exact .inl rfl
    | some r =>
      cases r with
      | error e => exact .inr rfl
      | ok x => exact hf x.1 x.2

theorem Extends.onlyIf [Decidable condition] {c d : Command State Error PUnit}
    (h : Extends c d) : Extends (onlyIf condition c) (onlyIf condition d) := by
  unfold Command.onlyIf
  split
  · exact h
  · exact .refl _

theorem Extends.mapError (h : Extends c d) : Extends (mapError f c) (mapError f d) := by
  intro s
  unfold Command.mapError
  rcases h s with hn | he
  · rw [hn]
    exact .inl rfl
  · rw [he]
    exact .inr rfl

theorem Extends.forEach {c d : α → Command State Error PUnit} (h : ∀ x, Extends (c x) (d x))
    (xs : List α) : Extends (forEach xs c) (forEach xs d) := by
  induction xs with
  | nil => exact .refl _
  | cons x xs ih => exact Extends.bind (h x) fun _ => ih

end Command

open Command

/-! ## The procedures -/

variable (body : (Call → Command State Error PUnit) → Call → Command State Error PUnit)

/-- The procedures with calls `depth` deep. -/
def run : Nat → Call → Command State Error PUnit
  | 0, _ => fun _ => none
  | depth + 1, c => body (run depth) c

/-- A body that answers with some calls gives the same answer with calls that
answer more. -/
def MonotoneBody : Prop :=
  ∀ call call', (∀ c, Extends (call c) (call' c)) → ∀ c, Extends (body call c) (body call' c)

variable {body}

theorem run_extends (h : MonotoneBody body) {k l : Nat} (hkl : k ≤ l) (c : Call) :
    Extends (run body k c) (run body l c) := by
  induction k generalizing l c with
  | zero => exact fun _ => .inl rfl
  | succ k ih =>
    obtain ⟨m, rfl⟩ : ∃ m, l = m + 1 := ⟨l - 1, by omega⟩
    exact h _ _ (fun c => ih (by omega) c) c

section Recursion

variable {P : Call → State → Prop} {Q : Call → State → State → Prop} {X : Error → Prop}

/-- The recursion rule for partial correctness. -/
theorem run_meets (h : ∀ call, (∀ c s, P c s → Meets True (call c) s (fun _ => Q c s) X) →
      ∀ c s, P c s → Meets True (body call c) s (fun _ => Q c s) X) (k : Nat) :
    ∀ c s, P c s → Meets True (run body k c) s (fun _ => Q c s) X := by
  induction k with
  | zero => exact fun _ _ _ => trivial
  | succ k ih => exact h _ ih

/-- The recursion rule for total correctness: a measure falls at each call. -/
theorem run_ends (need : Call → State → Nat) (h : ∀ call c s, P c s →
      (∀ c' s', P c' s' → need c' s' < need c s → Meets False (call c') s' (fun _ => Q c' s') X) →
      Meets False (body call c) s (fun _ => Q c s) X) (k : Nat) :
    ∀ c s, P c s → need c s < k → Meets False (run body k c) s (fun _ => Q c s) X := by
  induction k with
  | zero => exact fun _ _ _ hk => absurd hk (by omega)
  | succ k ih =>
    intro c s hP hk
    exact h _ c s hP fun c' s' hP' hlt => ih c' s' hP' (by omega)

end Recursion

end Procedures
