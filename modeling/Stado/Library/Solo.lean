import Mathlib.Logic.Basic

/-!
# One agent in a moving world

An agent works through a routine of actions on a world, one at a time. An
adversary chooses what each action answers, among what the world can answer;
between any two actions the world may move by itself, and the agent may crash,
which forgets the routine and leaves the world as it is.

`Does` judges a routine: each of its actions is allowed in the world it is
taken in, whatever the world did before. A world reached by allowed actions and
by moves is a `Lived` one, and an invariant is proved by induction over lived
worlds, with no routine in sight.
-/

namespace Solo

open Option

inductive Routine (Act : Type → Type) (Error : Type) (α : Type) : Type 1 where
  | pure (a : α)
  | fail (e : Error)
  | act {β : Type} (a : Act β) (k : β → Routine Act Error α)

namespace Routine

variable {Act : Type → Type} {Error Error' : Type} {α β : Type}

/-- Run `p`, then `f` on its result; an error ends both. -/
def bind (p : Routine Act Error α) (f : α → Routine Act Error β) : Routine Act Error β :=
  match p with
  | .pure a => f a
  | .fail e => .fail e
  | .act a k => .act a fun b => (k b).bind f

instance : Monad (Routine Act Error) where
  pure := .pure
  bind := .bind

/-- The result of `p`, or the error it ended with. -/
def attempt (p : Routine Act Error α) : Routine Act Error' (Except Error α) :=
  match p with
  | .pure a => .pure (.ok a)
  | .fail e => .pure (.error e)
  | .act a k => .act a fun b => (k b).attempt

/-- One action that always answers. -/
def take (a : Act β) : Routine Act Error β :=
  .act a .pure

/-- One action whose failure ends the routine. -/
def tries (a : Act (Except Error β)) : Routine Act Error β :=
  .act a fun
    | .ok b => .pure b
    | .error e => .fail e

/-- A computed result or error. -/
def ofExcept : Except Error α → Routine Act Error α
  | .ok a => .pure a
  | .error e => .fail e

/-- Every action of `p` is a `P`. -/
def Only (P : {β : Type} → Act β → Prop) : Routine Act Error α → Prop
  | .pure _ => True
  | .fail _ => True
  | .act a k => P a ∧ ∀ b, (k b).Only P

section Only

variable {P : {β : Type} → Act β → Prop} {p : Routine Act Error α} {f : α → Routine Act Error β}

theorem Only.bind (hp : p.Only P) (hf : ∀ a, (f a).Only P) : (p.bind f).Only P := by
  induction p with
  | pure a => exact hf a
  | fail e => trivial
  | act a k ih => exact ⟨hp.1, fun b => ih b (hp.2 b)⟩

theorem Only.attempt (hp : p.Only P) :
    (p.attempt : Routine Act Error' (Except Error α)).Only P := by
  induction p with
  | pure a => trivial
  | fail e => trivial
  | act a k ih => exact ⟨hp.1, fun b => ih b (hp.2 b)⟩

/-- What every action has, the actions of each routine have. -/
theorem only_of_forall (h : ∀ {β : Type} (a : Act β), P a) (p : Routine Act Error α) :
    p.Only P := by
  induction p with
  | pure a => trivial
  | fail e => trivial
  | act a k ih => exact ⟨h a, ih⟩

theorem only_take {a : Act β} (h : P a) : (take a : Routine Act Error β).Only P :=
  ⟨h, fun _ => trivial⟩

theorem only_tries {a : Act (Except Error β)} (h : P a) :
    (tries a : Routine Act Error β).Only P := by
  refine ⟨h, fun b => ?_⟩
  cases b <;> trivial

end Only

end Routine

/-- What actions answer and do, and how the world moves by itself. -/
structure Setting (Act : Type → Type) (World Choice Move : Type) where
  perform : {β : Type} → Act β → Choice → World → Option (β × World)
  move : Move → World → Option World

/-- What the agent may do: the worlds a run begins with, and the actions it is
allowed to take in a world. -/
structure Rules (Act : Type → Type) (World : Type) where
  begins : World → Prop
  allowed : {β : Type} → Act β → World → Prop

/-- Conditions on a run: on each action the agent takes, in the world it takes
it in, and on each move of the world. -/
structure Condition (Act : Type → Type) (World Move : Type) where
  act : {β : Type} → Act β → World → Prop
  move : Move → World → Prop

/-- The condition every run meets. -/
def Condition.any {Act : Type → Type} {World Move : Type} : Condition Act World Move :=
  ⟨fun _ _ => True, fun _ _ => True⟩

variable {Act : Type → Type} {World Choice Move Error Op Outcome : Type} {α β : Type}

/-! ## Lived worlds -/

/-- A world that allowed actions and moves, all meeting the condition, lead to. -/
inductive Lived (S : Setting Act World Choice Move) (R : Rules Act World) (C : Condition Act World Move) :
    World → Prop where
  | begins {w : World} (h : R.begins w) : Lived S R C w
  | act {w w' : World} {β : Type} {a : Act β} {c : Choice} {b : β}
      (older : Lived S R C w) (ok : R.allowed a w) (cond : C.act a w)
      (step : S.perform a c w = some (b, w')) : Lived S R C w'
  | move {w w' : World} {m : Move} (older : Lived S R C w) (cond : C.move m w)
      (step : S.move m w = some w') : Lived S R C w'

/-- The world after any number of moves. -/
inductive Moved (S : Setting Act World Choice Move) (w : World) : World → Prop where
  | refl : Moved S w w
  | step {w' w'' : World} {m : Move} (h : Moved S w w') (step : S.move m w' = some w'') :
      Moved S w w''

namespace Moved

variable {S : Setting Act World Choice Move} {w w' w'' : World}

theorem trans (h : Moved S w w') (h' : Moved S w' w'') : Moved S w w'' := by
  induction h' with
  | refl => exact h
  | step _ hm ih => exact ih.step hm

theorem keeps {K : World → World → Prop} (h : Moved S w w') (refl : ∀ w, K w w)
    (trans : ∀ {a b c}, K a b → K b c → K a c)
    (step : ∀ {m w w'}, S.move m w = some w' → K w w') : K w w' := by
  induction h with
  | refl => exact refl w
  | step _ hm ih => exact trans ih (step hm)

end Moved

namespace Lived

variable {S : Setting Act World Choice Move} {R : Rules Act World} {C C' : Condition Act World Move}
  {w w' : World}

theorem mono (h : Lived S R C w) (hact : ∀ {β : Type} (a : Act β) w, C.act a w → C'.act a w)
    (hmove : ∀ m w, C.move m w → C'.move m w) : Lived S R C' w := by
  induction h with
  | begins h => exact .begins h
  | act _ ok cond step ih => exact ih.act ok (hact _ _ cond) step
  | move _ cond step ih => exact ih.move (hmove _ _ cond) step

theorem toAny (h : Lived S R C w) : Lived S R .any w :=
  h.mono (fun _ _ _ => trivial) fun _ _ _ => trivial

end Lived

/-! ## Judging a routine -/

/-- From `w`, each action of `p` is allowed when it is taken, a result meets
`Q` and an error leaves a world that meets `E`. -/
def Does (S : Setting Act World Choice Move) (R : Rules Act World) (p : Routine Act Error α)
    (Q : α → World → Prop) (E : World → Prop) (w : World) : Prop :=
  match p with
  | .pure a => Q a w
  | .fail _ => E w
  | .act a k => ∀ w', Moved S w w' → Lived S R .any w' →
      R.allowed a w' ∧ ∀ c b w'', S.perform a c w' = some (b, w'') →
        Lived S R .any w'' → Does S R (k b) Q E w''

namespace Does

variable {S : Setting Act World Choice Move} {R : Rules Act World} {w w' : World}
  {p : Routine Act Error α} {Q Q' : α → World → Prop} {E E' : World → Prop}

theorem mono (h : Does S R p Q E w) (hw : Lived S R .any w)
    (hQ : ∀ a w', Lived S R .any w' → Q a w' → Q' a w')
    (hE : ∀ w', Lived S R .any w' → E w' → E' w') : Does S R p Q' E' w := by
  induction p generalizing w with
  | pure a => exact hQ a w hw h
  | fail e => exact hE w hw h
  | act a k ih =>
    intro w' hm hw'
    obtain ⟨hallowed, hk⟩ := h w' hm hw'
    exact ⟨hallowed, fun c b w'' hstep hw'' => ih b (hk c b w'' hstep hw'') hw''⟩

theorem bind {Q' : β → World → Prop} (h : Does S R p Q E w)
    (hw : Lived S R .any w) (hf : ∀ a w', Lived S R .any w' → Q a w' → Does S R (f a) Q' E' w')
    (hE : ∀ w', Lived S R .any w' → E w' → E' w') : Does S R (p.bind f) Q' E' w := by
  induction p generalizing w with
  | pure a => exact hf a w hw h
  | fail e => exact hE w hw h
  | act a k ih =>
    intro w' hm hw'
    obtain ⟨hallowed, hk⟩ := h w' hm hw'
    exact ⟨hallowed, fun c b w'' hstep hw'' => ih b (hk c b w'' hstep hw'') hw''⟩

theorem attempt {Error' : Type} (h : Does S R p Q E w) :
    Does S R (p.attempt : Routine Act Error' (Except Error α))
      (fun r w => match r with
        | .ok a => Q a w
        | .error _ => E w) E' w := by
  induction p generalizing w with
  | pure a => exact h
  | fail e => exact h
  | act a k ih =>
    intro w' hm hw'
    obtain ⟨hallowed, hk⟩ := h w' hm hw'
    exact ⟨hallowed, fun c b w'' hstep hw'' => ih b (hk c b w'' hstep hw'')⟩

/-- What a judgement promises, moves of the world do not take back. -/
theorem moved (h : Does S R p Q E w) (hm : Moved S w w')
    (hQ : ∀ a, Q a w → Q a w') (hE : E w → E w') : Does S R p Q E w' := by
  cases p with
  | pure a => exact hQ a h
  | fail e => exact hE h
  | act a k => exact fun w'' hm' hw'' => h w'' (hm.trans hm') hw''

end Does

/-! ## Runs -/

/-- A world and what is left of the routine the agent works through. -/
structure Config (Act : Type → Type) (Error World Outcome : Type) : Type 1 where
  world : World
  running : Option (Routine Act Error Outcome)

/-- `start` begins a routine when none is under way, `act` takes its next
action, `move` lets the world move, and `crash` drops the routine. -/
inductive Event (Op Choice Move : Type) where
  | start (op : Op)
  | act (c : Choice)
  | move (m : Move)
  | crash

namespace Config

variable (S : Setting Act World Choice Move) (routine : Op → Routine Act Error Outcome)

/-- The configuration after an event, unless the event cannot happen. -/
def advance (s : Config Act Error World Outcome) :
    Event Op Choice Move → Option (Config Act Error World Outcome)
  | .start op =>
    match s.running with
    | some (.act _ _) => none
    | _ => some ⟨s.world, some (routine op)⟩
  | .act c =>
    match s.running with
    | some (.act a k) => (S.perform a c s.world).map fun r => ⟨r.2, some (k r.1)⟩
    | _ => none
  | .move m => (S.move m s.world).map fun w => ⟨w, s.running⟩
  | .crash => some ⟨s.world, none⟩

/-- The configuration after a list of events, each of which `ok` accepts. -/
def exec (ok : Config Act Error World Outcome → Event Op Choice Move → Bool) :
    List (Event Op Choice Move) → Config Act Error World Outcome →
      Option (Config Act Error World Outcome)
  | [], s => some s
  | ev :: rest, s => if ok s ev then (s.advance S routine ev).bind (exec ok rest) else none

/-- `P` holds of the action the agent is about to take. -/
def Next (P : {β : Type} → Act β → World → Prop) (s : Config Act Error World Outcome) : Prop :=
  match s.running with
  | some (.act a _) => P a s.world
  | _ => True

def Meets (C : Condition Act World Move) (s : Config Act Error World Outcome) :
    Event Op Choice Move → Prop
  | .act _ => s.Next C.act
  | .move m => C.move m s.world
  | _ => True

/-- A condition that can be checked, on the event that comes next. -/
def checks (act : {β : Type} → Act β → World → Bool) (move : Move → World → Bool)
    (s : Config Act Error World Outcome) : Event Op Choice Move → Bool
  | .act _ =>
    match s.running with
    | some (.act a _) => act a s.world
    | _ => true
  | .move m => move m s.world
  | _ => true

inductive Reaches (C : Condition Act World Move) (s : Config Act Error World Outcome) :
    Config Act Error World Outcome → Prop where
  | refl : Reaches C s s
  | step {s' s'' : Config Act Error World Outcome} {ev : Event Op Choice Move}
      (h : Reaches C s s') (meets : s'.Meets C ev)
      (hstep : s'.advance S routine ev = some s'') : Reaches C s s''

variable {S routine} {C : Condition Act World Move} {s s' s'' : Config Act Error World Outcome}
  {ev : Event Op Choice Move}

/-- Every event meets the condition every run meets. -/
theorem meets_any : s.Meets .any ev := by
  cases ev with
  | act c =>
    show s.Next fun _ _ => True
    unfold Next
    split <;> trivial
  | _ => trivial

theorem Reaches.trans (h : Reaches S routine C s s') (h' : Reaches S routine C s' s'') :
    Reaches S routine C s s'' := by
  induction h' with
  | refl => exact h
  | step _ meets hstep ih => exact ih.step meets hstep

theorem meets_of_checks (act : {β : Type} → Act β → World → Bool) (move : Move → World → Bool)
    (hact : ∀ {β : Type} (a : Act β) w, act a w = true → C.act a w)
    (hmove : ∀ m w, move m w = true → C.move m w)
    (h : s.checks act move ev = true) : s.Meets C ev := by
  cases ev with
  | act c =>
    show s.Next C.act
    simp only [checks] at h
    unfold Next
    split
    · next a k hrun =>
      rw [hrun] at h
      exact hact a s.world h
    · trivial
  | move m => exact hmove m s.world h
  | _ => trivial

theorem exec_reaches {ok : Config Act Error World Outcome → Event Op Choice Move → Bool}
    (hok : ∀ s ev, ok s ev = true → s.Meets C ev) {events : List (Event Op Choice Move)}
    (h : s.exec S routine ok events = some s') : Reaches S routine C s s' := by
  induction events generalizing s with
  | nil =>
    simp only [exec, Option.some.injEq] at h
    subst h
    exact .refl
  | cons ev rest ih =>
    simp only [exec] at h
    split at h
    · next hev =>
      rw [bind_eq_some_iff] at h
      obtain ⟨s₁, hstep, hrest⟩ := h
      exact (Reaches.refl.step (hok s ev hev) hstep).trans (ih hrest)
    · cases h

/-- A run of accepted events reaches a configuration with a property that can
be checked. -/
theorem exists_exec (S : Setting Act World Choice Move) (routine : Op → Routine Act Error Outcome)
    (ok : Config Act Error World Outcome → Event Op Choice Move → Bool)
    (hok : ∀ s ev, ok s ev = true → s.Meets C ev) (events : List (Event Op Choice Move))
    {P : Config Act Error World Outcome → Bool} (h : (s.exec S routine ok events).any P = true) :
    ∃ s', Reaches S routine C s s' ∧ P s' = true := by
  cases hs : s.exec S routine ok events with
  | none =>
    rw [hs] at h
    cases h
  | some s' =>
    rw [hs] at h
    exact ⟨s', exec_reaches hok hs, h⟩

/-! ## Soundness -/

/-- The world is a lived one, and what is left of the routine does as it should. -/
structure Sound (S : Setting Act World Choice Move) (R : Rules Act World) (C : Condition Act World Move)
    (s : Config Act Error World Outcome) : Prop where
  lived : Lived S R C s.world
  does : ∀ p, s.running = some p → Does S R p (fun _ _ => True) (fun _ => True) s.world

variable {R : Rules Act World}

theorem Sound.next (h : Sound S R C s) : s.Next R.allowed := by
  unfold Next
  split
  · next a k hrun => exact (h.does _ hrun s.world .refl h.lived.toAny).1
  · trivial

theorem Sound.advance (h : Sound S R C s)
    (hR : ∀ op w, Lived S R .any w → Does S R (routine op) (fun _ _ => True) (fun _ => True) w)
    (hmeets : s.Meets C ev) (hstep : s.advance S routine ev = some s') : Sound S R C s' := by
  cases ev with
  | start op =>
    simp only [Config.advance] at hstep
    split at hstep
    · cases hstep
    · cases hstep
      refine ⟨h.lived, ?_⟩
      rintro p ⟨rfl⟩
      exact hR op s.world h.lived.toAny
  | act c =>
    simp only [Config.advance] at hstep
    split at hstep
    · next a k hrun =>
      rw [map_eq_some_iff] at hstep
      obtain ⟨⟨b, w'⟩, hperform, rfl⟩ := hstep
      obtain ⟨hallowed, hk⟩ := h.does _ hrun s.world .refl h.lived.toAny
      have hcond : C.act a s.world := by
        unfold Meets Next at hmeets
        rw [hrun] at hmeets
        exact hmeets
      have hlived := h.lived.act hallowed hcond hperform
      refine ⟨hlived, ?_⟩
      rintro p ⟨rfl⟩
      exact hk c b w' hperform hlived.toAny
    · cases hstep
  | move m =>
    unfold Config.advance at hstep
    rw [map_eq_some_iff] at hstep
    obtain ⟨w', hmove, rfl⟩ := hstep
    refine ⟨h.lived.move hmeets hmove, fun p hp => ?_⟩
    exact (h.does p hp).moved (Moved.refl.step hmove) (fun _ => id) id
  | crash =>
    cases hstep
    refine ⟨h.lived, ?_⟩
    rintro p ⟨⟩

/-- **Soundness.** A run whose steps meet the condition, of routines that do as
they should, keeps the world a lived one and each next action allowed. -/
theorem Sound.reaches (h : Sound S R C s)
    (hR : ∀ op w, Lived S R .any w → Does S R (routine op) (fun _ _ => True) (fun _ => True) w)
    (hr : Reaches S routine C s s') : Sound S R C s' := by
  induction hr with
  | refl => exact h
  | step _ meets hstep ih => exact ih.advance hR meets hstep

/-- **The invariant rule.** What holds of the world a run starts in, and is kept
by each step that is allowed and meets the condition and by each move that meets
it, holds of every world the run reaches. -/
theorem Sound.invariant {I : World → Prop} (h : Sound S R C s) (hI : I s.world)
    (hR : ∀ op w, Lived S R .any w → Does S R (routine op) (fun _ _ => True) (fun _ => True) w)
    (hact : ∀ {β : Type} (a : Act β) (c : Choice) (b : β) (w w' : World), R.allowed a w →
      C.act a w → S.perform a c w = some (b, w') → I w → I w')
    (hmove : ∀ m w w', C.move m w → S.move m w = some w' → I w → I w')
    (hr : Reaches S routine C s s') : I s'.world := by
  induction hr with
  | refl => exact hI
  | @step s' s'' ev hr meets hstep ih =>
    have hsound : Sound S R C s' := h.reaches hR hr
    cases ev with
    | start op =>
      simp only [Config.advance] at hstep
      split at hstep
      · cases hstep
      · cases hstep
        exact ih
    | act c =>
      simp only [Config.advance] at hstep
      split at hstep
      · next a k hrun =>
        rw [map_eq_some_iff] at hstep
        obtain ⟨⟨b, w'⟩, hperform, rfl⟩ := hstep
        obtain ⟨hallowed, -⟩ := hsound.does _ hrun s'.world .refl hsound.lived.toAny
        have hcond : C.act a s'.world := by
          unfold Meets Next at meets
          rw [hrun] at meets
          exact meets
        exact hact a c b s'.world w' hallowed hcond hperform ih
      · cases hstep
    | move m =>
      unfold Config.advance at hstep
      rw [map_eq_some_iff] at hstep
      obtain ⟨w', hw', rfl⟩ := hstep
      exact hmove m s'.world w' meets hw' ih
    | crash =>
      cases hstep
      exact ih

theorem Sound.idle {w : World} (h : R.begins w) :
    Sound S R C (⟨w, none⟩ : Config Act Error World Outcome) :=
  ⟨.begins h, by rintro p ⟨⟩⟩

end Config

end Solo
