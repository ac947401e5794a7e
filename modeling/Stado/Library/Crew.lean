import Mathlib.Data.Nat.Notation
import Stado.Library.Solo

/-!
# Many agents in one world

Any number of agents work through routines of actions on one world. An agent is
named by its place in the list of agents; between two actions of one agent the
others act, the world moves by itself, and agents stop for good.

Each action an agent may take is said once, by `Rules.allowed`. `Does` judges a
routine under the assumption that all others take allowed actions only, so that
a routine is judged alone; an invariant of the world is proved by induction over
lived worlds, with no routine in sight.
-/

namespace Crew

open Option

open Solo (Routine)

/-- What the actions of an agent answer and do, how the world moves by itself,
and what is left of the world when an agent stops. -/
structure Setting (Act : Type → Type) (World Choice Move : Type) where
  perform : {β : Type} → ℕ → Act β → Choice → World → Option (β × World)
  move : Move → World → Option World
  stop : ℕ → World → World

/-- The worlds a run begins with, and the actions an agent is allowed to take in
a world. -/
structure Rules (Act : Type → Type) (World : Type) where
  begins : World → Prop
  allowed : {β : Type} → ℕ → Act β → World → Prop

/-- Conditions on a run: on each action with the answer it gets, on each move and
on each agent that stops. -/
structure Condition (Act : Type → Type) (World Choice Move : Type) where
  act : {β : Type} → ℕ → Act β → Choice → World → Prop
  move : Move → World → Prop
  stop : ℕ → World → Prop

/-- The condition every run meets. -/
def Condition.any {Act : Type → Type} {World Choice Move : Type} :
    Condition Act World Choice Move :=
  ⟨fun _ _ _ _ => True, fun _ _ => True, fun _ _ => True⟩

variable {Act : Type → Type} {World Choice Move Error Error' Op Outcome : Type} {α β : Type}

/-! ## Steps and lived worlds -/

/-- One step by an agent, or by nobody, that is allowed and meets the condition. -/
inductive Step (S : Setting Act World Choice Move) (R : Rules Act World)
    (C : Condition Act World Choice Move) : Option ℕ → World → World → Prop where
  | act {i : ℕ} {w w' : World} {β : Type} {a : Act β} {c : Choice} {b : β}
      (ok : R.allowed i a w) (cond : C.act i a c w) (perform : S.perform i a c w = some (b, w')) :
      Step S R C (some i) w w'
  | stop {i : ℕ} {w : World} (cond : C.stop i w) : Step S R C (some i) w (S.stop i w)
  | move {w w' : World} {m : Move} (cond : C.move m w) (move : S.move m w = some w') :
      Step S R C none w w'

inductive Lived (S : Setting Act World Choice Move) (R : Rules Act World)
    (C : Condition Act World Choice Move) : World → Prop where
  | begins {w : World} (h : R.begins w) : Lived S R C w
  | step {w w' : World} {who : Option ℕ} (older : Lived S R C w) (h : Step S R C who w w') :
      Lived S R C w'

/-- The world after steps of everybody but agent `i`. -/
inductive Others (S : Setting Act World Choice Move) (R : Rules Act World)
    (C : Condition Act World Choice Move) (i : ℕ) (w : World) : World → Prop where
  | refl : Others S R C i w w
  | step {w' w'' : World} {who : Option ℕ} (older : Others S R C i w w') (hwho : who ≠ some i)
      (h : Step S R C who w' w'') : Others S R C i w w''

/-- Agent `i` has done nothing yet. -/
def New (S : Setting Act World Choice Move) (R : Rules Act World)
    (C : Condition Act World Choice Move) (i : ℕ) (w : World) : Prop :=
  ∃ w₀, R.begins w₀ ∧ Others S R C i w₀ w

/-- What agent `i` knows and nobody else can make false. -/
structure Stable (S : Setting Act World Choice Move) (R : Rules Act World)
    (C : Condition Act World Choice Move) (i : ℕ) (P : World → Prop) : Prop where
  keeps : ∀ {who w w'}, who ≠ some i → Lived S R C w → Step S R C who w w' → P w → P w'

variable {S : Setting Act World Choice Move} {R : Rules Act World}
  {C : Condition Act World Choice Move} {i : ℕ} {w w' w'' : World}

namespace Lived

/-- **The invariant rule.** What the beginnings have and each step keeps, every
lived world has. -/
theorem invariant {I : World → Prop} (h : Lived S R C w) (begins : ∀ w, R.begins w → I w)
    (step : ∀ {who w w'}, Lived S R C w → I w → Step S R C who w w' → I w') : I w := by
  induction h with
  | begins h => exact begins _ h
  | step hlived h ih => exact step hlived ih h

end Lived

namespace Others

theorem trans (h : Others S R C i w w') (h' : Others S R C i w' w'') : Others S R C i w w'' := by
  induction h' with
  | refl => exact h
  | step _ hwho hstep ih => exact ih.step hwho hstep

theorem lived (h : Others S R C i w w') (hw : Lived S R C w) : Lived S R C w' := by
  induction h with
  | refl => exact hw
  | step _ _ hstep ih => exact ih.step hstep

variable {P : World → Prop}

/-- Nobody else makes false what is stable. -/
theorem keeps (h : Others S R C i w w') (hP : Stable S R C i P)
    (hw : Lived S R C w) (hold : P w) : P w' := by
  induction h with
  | refl => exact hold
  | step older hwho hstep ih => exact hP.keeps hwho (older.lived hw) hstep ih

end Others

namespace New

theorem lived (h : New S R C i w) : Lived S R C w := by
  obtain ⟨w₀, hbegins, hothers⟩ := h
  exact hothers.lived (.begins hbegins)

/-- What every beginning has and nobody else makes false, a new agent knows. -/
theorem knows (h : New S R C i w) (hP : Stable S R C i P)
    (begins : ∀ w, R.begins w → P w) : P w := by
  obtain ⟨w₀, hbegins, hothers⟩ := h
  exact hothers.keeps hP (.begins hbegins) (begins w₀ hbegins)

end New

namespace Stable

variable {P P' : World → Prop}

theorem and (h : Stable S R C i P) (h' : Stable S R C i P') : Stable S R C i fun w => P w ∧ P' w :=
  ⟨fun hwho hw hstep hold =>
    ⟨h.keeps hwho hw hstep hold.1, h'.keeps hwho hw hstep hold.2⟩⟩

theorem const (p : Prop) : Stable S R C i fun _ => p :=
  ⟨fun _ _ _ hold => hold⟩

theorem imp {p : Prop} (h : p → Stable S R C i P) : Stable S R C i fun w => p → P w :=
  ⟨fun hwho hw hstep hold hp => (h hp).keeps hwho hw hstep (hold hp)⟩

end Stable

/-! ## Judging a routine -/

/-- From `w`, each action agent `i` takes is allowed if it meets the condition, a
result meets `Q` and an error leaves a world that meets `E`. -/
def Does (S : Setting Act World Choice Move) (R : Rules Act World)
    (C : Condition Act World Choice Move) (i : ℕ) (p : Routine Act Error α)
    (Q : α → World → Prop) (E : World → Prop) (w : World) : Prop :=
  match p with
  | .pure a => Q a w
  | .fail _ => E w
  | .act a k => ∀ w', Others S R C i w w' → Lived S R C w' → ∀ c b w'',
      S.perform i a c w' = some (b, w'') → C.act i a c w' →
        R.allowed i a w' ∧ (Lived S R C w'' → Does S R C i (k b) Q E w'')

namespace Does

variable {p : Routine Act Error α} {Q Q' : α → World → Prop} {E E' : World → Prop}

theorem pure {a : α} (h : Q a w) :
    Does S R C i (.pure a : Routine Act Error α) Q E w := h

theorem fail {e : Error} (h : E w) :
    Does S R C i (.fail e : Routine Act Error α) Q E w := h

/-- One action, judged by what the agent knows when it takes it. -/
theorem act {a : Act β} {k : β → Routine Act Error α} (hP : Stable S R C i P) (hw : Lived S R C w)
    (hold : P w) (step : ∀ w' c b w'', Lived S R C w' → P w' → S.perform i a c w' = some (b, w'') →
      C.act i a c w' → R.allowed i a w' ∧ (Lived S R C w'' → Does S R C i (k b) Q E w'')) :
    Does S R C i (.act a k) Q E w :=
  fun w' hothers hw' c b w'' hstep hcond =>
    step w' c b w'' hw' (hothers.keeps hP hw hold) hstep hcond

theorem mono (h : Does S R C i p Q E w) (hw : Lived S R C w)
    (hQ : ∀ a w', Lived S R C w' → Q a w' → Q' a w')
    (hE : ∀ w', Lived S R C w' → E w' → E' w') : Does S R C i p Q' E' w := by
  induction p generalizing w with
  | pure a => exact hQ a w hw h
  | fail e => exact hE w hw h
  | act a k ih =>
    intro w' hothers hw' c b w'' hstep hcond
    obtain ⟨hallowed, hk⟩ := h w' hothers hw' c b w'' hstep hcond
    exact ⟨hallowed, fun hw'' => ih b (hk hw'') hw''⟩

theorem bind {f : α → Routine Act Error β} {Q' : β → World → Prop} (h : Does S R C i p Q E w)
    (hw : Lived S R C w) (hf : ∀ a w', Lived S R C w' → Q a w' → Does S R C i (f a) Q' E' w')
    (hE : ∀ w', Lived S R C w' → E w' → E' w') : Does S R C i (p.bind f) Q' E' w := by
  induction p generalizing w with
  | pure a => exact hf a w hw h
  | fail e => exact hE w hw h
  | act a k ih =>
    intro w' hothers hw' c b w'' hstep hcond
    obtain ⟨hallowed, hk⟩ := h w' hothers hw' c b w'' hstep hcond
    exact ⟨hallowed, fun hw'' => ih b (hk hw'') hw''⟩

theorem attempt (h : Does S R C i p Q E w) :
    Does S R C i (p.attempt : Routine Act Error' (Except Error α))
      (fun r w => match r with
        | .ok a => Q a w
        | .error _ => E w) E' w := by
  induction p generalizing w with
  | pure a => exact h
  | fail e => exact h
  | act a k ih =>
    intro w' hothers hw' c b w'' hstep hcond
    obtain ⟨hallowed, hk⟩ := h w' hothers hw' c b w'' hstep hcond
    exact ⟨hallowed, fun hw'' => ih b (hk hw'')⟩

/-- What a judgement promises, the others do not take back. -/
theorem others (h : Does S R C i p Q E w) (ho : Others S R C i w w')
    (hQ : ∀ a, Q a w → Q a w') (hE : E w → E w') : Does S R C i p Q E w' := by
  cases p with
  | pure a => exact hQ a h
  | fail e => exact hE h
  | act a k => exact fun w'' ho' hw'' => h w'' (ho.trans ho') hw''

/-- An action of agent `i` does not make `P` false. -/
def Spares (S : Setting Act World Choice Move) (i : ℕ) (P : World → Prop) {β : Type}
    (a : Act β) : Prop :=
  ∀ c w b w', P w → S.perform i a c w = some (b, w') → P w'

/-- **The frame rule.** What neither the others nor the actions of a routine make
false holds at its end if it held at its beginning. -/
theorem frame (h : Does S R C i p Q E w) (hP : Stable S R C i P)
    (hp : p.Only (Spares S i P)) (hw : Lived S R C w) (hold : P w) :
    Does S R C i p (fun a w => Q a w ∧ P w) (fun w => E w ∧ P w) w := by
  induction p generalizing w with
  | pure a => exact ⟨h, hold⟩
  | fail e => exact ⟨h, hold⟩
  | act a k ih =>
    intro w' hothers hw' c b w'' hstep hcond
    obtain ⟨hallowed, hk⟩ := h w' hothers hw' c b w'' hstep hcond
    have hold' : P w'' := hp.1 c w' b w'' (hothers.keeps hP hw hold) hstep
    exact ⟨hallowed, fun hw'' => ih b (hk hw'') (hp.2 b) hw'' hold'⟩

/-- **The keeping rule.** A routine whose actions are each allowed while `P` holds, and
leave it, keeps `P` to its end. -/
theorem keeping (hP : Stable S R C i P) (hw : Lived S R C w) (hold : P w)
    (hspares : p.Only (Spares S i P))
    (hallowed : p.Only fun a => ∀ c w, Lived S R C w → P w → C.act i a c w → R.allowed i a w) :
    Does S R C i p (fun _ => P) P w := by
  induction p generalizing w with
  | pure a => exact hold
  | fail e => exact hold
  | act a k ih =>
    intro w' hothers hw' c b w'' hstep hcond
    have hold' : P w' := hothers.keeps hP hw hold
    refine ⟨hallowed.1 c w' hw' hold' hcond, fun hw'' => ?_⟩
    exact ih b hw'' (hspares.1 c w' b w'' hold' hstep) (hspares.2 b) (hallowed.2 b)

/-- One action that always answers, taken by an agent that knows `P`. -/
theorem take {a : Act α} (hP : Stable S R C i P) (hw : Lived S R C w) (hold : P w)
    (step : ∀ w' c b w'', Lived S R C w' → P w' → S.perform i a c w' = some (b, w'') →
      C.act i a c w' → R.allowed i a w' ∧ (Lived S R C w'' → Q b w'')) :
    Does S R C i (Routine.take a : Routine Act Error α) Q E w :=
  act hP hw hold step

/-- One action that may answer with an error, taken by an agent that knows `P`. -/
theorem tries {a : Act (Except Error α)} (hP : Stable S R C i P) (hw : Lived S R C w) (hold : P w)
    (step : ∀ w' c b w'', Lived S R C w' → P w' → S.perform i a c w' = some (b, w'') →
      C.act i a c w' → R.allowed i a w' ∧ (Lived S R C w'' → match b with
        | .ok a => Q a w''
        | .error _ => E w'')) : Does S R C i (Routine.tries a : Routine Act Error α) Q E w := by
  refine act hP hw hold fun w' c b w'' hw' hold' hstep hcond => ?_
  obtain ⟨hallowed, h⟩ := step w' c b w'' hw' hold' hstep hcond
  refine ⟨hallowed, fun hw'' => ?_⟩
  have hdone := h hw''
  cases b with
  | _ => exact hdone

/-- Where every action is allowed, a routine does as it should. -/
theorem free {begins : World → Prop} (p : Routine Act Error α) :
    Does S ⟨begins, fun _ _ _ => True⟩ C i p (fun _ _ => True) (fun _ => True) w := by
  induction p generalizing w with
  | pure a => trivial
  | fail e => trivial
  | act a k ih => exact fun _ _ _ _ b _ _ _ => ⟨trivial, fun _ => ih b⟩

end Does

/-! ## Runs -/

/-- A world and what is left of the routine of each agent; an agent that has
stopped has none. -/
structure Config (Act : Type → Type) (Error World Outcome : Type) : Type 1 where
  world : World
  tasks : List (Option (Routine Act Error Outcome))

/-- `start` begins a routine with a new agent, `act` takes the next action of
agent `i`, `move` lets the world move, and `stop` ends agent `i` for good. -/
inductive Event (Op Choice Move : Type) where
  | start (op : Op)
  | act (i : ℕ) (c : Choice)
  | move (m : Move)
  | stop (i : ℕ)

namespace Config

variable (S : Setting Act World Choice Move) (routine : Op → Routine Act Error Outcome)

/-- The configuration after an event, unless the event cannot happen. -/
def advance (s : Config Act Error World Outcome) :
    Event Op Choice Move → Option (Config Act Error World Outcome)
  | .start op => some ⟨s.world, s.tasks ++ [some (routine op)]⟩
  | .act i c =>
    match s.tasks[i]? with
    | some (some (.act a k)) =>
      (S.perform i a c s.world).map fun r => ⟨r.2, s.tasks.set i (some (k r.1))⟩
    | _ => none
  | .move m => (S.move m s.world).map fun w => ⟨w, s.tasks⟩
  | .stop i =>
    match s.tasks[i]? with
    | some (some _) => some ⟨S.stop i s.world, s.tasks.set i none⟩
    | _ => none

/-- The configuration after a list of events, each of which `ok` accepts. -/
def exec (ok : Config Act Error World Outcome → Event Op Choice Move → Bool) :
    List (Event Op Choice Move) → Config Act Error World Outcome →
      Option (Config Act Error World Outcome)
  | [], s => some s
  | ev :: rest, s => if ok s ev then (s.advance S routine ev).bind (exec ok rest) else none

/-- `P` holds of the action agent `i` is about to take. -/
def Next (P : {β : Type} → Act β → World → Prop) (i : ℕ) (s : Config Act Error World Outcome) :
    Prop :=
  match s.tasks[i]? with
  | some (some (.act a _)) => P a s.world
  | _ => True

def Meets (C : Condition Act World Choice Move) (s : Config Act Error World Outcome) :
    Event Op Choice Move → Prop
  | .start _ => True
  | .act i c => s.Next (fun a w => C.act i a c w) i
  | .move m => C.move m s.world
  | .stop i => C.stop i s.world

inductive Reaches (C : Condition Act World Choice Move) (s : Config Act Error World Outcome) :
    Config Act Error World Outcome → Prop where
  | refl : Reaches C s s
  | step {s' s'' : Config Act Error World Outcome} {ev : Event Op Choice Move}
      (h : Reaches C s s') (meets : s'.Meets C ev)
      (hstep : s'.advance S routine ev = some s'') : Reaches C s s''

variable {S routine} {s s' s'' : Config Act Error World Outcome}
  {P : Config Act Error World Outcome → Bool} {ev : Event Op Choice Move}

/-- Every event meets the condition every run meets. -/
theorem meets_any : s.Meets .any ev := by
  cases ev with
  | act i c =>
    show s.Next (fun _ _ => True) i
    unfold Next
    split <;> trivial
  | _ => trivial

theorem Reaches.trans (h : Reaches S routine C s s') (h' : Reaches S routine C s' s'') :
    Reaches S routine C s s'' := by
  induction h' with
  | refl => exact h
  | step _ meets hstep ih => exact ih.step meets hstep

def decidableMeets (hact : ∀ {β : Type} (i : ℕ) (a : Act β) c w, Decidable (C.act i a c w))
    (hmove : ∀ m w, Decidable (C.move m w)) (hstop : ∀ i w, Decidable (C.stop i w))
    (s : Config Act Error World Outcome) : (ev : Event Op Choice Move) → Decidable (s.Meets C ev)
  | .start _ => isTrue trivial
  | .act i c =>
    match h : s.tasks[i]? with
    | some (some (.act a _)) =>
      have := hact i a c s.world
      decidable_of_iff (C.act i a c s.world) (by simp only [Meets, Next, h])
    | some (some (.pure _)) => isTrue (by simp only [Meets, Next, h])
    | some (some (.fail _)) => isTrue (by simp only [Meets, Next, h])
    | some none => isTrue (by simp only [Meets, Next, h])
    | none => isTrue (by simp only [Meets, Next, h])
  | .move m => hmove m s.world
  | .stop i => hstop i s.world

theorem exec_reaches {ok : Config Act Error World Outcome → Event Op Choice Move → Bool}
    (hok : ∀ s ev, ok s ev = true → s.Meets C ev) {events : List (Event Op Choice Move)}
    (h : s.exec S routine ok events = some s') : Reaches S routine C s s' := by
  induction events generalizing s with
  | nil =>
    simp only [exec, Option.some.injEq] at h
    subst h
    exact .refl
  | cons ev rest ih =>
    simp only [exec] at h
    split at h
    · next hev =>
      rw [bind_eq_some_iff] at h
      obtain ⟨s₁, hstep, hrest⟩ := h
      exact (Reaches.refl.step (hok s ev hev) hstep).trans (ih hrest)
    · cases h

/-- A run of accepted events reaches a configuration with a property that can be
checked. -/
theorem exists_exec (S : Setting Act World Choice Move) (routine : Op → Routine Act Error Outcome)
    (s : Config Act Error World Outcome)
    (ok : Config Act Error World Outcome → Event Op Choice Move → Bool)
    (hok : ∀ s ev, ok s ev = true → s.Meets C ev) (events : List (Event Op Choice Move))
    (h : (s.exec S routine ok events).any P = true) :
    ∃ s', Reaches S routine C s s' ∧ P s' = true := by
  cases hs : s.exec S routine ok events with
  | none =>
    rw [hs] at h
    cases h
  | some s' =>
    rw [hs] at h
    exact ⟨s', exec_reaches hok hs, h⟩

/-- A run whose events meet a condition that can be checked reaches a configuration
with a property that can be checked. -/
theorem exists_run (S : Setting Act World Choice Move) (routine : Op → Routine Act Error Outcome)
    (s : Config Act Error World Outcome)
    (hact : ∀ {β : Type} (i : ℕ) (a : Act β) c w, Decidable (C.act i a c w))
    (hmove : ∀ m w, Decidable (C.move m w)) (hstop : ∀ i w, Decidable (C.stop i w))
    (events : List (Event Op Choice Move))
    (h : (s.exec S routine (fun s ev => (decidableMeets hact hmove hstop s ev).decide) events).any
      P = true) : ∃ s', Reaches S routine C s s' ∧ P s' = true :=
  exists_exec S routine s _
    (fun s ev hev => @of_decide_eq_true _ (decidableMeets hact hmove hstop s ev) hev) events h

/-! ## Soundness -/

/-- The world is a lived one, each agent does as it should, and an agent that has
not started has done nothing. -/
structure Sound (S : Setting Act World Choice Move) (R : Rules Act World)
    (C : Condition Act World Choice Move) (Q : ℕ → Outcome → World → Prop)
    (E : ℕ → World → Prop) (s : Config Act Error World Outcome) : Prop where
  lived : Lived S R C s.world
  does : ∀ i p, s.tasks[i]? = some (some p) → Does S R C i p (Q i) (E i) s.world
  new : ∀ i, s.tasks.length ≤ i → New S R C i s.world

variable {Q : ℕ → Outcome → World → Prop} {E : ℕ → World → Prop}

/-- The agents after a step of one of them: that one has moved on, and the others
do as before. -/
theorem Sound.after (h : Sound S R C Q E s) (hQ : ∀ i a, Stable S R C i (Q i a))
    (hE : ∀ i, Stable S R C i (E i)) {who : Option ℕ} (hstep : Step S R C who s.world w')
    {tasks : List (Option (Routine Act Error Outcome))} (hlength : tasks.length = s.tasks.length)
    (hwho : ∀ i, who = some i → i < s.tasks.length)
    (hsame : ∀ i, who ≠ some i → tasks[i]? = s.tasks[i]?)
    (hown : ∀ i p, who = some i → tasks[i]? = some (some p) → Does S R C i p (Q i) (E i) w') :
    Sound S R C Q E (⟨w', tasks⟩ : Config Act Error World Outcome) := by
  refine ⟨h.lived.step hstep, fun i p hp => ?_, fun i hi => ?_⟩
  · by_cases hi : who = some i
    · exact hown i p hi hp
    · rw [hsame i hi] at hp
      exact (h.does i p hp).others (Others.refl.step hi hstep)
        (fun a => (hQ i a).keeps hi h.lived hstep) ((hE i).keeps hi h.lived hstep)
  · obtain ⟨w₀, hbegins, hothers⟩ := h.new i (hlength ▸ hi)
    refine ⟨w₀, hbegins, hothers.step ?_ hstep⟩
    intro heq
    have hlt := hwho i heq
    have hle : tasks.length ≤ i := hi
    omega

theorem Sound.advance (h : Sound S R C Q E s) (hQ : ∀ i a, Stable S R C i (Q i a))
    (hE : ∀ i, Stable S R C i (E i))
    (hR : ∀ op i w, New S R C i w → Does S R C i (routine op) (Q i) (E i) w) (hmeets : s.Meets C ev)
    (hstep : s.advance S routine ev = some s') : Sound S R C Q E s' := by
  cases ev with
  | start op =>
    cases hstep
    refine ⟨h.lived, fun i p hp => ?_, fun i hi => ?_⟩
    · rcases Nat.lt_or_ge i s.tasks.length with hlt | hge
      · rw [List.getElem?_append_left hlt] at hp
        exact h.does i p hp
      · rw [List.getElem?_append_right hge, List.getElem?_singleton] at hp
        split at hp
        · cases hp
          exact hR op i s.world (h.new i hge)
        · cases hp
    · rw [List.length_append] at hi
      exact h.new i (by omega)
  | act i c =>
    simp only [Config.advance] at hstep
    split at hstep
    · next a k hrun =>
      rw [map_eq_some_iff] at hstep
      obtain ⟨⟨b, w'⟩, hperform, rfl⟩ := hstep
      have hlt : i < s.tasks.length := (List.getElem?_eq_some_iff.mp hrun).1
      have hcond : C.act i a c s.world := by
        simp only [Meets, Next, hrun] at hmeets
        exact hmeets
      obtain ⟨hallowed, hk⟩ := h.does i _ hrun s.world .refl h.lived c b w' hperform hcond
      have hone : Step S R C (some i) s.world w' := .act hallowed hcond hperform
      refine h.after hQ hE hone (by simp) (fun j hj => ?_) (fun j hj => ?_) fun j p hj hp => ?_
      · cases hj
        exact hlt
      · exact List.getElem?_set_ne fun heq => hj (congrArg some heq)
      · cases hj
        rw [List.getElem?_set_self hlt] at hp
        cases hp
        exact hk (h.lived.step hone)
    · cases hstep
  | move m =>
    unfold Config.advance at hstep
    rw [map_eq_some_iff] at hstep
    obtain ⟨w', hmove, rfl⟩ := hstep
    exact h.after hQ hE (.move hmeets hmove) rfl (by rintro j ⟨⟩) (fun _ _ => rfl)
      (by rintro j p ⟨⟩)
  | stop i =>
    simp only [Config.advance] at hstep
    split at hstep
    · next p hrun =>
      cases hstep
      have hlt : i < s.tasks.length := (List.getElem?_eq_some_iff.mp hrun).1
      have hone : Step S R C (some i) s.world (S.stop i s.world) := .stop hmeets
      refine h.after hQ hE hone (by simp) (fun j hj => ?_) (fun j hj => ?_) fun j p hj hp => ?_
      · cases hj
        exact hlt
      · exact List.getElem?_set_ne fun heq => hj (congrArg some heq)
      · cases hj
        rw [List.getElem?_set_self hlt] at hp
        cases hp
    · cases hstep

/-- **Soundness.** A run whose steps meet the condition, of routines that do as
they should, leads to lived worlds, and what a routine promises at its end holds
from then on. -/
theorem Sound.reaches (h : Sound S R C Q E s) (hQ : ∀ i a, Stable S R C i (Q i a))
    (hE : ∀ i, Stable S R C i (E i))
    (hR : ∀ op i w, New S R C i w → Does S R C i (routine op) (Q i) (E i) w)
    (hr : Reaches S routine C s s') : Sound S R C Q E s' := by
  induction hr with
  | refl => exact h
  | step _ meets hstep ih => exact ih.advance hQ hE hR meets hstep

/-- An agent that has stopped stays stopped, and what the condition asks of it when
it stops holds from then on if nobody else makes it false. -/
theorem Sound.stopped (h : Sound S R C Q E s) (hQ : ∀ i a, Stable S R C i (Q i a))
    (hE : ∀ i, Stable S R C i (E i))
    (hR : ∀ op i w, New S R C i w → Does S R C i (routine op) (Q i) (E i) w) {G : World → Prop}
    (hG : Stable S R C i G) (hstop : s.tasks[i]? ≠ some none → ∀ w, C.stop i w → G (S.stop i w))
    (hbefore : s.tasks[i]? = some none → G s.world) (hr : Reaches S routine C s s') :
    (s.tasks[i]? = some none → s'.tasks[i]? = some none) ∧
      (s'.tasks[i]? = some none → G s'.world) := by
  induction hr with
  | refl => exact ⟨id, hbefore⟩
  | @step s₁ s₂ ev hr meets hstep ih =>
    obtain ⟨hstays, hold⟩ := ih
    have hsound := h.reaches hQ hE hR hr
    cases ev with
    | start op =>
      cases hstep
      have hsame : (s₁.tasks ++ [some (routine op)])[i]? = some none ↔
          s₁.tasks[i]? = some none := by
        rcases Nat.lt_or_ge i s₁.tasks.length with hlt | hge
        · rw [List.getElem?_append_left hlt]
        · rw [List.getElem?_append_right hge, List.getElem?_singleton, List.getElem?_eq_none hge]
          split <;> simp
      exact ⟨fun hi => hsame.mpr (hstays hi), fun hi => hold (hsame.mp hi)⟩
    | act j c =>
      simp only [Config.advance] at hstep
      split at hstep
      · next a k hrun =>
        rw [map_eq_some_iff] at hstep
        obtain ⟨⟨b, w'⟩, hperform, rfl⟩ := hstep
        have hcond : C.act j a c s₁.world := by
          simp only [Meets, Next, hrun] at meets
          exact meets
        obtain ⟨hallowed, -⟩ :=
          hsound.does j _ hrun s₁.world .refl hsound.lived c b w' hperform hcond
        by_cases hij : j = i
        · subst hij
          refine ⟨fun hi => ?_, fun hi => ?_⟩
          · rw [hstays hi] at hrun
            cases hrun
          · rw [List.getElem?_set_self (List.getElem?_eq_some_iff.mp hrun).1] at hi
            cases hi
        · rw [List.getElem?_set_ne hij]
          exact ⟨hstays, fun hi => hG.keeps (fun heq => hij (Option.some.inj heq))
            hsound.lived (.act hallowed hcond hperform) (hold hi)⟩
      · cases hstep
    | move m =>
      unfold Config.advance at hstep
      rw [map_eq_some_iff] at hstep
      obtain ⟨w', hmove, rfl⟩ := hstep
      exact ⟨hstays, fun hi =>
        hG.keeps (by rintro ⟨⟩) hsound.lived (.move meets hmove) (hold hi)⟩
    | stop j =>
      simp only [Config.advance] at hstep
      split at hstep
      · next p hrun =>
        cases hstep
        by_cases hij : j = i
        · subst hij
          have hbefore : s.tasks[j]? ≠ some none := fun hi => by
            rw [hstays hi] at hrun
            cases hrun
          exact ⟨fun hi => absurd hi hbefore, fun _ => hstop hbefore s₁.world meets⟩
        · rw [List.getElem?_set_ne hij]
          exact ⟨hstays, fun hi => hG.keeps (fun heq => hij (Option.some.inj heq))
            hsound.lived (.stop meets) (hold hi)⟩
      · cases hstep

/-- No agent at all, in a world a run can begin with. -/
theorem Sound.nobody (h : R.begins w) :
    Sound S R C Q E (⟨w, []⟩ : Config Act Error World Outcome) := by
  refine ⟨.begins h, ?_, fun i _ => ⟨w, h, .refl⟩⟩
  intro i p hp
  simp at hp

end Config

end Crew
