import Mathlib.Data.List.Basic

/-!
# Calls that fail part of the way

A program calls a service, one call after another, and the service keeps a
state that others change too. A call changes the state in stages, and a failing
call stops after any number of them: before the first, so that nothing was
done, after the last, so that only its answer was lost, or in between. What
others do before each call of a run, and which calls fail, is told beforehand,
so a run is a function of the state and of its course.
-/

namespace Trials

open List Option

variable {State Error Stop α β : Type} {s : State} {I : State → Prop}

/-! ## Calls and their failures -/

/-- The stages in which a call changes the state, and what it answers in the
state it finds. -/
structure Call (State Error β : Type) where
  stages : List (State → State)
  answer : State → Except Error β

/-- The state once the first `n` stages are done. -/
def Call.partway (c : Call State Error β) (n : ℕ) (s : State) : State :=
  (c.stages.take n).foldl (fun t stage => stage t) s

def Call.whole (c : Call State Error β) (s : State) : State :=
  c.stages.foldl (fun t stage => stage t) s

/-- How many stages a failing call gets done, and the error it answers. -/
structure Fault (Error : Type) where
  stages : ℕ
  error : Error
deriving DecidableEq

/-- One call to come: what others do before it, and whether it fails. -/
structure Turn (State Error : Type) where
  others : State → State
  fault : Option (Fault Error)

/-- The calls to come, in order. Past the end of the list nobody interferes and no call
fails. -/
abbrev Course (State Error : Type) := List (Turn State Error)

abbrev Faults (Error : Type) := List (Option (Fault Error))

/-- A run nobody interferes with. -/
def alone (faults : Faults Error) : Course State Error := faults.map fun fault => ⟨id, fault⟩

theorem Call.partway_zero (c : Call State Error β) (s : State) : c.partway 0 s = s := by
  rw [Call.partway, take_zero, foldl_nil]

theorem Call.partway_keeps (c : Call State Error β)
    (h : ∀ stage ∈ c.stages, ∀ s, I s → I (stage s)) (n : ℕ) (hs : I s) : I (c.partway n s) := by
  have hfold : ∀ (stages : List (State → State)),
      (∀ stage ∈ stages, ∀ s, I s → I (stage s)) → ∀ s, I s →
        I (stages.foldl (fun t stage => stage t) s) := by
    intro stages
    induction stages with
    | nil => intro _ s hs; exact hs
    | cons stage rest ih =>
      intro hall s hs
      rw [foldl_cons]
      exact ih (fun other hother => hall other (mem_cons_of_mem _ hother)) _
        (hall stage (mem_cons_self ..) s hs)
  exact hfold _ (fun stage hstage => h stage (mem_of_mem_take hstage)) s hs

theorem Call.partway_asks (c : Call State Error β) (h : c.stages = []) (n : ℕ) (s : State) :
    c.partway n s = s := by
  rw [Call.partway, h, take_nil, foldl_nil]

theorem Call.whole_asks (c : Call State Error β) (h : c.stages = []) (s : State) :
    c.whole s = s := by
  rw [Call.whole, h, foldl_nil]

theorem Call.whole_eq_partway (c : Call State Error β) (s : State) :
    c.whole s = c.partway c.stages.length s := by
  rw [Call.whole, Call.partway, take_length]

/-! ## Programs -/

/-- From a state and the course to come: the result or what the program
stopped with, the state it leaves and what is left of the course. -/
def Trial (State Error Stop α : Type) : Type :=
  State → Course State Error → Except Stop α × State × Course State Error

namespace Trial

def pure (a : α) : Trial State Error Stop α := fun s f => (.ok a, s, f)

/-- End the program here. -/
def stop (e : Stop) : Trial State Error Stop α := fun s f => (.error e, s, f)

def bind (m : Trial State Error Stop α) (k : α → Trial State Error Stop β) :
    Trial State Error Stop β := fun s f =>
  match m s f with
  | (.error e, t, g) => (.error e, t, g)
  | (.ok a, t, g) => k a t g

instance instMonad : Monad (Trial State Error Stop) where
  pure := Trial.pure
  bind := Trial.bind

def attempt (c : Call State Error β) : Trial State Error Stop (Except Error β) := fun s f =>
  match f with
  | [] => (.ok (c.answer s), c.whole s, [])
  | ⟨others, none⟩ :: g => (.ok (c.answer (others s)), c.whole (others s), g)
  | ⟨others, some fault⟩ :: g =>
    (.ok (.error fault.error), c.partway fault.stages (others s), g)

/-- Make a call whose error ends the program. -/
def tries (onError : Error → Stop) (c : Call State Error β) : Trial State Error Stop β :=
  bind (attempt c) fun
    | .ok b => pure b
    | .error e => stop (onError e)

/-- A computed result, or what ends the program. -/
def ofExcept : Except Stop α → Trial State Error Stop α
  | .ok a => pure a
  | .error e => stop e

/-- One program for each element, in order. -/
def each : List α → (α → Trial State Error Stop Unit) → Trial State Error Stop Unit
  | [], _ => pure ()
  | a :: rest, m => bind (m a) fun _ => each rest m

/-- What a program ends with, when its results and its stops are the same. -/
def ending (m : Trial State Error α α) (s : State) (f : Course State Error) : α × State :=
  match m s f with
  | (.ok a, t, _) => (a, t)
  | (.error a, t, _) => (a, t)

/-! ## One step at a time -/

variable {m : Trial State Error Stop α} {k : α → Trial State Error Stop β} {s t : State}
  {f g : Course State Error} {c : Call State Error β} {onError : Error → Stop}
  {hit : ℕ × Fault Error} {x : Except Stop α} {a : α} {b : β} {e : Stop}

theorem bind_ok (h : m s f = (.ok a, t, g)) : bind m k s f = k a t g := by
  rw [bind, h]

theorem bind_error (h : m s f = (.error e, t, g)) : bind m k s f = (.error e, t, g) := by
  rw [bind, h]

theorem bind_assoc (m : Trial State Error Stop α) (k : α → Trial State Error Stop β) {γ : Type}
    (l : β → Trial State Error Stop γ) : bind (bind m k) l = bind m fun a => bind (k a) l := by
  funext s f
  rcases hrun : m s f with ⟨_ | a, t, g⟩
  · rw [bind_error hrun, bind_error (bind_error hrun)]
  · rw [bind_ok hrun, bind, bind_ok hrun]
    rfl

theorem ending_ok {m : Trial State Error α α} (h : m s f = (.ok a, t, g)) :
    ending m s f = (a, t) := by
  rw [ending, h]

theorem ending_error {m : Trial State Error α α} (h : m s f = (.error a, t, g)) :
    ending m s f = (a, t) := by
  rw [ending, h]

theorem bind_ok_inv (h : bind m k s f = (.ok b, t, g)) : ∃ a r e,
    m s f = (.ok a, r, e) ∧ k a r e = (.ok b, t, g) := by
  rcases hrun : m s f with ⟨_ | a, r, e⟩
  · rw [bind_error hrun] at h
    cases h
  · rw [bind_ok hrun] at h
    exact ⟨a, r, e, rfl, h⟩

theorem ofExcept_ok_inv (h : ofExcept x s f = (.ok a, t, g)) : x = .ok a ∧ t = s ∧ g = f := by
  cases x with
  | error e => cases h
  | ok b =>
    cases h
    exact ⟨rfl, rfl, rfl⟩

/-- The state a call finds once others have moved. -/
def arrive (f : Course State Error) (s : State) : State :=
  match f with
  | [] => s
  | turn :: _ => turn.others s

/-- A call that was answered did all of its stages. -/
theorem tries_ok_inv (h : tries onError c s f = (.ok b, t, g)) :
    c.answer (arrive f s) = .ok b ∧ t = c.whole (arrive f s) ∧ g = f.tail := by
  rcases f with _ | ⟨⟨others, _ | fault⟩, f⟩
  · rcases hanswer : c.answer s with error | b
    · rw [tries, bind, attempt, hanswer] at h
      cases h
    · rw [tries, bind, attempt, hanswer] at h
      cases h
      exact ⟨hanswer, rfl, rfl⟩
  · rcases hanswer : c.answer (others s) with error | b
    · rw [tries, bind, attempt, hanswer] at h
      cases h
    · rw [tries, bind, attempt, hanswer] at h
      cases h
      exact ⟨hanswer, rfl, rfl⟩
  · cases h

/-! ## The first failure -/

/-- The first failure among the next `n` calls: its number, and the failure. -/
def strike : ℕ → Faults Error → Option (ℕ × Fault Error)
  | 0, _ => none
  | _ + 1, [] => none
  | _ + 1, some fault :: _ => some (0, fault)
  | n + 1, none :: f => (strike n f).map fun hit => (hit.1 + 1, hit.2)

@[simp] theorem strike_nil (n : ℕ) : strike n ([] : Faults Error) = none := by
  cases n <;> rfl

theorem strike_lt {n : ℕ} {f : Faults Error} (h : strike n f = some hit) : hit.1 < n := by
  induction n generalizing f hit with
  | zero => cases h
  | succ n ih =>
    rcases f with _ | ⟨_ | fault, f⟩
    · cases h
    · obtain ⟨later, hlater, rfl⟩ := map_eq_some_iff.mp h
      exact Nat.succ_lt_succ (ih hlater)
    · obtain rfl := Option.some.inj h
      exact Nat.succ_pos n

/-- A failure among `n` calls and then `m` more is one of the first, or comes
after them. -/
theorem strike_add (n m : ℕ) (f : Faults Error) :
    strike (n + m) f =
      (strike n f).or ((strike m (f.drop n)).map fun hit => (hit.1 + n, hit.2)) := by
  induction n generalizing f with
  | zero =>
    rw [Nat.zero_add, drop_zero]
    cases hstrike : strike m f with
    | _ => simp [strike]
  | succ n ih =>
    rw [Nat.add_right_comm]
    rcases f with _ | ⟨_ | fault, f⟩
    · simp
    · show (strike (n + m) f).map _ = ((strike n f).map _).or _
      rw [ih f, drop_succ_cons]
      cases strike n f with
      | none =>
        cases strike m (f.drop n) with
        | _ => rfl
      | some hit => rfl
    · rfl

theorem strike_add_none {n m : ℕ} {f : Faults Error} :
    strike (n + m) f = none ↔ strike n f = none ∧ strike m (f.drop n) = none := by
  rw [strike_add]
  cases strike n f with
  | _ => simp

section Calls

variable {onError : Error → Stop} {c : Call State Error β} {faults : Faults Error}

/-- A call that does not fail. -/
theorem tries_clear (h : strike 1 faults = none) : tries onError c s (alone faults) =
    ((c.answer s).mapError onError, c.whole s, alone (faults.drop 1)) := by
  rcases faults with _ | ⟨_ | fault, faults⟩
  · show bind (attempt c) _ s [] = _
    rw [bind_ok (show attempt c s [] = (.ok (c.answer s), c.whole s, []) from rfl)]
    cases c.answer s <;> rfl
  · show bind (attempt c) _ s (⟨id, none⟩ :: alone faults) = _
    rw [bind_ok (show attempt c s (⟨id, none⟩ :: alone faults) =
      (.ok (c.answer s), c.whole s, alone faults) from rfl)]
    cases c.answer s <;> rfl
  · cases h

theorem tries_ok (h : strike 1 faults = none) (hb : c.answer s = .ok b) :
    tries onError c s (alone faults) = (.ok b, c.whole s, alone (faults.drop 1)) := by
  rw [tries_clear h, hb]
  rfl

theorem tries_struck (h : strike 1 faults = some hit) :
    tries onError c s (alone faults) =
      (.error (onError hit.2.error), c.partway hit.2.stages s, alone (faults.drop 1)) := by
  rcases faults with _ | ⟨_ | fault, faults⟩
  · cases h
  · cases h
  · obtain rfl := Option.some.inj h
    rfl

theorem asks_ok (hasks : c.stages = []) (h : strike 1 faults = none) (hb : c.answer s = .ok b) :
    tries onError c s (alone faults) = (.ok b, s, alone (faults.drop 1)) := by
  rw [tries_ok h hb, c.whole_asks hasks]

theorem asks_struck (hasks : c.stages = []) (h : strike 1 faults = some hit) :
    tries onError c s (alone faults) =
      (.error (onError hit.2.error), s, alone (faults.drop 1)) := by
  rw [tries_struck h, c.partway_asks hasks]

end Calls

/-! ## What a run keeps -/

/-- Whatever others do, they leave `I` as they found it. -/
def Mild (I : State → Prop) (f : Course State Error) : Prop :=
  ∀ turn ∈ f, ∀ s, I s → I (turn.others s)

theorem mild_alone (I : State → Prop) (faults : Faults Error) : Mild I (alone faults) := by
  intro turn hturn s hs
  obtain ⟨fault, -, rfl⟩ := List.mem_map.mp hturn
  exact hs

theorem Mild.suffix (h : Mild I f) (hg : g <:+ f) : Mild I g :=
  fun turn hturn => h turn (hg.mem hturn)

/-- Wherever the program fails or stops, it leaves `I` as it found it, and an end of the
course. -/
def Stays (I : State → Prop) (m : Trial State Error Stop α) : Prop :=
  ∀ s f, Mild I f → I s → I (m s f).2.1 ∧ (m s f).2.2 <:+ f

section Stays

variable {I : State → Prop}

theorem stays_pure : Stays I (pure a : Trial State Error Stop α) :=
  fun _ _ _ hs => ⟨hs, suffix_rfl⟩

theorem stays_stop : Stays I (stop e : Trial State Error Stop α) :=
  fun _ _ _ hs => ⟨hs, suffix_rfl⟩

/-- The rest of a program only goes on from what a run came to. -/
theorem stays_bind_run (hm : Stays I m)
    (hk : ∀ s f a t g, m s f = (.ok a, t, g) → Stays I (k a)) : Stays I (bind m k) := by
  intro s f hf hs
  have hafter := hm s f hf hs
  rcases hrun : m s f with ⟨_ | a, t, g⟩
  · rw [bind_error hrun]
    rw [hrun] at hafter
    exact hafter
  · rw [bind_ok hrun]
    rw [hrun] at hafter
    have hrest := hk s f a t g hrun t g (hf.suffix hafter.2) hafter.1
    exact ⟨hrest.1, hrest.2.trans hafter.2⟩

theorem stays_bind (hm : Stays I m) (hk : ∀ a, Stays I (k a)) : Stays I (bind m k) :=
  stays_bind_run hm fun _ _ a _ _ _ => hk a

theorem stays_attempt (h : ∀ stage ∈ c.stages, ∀ s, I s → I (stage s)) :
    Stays I (attempt c : Trial State Error Stop (Except Error β)) := by
  intro s f hf hs
  rcases f with _ | ⟨⟨others, _ | fault⟩, f⟩
  · refine ⟨?_, suffix_rfl⟩
    show I (c.whole s)
    rw [c.whole_eq_partway]
    exact c.partway_keeps h _ hs
  · refine ⟨?_, suffix_cons ..⟩
    show I (c.whole (others s))
    rw [c.whole_eq_partway]
    exact c.partway_keeps h _ (hf _ (mem_cons_self ..) s hs)
  · exact ⟨c.partway_keeps h _ (hf _ (mem_cons_self ..) s hs), suffix_cons ..⟩

theorem stays_tries
    (h : ∀ stage ∈ c.stages, ∀ s, I s → I (stage s)) : Stays I (tries onError c) := by
  refine stays_bind (stays_attempt h) ?_
  intro answer
  cases answer with
  | ok b => exact stays_pure
  | error e => exact stays_stop

/-- After a call only what it can answer matters. -/
theorem stays_bind_tries
    {k : β → Trial State Error Stop α} (h : ∀ stage ∈ c.stages, ∀ s, I s → I (stage s))
    (hk : ∀ b s, c.answer s = .ok b → Stays I (k b)) : Stays I (bind (tries onError c) k) :=
  stays_bind_run (stays_tries h) fun _ _ b _ _ hrun => hk b _ (tries_ok_inv hrun).1

theorem mild_tail (h : Mild I f) : Mild I f.tail :=
  fun turn hturn => h turn (mem_of_mem_tail hturn)

theorem mild_arrive (h : Mild I f) (hs : I s) : I (arrive f s) := by
  rcases f with _ | ⟨turn, f⟩
  · exact hs
  · exact h turn (mem_cons_self ..) s hs

theorem stays_ofExcept : Stays I (ofExcept x : Trial State Error Stop α) := by
  cases x with
  | ok a => exact stays_pure
  | error e => exact stays_stop

/-- After a computed result only what it came to matters. -/
theorem stays_bind_ofExcept
    (hk : ∀ a, x = .ok a → Stays I (k a)) : Stays I (bind (ofExcept x) k) := by
  cases x with
  | ok a => exact hk a rfl
  | error e => exact stays_stop

theorem stays_each {xs : List α} {m : α → Trial State Error Stop Unit}
    (h : ∀ x ∈ xs, Stays I (m x)) : Stays I (each xs m) := by
  induction xs with
  | nil => exact stays_pure
  | cons x rest ih =>
    refine stays_bind (h x (mem_cons_self ..)) ?_
    intro _
    exact ih fun other hother => h other (mem_cons_of_mem _ hother)

theorem stays_ending {m : Trial State Error α α} (h : Stays I m) (hs : I s) (hf : Mild I f) :
    I (ending m s f).2 := by
  have hafter := (h s f hf hs).1
  rcases hrun : m s f with ⟨_ | a, t, g⟩
  · rw [ending_error hrun]
    rw [hrun] at hafter
    exact hafter
  · rw [ending_ok hrun]
    rw [hrun] at hafter
    exact hafter

end Stays

/-! ## What a run stops with -/

/-- Whatever stops the program satisfies `P`. -/
def Stops (P : Stop → Prop) (m : Trial State Error Stop α) : Prop :=
  ∀ s f e t g, m s f = (.error e, t, g) → P e

section Stops

variable {P : Stop → Prop}

theorem stops_pure : Stops P (pure a : Trial State Error Stop α) := by
  intro s f e t g h
  cases h

theorem stops_stop (he : P e) : Stops P (stop e : Trial State Error Stop α) := by
  intro s f other t g h
  cases h
  exact he

theorem stops_bind (hm : Stops P m) (hk : ∀ a, Stops P (k a)) : Stops P (bind m k) := by
  intro s f e t g h
  rcases hrun : m s f with ⟨other | a, r, rest⟩
  · rw [bind_error hrun] at h
    cases h
    exact hm s f _ _ _ hrun
  · rw [bind_ok hrun] at h
    exact hk a r rest e t g h

theorem stops_tries (h : ∀ error, P (onError error)) : Stops P (tries onError c) := by
  refine stops_bind ?_ fun answer => ?_
  · intro s f e t g hattempt
    rcases f with _ | ⟨⟨others, _ | fault⟩, f⟩
    all_goals cases hattempt
  · cases answer with
    | ok b => exact stops_pure
    | error error => exact stops_stop (h error)

theorem stops_ofExcept (h : ∀ e, x = .error e → P e) :
    Stops P (ofExcept x : Trial State Error Stop α) := by
  cases x with
  | ok a => exact stops_pure
  | error e => exact stops_stop (h e rfl)

theorem stops_each {xs : List α} {m : α → Trial State Error Stop Unit}
    (h : ∀ x, Stops P (m x)) : Stops P (each xs m) := by
  induction xs with
  | nil => exact stops_pure
  | cons x rest ih => exact stops_bind (h x) fun _ => ih

theorem ending_of_stops {P : α → Prop} {m : Trial State Error α α} (hm : Stops P m)
    (h : ¬ P (ending m s f).1) : ∃ a t g, m s f = (.ok a, t, g) ∧ ending m s f = (a, t) := by
  rcases hrun : m s f with ⟨e | a, t, g⟩
  · rw [ending_error hrun] at h
    exact absurd (hm s f e t g hrun) h
  · exact ⟨a, t, g, rfl, ending_ok hrun⟩

end Stops

section Each

variable {onError : Error → Stop} {c : α → Call State Error Unit} {faults : Faults Error}

/-- No call of the loop fails. -/
theorem each_clear (hanswer : ∀ x s, (c x).answer s = .ok ()) (xs : List α)
    (h : strike xs.length faults = none) :
    each xs (fun x => tries onError (c x)) s (alone faults) =
      (.ok (), xs.foldl (fun t x => (c x).whole t) s, alone (faults.drop xs.length)) := by
  induction xs generalizing s faults with
  | nil => rfl
  | cons x rest ih =>
    rw [length_cons, Nat.add_comm, strike_add_none] at h
    show bind (tries onError (c x)) _ s (alone faults) = _
    rw [bind_ok (tries_ok h.1 (hanswer x s)), ih h.2, drop_drop, length_cons, Nat.add_comm 1]
    rfl

/-- The first failing call of the loop ends it part of the way. -/
theorem each_struck (hanswer : ∀ x s, (c x).answer s = .ok ()) (xs : List α)
    (h : strike xs.length faults = some hit) :
    ∃ x g, xs[hit.1]? = some x ∧ each xs (fun x => tries onError (c x)) s (alone faults) =
        (.error (onError hit.2.error),
          (c x).partway hit.2.stages ((xs.take hit.1).foldl (fun t x => (c x).whole t) s), g) := by
  induction xs generalizing s faults hit with
  | nil => cases h
  | cons x rest ih =>
    rw [length_cons, Nat.add_comm, strike_add] at h
    show ∃ y g, _ ∧ bind (tries onError (c x)) _ s (alone faults) = _
    cases hfirst : strike 1 faults with
    | some first =>
      rw [hfirst, some_or] at h
      obtain rfl := Option.some.inj h
      have hzero : first.1 = 0 := Nat.lt_one_iff.mp (strike_lt hfirst)
      refine ⟨x, alone (faults.drop 1), by rw [hzero]; rfl, ?_⟩
      rw [bind_error (tries_struck hfirst), hzero]
      rfl
    | none =>
      rw [hfirst, none_or] at h
      obtain ⟨later, hlater, rfl⟩ := map_eq_some_iff.mp h
      obtain ⟨y, g, hy, hrun⟩ := ih (s := (c x).whole s) hlater
      refine ⟨y, g, hy, ?_⟩
      rw [bind_ok (tries_ok hfirst (hanswer x s)), hrun]
      rfl

end Each

end Trial

end Trials
