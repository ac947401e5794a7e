import Stado.Library.Interleaving

/-!
# Running alone

The total correctness of a client that runs with no other client stepping and
no call lost: it comes to an end, whatever the environment answers, and its
result and the store it leaves satisfy a postcondition. A program is judged by
its parts, and the judgement is about the machine's own steps
(`System.lone_run`, `System.lone_end`).
-/

namespace CasStore

open Option Call System

variable {Path Content Site Error : Type} {Query : Type → Type} {Op Answer Outcome : Type}
variable {α β : Type}

namespace Program

variable [DecidableEq Path]

/-- Client `i` runs `p` alone from `s` to its end, and then `Q`. -/
def Ends (i : Nat) (p : Program Path Content Site Error Query α)
    (Q : Except Error α → Store Path Content Site → Prop) (s : Store Path Content Site) : Prop :=
  match p with
  | .pure a => Q (.ok a) s
  | .fail e => Q (.error e) s
  | .stop => False
  | .ask _ k => ∀ b, Ends i (k b) Q s
  | .call site c k _ => Ends i (k (c.answer s)) Q (s.apply site i (c.change s))

/-- What ended a program that has no next step. -/
def result : Program Path Content Site Error Query α → Option (Except Error α)
  | .pure a => some (.ok a)
  | .fail e => some (.error e)
  | _ => none

variable {i : Nat} {s : Store Path Content Site}

variable {p : Program Path Content Site Error Query α}
  {Q : Except Error β → Store Path Content Site → Prop}
  {f : α → Program Path Content Site Error Query β}

theorem Ends.mono {Q Q' : Except Error α → Store Path Content Site → Prop} (h : Ends i p Q s)
    (hQ : ∀ r s', Q r s' → Q' r s') : Ends i p Q' s := by
  induction p generalizing s with
  | pure a => exact hQ _ s h
  | fail e => exact hQ _ s h
  | stop => exact h
  | ask q k ih => exact fun b => ih b (h b)
  | call site c k lost ih ihl => exact ih _ h

theorem ends_bind (h : Ends i p (fun r s' => match r with
      | .ok a => Ends i (f a) Q s'
      | .error e => Q (.error e) s') s) : Ends i (p.bind f) Q s := by
  induction p generalizing s with
  | pure a => exact h
  | fail e => exact h
  | stop => exact h
  | ask q k ih => exact fun b => ih b (h b)
  | call site c k lost ih ihl => exact ih _ h

/-- A part that succeeds, then the rest from what the part left. -/
theorem Ends.bind {P : α → Store Path Content Site → Prop}
    (h : Ends i p (fun r s' => ∃ a, r = .ok a ∧ P a s') s) (hf : ∀ a s', P a s' → Ends i (f a) Q s') :
    Ends i (p.bind f) Q s := by
  refine ends_bind (h.mono fun r s' hr => ?_)
  obtain ⟨a, rfl, ha⟩ := hr
  exact hf a s' ha

theorem Ends.attempt {Q : Except Error α → Store Path Content Site → Prop} (h : Ends i p Q s) :
    Ends i p.attempt (fun r s' => ∃ a, r = .ok a ∧ Q a s') s := by
  induction p generalizing s with
  | pure a => exact ⟨_, rfl, h⟩
  | fail e => exact ⟨_, rfl, h⟩
  | stop => exact h
  | ask q k ih => exact fun b => ih b (h b)
  | call site c k lost ih ihl => exact ih _ h

section Calls

variable {p : Path} {content : Content} {site : Site} {v : Nat}
  {Q : Except Error α → Store Path Content Site → Prop}
  {k : Bool → Program Path Content Site Error Query α} {found : Option (Content × Nat)}
  {old : Content}

theorem ends_read {k : Option (Content × Nat) → Program Path Content Site Error Query α}
    (hget : s.get p = found) (h : Ends i (k found) Q s) :
    Ends i ((perform site (.read p)).bind k) Q s := by
  subst hget
  exact h

theorem ends_exist
    (h : Ends i (k (s.get p).isSome) Q s) : Ends i ((perform site (.exist p)).bind k) Q s := h

theorem ends_create (hget : s.get p = none)
    (h : Ends i (k true) Q (⟨p, some content, site, i⟩ :: s)) :
    Ends i ((perform site (.create p content)).bind k) Q s := by
  have hanswer : (create p content).answer s = true := by simp [answer, hget]
  have hchange : (create p content).change s = some (p, some content) := by
    simp [change, hget]
  show Ends i (k ((create p content).answer s)) Q
    (s.apply site i ((create p content).change s))
  rw [hanswer, hchange]
  exact h

/-- A create over an object that is there writes nothing. -/
theorem ends_create_of_some {found : Content × Nat} (hget : s.get p = some found)
    (h : Ends i (k false) Q s) : Ends i ((perform site (.create p content)).bind k) Q s := by
  have hanswer : (create p content).answer s = false := by simp [answer, hget]
  show Ends i (k ((create p content).answer s)) Q
    (s.apply site i ((create p content).change s))
  rw [change_create_of_false hanswer, hanswer]
  exact h

/-- No other client stepped, so a swap over the version just read is stored. -/
theorem ends_swap {k : Swap → Program Path Content Site Error Query α}
    (hget : s.get p = some (old, v))
    (h : Ends i (k (.stored s.length)) Q (⟨p, some content, site, i⟩ :: s)) :
    Ends i ((perform site (.swap p v content)).bind k) Q s := by
  have hanswer : (swap p v content).answer s = .stored s.length := by
    simp [answer, hget]
  have hchange : (swap p v content).change s = some (p, some content) := by
    simp [change, hget]
  show Ends i (k ((swap p v content).answer s)) Q
    (s.apply site i ((swap p v content).change s))
  rw [hanswer, hchange]
  exact h

end Calls

/-! ## In an environment that answers as it is assumed to -/

/-- Client `i` runs `p` alone from `s` to its end, and then `Q`, when the
environment gives only answers that `good` accepts. -/
def EndsGiven (good : {β : Type} → Query β → β → Prop) (i : Nat)
    (p : Program Path Content Site Error Query α)
    (Q : Except Error α → Store Path Content Site → Prop) (s : Store Path Content Site) : Prop :=
  match p with
  | .pure a => Q (.ok a) s
  | .fail e => Q (.error e) s
  | .stop => False
  | .ask q k => ∀ b, good q b → EndsGiven good i (k b) Q s
  | .call site c k _ => EndsGiven good i (k (c.answer s)) Q (s.apply site i (c.change s))

section Given

variable {good : {β : Type} → Query β → β → Prop}

variable {p : Program Path Content Site Error Query α}

theorem EndsGiven.mono {Q Q' : Except Error α → Store Path Content Site → Prop}
    (h : EndsGiven good i p Q s) (hQ : ∀ r s', Q r s' → Q' r s') : EndsGiven good i p Q' s := by
  induction p generalizing s with
  | pure a => exact hQ _ s h
  | fail e => exact hQ _ s h
  | stop => exact h
  | ask q k ih => exact fun b hb => ih b (h b hb)
  | call site c k lost ih ihl => exact ih _ h

theorem endsGiven_bind (h : EndsGiven good i p (fun r s' => match r with
      | .ok a => EndsGiven good i (f a) Q s'
      | .error e => Q (.error e) s') s) : EndsGiven good i (p.bind f) Q s := by
  induction p generalizing s with
  | pure a => exact h
  | fail e => exact h
  | stop => exact h
  | ask q k ih => exact fun b hb => ih b (h b hb)
  | call site c k lost ih ihl => exact ih _ h

theorem EndsGiven.attempt
    {Q : Except Error α → Store Path Content Site → Prop} (h : EndsGiven good i p Q s) :
    EndsGiven good i p.attempt (fun r s' => ∃ a, r = .ok a ∧ Q a s') s := by
  induction p generalizing s with
  | pure a => exact ⟨_, rfl, h⟩
  | fail e => exact ⟨_, rfl, h⟩
  | stop => exact h
  | ask q k ih => exact fun b hb => ih b (h b hb)
  | call site c k lost ih ihl => exact ih _ h

variable {p : Path} {content : Content} {site : Site} {v : Nat}
  {Q : Except Error α → Store Path Content Site → Prop}

theorem endsGiven_read {k : Option (Content × Nat) → Program Path Content Site Error Query α}
    (hget : s.get p = found) (h : EndsGiven good i (k found) Q s) :
    EndsGiven good i ((perform site (.read p)).bind k) Q s := by
  subst hget
  exact h

theorem endsGiven_create (hget : s.get p = none)
    (h : EndsGiven good i (k true) Q (⟨p, some content, site, i⟩ :: s)) :
    EndsGiven good i ((perform site (.create p content)).bind k) Q s := by
  have hanswer : (create p content).answer s = true := by simp [answer, hget]
  have hchange : (create p content).change s = some (p, some content) := by
    simp [change, hget]
  show EndsGiven good i (k ((create p content).answer s)) Q
    (s.apply site i ((create p content).change s))
  rw [hanswer, hchange]
  exact h

theorem endsGiven_swap {k : Swap → Program Path Content Site Error Query α}
    (hget : s.get p = some (old, v))
    (h : EndsGiven good i (k (.stored s.length)) Q (⟨p, some content, site, i⟩ :: s)) :
    EndsGiven good i ((perform site (.swap p v content)).bind k) Q s := by
  have hanswer : (swap p v content).answer s = .stored s.length := by
    simp [answer, hget]
  have hchange : (swap p v content).change s = some (p, some content) := by
    simp [change, hget]
  show EndsGiven good i (k ((swap p v content).answer s)) Q
    (s.apply site i ((swap p v content).change s))
  rw [hanswer, hchange]
  exact h

end Given

end Program

namespace System

variable [DecidableEq Path] {M : Machine Path Content Site Error Query Op Answer Outcome}
  {s s' : System Path Content Site Error Query Op Outcome} {i : Nat}
  {Q : Except Error Outcome → Store Path Content Site → Prop}

/-- Only client `i` steps, and none of its calls is lost. -/
def lone (i : Nat) (_ : System Path Content Site Error Query Op Outcome) :
    Event Op Answer → Prop
  | .call j => j = i
  | .answer j _ => j = i
  | _ => False

instance (i : Nat) (s : System Path Content Site Error Query Op Outcome) (ev : Event Op Answer) :
    Decidable (lone i s ev) := by
  cases ev <;> unfold lone <;> infer_instance

/-- Client `i` of the system is at a program that ends with `Q` when it runs
alone. -/
def EndsAlone (s : System Path Content Site Error Query Op Outcome) (i : Nat)
    (Q : Except Error Outcome → Store Path Content Site → Prop) : Prop :=
  ∃ t, s.tasks[i]? = some t ∧ t.program.Ends i Q s.store

theorem EndsAlone.advance {ev : Event Op Answer} (h : s.EndsAlone i Q) (hev : lone i s ev)
    (hstep : s.advance M ev = some s') : s'.EndsAlone i Q := by
  obtain ⟨t, ht, hends⟩ := h
  have hi : i < s.tasks.length := (List.getElem?_eq_some_iff.mp ht).1
  cases ev with
  | call j =>
    obtain rfl : j = i := hev
    simp only [advance, ht, bind_some, map_eq_some_iff] at hstep
    obtain ⟨⟨store, program⟩, hr, rfl⟩ := hstep
    refine ⟨⟨t.op, program⟩, by simp [update, hi], ?_⟩
    revert hends hr
    cases t.program with
    | call site c k lost =>
      rintro hends hr
      simp only [Program.stepCall, Option.some.injEq, Prod.mk.injEq] at hr
      obtain ⟨rfl, rfl⟩ := hr
      exact hends
    | _ => intro _ hr; cases hr
  | answer j a =>
    obtain rfl : j = i := hev
    simp only [advance, ht, bind_some, map_eq_some_iff] at hstep
    obtain ⟨program, hr, rfl⟩ := hstep
    refine ⟨⟨t.op, program⟩, by simp [update, hi], ?_⟩
    revert hends hr
    cases t.program with
    | ask q k =>
      rintro hends hr
      simp only [Program.stepAnswer, map_eq_some_iff] at hr
      obtain ⟨b, -, rfl⟩ := hr
      exact hends b
    | _ => intro _ hr; cases hr
  | _ => exact hev.elim

/-- **A lone run keeps its end in sight**: wherever it has come to, the client
still ends with `Q`, and where it has ended it ended with `Q`. -/
theorem lone_run (h : s.EndsAlone i Q) (hrun : Reaches M (lone i) s s') :
    s'.EndsAlone i Q ∧ ∀ t r, s'.tasks[i]? = some t → t.program.result = some r → Q r s'.store := by
  have hends : s'.EndsAlone i Q := by
    induction hrun with
    | refl => exact h
    | step _ hev hstep ih => exact ih.advance hev hstep
  refine ⟨hends, fun t r ht hr => ?_⟩
  obtain ⟨t', ht', hends'⟩ := hends
  rw [ht] at ht'
  cases ht'
  revert hr hends'
  cases t.program with
  | pure a => rintro ⟨⟩ hends'; exact hends'
  | fail e => rintro ⟨⟩ hends'; exact hends'
  | _ => intro hr; cases hr

theorem lone_end (answers : ∀ {β : Type} (q : Query β), ∃ a b, M.accept q a = some b)
    (h : s.EndsAlone i Q) : ∃ s' t r, Reaches M (lone i) s s' ∧ s'.tasks[i]? = some t ∧
      t.program.result = some r ∧ Q r s'.store := by
  obtain ⟨⟨op, program⟩, ht, hends⟩ := h
  have hi : i < s.tasks.length := (List.getElem?_eq_some_iff.mp ht).1
  induction program generalizing s with
  | pure a => exact ⟨s, _, _, .refl, ht, rfl, hends⟩
  | fail e => exact ⟨s, _, _, .refl, ht, rfl, hends⟩
  | stop => exact hends.elim
  | ask q k ih =>
    obtain ⟨a, b, hab⟩ := answers q
    have hstep : s.advance M (.answer i a)
        = some (s.update i ⟨op, .ask q k⟩ s.store (k b)) := by
      simp [advance, ht, Program.stepAnswer, hab]
    obtain ⟨s', t, r, hrun, hrest⟩ := ih b (s := s.update i ⟨op, .ask q k⟩ s.store (k b))
      (by simp [update, hi]) (hends b) (by simpa [update] using hi)
    exact ⟨s', t, r, (Reaches.refl.step (show lone i s (.answer i a) from rfl) hstep).trans hrun,
      hrest⟩
  | call site c k lost ih ihl =>
    have hstep : s.advance M (.call i) = some (s.update i ⟨op, .call site c k lost⟩
        (s.store.apply site i (c.change s.store)) (k (c.answer s.store))) := by
      simp [advance, ht, Program.stepCall]
    obtain ⟨s', t, r, hrun, hrest⟩ := ih (c.answer s.store)
      (s := s.update i ⟨op, .call site c k lost⟩ (s.store.apply site i (c.change s.store))
        (k (c.answer s.store)))
      (by simp [update, hi]) hends (by simpa [update] using hi)
    exact ⟨s', t, r, (Reaches.refl.step (show lone i s (.call i) from rfl) hstep).trans hrun, hrest⟩

end System

end CasStore
