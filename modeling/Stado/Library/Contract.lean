import Stado.Library.Interleaving

/-!
# Contracts of clients

`Rules` say which writes a protocol allows, each judged by the writes that came
before it, and under which condition a client takes a step. A store all of
whose writes were allowed is a `History`. A program meets the rules when each
of its writes is allowed whatever the other clients did before it
(`Program.Meets`); then every store a system of such programs reaches is a
history (`System.Sound.reaches`), and an invariant of the protocol is proved
by induction over histories, with no program in sight.
-/

namespace CasStore

open List Option Store Call Program

/-- What a protocol allows: `allowed s e` that `e` is written to `s`, and
`cond s i site change` that client `i` takes the step `site`. -/
structure Rules (Path Content Site : Type) where
  allowed : Store Path Content Site → Entry Path Content Site → Prop
  cond : Store Path Content Site → Nat → Site → Option (Change Path Content) → Prop

variable {Path Content Site Error : Type} {Query : Type → Type} {Op Answer Outcome : Type}
variable {α β γ : Type}

/-- A store all of whose writes the rules allow. -/
inductive History (R : Rules Path Content Site) : Store Path Content Site → Prop where
  | nil : History R []
  | cons {s : Store Path Content Site} {e : Entry Path Content Site} (older : History R s)
      (allowed : R.allowed s e) (cond : R.cond s e.author e.site (some (e.path, e.content))) :
      History R (e :: s)

namespace History

variable {R : Rules Path Content Site} {s s' : Store Path Content Site}
  {e : Entry Path Content Site} {i : Nat} {P : Store Path Content Site → Prop}

theorem tail (h : History R (e :: s)) : History R s := by
  cases h with
  | cons older _ _ => exact older

theorem allowed (h : History R (e :: s)) : R.allowed s e := by
  cases h with
  | cons _ allowed _ => exact allowed

theorem cond (h : History R (e :: s)) : R.cond s e.author e.site (some (e.path, e.content)) := by
  cases h with
  | cons _ _ cond => exact cond

theorem of_suffix (hs : s'.PastOf s) (h : History R s) : History R s' := by
  induction h with
  | nil =>
    rw [suffix_nil.mp hs]
    exact .nil
  | @cons s e older allowed cond ih =>
    rcases suffix_cons_iff.mp hs with rfl | hs
    · exact .cons older allowed cond
    · exact ih hs

theorem held {v : Nat} (h : History R s) (he : s.Held v e) :
    ∃ older : Store Path Content Site, PastOf (e :: older) s ∧ older.length = v ∧
      R.allowed older e ∧
      R.cond older e.author e.site (some (e.path, e.content)) := by
  obtain ⟨older, hsuf, hlen⟩ := he.split
  have hist := h.of_suffix hsuf
  exact ⟨older, hsuf, hlen, hist.allowed, hist.cond⟩

theorem mono {R' : Rules Path Content Site} (h : History R s)
    (hallowed : ∀ s e, R.allowed s e → R'.allowed s e)
    (hcond : ∀ s i site change, R.cond s i site change → R'.cond s i site change) :
    History R' s := by
  induction h with
  | nil => exact .nil
  | cons _ allowed cond ih => exact .cons ih (hallowed _ _ allowed) (hcond _ _ _ _ cond)

/-- A fact about writes that follows from the same fact about the writes before
holds of every write of a history. -/
theorem forall_held {P : Entry Path Content Site → Prop} (h : History R s)
    (step : ∀ (older : Store Path Content Site) (e : Entry Path Content Site),
      PastOf (e :: older) s → History R (e :: older) →
      (∀ v f, older.Held v f → P f) → P e) : ∀ v e, s.Held v e → P e := by
  suffices hall : ∀ l : Store Path Content Site, l.PastOf s → ∀ v e, l.Held v e → P e from
    hall s (suffix_refl _)
  intro l
  induction l with
  | nil => exact fun _ v e he => absurd he not_held_nil
  | cons f older ih =>
    intro hl v e he
    have hold := ih ((suffix_cons _ _).trans hl)
    rcases held_cons.mp he with ⟨-, rfl⟩ | he
    · exact step older _ hl (h.of_suffix hl) hold
    · exact hold v e he

/-- A fact about stores that every allowed write keeps is kept from any point
of a history on. -/
theorem stable (h : History R s) (hs : s'.PastOf s) (h0 : P s')
    (step : ∀ (l : Store Path Content Site) (e : Entry Path Content Site), s'.PastOf l →
      History R (e :: l) → P l → P (e :: l)) : P s := by
  induction h with
  | nil =>
    rw [suffix_nil.mp hs] at h0
    exact h0
  | @cons l e older allowed cond ih =>
    rcases suffix_cons_iff.mp hs with rfl | hs
    · exact h0
    · exact step l e hs (.cons older allowed cond) (ih hs)

/-- A fact about stores that the writes of the other clients keep holds while
client `i` is idle. -/
theorem idle_stable (h : History R s) (hs : s'.Idle i s)
    (h0 : P s') (step : ∀ (l : Store Path Content Site) (e : Entry Path Content Site),
      History R (e :: l) → e.author ≠ i → P l → P (e :: l)) : P s := by
  obtain ⟨past, others⟩ := hs
  induction h with
  | nil =>
    rw [suffix_nil.mp past] at h0
    exact h0
  | @cons l e older allowed cond ih =>
    rcases suffix_cons_iff.mp past with rfl | past
    · exact h0
    · have hauthor := others l.length e (held_cons_self e l) (List.IsSuffix.length_le past)
      exact step l e (.cons older allowed cond) hauthor
        (ih past fun v f hf => others v f (hf.mono (suffix_cons _ _)))

end History

namespace Program

variable [DecidableEq Path]

/-- From a store `s` in its past, every write of `p` by client `i` is allowed
and a result of `p` satisfies `Q` in the store it returns in. Other clients may
write between any two steps; the step's own condition may be used. -/
def Meets (R : Rules Path Content Site) (i : Nat)
    (p : Program Path Content Site Error Query α)
    (Q : α → Store Path Content Site → Prop) (s : Store Path Content Site) : Prop :=
  match p with
  | .pure a => Q a s
  | .fail _ => True
  | .stop => True
  | .ask _ k => ∀ s', s.Idle i s' → History R s' → ∀ b, Meets R i (k b) Q s'
  | .call site c k lost => ∀ s', s.Idle i s' → History R s' → (∀ err, Meets R i (lost err) Q s') ∧
        (R.cond s' i site (c.change s') →
          (∀ p content, c.change s' = some (p, content) → R.allowed s' ⟨p, content, site, i⟩) ∧
            (History R (s'.apply site i (c.change s')) →
              Meets R i (k (c.answer s')) Q (s'.apply site i (c.change s')) ∧
                ∀ err, Meets R i (lost err) Q (s'.apply site i (c.change s'))))

variable {R : Rules Path Content Site} {i : Nat} {s : Store Path Content Site}
  {p : Program Path Content Site Error Query α} {Q : β → Store Path Content Site → Prop}
  {c : Call Path Content β} {site : Site} {f : α → Program Path Content Site Error Query β}

/-! ## Rules of the calculus -/

theorem meets_pure {a : α} {Q : α → Store Path Content Site → Prop} (h : Q a s) :
    Meets R i (.pure a : Program Path Content Site Error Query α) Q s := h

/-- A contract weakens: what is allowed of the result is what is needed. -/
theorem Meets.mono {Q Q' : α → Store Path Content Site → Prop} (h : Meets R i p Q s)
    (hist : History R s) (hQ : ∀ a s', s.PastOf s' → History R s' → Q a s' → Q' a s') :
    Meets R i p Q' s := by
  induction p generalizing s with
  | pure a => exact hQ a s (suffix_refl _) hist h
  | fail e => trivial
  | stop => trivial
  | ask q k ih =>
    intro s' hs hist' b
    exact ih b (h s' hs hist' b) hist' fun a s'' hs' => hQ a s'' (hs.past.trans hs')
  | call site c k lost ih ihl =>
    intro s' hs hist'
    obtain ⟨hlost, hcall⟩ := h s' hs hist'
    refine ⟨fun err => ihl err (hlost err) hist' fun a s'' hs' => hQ a s'' (hs.past.trans hs'), ?_⟩
    intro hc
    obtain ⟨hallowed, hafter⟩ := hcall hc
    refine ⟨hallowed, fun hist'' => ?_⟩
    have hsuf := hs.past.trans (s'.suffix_apply site i (c.change s'))
    obtain ⟨hk, hl⟩ := hafter hist''
    exact ⟨ih _ hk hist'' fun a s'' hs' => hQ a s'' (hsuf.trans hs'),
      fun err => ihl err (hl err) hist'' fun a s'' hs' => hQ a s'' (hsuf.trans hs')⟩

theorem Meets.weaken {Q Q' : α → Store Path Content Site → Prop} (h : Meets R i p Q s)
    (hQ : ∀ a s', Q a s' → Q' a s') : Meets R i p Q' s := by
  induction p generalizing s with
  | pure a => exact hQ a s h
  | fail e => trivial
  | stop => trivial
  | ask q k ih => exact fun s' hs hist b => ih b (h s' hs hist b)
  | call site c k lost ih ihl =>
    intro s' hs hist
    obtain ⟨hlost, hcall⟩ := h s' hs hist
    refine ⟨fun err => ihl err (hlost err), fun hc => ?_⟩
    obtain ⟨hallowed, hafter⟩ := hcall hc
    refine ⟨hallowed, fun hist' => ?_⟩
    obtain ⟨hk, hl⟩ := hafter hist'
    exact ⟨ih _ hk, fun err => ihl err (hl err)⟩

theorem meets_bind
    (h : Meets R i p (fun a s' => Meets R i (f a) Q s') s) : Meets R i (p.bind f) Q s := by
  induction p generalizing s with
  | pure a => exact h
  | fail e => trivial
  | stop => trivial
  | ask q k ih => exact fun s' hs hist b => ih b (h s' hs hist b)
  | call site c k lost ih ihl =>
    intro s' hs hist
    obtain ⟨hlost, hcall⟩ := h s' hs hist
    refine ⟨fun err => ihl err (hlost err), fun hc => ?_⟩
    obtain ⟨hallowed, hafter⟩ := hcall hc
    refine ⟨hallowed, fun hist' => ?_⟩
    obtain ⟨hk, hl⟩ := hafter hist'
    exact ⟨ih _ hk, fun err => ihl err (hl err)⟩

/-- Sequencing: what the first part returns is judged in a later history. -/
theorem meets_then {Q : α → Store Path Content Site → Prop}
    {Q' : β → Store Path Content Site → Prop} (hist : History R s) (hp : Meets R i p Q s)
    (hf : ∀ a s', s.PastOf s' → History R s' → Q a s' → Meets R i (f a) Q' s') :
    Meets R i (p.bind f) Q' s :=
  meets_bind (hp.mono hist hf)

/-- **Frame.** Between its start and its result a client writes at the sites of
its program only. -/
theorem Meets.frame {S : Site → Prop} {Q : α → Store Path Content Site → Prop} (h : Meets R i p Q s)
    (hp : p.Sites S) : Meets R i p (fun a s' => Q a s' ∧ s.WroteAt i S s') s := by
  suffices key : ∀ s0, s.WroteAt i S s0 → Meets R i p Q s0 →
      Meets R i p (fun a s' => Q a s' ∧ s.WroteAt i S s') s0 from
    key s (fun v e he hge => absurd he.lt (Nat.not_lt.mpr hge)) h
  clear h
  induction p with
  | pure a => exact fun s0 h0 h => ⟨h, h0⟩
  | fail e => exact fun _ _ _ => trivial
  | stop => exact fun _ _ _ => trivial
  | ask q k ih =>
    exact fun s0 h0 h s' hs hist b => ih b (hp b) s' (h0.of_idle hs) (h s' hs hist b)
  | call site c k lost ih ihl =>
    intro s0 h0 h s' hs hist
    obtain ⟨hlost, hcall⟩ := h s' hs hist
    have h1 := h0.of_idle hs
    refine ⟨fun err => ihl err (hp.2.2 err) s' h1 (hlost err), fun hc => ?_⟩
    obtain ⟨hallowed, hafter⟩ := hcall hc
    refine ⟨hallowed, fun hist' => ?_⟩
    obtain ⟨hk, hl⟩ := hafter hist'
    have h2 := h1.apply hp.1 (c.change s')
    exact ⟨ih _ (hp.2.1 _) _ h2 hk, fun err => ihl err (hp.2.2 err) _ h2 (hl err)⟩

/-- A program whose failure is kept: its result is judged as before, a failure
by what holds of any later store. -/
theorem meets_attempt {Q : Except Error α → Store Path Content Site → Prop}
    (h : Meets R i p (fun a s' => Q (.ok a) s') s) (hist : History R s)
    (hfail : ∀ e s', s.PastOf s' → History R s' → Q (.error e) s') : Meets R i p.attempt Q s := by
  induction p generalizing s with
  | pure a => exact h
  | fail e => exact hfail e s (suffix_refl _) hist
  | stop => trivial
  | ask q k ih =>
    exact fun s' hs hist' b =>
      ih b (h s' hs hist' b) hist' fun e s'' hs' => hfail e s'' (hs.past.trans hs')
  | call site c k lost ih ihl =>
    intro s' hs hist'
    obtain ⟨hlost, hcall⟩ := h s' hs hist'
    refine ⟨fun err => ihl err (hlost err) hist' fun e s'' hs' => hfail e s'' (hs.past.trans hs'),
      fun hc => ?_⟩
    obtain ⟨hallowed, hafter⟩ := hcall hc
    refine ⟨hallowed, fun hist'' => ?_⟩
    have hsuf := hs.past.trans (s'.suffix_apply site i (c.change s'))
    obtain ⟨hk, hl⟩ := hafter hist''
    exact ⟨ih _ hk hist'' fun e s'' hs' => hfail e s'' (hsuf.trans hs'),
      fun err => ihl err (hl err) hist'' fun e s'' hs' => hfail e s'' (hsuf.trans hs')⟩

/-- A loop over a list keeps an invariant of its value and the store. -/
theorem meets_foldList {f : β → γ → Program Path Content Site Error Query β} {xs : List γ}
    {b : β} {I : β → Store Path Content Site → Prop}
    (hI : I b s) (hf : ∀ x ∈ xs, ∀ b' s', s.PastOf s' → I b' s' → Meets R i (f b' x)
      (fun b'' s'' => s.PastOf s'' ∧ I b'' s'') s')
    (hQ : ∀ b' s', s.PastOf s' → I b' s' → Q b' s') : Meets R i (foldList f b xs) Q s := by
  suffices h : ∀ b' s', s.PastOf s' → I b' s' → Meets R i (foldList f b' xs) Q s' from
    h b s (suffix_refl _) hI
  induction xs with
  | nil => exact hQ
  | cons x xs ih =>
    intro b' s' hs' hI'
    refine meets_bind ?_
    have hrest := ih fun y hy => hf y (mem_cons_of_mem _ hy)
    exact (hf x mem_cons_self b' s' hs' hI').weaken fun b'' s'' h => hrest b'' s'' h.1 h.2

theorem meets_query {q : Query β} (h : ∀ s', s.PastOf s' → History R s' → ∀ b, Q b s') :
    Meets R i (query q : Program Path Content Site Error Query β) Q s :=
  fun s' hs => h s' hs.past

/-- One call: its write must be allowed, and its answer is judged in the store
after it. -/
theorem meets_perform (h : ∀ s', s.PastOf s' → History R s' → R.cond s' i site (c.change s') →
      (∀ p content, c.change s' = some (p, content) → R.allowed s' ⟨p, content, site, i⟩) ∧
        (History R (s'.apply site i (c.change s')) →
          Q (c.answer s') (s'.apply site i (c.change s')))) :
    Meets R i (perform site c : Program Path Content Site Error Query β) Q s := by
  intro s' hs hist
  refine ⟨fun _ => trivial, fun hc => ?_⟩
  obtain ⟨hallowed, hafter⟩ := h s' hs.past hist hc
  exact ⟨hallowed, fun hist' => ⟨hafter hist', fun _ => trivial⟩⟩

theorem Meets.saw (h : Meets R i (perform site c : Program Path Content Site Error Query β) Q s) :
    Meets R i (perform site c : Program Path Content Site Error Query β)
      (fun a s' => Q a s' ∧ ∃ s1, s.Idle i s1 ∧ a = c.answer s1 ∧
        s' = s1.apply site i (c.change s1)) s := by
  intro s' hs hist
  refine ⟨fun _ => trivial, fun hc => ?_⟩
  obtain ⟨hallowed, hafter⟩ := (h s' hs hist).2 hc
  exact ⟨hallowed, fun hist' => ⟨⟨(hafter hist').1, s', hs, rfl, rfl⟩, fun _ => trivial⟩⟩

section Calls

variable {p : Path} {content : Content} {site : Site} {Q : Unit → Store Path Content Site → Prop}

theorem meets_read {Q : Option (Content × Nat) → Store Path Content Site → Prop}
    (h : ∀ s', s.PastOf s' → History R s' → R.cond s' i site none → Q (s'.get p) s') :
    Meets R i (perform site (.read p) : Program Path Content Site Error Query _) Q s :=
  meets_perform fun s' hs hist hc => ⟨(fun _ _ hnone => by cases hnone), fun _ => h s' hs hist hc⟩

theorem meets_exist {Q : Bool → Store Path Content Site → Prop}
    (h : ∀ s', s.PastOf s' → History R s' → R.cond s' i site none → Q (s'.get p).isSome s') :
    Meets R i (perform site (.exist p) : Program Path Content Site Error Query _) Q s :=
  meets_perform fun s' hs hist hc => ⟨(fun _ _ hnone => by cases hnone), fun _ => h s' hs hist hc⟩

theorem meets_list {among : Path → Bool} {Q : List Path → Store Path Content Site → Prop}
    (h : ∀ s', s.PastOf s' → History R s' → Q ((list among : Call Path Content _).answer s') s') :
    Meets R i (perform site (.list among) : Program Path Content Site Error Query _) Q s :=
  meets_perform fun s' hs hist _ => ⟨(fun _ _ hnone => by cases hnone), fun _ => h s' hs hist⟩

theorem meets_touch (h : ∀ s', s.PastOf s' → History R s' → Q () s') :
    Meets R i (perform site (.touch p) : Program Path Content Site Error Query _) Q s :=
  meets_perform fun s' hs hist _ => ⟨(fun _ _ hnone => by cases hnone), fun _ => h s' hs hist⟩

theorem meets_create {Q : Bool → Store Path Content Site → Prop}
    (hallowed : ∀ s', s.PastOf s' → History R s' → s'.get p = none →
      R.cond s' i site (some (p, some content)) → R.allowed s' ⟨p, some content, site, i⟩)
    (hnew : ∀ s', s.PastOf s' → s'.get p = none → History R (⟨p, some content, site, i⟩ :: s') →
      Q true (⟨p, some content, site, i⟩ :: s'))
    (hold : ∀ s', s.PastOf s' → History R s' → (s'.get p).isSome → Q false s') :
    Meets R i (perform site (.create p content) : Program Path Content Site Error Query _) Q s := by
  refine meets_perform fun s' hs hist hc => ?_
  cases hget : s'.get p with
  | none =>
    simp only [change, answer, hget, isNone_none, if_true, Option.some.injEq,
      Prod.mk.injEq, apply_some] at hc ⊢
    refine ⟨?_, hnew s' hs hget⟩
    rintro _ _ ⟨rfl, rfl⟩
    exact hallowed s' hs hist hget hc
  | some found =>
    simp only [change, answer, hget, isNone_some, Bool.false_eq_true, if_false, apply_none] at hc ⊢
    exact ⟨(fun _ _ hnone => by cases hnone), fun _ => hold s' hs hist (by simp [hget])⟩

theorem meets_swap {expected : Nat} {Q : Swap → Store Path Content Site → Prop}
    (hallowed : ∀ s' old, s.PastOf s' → History R s' → s'.get p = some (old, expected) →
      R.cond s' i site (some (p, some content)) → R.allowed s' ⟨p, some content, site, i⟩)
    (hstored : ∀ s' old, s.PastOf s' → s'.get p = some (old, expected) →
      History R (⟨p, some content, site, i⟩ :: s') →
      Q (.stored s'.length) (⟨p, some content, site, i⟩ :: s'))
    (hconflict : ∀ s' old v, s.PastOf s' → History R s' → s'.get p = some (old, v) →
      v ≠ expected → R.cond s' i site none → Q .conflict s')
    (hnotFound : ∀ s', s.PastOf s' → History R s' → s'.get p = none →
      R.cond s' i site none → Q .notFound s') :
    Meets R i (perform site (.swap p expected content) : Program Path Content Site Error Query _)
      Q s := by
  refine meets_perform fun s' hs hist hc => ?_
  cases hget : s'.get p with
  | none =>
    simp only [change, answer, hget, map_none, reduceCtorEq, if_false, apply_none] at hc ⊢
    exact ⟨(fun _ _ hnone => by cases hnone), fun _ => hnotFound s' hs hist hget hc⟩
  | some found =>
    obtain ⟨old, v⟩ := found
    by_cases hv : v = expected
    · subst hv
      simp only [change, answer, hget, map_some, if_true, Option.some.injEq,
        Prod.mk.injEq, apply_some] at hc ⊢
      refine ⟨?_, hstored s' old hs hget⟩
      rintro _ _ ⟨rfl, rfl⟩
      exact hallowed s' old hs hist hget hc
    · simp only [change, answer, hget, map_some, Option.some.injEq, hv, if_false,
        apply_none] at hc ⊢
      exact ⟨(fun _ _ hnone => by cases hnone), fun _ => hconflict s' old v hs hist hget hv hc⟩

theorem meets_put (hallowed : ∀ s', s.PastOf s' → History R s' →
      R.cond s' i site (some (p, some content)) → R.allowed s' ⟨p, some content, site, i⟩)
    (h : ∀ s', s.PastOf s' → History R (⟨p, some content, site, i⟩ :: s') →
      Q () (⟨p, some content, site, i⟩ :: s')) :
    Meets R i (perform site (.put p content) : Program Path Content Site Error Query _) Q s := by
  refine meets_perform fun s' hs hist hc => ⟨?_, h s' hs⟩
  simp only [change, Option.some.injEq, Prod.mk.injEq] at hc ⊢
  rintro _ _ ⟨rfl, rfl⟩
  exact hallowed s' hs hist hc

theorem meets_delete (hallowed : ∀ s', s.PastOf s' → History R s' → (s'.get p).isSome →
      R.cond s' i site (some (p, none)) → R.allowed s' ⟨p, none, site, i⟩)
    (hgone : ∀ s', s.PastOf s' → (s'.get p).isSome → History R (⟨p, none, site, i⟩ :: s') →
      Q () (⟨p, none, site, i⟩ :: s'))
    (habsent : ∀ s', s.PastOf s' → History R s' → s'.get p = none → Q () s') :
    Meets R i (perform site (.delete p) : Program Path Content Site Error Query _) Q s := by
  refine meets_perform fun s' hs hist hc => ?_
  cases hget : s'.get p with
  | none =>
    simp only [change, hget, isSome_none, Bool.false_eq_true, if_false, apply_none] at hc ⊢
    exact ⟨(fun _ _ hnone => by cases hnone), fun _ => habsent s' hs hist hget⟩
  | some found =>
    simp only [change, hget, isSome_some, if_true, Option.some.injEq,
      Prod.mk.injEq, apply_some] at hc ⊢
    refine ⟨?_, hgone s' hs (by simp [hget])⟩
    rintro _ _ ⟨rfl, rfl⟩
    exact hallowed s' hs hist (by simp [hget]) hc

end Calls

end Program

/-! ## Systems of clients that meet the rules -/

namespace System

variable [DecidableEq Path]

/-- The condition of the rules holds of the step `ev` in the state before it. -/
def Respects (R : Rules Path Content Site)
    (s : System Path Content Site Error Query Op Outcome) : Event Op Answer → Prop
  | .call i | .lose i true =>
    ∀ site change, s.pending i = some (site, change) → R.cond s.store i site change
  | _ => True

instance (R : Rules Path Content Site)
    [∀ s i site change, Decidable (R.cond s i site change)]
    (s : System Path Content Site Error Query Op Outcome) (ev : Event Op Answer) :
    Decidable (s.Respects R ev) :=
  have next (i : Nat) : Decidable (∀ site change, s.pending i = some (site, change) →
      R.cond s.store i site change) :=
    match h : s.pending i with
    | none => isTrue fun _ _ hsome => by cases hsome
    | some (site, change) =>
      decidable_of_iff (R.cond s.store i site change)
        ⟨fun hc _ _ hsome => by cases hsome; exact hc, fun hc => hc site change rfl⟩
  match ev with
  | .call i => next i
  | .lose i true => next i
  | .lose _ false => isTrue trivial
  | .start _ _ => isTrue trivial
  | .answer _ _ => isTrue trivial
  | .stop _ => isTrue trivial

/-- The store is a history, and every client meets its contract from some point
of it on; a client that has returned did so in a store of the past. -/
structure Sound (R : Rules Path Content Site)
    (post : Op → Nat → Outcome → Store Path Content Site → Prop)
    (s : System Path Content Site Error Query Op Outcome) : Prop where
  history : History R s.store
  authors : ∀ v e, s.store.Held v e → e.author < s.tasks.length
  meets : ∀ (i : Nat) (t : Task Path Content Site Error Query Op Outcome),
    s.tasks[i]? = some t → ∃ l : Store Path Content Site, l.Idle i s.store ∧ History R l ∧
      t.program.Meets R i (post t.op i) l

variable {R : Rules Path Content Site}
  {post : Op → Nat → Outcome → Store Path Content Site → Prop}
  {M : Machine Path Content Site Error Query Op Answer Outcome}
  {s s' : System Path Content Site Error Query Op Outcome}

variable {t : Task Path Content Site Error Query Op Outcome}
  {program : Program Path Content Site Error Query Outcome}

/-- The system after client `i` made a change and moved on. -/
theorem Sound.update (h : Sound R post s) {change : Option (Change Path Content)}
    (ht : s.tasks[i]? = some t) (hist : History R (s.store.apply site i change))
    (hmeets : program.Meets R i (post t.op i) (s.store.apply site i change)) :
    Sound R post (s.update i t (s.store.apply site i change) program) := by
  have hlt : i < s.tasks.length := (List.getElem?_eq_some_iff.mp ht).1
  refine ⟨hist, fun v e he => ?_, fun j u hu => ?_⟩
  · simp only [System.update, length_set]
    cases change with
    | none => exact h.authors v e he
    | some change =>
      rcases held_cons.mp he with ⟨-, rfl⟩ | he
      · exact hlt
      · exact h.authors v e he
  · by_cases hij : i = j
    · subst hij
      simp only [System.update, List.getElem?_set_self hlt, Option.some.injEq] at hu
      subst hu
      exact ⟨_, .refl i _, hist, hmeets⟩
    · simp only [System.update, List.getElem?_set_ne hij] at hu
      obtain ⟨l, hl, hlist, hm⟩ := h.meets j u hu
      exact ⟨l, hl.apply hij site change, hlist, hm⟩

/-- A step that changes nothing in the store. -/
theorem Sound.update_same (h : Sound R post s) (ht : s.tasks[i]? = some t)
    (hmeets : program.Meets R i (post t.op i) s.store) :
    Sound R post (s.update i t s.store program) := by
  have hlt : i < s.tasks.length := (List.getElem?_eq_some_iff.mp ht).1
  refine ⟨h.history, fun v e he => ?_, fun j u hu => ?_⟩
  · simp only [System.update, length_set]
    exact h.authors v e he
  · by_cases hij : i = j
    · subst hij
      simp only [System.update, List.getElem?_set_self hlt, Option.some.injEq] at hu
      subst hu
      exact ⟨_, .refl i _, h.history, hmeets⟩
    · simp only [System.update, List.getElem?_set_ne hij] at hu
      exact h.meets j u hu

/-- A call that took effect, with what the program may do after it. -/
theorem Sound.call (h : Sound R post s) {k : β → Program Path Content Site Error Query Outcome}
    {lost : Error → Program Path Content Site Error Query Outcome} (ht : s.tasks[i]? = some t)
    (hp : t.program = .call site c k lost)
    (hc : ∀ site change, s.pending i = some (site, change) → R.cond s.store i site change) :
    History R (s.store.apply site i (c.change s.store)) ∧
      (k (c.answer s.store)).Meets R i (post t.op i) (s.store.apply site i (c.change s.store)) ∧
      ∀ err, (lost err).Meets R i (post t.op i) (s.store.apply site i (c.change s.store)) := by
  obtain ⟨l, hl, -, hm⟩ := h.meets i t ht
  rw [hp] at hm
  obtain ⟨-, hcall⟩ := hm s.store hl h.history
  have hc : R.cond s.store i site (c.change s.store) :=
    hc site _ (by simp [System.pending, ht, hp, Program.pending])
  obtain ⟨hallowed, hafter⟩ := hcall hc
  have hist : History R (s.store.apply site i (c.change s.store)) := by
    cases hchange : c.change s.store with
    | none => exact h.history
    | some change =>
      obtain ⟨p, content⟩ := change
      rw [hchange] at hc
      exact .cons h.history (hallowed p content hchange) hc
  exact ⟨hist, hafter hist⟩

theorem Sound.advance (h : Sound R post s) {ev : Event Op Answer}
    (hM : ∀ op fuel i (l : Store Path Content Site), ev = .start op fuel → History R l →
      (∀ v e, l.Held v e → e.author ≠ i) → (M.program op fuel).Meets R i (post op i) l)
    (hok : s.Respects R ev) (hstep : s.advance M ev = some s') : Sound R post s' := by
  cases ev with
  | start op fuel =>
    simp only [System.advance, Option.some.injEq] at hstep
    subst hstep
    refine ⟨h.history, fun v e he => ?_, fun j u hu => ?_⟩
    · have hlt := h.authors v e he
      simp only [length_append, length_singleton]
      omega
    · rcases Nat.lt_or_ge j s.tasks.length with hlt | hge
      · rw [List.getElem?_append_left hlt] at hu
        exact h.meets j u hu
      · rw [List.getElem?_append_right hge] at hu
        have hu' := mem_singleton.mp (mem_of_getElem? hu)
        subst hu'
        refine ⟨s.store, .refl j _, h.history, hM op fuel j _ rfl h.history fun v e he => ?_⟩
        have hlt := h.authors v e he
        omega
  | call i =>
    simp only [System.advance, bind_eq_some_iff, map_eq_some_iff] at hstep
    obtain ⟨t, ht, r, hr, rfl⟩ := hstep
    cases hp : t.program with
    | call site c k lost =>
      simp only [hp, stepCall, Option.some.injEq] at hr
      subst hr
      obtain ⟨hist, hk, -⟩ := h.call ht hp hok
      exact h.update ht hist hk
    | _ => simp [hp, stepCall] at hr
  | answer i a =>
    simp only [System.advance, bind_eq_some_iff, map_eq_some_iff] at hstep
    obtain ⟨t, ht, p, hp, rfl⟩ := hstep
    obtain ⟨l, hl, -, hm⟩ := h.meets i t ht
    cases hq : t.program with
    | ask q k =>
      simp only [hq, stepAnswer, map_eq_some_iff] at hp
      obtain ⟨b, -, rfl⟩ := hp
      rw [hq] at hm
      exact h.update_same ht (hm s.store hl h.history b)
    | _ => simp [hq, stepAnswer] at hp
  | lose i applied =>
    simp only [System.advance, bind_eq_some_iff, map_eq_some_iff] at hstep
    obtain ⟨t, ht, r, hr, rfl⟩ := hstep
    cases hp : t.program with
    | call site c k lost =>
      simp only [hp, stepLose, Option.some.injEq] at hr
      subst hr
      cases applied with
      | false =>
        obtain ⟨l, hl, -, hm⟩ := h.meets i t ht
        rw [hp] at hm
        exact h.update_same ht ((hm s.store hl h.history).1 M.lost)
      | true =>
        obtain ⟨hist, -, hlost⟩ := h.call ht hp hok
        exact h.update ht hist (hlost M.lost)
    | _ => simp [hp, stepLose] at hr
  | stop i =>
    simp only [System.advance, map_eq_some_iff] at hstep
    obtain ⟨t, ht, rfl⟩ := hstep
    exact h.update_same ht trivial

/-- **Soundness.** In every run whose steps meet the condition, of operations
that meet the rules, the store stays a history and every result satisfies its
postcondition. An operation may use that nothing in the store is its own yet. -/
theorem Sound.reaches
    {ok : System Path Content Site Error Query Op Outcome → Event Op Answer → Prop}
    (h : Sound R post s)
    (hM : ∀ s' op fuel i (l : Store Path Content Site), ok s' (.start op fuel) → History R l →
      (∀ v e, l.Held v e → e.author ≠ i) → (M.program op fuel).Meets R i (post op i) l)
    (hok : ∀ s' ev, Reaches M ok s s' → ok s' ev → s'.Respects R ev)
    (hr : Reaches M ok s s') : Sound R post s' := by
  induction hr with
  | refl => exact h
  | step hr hstep_ok hstep ih =>
    refine ih.advance (fun op fuel i l hev hist hnew => ?_) (hok _ _ hr hstep_ok) hstep
    subst hev
    exact hM _ op fuel i l hstep_ok hist hnew

theorem Sound.initial : Sound R post (⟨[], []⟩ : System Path Content Site Error Query Op Outcome) :=
  ⟨.nil, fun _ _ he => absurd he not_held_nil, fun i t ht => by simp at ht⟩

/-- A result was judged in a store of the past, and its client has written
nothing since. -/
theorem Sound.result (h : Sound R post s) {a : Outcome} (ht : s.tasks[i]? = some t)
    (ha : t.program = .pure a) :
    ∃ l : Store Path Content Site, l.Idle i s.store ∧ History R l ∧ post t.op i a l := by
  obtain ⟨l, hl, hist, hm⟩ := h.meets i t ht
  rw [ha] at hm
  exact ⟨l, hl, hist, hm⟩

end System

end CasStore
