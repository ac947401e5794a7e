import Stado.Library.Alone
import Stado.Library.Contract

/-!
# Contracts of clients that fail

`Program.Meets` says nothing of a client that failed. `Program.Ensures` judges
every end of a program, with a result or with an error, in a system that loses
a storage call only where `loses` says so.
-/

namespace CasStore

open Option

variable {Path Content Site Error : Type} {Query : Type → Type} {Op Answer Outcome : Type}
variable {α β γ : Type} [DecidableEq Path]

/-- `loses s i site change`: a call of client `i` at `site` may be lost in `s`
after it made `change`. -/
abbrev Losses (Path Content Site : Type) : Type :=
  Store Path Content Site → Nat → Site → Option (Change Path Content) → Prop

namespace Program

/-- From a store `s` in its past, every end of `p` as client `i` satisfies `Q`
in the store it comes in. -/
def Ensures (R : Rules Path Content Site) (loses : Losses Path Content Site) (i : Nat)
    (p : Program Path Content Site Error Query α)
    (Q : Except Error α → Store Path Content Site → Prop) (s : Store Path Content Site) : Prop :=
  match p with
  | .pure a => Q (.ok a) s
  | .fail e => Q (.error e) s
  | .stop => True
  | .ask _ k => ∀ s', s.Idle i s' → History R s' → ∀ b, Ensures R loses i (k b) Q s'
  | .call site c k lost => ∀ s', s.Idle i s' → History R s' →
      (loses s' i site none → ∀ err, Ensures R loses i (lost err) Q s') ∧
        (R.cond s' i site (c.change s') → History R (s'.apply site i (c.change s')) →
          Ensures R loses i (k (c.answer s')) Q (s'.apply site i (c.change s')) ∧
            (loses s' i site (c.change s') → ∀ err,
              Ensures R loses i (lost err) Q (s'.apply site i (c.change s'))))

variable {R : Rules Path Content Site} {loses : Losses Path Content Site} {i : Nat}
  {s : Store Path Content Site}

variable {p : Program Path Content Site Error Query α}
  {Q : Except Error β → Store Path Content Site → Prop}
  {P : Except Error α → Store Path Content Site → Prop}
  {f : α → Program Path Content Site Error Query β} {I : Store Path Content Site → Prop}

theorem Ensures.mono {Q Q' : Except Error α → Store Path Content Site → Prop}
    (h : Ensures R loses i p Q s) (hist : History R s)
    (hQ : ∀ r s', History R s' → Q r s' → Q' r s') : Ensures R loses i p Q' s := by
  induction p generalizing s with
  | pure a => exact hQ _ s hist h
  | fail e => exact hQ _ s hist h
  | stop => trivial
  | ask q k ih => exact fun s' hs hist' b => ih b (h s' hs hist' b) hist'
  | call site c k lost ih ihl =>
    intro s' hs hist'
    obtain ⟨hlost, hcall⟩ := h s' hs hist'
    refine ⟨fun hloses err => ihl err (hlost hloses err) hist', fun hc hist'' => ?_⟩
    obtain ⟨hk, hl⟩ := hcall hc hist''
    exact ⟨ih _ hk hist'', fun hloses err => ihl err (hl hloses err) hist''⟩

theorem ensures_bind (h : Ensures R loses i p (fun r s' => match r with
      | .ok a => Ensures R loses i (f a) Q s'
      | .error e => Q (.error e) s') s) : Ensures R loses i (p.bind f) Q s := by
  induction p generalizing s with
  | pure a => exact h
  | fail e => exact h
  | stop => trivial
  | ask q k ih => exact fun s' hs hist b => ih b (h s' hs hist b)
  | call site c k lost ih ihl =>
    intro s' hs hist
    obtain ⟨hlost, hcall⟩ := h s' hs hist
    refine ⟨fun hloses err => ihl err (hlost hloses err), fun hc hist' => ?_⟩
    obtain ⟨hk, hl⟩ := hcall hc hist'
    exact ⟨ih _ hk, fun hloses err => ihl err (hl hloses err)⟩

/-- Sequencing: a failure of the first part is the failure of both. -/
theorem ensures_then (hist : History R s) (hp : Ensures R loses i p P s)
    (hf : ∀ a s', History R s' → P (.ok a) s' → Ensures R loses i (f a) Q s')
    (hfail : ∀ e s', P (.error e) s' → Q (.error e) s') : Ensures R loses i (p.bind f) Q s := by
  refine ensures_bind (hp.mono hist fun r s' hist' hr => ?_)
  cases r with
  | ok a => exact hf a s' hist' hr
  | error e => exact hfail e s' hr

/-- A program whose failure is kept does not fail. -/
theorem Ensures.attempt
    {Q : Except Error α → Store Path Content Site → Prop} (h : Ensures R loses i p Q s) :
    Ensures R loses i p.attempt (fun r s' => ∃ a, r = .ok a ∧ Q a s') s := by
  induction p generalizing s with
  | pure a => exact ⟨_, rfl, h⟩
  | fail e => exact ⟨_, rfl, h⟩
  | stop => trivial
  | ask q k ih => exact fun s' hs hist b => ih b (h s' hs hist b)
  | call site c k lost ih ihl =>
    intro s' hs hist
    obtain ⟨hlost, hcall⟩ := h s' hs hist
    refine ⟨fun hloses err => ihl err (hlost hloses err), fun hc hist' => ?_⟩
    obtain ⟨hk, hl⟩ := hcall hc hist'
    exact ⟨ih _ hk, fun hloses err => ihl err (hl hloses err)⟩

theorem ensures_query {q : Query β}
    (h : ∀ s', s.Idle i s' → History R s' → ∀ b, Q (.ok b) s') :
    Ensures R loses i (query q : Program Path Content Site Error Query β) Q s := h

theorem ensures_perform {site : Site} {c : Call Path Content β}
    (hanswer : ∀ s', s.Idle i s' → History R s' → R.cond s' i site (c.change s') →
      History R (s'.apply site i (c.change s')) →
        Q (.ok (c.answer s')) (s'.apply site i (c.change s')))
    (hlost : ∀ s' err, s.Idle i s' → History R s' → loses s' i site none → Q (.error err) s')
    (happlied : ∀ s' err, s.Idle i s' → History R (s'.apply site i (c.change s')) →
      loses s' i site (c.change s') → Q (.error err) (s'.apply site i (c.change s'))) :
    Ensures R loses i (perform site c : Program Path Content Site Error Query β) Q s :=
  fun s' hs hist => ⟨fun hloses err => hlost s' err hs hist hloses,
    fun hc hist' => ⟨hanswer s' hs hist hc hist', fun hloses err => happlied s' err hs hist' hloses⟩⟩

/-- A program at harmless sites keeps a fact that the writes there keep, however
it ends. -/
theorem ensures_sites {S : Site → Prop} (hp : p.Sites S)
    (hist : History R s) (hI : I s) (hidle : ∀ l l', l.Idle i l' → History R l' → I l → I l')
    (hown : ∀ l e, S e.site → e.author = i → History R (e :: l) → I l → I (e :: l)) :
    Ensures R loses i p (fun _ s' => I s') s := by
  induction p generalizing s with
  | pure a => exact hI
  | fail e => exact hI
  | stop => trivial
  | ask q k ih => exact fun s' hs hist' b => ih b (hp b) hist' (hidle s s' hs hist' hI)
  | call site c k lost ih ihl =>
    intro s' hs hist'
    have hI' := hidle s s' hs hist' hI
    refine ⟨fun _ err => ihl err (hp.2.2 err) hist' hI', fun _ hist'' => ?_⟩
    have hI'' : I (s'.apply site i (c.change s')) := by
      cases hchange : c.change s' with
      | none => exact hI'
      | some change =>
        rw [hchange] at hist''
        exact hown s' _ hp.1 rfl hist'' hI'
    exact ⟨ih _ (hp.2.1 _) hist'' hI'', fun _ err => ihl err (hp.2.2 err) hist'' hI''⟩

/-- What a contract says of a result may be used at that end. -/
theorem Ensures.meets
    {Q : α → Store Path Content Site → Prop} (h : Ensures R loses i p P s) (hm : Meets R i p Q s) :
    Ensures R loses i p (fun r s' => P r s' ∧ ∀ a, r = .ok a → Q a s') s := by
  induction p generalizing s with
  | pure a => exact ⟨h, fun _ ha => by cases ha; exact hm⟩
  | fail e => exact ⟨h, fun _ ha => by cases ha⟩
  | stop => trivial
  | ask q k ih => exact fun s' hs hist b => ih b (h s' hs hist b) (hm s' hs hist b)
  | call site c k lost ih ihl =>
    intro s' hs hist
    obtain ⟨hlost, hcall⟩ := h s' hs hist
    obtain ⟨hlost', hcall'⟩ := hm s' hs hist
    refine ⟨fun hloses err => ihl err (hlost hloses err) (hlost' err), fun hc hist' => ?_⟩
    obtain ⟨hk, hl⟩ := hcall hc hist'
    obtain ⟨hk', hl'⟩ := (hcall' hc).2 hist'
    exact ⟨ih _ hk hk', fun hloses err => ihl err (hl hloses err) (hl' err)⟩

/-- A loop over a list keeps an invariant of the store. -/
theorem ensures_foldList {f : β → γ → Program Path Content Site Error Query β} {xs : List γ} {b : β}
    (hist : History R s) (hI : I s) (hf : ∀ x ∈ xs, ∀ b' s', History R s' → I s' →
      Ensures R loses i (f b' x) (fun _ s'' => I s'') s') :
    Ensures R loses i (foldList f b xs) (fun _ s' => I s') s := by
  induction xs generalizing b s with
  | nil => exact hI
  | cons x xs ih =>
    refine ensures_then hist (hf x List.mem_cons_self b s hist hI) (fun b' s' hist' hI' => ?_)
      fun _ _ h => h
    exact ih hist' hI' fun y hy => hf y (List.mem_cons_of_mem _ hy)

end Program

namespace System

variable {R : Rules Path Content Site} {loses : Losses Path Content Site}
  {post : Op → Nat → Outcome → Store Path Content Site → Prop}
  {ends : Op → Nat → Except Error Outcome → Store Path Content Site → Prop}
  {M : Machine Path Content Site Error Query Op Answer Outcome}
  {s s' : System Path Content Site Error Query Op Outcome}
  {t : Task Path Content Site Error Query Op Outcome}
  {program : Program Path Content Site Error Query Outcome} {i : Nat}

/-- A call is lost only where `loses` says so. -/
def Spares (loses : Losses Path Content Site)
    (s : System Path Content Site Error Query Op Outcome) : Event Op Answer → Prop
  | .lose i applied => ∀ site change, s.pending i = some (site, change) →
      loses s.store i site (if applied then change else none)
  | _ => True

instance [∀ s i site change, Decidable (loses s i site change)]
    (s : System Path Content Site Error Query Op Outcome) (ev : Event Op Answer) :
    Decidable (s.Spares loses ev) :=
  match ev with
  | .lose i applied =>
    match h : s.pending i with
    | none => isTrue fun _ _ hsome => by rw [h] at hsome; cases hsome
    | some (site, change) =>
      decidable_of_iff (loses s.store i site (if applied then change else none))
        ⟨fun hl _ _ hsome => by rw [h] at hsome; cases hsome; exact hl,
          fun hl => hl site change h⟩
  | .start _ _ => isTrue trivial
  | .call _ => isTrue trivial
  | .answer _ _ => isTrue trivial
  | .stop _ => isTrue trivial

def Ensured (R : Rules Path Content Site) (loses : Losses Path Content Site)
    (ends : Op → Nat → Except Error Outcome → Store Path Content Site → Prop)
    (s : System Path Content Site Error Query Op Outcome) : Prop :=
  ∀ (i : Nat) (t : Task Path Content Site Error Query Op Outcome), s.tasks[i]? = some t →
    ∃ l : Store Path Content Site, l.Idle i s.store ∧ History R l ∧
      t.program.Ensures R loses i (ends t.op i) l

theorem Ensured.update (h : Ensured R loses ends s) {site : Site}
    {change : Option (Change Path Content)} (ht : s.tasks[i]? = some t)
    (hist : History R (s.store.apply site i change))
    (hends : program.Ensures R loses i (ends t.op i) (s.store.apply site i change)) :
    Ensured R loses ends (s.update i t (s.store.apply site i change) program) := by
  have hlt : i < s.tasks.length := (List.getElem?_eq_some_iff.mp ht).1
  intro j u hu
  by_cases hij : i = j
  · subst hij
    simp only [System.update, List.getElem?_set_self hlt, Option.some.injEq] at hu
    subst hu
    exact ⟨_, .refl i _, hist, hends⟩
  · simp only [System.update, List.getElem?_set_ne hij] at hu
    obtain ⟨l, hl, hlist, hp⟩ := h j u hu
    exact ⟨l, hl.apply hij site change, hlist, hp⟩

theorem Ensured.update_same (h : Ensured R loses ends s) (hist : History R s.store)
    (ht : s.tasks[i]? = some t) (hends : program.Ensures R loses i (ends t.op i) s.store) :
    Ensured R loses ends (s.update i t s.store program) := by
  have hlt : i < s.tasks.length := (List.getElem?_eq_some_iff.mp ht).1
  intro j u hu
  by_cases hij : i = j
  · subst hij
    simp only [System.update, List.getElem?_set_self hlt, Option.some.injEq] at hu
    subst hu
    exact ⟨_, .refl i _, hist, hends⟩
  · simp only [System.update, List.getElem?_set_ne hij] at hu
    exact h j u hu

theorem Ensured.advance (h : Ensured R loses ends s) (hs : Sound R post s) (hs' : Sound R post s')
    {ev : Event Op Answer}
    (hM : ∀ op fuel i (l : Store Path Content Site), ev = .start op fuel → History R l →
      (∀ v e, l.Held v e → e.author ≠ i) → (M.program op fuel).Ensures R loses i (ends op i) l)
    (hok : s.Respects R ev) (hspares : s.Spares loses ev) (hstep : s.advance M ev = some s') :
    Ensured R loses ends s' := by
  cases ev with
  | start op fuel =>
    simp only [System.advance, Option.some.injEq] at hstep
    subst hstep
    intro j u hu
    rcases Nat.lt_or_ge j s.tasks.length with hlt | hge
    · rw [List.getElem?_append_left hlt] at hu
      exact h j u hu
    · rw [List.getElem?_append_right hge] at hu
      have hu' := List.mem_singleton.mp (List.mem_of_getElem? hu)
      subst hu'
      refine ⟨s.store, .refl j _, hs.history, hM op fuel j _ rfl hs.history fun v e he => ?_⟩
      have hlt := hs.authors v e he
      omega
  | call i =>
    simp only [System.advance, bind_eq_some_iff, map_eq_some_iff] at hstep
    obtain ⟨t, ht, r, hr, rfl⟩ := hstep
    cases hp : t.program with
    | call site c k lost =>
      simp only [hp, Program.stepCall, Option.some.injEq] at hr
      subst hr
      obtain ⟨l, hl, -, hends⟩ := h i t ht
      rw [hp] at hends
      have hc := hok site (c.change s.store) (by simp [pending, ht, hp, Program.pending])
      obtain ⟨-, hcall⟩ := hends s.store hl hs.history
      exact h.update ht hs'.history (hcall hc hs'.history).1
    | _ => simp [hp, Program.stepCall] at hr
  | answer i a =>
    simp only [System.advance, bind_eq_some_iff, map_eq_some_iff] at hstep
    obtain ⟨t, ht, p, hp, rfl⟩ := hstep
    obtain ⟨l, hl, -, hends⟩ := h i t ht
    cases hq : t.program with
    | ask q k =>
      simp only [hq, Program.stepAnswer, map_eq_some_iff] at hp
      obtain ⟨b, -, rfl⟩ := hp
      rw [hq] at hends
      exact h.update_same hs.history ht (hends s.store hl hs.history b)
    | _ => simp [hq, Program.stepAnswer] at hp
  | lose i applied =>
    simp only [System.advance, bind_eq_some_iff, map_eq_some_iff] at hstep
    obtain ⟨t, ht, r, hr, rfl⟩ := hstep
    cases hp : t.program with
    | call site c k lost =>
      simp only [hp, Program.stepLose, Option.some.injEq] at hr
      subst hr
      obtain ⟨l, hl, -, hends⟩ := h i t ht
      rw [hp] at hends
      have hpending : s.pending i = some (site, c.change s.store) := by
        simp [pending, ht, hp, Program.pending]
      have hloses := hspares site _ hpending
      obtain ⟨hlost, hcall⟩ := hends s.store hl hs.history
      cases applied with
      | false => exact h.update_same hs.history ht (hlost hloses M.lost)
      | true =>
        have hc : R.cond s.store i site (c.change s.store) := hok site _ hpending
        exact h.update ht hs'.history ((hcall hc hs'.history).2 hloses M.lost)
    | _ => simp [hp, Program.stepLose] at hr
  | stop i =>
    simp only [System.advance, map_eq_some_iff] at hstep
    obtain ⟨t, ht, rfl⟩ := hstep
    exact h.update_same hs.history ht trivial

/-- **Ends are ensured** along every run that spares the calls it must. -/
theorem Ensured.reaches
    {ok : System Path Content Site Error Query Op Outcome → Event Op Answer → Prop}
    (h : Ensured R loses ends s) (hsound : ∀ s', Reaches M ok s s' → Sound R post s')
    (hM : ∀ op fuel i (l : Store Path Content Site), History R l →
      (∀ v e, l.Held v e → e.author ≠ i) → (M.program op fuel).Ensures R loses i (ends op i) l)
    (hok : ∀ s' ev, ok s' ev → s'.Respects R ev ∧ s'.Spares loses ev)
    (hr : Reaches M ok s s') : Ensured R loses ends s' := by
  induction hr with
  | refl => exact h
  | step hr hev hstep ih =>
    obtain ⟨hrespects, hspares⟩ := hok _ _ hev
    exact ih.advance (hsound _ hr) (hsound _ (hr.step hev hstep))
      (fun op fuel i l _ => hM op fuel i l) hrespects hspares hstep

theorem Ensured.initial :
    Ensured R loses ends (⟨[], []⟩ : System Path Content Site Error Query Op Outcome) :=
  fun i t ht => by simp at ht

/-- A client that has come to its end did so in a store of the past. -/
theorem Ensured.result (h : Ensured R loses ends s) {r : Except Error Outcome}
    (ht : s.tasks[i]? = some t) (hr : t.program.result = some r) :
    ∃ l : Store Path Content Site, l.Idle i s.store ∧ History R l ∧ ends t.op i r l := by
  obtain ⟨l, hl, hist, hp⟩ := h i t ht
  cases hprogram : t.program with
  | pure a =>
    rw [hprogram] at hr hp
    cases hr
    exact ⟨l, hl, hist, hp⟩
  | fail e =>
    rw [hprogram] at hr hp
    cases hr
    exact ⟨l, hl, hist, hp⟩
  | _ =>
    rw [hprogram] at hr
    cases hr

end System

end CasStore
