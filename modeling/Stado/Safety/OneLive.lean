import Stado.Protocol.Effects
import Mathlib.Data.Set.Subsingleton

/-!
# At most one live document per job

A job has one token: the document that stands, or the fence whose destination
is still to be written. Admission makes the token, a fence turns the standing
document into it and a destination turns it back, so two documents of one job
never stand together.

The two steps that would make a second token are an admission over the record
of an earlier life, and the destination of a transition written once more by a
helper that stopped after its fence and resumed after the job had moved on.
-/

namespace Stado

open CasStore

/-- No step admits a job that has a transition record, and none writes the
destination of a transition a second time unless it still stands. -/
def oneLive : Condition := fun l _ site change =>
  match site, change with
  | .admission, some (.document _ jobId, _) => l.get (.transition jobId) = none
  | .installDestination t, some _ => Placed l t → Live l t.toPrefix t.jobId
  | _, _ => True

/-- `oneLive`, computed. -/
def oneLiveHolds (l : ObjectStore) (site : Site) (change : Option (Change Path Contents)) :
    Bool :=
  match site, change with
  | .admission, some (.document _ jobId, _) => decide (l.get (.transition jobId) = none)
  | .installDestination t, some _ => decide (Placed l t → Live l t.toPrefix t.jobId)
  | _, _ => true

theorem oneLiveHolds_iff {l : ObjectStore} {i : Nat} {site : Site}
    {change : Option (Change Path Contents)} :
    oneLiveHolds l site change = true ↔ oneLive l i site change := by
  unfold oneLiveHolds oneLive
  split <;> simp only [decide_eq_true_eq]

instance (l : ObjectStore) (i : Nat) (site : Site) (change : Option (Change Path Contents)) :
    Decidable (oneLive l i site change) :=
  decidable_of_iff _ oneLiveHolds_iff

/-! ## Tokens -/

inductive Token where
  | standing (p : Prefix)
  | fence (t : TransitionId)

def tokens (l : ObjectStore) (jobId : String) : Set Token
  | .standing p => Live l p jobId
  | .fence t => t.jobId = jobId ∧ Fenced l t ∧ ¬ Placed l t

/-- A token that is spent for another leaves at most one. -/
theorem subsingleton_of_spent {α : Type} {S S' : Set α} (h : S.Subsingleton) {a b : α}
    (ha : a ∈ S) (hS : ∀ x ∈ S', x = b ∨ (x ∈ S ∧ x ≠ a)) : S'.Subsingleton := by
  have only : ∀ x ∈ S', x = b := fun x hx => by
    rcases hS x hx with rfl | ⟨hx, hne⟩
    · rfl
    · exact absurd (h hx ha) hne
  intro x hx y hy
  rw [only x hx, only y hy]

section Step

variable {cond : Condition} {l : ObjectStore} {e : StoreEntry} {jobId : String}

/-- A write that stands no document and fences no source leaves the tokens that
were there. -/
theorem tokens_subset (live : ∀ p, e.path = .document p jobId → ∀ job,
      e.content = some (.job job) → job.state = prefixState p → Live l p jobId)
    (fence : ∀ t, t.jobId = jobId → e.path = t.source → ∀ job, e.content = some (.job job) →
      job.state ≠ .transitioning t) : tokens (e :: l) jobId ⊆ tokens l jobId := by
  intro x hx
  cases x with
  | standing p =>
    have hx : Live (e :: l) p jobId := hx
    show Live l p jobId
    by_cases hp : e.path = .document p jobId
    · obtain ⟨job, hc, hs⟩ := (live_cons_same hp).mp hx
      exact live p hp job hc hs
    · exact (live_cons_other hp).mp hx
  | fence t =>
    obtain ⟨hj, hf, hn⟩ := hx
    refine ⟨hj, ?_, fun hpl => hn (placed_cons.mpr (.inl hpl))⟩
    rcases fenced_cons.mp hf with hf | ⟨hp, job, hc, hs⟩
    · exact hf
    · exact absurd hs (fence t hj hp job hc)

theorem tokens_step (h : History (lifecycle oneLive) (e :: l))
    (ih : (tokens l jobId).Subsingleton) : (tokens (e :: l) jobId).Subsingleton := by
  have hist := h.tail
  have hcond : oneLive l e.author e.site (some (e.path, e.content)) := h.cond
  by_cases hj : ∃ p, e.path = .document p jobId
  · obtain ⟨p, hp⟩ := hj
    cases (show Allowed l e from h.allowed).documentWrite hp with
    | @admits a job state absent =>
      -- There was no record, so the job was never moved and `queue/` was empty.
      cases hp
      have hnone : l.get (.transition job.jobId) = none := hcond
      have notMoved : ¬ Moved l job.jobId := fun hm => by
        have hsome := hm.record hist
        rw [hnone] at hsome
        cases hsome
      have only : ∀ x ∈ tokens (⟨.document .queue job.jobId, some (.job job), .admission,
          a⟩ :: l) job.jobId, x = .standing .queue := by
        intro x hx
        cases x with
        | standing q =>
          by_cases hq : q = .queue
          · rw [hq]
          · have hx : Live _ q job.jobId := hx
            rw [live_cons_other (by simp [Ne.symm hq])] at hx
            exact absurd (hx.moved hist hq) notMoved
        | fence t =>
          obtain ⟨hj, hf, -⟩ := hx
          refine absurd ⟨t, hj, fenced_of_not_fence hf ?_⟩ notMoved
          rintro job' ⟨⟩
          rw [state]
          simp
      intro x hx y hy
      rw [only x hx, only y hy]
    | fences t source hget recorded =>
      -- The standing source is spent for its fence.
      cases hp
      obtain ⟨-, -, -, f, job, hf, -, hfc, hlive, -⟩ := recorded.prepared hist
      cases Store.get_eq_of_held hget hf hfc
      refine subsingleton_of_spent ih (a := .standing t.fromPrefix) (b := .fence t)
        ⟨t.sourceVersion, source, hget, hlive⟩ fun x hx => ?_
      cases x with
      | standing q =>
        right
        have hx : Live _ q t.jobId := hx
        by_cases hq : q = t.fromPrefix
        · subst hq
          rw [live_cons_same rfl] at hx
          obtain ⟨job', hc, hs⟩ := hx
          cases hc
          exact absurd hs.symm (prefixState_ne_transitioning _ _)
        · rw [live_cons_other (by simp [Ne.symm hq])] at hx
          exact ⟨hx, by simp [hq]⟩
      | fence u =>
        obtain ⟨hj, hf, hn⟩ := hx
        rcases fenced_cons.mp hf with hf | ⟨-, job', hc, hs⟩
        · exact .inr ⟨⟨hj, hf, fun hpl => hn (placed_cons.mpr (.inl hpl))⟩, by simp⟩
        · cases hc
          cases hs
          exact .inl rfl
    | @places a t fenced free =>
      cases hp
      have stands : ∀ x ∈ tokens (⟨t.target, some (.job t.destinationJob),
          .installDestination t, a⟩ :: l) t.jobId,
          x = .standing t.toPrefix ∨ (x ∈ tokens l t.jobId ∧ x ≠ .fence t) := by
        intro x hx
        cases x with
        | standing q =>
          by_cases hq : q = t.toPrefix
          · exact .inl (by rw [hq])
          · have hx : Live _ q t.jobId := hx
            rw [live_cons_other (by simp [Ne.symm hq])] at hx
            exact .inr ⟨hx, by simp⟩
        | fence u =>
          obtain ⟨hj, hf, hn⟩ := hx
          refine .inr ⟨⟨hj, fenced_of_not_fence hf ?_, fun hpl =>
            hn (placed_cons.mpr (.inl hpl))⟩, ?_⟩
          · rintro job' ⟨⟩
            exact prefixState_ne_transitioning _ _
          · rintro ⟨⟩
            exact hn (placed_cons.mpr (.inr rfl))
      by_cases hplaced : Placed l t
      · -- Written again over a destination that stands: nothing is spent.
        refine ih.anti fun x hx => ?_
        rcases stands x hx with rfl | ⟨hx, -⟩
        · exact hcond hplaced
        · exact hx
      · exact subsingleton_of_spent ih (a := .fence t) ⟨rfl, fenced, hplaced⟩ stands
    | cleans t source v hget state completed =>
      refine ih.anti (tokens_subset ?_ ?_)
      · rintro q - job' ⟨⟩ hs
        exact absurd hs.symm (prefixState_ne_transitionCleaned _ _)
      · rintro u - - job' ⟨⟩
        simp
    | renews j job v lease hget state =>
      refine ih.anti (tokens_subset ?_ ?_)
      · rintro q hq job' ⟨⟩ -
        cases hq
        exact ⟨v, job, hget, state⟩
      · rintro u - - job' ⟨⟩
        show job.state ≠ _
        rw [state]
        simp
    | rewrites j job v fields hget state same =>
      refine ih.anti (tokens_subset ?_ ?_)
      · rintro q hq job' ⟨⟩ -
        cases hq
        exact ⟨v, job, hget, state⟩
      · rintro u - - job' ⟨⟩
        show job.state ≠ _
        rw [state]
        simp
    | sweeps q j sentinel => exact ih.anti (tokens_subset (fun _ _ _ hc => by cases hc)
        fun _ _ _ _ hc => by cases hc)
    | deletes q j => exact ih.anti (tokens_subset (fun _ _ _ hc => by cases hc)
        fun _ _ _ _ hc => by cases hc)
  · refine ih.anti (tokens_subset (fun p hp => absurd ⟨p, hp⟩ hj) fun t ht hp => ?_)
    exact absurd ⟨t.fromPrefix, by rw [hp, ← ht]⟩ hj

end Step

theorem tokens_subsingleton {l : ObjectStore} (h : History (lifecycle oneLive) l)
    (jobId : String) : (tokens l jobId).Subsingleton := by
  induction h with
  | nil =>
    intro x hx
    cases x with
    | standing p =>
      obtain ⟨v, job, hget, -⟩ := hx
      cases hget
    | fence t =>
      obtain ⟨-, ⟨v, e, job, he, -⟩, -⟩ := hx
      exact absurd he Store.not_held_nil
  | cons older allowed cond ih => exact tokens_step (.cons older allowed cond) ih

section Terminal

variable {l l0 : ObjectStore} {e : StoreEntry} {jobId : String} {p : Prefix} {v : Nat}

/-- What a job whose terminal document stood at version `v` comes to: it still
stands, or the job is gone, or a transition left from it. -/
inductive Ended (l : ObjectStore) (jobId : String) (p : Prefix) (v : Nat) : Prop where
  | stands (w : Nat) (job : Job) (since : v ≤ w) (live : LiveAt l p jobId w job)
  | gone (none : tokens l jobId = ∅) (moved : Moved l jobId)
  | left (t : TransitionId) (jobId_eq : t.jobId = jobId) (fromPrefix : t.fromPrefix = p)
      (since : v ≤ t.sourceVersion) (fenced : Fenced l t)

theorem tokens_empty_step (h : History (lifecycle oneLive) (e :: l)) (none : tokens l jobId = ∅)
    (moved : Moved l jobId) : tokens (e :: l) jobId = ∅ := by
  have hist := h.tail
  have hcond : oneLive l e.author e.site (some (e.path, e.content)) := h.cond
  have noToken : ∀ x, x ∉ tokens l jobId := fun x hx => by
    rw [none] at hx
    exact hx
  refine Set.subset_eq_empty (tokens_subset ?_ ?_) none
  · intro q hp job hc hs
    cases (show Allowed l e from h.allowed).documentWrite hp with
    | admits job' state absent =>
      cases hp
      have hsome := moved.record hist
      rw [hcond] at hsome
      cases hsome
    | fences t source hget recorded =>
      cases hc
      exact absurd hs.symm (prefixState_ne_transitioning _ _)
    | places t fenced free =>
      cases hp
      by_cases hplaced : Placed l t
      · exact hcond hplaced
      · exact absurd ⟨rfl, fenced, hplaced⟩ (noToken (.fence t))
    | cleans t source w hget state completed =>
      cases hc
      exact absurd hs.symm (prefixState_ne_transitionCleaned _ _)
    | renews j job' w lease hget state =>
      cases hp
      exact ⟨w, job', hget, state⟩
    | rewrites j job' w fields hget state same =>
      cases hp
      exact ⟨w, job', hget, state⟩
    | _ => cases hc
  · intro t ht hp job hc hs
    obtain ⟨-, hrec, source, hget⟩ := fence_taken h hp hc hs
    obtain ⟨-, -, -, f, job', hf, -, hfc, hlive, -⟩ := hrec.prepared hist
    cases Store.get_eq_of_held hget hf hfc
    subst ht
    exact noToken (.standing t.fromPrefix) ⟨t.sourceVersion, source, hget, hlive⟩

theorem Ended.step (h : History (lifecycle oneLive) (e :: l)) (terminal : p.terminal = true)
    (hended : Ended l jobId p v) : Ended (e :: l) jobId p v := by
  have hist := h.tail
  have hcond : oneLive l e.author e.site (some (e.path, e.content)) := h.cond
  have hone := tokens_subsingleton hist jobId
  cases hended with
  | left t hj hfrom since fenced =>
    exact .left t hj hfrom since (fenced.mono (List.suffix_cons _ _))
  | gone none moved =>
    exact .gone (tokens_empty_step h none moved) (moved.mono (List.suffix_cons _ _))
  | stands w job since live =>
    have hlive : Live l p jobId := ⟨w, job, live⟩
    have only : ∀ x ∈ tokens l jobId, x = .standing p := fun x hx =>
      hone hx (show Token.standing p ∈ tokens l jobId from hlive)
    have hmoved : Moved l jobId := hlive.moved hist (by rintro rfl; cases terminal)
    have kept : e.path ≠ .document p jobId → Ended (e :: l) jobId p v := fun hp =>
      .stands w job since ((liveAt_cons_other hp).mpr live)
    by_cases hp : e.path = .document p jobId
    · have removed : e.content = none → Ended (e :: l) jobId p v := by
        intro hc
        refine .gone (Set.eq_empty_of_forall_notMem fun x hx => ?_)
          (hmoved.mono (List.suffix_cons _ _))
        have hsub : x ∈ tokens l jobId := tokens_subset (fun _ _ job' hc' => by
          rw [hc] at hc'; cases hc') (fun _ _ _ job' hc' => by rw [hc] at hc'; cases hc') hx
        obtain rfl := only x hsub
        obtain ⟨job', hc', -⟩ := (live_cons_same hp).mp hx
        rw [hc] at hc'
        cases hc'
      cases (show Allowed l e from h.allowed).documentWrite hp with
      | admits job' state absent =>
        cases hp
        cases terminal
      | fences t source hget recorded =>
        cases hp
        have hw : w = t.sourceVersion := by
          have hlive := live.1
          rw [hget] at hlive
          exact (Prod.mk.inj (Option.some.inj hlive)).2.symm
        exact .left t rfl rfl (hw ▸ since) (fenced_cons.mpr (.inr ⟨rfl, _, rfl, rfl⟩))
      | places t fenced free =>
        cases hp
        obtain ⟨f, hf, -⟩ := Store.get_held live.1
        refine .stands l.length t.destinationJob (since.trans hf.lt.le) ⟨?_, rfl⟩
        rw [Store.get_cons_same rfl]
        rfl
      | cleans t source w' hget state completed =>
        cases hp
        have hs := live.2
        rw [show job = source from by
          have hlive := live.1
          rw [hget] at hlive
          cases hlive
          rfl, state] at hs
        exact absurd hs.symm (prefixState_ne_transitioning _ _)
      | renews j job' w' lease hget state =>
        cases hp
        cases terminal
      | rewrites j job' w' fields hget state same =>
        cases hp
        cases terminal
      | _ => exact removed rfl
    · exact kept hp

/-- Once a terminal document stood at version `v`, a document outside terminal
prefixes stands only after a transition recorded out of it. -/
theorem left_of_ended (h : History (lifecycle oneLive) l) (hs : l0.PastOf l)
    (terminal : p.terminal = true) {job : Job} (live : LiveAt l0 p jobId v job) {q : Prefix}
    (hq : q.terminal = false) (again : Live l q jobId) :
    ∃ t, t.jobId = jobId ∧ t.fromPrefix = p ∧ v ≤ t.sourceVersion ∧ Fenced l t := by
  have hended : Ended l jobId p v :=
    h.stable (P := fun l => Ended l jobId p v) hs (.stands v job (Nat.le_refl v) live)
      fun _ _ _ hist hended => hended.step hist terminal
  cases hended with
  | stands w job' since live' =>
    have hpq := (tokens_subsingleton h jobId) (show Token.standing p ∈ tokens l jobId from
      ⟨w, job', live'⟩) (show Token.standing q ∈ tokens l jobId from again)
    cases hpq
    rw [terminal] at hq
    cases hq
  | gone none moved =>
    have hmem : Token.standing q ∈ tokens l jobId := again
    rw [none] at hmem
    cases hmem
  | left t hj hfrom since fenced => exact ⟨t, hj, hfrom, since, fenced⟩

end Terminal

/-! ## Runs -/

/-- What is asked of a store `l` reached after `l0`: a job stands under at most
one prefix, and after its terminal document stood at version `v` it stands in
`queue/` or `running/` only if a transition out of that document was prepared. -/
structure LiveOnce (l0 l : ObjectStore) : Prop where
  one : ∀ jobId p q, Live l p jobId → Live l q jobId → p = q
  ended : ∀ jobId p v job, p.terminal = true → LiveAt l0 p jobId v job →
    ∀ q, q.terminal = false → Live l q jobId →
      ∃ t w e r, t.jobId = jobId ∧ t.fromPrefix = p ∧ v ≤ t.sourceVersion ∧ l.Held w e ∧ v < w ∧
        e.content = some (.transition r) ∧ r.transitionId = t ∧ r.state = .prepared

/-- **At most one live document.** It holds of every run whose steps meet the
condition. -/
theorem at_most_one_live {s0 s : QueueSystem} (h0 : Runs oneLive s0)
    (h : System.Reaches queue (fun s ev => s.Respects (lifecycle oneLive) ev) s0 s) :
    LiveOnce s0.store s.store := by
  have hist := queue_sound (h0.trans h)
  refine ⟨fun jobId p q hp hq => ?_, fun jobId p v job terminal live q hq again => ?_⟩
  · exact Token.standing.inj (tokens_subsingleton hist jobId
      (show Token.standing p ∈ tokens s.store jobId from hp)
      (show Token.standing q ∈ tokens s.store jobId from hq))
  · obtain ⟨t, hj, hfrom, since, fenced⟩ := left_of_ended hist h.pastOf terminal live hq again
    obtain ⟨w, e, r, he, hp, hc, hid, hs⟩ := fenced.recorded hist
    refine ⟨t, w, e, r, hj, hfrom, since, he, ?_, hc, hid, hs⟩
    have hlt := source_before_record hist he hp hc
    rw [hid] at hlt
    omega

theorem at_most_one_live_completed :
    ∃ s : QueueSystem, Runs oneLive s ∧ standing s.store .completed "j" = true ∧
      LiveOnce s.store s.store := by
  obtain ⟨s, hs, hlive⟩ : ∃ s, Runs oneLive s ∧ standing s.store .completed "j" = true :=
    System.exists_exec (claiming 19 ++ completing 2 4) (by decide +kernel)
  exact ⟨s, hs, hlive, at_most_one_live hs .refl⟩

/-- A worker stalls after the fence of its claim. A helper finishes the claim,
the job completes, and the worker resumes: it writes `running/` again. -/
def reviving : List QueueEvent :=
  claiming 6 ++ .start (.recover "j") 9 :: calls 2 14 ++ completing 3 4 ++ calls 1 3

theorem two_live_documents :
    ¬ ∀ s0 s : QueueSystem, Runs anyStep s0 →
      System.Reaches queue (fun s ev => s.Respects (lifecycle anyStep) ev) s0 s →
      LiveOnce s0.store s.store := by
  intro h
  obtain ⟨s, hs, hlive⟩ : ∃ s, Runs anyStep s ∧
      (standing s.store .running "j" && standing s.store .completed "j") = true :=
    System.exists_exec reviving (by decide +kernel)
  rw [Bool.and_eq_true] at hlive
  have heq := (h s s hs .refl).one "j" .running .completed (live_iff.mpr hlive.1)
    (live_iff.mpr hlive.2)
  cases heq

end Stado
