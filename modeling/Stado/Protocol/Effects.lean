import Stado.Protocol.System

/-!
# What a write changes

How one accepted write changes the facts of a store: which document stands,
which sources were fenced, which destinations were written. An invariant of the
lifecycle is proved by these, one kind of write at a time.
-/

namespace Stado

open CasStore Store

variable {cond : Condition} {l l0 : ObjectStore} {e : StoreEntry} {t : TransitionId}
  {p : Prefix} {jobId : String}

/-! ## Standing documents -/

def standing (l : ObjectStore) (p : Prefix) (jobId : String) : Bool :=
  match l.get (.document p jobId) with
  | some (.job job, _) => decide (job.state = prefixState p)
  | _ => false

theorem live_iff : Live l p jobId ↔ standing l p jobId = true := by
  unfold standing Live LiveAt
  split
  · next job v hget =>
    simp only [hget, Option.some.injEq, Prod.mk.injEq, Contents.job.injEq, decide_eq_true_eq]
    constructor
    · rintro ⟨_, _, ⟨rfl, rfl⟩, hs⟩
      exact hs
    · exact fun hs => ⟨v, job, ⟨rfl, rfl⟩, hs⟩
  · next hnot =>
    simp only [Bool.false_eq_true, iff_false]
    rintro ⟨v, job, hget, -⟩
    exact hnot job v hget

instance (l : ObjectStore) (p : Prefix) (jobId : String) : Decidable (Live l p jobId) :=
  decidable_of_iff _ live_iff.symm

theorem liveAt_cons_other (h : e.path ≠ .document p jobId) {v : Nat} {job : Job} :
    LiveAt (e :: l) p jobId v job ↔ LiveAt l p jobId v job := by
  unfold LiveAt
  rw [get_cons_other h]

theorem live_cons_other (h : e.path ≠ .document p jobId) :
    Live (e :: l) p jobId ↔ Live l p jobId := by
  unfold Live
  simp only [liveAt_cons_other h]

theorem live_cons_same (h : e.path = .document p jobId) :
    Live (e :: l) p jobId ↔ ∃ job, e.content = some (.job job) ∧ job.state = prefixState p := by
  unfold Live LiveAt
  rw [get_cons_same h]
  constructor
  · rintro ⟨v, job, hget, hs⟩
    rw [Option.map_eq_some_iff] at hget
    obtain ⟨c, hc, heq⟩ := hget
    cases heq
    exact ⟨job, hc, hs⟩
  · rintro ⟨job, hc, hs⟩
    exact ⟨l.length, job, by rw [hc]; rfl, hs⟩

theorem fenced_cons : Fenced (e :: l) t ↔ Fenced l t ∨
    (e.path = t.source ∧ ∃ job, e.content = some (.job job) ∧ job.state = .transitioning t) := by
  constructor
  · rintro ⟨v, f, job, hf, hp, hc, hs⟩
    rcases held_cons.mp hf with ⟨-, rfl⟩ | hf
    · exact .inr ⟨hp, job, hc, hs⟩
    · exact .inl ⟨v, f, job, hf, hp, hc, hs⟩
  · rintro (h | ⟨hp, job, hc, hs⟩)
    · exact h.mono (List.suffix_cons _ _)
    · exact ⟨l.length, e, job, held_cons_self _ _, hp, hc, hs⟩

theorem placed_cons : Placed (e :: l) t ↔ Placed l t ∨ e.site = .installDestination t := by
  constructor
  · rintro ⟨v, f, hf, hs⟩
    rcases held_cons.mp hf with ⟨-, rfl⟩ | hf
    · exact .inr hs
    · exact .inl ⟨v, f, hf, hs⟩
  · rintro (h | hs)
    · exact h.mono (List.suffix_cons _ _)
    · exact ⟨l.length, e, held_cons_self _ _, hs⟩

theorem fenced_of_not_fence (h : Fenced (e :: l) t)
    (hnot : ∀ job, e.content = some (.job job) → job.state ≠ .transitioning t) : Fenced l t := by
  rcases fenced_cons.mp h with hfenced | ⟨_, job, hc, hs⟩
  · exact hfenced
  · exact absurd hs (hnot job hc)

/-! ## Records stay -/

theorem record_stays (h : History (lifecycle cond) l) {s : TransitionState}
    (hr : Recorded l t s) : (l.get (.transition t.jobId)).isSome = true := by
  obtain ⟨v, e, r, he, hp, hc, -, -⟩ := hr
  by_contra hnone
  obtain ⟨w, f, hf, hfp, hfc, -⟩ :=
    removed_of_get_none (Option.not_isSome_iff_eq_none.mp hnone) he hp hc
  obtain ⟨r', hr', -⟩ := record_content h hf hfp
  rw [hfc] at hr'
  cases hr'

/-- The job was moved out of `queue/` at some time. -/
def Moved (l : ObjectStore) (jobId : String) : Prop := ∃ t, t.jobId = jobId ∧ Fenced l t

theorem Moved.mono (hs : l0.PastOf l) (h : Moved l0 jobId) : Moved l jobId := by
  obtain ⟨t, hj, hf⟩ := h
  exact ⟨t, hj, hf.mono hs⟩

theorem Moved.record (h : History (lifecycle cond) l) (hm : Moved l jobId) :
    (l.get (.transition jobId)).isSome = true := by
  obtain ⟨t, rfl, hf⟩ := hm
  exact record_stays h (hf.recorded h)

/-- A document that stood outside `queue/` was moved there. -/
theorem moved_of_standing_write (h : History (lifecycle cond) l) {v : Nat} (he : l.Held v e)
    (hp : e.path = .document p jobId) {job : Job} (hc : e.content = some (.job job))
    (hs : job.state = prefixState p) (hq : p ≠ .queue) : Moved l jobId := by
  revert v e p jobId job
  suffices hall : ∀ v e, l.Held v e → ∀ p jobId job, e.path = .document p jobId →
      e.content = some (.job job) → job.state = prefixState p → p ≠ .queue → Moved l jobId from
    fun {e p jobId v} he hp {job} hc => hall v e he p jobId job hp hc
  refine h.forall_held fun older e hpast hist ih p jobId job hp hc hs hq => ?_
  have hpast' := pastOf_of_cons hpast
  have current : ∀ {v : Nat}, older.get (.document p jobId) = some (.job job, v) →
      Moved l jobId := fun {v} hget => by
    obtain ⟨f, hf, hfp, hfc⟩ := get_held hget
    exact ih v f hf p jobId job hfp hfc hs hq
  cases (show Allowed older e from hist.allowed).documentWrite hp with
  | admits job' state absent =>
    cases hp
    exact absurd rfl hq
  | fences t source hget recorded =>
    cases hc
    exact absurd hs.symm (prefixState_ne_transitioning _ _)
  | places t fenced free =>
    cases hp
    exact ⟨t, rfl, fenced.mono hpast'⟩
  | cleans t source v hget state completed =>
    cases hc
    exact absurd hs.symm (prefixState_ne_transitionCleaned _ _)
  | renews j job' v lease hget state =>
    cases hp
    cases hc
    obtain ⟨f, hf, hfp, hfc⟩ := get_held hget
    exact ih v f hf _ _ job' hfp hfc state hq
  | rewrites j job' v fields hget state same =>
    cases hp
    exact absurd rfl hq
  | _ => cases hc

theorem Live.moved (h : History (lifecycle cond) l) (hl : Live l p jobId) (hq : p ≠ .queue) :
    Moved l jobId := by
  obtain ⟨v, job, hget, hs⟩ := hl
  obtain ⟨e, he, hp, hc⟩ := get_held hget
  exact moved_of_standing_write h he hp hc hs hq

end Stado
