import Stado.Protocol.Effects

/-!
# While documents are kept

What more a lifecycle history remembers while no document is removed: a source
that was recorded is still there, a fence is there until it is cleaned, and a
record is completed only behind a fence.
-/

namespace Stado

open CasStore Store

variable {cond : Condition} {l l0 : ObjectStore} {e : StoreEntry} {t : TransitionId}
  {p : Prefix} {jobId : String}

def Site.removes : Site → Bool
  | .sweepSentinel | .deleteDocument => true
  | _ => false

def Kept (cond : Condition) : Prop :=
  ∀ l i site change, cond l i site (some change) → site.removes = false

theorem document_stays (kept : Kept cond) (h : History (lifecycle cond) l) {v : Nat}
    (he : l.Held v e) (hp : e.path = .document p jobId) {c : Contents} (hc : e.content = some c) :
    l.get (.document p jobId) ≠ none := by
  intro hnone
  obtain ⟨w, f, hf, hfp, hfc, -⟩ := removed_of_get_none hnone he hp hc
  obtain ⟨older, -, -, hal, hcond⟩ := held_allowed h hf
  have hsite := kept _ _ _ _ hcond
  cases hal.documentWrite hfp with
  | sweeps p j sentinel => cases hsite
  | deletes p j => cases hsite
  | _ => cases hfc

theorem not_sourceGone (kept : Kept cond) (h : History (lifecycle cond) l) : ¬ SourceGone l t := by
  rintro ⟨l0, hl0, hrec, hnone⟩
  have hist := h.of_suffix hl0
  obtain ⟨-, -, -, f, job, hf, hfp, hfc, -⟩ := hrec.prepared hist
  exact document_stays kept hist hf hfp hfc hnone

theorem CompletedBasis.fenced (kept : Kept cond) (h : History (lifecycle cond) l)
    (basis : CompletedBasis l t) : Fenced l t := by
  rcases basis.2 with ⟨l0, hl0, hfen, -⟩ | ⟨-, hfen⟩ | hgone
  · exact hfen.mono hl0
  · exact hfen
  · exact absurd hgone (not_sourceGone kept h)

theorem fencedNow_or_cleaned (kept : Kept cond) (h : History (lifecycle cond) l)
    (hf : Fenced l t) : FencedNow l t ∨ Cleaned l t := by
  induction h with
  | nil =>
    obtain ⟨v, e, job, he, -⟩ := hf
    exact absurd he not_held_nil
  | @cons l e older allowed hcond ih =>
    have hist : History (lifecycle cond) (e :: l) := .cons older allowed hcond
    rcases fenced_cons.mp hf with hf | ⟨hp, job, hc, hs⟩
    · rcases ih hf with ⟨job, v, hget, hs⟩ | hcl
      · by_cases hp : e.path = t.source
        · have hsite := kept _ _ _ _ hcond
          cases (show Allowed l e from allowed).documentWrite hp with
          | admits job' state absent =>
            rw [← hp] at hget
            rw [hget] at absent
            cases absent
          | fences u source hget' recorded =>
            -- A fence is taken over a live source only.
            rw [← hp] at hget
            obtain ⟨-, -, -, f, job', hf, -, hfc, hlive, -⟩ := recorded.prepared older
            cases get_eq_of_held hget' hf hfc
            rw [hget] at hget'
            cases hget'
            rw [hs] at hlive
            exact absurd hlive.symm (prefixState_ne_transitioning _ _)
          | places u fenced free =>
            rw [← hp] at hget
            rcases free with hnone | ⟨job', w, hget', hfree⟩
            · rw [hget] at hnone
              cases hnone
            · rw [hget] at hget'
              cases hget'
              rw [hs] at hfree
              rcases hfree with hfree | hfree
              · cases hfree
              · exact absurd hfree.symm (prefixState_ne_transitioning _ _)
          | cleans u source w hget' state completed =>
            rw [← hp] at hget
            rw [hget] at hget'
            cases hget'
            rw [hs] at state
            cases state
            exact .inr ⟨l.length, _, _, held_cons_self _ _, rfl, rfl, rfl⟩
          | renews j job' w lease hget' state =>
            rw [← hp] at hget
            rw [hget] at hget'
            cases hget'
            rw [hs] at state
            cases state
          | rewrites j job' w fields hget' state same =>
            rw [← hp] at hget
            rw [hget] at hget'
            cases hget'
            rw [hs] at state
            cases state
          | _ => cases hsite
        · exact .inl ⟨job, v, by rw [get_cons_other hp]; exact hget, hs⟩
      · exact .inr (hcl.mono (List.suffix_cons _ _))
    · exact .inl ⟨job, l.length, by rw [get_cons_same hp, hc]; rfl, hs⟩

def AdmittedAs (l : ObjectStore) (jobId : String) (submission : Submission) : Prop :=
  ∃ v e job, l.Held v e ∧ e.path = .document .queue jobId ∧ e.site = .admission ∧
    e.content = some (.job job) ∧ job.submission = submission

theorem document_admitted (h : History (lifecycle cond) l) {v : Nat} (he : l.Held v e)
    (hp : e.path = .document p jobId) {job : Job} (hc : e.content = some (.job job)) :
    AdmittedAs l jobId job.submission := by
  suffices hall : ∀ v e, l.Held v e → ∀ p jobId job, e.path = .document p jobId →
      e.content = some (.job job) → AdmittedAs l jobId job.submission from
    hall v e he p jobId job hp hc
  refine h.forall_held fun older e hpast hist ih p jobId job hp hc => ?_
  have current : ∀ {p jobId job v}, older.get (.document p jobId) = some (.job job, v) →
      ∀ sub, job.submission = sub → AdmittedAs l jobId sub := by
    rintro p jobId job v hget _ rfl
    obtain ⟨f, hf, hfp, hfc⟩ := get_held hget
    exact ih v f hf p jobId job hfp hfc
  cases (show Allowed older e from hist.allowed).documentWrite hp with
  | admits job' state absent =>
    cases hp; cases hc
    exact ⟨older.length, _, job, (held_cons_self _ _).mono hpast, rfl, rfl, rfl, rfl⟩
  | fences t source hget recorded =>
    cases hp; cases hc
    exact current hget _ rfl
  | places t fenced free =>
    cases hp; cases hc
    obtain ⟨-, -, -, f, source, hf, hfp, hfc, -, hsub⟩ :=
      (fenced.recorded hist.tail).prepared hist.tail
    have hadmitted := ih _ f hf _ _ source hfp hfc
    rw [← hsub] at hadmitted
    exact hadmitted
  | cleans t source w hget state completed =>
    cases hp; cases hc
    exact current hget _ rfl
  | renews j job' w lease hget state =>
    cases hp; cases hc
    exact current hget _ rfl
  | rewrites j job' w fields hget state same =>
    cases hp; cases hc
    exact current hget _ same.symm
  | _ => cases hc

/-- While documents are kept a job is admitted once, so all its documents carry
one submission. -/
theorem submission_unique (kept : Kept cond) (h : History (lifecycle cond) l)
    {sub sub' : Submission} (ha : AdmittedAs l jobId sub) (ha' : AdmittedAs l jobId sub') :
    sub = sub' := by
  have once : ∀ {v w : Nat} {e f : StoreEntry} {job : Job}, l.Held v e →
      e.path = .document .queue jobId → e.content = some (.job job) → l.Held w f →
      f.path = .document .queue jobId → f.site = .admission → ¬ v < w := by
    intro v w e f job he hp hc hf hfp hfs hlt
    obtain ⟨older, hpast, hlen, hal, -⟩ := held_allowed h hf
    have hist := h.of_suffix (pastOf_of_cons hpast)
    have he' : older.Held v e := he.of_lt (pastOf_of_cons hpast) (by omega)
    cases hal.documentWrite hfp with
    | admits job' state absent =>
      cases hfp
      exact document_stays kept hist he' hp hc absent
    | _ => cases hfs
  obtain ⟨v, e, job, he, hp, hs, hc, rfl⟩ := ha
  obtain ⟨w, f, job', hf, hfp, hfs, hfc, rfl⟩ := ha'
  have hvw : v = w := by
    have h1 := once he hp hc hf hfp hfs
    have h2 := once hf hfp hfc he hp hs
    omega
  subst hvw
  rw [he.unique hf, hfc] at hc
  cases hc
  rfl

/-! ## Records behind fences -/

theorem recorded_write (h : History (lifecycle cond) l) {s : TransitionState}
    (hr : Recorded l t s) (hs : s ≠ .prepared) : ∃ older : ObjectStore, older.PastOf l ∧
      History (lifecycle cond) older ∧
      (MoveBasis older t s ∨ (s = .retired ∧ RecordNow older t .completed)) := by
  obtain ⟨v, e, r, he, hp, hc, hid, hstate⟩ := hr
  obtain ⟨older, hpast, -, hal, -⟩ := held_allowed h he
  have hpast' := pastOf_of_cons hpast
  refine ⟨older, hpast', h.of_suffix hpast', ?_⟩
  cases hal.recordWrite hp with
  | records r' wf prepared source free =>
    cases hc
    rw [prepared] at hstate
    exact absurd hstate.symm hs
  | moves u s' prev w hget hprev differs basis =>
    cases hc
    have hu : u = t := hprev.symm.trans hid
    cases hstate
    exact .inl (hu ▸ basis)
  | retires u prev w hget hprev state basis =>
    cases hc
    have hu : u = t := hprev.symm.trans hid
    subst hu
    cases hstate
    exact .inr ⟨rfl, prev, w, hget, hprev, state⟩

theorem Recorded.fenced (kept : Kept cond) (h : History (lifecycle cond) l)
    (hr : Recorded l t .completed) : Fenced l t := by
  obtain ⟨older, hpast, hist, basis | ⟨hfalse, -⟩⟩ := recorded_write h hr (by simp)
  · exact (CompletedBasis.fenced kept hist basis).mono hpast
  · cases hfalse

theorem Recorded.completed (h : History (lifecycle cond) l) (hr : Recorded l t .retired) :
    Recorded l t .completed := by
  obtain ⟨older, hpast, -, basis | ⟨-, hnow⟩⟩ := recorded_write h hr (by simp)
  · exact basis.elim
  · exact hnow.recorded.mono hpast

/-- A destination was written behind a fence. -/
theorem Placed.fenced (h : History (lifecycle cond) l) (hp : Placed l t) : Fenced l t := by
  obtain ⟨v, e, he, hs⟩ := hp
  obtain ⟨older, hpast, -, hal, -⟩ := held_allowed h he
  cases (show Allowed older e from hal) with
  | document hw =>
    cases hw with
    | places u fenced free =>
      cases hs
      exact fenced.mono (pastOf_of_cons hpast)
    | _ => cases hs
  | record hw => cases hw <;> cases hs
  | marker hw => cases hw <;> cases hs
  | auxiliary path site =>
    rw [hs] at site
    cases site

theorem not_fenced_of_left (kept : Kept cond) (h : History (lifecycle cond) l)
    (basis : AbortedBasis l t) (notCleaned : ¬ Cleaned l t) : ¬ Fenced l t := by
  rcases basis with ⟨l0, hl0, hsup, job, v, hget, hs⟩ | hgone
  · refine not_fenced_of_dead h hl0 hsup fun hfen => ?_
    rcases fencedNow_or_cleaned kept (h.of_suffix hl0) hfen with ⟨job', w, hget', hs'⟩ | hcl
    · rw [hget] at hget'
      cases hget'
      exact hs hs'
    · exact notCleaned (hcl.mono hl0)
  · exact absurd hgone (not_sourceGone kept h)

end Stado
