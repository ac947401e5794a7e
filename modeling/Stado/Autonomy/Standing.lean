import Stado.Autonomy.Rules

/-!
# Leases that stand

What every lived world keeps about leases: a token belongs to one subject and
one coordinator, and a lease that has not ended stands until its own token
writes again. From it, what an acquisition promises to the coordinator that
makes it, whatever the others do.
-/

namespace Stado.Autonomy

open CasStore Crew List Store

/-! ## Writes of leases -/

variable {w w' : World} {lease : PlacementLease} {g : Regime} {C : Terms} {who : Option ℕ}
  {subject : String} {v : ℕ}

theorem wrote_cons {e : AutonomyEntry}
    :
    ({ w with store := e :: w.store } : World).wrote v subject lease ↔
      (v = w.store.length ∧ e.path = .lease subject ∧ e.content = some (.lease lease)) ∨
        w.wrote v subject lease := by
  constructor
  · rintro ⟨f, hf, hpath, hcontent⟩
    rcases held_cons.mp hf with ⟨rfl, rfl⟩ | hf
    · exact .inl ⟨rfl, hpath, hcontent⟩
    · exact .inr ⟨f, hf, hpath, hcontent⟩
  · rintro (⟨rfl, hpath, hcontent⟩ | ⟨f, hf, hpath, hcontent⟩)
    · exact ⟨e, held_cons_self e w.store, hpath, hcontent⟩
    · exact ⟨f, hf.mono (suffix_cons _ _), hpath, hcontent⟩

theorem wrote_of_get
    (h : w.store.get (.lease subject) = some (.lease lease, v)) : w.wrote v subject lease := by
  obtain ⟨e, he, hpath, hcontent⟩ := get_held h
  exact ⟨e, he, hpath, hcontent⟩

theorem World.wrote.lt (h : w.wrote v subject lease) : v < w.store.length := by
  obtain ⟨e, he, -, -⟩ := h
  exact he.lt

theorem World.wrote.unique {s s' : String} {lease' : PlacementLease}
    (h : w.wrote v s lease) (h' : w.wrote v s' lease') : s = s' ∧ lease = lease' := by
  obtain ⟨e, he, hpath, hcontent⟩ := h
  obtain ⟨f, hf, hpath', hcontent'⟩ := h'
  obtain rfl := he.unique hf
  rw [hpath] at hpath'
  rw [hcontent] at hcontent'
  exact ⟨Path.lease.inj hpath', Contents.lease.inj (Option.some.inj hcontent')⟩

/-- The current lease of a subject is the newest one written for it. -/
theorem World.wrote.le_of_get {v v' : ℕ} {s : String} {c : Contents} (h : w.wrote v s lease)
    (hget : w.store.get (.lease s) = some (c, v')) : v ≤ v' := by
  obtain ⟨e, he, hpath, -⟩ := h
  exact Store.le_of_get hget he hpath

inductive LeaseWrite (g : Regime) (w : World) (i : ℕ) (subject : String) (new : PlacementLease) :
    Prop where
  | granted (hsubject : subject = new.subjectId) (ok : w.mayGrant g.reserved i new)
      (free : ∀ c v, w.store.get (.lease subject) = some (c, v) →
        ∃ prior : PlacementLease, c = .lease prior ∧ prior.over w)
  | foreign (prior : PlacementLease) (v : ℕ)
      (hget : w.store.get (.lease subject) = some (.lease prior, v))
      (token : new.token = prior.token) (old : some prior.holder ≠ g.reserved)
      (holder : some new.holder ≠ g.reserved)
  | own (prior : PlacementLease) (v t : ℕ)
      (hget : w.store.get (.lease subject) = some (.lease prior, v))
      (drew : w.drew i prior.token)
      (ended : ∀ e ∈ w.executions, e.operation = prior.decisionId → e.ended ≠ none)
      (heq : new = { prior with expiresAt := some (.instant t) })

/-- What is written at the path of a lease is a write of a lease, and leases are
written nowhere else. -/
theorem lease_of_permits {i : ℕ} {site : Site} {p : Path}
    {c : Option Contents} (h : w.permits g i site p c) :
    (∃ subject new, p = .lease subject ∧ c = some (.lease new) ∧ LeaseWrite g w i subject new) ∨
      ((∀ subject, p ≠ .lease subject) ∧ ∀ new, c ≠ some (.lease new)) := by
  cases site with
  | acquireCreate =>
    obtain ⟨lease, rfl, rfl, hgrant, hnone⟩ := h
    refine .inl ⟨_, lease, rfl, rfl, .granted rfl hgrant fun c v hget => ?_⟩
    rw [hnone] at hget
    cases hget
  | acquireSwap =>
    obtain ⟨lease, prior, v, rfl, rfl, hgrant, hprior, hover⟩ := h
    refine .inl ⟨_, lease, rfl, rfl, .granted rfl hgrant fun c v' hget => ?_⟩
    rw [hprior] at hget
    cases hget
    exact ⟨prior, rfl, hover⟩
  | renew token =>
    obtain ⟨subject, prior, v, expires, process, rfl, hget, -, hholder, rfl⟩ := h
    exact .inl ⟨subject, _, rfl, rfl, .foreign prior v hget rfl hholder hholder⟩
  | free token =>
    obtain ⟨subject, prior, v, t, rfl, hget, -, hholder, rfl⟩ := h
    exact .inl ⟨subject, _, rfl, rfl, .foreign prior v hget rfl hholder hholder⟩
  | exact released =>
    obtain ⟨prior, v, rfl, hget, htoken, -, hholder, hnew, rfl⟩ := h
    exact .inl ⟨_, released, rfl, rfl, .foreign prior v hget htoken.symm hholder hnew⟩
  | ownRelease decision =>
    obtain ⟨subject, prior, v, t, rfl, hget, rfl, hdrew, hended, rfl⟩ := h
    exact .inl ⟨subject, _, rfl, rfl, .own prior v t hget hdrew hended rfl⟩
  | setControl =>
    obtain ⟨rfl, paused, reason, t, actor, rfl⟩ := h
    exact .inr ⟨by simp, by simp⟩
  | record operation outcome =>
    obtain ⟨rfl, -, t, -, rfl⟩ := h
    exact .inr ⟨by simp, by simp⟩
  | markerCreate =>
    obtain ⟨resource, kind, occurrence, t, rfl, -, -, -, rfl⟩ := h
    exact .inr ⟨by simp, by simp⟩
  | markerDelete operation =>
    obtain ⟨rfl, ⟨resource, kind, occurrence, rfl⟩, -, -⟩ := h
    exact .inr ⟨by simp, by simp⟩
  | markerComplete operation =>
    obtain ⟨resource, kind, occurrence, t, rfl, -, rfl⟩ := h
    exact .inr ⟨by simp, by simp⟩
  | planWrite =>
    obtain ⟨operation, marker, rfl, rfl, -⟩ := h
    exact .inr ⟨by simp, by simp⟩
  | decisionWrite =>
    obtain ⟨⟨id, rfl⟩, rfl⟩ := h
    exact .inr ⟨by simp, by simp⟩
  | savingsWrite =>
    obtain ⟨⟨id, rfl⟩, rfl⟩ := h
    exact .inr ⟨by simp, by simp⟩
  | placement lease =>
    obtain ⟨subject, job, v, rfl, rfl, -⟩ := h
    exact .inr ⟨by simp, by simp⟩
  | _ => exact h.elim

/-! ## What every lived world keeps -/

/-- The lease still stands, or has ended, or its own token wrote again. -/
def World.settled (w : World) (v : ℕ) (subject : String) (lease : PlacementLease) : Prop :=
  lease.over w ∨ w.store.get (.lease subject) = some (.lease lease, v) ∨
    ∃ v' newer, v < v' ∧ w.wrote v' subject newer ∧ newer.token = lease.token

structure Tidy (g : Regime) (w : World) : Prop where
  drawn : ∀ id i j, w.drew i id → w.drew j id → i = j
  token : ∀ v subject lease, w.wrote v subject lease →
    ∃ j, w.drew j lease.token ∧ (some lease.holder = g.reserved → w.drew j lease.decisionId)
  same : ∀ v subject lease v' subject' lease', w.wrote v subject lease →
    w.wrote v' subject' lease' → lease.token = lease'.token →
      subject = subject' ∧ (some lease.holder = g.reserved ↔ some lease'.holder = g.reserved)
  settled : ∀ v subject lease, w.wrote v subject lease → w.settled v subject lease
  standing : ∀ subject c v, w.store.get (.lease subject) = some (c, v) → ∃ lease, c = .lease lease

section

variable (h : Changed g C who w w')

include h

/-- No lease that a step does not write changes its being over. -/
theorem over_of_changed (hover : lease.over w) : lease.over w' := by
  unfold PlacementLease.over at hover ⊢
  cases hexpires : lease.expiresAt with
  | none =>
    simp only [hexpires] at hover ⊢
    rcases hover with hdefault | hgone
    · exact .inl hdefault
    · refine .inr ?_
      cases h with
      | exited => exact mem_cons_of_mem _ hgone
      | _ => exact hgone
  | some stamp =>
    cases stamp with
    | instant t =>
      simp only [hexpires] at hover ⊢
      cases h with
      | ticked cond => exact Nat.le_add_right_of_le hover
      | _ => exact hover
    | unreadable text => trivial

theorem drew_of_changed {i : ℕ} {id : String} (hdrew : w.drew i id) : w'.drew i id := by
  cases h with
  | drew new => exact mem_cons_of_mem _ hdrew
  | _ => exact hdrew

theorem wrote_of_changed (hwrote : w.wrote v subject lease) : w'.wrote v subject lease := by
  cases h with
  | wrote ok => exact wrote_cons.mpr (.inr hwrote)
  | queued => exact wrote_cons.mpr (.inr hwrote)
  | _ => exact hwrote

theorem clock_of_changed {t : ℕ} (ht : t ≤ w.clock) : t ≤ w'.clock := by
  cases h with
  | ticked cond => exact Nat.le_add_right_of_le ht
  | _ => exact ht

theorem pastOf_of_changed : w.store.PastOf w'.store := by
  cases h with
  | wrote ok => exact suffix_cons _ _
  | queued => exact suffix_cons _ _
  | _ => exact suffix_refl _

theorem new_lease
    (hwrote : w'.wrote v subject lease) : w.wrote v subject lease ∨
      ∃ i site, who = some i ∧ v = w.store.length ∧ LeaseWrite g w i subject lease ∧
        w' = { w with store := ⟨.lease subject, some (.lease lease), site, i⟩ :: w.store } := by
  cases h with
  | @wrote i _ site p c ok =>
    rcases wrote_cons.mp hwrote with ⟨rfl, hpath, hcontent⟩ | hold
    · rcases lease_of_permits ok with ⟨s, new, hp, hc, hlease⟩ | ⟨hp, -⟩
      · simp only at hpath hcontent
        subst hp hc
        cases hpath
        cases hcontent
        exact .inr ⟨i, site, rfl, rfl, hlease, rfl⟩
      · exact absurd hpath (hp subject)
    · exact .inl hold
  | queued =>
    rcases wrote_cons.mp hwrote with ⟨-, hpath, -⟩ | hold
    · cases hpath
    · exact .inl hold
  | _ => exact .inl hwrote

end

/-- The lease a step leaves standing is the one that stood, or the one it wrote. -/
theorem get_lease_of_changed (subject : String) (h : Changed g C who w w') :
    w'.store.get (.lease subject) = w.store.get (.lease subject) ∨
      ∃ i new, LeaseWrite g w i subject new ∧ who = some i ∧ w'.wrote w.store.length subject new ∧
        w'.store.get (.lease subject) = some (.lease new, w.store.length) := by
  cases h with
  | @wrote i _ site p c ok =>
    by_cases hp : p = .lease subject
    · subst hp
      rcases lease_of_permits ok with ⟨s, new, hs, rfl, hlease⟩ | ⟨hp, -⟩
      · cases hs
        exact .inr ⟨i, new, hlease, rfl, wrote_cons.mpr (.inl ⟨rfl, rfl, rfl⟩),
          get_cons_same rfl _⟩
      · exact absurd rfl (hp subject)
    · exact .inl (get_cons_other hp _)
  | queued => exact .inl (get_cons_other (by simp) _)
  | _ => exact .inl rfl

theorem Tidy.step (hw : Tidy g w) (h : Changed g C who w w') : Tidy g w' := by
  refine ⟨?_, ?_, ?_, ?_, ?_⟩
  · intro id i j hi hj
    cases h with
    | @drew k _ new hnew =>
      simp only [World.drew, mem_cons, Prod.mk.injEq] at hi hj
      rcases hi with ⟨rfl, rfl⟩ | hi
      · rcases hj with ⟨-, rfl⟩ | hj
        · rfl
        · exact absurd hj (hnew j)
      · rcases hj with ⟨rfl, -⟩ | hj
        · exact absurd hi (hnew i)
        · exact hw.drawn id i j hi hj
    | _ => exact hw.drawn id i j hi hj
  · intro v subject lease hwrote
    rcases new_lease h hwrote with hold | ⟨i, site, rfl, rfl, hlease, -⟩
    · obtain ⟨j, htoken, hdecision⟩ := hw.token v subject lease hold
      exact ⟨j, drew_of_changed h htoken, fun hres => drew_of_changed h (hdecision hres)⟩
    · cases hlease with
      | granted hsubject ok free =>
        exact ⟨i, drew_of_changed h ok.1, fun hres => drew_of_changed h (ok.2.2 hres)⟩
      | foreign prior v hget token old holder =>
        obtain ⟨j, htoken, -⟩ := hw.token v subject prior (wrote_of_get hget)
        exact ⟨j, drew_of_changed h (token ▸ htoken), fun hres => absurd hres holder⟩
      | own prior v t hget drew ended heq =>
        obtain ⟨j, htoken, hdecision⟩ := hw.token v subject prior (wrote_of_get hget)
        subst heq
        exact ⟨j, drew_of_changed h htoken, fun hres => drew_of_changed h (hdecision hres)⟩
  · -- the step wrote one lease at most, whose token is fresh or the standing one's
    have hnew : ∀ i v subject lease v' subject' lease', LeaseWrite g w i subject lease →
        w.wrote v' subject' lease' → lease.token = lease'.token → v = w.store.length →
          subject = subject' ∧ (some lease.holder = g.reserved ↔ some lease'.holder = g.reserved) := by
      intro i v subject lease v' subject' lease' hlease hold htoken _
      cases hlease with
      | granted hsubject ok free => exact absurd htoken.symm (ok.2.1 v' subject' lease' hold)
      | foreign prior u hget token old holder =>
        obtain ⟨hs, hres⟩ := hw.same u subject prior v' subject' lease' (wrote_of_get hget) hold
          (token ▸ htoken)
        refine ⟨hs, fun hnew => absurd hnew holder, fun hheld => absurd (hres.mpr hheld) old⟩
      | own prior u t hget drew ended heq =>
        subst heq
        exact hw.same u subject prior v' subject' lease' (wrote_of_get hget) hold htoken
    intro v subject lease v' subject' lease' hwrote hwrote' htoken
    rcases new_lease h hwrote with hold | ⟨i, site, rfl, rfl, hlease, -⟩
    · rcases new_lease h hwrote' with hold' | ⟨i, site, rfl, rfl, hlease', -⟩
      · exact hw.same v subject lease v' subject' lease' hold hold' htoken
      · obtain ⟨hs, hres⟩ := hnew i _ subject' lease' v subject lease hlease' hold htoken.symm rfl
        exact ⟨hs.symm, hres.symm⟩
    · rcases new_lease h hwrote' with hold' | ⟨j, site', -, rfl, -, -⟩
      · exact hnew i _ subject lease v' subject' lease' hlease hold' htoken rfl
      · obtain ⟨rfl, rfl⟩ := hwrote.unique hwrote'
        exact ⟨rfl, Iff.rfl⟩
  · intro v subject lease hwrote
    rcases new_lease h hwrote with hold | ⟨i, site, rfl, rfl, hlease, rfl⟩
    · rcases hw.settled v subject lease hold with hover | hget | ⟨v', newer, hlt, hnewer, htoken⟩
      · exact .inl (over_of_changed h hover)
      · rcases get_lease_of_changed subject h with
          hsame | ⟨i, new, hlease, -, hwritten, -⟩
        · exact .inr (.inl (hsame.trans hget))
        · have hlt := hold.lt
          cases hlease with
          | granted hsubject ok free =>
            obtain ⟨prior, hprior, hover⟩ := free _ _ hget
            cases hprior
            exact .inl (over_of_changed h hover)
          | foreign prior u hprior token old holder =>
            rw [hget] at hprior
            cases hprior
            exact .inr (.inr ⟨_, new, hlt, hwritten, token⟩)
          | own prior u t hprior drew ended heq =>
            rw [hget] at hprior
            cases hprior
            subst heq
            exact .inr (.inr ⟨_, _, hlt, hwritten, rfl⟩)
      · exact .inr (.inr ⟨v', newer, hlt, wrote_of_changed h hnewer, htoken⟩)
    · exact .inr (.inl (get_cons_same rfl _))
  · intro subject c v hget
    rcases get_lease_of_changed subject h with hsame | ⟨i, new, -, -, -, hnew⟩
    · exact hw.standing subject c v (hsame ▸ hget)
    · rw [hnew] at hget
      cases hget
      exact ⟨new, rfl⟩

theorem tidy (h : Lived setting (rules g) C w) : Tidy g w := by
  refine h.invariant (fun w hbegins => ?_) fun _ hw hstep => hw.step (changed_of_step hstep)
  obtain ⟨hstore, hdrawn, -, -⟩ := hbegins
  have hnone : ∀ v subject lease, ¬ w.wrote v subject lease := by
    rintro v subject lease ⟨e, he, -⟩
    rw [hstore] at he
    exact not_held_nil he
  refine ⟨fun id i j hi => ?_, fun v s l hl => absurd hl (hnone v s l),
    fun v s l v' s' l' hl => absurd hl (hnone v s l), fun v s l hl => absurd hl (hnone v s l),
    fun s c v hget => ?_⟩
  · simp [World.drew, hdrawn] at hi
  · simp [hstore] at hget

end Stado.Autonomy
