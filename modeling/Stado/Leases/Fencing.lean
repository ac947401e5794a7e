import Mathlib.Logic.Relation
import Stado.Leases.Store

/-!
# Provider-lease fencing

What a copy of a lease is worth: the record it was read from, the chain of
transitions made since, and the fence it carries, which is either the fence of
that record or a token drawn after it was read. The compare-and-swap then turns
this into a fact about every stored write.
-/

namespace Stado.Leases

open CasStore Program

/-- One step of the state machine, on the stored spelling. -/
def Follows (before after : String) : Prop :=
  ∃ s t, LeaseState.fromStr before = some s ∧ t ∈ s.allowedTransitions ∧ after = t.asStr

/-- A chain of steps of the state machine. -/
abbrev Chain : String → String → Prop := Relation.ReflTransGen Follows

/-! ## Facts about the store -/

section Facts

variable (l : LeaseStore)

/-- The record `lease` of a job was stored at version `v`. -/
def StoredAt (v : Nat) (jobId : String) (lease : ProviderLease) : Prop :=
  ∃ e, l.Held v e ∧ e.path = .lease jobId ∧ e.content = some (.lease lease)

/-- The token was drawn, for the lease of this job, at version `m`. -/
def Drawn (m : Nat) (token jobId : String) : Prop :=
  ∃ e, l.Held m e ∧ e.path = .drawn token ∧ e.content = some (.token jobId)

def Unused (token : String) : Prop :=
  ∀ v jobId lease, StoredAt l v jobId lease → lease.fenceToken ≠ token

/-- Where a copy comes from: a fresh lease whose token was drawn for it, or a
record read at the version the copy carries. -/
def Lineage (lease : ProviderLease) : Prop :=
  match lease.version with
  | none => ∃ m, Drawn l m lease.fenceToken lease.jobId
  | some v => ∃ before, StoredAt l v lease.jobId before ∧ Chain before.state lease.state ∧
      ((lease.ownerId = before.ownerId ∧ lease.fenceToken = before.fenceToken) ∨
        ∃ m, v < m ∧ Drawn l m lease.fenceToken lease.jobId)

end Facts

variable {l l' : LeaseStore} {i : Nat} {lease : ProviderLease} {jobId : String} {v : Nat}

theorem StoredAt.mono (hl : l.PastOf l')
    (h : StoredAt l v jobId lease) : StoredAt l' v jobId lease := by
  obtain ⟨e, he, hrest⟩ := h
  exact ⟨e, he.mono hl, hrest⟩

theorem StoredAt.lt (h : StoredAt l v jobId lease) : v < l.length := by
  obtain ⟨e, he, -⟩ := h
  exact he.lt

theorem Drawn.mono {m : Nat} {token jobId : String} (hl : l.PastOf l')
    (h : Drawn l m token jobId) : Drawn l' m token jobId := by
  obtain ⟨e, he, hrest⟩ := h
  exact ⟨e, he.mono hl, hrest⟩

theorem Lineage.mono (hl : l.PastOf l') (h : Lineage l lease) : Lineage l' lease := by
  unfold Lineage at h ⊢
  cases hv : lease.version with
  | none =>
    simp only [hv] at h ⊢
    obtain ⟨m, hm⟩ := h
    exact ⟨m, hm.mono hl⟩
  | some v =>
    simp only [hv] at h ⊢
    obtain ⟨before, hstored, hchain, hfence⟩ := h
    refine ⟨before, hstored.mono hl, hchain, ?_⟩
    rcases hfence with hsame | ⟨m, hlt, hm⟩
    · exact .inl hsame
    · exact .inr ⟨m, hlt, hm.mono hl⟩

/-- What stands at a lease's path was stored at its version. -/
theorem storedAt_of_get
    (h : l.get (.lease jobId) = some (.lease lease, v)) : StoredAt l v jobId lease := by
  obtain ⟨e, he, hp, hc⟩ := Store.get_held h
  exact ⟨e, he, hp, hc⟩

/-! ## The rules -/

structure LeaseWrite (l : LeaseStore) (jobId : String) (lease : ProviderLease) : Prop where
  named : lease.jobId = jobId
  drawn : ∃ m, Drawn l m lease.fenceToken jobId
  /-- The state it replaces leads to its own by allowed transitions. -/
  chained : ∀ before v, l.get (.lease jobId) = some (.lease before, v) →
    Chain before.state lease.state
  /-- It keeps the owner and the fence it replaces, or brings a fence no lease
  has carried. -/
  fenced : (∃ before v, l.get (.lease jobId) = some (.lease before, v) ∧
      lease.ownerId = before.ownerId ∧ lease.fenceToken = before.fenceToken) ∨
    Unused l lease.fenceToken

def Allowed (l : LeaseStore) (e : LeaseEntry) : Prop :=
  match e.path, e.content with
  | .drawn token, some (.token _) => l.get (.drawn token) = none
  | .lease jobId, some (.lease lease) => LeaseWrite l jobId lease
  | _, _ => False

/-- The protocol of the lease holders. -/
def leasing : Rules Path Contents Site := ⟨Allowed, freshTokens⟩

instance (l : LeaseStore) (i : Nat) (site : Site) (change : Option (Change Path Contents)) :
    Decidable (leasing.cond l i site change) :=
  inferInstanceAs (Decidable (freshTokens l i site change))

section History

variable (hist : History leasing l)
include hist

variable {v : Nat} {jobId : String}

theorem allowed_of_held {e : LeaseEntry} (he : l.Held v e) :
    ∃ older : LeaseStore, Store.PastOf (e :: older) l ∧ older.length = v ∧ Allowed older e := by
  obtain ⟨older, hpast, hlen, hallowed, -⟩ := hist.held he
  exact ⟨older, hpast, hlen, hallowed⟩

theorem StoredAt.written (h : StoredAt l v jobId lease) :
    ∃ older : LeaseStore, older.PastOf l ∧ older.length = v ∧ LeaseWrite older jobId lease := by
  obtain ⟨e, he, hp, hc⟩ := h
  obtain ⟨older, hpast, hlen, hallowed⟩ := allowed_of_held hist he
  rw [Allowed, hp, hc] at hallowed
  exact ⟨older, (List.suffix_cons _ _).trans hpast, hlen, hallowed⟩

theorem Drawn.unique {m m' : Nat} {token jobId' : String} (h : Drawn l m token jobId)
    (h' : Drawn l m' token jobId') : m = m' ∧ jobId = jobId' := by
  -- The later of two draws would have found the earlier one.
  have key : ∀ {m m' : Nat} {jobId jobId' : String}, Drawn l m token jobId →
      Drawn l m' token jobId' → ¬ m < m' := by
    rintro m m' jobId jobId' ⟨e, he, hp, hc⟩ ⟨e', he', hp', hc'⟩ hlt
    obtain ⟨older, hpast, hlen, hallowed⟩ := allowed_of_held hist he'
    rw [Allowed, hp', hc'] at hallowed
    have hold := he.of_lt ((List.suffix_cons _ _).trans hpast) (by rw [hlen]; exact hlt)
    obtain ⟨w, f, hf, hfp, hfc, -⟩ := Store.removed_of_get_none hallowed hold hp hc
    obtain ⟨older', -, -, hremoved⟩ :=
      allowed_of_held (hist.of_suffix ((List.suffix_cons _ _).trans hpast)) hf
    rw [Allowed, hfp, hfc] at hremoved
    exact hremoved
  have hm : m = m' := by
    have hnot := key h h'
    have hnot' := key h' h
    omega
  subst hm
  obtain ⟨e, he, -, hc⟩ := h
  obtain ⟨e', he', -, hc'⟩ := h'
  rw [he.unique he', hc'] at hc
  cases hc
  exact ⟨rfl, rfl⟩

theorem StoredAt.drawn (h : StoredAt l v jobId lease) :
    ∃ m, m < v ∧ Drawn l m lease.fenceToken jobId := by
  obtain ⟨older, hpast, hlen, hwrite⟩ := h.written hist
  obtain ⟨m, hm⟩ := hwrite.drawn
  have hlt : m < v := by
    obtain ⟨e, he, -⟩ := hm
    rw [← hlen]
    exact he.lt
  exact ⟨m, hlt, hm.mono hpast⟩

/-- Nothing was stored at a lease's path that is absent: leases are never
removed. -/
theorem not_storedAt_of_absent (hnone : l.get (.lease jobId) = none)
    (h : StoredAt l v jobId lease) : False := by
  obtain ⟨e, he, hp, hc⟩ := h
  obtain ⟨w, f, hf, hfp, hfc, -⟩ := Store.removed_of_get_none hnone he hp hc
  obtain ⟨older, -, -, hremoved⟩ := allowed_of_held hist hf
  rw [Allowed, hfp, hfc] at hremoved
  exact hremoved

theorem unused_of_drawn {m : Nat} {token : String} (hm : Drawn l m token jobId)
    (hnewest : ∀ w lease, StoredAt l w jobId lease → w < m) : Unused l token := by
  intro w job stored hw htoken
  obtain ⟨m', hlt, hm'⟩ := hw.drawn hist
  rw [htoken] at hm'
  obtain ⟨rfl, rfl⟩ := hm'.unique hist hm
  have hw' := hnewest w stored hw
  omega

theorem leaseWrite_of_create (hl : Lineage l lease)
    (hnone : l.get (.lease lease.jobId) = none) : LeaseWrite l lease.jobId lease.toValue := by
  unfold Lineage at hl
  cases hv : lease.version with
  | some v =>
    simp only [hv] at hl
    obtain ⟨before, hstored, -⟩ := hl
    exact (not_storedAt_of_absent hist hnone hstored).elim
  | none =>
    simp only [hv] at hl
    obtain ⟨m, hm⟩ := hl
    refine ⟨rfl, ⟨m, hm⟩, fun before v hget => ?_, .inr ?_⟩
    · rw [hnone] at hget
      cases hget
    · exact unused_of_drawn hist hm fun w stored hw =>
        (not_storedAt_of_absent hist hnone hw).elim

/-- Saving a copy over the record it was read from. -/
theorem leaseWrite_of_save {old : Contents} (hl : Lineage l lease)
    (hv : lease.version = some v) (hget : l.get (.lease lease.jobId) = some (old, v)) :
    LeaseWrite l lease.jobId lease.toValue := by
  simp only [Lineage, hv] at hl
  obtain ⟨before, hstored, hchain, hfence⟩ := hl
  have hold : old = .lease before := by
    obtain ⟨e, he, -, hc⟩ := hstored
    exact Store.get_eq_of_held hget he hc
  subst hold
  have chained : ∀ b w, l.get (.lease lease.jobId) = some (.lease b, w) →
      Chain b.state lease.toValue.state := by
    intro b w hb
    rw [hget] at hb
    cases hb
    exact hchain
  rcases hfence with ⟨howner, htoken⟩ | ⟨m, hlt, hm⟩
  · refine ⟨rfl, ?_, chained, .inl ⟨before, v, hget, howner, htoken⟩⟩
    obtain ⟨m, -, hm⟩ := hstored.drawn hist
    exact ⟨m, by rw [← htoken] at hm; exact hm⟩
  · refine ⟨rfl, ⟨m, hm⟩, chained, .inr (unused_of_drawn hist hm fun w stored hw => ?_)⟩
    obtain ⟨e, he, hp, -⟩ := hw
    have hle := Store.le_of_get hget he hp
    omega

end History

end Stado.Leases
