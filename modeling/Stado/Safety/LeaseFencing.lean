import Stado.Leases.Holders

/-!
# Provider leases are fenced

The stored writes of every run, read off the store: each changes the state by
allowed transitions, no fence is handed out twice, and who keeps a fence keeps
its owner.
-/

namespace Stado.Leases

open CasStore List

/-! ## The writes of a store -/

def current (l : LeaseStore) (jobId : String) : Option ProviderLease :=
  match l.get (.lease jobId) with
  | some (.lease lease, _) => some lease
  | _ => none

/-- A stored write of a lease, and the record it replaced. -/
structure StoredChange where
  before : Option ProviderLease
  after : ProviderLease

def writes : LeaseStore → List StoredChange
  | [] => []
  | e :: older =>
    match e.path, e.content with
    | .lease jobId, some (.lease after) => ⟨current older jobId, after⟩ :: writes older
    | _, _ => writes older

def StoredChange.handsOut (w : StoredChange) : Option String :=
  if w.before.map ProviderLease.fenceToken = some w.after.fenceToken then none
  else some w.after.fenceToken

/-- The fences handed out, newest first. -/
def handedOut (l : LeaseStore) : List String := (writes l).filterMap StoredChange.handsOut

/-- Some answers of the environment let the pair pass `assert_fence`. -/
def Passes (lease : ProviderLease) (ownerId fenceToken : String) : Prop :=
  (lease.assertFence ownerId fenceToken).Returns ()

variable {l : LeaseStore} {e : LeaseEntry} {w : StoredChange} {before : ProviderLease}
  {token : String} {jobId : String}

theorem get_of_current
    (h : current l jobId = some before) : ∃ v, l.get (.lease jobId) = some (.lease before, v) := by
  unfold current at h
  split at h
  · next lease v hget =>
    cases h
    exact ⟨v, hget⟩
  · cases h

theorem current_eq_of_get {v : Nat}
    (h : l.get (.lease jobId) = some (.lease before, v)) : current l jobId = some before := by
  simp [current, h]

theorem writes_cons (h : History leasing (e :: l)) :
    writes (e :: l) = writes l ∨ ∃ jobId w, w.before = current l jobId ∧
      LeaseWrite l jobId w.after ∧ writes (e :: l) = w :: writes l := by
  have hallowed : Allowed l e := h.allowed
  rw [writes]
  split
  · next jobId after hp hc =>
    rw [Allowed, hp, hc] at hallowed
    exact Or.inr ⟨jobId, _, rfl, hallowed, rfl⟩
  · exact Or.inl rfl

theorem storedAt_of_mem_writes (hw : w ∈ writes l) : ∃ v jobId, StoredAt l v jobId w.after := by
  induction l with
  | nil => cases hw
  | cons e older ih =>
    rw [writes] at hw
    have hold (hw : w ∈ writes older) : ∃ v jobId, StoredAt (e :: older) v jobId w.after := by
      obtain ⟨v, jobId, hstored⟩ := ih hw
      exact ⟨v, jobId, hstored.mono (suffix_cons _ _)⟩
    split at hw
    · next jobId after hp hc =>
      rcases mem_cons.mp hw with rfl | hw
      · exact ⟨_, jobId, e, Store.held_cons_self _ _, hp, hc⟩
      · exact hold hw
    · exact hold hw

theorem handsOut_eq (h : w.handsOut = some token) :
    w.before.map ProviderLease.fenceToken ≠ some w.after.fenceToken ∧
      w.after.fenceToken = token := by
  unfold StoredChange.handsOut at h
  split at h
  · cases h
  · next hne =>
    cases h
    exact ⟨hne, rfl⟩

theorem not_mem_handedOut (h : Unused l token) : token ∉ handedOut l := by
  intro hmem
  obtain ⟨w, hw, htoken⟩ := mem_filterMap.mp hmem
  obtain ⟨v, jobId, hstored⟩ := storedAt_of_mem_writes hw
  exact h v jobId _ hstored (handsOut_eq htoken).2

/-- Only the stored pair passes. -/
theorem eq_of_passes {lease : ProviderLease} {ownerId fenceToken : String}
    (h : Passes lease ownerId fenceToken) :
    lease.ownerId = ownerId ∧ lease.fenceToken = fenceToken := by
  unfold Passes ProviderLease.assertFence at h
  split at h
  · exact h.elim
  · next hsame =>
    rw [not_or, not_not, not_not] at hsame
    exact hsame

/-! ## Runs -/

structure LeasesFenced (l : LeaseStore) : Prop where
  chained : ∀ w ∈ writes l, ∀ before ∈ w.before, Chain before.state w.after.state
  holder : ∀ jobId lease, current l jobId = some lease → ∀ owner fence owner' fence',
    Passes lease owner fence → Passes lease owner' fence' → owner = owner' ∧ fence = fence'
  once : (handedOut l).Nodup
  kept : ∀ w ∈ writes l, ∀ before ∈ w.before,
    w.after.fenceToken = before.fenceToken → w.after.ownerId = before.ownerId

/-- What the rule of the leases gives of a write holds of every write. -/
theorem forall_writes {P : StoredChange → Prop} (h : History leasing l)
    (hP : ∀ (older : LeaseStore) jobId w, w.before = current older jobId →
      LeaseWrite older jobId w.after → P w) : ∀ w ∈ writes l, P w := by
  induction h with
  | nil => exact fun w hw => (not_mem_nil hw).elim
  | @cons s e older allowed cond ih =>
    rcases writes_cons (.cons older allowed cond) with hsame | ⟨jobId, u, hb, hwrite, hcons⟩
    · rw [hsame]
      exact ih
    · rw [hcons]
      intro w hw
      rcases mem_cons.mp hw with rfl | hw
      · exact hP s jobId w hb hwrite
      · exact ih w hw

theorem chained_writes (h : History leasing l) : ∀ w ∈ writes l, ∀ before ∈ w.before,
    Chain before.state w.after.state := by
  refine forall_writes h fun older jobId w hb hwrite before hbefore => ?_
  rw [hb, Option.mem_def] at hbefore
  obtain ⟨v, hget⟩ := get_of_current hbefore
  exact hwrite.chained before v hget

/-- A write that carries the fence it replaces keeps its owner, since the other
writes bring a fence that was never stored. -/
theorem kept_owners (h : History leasing l) : ∀ w ∈ writes l, ∀ before ∈ w.before,
    w.after.fenceToken = before.fenceToken → w.after.ownerId = before.ownerId := by
  refine forall_writes h fun older jobId w hb hwrite before hbefore hfence => ?_
  rw [hb, Option.mem_def] at hbefore
  obtain ⟨v, hget⟩ := get_of_current hbefore
  rcases hwrite.fenced with ⟨b, u, hget', howner, -⟩ | hunused
  · rw [hget] at hget'
    cases hget'
    exact howner
  · exact absurd hfence.symm (hunused v jobId before (storedAt_of_get hget))

theorem nodup_handedOut (h : History leasing l) : (handedOut l).Nodup := by
  induction h with
  | nil => exact nodup_nil
  | @cons s e older allowed cond ih =>
    rcases writes_cons (.cons older allowed cond) with hsame | ⟨jobId, w, hb, hwrite, hcons⟩
    · rw [handedOut, hsame]
      exact ih
    · rw [handedOut, hcons, filterMap_cons]
      cases hout : w.handsOut with
      | none => exact ih
      | some token =>
        obtain ⟨hne, rfl⟩ := handsOut_eq hout
        refine nodup_cons.mpr ⟨?_, ih⟩
        rcases hwrite.fenced with ⟨before, v, hget, -, hsame⟩ | hunused
        · rw [hb, current_eq_of_get hget, hsame] at hne
          exact absurd rfl hne
        · exact not_mem_handedOut hunused

/-- Owner `a` creates a lease, makes two steps on its copy and saves them in one
write. Its process ends, and `b` takes the lease over, makes a step and saves
both in one write. -/
def handover : List LeaseEvent :=
  [.start [.new 0 "j" "boat" "a" 60, .create 0, .transition 0 .provisioning "a" "ff",
      .transition 0 .ready "a" "ff", .save 0 (some 1)] 0,
    .answer 0 (.instant 5), .answer 0 (.process "h" 1), .answer 0 (.uuid "ff"), .call 0, .call 0,
    .call 0, .answer 0 (.ownerState .running), .answer 0 (.instant 6),
    .answer 0 (.ownerState .running), .answer 0 (.instant 7), .call 0,
    .start [.load 0 "j", .takeover 0 "b", .transition 0 .starting "b" "00", .save 0 (some 2)] 0,
    .call 1, .answer 1 (.ownerState .gone), .answer 1 (.process "h" 2), .answer 1 (.uuid "00"),
    .call 1, .answer 1 (.instant 8), .answer 1 (.ownerState .running), .answer 1 (.instant 9),
    .call 1]

/-- The stored state is left as it is or moved by one allowed transition. -/
def SingleSteps (l : LeaseStore) : Prop :=
  ∀ w ∈ writes l, ∀ before ∈ w.before,
    w.after.state = before.state ∨ Follows before.state w.after.state

def FencesIncrease (l : LeaseStore) : Prop :=
  (handedOut l).Pairwise fun later earlier => earlier < later

def ChangedUnderFence (l : LeaseStore) : Prop :=
  ∀ w ∈ writes l, ∀ before ∈ w.before,
    w.after.state ≠ before.state → w.after.fenceToken = before.fenceToken

instance (before after : String) : Decidable (Follows before after) :=
  match h : LeaseState.fromStr before with
  | none => isFalse fun ⟨s, _, hs, _⟩ => by rw [h] at hs; cases hs
  | some s =>
    decidable_of_iff (∃ t ∈ s.allowedTransitions, after = t.asStr)
      ⟨fun ⟨t, ht, ha⟩ => ⟨s, t, h, ht, ha⟩,
        fun ⟨s', t, hs, ht, ha⟩ => by rw [h] at hs; cases hs; exact ⟨t, ht, ha⟩⟩

instance (l : LeaseStore) : Decidable (SingleSteps l) := by
  unfold SingleSteps
  infer_instance

instance (l : LeaseStore) : Decidable (FencesIncrease l) := by
  unfold FencesIncrease
  infer_instance

instance (l : LeaseStore) : Decidable (ChangedUnderFence l) := by
  unfold ChangedUnderFence
  infer_instance

end Stado.Leases
