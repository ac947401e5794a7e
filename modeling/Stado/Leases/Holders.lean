import Stado.Leases.Fencing

/-!
# The lease holders keep the rules

Every copy a client holds keeps its lineage under every command, so every write
of every run is one the rules of the leases allow.
-/

namespace Stado.Leases

open CasStore Program

variable {l : LeaseStore} {i : Nat} {lease : ProviderLease}

/-- A program that makes no storage call, judged by its result alone. -/
theorem meets_ownerExpired : Meets leasing i lease.ownerExpired (fun _ _ => True) l := by
  unfold ProviderLease.ownerExpired
  split
  · split
    · trivial
    · refine meets_bind (meets_query fun l1 _ _ now => ?_)
      split <;> trivial
  · refine meets_bind (meets_query fun l1 _ _ state => ?_)
    cases state with
    | this => exact meets_bind (meets_query fun _ _ _ _ => trivial)
    | _ => trivial

variable {ownerId fenceToken jobId : String} {ttl copy : Nat} {copies : Copies} {provider : String}
  {l' : LeaseStore}

theorem meets_assertFence :
    Meets leasing i (lease.assertFence ownerId fenceToken) (fun _ _ => True) l := by
  unfold ProviderLease.assertFence
  split
  · trivial
  · refine meets_bind (meets_ownerExpired.weaken fun expired l1 _ => ?_)
    cases expired <;> trivial

/-! ## Mutations of a copy -/

theorem meets_drawToken :
    Meets leasing i (drawToken jobId)
      (fun token l' => ∃ m, l.length ≤ m ∧ Drawn l' m token jobId) l := by
  refine meets_bind (meets_query fun l1 h1 _ token => ?_)
  refine meets_bind (meets_perform fun l2 h2 _ hfresh => ?_)
  have hnone : l2.get (.drawn token) = none := by
    have hsome := hfresh rfl
    simp only [Call.change] at hsome
    split at hsome
    · next h => exact Option.isNone_iff_eq_none.mp h
    · cases hsome
  simp only [Call.change, hnone, Option.isNone_none, if_true, Option.some.injEq,
    Prod.mk.injEq, Store.apply_some]
  constructor
  · rintro _ _ ⟨rfl, rfl⟩
    exact hnone
  · intro _
    exact ⟨l2.length, (h1.trans h2).length_le, _, Store.held_cons_self _ _, rfl, rfl⟩

theorem meets_newLease :
    Meets leasing i (newLease jobId provider ownerId ttl) (fun d l' => Lineage l' d) l := by
  refine meets_bind (meets_query fun l1 _ _ now => ?_)
  refine meets_bind (meets_query fun l2 _ hist2 holder => ?_)
  refine meets_then hist2 meets_drawToken fun token l3 _ _ hdrawn => ?_
  obtain ⟨m, -, hm⟩ := hdrawn
  exact meets_pure ⟨m, hm⟩

theorem meets_renewOwner (hist : History leasing l) (hl : Lineage l lease) :
    Meets leasing i (lease.renewOwner ownerId fenceToken) (fun d l' => Lineage l' d) l := by
  refine meets_then hist meets_assertFence fun _ l1 h1 _ _ => ?_
  refine meets_bind (meets_query fun l2 h2 _ now => ?_)
  have h := hl.mono (h1.trans h2)
  exact meets_pure h

theorem meets_renewResource (hist : History leasing l) (hl : Lineage l lease) :
    Meets leasing i (lease.renewResource ownerId fenceToken ttl) (fun d l' => Lineage l' d) l := by
  refine meets_then hist meets_assertFence fun _ l1 h1 _ _ => ?_
  refine meets_bind (meets_query fun l2 h2 _ now => ?_)
  have h := hl.mono (h1.trans h2)
  exact meets_pure h

theorem meets_relinquish (hist : History leasing l) (hl : Lineage l lease) :
    Meets leasing i (lease.relinquish ownerId fenceToken) (fun d l' => Lineage l' d) l := by
  refine meets_then hist meets_assertFence fun _ l1 h1 _ _ => ?_
  refine meets_bind (meets_query fun l2 h2 _ now => ?_)
  have h := hl.mono (h1.trans h2)
  exact meets_pure h

/-- A copy in a state that its own state leads to. -/
theorem Lineage.follow {state : String} {stamp : Option Stamp} (hl : Lineage l lease)
    (hfollows : Follows lease.state state) :
    Lineage l { lease with state := state, updatedAt := stamp } := by
  unfold Lineage at hl ⊢
  cases hv : lease.version with
  | none =>
    simp only [hv] at hl ⊢
    exact hl
  | some v =>
    simp only [hv] at hl ⊢
    obtain ⟨before, hstored, hchain, hfence⟩ := hl
    exact ⟨before, hstored, hchain.tail hfollows, hfence⟩

theorem meets_transition {state : LeaseState} (hist : History leasing l) (hl : Lineage l lease) :
    Meets leasing i (lease.transition state ownerId fenceToken) (fun d l' => Lineage l' d) l := by
  refine meets_then hist meets_assertFence fun _ l1 h1 _ _ => ?_
  cases hcurrent : LeaseState.fromStr lease.state with
  | none =>
    simp only []
    trivial
  | some current =>
    by_cases hallowed : state ∈ current.allowedTransitions
    · simp only [hallowed, not_true_eq_false, if_false]
      refine meets_bind (meets_query fun l2 h2 _ now => ?_)
      have h := hl.mono (h1.trans h2)
      exact meets_pure (h.follow ⟨current, state, hcurrent, hallowed, rfl⟩)
    · simp only [hallowed, not_false_eq_true, if_true]
      trivial

theorem Lineage.retake {m : Nat} {token host : String} {pid : Nat}
    {stated stamp : Option Stamp} (hl : Lineage l lease) (hpast : l.PastOf l')
    (hm : Drawn l' m token lease.jobId) (hlater : l.length ≤ m) :
    Lineage l' { lease with
      ownerId := ownerId, fenceToken := token, ownerHost := host, ownerPid := pid,
      ownerExpiresAt := stated, updatedAt := stamp } := by
  unfold Lineage at hl ⊢
  cases hv : lease.version with
  | none =>
    simp only [hv] at hl ⊢
    exact ⟨m, hm⟩
  | some v =>
    simp only [hv] at hl ⊢
    obtain ⟨before, hstored, hchain, -⟩ := hl
    have hlt := hstored.lt
    exact ⟨before, hstored.mono hpast, hchain, .inr ⟨m, by omega, hm⟩⟩

theorem meets_takeover (hist : History leasing l) (hl : Lineage l lease) :
    Meets leasing i (lease.takeover ownerId) (fun d l' => Lineage l' d) l := by
  refine meets_then hist meets_ownerExpired fun expired l1 h1 _ _ => ?_
  cases expired with
  | false => trivial
  | true =>
    refine meets_bind (meets_query fun l2 h2 hist2 process => ?_)
    refine meets_then hist2 meets_drawToken fun token l3 h3 _ hdrawn => ?_
    obtain ⟨m, hlater, hm⟩ := hdrawn
    refine meets_bind (meets_query fun l4 h4 _ now => ?_)
    exact meets_pure ((hl.mono (h1.trans h2)).retake (h3.trans h4) (hm.mono h4) hlater)

/-! ## Storage -/

theorem meets_leasePath :
    Meets leasing i (leasePath jobId) (fun path l' => path = .lease jobId ∧ l' = l) l := by
  unfold leasePath
  split
  · exact meets_pure ⟨rfl, rfl⟩
  · trivial

/-- A loaded copy is the record of its version. -/
theorem meets_load :
    Meets leasing i (load jobId)
      (fun found l' => ∀ d, found = some d → d.jobId = jobId ∧
        ∃ v before, d = { before with version := some v } ∧ StoredAt l' v jobId before) l := by
  refine meets_bind (meets_leasePath.weaken fun path l1 h1 => ?_)
  obtain ⟨rfl, rfl⟩ := h1
  refine meets_bind (meets_read fun l2 _ hist2 _ => ?_)
  cases hget : l2.get (.lease jobId) with
  | none =>
    refine meets_pure fun d hd => ?_
    cases hd
  | some found =>
    obtain ⟨content, v⟩ := found
    cases content with
    | token job => trivial
    | lease before =>
      refine meets_pure fun d hd => ?_
      cases hd
      have hstored := storedAt_of_get hget
      obtain ⟨older, -, -, hwrite⟩ := hstored.written hist2
      exact ⟨hwrite.named, v, before, rfl, hstored⟩

/-- A copy just read has its record for lineage. -/
theorem lineage_of_stored {v : Nat} {before : ProviderLease} (hstored : StoredAt l v jobId before)
    (hjob : before.jobId = jobId) : Lineage l { before with version := some v } := by
  subst hjob
  exact ⟨before, hstored, .refl, .inl ⟨rfl, rfl⟩⟩

theorem meets_save {expected : Option Nat} (hl : Lineage l lease) :
    Meets leasing i (save lease expected) (fun d l' => Lineage l' d) l := by
  unfold save
  split
  · trivial
  · next v =>
    split
    · trivial
    · next hversion =>
      rw [not_not] at hversion
      refine meets_bind (meets_leasePath.weaken fun path l1 h1 => ?_)
      obtain ⟨rfl, rfl⟩ := h1
      refine meets_bind (meets_swap ?_ ?_ ?_ ?_)
      · intro l2 old h2 hist2 hget _
        exact leaseWrite_of_save hist2 (hl.mono h2) hversion hget
      · intro l2 old h2 hget hist2
        refine meets_pure ⟨lease.toValue, ?_, .refl, .inl ⟨rfl, rfl⟩⟩
        exact ⟨_, Store.held_cons_self _ _, rfl, rfl⟩
      · exact fun _ _ _ _ _ _ _ _ => trivial
      · exact fun _ _ _ _ _ => trivial

theorem meets_create_lease (hist : History leasing l) (hl : Lineage l lease) :
    Meets leasing i (create lease) (fun d l' => Lineage l' d) l := by
  refine meets_bind (meets_leasePath.weaken fun path l1 h1 => ?_)
  obtain ⟨rfl, rfl⟩ := h1
  refine meets_then hist (Q := fun _ _ => True) (meets_create ?_ ?_ ?_)
    fun created l2 h2 hist2 _ => ?_
  · intro l2 h2 hist2 hnone _
    exact leaseWrite_of_create hist2 (hl.mono h2) hnone
  · exact fun _ _ _ _ => trivial
  · exact fun _ _ _ _ => trivial
  · cases created with
    | false => trivial
    | true =>
      refine meets_then hist2 meets_load fun found l3 h3 _ hfound => ?_
      cases found with
      | none => trivial
      | some d =>
        show Meets leasing i (if d.toValue ≠ lease.toValue then _ else _) _ l3
        split
        · trivial
        · next hsame =>
          rw [not_not] at hsame
          obtain ⟨-, v, before, rfl, hstored⟩ := hfound d rfl
          obtain ⟨hstate, howner, htoken⟩ := ProviderLease.eq_of_toValue hsame
          refine meets_pure ⟨before, hstored, ?_, .inl ⟨howner.symm, htoken.symm⟩⟩
          show Chain before.state lease.state
          have hstate : before.state = lease.state := hstate
          rw [hstate]

theorem meets_acquire (hist : History leasing l) :
    Meets leasing i (acquire jobId provider ownerId ttl) (fun d l' => Lineage l' d) l := by
  refine meets_then hist meets_newLease fun lease l1 _ hist1 hl => ?_
  refine meets_then hist1 (Q := fun result l' => ∀ d, result = .ok d → Lineage l' d) ?_
    fun result l2 _ hist2 hresult => ?_
  · refine meets_attempt ((meets_create_lease hist1 hl).weaken fun d l2 hd => ?_) hist1 ?_
    · rintro _ ⟨rfl⟩
      exact hd
    · intro e l2 _ _ d hd
      cases hd
  · cases result with
    | ok created => exact meets_pure (hresult created rfl)
    | error error =>
      show Meets leasing i (if (!error.isConflict) = true then _ else _) _ l2
      split
      · trivial
      · refine meets_then hist2 meets_load fun found l3 _ hist3 hfound => ?_
        cases found with
        | none => trivial
        | some current =>
          show Meets leasing i (if _ then _ else _) _ l3
          split
          · trivial
          · obtain ⟨hjob, v, before, rfl, hstored⟩ := hfound current rfl
            have hcurrent := lineage_of_stored hstored hjob
            exact meets_then hist3 (meets_takeover hist3 hcurrent) fun taken l4 _ _ htaken =>
              meets_save htaken

/-! ## Sessions -/

/-- Every copy the client holds has its lineage. -/
def Held (copies : Copies) (l : LeaseStore) : Prop :=
  ∀ n d, copies n = some d → Lineage l d

theorem Held.mono (hl : l.PastOf l') (h : Held copies l) : Held copies l' :=
  fun n d hd => (h n d hd).mono hl

theorem Held.set (h : Held copies l) (hl : Lineage l lease) : Held (copies.set copy lease) l := by
  intro n d hd
  simp only [Copies.set] at hd
  split at hd
  · cases hd
    exact hl
  · exact h n d hd

theorem meets_update {f : ProviderLease → Leasing ProviderLease}
    (hist : History leasing l) (h : Held copies l)
    (hf : ∀ d, Lineage l d → Meets leasing i (f d) (fun d' l' => Lineage l' d') l) :
    Meets leasing i (copies.update copy f) Held l := by
  unfold Copies.update
  split
  · exact meets_pure h
  · next d hd =>
    refine meets_then hist (Q := fun result l' => ∀ d', result = .ok d' → Lineage l' d') ?_
      fun result l1 h1 _ hresult => ?_
    · refine meets_attempt ((hf d (h copy d hd)).weaken fun d' l1 hd' => ?_) hist ?_
      · rintro _ ⟨rfl⟩
        exact hd'
      · intro e l1 _ _ d' hd'
        cases hd'
    · cases result with
      | ok changed => exact meets_pure ((h.mono h1).set (hresult changed rfl))
      | error _ => exact meets_pure (h.mono h1)

theorem meets_fill {f : Leasing (Option ProviderLease)}
    (hist : History leasing l) (h : Held copies l)
    (hf : Meets leasing i f (fun found l' => ∀ d, found = some d → Lineage l' d) l) :
    Meets leasing i (copies.fill copy f) Held l := by
  unfold Copies.fill
  refine meets_then hist
    (Q := fun result l' => ∀ d, result = .ok (some d) → Lineage l' d) ?_
    fun result l1 h1 _ hresult => ?_
  · refine meets_attempt (hf.weaken fun found l1 hd => ?_) hist ?_
    · rintro d ⟨rfl⟩
      exact hd d rfl
    · intro e l1 _ _ d hd
      cases hd
  · cases result with
    | error _ => exact meets_pure (h.mono h1)
    | ok found =>
      cases found with
      | none => exact meets_pure (h.mono h1)
      | some d => exact meets_pure ((h.mono h1).set (hresult d rfl))

theorem meets_run {command : Command} (hist : History leasing l)
    (h : Held copies l) : Meets leasing i (command.run copies) Held l := by
  have some_of {f : Leasing ProviderLease}
      (hf : Meets leasing i f (fun d l' => Lineage l' d) l) :
      Meets leasing i (f.bind fun d => .pure (some d))
        (fun found l' => ∀ d, found = some d → Lineage l' d) l := by
    refine meets_bind (hf.weaken fun d l1 hd => meets_pure ?_)
    rintro _ ⟨rfl⟩
    exact hd
  cases command with
  | load copy jobId =>
    refine meets_fill hist h (meets_load.weaken fun found l1 hfound d hd => ?_)
    obtain ⟨hjob, v, before, rfl, hstored⟩ := hfound d hd
    exact lineage_of_stored hstored hjob
  | clone copy source => exact meets_fill hist h (meets_pure (h source))
  | new copy jobId provider ownerId ttl => exact meets_fill hist h (some_of meets_newLease)
  | create copy => exact meets_update hist h fun _ => meets_create_lease hist
  | acquire copy jobId provider ownerId ttl =>
    exact meets_fill hist h (some_of (meets_acquire hist))
  | takeover copy ownerId => exact meets_update hist h fun _ => meets_takeover hist
  | transition copy state ownerId token =>
    exact meets_update hist h fun _ => meets_transition hist
  | renewOwner copy ownerId token => exact meets_update hist h fun _ => meets_renewOwner hist
  | renewResource copy ownerId token ttl =>
    exact meets_update hist h fun _ => meets_renewResource hist
  | relinquish copy ownerId token => exact meets_update hist h fun _ => meets_relinquish hist
  | record copy progress => exact meets_update hist h fun _ hd => meets_pure hd
  | save copy expected => exact meets_update hist h fun _ => meets_save

theorem meets_session {commands : List Command} (hist : History leasing l) :
    Meets leasing i (session commands) (fun _ _ => True) l := by
  have start : Held (fun _ => none) l := by
    intro n d hd
    cases hd
  refine meets_bind (meets_foldList
    (I := fun copies l' => Held copies l' ∧ History leasing l') ⟨start, hist⟩ ?_ ?_)
  · intro command _ copies l1 h1 hcopies
    exact (meets_run hcopies.2 hcopies.1).mono hcopies.2 fun _ l2 h2 hist2 hheld =>
      ⟨h1.trans h2, hheld, hist2⟩
  · exact fun _ _ _ _ => trivial

abbrev Runs (s : LeaseSystem) : Prop :=
  System.Reaches holders (System.Respects leasing) ⟨[], []⟩ s

/-- Every write of a run is one the rules allow. -/
theorem holders_sound {s : LeaseSystem} (h : Runs s) : History leasing s.store := by
  have hstart : System.Sound leasing (fun _ _ _ _ => True) (⟨[], []⟩ : LeaseSystem) :=
    System.Sound.initial
  refine (hstart.reaches (fun _ op fuel i l _ hist _ => ?_) (fun _ _ _ hok => hok) h).history
  exact meets_session hist

end Stado.Leases
