import Stado.Autonomy.Standing

/-!
# What lease operations promise

What a coordinator knows about ids, leases and the clock that no other can make
false, what each storage action answers, and from both a specification for each
lease operation.
-/

namespace Stado.Autonomy

open CasStore Crew Option World Call

variable {g : Regime} {C : Terms} {i : ℕ}

/-- Every world steps lead to under a policy. -/
abbrev LivedIn (g : Regime) (C : Terms) (w : World) : Prop := Lived setting (rules g) C w

/-- What coordinator `i` knows for good. -/
abbrev Knows (g : Regime) (C : Terms) (i : ℕ) (P : World → Prop) : Prop :=
  Stable setting (rules g) C i P

/-- A routine of coordinator `i` does as it should. -/
abbrev Right (g : Regime) (C : Terms) (i : ℕ) {α : Type} (p : Autonomous α)
    (Q : α → World → Prop) (E : World → Prop) (w : World) : Prop :=
  Does setting (rules g) C i p Q E w

/-! ## Actions -/

variable {w' : World} {site : Site} {choice : Choice} {owner : ProcessOwner} {p : Path}
  {v asked : ℕ} {decision : String} {w : World} {subject : String} {c : Contents}
  {operation : String} {ttl : Option ℕ}

theorem perform_now {t : ℕ}
    (h : setting.perform i (.now site) choice w = some (t, w')) : t = w.clock ∧ w' = w := by
  cases choice <;> simp only [setting, perform, Option.some.injEq, Prod.mk.injEq, reduceCtorEq] at h
  exact ⟨h.1.symm, h.2.symm⟩

theorem perform_uuid {id : String} (h : setting.perform i .uuid choice w = some (id, w')) :
    (∀ j, ¬ w.drew j id) ∧ w' = { w with drawn := (id, i) :: w.drawn } := by
  cases choice <;> simp only [setting, perform, reduceCtorEq] at h
  split at h
  · cases h
  · next hnew =>
    simp only [Option.some.injEq, Prod.mk.injEq] at h
    obtain ⟨rfl, rfl⟩ := h
    refine ⟨fun j hj => hnew ?_, rfl⟩
    simpa using ⟨j, hj⟩

theorem perform_process
    (h : setting.perform i .currentProcess choice w = some (owner, w')) : w' = w := by
  cases choice <;> simp only [setting, perform, Option.some.injEq, Prod.mk.injEq, reduceCtorEq] at h
  exact h.2.symm

theorem perform_ownerState {state : OwnerState}
    (h : setting.perform i (.ownerState owner) choice w = some (state, w')) :
    w' = w ∧ (state = .gone → owner ∈ w.gone) := by
  cases choice <;> simp only [setting, perform, reduceCtorEq] at h
  split at h
  · cases h
  · next hgone =>
    simp only [Option.some.injEq, Prod.mk.injEq] at h
    obtain ⟨rfl, rfl⟩ := h
    refine ⟨rfl, fun heq => ?_⟩
    by_contra hnot
    exact hgone ⟨heq, hnot⟩

/-- What a read answers, and that it changes nothing else than what the reader's
control gate has seen. -/
structure ReadDone (w w' : World) : Prop where
  store : w'.store = w.store
  clock : w'.clock = w.clock
  drawn : w'.drawn = w.drawn
  gone : w'.gone = w.gone
  executions : w'.executions = w.executions

theorem perform_read {b : Except StorageError (Option (Contents × ℕ))}
    (h : setting.perform i (.read site p) choice w = some (b, w')) :
    ReadDone w w' ∧ (b = .ok (w.store.get p) ∨ b = .error .backend) ∧
      (site = .controlRead → w'.gates i = w.store) ∧ (choice = .done → b = .ok (w.store.get p)) := by
  simp only [setting, perform, map_eq_some_iff] at h
  obtain ⟨⟨answer, w₁⟩, hcall, heq⟩ := h
  simp only [Prod.mk.injEq] at heq
  obtain ⟨rfl, rfl⟩ := heq
  have hsame : w₁ = w := by
    rcases call_cases hcall with rfl | ⟨p', content, hchange, -⟩
    · rfl
    · cases hchange
  subst hsame
  refine ⟨?_, ?_, ?_, ?_⟩
  · split <;> exact ⟨rfl, rfl, rfl, rfl, rfl⟩
  · cases choice <;> simp only [call, Option.some.injEq, Prod.mk.injEq, reduceCtorEq]
      at hcall
    · exact .inl hcall.1.symm
    · exact .inr hcall.1.symm
  · rintro rfl
    simp
  · rintro rfl
    simp only [call, Option.some.injEq, Prod.mk.injEq] at hcall
    exact hcall.1.symm

/-- What a write answers: it was made, it was refused and nothing changed, or the
answer was lost. -/
theorem perform_create
    {b : Except StorageError Bool}
    (h : setting.perform i (.create site p c) choice w = some (b, w')) :
    (b = .ok true ∧ w.store.get p = none ∧
        w' = { w with store := ⟨p, some c, site, i⟩ :: w.store }) ∨
      (b = .ok false ∧ w.store.get p ≠ none ∧ w' = w) ∨
      (b = .error .backend ∧ choice ≠ .done) := by
  cases choice <;> simp only [setting, perform, call, Option.some.injEq, Prod.mk.injEq,
    reduceCtorEq] at h
  · obtain ⟨rfl, rfl⟩ := h
    cases hget : w.store.get p with
    | none => exact .inl (by simp [answer, change, hget])
    | some found => exact .inr (.inl (by simp [answer, change, hget]))
  · exact .inr (.inr ⟨h.1.symm, by simp⟩)

theorem perform_swap {version : ℕ}
    {b : Except StorageError Swap}
    (h : setting.perform i (.swap site p version c) choice w = some (b, w')) :
    (b = .ok (.stored w.store.length) ∧ (∃ old, w.store.get p = some (old, version)) ∧
        w' = { w with store := ⟨p, some c, site, i⟩ :: w.store }) ∨
      ((b = .ok .conflict ∨ b = .ok .notFound) ∧ w' = w ∧
        ∀ old, w.store.get p ≠ some (old, version)) ∨
      (b = .error .backend ∧ choice ≠ .done) := by
  cases choice <;> simp only [setting, perform, call, Option.some.injEq, Prod.mk.injEq,
    reduceCtorEq] at h
  · obtain ⟨rfl, rfl⟩ := h
    cases hget : w.store.get p with
    | none => exact .inr (.inl (by simp [answer, change, hget]))
    | some found =>
      obtain ⟨old, v⟩ := found
      by_cases hv : v = version
      · exact .inl (by simp [answer, change, hget, hv])
      · exact .inr (.inl (by simp [answer, change, hget, hv]))
  · exact .inr (.inr ⟨h.1.symm, by simp⟩)

/-- What holds after a swap: one thing if it was stored, another if not. -/
def Took (answer : Swap) (stored refused : Prop) : Prop :=
  match answer with
  | .stored _ => stored
  | _ => refused

theorem perform_begin {lease : PlacementLease} {b : Unit}
    (h : setting.perform i (.begin operation lease) choice w = some (b, w')) :
    w' = { w with executions :=
      ⟨operation, i, lease, w.clock, w.store.length, w.gates i, none⟩ :: w.executions } := by
  cases choice <;> simp only [setting, perform, Option.some.injEq, Prod.mk.injEq, reduceCtorEq] at h
  exact h.2.symm

theorem perform_finish {outcome : Outcome}
    (h : setting.perform i (.finish operation) choice w = some (outcome, w')) :
    w' = { w with executions := w.executions.map (Execution.finished operation outcome) } := by
  cases choice <;> simp only [setting, perform, Option.some.injEq, Prod.mk.injEq, reduceCtorEq] at h
  obtain ⟨rfl, rfl⟩ := h
  rfl

/-! ## Actions that are allowed -/

theorem allowed_create (h : w.store.get p = none → w.permits g i site p (some c)) :
    (rules g).allowed i (.create site p c) w := by
  intro site' p' c' hwrites
  simp only [Act.writes, change] at hwrites
  split at hwrites
  · next hnone =>
    cases hwrites
    exact h (isNone_iff_eq_none.mp hnone)
  · cases hwrites

theorem allowed_swap {version : ℕ}
    (h : ∀ old, w.store.get p = some (old, version) → w.permits g i site p (some c)) :
    (rules g).allowed i (.swap site p version c) w := by
  intro site' p' c' hwrites
  simp only [Act.writes, change] at hwrites
  split at hwrites
  · next hversion =>
    cases hwrites
    rw [map_eq_some_iff] at hversion
    obtain ⟨⟨old, v⟩, hget, rfl⟩ := hversion
    exact h old hget
  · cases hwrites

theorem allowed_put
    (h : w.permits g i site p (some c)) : (rules g).allowed i (.put site p c) w := by
  intro site' p' c' hwrites
  cases hwrites
  exact h

theorem allowed_delete (h : ∀ c v, w.store.get p = some (c, v) → w.permits g i site p none) :
    (rules g).allowed i (.delete site p) w := by
  intro site' p' c' hwrites
  simp only [Act.writes, change] at hwrites
  split at hwrites
  · next hsome =>
    cases hwrites
    obtain ⟨⟨c, v⟩, hget⟩ := isSome_iff_exists.mp hsome
    exact h c v hget
  · cases hwrites

theorem allowed_read : (rules g).allowed i (.read site p) w := by
  intro site' p' c' hwrites
  cases hwrites

theorem allowed_now : (rules g).allowed i (.now site) w := by
  intro site' p' c' hwrites
  cases hwrites

theorem allowed_uuid : (rules g).allowed i .uuid w := by
  intro site' p' c' hwrites
  cases hwrites

theorem allowed_process : (rules g).allowed i .currentProcess w := by
  intro site' p' c' hwrites
  cases hwrites

theorem allowed_ownerState : (rules g).allowed i (.ownerState owner) w := by
  intro site' p' c' hwrites
  cases hwrites

/-! ## What stays known -/

theorem knows_drew {id : String} : Knows g C i fun w => w.drew i id :=
  ⟨fun _ _ hstep hdrew => drew_of_changed (changed_of_step hstep) hdrew⟩

theorem knows_clock {t : ℕ} : Knows g C i fun w => t ≤ w.clock :=
  ⟨fun _ _ hstep ht => clock_of_changed (changed_of_step hstep) ht⟩

theorem knows_wrote {lease : PlacementLease} : Knows g C i fun w => w.wrote v subject lease :=
  ⟨fun _ _ hstep hwrote => wrote_of_changed (changed_of_step hstep) hwrote⟩

theorem knows_over {lease : PlacementLease} : Knows g C i fun w => lease.over w :=
  ⟨fun _ _ hstep hover => over_of_changed (changed_of_step hstep) hover⟩

theorem lease_of_other {who : Option ℕ} {lease : PlacementLease} (hwho : who ≠ some i)
    (hstep : Step setting (rules g) C who w w') (hwrote : w'.wrote v subject lease) :
    w.wrote v subject lease ∨ ∃ j, j ≠ i ∧ LeaseWrite g w j subject lease := by
  rcases new_lease (changed_of_step hstep) hwrote with hold | ⟨j, site, rfl, -, hlease, -⟩
  · exact .inl hold
  · exact .inr ⟨j, fun heq => hwho (congrArg some heq), hlease⟩

/-- The token has not been written in a lease. -/
def World.unused (w : World) (token : String) : Prop :=
  ∀ v subject older, w.wrote v subject older → older.token ≠ token

def World.undecided (g : Regime) (w : World) (decision : String) : Prop :=
  ∀ v subject older, w.wrote v subject older → some older.holder = g.reserved →
    older.decisionId ≠ decision

theorem knows_unused {token : String} : Knows g C i fun w => w.drew i token ∧ w.unused token := by
  refine ⟨fun {who w w'} hwho hw hstep hknown => ?_⟩
  obtain ⟨hdrew, hunused⟩ := hknown
  refine ⟨knows_drew.keeps hwho hw hstep hdrew, fun v subject older hwrote heq => ?_⟩
  rcases lease_of_other hwho hstep hwrote with hold | ⟨j, hj, hlease⟩
  · exact hunused v subject older hold heq
  · cases hlease with
    | granted hsubject ok free => exact hj ((tidy hw).drawn token j i (heq ▸ ok.1) hdrew)
    | foreign prior u hget htoken old holder =>
      exact hunused u subject prior (wrote_of_get hget) (htoken ▸ heq)
    | own prior u t hget drew ended hnew =>
      subst hnew
      exact hunused u subject prior (wrote_of_get hget) heq

theorem knows_undecided : Knows g C i fun w => w.drew i decision ∧ w.undecided g decision := by
  refine ⟨fun {who w w'} hwho hw hstep hknown => ?_⟩
  obtain ⟨hdrew, hnone⟩ := hknown
  refine ⟨knows_drew.keeps hwho hw hstep hdrew, fun v subject older hwrote hheld heq => ?_⟩
  rcases lease_of_other hwho hstep hwrote with hold | ⟨j, hj, hlease⟩
  · exact hnone v subject older hold hheld heq
  · cases hlease with
    | granted hsubject ok free =>
      exact hj ((tidy hw).drawn decision j i (heq ▸ ok.2.2 hheld) hdrew)
    | foreign prior u hget htoken old holder => exact holder hheld
    | own prior u t hget drew ended hnew =>
      subst hnew
      exact hnone u subject prior (wrote_of_get hget) hheld heq

theorem knows_own {lease : PlacementLease} : Knows g C i fun w => w.Own g i lease := by
  refine ⟨fun {who w w'} hwho hw hstep hown => ?_⟩
  refine ⟨hown.holder, knows_drew.keeps hwho hw hstep hown.token,
    knows_drew.keeps hwho hw hstep hown.decision, ?_⟩
  obtain ⟨v, hwrote, hnewest⟩ := hown.sole
  refine ⟨v, knows_wrote.keeps hwho hw hstep hwrote, fun v' subject newer hnewer hsame => ?_⟩
  rcases lease_of_other hwho hstep hnewer with hold | ⟨j, hj, hlease⟩
  · exact hnewest v' subject newer hold hsame
  · exfalso
    cases hlease with
    | granted hsubject ok free =>
      rcases hsame with htoken | ⟨hheld, hdecision⟩
      · exact hj ((tidy hw).drawn _ j i (htoken ▸ ok.1) hown.token)
      · exact hj ((tidy hw).drawn _ j i (hdecision ▸ ok.2.2 ((congrArg some hheld).trans hown.holder))
          hown.decision)
    | foreign prior u hget token old holder =>
      rcases hsame with htoken | ⟨hheld, -⟩
      · exact old (((tidy hw).same _ _ _ _ _ _ (wrote_of_get hget) hwrote
          (token ▸ htoken)).2.mpr hown.holder)
      · exact holder ((congrArg some hheld).trans hown.holder)
    | own prior u t hget drew ended hnew =>
      subst hnew
      obtain ⟨k, htoken, hdecision⟩ := (tidy hw).token u subject prior (wrote_of_get hget)
      obtain rfl := (tidy hw).drawn _ k j htoken drew
      rcases hsame with heq | ⟨hheld, heq⟩
      · exact hj ((tidy hw).drawn _ k i (heq ▸ drew) hown.token)
      · exact hj ((tidy hw).drawn _ k i (heq ▸ hdecision ((congrArg some hheld).trans hown.holder))
          hown.decision)

theorem lease_of_version {lease : PlacementLease} {old : Contents}
    (hw : LivedIn g C w) (hwrote : w.wrote v subject lease)
    (hget : w.store.get (.lease subject) = some (old, v)) : old = .lease lease := by
  obtain ⟨found, rfl⟩ := (tidy hw).standing subject old v hget
  rw [(wrote_of_get hget).unique hwrote |>.2]

theorem World.Own.stands {lease : PlacementLease} (hown : w.Own g i lease)
    (hw : LivedIn g C w) (hover : ¬ lease.over w) :
    ∃ v, w.store.get (.lease lease.subjectId) = some (.lease lease, v) := by
  obtain ⟨v, hwrote, hnewest⟩ := hown.sole
  rcases (tidy hw).settled v _ lease hwrote with hended | hget | ⟨v', newer, hlt, hnewer, htoken⟩
  · exact absurd hended hover
  · exact ⟨v, hget⟩
  · have hle := hnewest v' _ newer hnewer (.inl htoken)
    omega

theorem World.Own.eq_of_get {lease found : PlacementLease} (hown : w.Own g i lease)
    (hget : w.store.get (.lease lease.subjectId) = some (.lease found, v))
    (hsame : found.token = lease.token ∨
      (found.holder = lease.holder ∧ found.decisionId = lease.decisionId)) : found = lease := by
  obtain ⟨u, hwrote, hnewest⟩ := hown.sole
  have hle := hnewest v _ found (wrote_of_get hget) hsame
  have hge := hwrote.le_of_get hget
  obtain rfl : u = v := by omega
  exact ((wrote_of_get hget).unique hwrote).2

/-! ## Acquiring -/

theorem right_orFail {α : Type} {x : Except String α} {Q : α → World → Prop} {E : World → Prop}
    (hok : ∀ a, x = .ok a → Q a w) (herror : ∀ why, x = .error why → E w) :
    Right g C i (orFail x) Q E w := by
  cases x with
  | ok a => exact .pure (hok a rfl)
  | error why => exact .fail (herror why rfl)

theorem right_activeAt {lease : PlacementLease} {P : World → Prop}
    (hP : Knows g C i P) (hw : LivedIn g C w) (hold : P w) (hasked : asked ≤ w.clock) :
    Right g C i (lease.activeAt asked) (fun active w => P w ∧ (active = false → lease.over w))
      (fun _ => True) w := by
  unfold PlacementLease.activeAt
  cases hexpires : lease.expiresAt with
  | none =>
    simp only
    split
    · next hdefault =>
      refine .pure ⟨hold, fun _ => ?_⟩
      simp only [PlacementLease.over, hexpires]
      exact .inl hdefault
    · refine .bind (Does.take hP hw hold
          (Q := fun state w => P w ∧ (state = OwnerState.gone → lease.holderProcess ∈ w.gone))
          (E := fun _ => True)
          fun w₁ c state w₂ hw₁ hold₁ hperform _ => ⟨allowed_ownerState, fun hw₂ => ?_⟩) hw
          (fun state w₁ hw₁ hstate => ?_) fun _ _ _ => trivial
      · obtain ⟨rfl, hgone⟩ := perform_ownerState hperform
        exact ⟨hold₁, hgone⟩
      · refine .pure ⟨hstate.1, fun hfalse => ?_⟩
        simp only [PlacementLease.over, hexpires]
        refine .inr (hstate.2 ?_)
        simpa using hfalse
  | some stamp =>
    cases stamp with
    | instant t =>
      refine .pure ⟨hold, fun hfalse => ?_⟩
      simp only [PlacementLease.over, hexpires]
      have hle : ¬ asked < t := by simpa using hfalse
      omega
    | unreadable text =>
      refine .pure ⟨hold, fun _ => ?_⟩
      simp only [PlacementLease.over, hexpires]

/-- What an acquisition leaves behind: nothing for its decision, or a lease of
its own. -/
def Acquired (g : Regime) (i : ℕ) (subject decision : String) (ttl : Option ℕ) :
    Option PlacementLease → World → Prop
  | none, w => w.drew i decision ∧ w.undecided g decision
  | some lease, w => w.Own g i lease ∧ lease.subjectId = subject ∧ lease.decisionId = decision ∧
      (ttl ≠ none → ∃ t, lease.expiresAt = some (.instant t))

theorem expiry_instant {expires : Option Stamp} (h : expiry ttl asked = .ok expires)
    (httl : ttl ≠ none) : ∃ t, expires = some (.instant t) := by
  cases ttl with
  | none => exact absurd rfl httl
  | some seconds =>
    simp only [expiry] at h
    cases hexpires : expiresAt asked seconds "placement lease TTL" with
    | error why =>
      rw [hexpires] at h
      cases h
    | ok t =>
      rw [hexpires] at h
      cases h
      exact ⟨t, rfl⟩

/-- A new lease that was just written is the coordinator's own. -/
theorem own_of_written {site : Site} {lease : PlacementLease}
    (hheld : some lease.holder = g.reserved) (htoken : w.drew i lease.token)
    (hdecision : w.drew i lease.decisionId) (hunused : w.unused lease.token)
    (hnone : w.undecided g lease.decisionId) :
    ({ w with store := ⟨.lease lease.subjectId, some (.lease lease), site, i⟩ :: w.store } :
      World).Own g i lease := by
  refine ⟨hheld, htoken, hdecision, w.store.length, wrote_cons.mpr (.inl ⟨rfl, rfl, rfl⟩), ?_⟩
  intro v' subject newer hnewer hsame
  rcases wrote_cons.mp hnewer with ⟨rfl, -, -⟩ | hold
  · exact Nat.le_refl _
  · exfalso
    rcases hsame with heq | ⟨hholder, heq⟩
    · exact hunused v' subject newer hold heq
    · exact hnone v' subject newer hold ((congrArg some hholder).trans hheld) heq

/-- A lease that an acquisition returns is one that was written for its subject. -/
def Granted (subject : String) (r : Option PlacementLease) (w : World) : Prop :=
  ∀ lease, r = some lease → ∃ v, w.wrote v subject lease

theorem granted_none : Granted subject none w :=
  fun _ h => nomatch h

theorem granted_of_written {lease : PlacementLease} :
    Granted subject (some lease)
      { w with store := ⟨.lease subject, some (.lease lease), site, i⟩ :: w.store } := by
  intro lease' heq
  cases heq
  exact ⟨w.store.length, wrote_cons.mpr (.inl ⟨rfl, rfl, rfl⟩)⟩

/-- What the coordinator knows while it acquires. -/
def Acquiring (g : Regime) (i : ℕ) (decision holder : String) (asked : ℕ) (w : World) : Prop :=
  asked ≤ w.clock ∧ (some holder = g.reserved → w.drew i decision ∧ w.undecided g decision)

theorem knows_acquiring {holder : String} : Knows g C i (Acquiring g i decision holder asked) :=
  knows_clock.and (.imp fun _ => knows_undecided)

theorem right_acquire {subject holder : String}
    (hw : LivedIn g C w) (hknown : Acquiring g i decision holder asked w) :
    Right g C i (acquirePlacementLease subject decision holder ttl asked)
      (fun r w => Granted subject r w ∧
        (some holder = g.reserved → Acquired g i subject decision ttl r w))
      (fun _ => True) w := by
  unfold acquirePlacementLease
  -- the token is fresh: every token in the store was drawn before
  refine .bind (Does.take knows_acquiring hw hknown
    (Q := fun token w => (w.drew i token ∧ w.unused token) ∧ Acquiring g i decision holder asked w)
    (E := fun _ => True)
    fun w₁ c token w₂ hw₁ hknown₁ hperform _ => ⟨allowed_uuid, fun hw₂ => ?_⟩) hw
    (fun token w hw hknown => ?_) fun _ _ _ => trivial
  · obtain ⟨hnew, rfl⟩ := perform_uuid hperform
    refine ⟨⟨List.mem_cons_self, fun v subject older hwrote heq => ?_⟩, hknown₁.1, fun hres => ?_⟩
    · obtain ⟨j, hj, -⟩ := (tidy hw₁).token v subject older hwrote
      exact hnew j (heq ▸ hj)
    · exact ⟨List.mem_cons_of_mem _ (hknown₁.2 hres).1, (hknown₁.2 hres).2⟩
  refine .bind (right_orFail
    (Q := fun expires w => expiry ttl asked = .ok expires ∧ (w.drew i token ∧ w.unused token) ∧
      Acquiring g i decision holder asked w)
    (E := fun _ => True) (fun expires hexpires => ⟨hexpires, hknown⟩) fun _ _ => trivial) hw
    (fun expires w hw hknown => ?_) fun _ _ _ => trivial
  obtain ⟨hexpires, hknown⟩ := hknown
  have hknows : Knows g C i fun w =>
      (w.drew i token ∧ w.unused token) ∧ Acquiring g i decision holder asked w :=
    knows_unused.and knows_acquiring
  refine .bind (Does.take hknows hw hknown
    (Q := fun _ w => (w.drew i token ∧ w.unused token) ∧ Acquiring g i decision holder asked w)
    (E := fun _ => True)
    fun w₁ c process w₂ hw₁ hknown₁ hperform _ => ⟨allowed_process, fun hw₂ => ?_⟩) hw
    (fun process w hw hknown => ?_) fun _ _ _ => trivial
  · rw [perform_process hperform]
    exact hknown₁
  -- the lease that is to be written
  generalize hlease : PlacementLease.mk subject decision token holder (.instant asked) expires
    process = lease
  have hgrant : ∀ w, (w.drew i token ∧ w.unused token) ∧ Acquiring g i decision holder asked w →
      w.mayGrant g.reserved i lease := by
    intro w hknown
    subst hlease
    exact ⟨hknown.1.1, hknown.1.2, fun hres => (hknown.2.2 hres).1⟩
  have hwritten : ∀ (w : World) (site : Site),
      (w.drew i token ∧ w.unused token) ∧ Acquiring g i decision holder asked w →
        some holder = g.reserved → Acquired g i subject decision ttl (some lease)
          { w with store := ⟨.lease subject, some (.lease lease), site, i⟩ :: w.store } := by
    intro w site hknown hres
    subst hlease
    have hown := @own_of_written g i w site
      ⟨subject, decision, token, holder, .instant asked, expires, process⟩ hres hknown.1.1
      (hknown.2.2 hres).1 hknown.1.2 (hknown.2.2 hres).2
    exact ⟨hown, rfl, rfl, expiry_instant hexpires⟩
  refine .bind (Does.tries hknows hw hknown
    (Q := fun created w => if created then Granted subject (some lease) w ∧
        (some holder = g.reserved → Acquired g i subject decision ttl (some lease) w)
      else (w.drew i token ∧ w.unused token) ∧ Acquiring g i decision holder asked w)
    (E := fun _ => True)
    fun w₁ c b w₂ hw₁ hknown₁ hperform _ => ⟨allowed_create fun hnone => ?_, fun hw₂ => ?_⟩) hw
    (fun created w hw hcreated => ?_) fun _ _ _ => trivial
  · refine ⟨lease, by rw [← hlease], rfl, hgrant w₁ hknown₁, hnone⟩
  · rcases perform_create hperform with ⟨rfl, -, rfl⟩ | ⟨rfl, -, rfl⟩ | ⟨rfl, -⟩
    · exact ⟨granted_of_written, hwritten w₁ _ hknown₁⟩
    · exact hknown₁
    · trivial
  cases created with
  | true => exact .pure hcreated
  | false =>
  simp only [Bool.false_eq_true, if_false] at hcreated
  refine .bind (Does.tries hknows hw hcreated
    (Q := fun found w => ((w.drew i token ∧ w.unused token) ∧
        Acquiring g i decision holder asked w) ∧
      ∀ c v, found = some (c, v) → ∃ prior, c = .lease prior ∧ w.wrote v subject prior)
    (E := fun _ => True)
    fun w₁ c b w₂ hw₁ hknown₁ hperform _ => ⟨allowed_read, fun hw₂ => ?_⟩) hw
    (fun found w hw hfound => ?_) fun _ _ _ => trivial
  · obtain ⟨hdone, hb, -, -⟩ := perform_read hperform
    have hsame : (w₂.drew i token ∧ w₂.unused token) ∧ Acquiring g i decision holder asked w₂ := by
      simp only [drew, unused, Acquiring, undecided, wrote, hdone.drawn,
        hdone.store, hdone.clock] at hknown₁ ⊢
      exact hknown₁
    rcases hb with rfl | rfl
    · refine ⟨hsame, fun c v hget => ?_⟩
      obtain ⟨prior, rfl⟩ := (tidy hw₁).standing subject c v hget
      refine ⟨prior, rfl, ?_⟩
      have hwrote := wrote_of_get hget
      simp only [wrote, hdone.store] at hwrote ⊢
      exact hwrote
    · trivial
  obtain ⟨hknown, hprior⟩ := hfound
  rcases found with _ | ⟨c, version⟩
  · exact .pure ⟨granted_none, fun hres => hknown.2.2 hres⟩
  obtain ⟨prior, rfl, hwrote⟩ := hprior c version rfl
  have hknows' : Knows g C i fun w => ((w.drew i token ∧ w.unused token) ∧
      Acquiring g i decision holder asked w) ∧ w.wrote version subject prior :=
    hknows.and knows_wrote
  refine .bind (right_activeAt hknows' hw ⟨hknown, hwrote⟩ hknown.2.1) hw
    (fun active w hw hactive => ?_) fun _ _ _ => trivial
  obtain ⟨⟨hknown, hwrote⟩, hover⟩ := hactive
  cases active with
  | true =>
    simp only [if_true]
    split
    · next hsame =>
      refine .pure ⟨fun lease' heq => Option.some.inj heq ▸ ⟨version, hwrote⟩, fun hres => ?_⟩
      exact absurd hsame.1 ((hknown.2.2 hres).2 version subject prior hwrote
        ((congrArg some hsame.2).trans hres))
    · exact .pure ⟨granted_none, fun hres => hknown.2.2 hres⟩
  | false =>
  simp only [Bool.false_eq_true, if_false]
  refine .bind (Does.tries (hknows'.and knows_over) hw ⟨⟨hknown, hwrote⟩, hover rfl⟩
    (Q := fun answer w => Took answer
      (Granted subject (some lease) w ∧
        (some holder = g.reserved → Acquired g i subject decision ttl (some lease) w))
      (some holder = g.reserved → Acquired g i subject decision ttl none w))
    (E := fun _ => True)
    fun w₁ c b w₂ hw₁ hknown₁ hperform _ => ⟨allowed_swap fun old hget => ?_, fun hw₂ => ?_⟩) hw
    (fun answer w hw hanswer => ?_) fun _ _ _ => trivial
  · obtain rfl := lease_of_version hw₁ hknown₁.1.2 hget
    exact ⟨lease, prior, version, by rw [← hlease], rfl, hgrant w₁ hknown₁.1.1, hget,
      hknown₁.2⟩
  · rcases perform_swap hperform with ⟨rfl, -, rfl⟩ | ⟨rfl | rfl, rfl, -⟩ | ⟨rfl, -⟩
    · exact ⟨granted_of_written, hwritten w₁ _ hknown₁.1.1⟩
    · exact fun hres => hknown₁.1.1.2.2 hres
    · exact fun hres => hknown₁.1.1.2.2 hres
    · trivial
  cases answer with
  | stored version => exact .pure hanswer
  | conflict => exact .pure ⟨granted_none, hanswer⟩
  | notFound => exact .fail trivial

end Stado.Autonomy
