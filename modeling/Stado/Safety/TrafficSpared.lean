import Stado.Safety.QuarantinedRelease

/-!
# The release that carries traffic is not stopped

The proxy forwards to a port, and the process that listens there carries the
traffic, in the group its release was started as. In every run of the rollout
agent that meets the condition below, from any process table and any proxy
target, no signal reaches that group until the stable bind is given up.

A sweep spares the process that listens on the upstream, and not its group: the
launcher of a release that no record names is signalled while its child carries
the traffic.
-/

namespace Stado.Rollout

open Solo List Option HostReleaseState Config

variable {L : Libraries} {T : Target} {w : World} {r : ProcessRecord} {n : HostReleaseState}
  {site : StopSite} {p : ReleaseProcess} {known : List Pid}

/-- The process the proxy's traffic goes to. -/
def World.carrier (w : World) : Option Process :=
  (w.target.map (·.upstream)).bind w.table.listener

/-- No signal of the step reaches the group that carries the traffic; a rollback
that gives the stable bind up may stop it. -/
def SparesCarrier {β : Type} : Act β → World → Prop
  | .terminate .handedToLegacy _, _ => True
  | a, w => ∀ carrier, w.carrier = some carrier → ∀ q ∈ w.reached a, q.group ≠ carrier.group

/-- The carrier's group is recorded, or none of its processes shows the launch
marker, or each that is listed is the carrier or was given the upstream as its
port. -/
def sweepSpares (known : List Pid) (w : World) : Bool :=
  match w.carrier with
  | none => true
  | some carrier =>
    known.contains carrier.group ||
      !(w.table.releaseProcesses.any fun p => p.agentSpawned && p.processGroup == carrier.group) ||
      w.table.releaseProcesses.all fun p => p.processGroup != carrier.group ||
        p.port == w.target.map (·.upstream) || p.pid == carrier.pid

/-- The candidate is recorded on a port that neither the previous release nor
the proxy's target names. -/
def startsApart (n : HostReleaseState) (w : World) : Bool :=
  n.candidate.all fun c =>
    (w.document.previous.all fun p => p.port != c.port) &&
      w.target.map (·.upstream) != some c.port

def sparing {β : Type} : Act β → World → Bool
  | .sweep known, w => sweepSpares known w
  | .saveState .started n, w => startsApart n w
  | _, _ => true

/-- Sweeps find the carrier's group recorded or listed as the carrier, and
candidates are recorded on ports of their own. -/
def KeepsTraffic : Solo.Condition Act World Move where
  act a w := sparing a w = true
  move _ _ := True

/-! ## The invariant -/

/-- The releases of the document are on different ports, and the proxy does not
forward to the candidate. -/
structure Separate (w : World) : Prop where
  previous : ∀ a p, w.document.active = some a → w.document.previous = some p → a.port ≠ p.port
  candidate : ∀ c, w.document.candidate = some c →
    (∀ r, w.document.Serves r → r.port ≠ c.port) ∧ w.target.map (·.upstream) ≠ some c.port

/-- A document that names the active and the previous release of `w`, and its
candidate or none. -/
theorem Separate.same (h : Separate w) (ha : n.active = w.document.active)
    (hp : n.previous = w.document.previous)
    (hc : n.candidate = w.document.candidate ∨ n.candidate = none) :
    Separate { w with doc := some n } := by
  constructor
  · change ∀ a p, n.active = some a → n.previous = some p → _
    rw [ha, hp]
    exact h.previous
  · change ∀ c, n.candidate = some c → (∀ r, n.Serves r → _) ∧ _
    unfold Serves
    rw [ha, hp]
    rcases hc with hc | hc
    · rw [hc]
      exact h.candidate
    · rw [hc]
      rintro c ⟨⟩

/-- A document with one serving release at most, and without a candidate or with
the candidate of `w`. -/
theorem Separate.one (h : Separate w) (hserves : ∀ r, n.Serves r → w.document.Serves r)
    (hp : n.previous = none) (hc : n.candidate = w.document.candidate ∨ n.candidate = none) :
    Separate { w with doc := some n } := by
  constructor
  · change ∀ a p, n.active = some a → n.previous = some p → _
    rw [hp]
    rintro a p - ⟨⟩
  · change ∀ c, n.candidate = some c → (∀ r, n.Serves r → _) ∧ _
    rcases hc with hc | hc
    · rw [hc]
      intro c hcandidate
      obtain ⟨hapart, hup⟩ := h.candidate c hcandidate
      exact ⟨fun r hr => hapart r (hserves r hr), hup⟩
    · rw [hc]
      rintro c ⟨⟩

theorem Separate.save {site : SaveSite} (h : Separate w) (hsaves : Saves w n site)
    (hcond : sparing (.saveState site n) w = true) : Separate { w with doc := some n } := by
  cases site with
  | repeatsFailure =>
    obtain ⟨-, -, -, ha, hp, hc, -⟩ := hsaves
    refine h.one (fun r hr => ?_) hp (.inl hc)
    unfold Serves at hr
    rw [ha, hp] at hr
    simp at hr
  | retired =>
    obtain ⟨ha, hp, hc, -⟩ := hsaves
    exact h.same ha hp (.inl hc)
  | discarded =>
    obtain ⟨ha, hp, hc, -⟩ := hsaves
    exact h.same ha hp (.inr hc)
  | refused | incompatible =>
    obtain ⟨ha, hp, -, hc, -⟩ := hsaves
    exact h.same ha hp (.inr hc)
  | unready =>
    obtain ⟨ha, hp, hc, -⟩ := hsaves
    exact h.same ha hp (.inr hc)
  | started =>
    obtain ⟨ha, hp, -, -, -, c, hc, -, hactive⟩ := hsaves
    constructor
    · change ∀ a p, n.active = some a → n.previous = some p → _
      rw [ha, hp]
      exact h.previous
    · change ∀ c, n.candidate = some c → (∀ r, n.Serves r → _) ∧ _
      unfold Serves
      rw [ha, hp, hc]
      rintro _ ⟨rfl⟩
      simp only [sparing, startsApart, hc, all_some, Bool.and_eq_true, bne_iff_ne, ne_eq] at hcond
      obtain ⟨hprevious, hup⟩ := hcond
      refine ⟨?_, hup⟩
      rintro r (hr | hr)
      · exact (hactive r hr).2
      · rw [hr, all_some, bne_iff_ne] at hprevious
        exact hprevious
  | cutover =>
    obtain ⟨hp, hc, -, -, c, hcandidate, ha⟩ := hsaves
    constructor
    · change ∀ a p, n.active = some a → n.previous = some p → _
      rw [ha, hp]
      rintro _ p ⟨rfl⟩ hactive
      exact ((h.candidate _ hcandidate).1 p (.inl hactive)).symm
    · change ∀ c, n.candidate = some c → _
      rw [hc]
      rintro c ⟨⟩
  | routed | monitoring | windowStarted =>
    obtain ⟨ha, hp, hc, -⟩ := hsaves
    exact h.same ha hp (.inl hc)
  | committed =>
    obtain ⟨ha, hp, hc, -⟩ := hsaves
    refine h.one (fun r hr => ?_) hp (.inl hc)
    unfold Serves at hr ⊢
    rw [ha, hp] at hr
    rcases hr with hr | ⟨⟨⟩⟩
    exact .inl hr
  | rolledBack =>
    obtain ⟨ha, hp, hc, -⟩ := hsaves
    refine h.one (fun r hr => ?_) hp (.inr hc)
    unfold Serves at hr ⊢
    rw [ha, hp] at hr
    rcases hr with hr | ⟨⟨⟩⟩
    exact .inr hr
  | _ =>
    obtain ⟨ha, hp, hc, -⟩ := hsaves
    exact h.same ha hp (.inl hc)

theorem Lived.separate (h : Lived setting (rules T) KeepsTraffic w) : Separate w := by
  refine Lived.commits h (fun w hw => ?_) (fun w w' hon ih => ?_)
    (fun w site n _ _ hsaves hcond ih => ih.save hsaves hcond)
    (fun w generation port _ hport _ ih => ?_)
    fun w _ _ _ _ _ _ ih => ⟨ih.previous, ih.candidate⟩
  · have hdoc : w.document = .new := by
      unfold World.document
      rw [hw.doc]
      rfl
    constructor
    · rw [hdoc]
      rintro a p ⟨⟩
    · rw [hdoc]
      rintro c ⟨⟩
  · constructor
    · rw [hon.document]
      exact ih.previous
    · rw [hon.document, hon.target]
      exact ih.candidate
  · refine ⟨ih.previous, fun c hc => ?_⟩
    obtain ⟨hapart, -⟩ := ih.candidate c hc
    obtain ⟨r, hserves, rfl⟩ := hport
    refine ⟨hapart, fun hup => hapart r hserves ?_⟩
    exact Option.some.inj hup

/-! ## The signals -/

theorem release_group {q : Process} (h : q.release = some p) : p.processGroup = q.group := by
  unfold Process.release at h
  rw [map_eq_some_iff] at h
  obtain ⟨listing, -, rfl⟩ := h
  rfl

theorem leaked_iff {q carrier : Process}
    (hp : q.release = some p) (hcarrier : w.carrier = some carrier) :
    w.leaked known q = true ↔ p.processGroup ∉ known ∧
      (p.agentSpawned = true ∨ ∃ p' ∈ w.table.releaseProcesses, p'.agentSpawned = true ∧
        p'.processGroup = p.processGroup) ∧
      p.port ≠ w.target.map (·.upstream) ∧ carrier.pid ≠ p.pid := by
  have hholder : (w.target.map (·.upstream)).bind w.table.listener = some carrier := hcarrier
  obtain ⟨upstream, hup, -⟩ := bind_eq_some_iff.mp hholder
  unfold World.leaked
  rw [hp]
  dsimp only
  rw [hholder, hup]
  simp [and_assoc]

/-- A sweep spares the carrier's group just when the condition says so. -/
theorem sweep_spares_iff : SparesCarrier (.sweep known) w ↔ sweepSpares known w = true := by
  change (∀ carrier, w.carrier = some carrier →
    ∀ q ∈ w.table.procs.filter (w.leaked known), q.group ≠ carrier.group) ↔ _
  unfold sweepSpares
  cases hcarrier : w.carrier with
  | none => simp
  | some carrier =>
    simp only [Bool.or_eq_true, contains_iff_mem, Bool.not_eq_true', List.any_eq_false,
      List.all_eq_true, Bool.and_eq_true, beq_iff_eq, bne_iff_ne, ne_eq]
    constructor
    · intro h
      by_contra hnot
      push Not at hnot
      obtain ⟨⟨hknown, p, hp, hspawned, hgroup⟩, p', hp', ⟨hgroup', hport⟩, hpid⟩ := hnot
      obtain ⟨q, hq, hrelease⟩ := mem_filterMap.mp hp'
      have hleaked : w.leaked known q = true :=
        (leaked_iff hrelease hcarrier).mpr ⟨hgroup' ▸ hknown, .inr ⟨p, hp, hspawned,
          hgroup.trans hgroup'.symm⟩, hport, Ne.symm hpid⟩
      exact h carrier rfl q (mem_filter.mpr ⟨hq, hleaked⟩)
        ((release_group hrelease).symm.trans hgroup')
    · rintro hspares _ ⟨rfl⟩ q hq hgroup
      obtain ⟨hmem, hleaked⟩ := mem_filter.mp hq
      cases hrelease : q.release with
      | none =>
        unfold World.leaked at hleaked
        rw [hrelease] at hleaked
        cases hleaked
      | some p =>
        have hlisted : p ∈ w.table.releaseProcesses := mem_filterMap.mpr ⟨q, hmem, hrelease⟩
        have hpgroup := (release_group hrelease).trans hgroup
        obtain ⟨hknown, hspawned, hport, hpid⟩ := (leaked_iff hrelease hcarrier).mp hleaked
        rcases hspares with (hrecorded | hunmarked) | hcovered
        · exact hknown (hpgroup ▸ hrecorded)
        · rcases hspawned with hself | ⟨p', hp', hmarked, hsame⟩
          · exact hunmarked p hlisted ⟨hself, hpgroup⟩
          · exact hunmarked p' hp' ⟨hmarked, hsame.trans hpgroup⟩
        · rcases hcovered p hlisted with (hother | hup) | hholder
          · exact hother hpgroup
          · exact hport hup
          · exact hpid hholder.symm

theorem mem_reached_terminate {q : Process} (hr : Launched T w r)
    (hq : q ∈ w.reached (.terminate site r)) : q.group = r.pid := by
  simp only [World.reached] at hq
  split at hq
  · split at hq
    · obtain ⟨hmem, hpid⟩ := mem_filter.mp hq
      exact hr.leads q hmem (by simpa using hpid)
    · obtain ⟨-, hgroup⟩ := mem_filter.mp hq
      simpa using hgroup
  · cases hq

/-- A release whose port the proxy does not forward to does not carry the
traffic. -/
theorem Launched.not_carrier {carrier : Process} (hr : Launched T w r)
    (hcarrier : w.carrier = some carrier) (hport : w.target.map (·.upstream) ≠ some r.port) :
    carrier.group ≠ r.pid := by
  intro hgroup
  unfold World.carrier at hcarrier
  obtain ⟨upstream, hup, hlistener⟩ := bind_eq_some_iff.mp hcarrier
  have hmem := mem_of_find?_eq_some hlistener
  have hlistens : upstream ∈ carrier.listens := by simpa using List.find?_some hlistener
  have htold := hr.told carrier hmem hgroup
  rw [carrier.bound r.port htold upstream hlistens] at hup
  exact hport hup

/-- The release a stop goes to is not the one the proxy forwards to. -/
theorem Separate.stops (h : Separate w) (hstops : Stops w r site)
    (hsite : site ≠ .handedToLegacy) : w.target.map (·.upstream) ≠ some r.port := by
  cases site with
  | discarded | unready => exact (h.candidate r hstops).2
  | rolledBack =>
    obtain ⟨hactive, p, hprevious, hrouted⟩ := hstops
    rw [hrouted.upstream]
    intro heq
    exact h.previous r p hactive hprevious (Option.some.inj heq).symm
  | committed =>
    obtain ⟨hprevious, a, hactive, hrouted⟩ := hstops
    rw [hrouted.upstream]
    intro heq
    exact h.previous a r hactive hprevious (Option.some.inj heq)
  | handedToLegacy => exact absurd rfl hsite

theorem Stops.launched (hlived : Lives T w) (h : Stops w r site) : Launched T w r := by
  refine Lived.recorded hlived r ?_
  rw [mem_slots]
  cases site with
  | discarded | unready => exact .inr (.inl h)
  | rolledBack => exact .inl h.1
  | handedToLegacy => exact .inl h.1
  | committed => exact .inr (.inr h.1)

theorem Separate.sparesCarrier {β : Type} {a : Act β} (h : Separate w) (hlived : Lives T w)
    (hallowed : Allowed T w a) (hcond : sparing a w = true) : SparesCarrier a w := by
  cases a with
  | sweep known => exact sweep_spares_iff.mpr hcond
  | terminate site r =>
    by_cases hsite : site = .handedToLegacy
    · subst hsite
      trivial
    · have hlaunched := Stops.launched hlived hallowed
      have hspares : ∀ carrier, w.carrier = some carrier →
          ∀ q ∈ w.reached (.terminate site r), q.group ≠ carrier.group := by
        intro carrier hcarrier q hq
        rw [mem_reached_terminate hlaunched hq]
        exact (hlaunched.not_carrier hcarrier (h.stops hallowed hsite)).symm
      cases site with
      | handedToLegacy => trivial
      | _ => exact hspares
  | _ => exact fun carrier _ q hq => by cases hq

/-- **The release that carries traffic is not stopped**: in every run whose
steps meet the condition, from any process table and any proxy target, no
signal reaches the group of the process the proxy forwards to. -/
theorem traffic_spared {s : Config Act String World Unit} (hw : w.Untouched)
    (hr : Reaches setting (reconcileOnce L T) KeepsTraffic ⟨w, none⟩ s)
    (hnext : s.Next KeepsTraffic.act) : s.Next SparesCarrier := by
  have hidle : Sound setting (rules T) KeepsTraffic
      (⟨w, none⟩ : Config Act String World Unit) :=
    .idle hw
  have hsound := hidle.reaches (fun pass _ hw => reconcileOnce_acts pass hw) hr
  have hallowed := hsound.next
  have hseparate := Lived.separate hsound.lived
  unfold Next at hnext hallowed ⊢
  split
  · next a k hrun =>
    rw [hrun] at hnext hallowed
    exact hseparate.sparesCarrier hsound.lived.toAny hallowed hnext
  · trivial

/-! ## Runs on the small host -/

namespace SmallHost

/-- A process that was told no port and listens on none. -/
theorem silent_bound :
    ∀ p, (none : Option Port) = some p → ∀ port ∈ ([] : List Port), port = p := by
  intro p hp
  cases hp

/-- The release `A` serves from a child of its launcher, and its record was
lost. -/
def orphaned : World where
  table := ⟨[⟨2, 2, none, [], none, silent_bound⟩,
    ⟨3, 3, some 8001, [], some ⟨"A", none, true⟩, by simp⟩,
    ⟨4, 3, some 8001, [8001], some ⟨"A", none, false⟩, by simp⟩], 5, by simp⟩
  doc := none
  target := some ⟨1, 8001⟩
  trail := []
  swept := []
  found := []

def sweeps (pass : Pass) : List Ev := (begins pass).dropLast

/-- A process carries the traffic and a sweep is next, which spares its group or
does not. -/
def sweepNext (spares : Bool) (s : Config Act String World Unit) : Bool :=
  match s.running with
  | some (.act (.sweep known) _) =>
    s.world.carrier.isSome && sweepSpares known s.world == spares
  | _ => false

end SmallHost

open SmallHost

/-- After `B` was rolled out, the next sweep spares it. -/
theorem traffic_spared_second : ∃ s : Config Act String World Unit,
    sweepNext true s = true ∧ s.Next SparesCarrier := by
  obtain ⟨s, hr, hs⟩ := exists_exec setting (reconcileOnce libraries target)
    (C := KeepsTraffic) (s := ⟨SmallHost.world, none⟩) _
    (fun s ev => meets_of_checks sparing (fun _ _ => true)
      (fun _ _ h => h) (fun _ _ _ => trivial))
    (rollsOut ++ (adopts (wants b 2)).dropLast) (P := sweepNext true) (by decide +kernel)
  refine ⟨s, hs, traffic_spared world_untouched hr ?_⟩
  unfold sweepNext at hs
  unfold Next
  split at hs
  · next known k hrun =>
    rw [hrun]
    simp only [Bool.and_eq_true, beq_iff_eq] at hs
    exact hs.2
  · cases hs

/-- **A sweep stops the launcher of the release that carries traffic.** -/
theorem carrier_swept : ¬ ∀ (L : Libraries) (T : Target) (w : World)
    (s : Config Act String World Unit), w.Untouched →
      Reaches setting (reconcileOnce L T) .any ⟨w, none⟩ s → s.Next SparesCarrier := by
  intro hall
  obtain ⟨s, hr, hs⟩ := exists_exec setting (reconcileOnce libraries target)
    (s := ⟨orphaned, none⟩) (fun _ _ => true) (fun _ _ _ => meets_any)
    (sweeps (wants a 1)) (P := sweepNext false) (by decide +kernel)
  have hnext := hall libraries target orphaned s ⟨rfl, rfl⟩ hr
  unfold sweepNext at hs
  unfold Next at hnext
  split at hs
  · next known k hrun =>
    rw [hrun] at hnext
    have hspares := sweep_spares_iff.mp hnext
    rw [hspares] at hs
    simp at hs
  · cases hs

end Stado.Rollout
