import Stado.Safety.QuarantinedRelease

/-!
# A release is judged by its own answers

In every run of the rollout agent in which a candidate is started only on a port
that no living process was told, and no process takes a candidate port it was
not told, whoever answers for a release is the release: a readiness answer read
for it comes from its own group, and so does what stands behind the proxy when a
pass records it as routed.

The agent chooses the port that the active release does not have. While the
previous release is kept for a rollback, that is the previous release's port.
-/

namespace Stado.Rollout

open Solo List Option Config World

/-- One of the two loopback ports releases are started on. -/
def Target.Candidate (T : Target) (port : Port) : Prop :=
  port = T.candidatePorts.1 ∨ port = T.candidatePorts.2

instance (T : Target) (port : Port) : Decidable (T.Candidate port) :=
  inferInstanceAs (Decidable (_ ∨ _))

variable (T : Target)

def startsFree {β : Type} : Act β → World → Bool
  | .spawnRelease _ _ port, w => w.table.procs.all fun q => q.told != some port
  | _, _ => true

def takesTold : Move → World → Bool
  | .listen pid port, w =>
    w.table.procs.all fun q => q.pid != pid || !decide (T.Candidate port) || q.told.isSome
  | _, _ => true

def OwnPorts : Solo.Condition Act World Move where
  act a w := startsFree a w = true
  move m w := takesTold T m w = true

def World.Vacant (w : World) : Prop :=
  ∀ q ∈ w.table.procs, q.told = none ∧ ∀ port ∈ q.listens, ¬ T.Candidate port

/-- The places a pass records its active release as the routed one from. -/
def SaveSite.recordsRouted : SaveSite → Bool
  | .routed | .monitoring | .windowStarted | .committed | .rolledBack => true
  | _ => false

/-- Whoever listens on the release's port belongs to the release. -/
def AnswersItself (w : World) (r : ProcessRecord) : Prop :=
  ∀ q ∈ w.table.procs, r.port ∈ q.listens → q.group = r.pid

/-- A candidate starts on a port that neither the active nor the previous
release holds, a release is probed where only it can answer, and the release
recorded as routed is the one the proxy forwards to. -/
def JudgesOwn {β : Type} : Act β → World → Prop
  | .spawnRelease _ _ port, w =>
    ∀ r, w.document.active = some r ∨ w.document.previous = some r →
      ∀ q ∈ w.table.procs, q.group = r.pid → port ∉ q.listens
  | .probe r, w => AnswersItself w r
  | .saveState site n, w =>
    site.recordsRouted = true → ∀ r, n.active = some r →
      w.target.map (·.upstream) = some r.port ∧ AnswersItself w r
  | _, _ => True

/-- Candidate ports belong to those who were told them, each to one group, and
that group is the release's wherever the release was found alive. -/
structure Grounded (w : World) : Prop where
  told : ∀ q ∈ w.table.procs, ∀ port ∈ q.listens, T.Candidate port → q.told = some port
  alone : ∀ q ∈ w.table.procs, ∀ q' ∈ w.table.procs, ∀ port, q.told = some port →
    q'.told = some port → q.group = q'.group
  found : ∀ r ∈ w.found, T.Candidate r.port ∧
    ∀ q ∈ w.table.procs, q.told = some r.port → q.group = r.pid

variable {T} {L : Libraries} {w w' : World} {r : ProcessRecord}

theorem Grounded.answersItself (h : Grounded T w) (hr : r ∈ w.found) : AnswersItself w r := by
  intro q hq hport
  obtain ⟨hcandidate, howns⟩ := h.found r hr
  have htold := h.told q hq r.port hport hcandidate
  exact howns q hq htold

theorem Grounded.begins (hvacant : w.Vacant T) (hw : w.Untouched) : Grounded T w := by
  constructor
  · intro q hq port hport hcandidate
    exact absurd hcandidate ((hvacant q hq).2 port hport)
  · intro q hq q' _ port htold
    rw [(hvacant q hq).1] at htold
    cases htold
  · rw [hw.found]
    intro r hr
    cases hr

/-! ## Every step keeps it -/

variable (T) in
/-- Each process of the table goes on in the other, told the same in the same
group, or is a new one that was told nothing; none takes a candidate port it was
not told. -/
def Continues (t t' : Table) : Prop :=
  ∀ q' ∈ t'.procs, (q'.told = none ∧ q'.listens = []) ∨
    ∃ q ∈ t.procs, q'.group = q.group ∧ q'.told = q.told ∧
      ∀ port ∈ q'.listens, T.Candidate port → port ∈ q.listens ∨ q'.told = some port

theorem Continues.refl (t : Table) : Continues T t t :=
  fun q hq => .inr ⟨q, hq, rfl, rfl, fun _ hport _ => .inl hport⟩

theorem Continues.only {t : Table} {keep : Process → Bool} : Continues T t (t.only keep) :=
  fun q hq => Continues.refl t q (mem_only hq)

theorem Continues.alter {t t' : Table} {f : Process → Process} (hprocs : t'.procs = t.procs.map f)
    (hf : ∀ q, (f q).group = q.group ∧ (f q).told = q.told)
    (hlistens : ∀ q ∈ t.procs, ∀ port ∈ (f q).listens, T.Candidate port →
      port ∈ q.listens ∨ (f q).told = some port) : Continues T t t' := by
  intro q' hq'
  rw [hprocs] at hq'
  obtain ⟨q, hq, rfl⟩ := List.mem_map.mp hq'
  exact .inr ⟨q, hq, (hf q).1, (hf q).2, hlistens q hq⟩

theorem Grounded.continues (h : Grounded T w) (ht : Continues T w.table w'.table)
    (hfound : ∀ r ∈ w'.found, r ∈ w.found) : Grounded T w' := by
  constructor
  · intro q' hq' port hport hcandidate
    rcases ht q' hq' with ⟨-, hnone⟩ | ⟨q, hq, -, htold, hlistens⟩
    · rw [hnone] at hport
      cases hport
    · rcases hlistens port hport hcandidate with hold | hnew
      · rw [htold]
        exact h.told q hq port hold hcandidate
      · exact hnew
  · intro q₁ hq₁ q₂ hq₂ port htold₁ htold₂
    rcases ht q₁ hq₁ with ⟨hnone, -⟩ | ⟨p₁, hp₁, hgroup₁, htold₁', -⟩
    · rw [hnone] at htold₁
      cases htold₁
    rcases ht q₂ hq₂ with ⟨hnone, -⟩ | ⟨p₂, hp₂, hgroup₂, htold₂', -⟩
    · rw [hnone] at htold₂
      cases htold₂
    rw [hgroup₁, hgroup₂]
    exact h.alone p₁ hp₁ p₂ hp₂ port (htold₁' ▸ htold₁) (htold₂' ▸ htold₂)
  · intro r hr
    obtain ⟨hcandidate, howns⟩ := h.found r (hfound r hr)
    refine ⟨hcandidate, fun q' hq' htold => ?_⟩
    rcases ht q' hq' with ⟨hnone, -⟩ | ⟨q, hq, hgroup, htold', -⟩
    · rw [hnone] at htold
      cases htold
    · rw [hgroup]
      exact howns q hq (htold' ▸ htold)

theorem Grounded.move {m : Move} (h : Grounded T w) (hcond : takesTold T m w = true)
    (hstep : w.move m = some w') : Grounded T w' := by
  simp only [World.move, map_eq_some_iff] at hstep
  obtain ⟨t, ht, rfl⟩ := hstep
  refine h.continues ?_ fun r hr => hr
  cases m with
  | fork parent listing =>
    simp only [Table.move] at ht
    split at ht
    · next q hq =>
      cases ht
      intro q' hq'
      rcases mem_cons.mp hq' with rfl | hq'
      · have hmem := mem_of_find?_eq_some hq
        refine .inr ⟨q, hmem, rfl, rfl, fun port hport => ?_⟩
        cases hport
      · exact Continues.refl w.table q' hq'
    · cases ht
  | arrive listing =>
    cases ht
    intro q' hq'
    rcases mem_cons.mp hq' with rfl | hq'
    · exact .inl ⟨rfl, rfl⟩
    · exact Continues.refl w.table q' hq'
  | exec pid listing =>
    cases ht
    refine Continues.alter rfl (fun q => ?_) fun q _ port hport _ => .inl ?_
    · split <;> exact ⟨rfl, rfl⟩
    · split at hport <;> exact hport
  | exit pid =>
    cases ht
    exact Continues.only
  | listen pid port =>
    simp only [Table.move] at ht
    split at ht
    · cases ht
    · cases ht
      refine Continues.alter rfl (fun q => ?_) fun q hq taken htaken hcandidate => ?_
      · split
        · exact ⟨(q.listen_pid port).2.1, (q.listen_pid port).2.2.1⟩
        · exact ⟨rfl, rfl⟩
      · split at htaken
        · next hpid =>
          rw [if_pos hpid, (q.listen_pid port).2.2.1]
          by_cases hold : taken ∈ q.listens
          · exact .inl hold
          · right
            have hnew : taken = port := by
              unfold Process.listen at htaken
              split at htaken
              · rcases mem_cons.mp htaken with heq | hmem
                · exact heq
                · exact absurd hmem hold
              · exact absurd htaken hold
            have hall := List.all_eq_true.mp hcond q hq
            simp only [Bool.or_eq_true, bne_iff_ne, ne_eq, hpid, not_true_eq_false, false_or,
              Bool.not_eq_true', decide_eq_false_iff_not, isSome_iff_exists] at hall
            rcases hall with hnot | ⟨p, hp⟩
            · exact absurd (hnew ▸ hcandidate) hnot
            · have hbound := (q.listen port).bound p ((q.listen_pid port).2.2.1.trans hp)
              rw [hp, hbound taken htaken]
        · exact .inl htaken
  | close pid port =>
    cases ht
    refine Continues.alter rfl (fun q => ?_) fun q _ taken htaken _ => .inl ?_
    · split <;> exact ⟨rfl, rfl⟩
    · split at htaken
      · exact (mem_filter.mp htaken).1
      · exact htaken

def Alters (w w' : World) {β : Type} : Act β → Prop
  | .sweep known => w' = w ∨ ∃ skipped, w' = w.sweep known skipped
  | .releaseAlive r =>
    w' = w ∨ (w.table.pidAlive r.pid = true ∧ w' = { w with found := r :: w.found })
  | .spawnRelease manifest manifestSha port =>
    w' = w ∨ ∃ now, w' = (w.spawn manifest manifestSha port now).2
  | _ => w'.table = w.table ∧ w'.found = w.found

theorem alters_of_perform {β : Type} {a : Act β} {c : Choice} {b : β}
    (h : setting.perform a c w = some (b, w')) : Alters w w' a := by
  have same : w' = w → w'.table = w.table ∧ w'.found = w.found := by
    rintro rfl
    exact ⟨rfl, rfl⟩
  have written : ∀ {w₁ : World} {x : Except String Unit}, w.writes c w₁ = some (x, w') →
      w₁.table = w.table → w₁.found = w.found →
      w'.table = w.table ∧ w'.found = w.found := by
    intro w₁ x hw htable hfound
    rcases writes_eq hw with ⟨-, rfl⟩ | ⟨-, rfl | rfl⟩
    · exact ⟨htable, hfound⟩
    · exact ⟨rfl, rfl⟩
    · exact ⟨htable, hfound⟩
  have hstep := h
  change perform a c w = _ at h
  cases a with
  | saveState | writeProxyTarget | recordRetirement => exact written h rfl rfl
  | requireOwner | loadState | stopLegacy | proxyState | stopListener | releaseProcesses
  | listener | stageRelease | auditTrail | publishStatus => exact same (reads_eq h).1
  | exactProxyPid | restoreLegacy | ensureListener | readMarker | foreignHolder | fetchBytes =>
    exact same (asks_eq h)
  | probe record => exact same (probes_eq h)
  | stableBindProbe | pidAlive | terminate | releaseLogs | askWall | hostRoom | now =>
    simp only [perform] at h
    exact same (tells_eq h).1
  | sweep known =>
    simp only [perform] at h
    split at h
    · cases h
      exact .inr ⟨_, rfl⟩
    · cases h
      exact .inl rfl
    · cases h
  | releaseAlive record =>
    simp only [perform] at h
    split at h
    · split at h
      · next halive =>
        cases h
        exact .inr ⟨halive, rfl⟩
      · cases h
        exact .inl rfl
    · cases h
  | spawnRelease manifest manifestSha port =>
    rcases spawn_eq hstep with ⟨-, heq⟩ | ⟨now, -, heq⟩
    · exact .inl heq
    · exact .inr ⟨now, heq⟩

theorem Grounded.finds (h : Grounded T w) (hlaunched : Launched T w r)
    (halive : w.table.pidAlive r.pid = true) : Grounded T { w with found := r :: w.found } := by
  refine ⟨h.told, h.alone, fun r' hr' => ?_⟩
  rcases mem_cons.mp hr' with rfl | hr'
  · refine ⟨hlaunched.port, fun q hq htold => ?_⟩
    unfold Table.pidAlive at halive
    simp only [Bool.and_eq_true, isSome_iff_exists] at halive
    obtain ⟨-, leader, hfind⟩ := halive
    have hmem := mem_of_find?_eq_some hfind
    have hpid : leader.pid = r'.pid := by simpa using List.find?_some hfind
    have hleads := hlaunched.leads leader hmem hpid
    have hport := hlaunched.told leader hmem hleads
    rw [h.alone q hq leader hmem r'.port htold hport, hleads]
  · exact h.found r' hr'

theorem Grounded.spawn {manifest : ReleaseManifest} {manifestSha : Digest} {port : Port}
    {now : Time} (h : Grounded T w) (hfree : ∀ q ∈ w.table.procs, q.told ≠ some port) :
    Grounded T (w.spawn manifest manifestSha port now).2 := by
  constructor
  · intro q hq taken htaken hcandidate
    rcases mem_cons.mp hq with rfl | hq
    · cases htaken
    · exact h.told q hq taken htaken hcandidate
  · intro q hq q' hq' p htold htold'
    rcases mem_cons.mp hq with rfl | hq <;> rcases mem_cons.mp hq' with rfl | hq'
    · rfl
    · cases htold
      exact absurd htold' (hfree q' hq')
    · cases htold'
      exact absurd htold (hfree q hq)
    · exact h.alone q hq q' hq' p htold htold'
  · intro r hr
    cases hr

theorem Grounded.act {β : Type} {a : Act β} {c : Choice} {b : β} (h : Grounded T w)
    (hallowed : Allowed T w a) (hcond : startsFree a w = true)
    (hstep : setting.perform a c w = some (b, w')) : Grounded T w' := by
  have halters := alters_of_perform hstep
  cases a with
  | sweep known =>
    rcases halters with rfl | ⟨skipped, rfl⟩
    · exact h
    · exact h.continues Continues.only fun r hr => hr
  | releaseAlive r =>
    rcases halters with rfl | ⟨halive, rfl⟩
    · exact h
    · exact h.finds hallowed halive
  | spawnRelease manifest manifestSha port =>
    rcases halters with rfl | ⟨now, rfl⟩
    · exact h
    · refine h.spawn fun q hq => ?_
      have hall := List.all_eq_true.mp hcond q hq
      simpa using hall
  | _ =>
    obtain ⟨htable, hfound⟩ := halters
    refine h.continues ?_ fun r hr => hfound ▸ hr
    rw [htable]
    exact Continues.refl _

theorem grounded {s : Config Act String World Unit} (hw : w.Untouched) (hvacant : w.Vacant T)
    (hr : Reaches setting (reconcileOnce L T) (OwnPorts T) ⟨w, none⟩ s) :
    Grounded T s.world :=
  (Sound.idle hw).invariant (Grounded.begins hvacant hw)
    (fun pass _ hw => reconcileOnce_acts pass hw)
    (fun _ _ _ _ _ hallowed hcond hstep h => h.act hallowed hcond hstep)
    (fun _ _ _ hcond hstep h => h.move hcond hstep) hr

theorem Grounded.judgesOwn {β : Type} {a : Act β} (h : Grounded T w) (hlived : Lives T w)
    (hallowed : Allowed T w a) (hcond : startsFree a w = true) : JudgesOwn a w := by
  have routed : ∀ r, Routed w r → w.target.map (·.upstream) = some r.port ∧ AnswersItself w r :=
    fun r hr => ⟨hr.upstream, h.answersItself hr.found⟩
  cases a with
  | spawnRelease manifest manifestSha port =>
    intro r hrecorded q hq hgroup hport
    have hlaunched : Launched T w r := Lived.serving hlived hrecorded
    have htold := hlaunched.told q hq hgroup
    have hbound := q.bound r.port htold port hport
    have hfree := List.all_eq_true.mp hcond q hq
    rw [htold, hbound] at hfree
    simp at hfree
  | probe r => exact h.answersItself hallowed
  | saveState site n =>
    intro hsite r hactive
    obtain ⟨-, hsaves⟩ := hallowed
    cases site with
    | routed | monitoring | windowStarted | committed =>
      obtain ⟨ha, -, -, -, -, active, hold, hr⟩ := hsaves
      rw [ha, hold] at hactive
      cases hactive
      exact routed r hr
    | rolledBack =>
      obtain ⟨ha, -, -, hr, -⟩ := hsaves
      rw [ha] at hactive
      exact routed r (hr r hactive)
    | _ => cases hsite
  | _ => trivial

namespace SmallHost

def c : List UInt8 := [67]

theorem world_vacant : SmallHost.world.Vacant target := by
  intro q hq
  obtain rfl := mem_singleton.mp hq
  exact ⟨rfl, fun port hport => by cases hport⟩

/-- The release of `digest` is about to be recorded as routed, and a process of
another group listens on its port just when `foreign` says so. -/
def routes (digest : Digest) (foreign : Bool) (s : Config Act String World Unit) : Bool :=
  match s.running with
  | some (.act (.saveState .routed n) _) =>
    n.active.any fun r => r.artifactSha256 == digest &&
      (s.world.table.procs.any fun q => q.listens.contains r.port && q.group != r.pid) == foreign
  | _ => false

/-- `B` is rolled out after `A`, up to the commit that records it as routed. -/
def routesB : List Ev := rollsOut.dropLast.dropLast

/-- `C` is wanted while `A` is kept for a rollback, and rolled out up to the
commit that records it as routed. -/
def routesC : List Ev :=
  rollsOut ++ adopts (wants c 3) ++ starts c ++
    (adopts (wants c 3) ++ advances c [done, owner]).dropLast.dropLast

end SmallHost

open SmallHost

end Stado.Rollout
