import Stado.Rollout.PassSpecs

/-!
# A quarantined digest is not running

In every run of the rollout agent in which no rollback hands the stable bind
back to a previous release whose digest is quarantined, no committed document
names a candidate or an active release whose digest it quarantines.

A digest can be quarantined while its release is the previous one: the registry
asks for the older release again, and its promotion is refused. The rollback
that follows makes it the active release all the same.
-/

namespace Stado.Rollout

open Solo

/-- The rollback about to be committed hands the bind back to a release whose
digest is quarantined. -/
def restoresQuarantined {β : Type} : Act β → World → Bool
  | .saveState .rolledBack _, w =>
    match w.document.previous with
    | some previous => w.document.quarantined.containsKey previous.artifactSha256
    | none => false
  | _, _ => false

def SparesQuarantined : Solo.Condition Act World Move where
  act a w := restoresQuarantined a w = false
  move _ _ := True

/-! ## The invariant -/

structure Unquarantined (s : HostReleaseState) : Prop where
  active : ∀ a, s.active = some a → s.quarantined.containsKey a.artifactSha256 = false
  candidate : ∀ c, s.candidate = some c → s.quarantined.containsKey c.artifactSha256 = false

/-- What keeps a document so: the active release has a digest of its own, and a
rolled back document names no candidate. -/
structure Apart (s : HostReleaseState) : Prop extends Unquarantined s where
  candidateApart : ∀ a c, s.active = some a → s.candidate = some c →
    a.artifactSha256 ≠ c.artifactSha256
  previousApart : ∀ a p, s.active = some a → s.previous = some p →
    a.artifactSha256 ≠ p.artifactSha256
  rolledBack : s.phase = .rolledBack → s.candidate = none

theorem Apart.new : Apart .new := by
  constructor
  · constructor <;> simp [HostReleaseState.new]
  all_goals simp [HostReleaseState.new]

variable {n o : HostReleaseState}

/-- A document that names the same releases, quarantines no more digests and is
no new rollback. -/
theorem Apart.same (h : Apart o) (ha : n.active = o.active) (hp : n.previous = o.previous)
    (hc : n.candidate = o.candidate) (hq : ∀ digest, o.quarantined.containsKey digest = false →
      n.quarantined.containsKey digest = false) (hphase : n.phase = o.phase ∨ n.phase ≠ .rolledBack) :
    Apart n := by
  constructor
  · constructor
    · rw [ha]
      exact fun a hact => hq _ (h.active a hact)
    · rw [hc]
      exact fun c hcan => hq _ (h.candidate c hcan)
  · rw [ha, hc]
    exact h.candidateApart
  · rw [ha, hp]
    exact h.previousApart
  · intro hrb
    rw [hc]
    rcases hphase with hphase | hphase
    · exact h.rolledBack (hphase ▸ hrb)
    · exact absurd hrb hphase

/-- A document without a candidate that quarantines one digest more, not the
active release's. -/
theorem Apart.quarantine {digest : Digest} {record : QuarantineRecord}
    (h : Apart o) (ha : n.active = o.active) (hp : n.previous = o.previous)
    (hc : n.candidate = none) (hq : n.quarantined = o.quarantined.insert digest record)
    (hdigest : ∀ a, o.active = some a → a.artifactSha256 ≠ digest) : Apart n := by
  constructor
  · constructor
    · rw [ha, hq]
      intro a hact
      simp [h.active a hact, hdigest a hact]
    · rw [hc]
      rintro c ⟨⟩
  · rw [hc]
    rintro a c - ⟨⟩
  · rw [ha, hp]
    exact h.previousApart
  · exact fun _ => hc

variable {L : Libraries} {T : Target} {w : World}

/-- Every commit keeps the invariant, unless it restores a quarantined digest. -/
theorem Apart.save {site : SaveSite} {n : HostReleaseState} (h : Apart w.document)
    (hsaves : Saves w n site) (hcond : restoresQuarantined (.saveState site n) w = false) :
    Apart n := by
  cases site with
  | repeatsFailure =>
    obtain ⟨hphase, -, -, ha, hp, hc, hne, -⟩ := hsaves
    have hcandidate := hc.trans (h.rolledBack hphase)
    constructor
    · constructor
      · rw [ha]
        rintro a ⟨⟩
      · rw [hcandidate]
        rintro c ⟨⟩
    · rw [ha]
      rintro a c ⟨⟩
    · rw [ha]
      rintro a p ⟨⟩
    · exact fun _ => hcandidate
  | retired =>
    obtain ⟨ha, hp, hc, hphase, digest, hq⟩ := hsaves
    refine h.same ha hp hc (fun other hother => ?_) (Or.inl hphase)
    rw [hq, Quarantined.containsKey_remove, hother]
    rfl
  | discarded =>
    obtain ⟨ha, hp, hc, hphase, hq⟩ := hsaves
    constructor
    · constructor
      · rw [ha, hq]
        exact h.active
      · rw [hc]
        rintro c ⟨⟩
    · rw [hc]
      rintro a c - ⟨⟩
    · rw [ha, hp]
      exact h.previousApart
    · exact fun _ => hc
  | refused | incompatible =>
    obtain ⟨ha, hp, -, hc, -, digest, record, hq, hdigest⟩ := hsaves
    exact h.quarantine ha hp hc hq hdigest
  | started =>
    obtain ⟨ha, hp, -, hphase, hq, c, hc, hfree, hapart⟩ := hsaves
    constructor
    · constructor
      · rw [ha, hq]
        exact h.active
      · rw [hc, hq]
        rintro _ ⟨rfl⟩
        exact hfree
    · rw [ha, hc]
      rintro a _ hact ⟨rfl⟩
      exact (hapart a hact).1
    · rw [ha, hp]
      exact h.previousApart
    · exact fun hrb => absurd hrb hphase
  | unready =>
    obtain ⟨ha, hp, hc, -, c, record, hcandidate, hq⟩ := hsaves
    exact h.quarantine ha hp hc hq fun a hact => h.candidateApart a c hact hcandidate
  | cutover =>
    obtain ⟨hp, hc, hphase, hq, c, hcandidate, ha⟩ := hsaves
    constructor
    · constructor
      · rw [ha, hq]
        rintro _ ⟨rfl⟩
        exact h.candidate _ hcandidate
      · rw [hc]
        rintro c ⟨⟩
    · rw [hc]
      rintro a c - ⟨⟩
    · rw [ha, hp]
      rintro _ p ⟨rfl⟩ hact
      exact (h.candidateApart p _ hact hcandidate).symm
    · exact fun _ => hc
  | routed | monitoring | windowStarted =>
    obtain ⟨ha, hp, hc, hphase, hq, -⟩ := hsaves
    exact h.same ha hp hc (fun _ hfree => by rw [hq]; exact hfree) (Or.inr hphase)
  | committed =>
    obtain ⟨ha, hp, hc, hphase, hq, -⟩ := hsaves
    constructor
    · constructor
      · rw [ha, hq]
        exact h.active
      · rw [hc, hq]
        exact h.candidate
    · rw [ha, hc]
      exact h.candidateApart
    · rw [hp]
      rintro a p - ⟨⟩
    · exact fun hrb => absurd hrb hphase
  | rolledBack =>
    obtain ⟨ha, hp, hc, -, f, record, hactive, hq⟩ := hsaves
    constructor
    · constructor
      · rw [ha, hq]
        intro a hprevious
        simp only [restoresQuarantined, hprevious] at hcond
        simp [hcond, (h.previousApart f a hactive hprevious).symm]
      · rw [hc]
        rintro c ⟨⟩
    · rw [hc]
      rintro a c - ⟨⟩
    · rw [hp]
      rintro a p - ⟨⟩
    · exact fun _ => hc
  | _ =>
    obtain ⟨ha, hp, hc, hq, hphase⟩ := hsaves
    exact h.same ha hp hc (fun _ hfree => by rw [hq]; exact hfree) hphase

theorem Lived.apart (h : Lived setting (rules T) SparesQuarantined w) : Apart w.document := by
  refine Lived.commits h (I := fun w => Apart w.document) (fun w hw => ?_) (fun w w' hon ih => ?_)
    (fun w site n _ _ hsaves hcond ih => ?_) (fun w _ _ _ _ _ ih => ih)
    fun w _ _ _ _ _ _ ih => ih
  · unfold World.document
    rw [hw.doc]
    exact Apart.new
  · rw [hon.document]
    exact ih
  · exact ih.save hsaves hcond

/-- **A quarantined digest is neither a candidate nor active**, in every state
of every run in which no rollback restores one. -/
theorem quarantined_not_running {s : Config Act String World Unit} (hw : w.Untouched)
    (hr : Config.Reaches setting (reconcileOnce L T) SparesQuarantined ⟨w, none⟩ s) :
    Unquarantined s.world.document :=
  (Lived.apart ((Config.Sound.idle hw).reaches (fun pass _ hw => reconcileOnce_acts pass hw)
    hr).lived).toUnquarantined

/-! ## A small host

A registry of three releases named by one byte each, whose archive and manifest
are that byte: `B` declares that it can be rolled back to `A`, and `C` to both.
The host listens with `stado serve`, pid 2.
-/

namespace SmallHost

def name (bytes : List UInt8) : String := String.ofList (bytes.map fun b => Char.ofNat b.toNat)

def manifest (bytes : List UInt8) : ReleaseManifest where
  product := "vault"
  version := name bytes
  platform := "linux"
  sourceRevision := "r"
  artifactSha256 := name bytes
  artifactBytes := bytes.length
  binary := "bin"
  launcher := "run"
  configSchema := 1
  stateSchema := 1
  minimumStadoVersion := "0"
  rollbackCompatibleWith :=
    if name bytes = "B" then ["A"] else if name bytes = "C" then ["A", "B"] else []
  qualification := .passed
  keyId := "k"

def libraries : Libraries where
  classify _ := ⟨.unclassified, ""⟩
  classifyObserved _ c := c
  observed cause sentence := ⟨cause, sentence⟩
  predicate _ _ := none
  remedy _ := none
  rfc3339 _ := ""
  room _ := ""
  sha256 := name
  utf8 bytes := some (name bytes)
  parseManifest bytes := .ok (manifest bytes)
  validateManifest _ := .ok ()
  versionNewer _ _ := false
  stadoVersion := "1"
  verifyManifest _ _ _ := .ok ()
  manifestSha m := m.version
  installDirectory m := m.version

def target : Target where
  product := "vault"
  name := "host"
  platform := "linux"
  stableBind := "127.0.0.1:8000"
  bindPort := 8000
  candidatePorts := (8001, 8002)
  readinessPath := "/readyz"
  legacyLaunchdPlist := none
  portsDistinct := by decide

/-- The registry wants the release of `bytes`, in its own generation. -/
def wants (bytes : List UInt8) (generation : Nat) : Pass where
  policy := {
    desired := some ⟨name bytes, generation,
      some ⟨"manifest", "signature", "archive", name bytes, name bytes, "r", "k"⟩⟩
    strategy := ⟨60, 60, 600, true⟩
    binary := "bin"
    launcher := "run"
    configSchema := 1
    stateSchema := 1 }
  trustedKeys _ := some "key"

def world : World where
  table := ⟨[⟨2, 2, none, [], none, by simp⟩], 3, by simp⟩
  doc := none
  target := none
  trail := []
  swept := []
  found := []

theorem world_untouched : world.Untouched := ⟨rfl, rfl⟩

abbrev Ev := Event Pass Choice Move

def done : Ev := .act .done

/-- The listener of the stable bind is `stado serve`. -/
def owner : Ev := .act (.pid (some 2))

/-- A release answers its readiness request. -/
def answers : List Ev := [done, .act (.probed .success)]

def begins (pass : Pass) : List Ev :=
  [.start pass, done, done, .act (.pid none), .act (.skips [])]

/-- A pass begins and adopts the ready proxy. -/
def adopts (pass : Pass) : List Ev :=
  [.start pass, done, done, owner, done, done, done, done, .act (.probed .success), done,
    .act (.skips [])]

/-- A pass begins while nothing owns the proxy's upstream. -/
def unowned (pass : Pass) : List Ev :=
  [.start pass, done, done, owner, done, done, done, .act (.skips [])]

/-- The release is fetched and verified. -/
def fetches (bytes : List UInt8) : List Ev :=
  [.act (.text none), done, .act (.bytes bytes), .act (.bytes bytes), .act (.bytes bytes), done]

/-- The release is fetched, staged and started, and the pass ends. -/
def starts (bytes : List UInt8) : List Ev :=
  fetches bytes ++ [done, done, done, .act (.time 0), done, done]

/-- The proxy forwards to the release and answers for it. -/
def proves (bytes : List UInt8) : List Ev :=
  [done, .act (.manifest (manifest bytes)), done, .act (.probed .success)]

/-- The candidate answers and the stable bind is routed to it; `proxy` says how
the proxy's owner is read. -/
def advances (bytes : List UInt8) (proxy : List Ev) : List Ev :=
  [.act (.time 0)] ++ answers ++ [.act (.time 0), done] ++ answers ++ [done, done] ++ proxy ++
    proves bytes ++ [done, done]

def a : List UInt8 := [65]

def b : List UInt8 := [66]

/-- `A` and then `B` are rolled out, on the two candidate ports. -/
def rollsOut : List Ev :=
  begins (wants a 1) ++ starts a ++ [.move (.listen 3 8001)] ++
    begins (wants a 1) ++ advances a [owner] ++
    adopts (wants b 2) ++ starts b ++ [.move (.listen 4 8002)] ++
    adopts (wants b 2) ++ advances b [done, owner]

/-- `A` is wanted again and refused, as it cannot be rolled back to `B`. -/
def refuses : List Ev :=
  adopts (wants a 3) ++ fetches a ++ [.act (.time 0), done, done]

/-- `B` is gone: the stable bind goes back to `A`. -/
def rollsBack : List Ev :=
  [.move (.exit 4)] ++ unowned (wants a 3) ++
    [done, done, done, .act (.logs ⟨"", ""⟩ ⟨"", ""⟩), .act (.time 0)] ++ answers ++
    [done, done, done, owner] ++ proves a ++ [done, done]

end SmallHost

open SmallHost

/-- A run that quarantines the previous release's digest and goes on serving the
active one. -/
theorem quarantined_not_running_refused : ∃ s : Config Act String World Unit,
    s.world.document.active.map (·.artifactSha256) = some "B" ∧
      s.world.document.quarantined.containsKey "A" = true ∧
      Unquarantined s.world.document := by
  obtain ⟨s, hr, hs⟩ := Config.exists_exec setting
    (reconcileOnce libraries target) (C := SparesQuarantined) (s := ⟨SmallHost.world, none⟩) _
    (fun s ev => Config.meets_of_checks (fun a w => !restoresQuarantined a w) (fun _ _ => true)
      (fun a w h => (Bool.not_eq_true' _).mp h) (fun _ _ _ => trivial))
    (rollsOut ++ refuses)
    (P := fun s => s.world.document.active.map (·.artifactSha256) == some "B" &&
      s.world.document.quarantined.containsKey "A")
    (by decide +kernel)
  simp only [Bool.and_eq_true, beq_iff_eq] at hs
  exact ⟨s, hs.1, hs.2, quarantined_not_running world_untouched hr⟩

/-- **A rollback restores a quarantined digest**: `A` is refused while it is the
previous release, and active again once `B` is gone. -/
theorem rollback_restores_quarantined : ¬ ∀ (L : Libraries) (T : Target) (w : World)
    (s : Config Act String World Unit), w.Untouched →
      Config.Reaches setting (reconcileOnce L T) .any ⟨w, none⟩ s →
      Unquarantined s.world.document := by
  intro hall
  obtain ⟨s, hr, hs⟩ := Config.exists_exec setting
    (reconcileOnce libraries target) (s := ⟨SmallHost.world, none⟩) (fun _ _ => true)
    (fun _ _ _ => Config.meets_any) (rollsOut ++ refuses ++ rollsBack)
    (P := fun s => s.world.document.active.map (·.artifactSha256) == some "A" &&
      s.world.document.quarantined.containsKey "A")
    (by decide +kernel)
  simp only [Bool.and_eq_true, beq_iff_eq, Option.map_eq_some_iff] at hs
  obtain ⟨⟨r, hactive, hdigest⟩, hquarantined⟩ := hs
  have hfree := (hall libraries target SmallHost.world s world_untouched hr).active r hactive
  rw [hdigest, hquarantined] at hfree
  cases hfree

end Stado.Rollout
