import Stado.Rollout.Passes

/-!
# What the agent's steps do

Each commit of the state document, by the place it is made from: what it may
change of the releases and the quarantined digests, and what the agent knows of
the proxy's target and of the release's process when it makes it. Each signal:
which recorded release it goes to, and where the proxy then forwards.
-/

namespace Stado.Rollout

open Solo List Option World

variable (T : Target)

/-! ## Facts that stay -/

/-- The release runs on a candidate port in a group of its own: whatever is
left of the group was told that port. -/
structure Launched (w : World) (r : ProcessRecord) : Prop where
  port : r.port = T.candidatePorts.1 ∨ r.port = T.candidatePorts.2
  pid : r.pid < w.table.nextPid
  leads : ∀ q ∈ w.table.procs, q.pid = r.pid → q.group = r.pid
  told : ∀ q ∈ w.table.procs, q.group = r.pid → q.told = some r.port

/-- The proxy forwards to the release's port, and its process was found alive
after the last candidate was started. -/
structure Routed (w : World) (r : ProcessRecord) : Prop where
  upstream : w.target.map (·.upstream) = some r.port
  found : r ∈ w.found

/-- Two documents name the same releases and the same quarantined digests. -/
structure Same (s s' : HostReleaseState) : Prop where
  active : s.active = s'.active
  previous : s.previous = s'.previous
  candidate : s.candidate = s'.candidate
  quarantined : s.quarantined = s'.quarantined
  phase : s.phase = s'.phase

namespace Same

variable {s s' s'' : HostReleaseState}

theorem refl (s : HostReleaseState) : Same s s := ⟨rfl, rfl, rfl, rfl, rfl⟩

theorem symm (h : Same s s') : Same s' s :=
  ⟨h.active.symm, h.previous.symm, h.candidate.symm, h.quarantined.symm, h.phase.symm⟩

theorem trans (h : Same s s') (h' : Same s' s'') : Same s s'' :=
  ⟨h.active.trans h'.active, h.previous.trans h'.previous, h.candidate.trans h'.candidate,
    h.quarantined.trans h'.quarantined, h.phase.trans h'.phase⟩

theorem slots (h : Same s s') : s.slots = s'.slots := by
  unfold HostReleaseState.slots
  rw [h.active, h.candidate, h.previous]

end Same

@[simp] theorem HostReleaseState.mem_slots {s : HostReleaseState} {r : ProcessRecord} :
    r ∈ s.slots ↔ s.active = some r ∨ s.candidate = some r ∨ s.previous = some r := by
  unfold HostReleaseState.slots
  rw [reduceOption_mem_iff]
  simp only [mem_cons, not_mem_nil, or_false, eq_comm]

/-- The releases launched so far stay so. -/
def StillLaunched (w w' : World) : Prop := ∀ r, Launched T w r → Launched T w' r

/-- Nothing the agent commits has changed. -/
structure Onward (w w' : World) : Prop where
  doc : w'.doc = w.doc
  target : w'.target = w.target
  found : ∀ r ∈ w.found, r ∈ w'.found
  launched : StillLaunched T w w'

/-- The state document has not changed; the proxy's target may have. -/
structure Steady (w w' : World) : Prop where
  doc : w'.doc = w.doc
  found : ∀ r ∈ w.found, r ∈ w'.found
  launched : StillLaunched T w w'

/-- The state document names what it named. -/
structure Kept (w w' : World) : Prop where
  same : Same w'.document w.document
  launched : StillLaunched T w w'

variable {T} {w w' w'' : World} {r : ProcessRecord}

theorem World.document_eq (h : w'.doc = w.doc) : w'.document = w.document := by
  unfold document
  rw [h]

namespace Onward

theorem refl (w : World) : Onward T w w := ⟨rfl, rfl, fun _ h => h, fun _ h => h⟩

theorem trans (h : Onward T w w') (h' : Onward T w' w'') : Onward T w w'' :=
  ⟨h'.doc.trans h.doc, h'.target.trans h.target, fun r hr => h'.found r (h.found r hr),
    fun r hr => h'.launched r (h.launched r hr)⟩

theorem steady (h : Onward T w w') : Steady T w w' := ⟨h.doc, h.found, h.launched⟩

theorem document (h : Onward T w w') : w'.document = w.document := document_eq h.doc

theorem routed (h : Onward T w w') (hr : Routed w r) : Routed w' r :=
  ⟨by rw [h.target]; exact hr.upstream, h.found r hr.found⟩

end Onward

namespace Steady

theorem trans (h : Steady T w w') (h' : Steady T w' w'') : Steady T w w'' :=
  ⟨h'.doc.trans h.doc, fun r hr => h'.found r (h.found r hr),
    fun r hr => h'.launched r (h.launched r hr)⟩

theorem kept (h : Steady T w w') : Kept T w w' := by
  refine ⟨?_, h.launched⟩
  rw [document_eq h.doc]
  exact Same.refl _

end Steady

namespace Kept

theorem trans (h : Kept T w w') (h' : Kept T w' w'') : Kept T w w'' :=
  ⟨h'.same.trans h.same, fun r hr => h'.launched r (h.launched r hr)⟩

end Kept

/-! ## What a step may do -/

variable (T)

/-- What a commit of `n` from `site` changes of the document in `w`. -/
def Saves (w : World) (n : HostReleaseState) : SaveSite → Prop
  | .repeatsFailure =>
    let o := w.document
    o.phase = .rolledBack ∧ o.active = none ∧ o.previous = none ∧
      n.active = none ∧ n.previous = none ∧ n.candidate = o.candidate ∧
      n.phase ≠ .rolledBack ∧
      ∃ digest record, n.quarantined = o.quarantined.orInsert digest record
  | .retired =>
    let o := w.document
    n.active = o.active ∧ n.previous = o.previous ∧ n.candidate = o.candidate ∧
      n.phase = o.phase ∧ ∃ digest, n.quarantined = o.quarantined.remove digest
  | .discarded =>
    let o := w.document
    n.active = o.active ∧ n.previous = o.previous ∧ n.candidate = none ∧
      n.phase = o.phase ∧ n.quarantined = o.quarantined
  | .refused | .incompatible =>
    let o := w.document
    n.active = o.active ∧ n.previous = o.previous ∧ o.candidate = none ∧ n.candidate = none ∧
      n.phase ≠ .rolledBack ∧
      ∃ digest record, n.quarantined = o.quarantined.insert digest record ∧
        ∀ a, o.active = some a → a.artifactSha256 ≠ digest
  | .started =>
    let o := w.document
    n.active = o.active ∧ n.previous = o.previous ∧ o.candidate = none ∧
      n.phase ≠ .rolledBack ∧ n.quarantined = o.quarantined ∧
      ∃ c, n.candidate = some c ∧ o.quarantined.containsKey c.artifactSha256 = false ∧
        ∀ a, o.active = some a → a.artifactSha256 ≠ c.artifactSha256 ∧ a.port ≠ c.port
  | .unready =>
    let o := w.document
    n.active = o.active ∧ n.previous = o.previous ∧ n.candidate = none ∧ n.phase ≠ .rolledBack ∧
      ∃ c record, o.candidate = some c ∧
        n.quarantined = o.quarantined.insert c.artifactSha256 record
  | .cutover =>
    let o := w.document
    n.previous = o.active ∧ n.candidate = none ∧ n.phase ≠ .rolledBack ∧
      n.quarantined = o.quarantined ∧ ∃ c, o.candidate = some c ∧ n.active = some c
  | .routed | .monitoring | .windowStarted =>
    let o := w.document
    n.active = o.active ∧ n.previous = o.previous ∧ n.candidate = o.candidate ∧
      n.phase ≠ .rolledBack ∧ n.quarantined = o.quarantined ∧
      ∃ a, o.active = some a ∧ Routed w a
  | .committed =>
    let o := w.document
    n.active = o.active ∧ n.previous = none ∧ n.candidate = o.candidate ∧
      n.phase ≠ .rolledBack ∧ n.quarantined = o.quarantined ∧
      ∃ a, o.active = some a ∧ Routed w a
  | .rolledBack =>
    let o := w.document
    n.active = o.previous ∧ n.previous = none ∧ n.candidate = none ∧
      (∀ p, o.previous = some p → Routed w p) ∧
      ∃ f record, o.active = some f ∧ n.quarantined = o.quarantined.insert f.artifactSha256 record
  | _ =>
    let o := w.document
    n.active = o.active ∧ n.previous = o.previous ∧ n.candidate = o.candidate ∧
      n.quarantined = o.quarantined ∧ (n.phase = o.phase ∨ n.phase ≠ .rolledBack)

/-- What a commit may change is read off the committed document and off facts
that stay. -/
theorem Saves.onward {T : Target} {n : HostReleaseState} {site : SaveSite}
    (hon : Onward T w w') (h : Saves w n site) : Saves w' n site := by
  have hdoc := hon.document
  have hrouted : ∀ o : HostReleaseState, (∃ a, o.active = some a ∧ Routed w a) →
      ∃ a, o.active = some a ∧ Routed w' a := by
    rintro o ⟨a, ha, hr⟩
    exact ⟨a, ha, hon.routed hr⟩
  cases site with
  | routed | monitoring | windowStarted | committed =>
    obtain ⟨h₁, h₂, h₃, h₄, h₅, h₆⟩ := h
    unfold Saves
    rw [hdoc]
    exact ⟨h₁, h₂, h₃, h₄, h₅, hrouted _ h₆⟩
  | rolledBack =>
    obtain ⟨h₁, h₂, h₃, h₄, h₅⟩ := h
    unfold Saves
    rw [hdoc]
    exact ⟨h₁, h₂, h₃, fun p hp => hon.routed (h₄ p hp), h₅⟩
  | _ =>
    unfold Saves at h ⊢
    rw [hdoc]
    exact h

/-- Which recorded release a signal goes to, and where the proxy forwards. -/
def Stops (w : World) (r : ProcessRecord) : StopSite → Prop
  | .discarded | .unready => w.document.candidate = some r
  | .rolledBack => w.document.active = some r ∧ ∃ p, w.document.previous = some p ∧ Routed w p
  | .handedToLegacy => w.document.active = some r ∧ w.document.previous = none
  | .committed => w.document.previous = some r ∧ ∃ a, w.document.active = some a ∧ Routed w a

def HostReleaseState.Serves (s : HostReleaseState) (r : ProcessRecord) : Prop :=
  s.active = some r ∨ s.previous = some r

/-- What the agent may do in a world. -/
def Allowed {β : Type} (w : World) : Act β → Prop
  | .saveState site n => (∀ r ∈ n.slots, Launched T w r) ∧ Saves w n site
  | .writeProxyTarget _ port => ∃ r, w.document.Serves r ∧ r.port = port
  | .terminate site r => Stops w r site
  | .releaseAlive r => Launched T w r
  | .probe r => r ∈ w.found
  | .sweep known => ∀ r ∈ w.document.slots, r.pid ∈ known
  | _ => True

/-- A host on which the agent has kept nothing yet. -/
structure World.Untouched (w : World) : Prop where
  doc : w.doc = none
  found : w.found = []

/-- The rules of the rollout agent. -/
def rules : Rules Act World where
  begins := Untouched
  allowed a w := Allowed T w a

variable {T}

/-! ## How steps change the world -/

/-- A step that commits nothing and starts nothing. -/
def Act.Quiet {β : Type} : Act β → Prop
  | .saveState _ _ | .writeProxyTarget _ _ | .spawnRelease _ _ _ => False
  | _ => True

section Frames

variable {keep : Process → Bool}

theorem mem_only {t : Table} {q : Process}
    (h : q ∈ (t.only keep).procs) : q ∈ t.procs := (mem_filter.mp h).1

theorem Launched.of_table (h : Launched T w r) (htable : w'.table = w.table) : Launched T w' r := by
  constructor
  · exact h.port
  · rw [htable]
    exact h.pid
  · rw [htable]
    exact h.leads
  · rw [htable]
    exact h.told

/-- Launched releases stay so while processes only leave the table. -/
theorem Launched.only (h : Launched T w r)
    (htable : w'.table = w.table.only keep) : Launched T w' r := by
  constructor
  · exact h.port
  · rw [htable]
    exact h.pid
  · rw [htable]
    exact fun q hq => h.leads q (mem_only hq)
  · rw [htable]
    exact fun q hq => h.told q (mem_only hq)

/-- Launched releases stay so while processes run other programs and listen
elsewhere. -/
theorem Launched.alter (h : Launched T w r) {f : Process → Process}
    (hf : ∀ q, (f q).pid = q.pid ∧ (f q).group = q.group ∧ (f q).told = q.told)
    (hprocs : w'.table.procs = w.table.procs.map f)
    (hnext : w'.table.nextPid = w.table.nextPid) : Launched T w' r := by
  constructor
  · exact h.port
  · rw [hnext]
    exact h.pid
  · rw [hprocs]
    intro q hq hpid
    obtain ⟨q', hq', rfl⟩ := List.mem_map.mp hq
    rw [(hf q').1] at hpid
    rw [(hf q').2.1]
    exact h.leads q' hq' hpid
  · rw [hprocs]
    intro q hq hgroup
    obtain ⟨q', hq', rfl⟩ := List.mem_map.mp hq
    rw [(hf q').2.1] at hgroup
    rw [(hf q').2.2]
    exact h.told q' hq' hgroup

/-- A launched release stays so when a process starts in a group that is not
its own, or inherits what its group was told. -/
theorem Launched.add (h : Launched T w r) {q : Process}
    (hprocs : w'.table.procs = q :: w.table.procs)
    (hnext : w'.table.nextPid = w.table.nextPid + 1) (hpid : q.pid = w.table.nextPid)
    (htold : q.group = r.pid → q.told = some r.port) : Launched T w' r := by
  have hlt := h.pid
  constructor
  · exact h.port
  · rw [hnext]
    exact Nat.lt_succ_of_lt hlt
  · rw [hprocs]
    intro q' hq heq
    rcases mem_cons.mp hq with rfl | hq
    · rw [hpid] at heq
      exact absurd heq (Nat.ne_of_gt hlt)
    · exact h.leads q' hq heq
  · rw [hprocs]
    intro q' hq heq
    rcases mem_cons.mp hq with rfl | hq
    · exact htold heq
    · exact h.told q' hq heq

end Frames

/-- A world that differs in nothing the agent commits. -/
theorem Onward.of_table (hdoc : w'.doc = w.doc) (htarget : w'.target = w.target)
    (hfound : w'.found = w.found) (h : StillLaunched T w w') : Onward T w w' :=
  ⟨hdoc, htarget, fun r hr => by rw [hfound]; exact hr, h⟩

/-- The moves of the world leave what the agent committed. -/
theorem Onward.of_move {m : Move} (h : w.move m = some w') : Onward T w w' := by
  simp only [move, map_eq_some_iff] at h
  obtain ⟨t, ht, rfl⟩ := h
  refine .of_table rfl rfl rfl fun r hr => ?_
  cases m with
  | fork parent listing =>
    simp only [Table.move] at ht
    split at ht
    · next q hq =>
      cases ht
      have hmem := mem_of_find?_eq_some hq
      exact hr.add rfl rfl rfl fun heq => hr.told q hmem heq
    · cases ht
  | arrive listing =>
    cases ht
    exact hr.add rfl rfl rfl fun heq => absurd heq (Nat.ne_of_gt hr.pid)
  | exec pid listing =>
    cases ht
    exact hr.alter (fun q => by split <;> exact ⟨rfl, rfl, rfl⟩) rfl rfl
  | exit pid =>
    cases ht
    exact hr.only rfl
  | listen pid port =>
    simp only [Table.move] at ht
    split at ht
    · cases ht
    · cases ht
      refine hr.alter (fun q => ?_) rfl rfl
      split
      · obtain ⟨hpid, hgroup, htold, -⟩ := q.listen_pid port
        exact ⟨hpid, hgroup, htold⟩
      · exact ⟨rfl, rfl, rfl⟩
  | close pid port =>
    cases ht
    exact hr.alter (fun q => by split <;> exact ⟨rfl, rfl, rfl⟩) rfl rfl

theorem Onward.of_moved (h : Solo.Moved setting w w') : Onward T w w' :=
  h.keeps (K := Onward T) Onward.refl (fun h h' => h.trans h') fun h => Onward.of_move h

section Performing

variable {β : Type} {c : Choice} {manifest : ReleaseManifest} {manifestSha : Digest}
  {read : Choice → Option β} {x : Except String β}

theorem World.reads_eq {b : β} (h : w.reads c b = some (x, w')) :
    w' = w ∧ ∀ b', x = .ok b' → b' = b := by
  unfold reads at h
  split at h
  · cases h
    exact ⟨rfl, by rintro b' ⟨rfl⟩; rfl⟩
  · cases h
    exact ⟨rfl, by rintro b' ⟨⟩⟩
  · cases h

theorem World.asks_eq (h : w.asks c read = some (x, w')) : w' = w := by
  unfold asks at h
  split at h
  · cases h
    rfl
  · rw [map_eq_some_iff] at h
    obtain ⟨b, -, hb⟩ := h
    cases hb
    rfl

theorem World.tells_eq {x : β} (h : w.tells c read = some (x, w')) : w' = w ∧ read c = some x := by
  unfold tells at h
  rw [map_eq_some_iff] at h
  obtain ⟨b, hb, heq⟩ := h
  cases heq
  exact ⟨rfl, hb⟩

theorem World.probes_eq {port : Port} {p : Probe} (h : w.probes c port = some (p, w')) :
    w' = w := by
  unfold probes at h
  split at h
  · split at h <;> cases h
    rfl
  · split at h <;> cases h
    rfl
  · split at h <;> cases h
    rfl
  · cases h
    rfl
  · cases h

/-- A write that answers took effect; one that fails may have. -/
theorem World.writes_eq {w₁ : World} {x : Except String Unit} (h : w.writes c w₁ = some (x, w')) :
    (x = .ok () ∧ w' = w₁) ∨ ((∃ why, x = .error why) ∧ (w' = w ∨ w' = w₁)) := by
  unfold writes at h
  split at h
  · cases h
    exact .inl ⟨rfl, rfl⟩
  · cases h
    exact .inr ⟨⟨_, rfl⟩, .inl rfl⟩
  · cases h
    exact .inr ⟨⟨_, rfl⟩, .inr rfl⟩
  · cases h

/-- A start that fails changes nothing. -/
theorem World.spawn_eq {port : Port} {x : Except String ProcessRecord}
    (h : setting.perform (.spawnRelease manifest manifestSha port) c w = some (x, w')) :
    ((∃ why, x = .error why) ∧ w' = w) ∨ ∃ now, x = .ok (w.spawn manifest manifestSha port now).1 ∧
      w' = (w.spawn manifest manifestSha port now).2 := by
  simp only [setting, perform] at h
  split at h
  · next now =>
    cases h
    exact .inr ⟨now, rfl, rfl⟩
  · cases h
    exact .inl ⟨⟨_, rfl⟩, rfl⟩
  · cases h

/-- A quiet step leaves what the agent committed. -/
theorem Onward.of_perform {a : Act β} {b : β} (hq : a.Quiet)
    (h : setting.perform a c w = some (b, w')) : Onward T w w' := by
  have hrefl : ∀ {w₁ : World}, w₁ = w → Onward T w w₁ := by
    rintro _ rfl
    exact Onward.refl _
  change perform a c w = _ at h
  cases a with
  | saveState | writeProxyTarget | spawnRelease => exact hq.elim
  | requireOwner | loadState | stopLegacy | proxyState | stopListener | releaseProcesses
  | listener | stageRelease | auditTrail | publishStatus => exact hrefl (reads_eq h).1
  | exactProxyPid | restoreLegacy | ensureListener | readMarker | foreignHolder | fetchBytes =>
    exact hrefl (asks_eq h)
  | probe record => exact hrefl (probes_eq h)
  | recordRetirement line =>
    have hline : Onward T w { w with trail := w.trail ++ [line] } :=
      .of_table rfl rfl rfl fun r hr => hr.of_table rfl
    rcases writes_eq h with ⟨-, h⟩ | ⟨-, h | h⟩
    · exact h ▸ hline
    · exact hrefl h
    · exact h ▸ hline
  | sweep known =>
    simp only [perform] at h
    split at h
    · cases h
      exact .of_table rfl rfl rfl fun r hr => hr.only rfl
    · cases h
      exact Onward.refl _
    · cases h
  | releaseAlive record =>
    simp only [perform] at h
    split at h
    · split at h
      · cases h
        exact ⟨rfl, rfl, fun r hr => mem_cons_of_mem _ hr, fun r hr => hr.of_table rfl⟩
      · cases h
        exact Onward.refl _
    · cases h
  | stableBindProbe | pidAlive | terminate | releaseLogs | askWall | hostRoom | now =>
    simp only [perform] at h
    exact hrefl (tells_eq h).1

end Performing

/-! ## Lived worlds -/

section Lived

theorem StillLaunched.of_spawn {port : Port}
    {now : Time} : StillLaunched T w (w.spawn manifest manifestSha port now).2 :=
  fun _ hr => hr.add rfl rfl rfl fun heq => absurd heq (Nat.ne_of_gt hr.pid)

theorem Launched.of_spawn {port : Port}
    {now : Time} (hport : port = T.candidatePorts.1 ∨ port = T.candidatePorts.2) :
    Launched T (w.spawn manifest manifestSha port now).2
      (w.spawn manifest manifestSha port now).1 := by
  constructor
  · exact hport
  · exact Nat.lt_succ_self _
  · intro q hq hpid
    rcases mem_cons.mp hq with rfl | hq
    · rfl
    · exact absurd hpid (Nat.ne_of_lt (w.table.fresh q hq).1)
  · intro q hq hgroup
    rcases mem_cons.mp hq with rfl | hq
    · rfl
    · exact absurd hgroup (Nat.ne_of_lt (w.table.fresh q hq).2)

variable {C : Solo.Condition Act World Move}

/-- **The induction over what the agent commits.** A fact about worlds holds of
every lived one when it holds at the start and each commit, each start and each
step that commits nothing keeps it. -/
theorem Lived.commits {I : World → Prop}
    (h : Lived setting (rules T) C w)
    (begins : ∀ w, w.Untouched → I w)
    (onward : ∀ w w', Onward T w w' → I w → I w')
    (save : ∀ w site n, Lived setting (rules T) C w → (∀ r ∈ n.slots, Launched T w r) →
      Saves w n site → C.act (.saveState site n) w → I w → I { w with doc := some n })
    (retarget : ∀ w generation port, Lived setting (rules T) C w →
      (∃ r, w.document.Serves r ∧ r.port = port) →
      C.act (.writeProxyTarget generation port) w → I w →
        I { w with target := some ⟨generation, port⟩ })
    (spawn : ∀ w manifest manifestSha port now, Lived setting (rules T) C w →
      C.act (.spawnRelease manifest manifestSha port) w → I w →
        I (w.spawn manifest manifestSha port now).2) : I w := by
  induction h with
  | begins h => exact begins _ h
  | move older cond step ih => exact onward _ _ (Onward.of_move step) ih
  | @act w w' β a c b older ok cond step ih =>
    cases a with
    | saveState site n =>
      have hsave := save w site n older ok.1 ok.2 cond ih
      rcases writes_eq step with ⟨-, h⟩ | ⟨-, h | h⟩
      · exact h ▸ hsave
      · exact h ▸ ih
      · exact h ▸ hsave
    | writeProxyTarget generation port =>
      have htarget := retarget w generation port older ok cond ih
      rcases writes_eq step with ⟨-, h⟩ | ⟨-, h | h⟩
      · exact h ▸ htarget
      · exact h ▸ ih
      · exact h ▸ htarget
    | spawnRelease manifest manifestSha port =>
      rcases spawn_eq step with ⟨-, rfl⟩ | ⟨now, -, rfl⟩
      · exact ih
      · exact spawn w manifest manifestSha port now older cond ih
    | _ =>
      refine onward _ _ (Onward.of_perform ?_ step) ih
      trivial

theorem Lived.recorded (h : Lived setting (rules T) C w) :
    ∀ r ∈ w.document.slots, Launched T w r := by
  refine Lived.commits h (I := fun w => ∀ r ∈ w.document.slots, Launched T w r) ?_ ?_ ?_ ?_ ?_
  · intro w hw r hr
    unfold document at hr
    rw [hw.doc] at hr
    simp [HostReleaseState.new] at hr
  · intro w w' hon ih r hr
    rw [hon.document] at hr
    exact hon.launched r (ih r hr)
  · intro w site n _ hslots _ _ _ r hr
    exact (hslots r hr).of_table rfl
  · intro w generation port _ _ _ ih r hr
    exact (ih r hr).of_table rfl
  · intro w manifest manifestSha port now _ _ ih r hr
    exact StillLaunched.of_spawn r (ih r hr)

theorem Lived.serving (h : Lived setting (rules T) C w)
    (hr : w.document.Serves r) : Launched T w r := by
  refine Lived.recorded h r ?_
  rw [HostReleaseState.mem_slots]
  exact hr.imp id .inr

end Lived

end Stado.Rollout
