import Stado.Protocol.Kept
import Stado.Queue.Workdir
import Stado.Safety.OneLive

/-!
# A terminal verdict is final

While a job has at most one live document and none is moved out of a terminal
prefix, a job whose work directory was once called terminal has no queued,
running or fenced document from then on, wherever between the steps of other
clients the reads behind the verdict fell.
-/

namespace Stado

open CasStore Program List

def recordsFromLive (site : Site) (change : Option (Change Path Contents)) : Bool :=
  match site, change with
  | .installRecord t, some _ => !t.fromPrefix.terminal
  | _, _ => true

/-- One live document, and no move out of a terminal prefix. -/
def terminalStays : Condition := fun l i site change =>
  oneLive l i site change ∧ recordsFromLive site change = true

instance (l : ObjectStore) (i : Nat) (site : Site) (change : Option (Change Path Contents)) :
    Decidable (terminalStays l i site change) :=
  inferInstanceAs (Decidable (oneLive l i site change ∧ recordsFromLive site change = true))

def NotFenced (l : ObjectStore) (p : Prefix) (jobId : String) : Prop :=
  ∀ t job v, l.get (.document p jobId) = some (.job job, v) → job.state ≠ .transitioning t

/-- The job can no longer run: it stands neither in `queue/` nor in `running/`, and
none of its documents is fenced. -/
structure NoLonger (l : ObjectStore) (jobId : String) : Prop where
  dead : ∀ q, q.terminal = false → ¬Live l q jobId
  notFenced : ∀ p, NotFenced l p jobId

section Histories

variable {cond : Condition} {i : Nat} {l l0 l1 : ObjectStore} {t : TransitionId} {p q : Prefix}
  {jobId : String}

/-! ## Histories in which terminal jobs stay -/

theorem oneLive_of_stays (h : History (lifecycle terminalStays) l) :
    History (lifecycle oneLive) l :=
  h.mono (fun _ _ => id) fun _ _ _ _ hcond => hcond.1

theorem recorded_from_live (h : History (lifecycle terminalStays) l) {s : TransitionState}
    (hr : Recorded l t s) : t.fromPrefix.terminal = false := by
  obtain ⟨⟨v, e, r, he, hp, hc, hid, hstate⟩, -⟩ := hr.prepared h
  obtain ⟨older, hpast, -, hal, hcond⟩ := held_allowed h he
  cases hal.recordWrite hp with
  | records r' wf prepared source free =>
    cases hc
    rw [← hid]
    exact Bool.not_eq_true' _ |>.mp hcond.2
  | moves u s' prev w hget hprev differs basis =>
    cases hc
    cases hstate
    exact basis.elim
  | retires u prev w hget hprev state basis =>
    cases hc
    cases hstate

/-- The destination of a retired transition once stood. -/
theorem Recorded.stood (h : History (lifecycle cond) l) (hr : Recorded l t .retired) :
    ∃ l0 : ObjectStore, l0.PastOf l ∧ Live l0 t.toPrefix t.jobId := by
  obtain ⟨older, hpast, -, basis | ⟨hfalse, -⟩⟩ := recorded_write h (hr.completed h) (by simp)
  · obtain ⟨⟨l0, hl0, v, job, hlive, -⟩, -⟩ := (show CompletedBasis older t from basis)
    exact ⟨l0, hl0.trans hpast, v, job, hlive⟩
  · cases hfalse

/-- A job that once stood under a terminal prefix stands under no other kind. -/
theorem not_live_after (h : History (lifecycle terminalStays) l) (hl0 : l0.PastOf l)
    (terminal : p.terminal = true) (hlive : Live l0 p jobId) (hq : q.terminal = false) :
    ¬Live l q jobId := by
  intro hagain
  obtain ⟨v, job, hlive⟩ := hlive
  obtain ⟨t, -, hfrom, -, hfenced⟩ :=
    left_of_ended (oneLive_of_stays h) hl0 terminal hlive hq hagain
  have hstays := recorded_from_live h (hfenced.recorded h)
  rw [hfrom, terminal] at hstays
  cases hstays

/-- What was read of a job whose verdict is terminal: a retired record of a terminal
move, and after it each document unfenced. -/
def SettledRead (l : ObjectStore) (jobId : String) : Prop :=
  ∃ (l0 : ObjectStore) (t : TransitionId), l0.PastOf l ∧ t.jobId = jobId ∧
    Recorded l0 t .retired ∧ t.toPrefix.terminal = true ∧
      ∀ p, ∃ l1 : ObjectStore, l0.PastOf l1 ∧ l1.PastOf l ∧ NotFenced l1 p jobId

theorem SettledRead.mono (hl0 : l0.PastOf l) (h : SettledRead l0 jobId) : SettledRead l jobId := by
  obtain ⟨l2, t, hl2, hj, hretired, hterminal, hreads⟩ := h
  refine ⟨l2, t, hl2.trans hl0, hj, hretired, hterminal, fun p => ?_⟩
  obtain ⟨l1, h1, h2, hclear⟩ := hreads p
  exact ⟨l1, h1, h2.trans hl0, hclear⟩

theorem SettledRead.noLonger (h : History (lifecycle terminalStays) l)
    (hread : SettledRead l jobId) : NoLonger l jobId := by
  obtain ⟨l0, t, hl0, rfl, hretired, hterminal, hreads⟩ := hread
  obtain ⟨l2, hl2, hlive⟩ := hretired.stood (h.of_suffix hl0)
  refine ⟨fun q hq => not_live_after h (hl2.trans hl0) hterminal hlive hq, fun p => ?_⟩
  intro u job v hget hstate
  obtain ⟨l1, h1, hl1, hclear⟩ := hreads p
  obtain ⟨e, he, hp, hc⟩ := Store.get_held hget
  obtain ⟨older, source, own, hpast, hlen, -, hsource, -, hcurrent, hrecorded⟩ :=
    fence_write h he hp hc hstate
  rcases Nat.lt_or_ge v l1.length with hlt | hge
  · -- The fence was there when the document was read.
    exact hclear u job v (Store.get_of_pastOf hl1 hget hlt) hstate
  · -- The fence was written after the read: its source stood then.
    have hpast' := pastOf_of_cons hpast
    have hold : l1.PastOf older := suffix_of_suffix_length_le hl1 hpast' (by omega)
    have hist := h.of_suffix hpast'
    obtain ⟨-, -, -, f, job', hf, -, hfc, hstands, -⟩ := hrecorded.prepared hist
    cases Store.get_eq_of_held hcurrent hf hfc
    have hlive' : Live older u.fromPrefix u.jobId := ⟨u.sourceVersion, source, hcurrent, hstands⟩
    rw [hp] at hsource
    obtain ⟨rfl, hj⟩ := Path.document.inj hsource
    rw [← hj] at hlive'
    exact not_live_after hist ((hl2.trans h1).trans hold) hterminal hlive
      (recorded_from_live hist hrecorded) hlive'

/-! ## What the verdict read -/

def ReadNotFenced (l : ObjectStore) (ps : List Prefix) (jobId : String) (l' : ObjectStore) : Prop :=
  ∀ p ∈ ps, ∃ l1 : ObjectStore, l.PastOf l1 ∧ l1.PastOf l' ∧ NotFenced l1 p jobId

theorem ReadNotFenced.cons {ps : List Prefix} (hl : l.PastOf l0) (hl0 : l0.PastOf l1)
    (hclear : NotFenced l0 p jobId) (h : ReadNotFenced l0 ps jobId l1) :
    ReadNotFenced l (p :: ps) jobId l1 := by
  intro p' hmem
  rcases mem_cons.mp hmem with rfl | hmem
  · exact ⟨l0, hl, hl0, hclear⟩
  · obtain ⟨l2, h2, h1, hp'⟩ := h p' hmem
    exact ⟨l2, hl.trans h2, h1, hp'⟩

theorem notFenced_of_state {job : Job} {v : Nat}
    (hget : l.get (.document p jobId) = some (.job job, v))
    (hstate : ∀ t, job.state ≠ .transitioning t) : NotFenced l p jobId := by
  intro t job' v' hget'
  rw [hget] at hget'
  cases hget'
  exact hstate t

theorem notFenced_of_none (hget : l.get (.document p jobId) = none) : NotFenced l p jobId := by
  intro t job v hsome
  rw [hget] at hsome
  cases hsome

variable {ps : List Prefix} {transition : JobTransition}

theorem not_fence_of_cleanedAside {job : Job} (h : cleanedAside transition p job = true)
    (t : TransitionId) : job.state ≠ .transitioning t := by
  intro hstate
  unfold cleanedAside at h
  rw [hstate] at h
  simp [cleanedTransitionId] at h

/-- The watched prefixes answer that the job is live or that nothing is known, or were
all read unfenced. -/
theorem meets_watchedVerdict (hist : History (lifecycle cond) l) :
    Meets (lifecycle cond) i (watchedVerdict transition jobId ps)
      (fun verdict l' => verdict = some .live ∨ verdict = some .unknown ∨
        verdict = none ∧ ReadNotFenced l ps jobId l') l := by
  induction ps generalizing l with
  | nil =>
    refine .inr (.inr ⟨rfl, fun p hmem => ?_⟩)
    cases hmem
  | cons p rest ih =>
    refine meets_bind (meets_read fun l1 hl1 hist1 _ => ?_)
    have hgoes : NotFenced l1 p jobId →
        Meets (lifecycle cond) i (watchedVerdict transition jobId rest)
          (fun verdict l' => verdict = some .live ∨ verdict = some .unknown ∨
            verdict = none ∧ ReadNotFenced l (p :: rest) jobId l') l1 :=
      fun hclear => (ih hist1).mono hist1 fun _ l2 hl2 _ hrest =>
        hrest.imp_right fun hrest => hrest.imp_right fun hread =>
          ⟨hread.1, .cons hl1 hl2 hclear hread.2⟩
    cases hget : l1.get (.document p jobId) with
    | none => exact hgoes (notFenced_of_none hget)
    | some found =>
      obtain ⟨c, v⟩ := found
      obtain ⟨job, rfl, -, -⟩ := document_get hist1 hget
      dsimp only
      split
      · exact .inr (.inl rfl)
      · split
        · exact .inl rfl
        · split
          · next hcleaned =>
            exact hgoes (notFenced_of_state hget (not_fence_of_cleanedAside hcleaned))
          · exact .inr (.inl rfl)

theorem meets_terminalVerdict {stands : Bool} (hist : History (lifecycle cond) l) :
    Meets (lifecycle cond) i (terminalVerdict transition jobId ps stands)
      (fun verdict l' => verdict = .terminal → ReadNotFenced l ps jobId l') l := by
  induction ps generalizing l stands with
  | nil =>
    intro _ p hmem
    cases hmem
  | cons p rest ih =>
    refine meets_bind (meets_read fun l1 hl1 hist1 _ => ?_)
    have hgoes : ∀ stands, NotFenced l1 p jobId →
        Meets (lifecycle cond) i (terminalVerdict transition jobId rest stands)
          (fun verdict l' => verdict = .terminal → ReadNotFenced l (p :: rest) jobId l') l1 :=
      fun stands hclear => (ih hist1).mono hist1 fun _ l2 hl2 _ hrest hnone =>
        .cons hl1 hl2 hclear (hrest hnone)
    cases hget : l1.get (.document p jobId) with
    | none => exact hgoes _ (notFenced_of_none hget)
    | some found =>
      obtain ⟨c, v⟩ := found
      obtain ⟨job, rfl, -, -⟩ := document_get hist1 hget
      dsimp only
      split
      · exact fun hterminal => by cases hterminal
      · split
        · exact fun hterminal => by cases hterminal
        · split
          · next hstands =>
            refine hgoes _ (notFenced_of_state hget fun t => ?_)
            rw [hstands.2]
            exact prefixState_ne_transitioning p t
          · split
            · next hcleaned =>
              exact hgoes _ (notFenced_of_state hget (not_fence_of_cleanedAside hcleaned))
            · exact fun hterminal => by cases hterminal

theorem meets_workdirJobState (hist : History (lifecycle cond) l) :
    Meets (lifecycle cond) i (workdirJobState jobId)
      (fun verdict l' => verdict = .terminal → SettledRead l' jobId) l := by
  have hunknown : ∀ {l1 : ObjectStore}, Meets (lifecycle cond) i
      (Program.pure WorkdirJobState.unknown : Storage WorkdirJobState)
      (fun verdict l' => verdict = .terminal → SettledRead l' jobId) l1 :=
    fun hterminal => by cases hterminal
  refine meets_bind (meets_readJobTransition.mono hist fun found l1 hl1 hist1 hread => ?_)
  obtain ⟨-, hget⟩ := hread
  cases found with
  | none => exact hunknown
  | some found =>
    obtain ⟨r, v⟩ := found
    obtain ⟨r', hr', wf, hid, -, -, -⟩ := record_get hist1 hget
    cases hr'
    show Meets (lifecycle cond) i (if _ then _ else _) _ l1
    split
    · exact hunknown
    · next hretired =>
      simp only [not_or, not_not] at hretired
      obtain ⟨hstate, hterminal, -, -⟩ := hretired
      have hrecorded : Recorded l1 r.transitionId .retired := by
        refine RecordNow.recorded ⟨r, v, ?_, rfl, hstate⟩
        rw [hid]
        exact hget
      rw [mem_terminalPrefixes, wf.toPrefix] at hterminal
      refine meets_bind ((meets_watchedVerdict hist1).mono hist1
        fun verdict l2 hl2 hist2 hwatched => ?_)
      rcases hwatched with rfl | rfl | ⟨rfl, hwatched⟩
      · exact fun hterminal => by cases hterminal
      · exact hunknown
      · refine (meets_terminalVerdict hist2).mono hist2
          fun verdict l3 hl3 _ hread hverdict => ?_
        refine ⟨l1, r.transitionId, hl2.trans hl3, hid, hrecorded, hterminal, fun p => ?_⟩
        cases hp : p.terminal with
        | true =>
          obtain ⟨l4, h4, h3, hclear⟩ := hread hverdict p (mem_terminalPrefixes.mpr hp)
          exact ⟨l4, hl2.trans h4, h3, hclear⟩
        | false =>
          have hmem : p ∈ watchedPrefixes := by
            cases p with
            | queue => exact mem_cons_self
            | running => exact mem_cons_of_mem _ mem_cons_self
            | _ => cases hp
          obtain ⟨l4, h4, h2, hclear⟩ := hwatched p hmem
          exact ⟨l4, h4, h2.trans hl3, hclear⟩

/-! ## Runs -/

def verdictPost : HostOperation → Nat → HostOutcome → ObjectStore → Prop
  | .workdir jobId, _, .workdir .terminal, l => SettledRead l jobId
  | _, _, _, _ => True

theorem meets_hostOperation {op : HostOperation} {fuel : Nat} (hist : History (lifecycle cond) l) :
    Meets (lifecycle cond) i (op.program fuel) (verdictPost op i) l := by
  cases op with
  | client op =>
    refine meets_bind ((keeps_program hist).mono hist fun outcome l1 _ _ _ => ?_)
    trivial
  | workdir jobId =>
    refine meets_bind ((meets_workdirJobState hist).mono hist fun verdict l1 _ _ hread => ?_)
    cases verdict with
    | terminal => exact hread rfl
    | _ => trivial

end Histories

/-- A run of the queue and its janitors from nothing whose steps meet the condition. -/
abbrev HostRuns (cond : Condition) (s : HostSystem) : Prop :=
  System.Reaches hosts (fun s ev => s.Respects (lifecycle cond) ev) ⟨[], []⟩ s

theorem hosts_sound {cond : Condition} {s : HostSystem} (h : HostRuns cond s) :
    System.Sound (lifecycle cond) verdictPost s := by
  have initial : System.Sound (lifecycle cond) verdictPost (⟨[], []⟩ : HostSystem) := .initial
  exact initial.reaches (fun _ _ _ _ _ _ hist _ => meets_hostOperation hist)
    (fun _ _ _ hok => hok) h

/-- **A terminal verdict is final.** In every run whose steps meet the condition, in
every state after a verdict on a job was terminal, the job can no longer run. -/
theorem terminal_workdir {s : HostSystem} (h : HostRuns terminalStays s) {i : Nat}
    {jobId : String} {t : Task Path Contents Site StorageError Query HostOperation HostOutcome}
    (ht : s.tasks[i]? = some t) (hop : t.op = .workdir jobId)
    (hverdict : t.program = .pure (.workdir .terminal)) : NoLonger s.store jobId := by
  have hsound := hosts_sound h
  obtain ⟨l, hidle, -, hpost⟩ := hsound.result ht hverdict
  rw [hop] at hpost
  have hread : SettledRead l jobId := hpost
  exact (hread.mono hidle.past).noLonger hsound.history

/-! ## Verdicts in two runs -/

def QueueEvent.beside : QueueEvent → HostEvent
  | .start op fuel => .start (.client op) fuel
  | .call i => .call i
  | .answer i a => .answer i a
  | .lose i applied => .lose i applied
  | .stop i => .stop i

/-- The job that client `i` was asked about, and its verdict. -/
def HostSystem.verdict (s : HostSystem) (i : Nat) : Option (String × WorkdirJobState) :=
  s.tasks[i]?.bind fun t =>
    match t.op, t.program with
    | .workdir jobId, .pure (.workdir verdict) => some (jobId, verdict)
    | _, _ => none

theorem HostSystem.task_of_verdict {s : HostSystem} {i : Nat} {jobId : String}
    {verdict : WorkdirJobState} (h : HostSystem.verdict s i = some (jobId, verdict)) :
    ∃ t, s.tasks[i]? = some t ∧ t.op = .workdir jobId ∧ t.program = .pure (.workdir verdict) := by
  unfold HostSystem.verdict at h
  rw [Option.bind_eq_some_iff] at h
  obtain ⟨t, ht, h⟩ := h
  split at h
  · next hop hprogram =>
    cases h
    exact ⟨t, ht, hop, hprogram⟩
  · cases h

/-- The next `n` storage calls of client `i`, beside the janitors. -/
def hostCalls (i n : Nat) : List HostEvent := List.replicate n (.call i)

/-- Job `j` runs to its end, and then its work directory is asked about. -/
def endedAndAsked : List HostEvent :=
  (claiming 19 ++ completing 2 4).map QueueEvent.beside ++ .start (.workdir "j") 9 :: hostCalls 3 7

theorem terminal_workdir_ended :
    ∃ s : HostSystem, HostRuns terminalStays s ∧
      HostSystem.verdict s 3 = some ("j", .terminal) ∧ NoLonger s.store "j" := by
  obtain ⟨s, hs, hverdict⟩ : ∃ s : HostSystem, HostRuns terminalStays s ∧
      decide (HostSystem.verdict s 3 = some ("j", .terminal)) = true :=
    System.exists_exec endedAndAsked (by decide +kernel)
  have hverdict := of_decide_eq_true hverdict
  obtain ⟨t, ht, hop, hprogram⟩ := HostSystem.task_of_verdict hverdict
  exact ⟨s, hs, hverdict, terminal_workdir hs ht hop hprogram⟩

/-- A worker stalls after the fence of its claim; a helper finishes the claim and the
job completes. The janitor reads the record, `queue/` and `running/`, the worker
resumes and writes `running/` again, and the janitor reads on. -/
def askedWhileReviving : List HostEvent :=
  (claiming 6 ++ .start (.recover "j") 9 :: calls 2 14 ++ completing 3 4).map QueueEvent.beside ++
    .start (.workdir "j") 9 :: hostCalls 4 3 ++ hostCalls 1 3 ++ hostCalls 4 4

/-- The verdict on a running job's work directory is terminal. -/
theorem terminal_workdir_live :
    ∃ s : HostSystem, HostRuns anyStep s ∧
      HostSystem.verdict s 4 = some ("j", .terminal) ∧ Live s.store .running "j" := by
  obtain ⟨s, hs, hend⟩ : ∃ s : HostSystem, HostRuns anyStep s ∧
      (decide (HostSystem.verdict s 4 = some ("j", .terminal)) &&
        standing s.store .running "j") = true :=
    System.exists_exec askedWhileReviving (by decide +kernel)
  rw [Bool.and_eq_true] at hend
  exact ⟨s, hs, of_decide_eq_true hend.1, live_iff.mpr hend.2⟩

end Stado
