import Stado.Rollout.Conduct

/-!
# Serving follows the rules

One lemma for each routine of `Stado.Rollout.Serving`: the agent may take each
of its steps, and what holds when it ends.
-/

namespace Stado.Rollout

open Solo Routine HostReleaseState Onward Act

/-- The agent may take each step of `p`; a result meets `Q`, an error leaves a
world that meets `E`. -/
abbrev Acts (T : Target) {Error α : Type} (p : Routine Act Error α) (Q : α → World → Prop)
    (E : World → Prop) (w : World) : Prop :=
  Does setting (rules T) p Q E w

abbrev Lives (T : Target) (w : World) : Prop := Lived setting (rules T) .any w

variable {L : Libraries} {T : Target} {w w' : World} {Error α β : Type}
  {E E' : World → Prop} {state : HostReleaseState} {r : ProcessRecord} {a : Act β}

/-- A step that may be taken in any world and commits nothing. -/
def Act.Asks {β : Type} : Act β → Prop
  | .saveState _ _ | .writeProxyTarget _ _ | .spawnRelease _ _ _ | .terminate _ _
  | .releaseAlive _ | .probe _ | .sweep _ => False
  | _ => True

theorem Act.Asks.quiet (h : a.Asks) : a.Quiet := by
  cases a <;> first | exact h.elim | trivial

theorem Act.Asks.allowed (h : a.Asks) : Allowed T w a := by
  cases a <;> first | exact h.elim | trivial

/-! ## Rules for single steps -/

namespace Acts

variable {Q : α → World → Prop} {f : β → Routine Act Error α} {port : Port}
  {p : Routine Act Error β} {site : SaveSite}

theorem mono {p : Routine Act Error α} {Q' : α → World → Prop} (h : Acts T p Q E w)
    (hw : Lives T w) (hQ : ∀ a w', Lives T w' → Q a w' → Q' a w')
    (hE : ∀ w', Lives T w' → E w' → E' w') : Acts T p Q' E' w :=
  Does.mono h hw hQ hE

theorem bind {R : β → World → Prop} {F : World → Prop}
    (h : Acts T p R F w) (hw : Lives T w) (hf : ∀ b w', Lives T w' → R b w' → Acts T (f b) Q E w')
    (hE : ∀ w', Lives T w' → F w' → E w') : Acts T (p.bind f) Q E w :=
  Does.bind h hw hf hE

/-- A quiet step: whatever it answers, what the agent committed stays. -/
theorem act {k : β → Routine Act Error α} (hq : a.Quiet)
    (ha : ∀ w', Onward T w w' → Lives T w' → Allowed T w' a)
    (hk : ∀ b w', Onward T w w' → Lives T w' → Acts T (k b) Q E w') : Acts T (.act a k) Q E w := by
  intro w₁ hm hw₁
  have hon := of_moved (T := T) hm
  refine ⟨ha w₁ hon hw₁, fun c b w₂ hstep hw₂ => ?_⟩
  exact hk b w₂ (hon.trans (of_perform hq hstep)) hw₂

theorem take (hq : a.Quiet) (ha : ∀ w', Onward T w w' → Lives T w' → Allowed T w' a)
    (hk : ∀ b w', Onward T w w' → Lives T w' → Acts T (f b) Q E w') :
    Acts T ((take a).bind f) Q E w :=
  act hq ha hk

theorem tries {a : Act (Except Error β)} (hq : a.Quiet)
    (ha : ∀ w', Onward T w w' → Lives T w' → Allowed T w' a) (hE : ∀ w', Onward T w w' → E w')
    (hk : ∀ b w', Onward T w w' → Lives T w' → Acts T (f b) Q E w') :
    Acts T ((tries a).bind f) Q E w := by
  refine act hq ha fun b w₁ hon hw₁ => ?_
  cases b with
  | ok b => exact hk b w₁ hon hw₁
  | error e => exact hE w₁ hon

/-- A release is read alive: then it is among those found. -/
theorem alive {f : Bool → Routine Act Error α} (hr : Launched T w r)
    (hyes : ∀ w', Onward T w w' → Lives T w' → r ∈ w'.found → Acts T (f true) Q E w')
    (hno : ∀ w', Onward T w w' → Lives T w' → Acts T (f false) Q E w') :
    Acts T ((Routine.take (.releaseAlive r)).bind f) Q E w := by
  intro w₁ hm hw₁
  have hon := of_moved (T := T) hm
  refine ⟨hon.launched r hr, fun c b w₂ hstep hw₂ => ?_⟩
  have hon₂ := hon.trans (of_perform (a := .releaseAlive r) trivial hstep)
  cases b with
  | true =>
    refine hyes w₂ hon₂ hw₂ ?_
    simp only [setting, World.perform] at hstep
    split at hstep
    · split at hstep
      · cases hstep
        exact List.mem_cons_self
      · cases hstep
    · cases hstep
  | false => exact hno w₂ hon₂ hw₂

/-- A commit: once it answers, the document is the committed one. -/
theorem save {n : HostReleaseState} {Q : HostReleaseState → World → Prop}
    (hslots : ∀ r ∈ n.slots, Launched T w r) (hsaves : Saves w n site)
    (hok : ∀ w', w'.doc = some n → w'.target = w.target → (∀ r ∈ w.found, r ∈ w'.found) →
      StillLaunched T w w' → Q n w')
    (herr : ∀ w', StillLaunched T w w' → (w'.doc = w.doc ∨ w'.doc = some n) → E w') :
    Acts T (Stado.Rollout.save site n) Q E w := by
  intro w₁ hm hw₁
  have hon := of_moved (T := T) hm
  refine ⟨⟨fun r hr => hon.launched r (hslots r hr), hsaves.onward hon⟩, fun c b w₂ hstep _ => ?_⟩
  rcases World.writes_eq hstep with ⟨rfl, rfl⟩ | ⟨⟨why, rfl⟩, rfl | rfl⟩
  · exact hok _ rfl hon.target hon.found fun r hr => (hon.launched r hr).of_table rfl
  · exact herr _ hon.launched (.inl hon.doc)
  · exact herr _ (fun r hr => (hon.launched r hr).of_table rfl) (.inr rfl)

theorem retarget {generation : Nat} {f : Unit → Routine Act String α}
    (hserves : w.document.Serves r) (hport : r.port = port) (hE : ∀ w', Steady T w w' → E w')
    (hk : ∀ w', Steady T w w' → w'.target.map (·.upstream) = some port → Lives T w' →
      Acts T (f ()) Q E w') :
    Acts T ((Routine.tries (.writeProxyTarget generation port)).bind f) Q E w := by
  intro w₁ hm hw₁
  have hon := of_moved (T := T) hm
  refine ⟨⟨r, by rw [hon.document]; exact hserves, hport⟩, fun c b w₂ hstep hw₂ => ?_⟩
  have hwritten : Steady T w { w₁ with target := some ⟨generation, port⟩ } :=
    ⟨hon.doc, hon.found, fun r hr => (hon.launched r hr).of_table rfl⟩
  rcases World.writes_eq hstep with ⟨rfl, rfl⟩ | ⟨⟨why, rfl⟩, rfl | rfl⟩
  · exact hk _ hwritten rfl hw₂
  · exact hE _ hon.steady
  · exact hE _ hwritten

/-- Steps that only ask leave what the agent committed. -/
theorem asks {p : Routine Act Error α} (hp : p.Only Asks) :
    Acts T p (fun _ w' => Onward T w w') (Onward T w) w := by
  suffices hall : ∀ w', Onward T w w' → Acts T p (fun _ w' => Onward T w w') (Onward T w) w' from
    hall w (refl w)
  induction p with
  | pure a => exact fun w' hon => hon
  | fail e => exact fun w' hon => hon
  | act a k ih =>
    intro w' hon
    exact act hp.1.quiet (fun _ _ _ => hp.1.allowed) fun b w₁ hon₁ _ =>
      ih b (hp.2 b) w₁ (hon.trans hon₁)

/-- Steps that only ask, and what follows them. -/
theorem asking (hp : p.Only Asks) (hw : Lives T w) (hE : ∀ w', Onward T w w' → E w')
    (hk : ∀ b w', Onward T w w' → Lives T w' → Acts T (f b) Q E w') : Acts T (p.bind f) Q E w :=
  bind (asks hp) hw (fun b w' hw' hon => hk b w' hon hw') fun w' _ hon => hE w' hon

end Acts

theorem listenerPid_asks {port : Option Port} : (listenerPid port).Only Asks := by
  cases port with
  | none => trivial
  | some port => exact only_tries trivial

theorem notReadyBecause_acts (hr : Launched T w r) :
    Acts T (notReadyBecause T r)
      (fun why w' => Onward T w w' ∧ (why = none → r ∈ w'.found)) E w := by
  unfold notReadyBecause
  refine Acts.alive hr (fun w₁ hon hw₁ hfound => ?_) fun w₁ hon hw₁ => ?_
  · refine Acts.take trivial (fun w₂ hon₂ _ => hon₂.found r hfound) fun b w₂ hon₂ _ => ?_
    cases b <;> exact ⟨hon.trans hon₂, fun _ => hon₂.found r hfound⟩
  · refine Acts.bind (Does.attempt (Acts.asks listenerPid_asks)) hw₁ (fun b w₂ _ hb => ?_)
      fun _ _ h => h
    cases b with
    | error error => exact ⟨hon.trans hb, fun h => by cases h⟩
    | ok holder =>
      simp only
      split <;> exact ⟨hon.trans hb, fun h => by cases h⟩

variable {strategy : RolloutStrategy} {generation : Nat} {w₁ w₂ : World} {f : ProcessRecord}
  {reason : Refusal} {proxyPid : Pid} {leave : Bool}

theorem readiness_acts {elapsed : Nat} (hw : Lives T w) (hr : Launched T w r) :
    Acts T (readiness T r strategy elapsed)
      (fun read w' => Onward T w w' ∧ (read = .ready → r ∈ w'.found)) E w := by
  unfold readiness
  refine Acts.bind (notReadyBecause_acts (E := E) hr) hw (fun why w₁ hw₁ hwhy => ?_)
    fun _ _ h => h
  obtain ⟨hon, hnone⟩ := hwhy
  cases why with
  | none => exact ⟨hon, fun _ => hnone rfl⟩
  | some why =>
    refine Acts.alive (hon.launched r hr) (fun w₂ hon₂ _ _ => ?_) fun w₂ hon₂ _ => ?_
    · simp only [if_true]
      split <;> exact ⟨hon.trans hon₂, fun h => by cases h⟩
    · exact ⟨hon.trans hon₂, fun h => by cases h⟩

/-! ## The stable bind -/

theorem stableBindAnswer_asks : (stableBindAnswer L T proxyPid generation r).Only Asks := by
  unfold stableBindAnswer
  refine (only_take trivial).bind fun alive => ?_
  split
  · refine (only_tries trivial).bind fun manifest => ?_
    split
    · trivial
    · refine (only_tries trivial).bind fun proxy => ?_
      split
      · trivial
      · split
        · trivial
        · refine (only_take trivial).bind fun answer => ?_
          cases answer <;> trivial
  · trivial

theorem recordedProxy_asks : (recordedProxy state).Only Asks := by
  unfold recordedProxy
  split
  · trivial
  · refine Only.bind ?_ fun owned => ?_
    · refine (only_take trivial).bind fun alive => ?_
      split
      · exact (only_tries trivial).bind fun _ => trivial
      · trivial
    · split <;> trivial

/-- The document stays and the proxy forwards to `port`. -/
structure Forwards (T : Target) (port : Port) (w w' : World) : Prop where
  steady : Steady T w w'
  upstream : w'.target.map (·.upstream) = some port

theorem Forwards.onward (h : Forwards T port w w₁) (hon : Onward T w₁ w₂) : Forwards T port w w₂ :=
  ⟨h.steady.trans hon.steady, by rw [hon.target]; exact h.upstream⟩

theorem Forwards.after (hon : Onward T w w₁) (h : Forwards T port w₁ w₂) : Forwards T port w w₂ :=
  ⟨hon.steady.trans h.steady, h.upstream⟩

theorem startOwnedProxy_acts (hr : w.document.Serves r) :
    Acts T (startOwnedProxy generation r.port) (fun _ w' => Forwards T r.port w w')
      (Steady T w) w := by
  unfold startOwnedProxy startProxy
  refine Acts.tries trivial (fun _ _ _ => trivial) (fun _ hon => hon.steady)
    fun _ w₁ hon₁ hw₁ => ?_
  refine Acts.bind (R := fun _ w' => Forwards T r.port w w') (F := Steady T w) ?_ hw₁
    (fun ownerPid w₂ hw₂ h₂ => ?_) fun _ _ h => h
  · refine Acts.retarget (hon₁.document ▸ hr) rfl (fun w' h => hon₁.steady.trans h)
      fun w₂ h₂ hup _ => ?_
    refine Acts.act trivial (fun _ _ _ => trivial) fun b w₃ hon₃ _ => ?_
    have hfor : Forwards T r.port w w₃ := .after hon₁ (Forwards.onward ⟨h₂, hup⟩ hon₃)
    cases b with
    | ok _ => exact hfor
    | error _ => exact hfor.steady
  · refine Acts.bind (Does.attempt (Acts.asks (Routine.only_tries trivial))) hw₂
      (fun owner w₃ _ hon₃ => ?_) fun _ _ h => h
    cases owner with
    | error why => exact (h₂.onward hon₃).steady
    | ok owner =>
      cases owner with
      | none => exact (h₂.onward hon₃).steady
      | some proxyPid =>
        simp only
        split
        · exact (h₂.onward hon₃).steady
        · exact h₂.onward hon₃

theorem routeStableBind_acts (hr : w.document.Serves r) :
    Acts T (routeStableBind generation r state) (fun _ w' => Forwards T r.port w w')
      (Steady T w) w := by
  unfold routeStableBind
  refine Acts.tries trivial (fun _ _ _ => trivial) (fun _ hon => hon.steady)
    fun _ w₁ hon₁ _ => ?_
  refine Acts.retarget (hon₁.document ▸ hr) rfl (fun w' h => hon₁.steady.trans h)
    fun w₂ h₂ hup hw₂ => ?_
  have hfor : Forwards T r.port w w₂ := .after hon₁ ⟨h₂, hup⟩
  refine Acts.bind (Acts.asks recordedProxy_asks) hw₂ (fun recorded w₃ hw₃ hon₃ => ?_)
    fun w₃ _ hon₃ => (hfor.onward hon₃).steady
  have hfor₃ := hfor.onward hon₃
  cases recorded with
  | some proxyPid => exact hfor₃
  | none =>
    refine Acts.tries trivial (fun _ _ _ => trivial)
      (fun _ hon => (hfor₃.onward hon).steady) fun owner w₄ hon₄ hw₄ => ?_
    have hfor₄ := hfor₃.onward hon₄
    cases owner with
    | some proxyPid => exact hfor₄
    | none =>
      have hdoc₄ : w₄.document = w.document := World.document_eq hfor₄.steady.doc
      exact Acts.mono (startOwnedProxy_acts (hdoc₄ ▸ hr)) hw₄
        (fun _ _ _ h => ⟨hfor₄.steady.trans h.steady, h.upstream⟩)
        fun _ _ h => hfor₄.steady.trans h

/-- What a reading and routing of `active` leaves: the document names what it
named, in memory too, and an answering release is a routed one. -/
structure Proved (T : Target) (active : ProcessRecord) (state : HostReleaseState) (w : World)
    (result : HostReleaseState × Routing) (w' : World) : Prop where
  kept : Kept T w w'
  same : Same result.1 state
  routed : result.2 = .ok none → Routed w' active

theorem proveActiveProxy_acts (hw : Lives T w) (hserves : w.document.Serves r) (hr : r ∈ w.found) :
    Acts T (proveActiveProxy L T generation r state) (Proved T r state w) E w := by
  unfold proveActiveProxy
  refine Acts.bind (Does.attempt (routeStableBind_acts hserves)) hw (fun owner w₁ hw₁ h₁ => ?_)
    fun _ _ h => h
  cases owner with
  | error why => exact ⟨h₁.kept, Same.refl _, fun h => by cases h⟩
  | ok proxyPid =>
    refine Acts.bind (Does.attempt (Acts.asks stableBindAnswer_asks)) hw₁
      (fun answer w₂ _ hon₂ => ?_) fun _ _ h => h
    cases answer with
    | error why =>
      exact ⟨(h₁.onward hon₂).steady.kept, ⟨rfl, rfl, rfl, rfl, rfl⟩, fun h => by cases h⟩
    | ok _ =>
      have hfor := h₁.onward hon₂
      refine ⟨hfor.steady.kept, ⟨rfl, rfl, rfl, rfl, rfl⟩, fun _ => ⟨hfor.upstream, ?_⟩⟩
      exact hfor.steady.found r hr

theorem lostFor_acts : Acts T (lostFor state) (fun _ w' => Onward T w w') E w := by
  unfold lostFor
  split
  · exact refl w
  · exact Acts.take trivial (fun _ _ _ => trivial) fun _ _ hon _ => hon

/-- Committing a document that names what the committed one names. -/
theorem Kept.of_saved {n : HostReleaseState} (hsame : Same n w.document)
    (hlaunched : StillLaunched T w w') (hdoc : w'.doc = w.doc ∨ w'.doc = some n) : Kept T w w' := by
  refine ⟨?_, hlaunched⟩
  rcases hdoc with hdoc | hdoc
  · rw [World.document_eq hdoc]
    exact Same.refl _
  · unfold World.document at hsame ⊢
    rw [hdoc]
    exact hsame

/-- Clearing a readiness loss changes nothing a document names. -/
theorem saves_answersAgain {n : HostReleaseState} (h : Same n w.document) :
    Saves w n .answersAgain :=
  ⟨h.active, h.previous, h.candidate, h.quarantined, .inl h.phase⟩

theorem Proved.after {result : HostReleaseState × Routing}
    {state' : HostReleaseState} (hkept : Kept T w w₁) (hsame : Same state' state)
    (h : Proved T r state' w₁ result w₂) : Proved T r state w result w₂ :=
  ⟨hkept.trans h.kept, h.same.trans hsame, h.routed⟩

/-- Reading and routing a launched release: a commit in between is of a
document that names what the committed one names. -/
theorem ensureActiveProxy_acts (hw : Lives T w) (hserves : w.document.Serves r)
    (hsame : state.readinessLostAt.isSome → Same state w.document) :
    Acts T (ensureActiveProxy L T generation r state strategy) (Proved T r state w) E w := by
  unfold ensureActiveProxy
  refine Acts.bind (lostFor_acts (E := E)) hw (fun elapsed w₁ hw₁ hon₁ => ?_) fun _ _ h => h
  have hr : Launched T w r := Lived.serving hw hserves
  refine Acts.bind (readiness_acts (E := E) hw₁ (hon₁.launched r hr)) hw₁
    (fun read w₂ hw₂ hread => ?_) fun _ _ h => h
  have hon₂ := hon₁.trans hread.1
  have hcleared : Same { state with readinessLostAt := none } state := ⟨rfl, rfl, rfl, rfl, rfl⟩
  cases read with
  | ready =>
    have hfound := hread.2 rfl
    simp only
    split
    · next hlost =>
      have hdoc : Same { state with readinessLostAt := none } w₂.document := by
        rw [hon₂.document]
        exact hcleared.trans (hsame hlost)
      refine Acts.bind (R := _) (Does.attempt (Acts.save (E := Kept T w₂)
        (Q := fun _ w' => Kept T w₂ w' ∧ r ∈ w'.found)
        ?_ (saves_answersAgain hdoc) ?_ ?_)) hw₂ (fun saved w₃ hw₃ hsaved => ?_)
        fun _ _ h => h
      · intro q hq
        rw [hdoc.slots] at hq
        exact Lived.recorded hw₂ q hq
      · intro w₃ hdoc₃ _ hfound₃ hlaunched
        exact ⟨.of_saved hdoc hlaunched (.inr hdoc₃), hfound₃ r hfound⟩
      · exact fun w₃ hlaunched hdoc₃ => .of_saved hdoc hlaunched hdoc₃
      · cases saved with
        | error why =>
          exact ⟨hon₂.steady.kept.trans hsaved, hcleared, fun h => by cases h⟩
        | ok _ =>
          have hserves₃ : w₃.document.Serves r := by
            have hsame₃ := hsaved.1.same
            unfold Serves
            rw [hsame₃.active, hsame₃.previous, hon₂.document]
            exact hserves
          exact Acts.mono (proveActiveProxy_acts hw₃ hserves₃ hsaved.2) hw₃
            (fun _ _ _ h => h.after (hon₂.steady.kept.trans hsaved.1) hcleared)
            fun _ _ h => h
    · exact Acts.mono (proveActiveProxy_acts hw₂ (hon₂.document ▸ hserves) hfound) hw₂
        (fun _ _ _ h => h.after hon₂.steady.kept hcleared) fun _ _ h => h
  | pending why =>
    simp only
    split
    · exact ⟨hon₂.steady.kept, Same.refl _, fun h => by cases h⟩
    · refine Acts.take trivial (fun _ _ _ => trivial) fun now w₃ hon₃ _ => ?_
      exact ⟨(hon₂.trans hon₃).steady.kept, ⟨rfl, rfl, rfl, rfl, rfl⟩, fun h => by cases h⟩
  | failed why => exact ⟨hon₂.steady.kept, hcleared, fun h => by cases h⟩

/-! ## Rollback -/

theorem quarantineWithLogs_acts {why : Refusal} :
    Acts T (quarantineWithLogs L r why) (fun _ w' => Onward T w w') E w := by
  unfold quarantineWithLogs
  refine Acts.take trivial (fun _ _ _ => trivial) fun logs w₁ hon₁ _ => ?_
  exact Acts.take trivial (fun _ _ _ => trivial) fun _ _ hon₂ _ => hon₁.trans hon₂

theorem terminateFailed_acts {site : StopSite} {failed : Option ProcessRecord}
    (h : ∀ w' f, Onward T w w' → failed = some f → Stops w' f site) :
    Acts T (terminateFailed site failed) (fun _ w' => Onward T w w') E w := by
  cases failed with
  | none => exact refl w
  | some f => exact Acts.act trivial (fun w₁ hon _ => h w₁ f hon rfl) fun _ _ hon _ => hon

/-- Handing back ends with the previous release active and routed; the failed
one is stopped after the proxy forwards elsewhere. -/
theorem handBack_acts {f p : ProcessRecord} (hw : Lives T w) (hlost : state.readinessLostAt = none)
    (hactive : w.document.active = some f) (hprevious : w.document.previous = some p) :
    Acts T (handBack L T (some f) p state strategy)
      (fun handed w' => Kept T w w' ∧ Routed w' p ∧ handed.active = some p ∧
        handed.previous = none ∧ handed.quarantined = state.quarantined) (fun _ => True) w := by
  unfold handBack
  refine Acts.bind (ensureActiveProxy_acts (E := fun _ => True) hw (.inr hprevious) ?_) hw
    (fun result w₁ hw₁ hproved => ?_) fun _ _ h => h
  · intro h
    rw [hlost] at h
    cases h
  · obtain ⟨routed, answer⟩ := result
    rcases answer with why | _ | why
    · trivial
    · have hrouted := hproved.routed rfl
      refine Acts.bind (terminateFailed_acts (E := fun _ => True) ?_) hw₁
        (fun _ w₂ _ hon₂ => ?_) fun _ _ h => h
      · rintro w₂ _ hon₂ ⟨rfl⟩
        have hsame := hproved.kept.same
        refine ⟨?_, p, ?_, hon₂.routed hrouted⟩
        · rw [hon₂.document, hsame.active]
          exact hactive
        · rw [hon₂.document, hsame.previous]
          exact hprevious
      · exact ⟨hproved.kept.trans hon₂.steady.kept, hon₂.routed hrouted, rfl,
          hproved.same.previous, hproved.same.quarantined⟩
    · trivial

theorem handToLegacy_acts (hw : Lives T w)
    (hactive : w.document.active = some f) (hprevious : w.document.previous = none) :
    Acts T (handToLegacy (some f) state)
      (fun handed w' => Onward T w w' ∧ handed = { state with proxyPid := none })
      (fun _ => True) w := by
  unfold handToLegacy
  refine Acts.bind (R := fun _ w' => Onward T w w') (F := fun _ => True) ?_ hw
    (fun _ w₁ hw₁ hon₁ => ?_) fun _ _ h => h
  · unfold stopProxy
    split
    · exact Acts.mono (Acts.asks (only_tries trivial)) hw (fun _ _ _ h => h)
        fun _ _ _ => trivial
    · exact refl w
  · refine Acts.tries trivial (fun _ _ _ => trivial) (fun _ _ => trivial) fun _ w₂ hon₂ hw₂ => ?_
    refine Acts.bind (terminateFailed_acts (E := fun _ => True) ?_) hw₂
      (fun _ w₃ _ hon₃ => ?_) fun _ _ h => h
    · rintro w₃ _ hon₃ ⟨rfl⟩
      have hdoc := ((hon₁.trans hon₂).trans hon₃).document
      exact ⟨by rw [hdoc]; exact hactive, by rw [hdoc]; exact hprevious⟩
    · exact ⟨(hon₁.trans hon₂).trans hon₃, rfl⟩

/-- What a routine over the state document leaves: the document it ends with is
the committed one, as far as releases and quarantined digests go. -/
def Committed (state : HostReleaseState) (w : World) : Prop := Same w.document state

theorem Committed.of_doc (h : w.doc = some state) : Committed state w := by
  unfold Committed World.document
  rw [h]
  exact Same.refl _

theorem HostReleaseState.failed_eq (h : state.active = some f) : state.failed = some f := by
  unfold failed
  rw [h]
  rfl

theorem quarantineFailed_acts (hw : Lives T w)
    (hactive : state.active = some f) :
    Acts T (quarantineFailed L state reason)
      (fun judged w' => Onward T w w' ∧ ∃ record, judged.2 = { state with
        active := none
        readinessLostAt := none
        quarantined := state.quarantined.insert f.artifactSha256 record }) E w := by
  have htaken : state.takeFailed = { state with active := none, readinessLostAt := none } := by
    unfold takeFailed
    rw [hactive]
    rfl
  unfold quarantineFailed
  rw [failed_eq hactive, htaken]
  exact Acts.bind (quarantineWithLogs_acts (E := E)) hw
    (fun failure _ _ hon => ⟨hon, failure, rfl⟩) fun _ _ h => h

/-- A commit that answered. -/
structure Saved (T : Target) (w : World) (n s : HostReleaseState) (w' : World) : Prop where
  eq : s = n
  doc : w'.doc = some n
  target : w'.target = w.target
  found : ∀ r ∈ w.found, r ∈ w'.found
  launched : StillLaunched T w w'

namespace Saved

variable {n s : HostReleaseState}

theorem committed (h : Saved T w n s w') : Committed s w' := h.eq ▸ Committed.of_doc h.doc

theorem routed (h : Saved T w n s w') (hr : Routed w r) : Routed w' r :=
  ⟨by rw [h.target]; exact hr.upstream, h.found r hr.found⟩

end Saved

/-- A commit and what it is allowed by. -/
theorem save_acts (site : SaveSite) {n : HostReleaseState} (hslots : ∀ r ∈ n.slots, Launched T w r)
    (hsaves : Saves w n site) : Acts T (save site n) (Saved T w n) (fun _ => True) w :=
  Acts.save hslots hsaves (fun _ hdoc htarget hfound hlaunched =>
    ⟨rfl, hdoc, htarget, hfound, hlaunched⟩) fun _ _ _ => trivial

/-- The places that change no release and no quarantined digest. -/
def SaveSite.Plain : SaveSite → Prop
  | .repeatsFailure | .retired | .discarded | .refused | .incompatible | .started | .unready
  | .cutover | .routed | .monitoring | .windowStarted | .committed | .rolledBack => False
  | _ => True

/-- Two documents name the same releases and quarantined digests, and the phase
of the first is no new rollback. -/
structure Follows (n s : HostReleaseState) : Prop where
  active : n.active = s.active
  previous : n.previous = s.previous
  candidate : n.candidate = s.candidate
  quarantined : n.quarantined = s.quarantined
  phase : n.phase = s.phase ∨ n.phase ≠ .rolledBack

theorem saves_plain {n : HostReleaseState} (hsite : site.Plain)
    (hsame : Committed state w) (h : Follows n state) : Saves w n site := by
  have hall : n.active = w.document.active ∧ n.previous = w.document.previous ∧
      n.candidate = w.document.candidate ∧ n.quarantined = w.document.quarantined ∧
      (n.phase = w.document.phase ∨ n.phase ≠ .rolledBack) := by
    rw [hsame.active, hsame.previous, hsame.candidate, hsame.quarantined, hsame.phase]
    exact ⟨h.active, h.previous, h.candidate, h.quarantined, h.phase⟩
  cases site <;> first | exact hsite.elim | exact hall

/-- The releases a document names that follows the committed one were launched. -/
theorem Committed.launched (hw : Lives T w) (h : Committed state w) {n : HostReleaseState}
    (ha : n.active = state.active) (hp : n.previous = state.previous)
    (hc : n.candidate = state.candidate) : ∀ r ∈ n.slots, Launched T w r := by
  intro r hr
  refine Lived.recorded hw r ?_
  rw [mem_slots] at hr ⊢
  rw [h.active, h.previous, h.candidate, ← ha, ← hp, ← hc]
  exact hr

theorem savePlain_acts (site : SaveSite) {n : HostReleaseState} (hsite : site.Plain)
    (hw : Lives T w) (hsame : Committed state w) (h : Follows n state) :
    Acts T (save site n) (Saved T w n) (fun _ => True) w :=
  save_acts site (hsame.launched hw h.active h.previous h.candidate) (saves_plain hsite hsame h)

theorem Onward.committed (hon : Onward T w w') (h : Committed state w) : Committed state w' := by
  unfold Committed
  rw [hon.document]
  exact h

theorem rollback_acts (hw : Lives T w) (hsame : Committed state w) (hactive : state.active = some f) :
    Acts T (rollback L T state reason strategy) (fun n w' => Committed n w') (fun _ => True) w := by
  unfold rollback
  have hdocActive : w.document.active = some f := hsame.active.trans hactive
  refine Acts.bind (quarantineFailed_acts (E := fun _ => True) hw hactive) hw
    (fun judged w₁ hw₁ hjudged => ?_) fun _ _ h => h
  obtain ⟨reason', judged⟩ := judged
  obtain ⟨hon₁, record, heq⟩ := hjudged
  simp only at heq
  subst heq
  rw [failed_eq hactive]
  refine Acts.bind (R := fun handed w' => Kept T w₁ w' ∧ handed.active = state.previous ∧
      handed.previous = none ∧ handed.quarantined = state.quarantined.insert f.artifactSha256 record
      ∧ ∀ p, state.previous = some p → Routed w' p) (F := fun _ => True) ?_ hw₁
    (fun handed w₂ hw₂ hhanded => ?_) fun _ _ h => h
  · unfold handOver
    split
    · next p hp =>
      have hp : state.previous = some p := hp
      refine Acts.mono (handBack_acts hw₁ rfl ?_ ?_) hw₁ ?_ fun _ _ h => h
      · rw [hon₁.document]
        exact hdocActive
      · rw [hon₁.document, hsame.previous]
        exact hp
      · rintro handed w₂ - ⟨hkept, hrouted, ha, hpr, hq⟩
        refine ⟨hkept, ha.trans hp.symm, hpr, hq, fun p' hp' => ?_⟩
        rw [hp] at hp'
        cases hp'
        exact hrouted
    · next hp =>
      have hp : state.previous = none := hp
      refine Acts.mono (handToLegacy_acts hw₁ ?_ ?_) hw₁ ?_ fun _ _ h => h
      · rw [hon₁.document]
        exact hdocActive
      · rw [hon₁.document, hsame.previous]
        exact hp
      · rintro handed w₂ - ⟨hon₂, rfl⟩
        refine ⟨hon₂.steady.kept, hp.symm, hp, rfl, fun p' hp' => ?_⟩
        rw [hp] at hp'
        cases hp'
  · obtain ⟨hkept, ha, hpr, hq, hrouted⟩ := hhanded
    have hdoc : Same w₂.document state := by
      have h := hkept.same
      rw [hon₁.document] at h
      exact h.trans hsame
    refine Acts.save ?_ ⟨?_, hpr, rfl, ?_, f, record, ?_, ?_⟩
      (fun _ hdoc₃ _ _ _ => Committed.of_doc hdoc₃) fun _ _ _ => trivial
    · intro r hr
      simp only [mem_slots, ha, hpr, reduceCtorEq, or_false] at hr
      exact Lived.recorded hw₂ r (by simp [hdoc.previous, hr])
    · rw [hdoc.previous]
      exact ha
    · intro p hp
      rw [hdoc.previous] at hp
      exact hrouted p hp
    · rw [hdoc.active]
      exact hactive
    · rw [hdoc.quarantined]
      exact hq

/-! ## Repairs at the start of a pass -/

theorem stableBindReady_asks : stableBindReady.Only Asks := by
  refine (only_take trivial).bind fun answer => ?_
  cases answer <;> trivial

theorem reclaimBind_asks : (reclaimBind T leave state).Only Asks := by
  unfold reclaimBind
  split
  · refine stableBindReady_asks.bind fun ready => ?_
    split
    · trivial
    · split
      · trivial
      · refine (only_tries trivial).bind fun loaded => ?_
        split <;> trivial
  · trivial

theorem ownedProxyReady_asks {owned : Bool} : (ownedProxyReady owned).Only Asks := by
  unfold ownedProxyReady
  split
  · exact (only_tries trivial).bind fun _ => stableBindReady_asks
  · trivial

/-- What a routine over the state document promises: the document it ends with
is committed and names what `state` names. -/
def StillCommitted (state : HostReleaseState) (s : HostReleaseState) (w : World) : Prop :=
  Committed s w ∧ Same s state

theorem reconcileOwnedProxy_acts (hw : Lives T w) (hsame : Committed state w) :
    Acts T (reconcileOwnedProxy proxyPid state) (StillCommitted state) (fun _ => True) w := by
  unfold reconcileOwnedProxy proxyUpstreamPort
  refine Acts.asking ((only_tries trivial).bind fun _ => trivial) hw (fun _ _ => trivial)
    fun upstream w₁ hon₁ hw₁ => ?_
  refine Acts.tries trivial (fun _ _ _ => trivial) (fun _ _ => trivial)
    fun processes w₂ hon₂ hw₂ => ?_
  refine Acts.asking listenerPid_asks hw₂ (fun _ _ => trivial) fun holder w₃ hon₃ hw₃ => ?_
  refine Acts.asking ownedProxyReady_asks hw₃ (fun _ _ => trivial) fun ready w₄ hon₄ hw₄ => ?_
  have hcommitted := (((hon₁.trans hon₂).trans hon₃).trans hon₄).committed hsame
  split
  · refine Acts.mono (savePlain_acts .adopted trivial hw₄ hcommitted
      ⟨rfl, rfl, rfl, rfl, .inl rfl⟩) hw₄ (fun s w₅ _ hsaved => ?_) fun _ _ h => h
    exact ⟨hsaved.committed, hsaved.eq ▸ ⟨rfl, rfl, rfl, rfl, rfl⟩⟩
  · split
    · refine Acts.tries trivial (fun _ _ _ => trivial) (fun _ _ => trivial)
        fun _ w₅ hon₅ hw₅ => ?_
      refine Acts.tries trivial (fun _ _ _ => trivial) (fun _ _ => trivial)
        fun _ w₆ hon₆ hw₆ => ?_
      refine Acts.mono (savePlain_acts .proxyRetired trivial hw₆
        ((hon₅.trans hon₆).committed hcommitted) ⟨rfl, rfl, rfl, rfl, .inl rfl⟩) hw₆
        (fun s w₇ _ hsaved => ?_) fun _ _ h => h
      exact ⟨hsaved.committed, hsaved.eq ▸ ⟨rfl, rfl, rfl, rfl, rfl⟩⟩
    · exact ⟨hcommitted, Same.refl _⟩

theorem reconcileStableProxy_acts (hsame : Committed state w) :
    Acts T (reconcileStableProxy T leave state) (StillCommitted state) (fun _ => True) w := by
  unfold reconcileStableProxy
  refine Acts.tries trivial (fun _ _ _ => trivial) (fun _ _ => trivial)
    fun owner w₁ hon₁ hw₁ => ?_
  cases owner with
  | none =>
    refine Acts.asking reclaimBind_asks hw₁ (fun _ _ => trivial) fun _ w₂ hon₂ _ => ?_
    exact ⟨(hon₁.trans hon₂).committed hsame, Same.refl _⟩
  | some proxyPid => exact reconcileOwnedProxy_acts hw₁ (hon₁.committed hsame)

theorem sweepLeakedProcesses_acts (hsame : Committed state w) :
    Acts T (sweepLeakedProcesses state) (fun _ w' => Onward T w w') E w := by
  refine Acts.act trivial (fun w₁ hon _ r hr => ?_) fun _ _ hon _ => hon
  unfold knownPids
  rw [(hon.committed hsame).slots] at hr
  exact List.mem_append_left _ (List.mem_map_of_mem hr)

theorem portsNow_asks {own : Option Pid} {ports : List Port} :
    (portsNow own ports).Only Asks := by
  induction ports with
  | nil => trivial
  | cons port rest ih =>
    refine listenerPid_asks.attempt.bind fun answer => ?_
    rcases answer with why | _ | pid
    · trivial
    · exact ih
    · simp only
      split
      · exact ih
      · trivial

theorem bindHeldNow_asks {cause : QuarantineCause} : (bindHeldNow T cause state).Only Asks := by
  unfold bindHeldNow
  split
  · exact portsNow_asks
  · trivial

/-- Retiring takes the digest out of the quarantine; any other verdict keeps
the document. -/
theorem retireHostCausedQuarantine_acts {digest : Digest} :
    Acts T (retireHostCausedQuarantine L T digest state)
      (fun judged w' => Onward T w w' ∧ judged.2 = if judged.1.isRetire then
          { state with quarantined := state.quarantined.remove digest }
        else state) (fun _ => True) w := by
  unfold retireHostCausedQuarantine
  split
  · trivial
  · refine Acts.take trivial (fun _ _ _ => trivial) fun room w₁ hon₁ hw₁ => ?_
    refine Acts.asking bindHeldNow_asks hw₁ (fun _ _ => trivial) fun held w₂ hon₂ hw₂ => ?_
    refine Acts.tries trivial (fun _ _ _ => trivial) (fun _ _ => trivial)
      fun trail w₃ hon₃ hw₃ => ?_
    have hon := (hon₁.trans hon₂).trans hon₃
    simp only
    split
    · next hretire =>
      refine Acts.take trivial (fun _ _ _ => trivial) fun at_ w₄ hon₄ hw₄ => ?_
      refine Acts.tries trivial (fun _ _ _ => trivial) (fun _ _ => trivial)
        fun _ w₅ hon₅ hw₅ => ?_
      exact ⟨(hon.trans hon₄).trans hon₅, by simp only [hretire, if_true]⟩
    · next hretire => exact ⟨hon, by simp only [hretire]; rfl⟩

theorem causeHold_acts : Acts T (causeHold L state) (fun _ w' => Onward T w w') E w := by
  unfold causeHold askRun
  split
  · exact refl w
  · split
    · exact Acts.take trivial (fun _ _ _ => trivial) fun _ _ hon _ => hon
    · refine Acts.take trivial (fun _ _ _ => trivial) fun _ w₁ hon₁ _ => ?_
      exact Acts.take trivial (fun _ _ _ => trivial) fun _ _ hon₂ _ => hon₁.trans hon₂

end Stado.Rollout
