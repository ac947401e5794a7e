import Stado.Protocol.Moves

/-!
# The lifecycle operations keep the protocol

The contracts of admission, claiming and leasing, the rewrites of a queued
document, the deletes and the sweeps. A program whose answer nobody uses keeps
the protocol (`Keeps`); where a claim needs to know what an answer means, its
contract says so.
-/

namespace Stado

open CasStore Program List

variable {cond : Condition} {i : Nat} {l l0 : ObjectStore} {t : TransitionId}

/-- Every write of the program is allowed, whatever it answers. -/
abbrev Keeps (cond : Condition) (i : Nat) {α : Type} (p : Storage α) (l : ObjectStore) : Prop :=
  Meets (lifecycle cond) i p (fun _ _ => True) l

variable {α β γ : Type} {site : Site} {fuel : Nat} {jobId : String} {job : Job}
  {update : QueuedUpdate} {p : Prefix} {p q : Prefix} {indexed : List Path} {basis : MarkerBasis}
  {promise : Nat} {planned : Job}

theorem keeps_of_meets {p : Storage α} {Q : α → ObjectStore → Prop}
    (h : Meets (lifecycle cond) i p Q l) : Keeps cond i p l :=
  h.weaken fun _ _ _ => trivial

/-- A program run for its effect, then another. -/
theorem keeps_then {p : Storage α} {q : α → Storage β}
    (hist : History (lifecycle cond) l) (hp : Keeps cond i p l)
    (hq : ∀ a l', l.PastOf l' → History (lifecycle cond) l' → Keeps cond i (q a) l') :
    Keeps cond i (p.bind q) l :=
  meets_bind (Meets.mono hp hist fun a l' hl hist' _ => hq a l' hl hist')

theorem keeps_ite {c : Prop} [Decidable c] {p q : Storage α} (hp : c → Keeps cond i p l)
    (hq : ¬ c → Keeps cond i q l) : Keeps cond i (if c then p else q) l := by
  split
  · next h => exact hp h
  · next h => exact hq h

theorem keeps_pure (a : α) : Keeps cond i (Pure.pure a : Storage α) l := trivial

theorem keeps_read {p : Path} {q : Option (Contents × Nat) → Storage β}
    (hq : ∀ l', l.PastOf l' → History (lifecycle cond) l' → Keeps cond i (q (l'.get p)) l') :
    Keeps cond i ((perform site (.read p)).bind q) l :=
  meets_bind (meets_read fun l' hl hist _ => hq l' hl hist)

theorem keeps_exist {p : Path} {q : Bool → Storage β}
    (hq : ∀ b l', l.PastOf l' → History (lifecycle cond) l' → Keeps cond i (q b) l') :
    Keeps cond i ((perform site (.exist p)).bind q) l :=
  meets_bind (meets_exist fun l' hl hist _ => hq _ l' hl hist)

theorem keeps_touch {p : Path} {q : Unit → Storage β}
    (hq : ∀ l', l.PastOf l' → History (lifecycle cond) l' → Keeps cond i (q ()) l') :
    Keeps cond i ((perform site (.touch p)).bind q) l :=
  meets_bind (meets_touch fun l' hl hist => hq l' hl hist)

theorem keeps_query {question : Query γ} {q : γ → Storage β}
    (hq : ∀ a l', l.PastOf l' → History (lifecycle cond) l' → Keeps cond i (q a) l') :
    Keeps cond i ((query question).bind q) l :=
  meets_bind (meets_query fun l' hl hist a => hq a l' hl hist)

theorem keeps_recoverJobTransition {own : Option TransitionId} (hist : History (lifecycle cond) l) :
    Keeps cond i (recoverJobTransition fuel jobId own) l :=
  keeps_of_meets (meets_recoverJobTransition hist)

theorem keeps_readVersioned : Keeps cond i (readVersioned site p jobId) l :=
  keeps_of_meets meets_readVersioned

/-- A move out of a prefix into another keeps the protocol. -/
theorem keeps_transitionJobIfVersion {unsettled : Option Nat} {requested : Job}
    {expected : Option Nat} (hist : History (lifecycle cond) l) (distinct : p ≠ q) :
    Keeps cond i (transitionJobIfVersion fuel unsettled requested p q expected) l :=
  keeps_of_meets (meets_transitionJobIfVersion (fun _ _ => True) hist distinct
    (Nat.zero_le _) (fun _ _ _ _ _ _ => trivial) (fun _ _ _ _ _ _ _ _ => trivial)
    fun _ _ => trivial)

theorem keeps_moveJob (hist : History (lifecycle cond) l) (distinct : p ≠ q) :
    Keeps cond i (moveJob fuel job p q) l := by
  refine keeps_then hist (keeps_transitionJobIfVersion hist distinct) fun b l1 _ _ => ?_
  cases b <;> trivial

theorem keeps_createQueuedJobIfAbsent (hist : History (lifecycle cond) l)
    (queued : job.state = .queued) : Keeps cond i (createQueuedJobIfAbsent fuel job) l := by
  refine keeps_then hist (keeps_recoverJobTransition hist) fun _ l1 _ hist1 => ?_
  refine keeps_then hist1 (meets_standsUnder hist1) fun lifecycleExists l2 _ _ => ?_
  refine keeps_exist fun recorded l3 _ hist3 => ?_
  cases recorded with
  | true => trivial
  | false =>
    refine keeps_ite (fun _ => keeps_pure _) fun _ => ?_
    refine keeps_then hist3 meets_writePriorityMarker fun _ l4 _ hist4 => ?_
    refine keeps_then hist4 (meets_create ?_ ?_ ?_) fun created l5 _ hist5 => ?_
    · intro l5 _ _ hnone _
      exact .document (.admits job queued hnone)
    · exact fun _ _ _ _ => trivial
    · exact fun _ _ _ _ => trivial
    · cases created with
      | true => exact keeps_touch fun _ _ _ => keeps_pure _
      | false =>
        refine keeps_exist fun stands l6 _ hist6 => ?_
        cases stands with
        | true => trivial
        | false =>
          exact keeps_then hist6
            (meets_deleteMarker (markerJob_markerPath job) fun _ _ => trivial)
            fun _ _ _ _ => keeps_pure _

theorem keeps_endedState : Keeps cond i (endedState jobId) l := by
  refine keeps_read fun l1 _ _ => ?_
  split
  · trivial
  · exact keeps_ite (fun _ => keeps_pure _) fun _ => keeps_pure _
  · trivial

theorem keeps_endedByTransition (hist : History (lifecycle cond) l) :
    Keeps cond i (endedByTransition planned) l := by
  refine keeps_then hist keeps_endedState fun ended l1 _ _ => ?_
  cases ended <;> trivial

theorem keeps_repairQueuedAdmissionMetadata (hist : History (lifecycle cond) l) :
    Keeps cond i (repairQueuedAdmissionMetadata planned) l := by
  refine keeps_then hist keeps_readVersioned fun found l1 _ hist1 => ?_
  cases found with
  | none => trivial
  | some found =>
    refine keeps_ite (fun _ => keeps_pure _) fun _ => keeps_ite (fun _ => trivial) fun _ => ?_
    refine keeps_touch fun l2 _ hist2 => ?_
    refine keeps_then hist2 meets_writePriorityMarker fun _ l3 _ _ => ?_
    refine keeps_exist fun stands l4 _ _ => ?_
    cases stands with
    | true => trivial
    | false => exact meets_deleteMarker (markerJob_markerPath _) fun _ _ => trivial

/-! ## Claiming and leasing -/

theorem keeps_cancelled : Keeps cond i (cancelled site jobId) l := by
  refine keeps_exist fun requested l1 _ _ => ?_
  cases requested with
  | true => trivial
  | false => exact meets_exist fun _ _ _ _ => trivial

theorem keeps_claimQueuedJob
    (hist : History (lifecycle cond) l) : Keeps cond i (claimQueuedJob fuel job promise) l := by
  refine keeps_then hist (keeps_recoverJobTransition hist) fun _ l1 _ hist1 => ?_
  refine keeps_then hist1 keeps_readVersioned fun found l2 _ _ => ?_
  cases found with
  | none => trivial
  | some found =>
    refine keeps_query fun now l3 _ hist3 => ?_
    refine keeps_ite (fun _ => keeps_pure _) fun _ => ?_
    refine keeps_then hist3 keeps_cancelled fun cancelled l4 _ _ => ?_
    cases cancelled with
    | true => trivial
    | false =>
      refine keeps_query fun now l5 _ hist5 => ?_
      refine keeps_then hist5 (keeps_transitionJobIfVersion hist5 (by decide))
        fun moved l6 _ hist6 => ?_
      cases moved with
      | false => trivial
      | true =>
        refine keeps_then hist6 keeps_cancelled fun cancelled l7 _ _ => ?_
        cases cancelled <;> trivial

theorem keeps_renewRunningLease (hist : History (lifecycle cond) l) :
    Keeps cond i (renewRunningLease fuel jobId promise) l := by
  induction fuel generalizing l with
  | zero => trivial
  | succ fuel ih =>
    refine meets_bind (meets_readVersioned.mono hist fun found l1 _ _ hread => ?_)
    obtain ⟨-, hget⟩ := hread
    cases found with
    | none => trivial
    | some found =>
      obtain ⟨job, version⟩ := found
      refine keeps_ite (fun _ => keeps_pure _) fun hrunning => ?_
      refine meets_bind (meets_query fun l2 hl2 hist2 now => ?_)
      refine meets_bind (meets_swap ?_ ?_ ?_ ?_)
      · intro l3 old hl3 _ hold _
        obtain ⟨e, he, -, hec⟩ := Store.get_held hget
        obtain rfl := Store.get_eq_of_held hold (he.mono (hl2.trans hl3)) hec
        exact .document (.renews jobId job version _ hold (not_not.mp hrunning))
      · exact fun _ _ _ _ _ => trivial
      · exact fun _ _ _ _ hist3 _ _ _ => ih hist3
      · exact fun _ _ _ _ _ => trivial

theorem keeps_fenceCancellation : Keeps cond i (fenceCancellation jobId) l :=
  keeps_query fun _ _ _ hist1 =>
    keeps_then hist1 (meets_auxiliary_create rfl rfl fun _ _ _ _ => trivial)
      fun _ _ _ _ => keeps_pure _

theorem keeps_settleQueuedCancellation (hist : History (lifecycle cond) l) :
    Keeps cond i (settleQueuedCancellation fuel jobId) l := by
  refine keeps_then hist (keeps_recoverJobTransition hist) fun _ l1 _ hist1 => ?_
  refine keeps_then hist1 keeps_readVersioned fun found l2 _ _ => ?_
  cases found with
  | none => trivial
  | some found =>
    refine keeps_ite (fun _ => keeps_pure _) fun _ => keeps_read fun l3 _ hist3 => ?_
    split
    · trivial
    · refine keeps_ite (fun _ => trivial) fun _ => ?_
      split
      · trivial
      · trivial
      · exact keeps_transitionJobIfVersion hist3 (by decide)
    · trivial

theorem keeps_listJobIds : Keeps cond i (listJobIds p) l :=
  meets_bind (meets_list fun _ _ _ => trivial)

/-- A loop over a list keeps the protocol when each of its turns does. -/
theorem keeps_foldList {f : β → γ → Storage β} {b : β} {xs : List γ}
    (hist : History (lifecycle cond) l)
    (hf : ∀ b x l', x ∈ xs → l.PastOf l' → History (lifecycle cond) l' → Keeps cond i (f b x) l') :
    Keeps cond i (foldList f b xs) l := by
  induction xs generalizing b l with
  | nil => trivial
  | cons x xs ih =>
    refine keeps_then hist (hf b x l mem_cons_self (suffix_refl _) hist)
      fun b' l1 hl1 hist1 => ih hist1 fun b'' y l2 hy hl2 => ?_
    exact hf b'' y l2 (mem_cons_of_mem _ hy) (hl1.trans hl2)

theorem keeps_each {f : γ → Storage Unit} {xs : List γ} (hist : History (lifecycle cond) l)
    (hf : ∀ x l', x ∈ xs → l.PastOf l' → History (lifecycle cond) l' → Keeps cond i (f x) l') :
    Keeps cond i (each f xs) l :=
  keeps_foldList hist fun _ => hf

theorem keeps_settleQueuedCancellations (hist : History (lifecycle cond) l) :
    Keeps cond i (settleQueuedCancellations fuel) l := by
  refine keeps_then hist keeps_listJobIds fun jobIds l1 _ hist1 => ?_
  refine keeps_foldList hist1 fun settled jobId l2 _ _ hist2 => ?_
  refine keeps_then hist2 (keeps_settleQueuedCancellation hist2) fun b l3 _ _ => ?_
  cases b <;> trivial

/-! ## Rewrites of a queued document -/

/-- What a rewrite left behind: the queued document it wrote, or what shows
that no queued generation was there. -/
def RewriteAnswer (jobId : String) (l : ObjectStore) : Rewritten → Prop
  | .current job version => ∃ e, l.Held version e ∧ e.path = .document .queue jobId ∧
      e.content = some (.job job) ∧ job.jobId = jobId
  | .gone basis => ∀ path, MarkerDropped l path jobId basis

theorem MarkerDropped.mono {path : Path} (hs : l0.PastOf l)
    (h : MarkerDropped l0 path jobId basis) : MarkerDropped l path jobId basis := by
  cases basis with
  | absent => trivial
  | seen v =>
    obtain ⟨e, job, he, hrest⟩ := h
    exact ⟨e, job, he.mono hs, hrest⟩

theorem meets_rewriteLoop (hist : History (lifecycle cond) l) :
    Meets (lifecycle cond) i (rewriteLoop fuel jobId update)
      (fun result l' => RewriteAnswer jobId l' result) l := by
  induction fuel generalizing l with
  | zero => trivial
  | succ fuel ih =>
    refine meets_bind (meets_readVersioned.mono hist fun found l1 hl1 hist1 hread => ?_)
    obtain ⟨-, hget⟩ := hread
    cases found with
    | none => exact fun _ => trivial
    | some found =>
      obtain ⟨job, version⟩ := found
      obtain ⟨e, he, hp, hc⟩ := Store.get_held hget
      show Meets (lifecycle cond) i (if _ then _ else _) _ l1
      split
      · next hstate => exact fun path => ⟨e, job, he, hp, hc, .inl hstate⟩
      · next hqueued =>
        obtain ⟨_, hjob, hid, -⟩ := document_get hist1 hget
        cases hjob
        refine meets_bind (meets_swap ?_ ?_ ?_ ?_)
        · intro l2 old hl2 _ hold _
          obtain rfl := Store.get_eq_of_held hold (he.mono hl2) hc
          exact .document (.rewrites jobId job version _ hold (not_not.mp hqueued)
            (update.submission _))
        · intro l2 old hl2 _ hist2
          refine meets_bind (meets_exist fun l3 hl3 hist3 _ => ?_)
          split
          · exact fun _ => trivial
          · refine meets_bind (meets_touch fun l4 hl4 hist4 => ?_)
            refine meets_bind (meets_exist fun l5 hl5 hist5 _ => ?_)
            split
            · exact fun _ => trivial
            · refine ⟨_, (Store.held_cons_self _ _).mono ((hl3.trans hl4).trans hl5), rfl, rfl, ?_⟩
              show (update.apply job.toJobFields).submission.jobId = jobId
              rw [update.submission]
              exact hid
        · exact fun _ _ _ _ hist2 _ _ _ => ih hist2
        · exact fun _ _ _ _ _ => trivial

theorem meets_rewriteQueuedJob (hist : History (lifecycle cond) l) :
    Meets (lifecycle cond) i (rewriteQueuedJob fuel jobId update)
      (fun result l' => RewriteAnswer jobId l' result) l := by
  unfold rewriteQueuedJob
  refine meets_bind (Meets.mono (keeps_recoverJobTransition hist) hist fun _ _ _ hist1 _ => ?_)
  exact meets_rewriteLoop hist1

/-- Every marker of a job is dropped on the same view of its document. -/
theorem keeps_repairPriorityMarkers {keep : Option Path}
    (dropped : ∀ path, some path ≠ keep → MarkerDropped l path jobId basis) :
    Keeps cond i (repairPriorityMarkers jobId keep basis) l := by
  refine meets_bind (meets_list fun l1 hl1 hist1 => ?_)
  refine keeps_each hist1 fun path l2 hmem hl2 _ => ?_
  obtain ⟨hnamed, hkeep⟩ := of_decide_eq_true (mem_filter.mp hmem).2
  exact meets_deleteMarker hnamed fun l3 hl3 =>
    (dropped path hkeep).mono ((hl1.trans hl2).trans hl3)

theorem keeps_updateQueuedPriority {newPriority : Int} (hist : History (lifecycle cond) l) :
    Keeps cond i (updateQueuedPriority fuel jobId newPriority) l := by
  refine keeps_ite (fun _ => trivial) fun _ => ?_
  refine meets_bind ((meets_rewriteQueuedJob hist).mono hist fun result l1 _ hist1 h => ?_)
  cases result with
  | current job version =>
    obtain ⟨e, he, hp, hc, -⟩ := h
    refine keeps_then hist1 meets_writePriorityMarker fun _ l2 hl2 hist2 => ?_
    refine keeps_then hist2 (keeps_repairPriorityMarkers fun path hkeep => ?_)
      fun _ l3 _ hist3 => ?_
    · exact ⟨e, job, he.mono hl2, hp, hc, .inr fun heq => hkeep (by rw [heq])⟩
    · refine keeps_exist fun stands l4 _ hist4 => ?_
      cases stands with
      | true => trivial
      | false =>
        exact keeps_then hist4
          (meets_deleteMarker (markerJob_markerPath job) fun _ _ => trivial)
          fun _ _ _ _ => keeps_pure _
  | gone basis =>
    exact keeps_then hist1 (keeps_repairPriorityMarkers fun path _ => h path)
      fun _ _ _ _ => keeps_pure _

/-- The updates that rewrite the document and nothing else. -/
theorem keeps_rewritten (hist : History (lifecycle cond) l) :
    Keeps cond i (do Pure.pure (← rewriteQueuedJob fuel jobId update).job?) l :=
  keeps_then hist (keeps_of_meets (meets_rewriteQueuedJob hist)) fun _ _ _ _ => keeps_pure _

theorem keeps_deleteJob (hist : History (lifecycle cond) l) :
    Keeps cond i (deleteJob p jobId) l := by
  have indexed : Meets (lifecycle cond) i (if p = .queue then readJob .read p jobId
      else Pure.pure none) (fun found _ => ∀ job, found = some job → job.jobId = jobId) l := by
    split
    · refine (meets_readJob hist).mono hist fun found l1 _ hist1 h => ?_
      obtain ⟨-, ⟨rfl, -⟩ | ⟨v, job, rfl, hget, -⟩⟩ := h
      · exact fun _ hnone => by cases hnone
      · obtain ⟨_, hjob, hid, -⟩ := document_get hist1 hget
        cases hjob
        rintro _ ⟨⟩
        exact hid
    · exact fun _ hnone => by cases hnone
  refine meets_bind (indexed.mono hist fun found l1 _ hist1 hfound => ?_)
  refine keeps_then hist1 (meets_delete (fun _ _ _ _ _ => .document (.deletes p jobId))
    (fun _ _ _ _ => trivial) fun _ _ _ _ => trivial) fun _ l2 _ hist2 => ?_
  refine keeps_ite (fun _ => ?_) fun _ => keeps_pure _
  cases found with
  | none => exact keeps_repairPriorityMarkers fun _ _ => trivial
  | some job => exact meets_deleteMarker (markerJob_markerPath job) fun _ _ => trivial

theorem keeps_jobIsSettledTerminal : Keeps cond i (jobIsSettledTerminal jobId) l := by
  refine keeps_read fun l1 _ hist1 => ?_
  split
  · trivial
  · trivial
  · exact meets_standsUnder hist1

theorem keeps_sweepDocument {sweep : SettledSentinelSweep}
    (hist : History (lifecycle cond) l) : Keeps cond i (sweepDocument p sweep jobId) l := by
  refine meets_bind (meets_readVersioned.mono hist fun found l1 _ hist1 hread => ?_)
  obtain ⟨-, hget⟩ := hread
  cases found with
  | none => trivial
  | some found =>
    obtain ⟨job, version⟩ := found
    refine keeps_ite (fun _ => keeps_pure _) fun hcleaned => ?_
    refine keeps_then hist1 keeps_jobIsSettledTerminal fun settled l2 hl2 hist2 => ?_
    cases settled with
    | false => trivial
    | true =>
      refine keeps_then hist2 (meets_delete (fun l3 hl3 _ _ _ => ?_) (fun _ _ _ _ => trivial)
        fun _ _ _ _ => trivial) fun _ _ _ _ => keeps_pure _
      refine .document (.sweeps p jobId ?_)
      cases hs : job.state with
      | transitionCleaned t => exact ⟨l1, job, version, t, hl2.trans hl3, hget, hs⟩
      | _ => simp [hs, cleanedTransitionId] at hcleaned

theorem keeps_retireSettledSentinels (hist : History (lifecycle cond) l) :
    Keeps cond i (retireSettledSentinels p) l :=
  keeps_then hist keeps_listJobIds fun _ _ _ hist1 =>
    keeps_foldList hist1 fun _ _ _ _ _ hist2 => keeps_sweepDocument hist2

/-! ## Backfill of the index -/

/-- The document a backfill read under its version. -/
def SeenQueued (l : ObjectStore) (body : Job × Nat) : Prop :=
  ∃ e, l.Held body.2 e ∧ e.path = .document .queue body.1.jobId ∧ e.content = some (.job body.1)

theorem keeps_backfillDocument {body : Job × Nat} (hist : History (lifecycle cond) l)
    (seen : SeenQueued l body) : Keeps cond i (backfillDocument indexed body) l := by
  refine keeps_ite (fun _ => keeps_pure _) fun _ => ?_
  refine keeps_then hist (keeps_ite (fun _ => keeps_pure _) fun _ => meets_writePriorityMarker)
    fun _ l1 hl1 hist1 => ?_
  refine keeps_each hist1 fun path l2 hmem hl2 _ => ?_
  obtain ⟨hother, hnamed⟩ := of_decide_eq_true (mem_filter.mp hmem).2
  obtain ⟨e, he, hp, hc⟩ := seen
  exact meets_deleteMarker hnamed fun l3 hl3 =>
    ⟨e, body.1, he.mono ((hl1.trans hl2).trans hl3), hp, hc, .inr (Ne.symm hother)⟩

theorem keeps_pruneStaleMarkers {queuedIds : List String}
    (hist : History (lifecycle cond) l) (markers : ∀ path ∈ indexed, isMarker path = true) :
    Keeps cond i (pruneStaleMarkers indexed queuedIds) l := by
  refine keeps_then hist (keeps_each hist fun path l1 hmem _ _ => ?_) fun _ _ _ _ => keeps_pure _
  have hmarker := markers path (mem_filter.mp hmem).1
  cases path with
  | marker priority createdAt jobId =>
    exact meets_deleteMarker
      (show markerJob (.marker priority createdAt jobId) = some jobId from rfl) fun _ _ => trivial
  | _ => cases hmarker

theorem meets_queuedBodies {jobIds : List String} {bodies : List (Job × Nat)}
    (hist : History (lifecycle cond) l) (seen : ∀ body ∈ bodies, SeenQueued l body) :
    Meets (lifecycle cond) i (foldList (fun bodies jobId => do
      match ← readVersioned .read .queue jobId with
      | none => Pure.pure bodies
      | some body => Pure.pure (bodies ++ [body])) bodies jobIds)
      (fun bodies l' => ∀ body ∈ bodies, SeenQueued l' body) l := by
  induction jobIds generalizing bodies l with
  | nil => exact seen
  | cons jobId jobIds ih =>
    refine meets_bind (meets_bind (meets_readVersioned.mono hist fun found l1 hl1 hist1 hread => ?_))
    obtain ⟨-, hget⟩ := hread
    have seen1 : ∀ body ∈ bodies, SeenQueued l1 body := fun body hmem => by
      obtain ⟨e, he, hrest⟩ := seen body hmem
      exact ⟨e, he.mono hl1, hrest⟩
    cases found with
    | none => exact ih hist1 seen1
    | some body =>
      refine ih hist1 fun body' hmem => ?_
      rcases mem_append.mp hmem with hmem | hmem
      · exact seen1 body' hmem
      · obtain rfl := mem_singleton.mp hmem
        obtain ⟨_, hjob, hid, -⟩ := document_get hist1 hget
        cases hjob
        obtain ⟨e, he, hp, hc⟩ := Store.get_held hget
        exact ⟨e, he, by rw [hp, hid], hc⟩

theorem keeps_backfillPriorityMarkers : Keeps cond i backfillPriorityMarkers l := by
  refine meets_bind (meets_list fun l1 _ hist1 => ?_)
  have markers : ∀ path ∈ (Call.list isMarker : Call Path Contents _).answer l1,
      isMarker path = true := fun path hmem => by
    have := (mem_filter.mp hmem).2
    exact (Bool.and_eq_true _ _ ▸ this).1
  refine keeps_then hist1 keeps_listJobIds fun jobIds l2 _ hist2 => ?_
  refine meets_bind ((meets_queuedBodies hist2 fun _ hmem => absurd hmem not_mem_nil).mono
    hist2 fun bodies l3 _ hist3 seen => ?_)
  refine keeps_then hist3 (keeps_each hist3 fun body l4 hmem hl4 hist4 => ?_)
    fun _ l5 _ hist5 => ?_
  · obtain ⟨e, he, hrest⟩ := seen body hmem
    exact keeps_backfillDocument hist4 ⟨e, he.mono hl4, hrest⟩
  · refine keeps_then hist5 (keeps_pruneStaleMarkers hist5 markers) fun _ l6 _ hist6 => ?_
    exact keeps_then hist6 (meets_auxiliary_put rfl rfl fun _ _ _ => trivial)
      fun _ _ _ _ => keeps_pure _

end Stado
