import Stado.Schedules.Contracts

/-!
# The schedules are sound

Submissions, attempts, sweeps and manual fires keep the protocol, so every run
of the schedules reaches a history of it.
-/

namespace Stado.Schedules

open CasStore Program

variable {lib : Libraries} {cond : Condition} {i : Nat} {l : ScheduleStore}

/-! ## The submission -/

variable {runId scheduleId owner : String} {fuel now : Nat} {sched : Schedule}
  {request : OccurrenceRequest}

theorem meets_readRun :
    (readRun runId).Meets (scheduling lib cond) i
      (fun found l' => ∀ manifest v, found = some (manifest, v) →
        PlannedAt l' v runId manifest) l := by
  refine meets_bind (meets_read fun l1 _ _ _ => ?_)
  cases hget : l1.get (.run runId) with
  | none =>
    refine meets_pure fun manifest v h => ?_
    cases h
  | some found =>
    obtain ⟨c, v⟩ := found
    cases c with
    | schedule sched => trivial
    | run stored =>
      refine meets_pure fun manifest v' h => ?_
      cases h
      obtain ⟨e, he, hp, hc⟩ := Store.get_held hget
      exact ⟨e, he, hp, hc⟩

theorem PlannedAt.mono {l' : ScheduleStore} {v : Nat} {manifest : RunManifest}
    (hl : l.PastOf l') (h : PlannedAt l v runId manifest) : PlannedAt l' v runId manifest := by
  obtain ⟨e, he, hrest⟩ := h
  exact ⟨e, he.mono hl, hrest⟩

theorem meets_planRun {existing : Option (RunManifest × Nat)}
    (hexisting : ∀ manifest v, existing = some (manifest, v) →
      PlannedAt l v request.runId manifest) :
    (planRun request existing).Meets (scheduling lib cond) i
      (fun manifest l' => manifest.request = request ∧
        ∃ v, PlannedAt l' v request.runId manifest) l := by
  unfold planRun
  split
  · next manifest v =>
    split
    · trivial
    · next hsame =>
      rw [not_not] at hsame
      exact meets_pure ⟨hsame, v, hexisting manifest v rfl⟩
  · refine meets_bind (meets_query fun l1 _ hist1 resolved => ?_)
    cases resolved with
    | error error => trivial
    | ok hardware =>
      refine meets_then hist1 (Q := fun created l' => created = true →
        ∃ v, PlannedAt l' v request.runId ⟨request, hardware, false⟩) (meets_create ?_ ?_ ?_)
        fun created l2 _ hist2 hcreated => ?_
      · exact fun l2 _ _ hnone _ => ⟨rfl, Or.inl hnone⟩
      · exact fun l2 _ _ _ _ => ⟨l2.length, _, Store.held_cons_self _ _, rfl, rfl⟩
      · exact fun _ _ _ _ h => by cases h
      · cases created with
        | true => exact meets_pure ⟨rfl, hcreated rfl⟩
        | false =>
          refine meets_then hist2 meets_readRun fun found l3 _ _ hfound => ?_
          cases found with
          | none => trivial
          | some read =>
            obtain ⟨stored, v⟩ := read
            show Meets _ i (if _ then _ else _) _ l3
            split
            · trivial
            · next hsame =>
              rw [not_or, not_not, not_not] at hsame
              exact meets_pure ⟨hsame.1, v, hfound stored v rfl⟩

theorem keeps_checkpointAccepted {planned : RunManifest} (hist : History (scheduling lib cond) l) :
    Keeps lib cond i (checkpointAccepted planned fuel) l := by
  induction fuel generalizing l with
  | zero => trivial
  | succ fuel ih =>
    refine meets_then hist meets_readRun fun found l1 _ hist1 hfound => ?_
    cases found with
    | none => trivial
    | some read =>
      obtain ⟨stored, version⟩ := read
      obtain ⟨e, he, hp, hc⟩ := hfound stored version rfl
      show Keeps lib cond i (if _ then _ else if _ then _ else _) l1
      split
      · trivial
      · next hsame =>
        rw [not_or, not_not, not_not] at hsame
        split
        · trivial
        · refine meets_then hist1 (Q := fun _ _ => True) (meets_swap ?_ ?_ ?_ ?_)
            fun answer l2 _ hist2 _ => ?_
          · intro l2 old h2 hist2 hget _
            have hold := Store.get_eq_of_held hget (he.mono h2) hc
            subst hold
            obtain ⟨older, -, -, hallowed⟩ := allowed_of_held hist2 (he.mono h2)
            rw [Allowed, hp, hc] at hallowed
            exact ⟨hallowed.1, Or.inr ⟨stored, version, hget, rfl, rfl⟩⟩
          · exact fun _ _ _ _ _ => trivial
          · exact fun _ _ _ _ _ _ _ _ => trivial
          · exact fun _ _ _ _ _ => trivial
          · cases answer with
            | stored v => trivial
            | conflict => exact ih hist2
            | notFound => trivial

theorem meets_submitBatch :
    (submitBatch lib fuel request).Meets (scheduling lib cond) i
      (fun job l' => job.runId = request.runId ∧ Planned lib l' request.runId job) l := by
  refine meets_bind (meets_query fun l1 _ hist1 refused => ?_)
  cases refused with
  | some reason => trivial
  | none =>
    refine meets_then hist1 meets_readRun fun existing l2 _ hist2 hexisting => ?_
    refine meets_bind (meets_query fun l3 h3 hist3 charged => ?_)
    cases charged with
    | some answer => trivial
    | none =>
      refine meets_then hist3 (meets_planRun fun manifest v h =>
        (hexisting manifest v h).mono h3) fun manifest l4 _ hist4 hplan => ?_
      obtain ⟨hrequest, v, hplanned⟩ := hplan
      refine meets_bind (meets_query fun l5 h5 hist5 admitted => ?_)
      cases admitted with
      | some error => trivial
      | none =>
        refine meets_then hist5 (keeps_checkpointAccepted hist5) fun _ l6 h6 _ _ => ?_
        refine meets_pure ⟨?_, v, manifest, hplanned.mono (h5.trans h6), rfl⟩
        simp [RunManifest.job, hrequest]

theorem keeps_settleFailure {key : String} {error : Error} (hist : History (scheduling lib cond) l) :
    Keeps lib cond i (settleFailure fuel scheduleId key owner error) l := by
  unfold settleFailure
  split
  · next rejected =>
    exact keeps_then hist (keeps_abandonPendingOccurrence hist rejected) fun _ _ _ _ => trivial
  · refine keeps_then hist (keeps_attempt hist (keeps_releasePendingOccurrence hist))
      fun result l1 _ _ => ?_
    cases result <;> trivial

theorem keeps_enqueuePendingOccurrence {firedAt : Nat} (hist : History (scheduling lib cond) l) :
    Keeps lib cond i (enqueuePendingOccurrence lib fuel sched owner firedAt) l := by
  unfold enqueuePendingOccurrence
  split
  · trivial
  · refine keeps_then hist (keeps_beginPendingOccurrence hist) fun begun l1 _ hist1 => ?_
    cases begun with
    | none => trivial
    | some begun =>
      simp only []
      split
      · trivial
      · next pending _ =>
        refine meets_then hist1 (Q := fun result l' => ∀ job, result = .ok job →
          Planned lib l' job.runId job) ?_ fun result l2 _ hist2 hresult => ?_
        · refine meets_attempt (meets_submitBatch.weaken fun job l2 hjob => ?_) hist1 ?_
          · rintro _ ⟨rfl⟩
            rw [hjob.1]
            exact hjob.2
          · intro e l2 _ _ job hjob
            cases hjob
        · cases result with
          | error error => exact keeps_settleFailure hist2
          | ok job =>
            refine keeps_then hist2 (keeps_acceptPendingOccurrence hist2 (hresult job rfl))
              fun accepted l3 _ _ => ?_
            cases accepted <;> trivial

/-! ## Firing -/

theorem keeps_tryEnqueue {claimed : Schedule} (hist : History (scheduling lib cond) l) :
    Keeps lib cond i (tryEnqueue lib fuel claimed owner now) l := by
  refine keeps_then hist (keeps_attempt hist (keeps_enqueuePendingOccurrence hist))
    fun result l1 _ _ => ?_
  cases result <;> trivial

theorem keeps_priorInstance : Keeps lib cond i (priorInstance sched) l := by
  unfold priorInstance prevInstanceLive
  split
  · split
    · trivial
    · exact meets_query fun _ _ _ _ => trivial
  · trivial

section

variable (hist : History (scheduling lib cond) l)

include hist

theorem keeps_fireOccurrence {due : Nat}
    (hparse : parseIso lib sched.nextDueAt = some due) (hdue : due ≤ now) :
    Keeps lib cond i (fireOccurrence lib fuel sched scheduleId owner now) l := by
  unfold fireOccurrence
  split
  · trivial
  · next next hnext =>
    obtain ⟨hlt, hreads⟩ := later_of_computeNextDue hnext
    have advances : Advances lib sched.nextDueAt (isoformatUtc lib next) :=
      ⟨due, next, hparse, hreads, by omega⟩
    refine keeps_then hist keeps_priorInstance fun prior l1 _ hist1 => ?_
    cases prior with
    | some _ =>
      exact keeps_then hist1 (keeps_advanceDueWithoutWork hist1 advances) fun _ _ _ _ => trivial
    | none =>
      refine keeps_then hist1 (keeps_reserveDueOccurrence hist1 advances)
        fun claimed l2 _ hist2 => ?_
      cases claimed with
      | none => trivial
      | some claimed => exact keeps_tryEnqueue hist2

theorem keeps_readSchedule : Keeps lib cond i (readSchedule scheduleId) l := by
  refine meets_then hist meets_readVersioned fun found l1 _ _ _ => ?_
  cases found <;> trivial

theorem keeps_fireDueSchedule : Keeps lib cond i (fireDueSchedule lib fuel now scheduleId) l := by
  refine keeps_then hist (keeps_readSchedule hist) fun found l1 _ _ => ?_
  cases found with
  | none => trivial
  | some sched =>
    refine keeps_query fun owner l2 _ hist2 => ?_
    show Keeps lib cond i (if _ then _ else if _ then _ else _) l2
    split
    · refine keeps_then hist2 (keeps_takeoverPendingOccurrence hist2) fun taken l3 _ hist3 => ?_
      cases taken with
      | none => trivial
      | some claimed => exact keeps_tryEnqueue hist3
    · split
      · trivial
      · cases hparse : parseIso lib sched.nextDueAt with
        | none => trivial
        | some due =>
          simp only []
          split
          · trivial
          · next hdue => exact keeps_fireOccurrence hist2 hparse (Nat.not_lt.mp hdue)

theorem keeps_fireDueSchedules : Keeps lib cond i (fireDueSchedules lib fuel now) l := by
  have hlist : Keeps lib cond i listScheduleIds l := meets_bind (meets_list fun _ _ _ => trivial)
  refine keeps_then hist hlist fun scheduleIds l1 _ hist1 => ?_
  refine meets_foldList (I := fun _ l' => History (scheduling lib cond) l') hist1
    (fun scheduleId _ fired l2 h2 hist2 => ?_) fun _ _ _ _ => trivial
  refine Meets.mono (Q := fun _ _ => True)
    (keeps_then hist2 (keeps_fireDueSchedule hist2) fun job l3 _ _ => ?_) hist2
    fun _ l3 h3 hist3 _ => ⟨h2.trans h3, hist3⟩
  cases job <;> trivial

variable {token : String}

theorem keeps_fireToken {rounds : Nat} :
    Keeps lib cond i (fireToken lib fuel scheduleId token runId now rounds) l := by
  induction rounds generalizing l with
  | zero => trivial
  | succ rounds ih =>
    refine keeps_then hist (keeps_readSchedule hist) fun found l1 _ hist1 => ?_
    cases found with
    | none => trivial
    | some sched =>
      show Keeps lib cond i (if _ then _ else _) l1
      split
      · trivial
      · refine keeps_query fun owner l2 _ hist2 => ?_
        cases sched.pendingOccurrence with
        | none =>
          refine keeps_then hist2 (keeps_reserveManualOccurrence hist2)
            fun claimed l3 _ hist3 => ?_
          cases claimed with
          | none => trivial
          | some claimed => exact keeps_enqueuePendingOccurrence hist3
        | some pending =>
          refine keeps_then hist2 (keeps_takeoverPendingOccurrence hist2)
            fun claimed l3 _ hist3 => ?_
          cases claimed with
          | none => trivial
          | some claimed =>
            show Keeps lib cond i (if _ then _ else _) l3
            split
            · exact keeps_then hist3 (keeps_enqueuePendingOccurrence hist3)
                fun _ l4 _ hist4 => ih hist4
            · exact keeps_enqueuePendingOccurrence hist3

theorem keeps_fireScheduleNow :
    Keeps lib cond i (fireScheduleNow lib fuel scheduleId token now) l := by
  refine meets_then hist meets_readRun fun found l1 _ hist1 _ => ?_
  cases found with
  | none => exact keeps_fireToken hist1
  | some read =>
    obtain ⟨manifest, version⟩ := read
    show Keeps lib cond i (if _ then _ else _) l1
    split
    · trivial
    · exact keeps_fireToken hist1

end

/-- What the result of an operation says: a pause or a deletion that was
answered is in the store. -/
def Answered (op : Operation) (i : Nat) (outcome : Outcome) (l : ScheduleStore) : Prop :=
  match op, outcome with
  | .setEnabled scheduleId enabled _, .written (some sched) =>
    sched.enabled = enabled ∧ WroteSchedule l i .setEnabled scheduleId sched
  | .delete scheduleId, .deleted true =>
    ∃ sched : Schedule, sched.deleted = true ∧ WroteSchedule l i .delete scheduleId sched
  | _, _ => True

theorem meets_operation {op : Operation} (hist : History (scheduling lib cond) l) :
    (op.program lib fuel).Meets (scheduling lib cond) i (Answered op i) l := by
  cases op with
  | declare sched => exact meets_then hist keeps_writeSchedule fun _ _ _ _ _ => trivial
  | setEnabled scheduleId enabled next =>
    refine meets_then hist (meets_setScheduleEnabled hist) fun written l1 _ _ hwritten => ?_
    cases written with
    | none => trivial
    | some sched => exact meets_pure (hwritten sched rfl)
  | edit scheduleId change =>
    exact meets_then hist (keeps_editSchedule hist) fun _ _ _ _ _ => trivial
  | delete scheduleId =>
    refine meets_then hist (meets_deleteSchedule hist) fun answer l1 _ _ hanswer => ?_
    cases answer with
    | false => trivial
    | true => exact meets_pure (hanswer rfl)
  | sweep now => exact meets_then hist (keeps_fireDueSchedules hist) fun _ _ _ _ _ => trivial
  | fireNow scheduleId token now =>
    exact meets_then hist (keeps_fireScheduleNow hist) fun _ _ _ _ _ => trivial

/-- Runs of the schedules whose steps all meet `cond`, from an empty store. -/
abbrev Runs (lib : Libraries) (cond : Condition) (s : ScheduleSystem) : Prop :=
  System.Reaches (schedules lib) (System.Respects (scheduling lib cond)) ⟨[], []⟩ s

theorem schedules_sound {s : ScheduleSystem} (h : Runs lib cond s) :
    System.Sound (scheduling lib cond) Answered s :=
  System.Sound.reaches System.Sound.initial
    (fun _ _ _ _ _ _ hist _ => meets_operation hist) (fun _ _ _ hok => hok) h

end Stado.Schedules
