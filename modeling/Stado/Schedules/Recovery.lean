import Stado.Library.Alone
import Stado.Schedules.Sound

/-!
# An occurrence that was handed back is settled

The turn a sweep gives a schedule takes a handed back occurrence over, whatever
process runs it, submits it and settles it, when the queue takes what it is
given and no other client steps.
-/

namespace Stado.Schedules

open CasStore Program

variable {lib : Libraries} {i : Nat} {id : String} {l : ScheduleStore} {runId : String}
  {site : Site} {sched : Schedule}

def queueTakes : {β : Type} → Query β → β → Prop
  | _, .validate _, refused => refused = none
  | _, .charge _, refused => refused = none
  | _, .resolveHardware _, resolved => ∃ hardware, resolved = .ok hardware
  | _, .admitEntry _, refused => refused = none
  | _, _, _ => True

abbrev Recovers {α : Type} (i : Nat) (p : Scheduling α)
    (Q : Except Error α → ScheduleStore → Prop) (l : ScheduleStore) : Prop :=
  p.EndsGiven queueTakes i Q l

/-- The reservation was handed back: no process holds it. -/
def Released (p : ScheduleOccurrenceReservation) : Prop :=
  p.ownerProcess = .none ∧ p.leaseExpiresAt = ""

/-- The schedule's record is `sched`. -/
def Standing (l : ScheduleStore) (id : String) (sched : Schedule) : Prop :=
  ∃ v, l.get (.schedule id) = some (.schedule sched, v)

def Settled (l : ScheduleStore) (id : String) : Prop :=
  ∃ sched, Standing l id sched ∧ sched.pendingOccurrence = none

def RunStored (l : ScheduleStore) (runId : String) : Prop :=
  ∀ c v, l.get (.run runId) = some (c, v) → ∃ manifest, c = .run manifest

theorem standing_cons :
    Standing (⟨.schedule id, some (.schedule sched), site, i⟩ :: l) id sched := by
  refine ⟨l.length, ?_⟩
  rw [Store.get_cons_same rfl]
  rfl

theorem RunStored.cons (h : RunStored l runId) :
    RunStored (⟨.schedule id, some (.schedule sched), site, i⟩ :: l) runId := by
  intro c v hget
  rw [Store.get_cons_other (by rintro ⟨⟩)] at hget
  exact h c v hget

/-! ## Reads and swaps -/

section Parts

variable {α : Type} {site : Site} {sched new : Schedule} {Q : Except Error α → ScheduleStore → Prop}
  {k : Option Schedule → Scheduling α} {v : Nat}

theorem recovers_readVersioned {k : Option (Schedule × Nat) → Scheduling α}
    (hget : l.get (.schedule id) = some (.schedule sched, v))
    (h : Recovers i (k (some (sched, v))) Q l) :
    Recovers i ((readVersioned site id).bind k) Q l := by
  unfold readVersioned
  rw [bind_eq, bind_assoc]
  exact endsGiven_read hget h

theorem recovers_readSchedule (hstands : Standing l id sched)
    (h : Recovers i (k (some sched)) Q l) : Recovers i ((readSchedule id).bind k) Q l := by
  obtain ⟨v, hget⟩ := hstands
  unfold readSchedule
  rw [bind_eq, bind_assoc]
  exact recovers_readVersioned hget h

theorem recovers_swapOnce (hget : l.get (.schedule id) = some (.schedule sched, v))
    (h : Recovers i (k (some new)) Q (⟨.schedule id, some (.schedule new), site, i⟩ :: l)) :
    Recovers i ((swapOnce site id v new).bind k) Q l := by
  unfold swapOnce
  rw [bind_eq, bind_assoc]
  exact endsGiven_swap hget h

theorem recovers_query {β : Type} {q : Query β} {k : β → Scheduling α}
    (h : ∀ b, queueTakes q b → Recovers i (k b) Q l) : Recovers i ((query q).bind k) Q l := h

theorem recovers_readRun {k : Option (RunManifest × Nat) → Scheduling α}
    (hrun : RunStored l runId) (hnone : l.get (.run runId) = none → Recovers i (k none) Q l)
    (hsome : ∀ manifest v, l.get (.run runId) = some (.run manifest, v) →
      Recovers i (k (some (manifest, v))) Q l) : Recovers i ((readRun runId).bind k) Q l := by
  unfold readRun
  rw [bind_eq, bind_assoc]
  cases hget : l.get (.run runId) with
  | none => exact endsGiven_read hget (hnone hget)
  | some found =>
    obtain ⟨c, v⟩ := found
    obtain ⟨manifest, rfl⟩ := hrun c v hget
    exact endsGiven_read hget (hsome manifest v hget)

/-- A loop that decides to write does so at once. -/
theorem recovers_swapLoop {readSite : Site} {absent : α} {k : α → Scheduling β}
    {Q : Except Error β → ScheduleStore → Prop} {decide : Schedule → Except α (Schedule × α)}
    {fuel : Nat} (new : Schedule) (answer : α) (hfuel : 0 < fuel) (hstands : Standing l id sched)
    (hdecide : decide sched = .ok (new, answer))
    (h : Recovers i (k answer) Q (⟨.schedule id, some (.schedule new), site, i⟩ :: l)) :
    Recovers i ((swapLoop readSite site id absent decide fuel).bind k) Q l := by
  obtain ⟨fuel, rfl⟩ := Nat.exists_eq_succ_of_ne_zero (Nat.pos_iff_ne_zero.mp hfuel)
  obtain ⟨v, hget⟩ := hstands
  unfold swapLoop
  rw [bind_eq, bind_assoc]
  refine recovers_readVersioned hget ?_
  simp only [hdecide]
  rw [bind_eq, bind_assoc]
  exact endsGiven_swap hget h

end Parts

/-- The schedules are as they were. -/
def SameSchedules (l l' : ScheduleStore) : Prop :=
  ∀ id, l'.get (.schedule id) = l.get (.schedule id)

theorem sameSchedules_cons {l' : ScheduleStore} {c : Option Contents}
    (h : SameSchedules l l') : SameSchedules l (⟨.run runId, c, site, i⟩ :: l') := by
  intro id
  rw [Store.get_cons_other (by rintro ⟨⟩)]
  exact h id

variable {fuel : Nat} {sched : Schedule} {p : ScheduleOccurrenceReservation} {owner : String}

theorem recovers_checkpointAccepted {planned stored : RunManifest}
    (hfuel : 0 < fuel) (hget : l.get (.run planned.request.runId) = some (.run stored, v))
    (hrequest : stored.request = planned.request) (hhardware : stored.hardware = planned.hardware) :
    Recovers i (checkpointAccepted planned fuel)
      (fun r l' => r = .ok () ∧ SameSchedules l l') l := by
  obtain ⟨fuel, rfl⟩ := Nat.exists_eq_succ_of_ne_zero (Nat.pos_iff_ne_zero.mp hfuel)
  unfold checkpointAccepted
  refine recovers_readRun ?_ ?_ ?_
  · intro c w hc
    rw [hget] at hc
    cases hc
    exact ⟨stored, rfl⟩
  · intro hnone
    rw [hget] at hnone
    cases hnone
  · intro manifest w hmanifest
    rw [hget] at hmanifest
    cases hmanifest
    show Recovers i (if _ then _ else if _ then _ else _) _ l
    rw [if_neg (by simp [hrequest, hhardware])]
    split
    · exact ⟨rfl, fun _ => rfl⟩
    · refine endsGiven_swap hget ?_
      exact ⟨rfl, sameSchedules_cons fun _ => rfl⟩

/-- A submission is accepted, unless its run was planned for another request. -/
theorem recovers_submitBatch {request : OccurrenceRequest} (hfuel : 0 < fuel)
    (hrun : RunStored l request.runId) :
    Recovers i (submitBatch lib fuel request) (fun r l' => SameSchedules l l' ∧
      ((∃ job, r = .ok job ∧ job.runId = request.runId) ∨
        ∃ error, r = .error error ∧ error.rejected = true)) l := by
  unfold submitBatch
  refine recovers_query fun refused hrefused => ?_
  obtain rfl : refused = none := hrefused
  -- What the plan leaves is checkpointed.
  have accepted : ∀ (manifest : RunManifest) (l' : ScheduleStore) (v : Nat),
      manifest.request = request → SameSchedules l l' →
      (∃ stored : RunManifest, l'.get (.run request.runId) = some (.run stored, v) ∧
        stored.request = manifest.request ∧ stored.hardware = manifest.hardware) →
      ∀ {k : Option SubmitError → Scheduling Job},
      k none = ((checkpointAccepted manifest fuel).bind fun _ => .pure (manifest.job lib)) →
      Recovers i ((query (.admitEntry (manifest.job lib))).bind k)
        (fun r l' => SameSchedules l l' ∧ ((∃ job, r = .ok job ∧ job.runId = request.runId) ∨
            ∃ error, r = .error error ∧ error.rejected = true)) l' := by
    rintro manifest l' v hmanifest hsame ⟨stored, hget, hrequest, hhardware⟩ k hk
    refine recovers_query fun refused hrefused => ?_
    obtain rfl : refused = none := hrefused
    rw [hk]
    rw [← hmanifest] at hget
    refine endsGiven_bind ((recovers_checkpointAccepted hfuel hget hrequest hhardware).mono
      fun r l2 hr => ?_)
    obtain ⟨rfl, hsame'⟩ := hr
    refine ⟨fun id => (hsame' id).trans (hsame id), Or.inl ⟨_, rfl, ?_⟩⟩
    simp [RunManifest.job, hmanifest]
  refine recovers_readRun hrun (fun hnone => ?_) fun manifest v hget => ?_
  · refine recovers_query fun refused hrefused => ?_
    obtain rfl : refused = none := hrefused
    show Recovers i ((planRun request none).bind _) _ l
    unfold planRun
    rw [bind_eq, bind_assoc]
    refine recovers_query fun resolved hresolved => ?_
    obtain ⟨hardware, rfl⟩ := hresolved
    refine endsGiven_create hnone ?_
    refine accepted ⟨request, hardware, false⟩ _ l.length rfl (sameSchedules_cons fun _ => rfl)
      ⟨⟨request, hardware, false⟩, ?_, rfl, rfl⟩ rfl
    rw [Store.get_cons_same rfl]
    rfl
  · refine recovers_query fun refused hrefused => ?_
    obtain rfl : refused = none := hrefused
    show Recovers i ((planRun request (some (manifest, v))).bind _) _ l
    unfold planRun
    by_cases hsame : manifest.request = request
    · simp only [hsame, ne_eq, not_true_eq_false, if_false]
      exact accepted manifest l v hsame (fun _ => rfl) ⟨manifest, hget, rfl, rfl⟩ rfl
    · simp only [hsame, ne_eq, not_false_eq_true, if_true]
      exact ⟨fun _ => rfl, Or.inr ⟨_, rfl, rfl⟩⟩

theorem recovers_enqueuePendingOccurrence {firedAt : Nat}
    (hfuel : 0 < fuel) (hstands : Standing l id sched)
    (hnamed : sched.scheduleId = id) (hpending : sched.pendingOccurrence = some p)
    (howner : p.owner = owner) (hstate : p.state = .claimed) (hrun : RunStored l p.runId) :
    Recovers i (enqueuePendingOccurrence lib fuel sched owner firedAt)
      (fun _ l' => Settled l' id) l := by
  obtain ⟨v, hget⟩ := hstands
  subst hnamed howner
  unfold enqueuePendingOccurrence
  simp only [hpending]
  -- It begins the occurrence it holds.
  unfold beginPendingOccurrence
  rw [bind_eq, bind_eq, bind_assoc]
  refine recovers_readVersioned hget ?_
  simp only [hpending, hstate, ne_eq, not_true_eq_false, or_self, if_false]
  refine recovers_swapOnce hget ?_
  simp only []
  -- It submits the occurrence.
  have hrun' : RunStored (⟨.schedule sched.scheduleId, some (.schedule { sched with
      pendingOccurrence := some { p with state := .enqueuing } }), .begin, i⟩ :: l) p.runId :=
    hrun.cons
  refine endsGiven_bind ((EndsGiven.attempt (recovers_submitBatch hfuel hrun')).mono
    fun r l2 hr => ?_)
  obtain ⟨result, rfl, hsame, hresult⟩ := hr
  have hstands2 : Standing l2 sched.scheduleId
      { sched with pendingOccurrence := some { p with state := .enqueuing } } := by
    have hwritten : Standing (⟨.schedule sched.scheduleId, some (.schedule { sched with
        pendingOccurrence := some { p with state := .enqueuing } }), .begin, i⟩ :: l)
        sched.scheduleId
        { sched with pendingOccurrence := some { p with state := .enqueuing } } := standing_cons
    obtain ⟨w, hget'⟩ := hwritten
    exact ⟨w, (hsame sched.scheduleId).trans hget'⟩
  rcases hresult with ⟨job, rfl, hjob⟩ | ⟨error, rfl, hrejected⟩
  · simp only []
    rw [bind_eq]
    refine recovers_swapLoop (settled lib job firedAt
      { sched with pendingOccurrence := some { p with state := .enqueuing } }) true hfuel hstands2
      ?_ ?_
    · simp [hjob, Schedule.request]
    · exact ⟨_, standing_cons, rfl⟩
  · simp only [settleFailure, hrejected, if_true]
    rw [bind_eq]
    refine recovers_swapLoop { sched with pendingOccurrence := none } () hfuel hstands2 ?_ ?_
    · simp [heldBy, Option.filter]
    · exact ⟨_, standing_cons, rfl⟩

theorem recovers_tryEnqueue {now : Nat} (hfuel : 0 < fuel) (hstands : Standing l id sched)
    (hnamed : sched.scheduleId = id) (hpending : sched.pendingOccurrence = some p)
    (howner : p.owner = owner) (hstate : p.state = .claimed) (hrun : RunStored l p.runId) :
    Recovers i (tryEnqueue lib fuel sched owner now) (fun _ l' => Settled l' id) l := by
  unfold tryEnqueue
  rw [bind_eq]
  refine endsGiven_bind ((EndsGiven.attempt (recovers_enqueuePendingOccurrence hfuel hstands hnamed
    hpending howner hstate hrun)).mono fun r l' hr => ?_)
  obtain ⟨result, rfl, hsettled⟩ := hr
  cases result <;> exact hsettled

/-- **The turn of a sweep** settles an occurrence that was handed back, under
any owner string and in any process. -/
theorem recovers_fireDueSchedule {now : Nat} (hfuel : 0 < fuel) (hstands : Standing l id sched)
    (hnamed : sched.scheduleId = id) (hpending : sched.pendingOccurrence = some p)
    (hreleased : Released p) (hrun : RunStored l p.runId) :
    Recovers i (fireDueSchedule lib fuel now id) (fun _ l' => Settled l' id) l := by
  unfold fireDueSchedule
  refine recovers_readSchedule hstands ?_
  refine recovers_query fun owner _ => ?_
  simp only [hpending, ne_eq, reduceCtorEq, not_false_eq_true, if_true]
  obtain ⟨v, hget⟩ := hstands
  unfold takeoverPendingOccurrence
  rw [bind_eq, bind_eq, bind_assoc]
  refine recovers_readVersioned hget ?_
  simp only [hpending]
  -- Nothing holds the occurrence.
  have hlive : occurrenceLeaseLive lib p = .pure false := by
    unfold occurrenceLeaseLive
    rw [hreleased.1, hreleased.2, lib.parse_empty]
    rfl
  rw [hlive]
  simp only [pure_bind, Bool.false_eq_true, false_and, if_false, bind_eq]
  rw [bind_assoc]
  refine recovers_query fun process _ => ?_
  refine recovers_swapOnce hget ?_
  exact recovers_tryEnqueue hfuel standing_cons hnamed rfl rfl rfl hrun.cons

end Stado.Schedules
