import Stado.Schedules.Claims

/-!
# What an attempt leaves behind

However an attempt ends, its client has no claim left on an occurrence: it
settled what it held or handed it back. So does every operation
(`attempts_operation`).
-/

namespace Stado.Schedules

open CasStore Program Sites Ensures

variable {lib : Libraries} {i : Nat} {id : String} {l : ScheduleStore}

/-- Every end of the program leaves the client without a claim. -/
abbrev EndsFree {α : Type} (lib : Libraries) (i : Nat) (p : Scheduling α) (l : ScheduleStore) :
    Prop :=
  Attempts lib i p (fun _ l' => Free i l') l

/-- The client took the occurrence of the record it was answered. -/
def Took (i : Nat) (id owner : String) (sched : Schedule) (l : ScheduleStore) : Prop :=
  sched.scheduleId = id ∧ ∃ p, sched.pendingOccurrence = some p ∧
    Holds i id (fun q => q = p ∧ q.owner = owner ∧ q.state = .claimed) l

/-- What a part that takes an occurrence ends with. -/
def TookOrFree (i : Nat) (id owner : String) (r : Except Error (Option Schedule))
    (l : ScheduleStore) : Prop :=
  match r with
  | .ok (some sched) => Took i id owner sched l
  | _ => Free i l

variable {α : Type} {scheduleId owner token : String} {fuel now : Nat} {request : OccurrenceRequest}
  {p : ScheduleOccurrenceReservation} {site : Site} {runId : String}

theorem endsFree_then {β : Type} {p : Scheduling α} {f : α → Scheduling β}
    {P : Except Error α → ScheduleStore → Prop}
    (hist : History (scheduling lib beginsClaimed) l) (hp : Attempts lib i p P l)
    (hf : ∀ a l', History (scheduling lib beginsClaimed) l' → P (.ok a) l' →
      EndsFree lib i (f a) l')
    (hfail : ∀ e l', P (.error e) l' → Free i l') : EndsFree lib i (p.bind f) l :=
  ensures_then hist hp hf hfail

theorem endsFree_seq {β : Type} {p : Scheduling α} {f : α → Scheduling β}
    (hist : History (scheduling lib beginsClaimed) l) (hp : EndsFree lib i p l)
    (hf : ∀ a l', History (scheduling lib beginsClaimed) l' → Free i l' →
      EndsFree lib i (f a) l') : EndsFree lib i (p.bind f) l :=
  ensures_then hist hp hf fun _ _ h => h

theorem endsFree_query {q : Query α} (h : Free i l) : EndsFree lib i (query q) l :=
  ensures_query fun _ hl hist' _ => h.idle hl hist'

/-- A client without a claim keeps none through writes that claim nothing. -/
theorem endsFree_sites {p : Scheduling α} (hp : p.Sites fun site => site.claims = false)
    (hist : History (scheduling lib beginsClaimed) l) (h : Free i l) : EndsFree lib i p l := by
  refine ensures_sites hp hist h (fun _ _ hl hist' hfree => hfree.idle hl hist') ?_
  intro _ _ hsite _ hist' hfree
  refine hfree.step hist' fun hclaims => ?_
  rw [hsite] at hclaims
  cases hclaims

/-! ## Taking an occurrence -/

theorem attempts_readFree (hsite : site ≠ .submit)
    (hist : History (scheduling lib beginsClaimed) l) (h : Free i l) :
    Attempts lib i (readVersioned site scheduleId) (fun r l' => match r with
      | .ok found => Free i l' ∧
          l'.get (.schedule scheduleId) = found.map fun read => (.schedule read.1, read.2)
      | .error _ => Free i l') l := by
  have hholds : Holds i scheduleId (fun _ => False) l := h.holds
  refine mono (attempts_readVersioned hsite hholds) hist fun r l' _ hr => ?_
  cases r with
  | ok found => exact ⟨hr.1.free fun _ _ _ _ _ hfalse => hfalse, hr.2⟩
  | error e => exact hr

/-- One swap of a new reservation over a record without one of the client's. -/
theorem attempts_take {version : Nat} {new : Schedule} (hclaims : site.claims = true)
    (hist : History (scheduling lib beginsClaimed) l) (h : Free i l) (hnamed : new.scheduleId = id)
    (hp : new.pendingOccurrence = some p) (howner : p.owner = owner) (hstate : p.state = .claimed) :
    Attempts lib i (swapOnce site id version new) (TookOrFree i id owner) l := by
  have hholds : Holds i id (fun _ => False) l := h.holds
  refine mono (attempts_swapOnce (Q := fun q => q = p ∧ q.owner = owner ∧
    q.state = .claimed) hclaims hist hholds (Or.inr h) hp ⟨rfl, howner, hstate⟩) hist
    fun r l' _ hr => ?_
  cases r with
  | error e => exact hr
  | ok found =>
    cases found with
    | none => exact hr
    | some sched =>
      obtain ⟨rfl, hholds'⟩ := hr
      exact ⟨hnamed, p, hp, hholds'⟩

theorem attempts_reserveDueOccurrence {occurrenceAt next : String}
    (hist : History (scheduling lib beginsClaimed) l) (h : Free i l) :
    Attempts lib i (reserveDueOccurrence lib id occurrenceAt next owner)
      (TookOrFree i id owner) l := by
  refine ensures_then hist (attempts_readFree (by rintro ⟨⟩) hist h) (fun found l1 hist1 hfound => ?_)
    fun _ _ hfree => hfree
  obtain ⟨hfree, hget⟩ := hfound
  cases found with
  | none => exact hfree
  | some read =>
    obtain ⟨sched, version⟩ := read
    have hnamed : sched.scheduleId = id := named_of_get hist1 hget
    show Attempts lib i (if _ then _ else if _ then _ else _) _ l1
    split
    · exact hfree
    · split
      · exact hfree
      · refine ensures_then hist1 (endsFree_query hfree) (fun process l2 hist2 hfree2 => ?_)
          fun _ _ hfree' => hfree'
        exact attempts_take rfl hist2 hfree2 hnamed rfl rfl rfl

theorem attempts_reserveManualOccurrence
    (hist : History (scheduling lib beginsClaimed) l) (h : Free i l) :
    Attempts lib i (reserveManualOccurrence lib id owner token) (TookOrFree i id owner) l := by
  refine ensures_then hist (attempts_readFree (by rintro ⟨⟩) hist h) (fun found l1 hist1 hfound => ?_)
    fun _ _ hfree => hfree
  obtain ⟨hfree, hget⟩ := hfound
  cases found with
  | none => exact hfree
  | some read =>
    obtain ⟨sched, version⟩ := read
    have hnamed : sched.scheduleId = id := named_of_get hist1 hget
    show Attempts lib i (if _ then _ else if _ then _ else _) _ l1
    split
    · exact hfree
    · split
      · exact hfree
      · refine ensures_then hist1 (endsFree_query hfree) (fun process l2 hist2 hfree2 => ?_)
          fun _ _ hfree' => hfree'
        exact attempts_take rfl hist2 hfree2 hnamed rfl rfl rfl

theorem endsFree_occurrenceLeaseLive {pending : ScheduleOccurrenceReservation} (h : Free i l) :
    EndsFree lib i (occurrenceLeaseLive lib pending) l := by
  unfold occurrenceLeaseLive
  split
  · split
    · exact h
    · exact fun l1 hl hist1 _ => h.idle hl hist1
  · exact fun l1 hl hist1 _ => h.idle hl hist1

theorem attempts_takeoverPendingOccurrence
    (hist : History (scheduling lib beginsClaimed) l) (h : Free i l) :
    Attempts lib i (takeoverPendingOccurrence lib id owner) (TookOrFree i id owner) l := by
  refine ensures_then hist (attempts_readFree (by rintro ⟨⟩) hist h) (fun found l1 hist1 hfound => ?_)
    fun _ _ hfree => hfree
  obtain ⟨hfree, hget⟩ := hfound
  cases found with
  | none => exact hfree
  | some read =>
    obtain ⟨sched, version⟩ := read
    have hnamed : sched.scheduleId = id := named_of_get hist1 hget
    cases hpending : sched.pendingOccurrence with
    | none =>
      simp only [hpending]
      exact hfree
    | some pending =>
      simp only [hpending]
      refine ensures_then hist1 (endsFree_occurrenceLeaseLive hfree)
        (fun live l2 hist2 hfree2 => ?_) fun _ _ hfree' => hfree'
      show Attempts lib i (if _ then _ else _) _ l2
      split
      · exact hfree2
      · refine ensures_then hist2 (endsFree_query hfree2) (fun process l3 hist3 hfree3 => ?_)
          fun _ _ hfree' => hfree'
        exact attempts_take rfl hist3 hfree3 hnamed rfl rfl rfl

def Began (i : Nat) (id owner : String) (sched : Schedule) (l : ScheduleStore) : Prop :=
  sched.scheduleId = id ∧ ∃ p, sched.pendingOccurrence = some p ∧
    Holds i id (fun q => q = p ∧ q.owner = owner ∧ q.state = .enqueuing) l

section

variable (hist : History (scheduling lib beginsClaimed) l)

include hist

/-- A client begins what it took: a refusal finds that it holds nothing. -/
theorem attempts_beginPendingOccurrence
    (h : Holds i id (fun q => q = p ∧ q.owner = owner ∧ q.state = .claimed) l) :
    Attempts lib i (beginPendingOccurrence id p.occurrenceKey owner) (fun r l' => match r with
      | .ok (some begun) => Began i id owner begun l'
      | _ => Free i l') l := by
  refine ensures_then hist (attempts_readVersioned (by rintro ⟨⟩) h)
    (fun found l1 hist1 hfound => ?_) fun _ _ hfree => hfree
  obtain ⟨hholds, hget⟩ := hfound
  cases found with
  | none =>
    refine hholds.free fun sched v q hsome _ _ => ?_
    rw [hget] at hsome
    cases hsome
  | some read =>
    obtain ⟨sched, version⟩ := read
    have standing (sched' : Schedule) (v : Nat)
        (hsome : l1.get (.schedule id) = some (.schedule sched', v)) : sched' = sched := by
      rw [hget] at hsome
      cases hsome
      rfl
    have hnamed : sched.scheduleId = id := named_of_get hist1 hget
    cases hpending : sched.pendingOccurrence with
    | none =>
      simp only [hpending]
      refine hholds.free fun sched' v q hsome hq _ => ?_
      rw [standing sched' v hsome, hpending] at hq
      cases hq
    | some pending =>
      simp only [hpending]
      show Attempts lib i (if _ then _ else _) _ l1
      split
      · next hdiffers =>
        refine hholds.free fun sched' v q hsome hq hq' => ?_
        rw [standing sched' v hsome, hpending] at hq
        cases hq
        obtain ⟨rfl, howner, hstate⟩ := hq'
        rcases hdiffers with hkey | hdiffers | hdiffers
        · exact hkey rfl
        · exact hdiffers howner
        · exact hdiffers hstate
      · next hsame =>
        rw [not_or, not_or, not_not, not_not, not_not] at hsame
        refine mono (attempts_swapOnce (p := { pending with state := .enqueuing })
          (Q := fun q => q = { pending with state := .enqueuing } ∧ q.owner = owner ∧
            q.state = .enqueuing) rfl hist1 hholds (Or.inl rfl) rfl
          ⟨rfl, hsame.2.1, rfl⟩) hist1 fun r l' _ hr => ?_
        cases r with
        | error e => exact hr
        | ok found =>
          cases found with
          | none => exact hr
          | some begun =>
            obtain ⟨rfl, hholds'⟩ := hr
            exact ⟨hnamed, _, rfl, hholds'⟩

theorem endsFree_releasePendingOccurrence
    (h : Holds i id (fun q => q = p ∧ q.owner = owner ∧ q.state = .enqueuing) l) :
    EndsFree lib i (releasePendingOccurrence fuel id p.occurrenceKey owner) l := by
  refine attempts_swapLoop (by rintro ⟨⟩) rfl rfl hist h fun old answer q hdecide hq hheld => ?_
  obtain ⟨rfl, howner, -⟩ := hheld
  have hby : heldBy q.occurrenceKey owner old = some q := by simp [heldBy, hq, howner]
  rw [hby] at hdecide
  cases hdecide

theorem endsFree_abandonPendingOccurrence {failure : Error}
    (h : Holds i id (fun q => q = p ∧ q.owner = owner ∧ q.state = .enqueuing) l) :
    EndsFree lib i (abandonPendingOccurrence failure fuel id p.occurrenceKey owner) l := by
  refine attempts_swapLoop (by rintro ⟨⟩) rfl rfl hist h fun old answer q hdecide hq hheld => ?_
  obtain ⟨rfl, howner, -⟩ := hheld
  have hby : heldBy q.occurrenceKey owner old = some q := by simp [heldBy, hq, howner]
  rw [hby] at hdecide
  cases hdecide

variable {firedAt : Nat}

theorem endsFree_acceptPendingOccurrence {job : Job}
    (h : Holds i id (fun q => q = p ∧ q.owner = owner ∧ q.state = .enqueuing) l)
    (hjob : job.runId = p.runId) :
    EndsFree lib i (acceptPendingOccurrence lib fuel id p.occurrenceKey owner job firedAt) l := by
  refine attempts_swapLoop (by rintro ⟨⟩) rfl rfl hist h fun old answer q hdecide hq hheld => ?_
  obtain ⟨rfl, howner, hstate⟩ := hheld
  rw [hq] at hdecide
  simp [howner, hstate, hjob] at hdecide

end

/-! ## One attempt -/

theorem sites_readRun : (readRun runId).Sites (· = .submit) := by
  refine bind (sites_perform rfl) fun found => ?_
  cases found with
  | none => trivial
  | some read =>
    obtain ⟨c, v⟩ := read
    cases c <;> trivial

theorem sites_planRun {existing : Option (RunManifest × Nat)} :
    (planRun request existing).Sites (· = .submit) := by
  unfold planRun
  split
  · split <;> trivial
  · refine bind sites_query fun resolved => ?_
    cases resolved with
    | error error => trivial
    | ok hardware =>
      refine bind (sites_perform rfl) fun created => ?_
      cases created with
      | true => trivial
      | false =>
        refine bind sites_readRun fun found => ?_
        cases found with
        | none => trivial
        | some read =>
          obtain ⟨stored, v⟩ := read
          show Sites _ (if _ then _ else _)
          split <;> trivial

theorem sites_checkpointAccepted {planned : RunManifest} :
    (checkpointAccepted planned fuel).Sites (· = .submit) := by
  induction fuel with
  | zero => trivial
  | succ fuel ih =>
    refine bind sites_readRun fun found => ?_
    cases found with
    | none => trivial
    | some read =>
      obtain ⟨stored, version⟩ := read
      show Sites _ (if _ then _ else if _ then _ else _)
      split
      · trivial
      · split
        · trivial
        · refine bind (sites_perform rfl) fun answer => ?_
          cases answer with
          | stored v => trivial
          | conflict => exact ih
          | notFound => trivial

/-- A submission reads and writes its run only. -/
theorem sites_submitBatch : (submitBatch lib fuel request).Sites (· = .submit) := by
  refine bind sites_query fun refused => ?_
  cases refused with
  | some reason => trivial
  | none =>
    refine bind sites_readRun fun existing => ?_
    refine bind sites_query fun charged => ?_
    cases charged with
    | some answer => trivial
    | none =>
      refine bind sites_planRun fun manifest => ?_
      refine bind sites_query fun admitted => ?_
      cases admitted with
      | some error => trivial
      | none => exact bind sites_checkpointAccepted fun _ => trivial

section

variable (hist : History (scheduling lib beginsClaimed) l)

include hist

/-- A submission leaves the claim as it is, failed or not. -/
theorem attempts_submitBatch {P : ScheduleOccurrenceReservation → Prop} (h : Holds i id P l) :
    Attempts lib i (submitBatch lib fuel request) (fun r l' => Holds i id P l' ∧
      ∀ job, r = .ok job → job.runId = request.runId ∧ Planned lib l' request.runId job) l := by
  refine meets (ensures_sites sites_submitBatch hist h
    (fun _ _ hl hist' hP => hP.idle hl hist') fun _ _ hsite _ hist' hP => ?_) meets_submitBatch
  refine hP.step hist' fun hclaims => ?_
  rw [hsite] at hclaims
  cases hclaims

theorem endsFree_settleFailure {error : Error}
    (h : Holds i id (fun q => q = p ∧ q.owner = owner ∧ q.state = .enqueuing) l) :
    EndsFree lib i (settleFailure fuel id p.occurrenceKey owner error) l := by
  unfold settleFailure
  split
  · exact endsFree_seq hist (endsFree_abandonPendingOccurrence hist h) fun _ _ _ hfree => hfree
  · refine endsFree_then hist (attempt (endsFree_releasePendingOccurrence hist h))
      (fun result l1 _ hresult => ?_) fun _ _ hresult => ?_
    · obtain ⟨_, -, hfree⟩ := hresult
      cases result <;> exact hfree
    · obtain ⟨_, -, hfree⟩ := hresult
      exact hfree

variable {sched : Schedule}

theorem endsFree_enqueuePendingOccurrence (h : Took i id owner sched l) :
    EndsFree lib i (enqueuePendingOccurrence lib fuel sched owner firedAt) l := by
  obtain ⟨rfl, p, hp, hholds⟩ := h
  unfold enqueuePendingOccurrence
  simp only [hp]
  refine endsFree_then hist (attempts_beginPendingOccurrence hist hholds)
    (fun begun l1 hist1 hbegun => ?_) fun _ _ hfree => hfree
  cases begun with
  | none => exact hbegun
  | some begun =>
    obtain ⟨hnamed, q, hq, hholds1⟩ := hbegun
    simp only [hq, hnamed]
    refine endsFree_then hist1 (attempt (attempts_submitBatch hist1 hholds1))
      (fun result l2 hist2 hresult => ?_) fun _ _ hresult => ?_
    · obtain ⟨_, hsame, hholds2, hjob⟩ := hresult
      cases hsame
      cases result with
      | error error => exact endsFree_settleFailure hist2 hholds2
      | ok job =>
        refine endsFree_seq hist2 (endsFree_acceptPendingOccurrence hist2 hholds2
          (hjob job rfl).1) fun accepted l3 _ hfree => ?_
        cases accepted <;> exact hfree
    · obtain ⟨_, hsame, -⟩ := hresult
      cases hsame

end

/-! ## Writes that claim nothing -/

theorem sites_readVersioned (hsite : site.claims = false) :
    (readVersioned site scheduleId).Sites fun site => site.claims = false := by
  refine bind (sites_perform hsite) fun found => ?_
  cases found with
  | none => trivial
  | some read =>
    obtain ⟨c, v⟩ := read
    cases c <;> trivial

theorem sites_swapLoop {readSite site : Site} {absent : α}
    {decide : Schedule → Except α (Schedule × α)} (hread : readSite.claims = false)
    (hsite : site.claims = false) :
    (swapLoop readSite site scheduleId absent decide fuel).Sites
      fun site => site.claims = false := by
  induction fuel with
  | zero => trivial
  | succ fuel ih =>
    refine bind (sites_readVersioned hread) fun found => ?_
    cases found with
    | none => trivial
    | some read =>
      obtain ⟨sched, version⟩ := read
      cases hdecide : decide sched with
      | error answer =>
        simp only [hdecide]
        trivial
      | ok decided =>
        simp only [hdecide]
        refine bind (sites_perform hsite) fun swap => ?_
        cases swap with
        | stored v => trivial
        | conflict => exact ih
        | notFound => trivial

theorem sites_writeSchedule {sched : NewSchedule} :
    (writeSchedule sched).Sites fun site => site.claims = false := by
  refine bind (sites_perform rfl) fun created => ?_
  cases created <;> trivial

theorem sites_advanceDueWithoutWork {expected next : String} :
    (advanceDueWithoutWork scheduleId expected next).Sites fun site => site.claims = false := by
  refine bind (sites_readVersioned rfl) fun found => ?_
  cases found with
  | none => trivial
  | some read =>
    obtain ⟨sched, version⟩ := read
    show Sites _ (if _ then _ else _)
    split
    · trivial
    · refine bind (bind (sites_perform rfl) fun swap => ?_) fun stored => ?_
      · cases swap <;> trivial
      · cases stored <;> trivial

theorem sites_priorInstance : (priorInstance sched).Sites fun site => site.claims = false := by
  unfold priorInstance prevInstanceLive
  split
  · split
    · trivial
    · exact fun _ => trivial
  · trivial

theorem sites_readSchedule : (readSchedule scheduleId).Sites fun site => site.claims = false := by
  refine bind (sites_readVersioned rfl) fun found => ?_
  cases found <;> trivial

theorem sites_listScheduleIds : listScheduleIds.Sites fun site => site.claims = false :=
  bind (sites_perform rfl) fun _ => trivial

/-! ## Firing -/

section

variable (hist : History (scheduling lib beginsClaimed) l)

include hist

/-- What was taken is carried into the queue, what was not is left alone. -/
theorem endsFree_taken {take : Scheduling (Option Schedule)} {f : Option Schedule → Scheduling α}
    (htake : Attempts lib i take (TookOrFree i id owner) l)
    (hnone : ∀ l', Free i l' → EndsFree lib i (f none) l')
    (hsome : ∀ claimed l', History (scheduling lib beginsClaimed) l' →
      Took i id owner claimed l' → EndsFree lib i (f (some claimed)) l') :
    EndsFree lib i (take.bind f) l := by
  refine endsFree_then hist htake (fun taken l1 hist1 htaken => ?_) fun _ _ hfree => hfree
  cases taken with
  | none => exact hnone l1 htaken
  | some claimed => exact hsome claimed l1 hist1 htaken

theorem endsFree_tryEnqueue {claimed : Schedule} (h : Took i id owner claimed l) :
    EndsFree lib i (tryEnqueue lib fuel claimed owner now) l := by
  refine endsFree_then hist (attempt (endsFree_enqueuePendingOccurrence hist h))
    (fun result l1 _ hresult => ?_) fun _ _ hresult => ?_
  · obtain ⟨_, -, hfree⟩ := hresult
    cases result <;> exact hfree
  · obtain ⟨_, -, hfree⟩ := hresult
    exact hfree

theorem endsFree_fireOccurrence (h : Free i l) :
    EndsFree lib i (fireOccurrence lib fuel sched id owner now) l := by
  unfold fireOccurrence
  split
  · exact h
  · refine endsFree_seq hist (endsFree_sites sites_priorInstance hist h)
      fun prior l1 hist1 hfree => ?_
    cases prior with
    | some _ =>
      exact endsFree_seq hist1 (endsFree_sites sites_advanceDueWithoutWork hist1 hfree)
        fun _ _ _ hfree' => hfree'
    | none =>
      exact endsFree_taken hist1 (attempts_reserveDueOccurrence hist1 hfree)
        (fun _ hfree' => hfree') fun _ _ hist2 htook => endsFree_tryEnqueue hist2 htook

theorem endsFree_fireDueSchedule (h : Free i l) :
    EndsFree lib i (fireDueSchedule lib fuel now id) l := by
  refine endsFree_seq hist (endsFree_sites sites_readSchedule hist h) fun found l1 hist1 hfree => ?_
  cases found with
  | none => exact hfree
  | some sched =>
    refine endsFree_seq hist1 (endsFree_query hfree) fun owner l2 hist2 hfree2 => ?_
    show EndsFree lib i (if _ then _ else if _ then _ else _) l2
    split
    · exact endsFree_taken hist2 (attempts_takeoverPendingOccurrence hist2 hfree2)
        (fun _ hfree' => hfree') fun _ _ hist3 htook => endsFree_tryEnqueue hist3 htook
    · split
      · exact hfree2
      · cases parseIso lib sched.nextDueAt with
        | none => exact hfree2
        | some due =>
          simp only []
          split
          · exact hfree2
          · exact endsFree_fireOccurrence hist2 hfree2

theorem endsFree_fireDueSchedules (h : Free i l) :
    EndsFree lib i (fireDueSchedules lib fuel now) l := by
  refine endsFree_seq hist (endsFree_sites sites_listScheduleIds hist h)
    fun scheduleIds l1 hist1 hfree => ?_
  refine ensures_foldList (I := Free i) hist1 hfree fun scheduleId _ fired l2 hist2 hfree2 => ?_
  refine endsFree_seq hist2 (endsFree_fireDueSchedule hist2 hfree2) fun job l3 _ hfree3 => ?_
  cases job <;> exact hfree3

theorem endsFree_fireToken {rounds : Nat} (h : Free i l) :
    EndsFree lib i (fireToken lib fuel id token runId now rounds) l := by
  induction rounds generalizing l with
  | zero => trivial
  | succ rounds ih =>
    refine endsFree_seq hist (endsFree_sites sites_readSchedule hist h)
      fun found l1 hist1 hfree => ?_
    cases found with
    | none => exact hfree
    | some sched =>
      show EndsFree lib i (if _ then _ else _) l1
      split
      · exact hfree
      · refine endsFree_seq hist1 (endsFree_query hfree) fun owner l2 hist2 hfree2 => ?_
        cases sched.pendingOccurrence with
        | none =>
          exact endsFree_taken hist2 (attempts_reserveManualOccurrence hist2 hfree2)
            (fun _ hfree' => hfree') fun _ _ hist3 htook =>
              endsFree_enqueuePendingOccurrence hist3 htook
        | some pending =>
          refine endsFree_taken hist2 (attempts_takeoverPendingOccurrence hist2 hfree2)
            (fun _ hfree' => hfree') fun claimed l3 hist3 htook => ?_
          show EndsFree lib i (if _ then _ else _) l3
          split
          · exact endsFree_seq hist3 (endsFree_enqueuePendingOccurrence hist3 htook)
              fun _ l4 hist4 hfree4 => ih hist4 hfree4
          · exact endsFree_enqueuePendingOccurrence hist3 htook

theorem endsFree_fireScheduleNow (h : Free i l) :
    EndsFree lib i (fireScheduleNow lib fuel id token now) l := by
  have hread : EndsFree lib i (readRun (stableRunId lib "schedule" (occurrenceToken id token))) l :=
    endsFree_sites (sites_readRun.mono fun site hsite => by rw [hsite]; rfl) hist h
  refine endsFree_seq hist hread fun found l1 hist1 hfree => ?_
  cases found with
  | none => exact endsFree_fireToken hist1 hfree
  | some read =>
    obtain ⟨manifest, version⟩ := read
    show EndsFree lib i (if _ then _ else _) l1
    split
    · exact hfree
    · exact endsFree_fireToken hist1 hfree

theorem attempts_operation {op : Operation} (h : Free i l) :
    EndsFree lib i (op.program lib fuel) l := by
  cases op with
  | declare sched =>
    exact endsFree_seq hist (endsFree_sites sites_writeSchedule hist h) fun _ _ _ hfree => hfree
  | setEnabled scheduleId enabled next =>
    exact endsFree_seq hist (endsFree_sites (sites_swapLoop rfl rfl) hist h)
      fun _ _ _ hfree => hfree
  | edit scheduleId change =>
    exact endsFree_seq hist (endsFree_sites (sites_swapLoop rfl rfl) hist h)
      fun _ _ _ hfree => hfree
  | delete scheduleId =>
    exact endsFree_seq hist (endsFree_sites (sites_swapLoop rfl rfl) hist h)
      fun _ _ _ hfree => hfree
  | sweep now =>
    exact endsFree_seq hist (endsFree_fireDueSchedules hist h) fun _ _ _ hfree => hfree
  | fireNow scheduleId token now =>
    exact endsFree_seq hist (endsFree_fireScheduleNow hist h) fun _ _ _ hfree => hfree

end

end Stado.Schedules
