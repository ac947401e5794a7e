import Stado.Schedules.Fire

/-!
# The schedule protocol

What each write of a schedule or of a run may be, judged by the record it
replaces.
-/

namespace Stado.Schedules

open CasStore Option Store

variable (lib : Libraries)

/-! ## Facts about the store -/

section Facts

variable (l : ScheduleStore)

/-- The schedule was stored at version `v`. -/
def StoredAt (v : Nat) (scheduleId : String) (sched : Schedule) : Prop :=
  ∃ e, l.Held v e ∧ e.path = .schedule scheduleId ∧ e.content = some (.schedule sched)

/-- The manifest of a run was stored at version `v`. -/
def PlannedAt (v : Nat) (runId : String) (manifest : RunManifest) : Prop :=
  ∃ e, l.Held v e ∧ e.path = .run runId ∧ e.content = some (.run manifest)

def Planned (runId : String) (job : Job) : Prop :=
  ∃ v manifest, PlannedAt l v runId manifest ∧ manifest.job lib = job

end Facts

variable {lib}
variable {l l' : ScheduleStore}

variable {v : Nat} {scheduleId : String} {sched : Schedule} {runId : String}

theorem StoredAt.mono (hl : l.PastOf l')
    (h : StoredAt l v scheduleId sched) : StoredAt l' v scheduleId sched := by
  obtain ⟨e, he, hrest⟩ := h
  exact ⟨e, he.mono hl, hrest⟩

theorem Planned.mono {job : Job} (hl : l.PastOf l')
    (h : Planned lib l runId job) : Planned lib l' runId job := by
  obtain ⟨v, manifest, ⟨e, he, hrest⟩, hjob⟩ := h
  exact ⟨v, manifest, ⟨e, he.mono hl, hrest⟩, hjob⟩

theorem storedAt_of_get (h : l.get (.schedule scheduleId) = some (.schedule sched, v)) :
    StoredAt l v scheduleId sched := by
  obtain ⟨e, he, hp, hc⟩ := get_held h
  exact ⟨e, he, hp, hc⟩

/-- The version a client read pins the record it read. -/
theorem StoredAt.eq_of_get {old : Contents} (h : StoredAt l v scheduleId sched)
    (hget : l.get (.schedule scheduleId) = some (old, v)) : old = .schedule sched := by
  obtain ⟨e, he, -, hc⟩ := h
  exact get_eq_of_held hget he hc

variable (lib) {id : String}

/-! ## The rules -/

def Advances (occurrenceAt next : String) : Prop :=
  ∃ due later, parseIso lib occurrenceAt = some due ∧ parseIso lib next = some later ∧ due < later

/-- What a write at a site makes of the record it replaces. -/
inductive Writes (l : ScheduleStore) (id : String) : Site → Schedule → Schedule → Prop where
  | setEnabled {old : Schedule} (enabled : Bool) (next : Option String)
      (live : old.deleted = false) : Writes l id .setEnabled old (enabledAs enabled next old)
  | edit {old : Schedule} (change : Edit) (live : old.deleted = false) :
      Writes l id .edit old (change.apply old)
  | delete {old : Schedule} (live : old.deleted = false) :
      Writes l id .delete old { old with deleted := true, enabled := false }
  | reserveDue {old : Schedule} (next owner : String) (process : ProcessOwner)
      (live : old.deleted = false) (free : old.pendingOccurrence = none)
      (advances : Advances lib old.nextDueAt next) :
      Writes l id .reserveDue old
        { old with
          nextDueAt := next
          pendingOccurrence := some (reservation lib (occurrenceToken id old.nextDueAt)
            old.nextDueAt owner process) }
  | reserveManual {old : Schedule} (token at_ owner : String) (process : ProcessOwner)
      (live : old.deleted = false) (free : old.pendingOccurrence = none) :
      Writes l id .reserveManual old
        { old with pendingOccurrence := some (reservation lib token at_ owner process) }
  | takeover {old : Schedule} {pending : ScheduleOccurrenceReservation} (owner : String)
      (process : ProcessOwner) (taken : old.pendingOccurrence = some pending) :
      Writes l id .takeover old
        { old with
          pendingOccurrence := some { pending with
            state := .claimed, owner := owner, leaseExpiresAt := "", ownerProcess := process } }
  | begin {old : Schedule} {pending : ScheduleOccurrenceReservation}
      (claimed : old.pendingOccurrence = some pending) :
      Writes l id .begin old
        { old with pendingOccurrence := some { pending with state := .enqueuing } }
  | advance {old : Schedule} (next : String) (free : old.pendingOccurrence = none)
      (advances : Advances lib old.nextDueAt next) :
      Writes l id .advance old { old with nextDueAt := next }
  | release {old : Schedule} {pending : ScheduleOccurrenceReservation}
      (held : old.pendingOccurrence = some pending) :
      Writes l id .release old { old with pendingOccurrence := some (released pending) }
  | abandon {old : Schedule} {pending : ScheduleOccurrenceReservation} {failure : Error}
      (held : old.pendingOccurrence = some pending) (rejected : failure.rejected = true) :
      Writes l id (.abandon failure) old { old with pendingOccurrence := none }
  | accept {old : Schedule} {pending : ScheduleOccurrenceReservation} {job : Job} (firedAt : Nat)
      (held : old.pendingOccurrence = some pending) (run : pending.runId = job.runId)
      (planned : Planned lib l job.runId job) :
      Writes l id .accept old (settled lib job firedAt old)

/-- A new record: nothing reserved, nothing fired. -/
structure Declares (l : ScheduleStore) (id : String) (site : Site) (new : Schedule) : Prop where
  site : site = .create
  absent : l.get (.schedule id) = none
  named : new.scheduleId = id
  unreserved : new.pendingOccurrence = none
  unfired : new.fireCount = 0

/-- A run is planned once; a later write keeps the plan. -/
def WritesRun (l : ScheduleStore) (runId : String) (new : RunManifest) : Prop :=
  new.request.runId = runId ∧ (l.get (.run runId) = none ∨
    ∃ old v, l.get (.run runId) = some (.run old, v) ∧ new.request = old.request ∧
      new.hardware = old.hardware)

def Allowed (l : ScheduleStore) (e : ScheduleEntry) : Prop :=
  match e.path, e.content with
  | .run runId, some (.run new) => WritesRun l runId new
  | .schedule id, some (.schedule new) => Declares l id e.site new ∨
      ∃ old v, l.get (.schedule id) = some (.schedule old, v) ∧ Writes lib l id e.site old new
  | _, _ => False

/-- A condition on the steps of a run. -/
abbrev Condition := ScheduleStore → Nat → Site → Option (Change Path Contents) → Prop

def anyStep : Condition := fun _ _ _ _ => True

instance (l : ScheduleStore) (i : Nat) (site : Site) (change : Option (Change Path Contents)) :
    Decidable (anyStep l i site change) :=
  inferInstanceAs (Decidable True)

def scheduling (cond : Condition) : Rules Path Contents Site := ⟨Allowed lib, cond⟩

instance (cond : Condition) [∀ l i site change, Decidable (cond l i site change)]
    (l : ScheduleStore) (i : Nat) (site : Site) (change : Option (Change Path Contents)) :
    Decidable ((scheduling lib cond).cond l i site change) :=
  inferInstanceAs (Decidable (cond l i site change))

theorem Writes.named {lib : Libraries} {site : Site} {old new : Schedule}
    (h : Writes lib l id site old new) : new.scheduleId = old.scheduleId := by
  cases h with
  | edit change _ =>
    cases change with
    | settings _ _ _ _ => rfl
    | converge _ => rfl
    | repin pin pinTo =>
      simp only [Edit.apply]
      split <;> rfl
  | _ => rfl

section History

variable {lib} {cond : Condition} {e : ScheduleEntry}

theorem record_step {old : Schedule} (h : History (scheduling lib cond) (e :: l))
    (hget : l.get (.schedule id) = some (.schedule old, v)) :
    (e.path ≠ .schedule id ∧ get (e :: l) (.schedule id) = some (.schedule old, v)) ∨
      (e.path = .schedule id ∧ ∃ new, e.content = some (.schedule new) ∧
        Writes lib l id e.site old new ∧
        get (e :: l) (.schedule id) = some (.schedule new, l.length)) := by
  by_cases hpath : e.path = .schedule id
  · have hallowed : Allowed lib l e := h.allowed
    rw [Allowed, hpath] at hallowed
    split at hallowed
    · next heq _ => cases heq
    · next new heq hc =>
      cases heq
      rcases hallowed with hdeclares | ⟨old', w, hold, hwrites⟩
      · rw [hdeclares.absent] at hget
        cases hget
      · rw [hget] at hold
        cases hold
        refine .inr ⟨hpath, new, hc, hwrites, ?_⟩
        rw [get_cons_same hpath, hc]
        rfl
    · exact hallowed.elim
  · refine .inl ⟨hpath, ?_⟩
    rw [get_cons_other hpath]
    exact hget

/-- The record that stands after a write: the one that stood, a new one, or what
the write made of it. -/
theorem record_cases {new : Schedule} (h : History (scheduling lib cond) (e :: l))
    (hget : get (e :: l) (.schedule id) = some (.schedule new, v)) :
    (e.path ≠ .schedule id ∧ l.get (.schedule id) = some (.schedule new, v)) ∨
      (e.path = .schedule id ∧ e.content = some (.schedule new) ∧ (Declares l id e.site new ∨
          ∃ old w, l.get (.schedule id) = some (.schedule old, w) ∧
            Writes lib l id e.site old new)) := by
  by_cases hpath : e.path = .schedule id
  · rw [get_cons_same hpath, map_eq_some_iff] at hget
    obtain ⟨c, hc, heq⟩ := hget
    cases heq
    have hallowed : Allowed lib l e := h.allowed
    rw [Allowed, hpath, hc] at hallowed
    exact .inr ⟨hpath, hc, hallowed⟩
  · rw [get_cons_other hpath] at hget
    exact .inl ⟨hpath, hget⟩

variable (hist : History (scheduling lib cond) l)
include hist

variable {v : Nat} {e : ScheduleEntry} {c : Contents}

theorem allowed_of_held (he : l.Held v e) :
    ∃ older : ScheduleStore, PastOf (e :: older) l ∧ older.length = v ∧ Allowed lib older e := by
  obtain ⟨older, hpast, hlen, hallowed, -⟩ := hist.held he
  exact ⟨older, hpast, hlen, hallowed⟩

/-- Nothing is ever removed. -/
theorem content_of_held (he : l.Held v e) : e.content ≠ none := by
  obtain ⟨older, -, -, hallowed⟩ := allowed_of_held hist he
  intro hnone
  rw [Allowed, hnone] at hallowed
  split at hallowed
  · next h => cases h
  · next h => cases h
  · exact hallowed

/-- What was stored somewhere is still there, perhaps rewritten. -/
theorem get_ne_none (he : l.Held v e) : l.get e.path ≠ none := by
  intro hnone
  obtain ⟨c, hc⟩ := ne_none_iff_exists'.mp (content_of_held hist he)
  obtain ⟨w, f, hf, -, hremoved, -⟩ := removed_of_get_none hnone he rfl hc
  exact content_of_held hist hf hremoved

/-- What stands at a schedule's path is a schedule. -/
theorem schedule_of_get
    (hget : l.get (.schedule scheduleId) = some (c, v)) : ∃ sched, c = .schedule sched := by
  obtain ⟨e, he, hp, hc⟩ := get_held hget
  obtain ⟨older, -, -, hallowed⟩ := allowed_of_held hist he
  rw [Allowed, hp, hc] at hallowed
  cases c with
  | schedule sched => exact ⟨sched, rfl⟩
  | run manifest => exact hallowed.elim

/-- A record is stored under its own id. -/
theorem named_of_get (hget : l.get (.schedule scheduleId) = some (.schedule sched, v)) :
    sched.scheduleId = scheduleId := by
  induction hist generalizing sched v with
  | nil => cases hget
  | @cons s e older allowed cond ih =>
    rcases record_cases (.cons older allowed cond) hget with ⟨-, hold⟩ |
      ⟨-, -, hdeclares | ⟨old, w, hold, hwrites⟩⟩
    · exact ih hold
    · exact hdeclares.named
    · rw [hwrites.named]
      exact ih hold

/-- What stands at a run's path is a run. -/
theorem run_of_get (hget : l.get (.run runId) = some (c, v)) : ∃ manifest, c = .run manifest := by
  obtain ⟨e, he, hp, hc⟩ := get_held hget
  obtain ⟨older, -, -, hallowed⟩ := allowed_of_held hist he
  rw [Allowed, hp, hc] at hallowed
  cases c with
  | schedule sched => exact hallowed.elim
  | run manifest => exact ⟨manifest, rfl⟩

theorem same_plan {w : Nat} {m m' : RunManifest}
    (h : PlannedAt l v runId m) (hget : l.get (.run runId) = some (.run m', w)) :
    m.request = m'.request ∧ m.hardware = m'.hardware := by
  induction hist generalizing m' w with
  | nil => cases hget
  | @cons s e older allowed cond ih =>
    obtain ⟨f, hf, hp, hc⟩ := h
    have hallowed : Allowed lib s e := allowed
    by_cases hpath : e.path = .run runId
    · rw [get_cons_same hpath, map_eq_some_iff] at hget
      obtain ⟨c, hcontent, heq⟩ := hget
      cases heq
      rcases held_cons.mp hf with ⟨-, rfl⟩ | hf
      · rw [hcontent] at hc
        cases hc
        exact ⟨rfl, rfl⟩
      · rw [Allowed, hpath, hcontent] at hallowed
        have hold := get_ne_none older hf
        rw [hp] at hold
        rcases hallowed.2 with hnone | ⟨m0, w0, hget0, hrequest, hhardware⟩
        · exact absurd hnone hold
        · obtain ⟨h1, h2⟩ := ih ⟨f, hf, hp, hc⟩ hget0
          rw [hrequest, hhardware]
          exact ⟨h1, h2⟩
    · rw [get_cons_other hpath] at hget
      rcases held_cons.mp hf with ⟨-, rfl⟩ | hf
      · exact absurd hp hpath
      · exact ih ⟨f, hf, hp, hc⟩ hget

end History

end Stado.Schedules
