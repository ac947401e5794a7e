import Stado.Schedules.Sound

/-!
# Pausing and deleting fence new occurrences

A pause or a deletion that has been answered is in the store, and what stands
after it is paused or deleted until an enabling write. A due occurrence is
reserved over the record that stands, so the fence holds wherever that record
is enabled.
-/

namespace Stado.Schedules

open CasStore List System Store

variable {lib : Libraries} {id : String} {e : ScheduleEntry} {l : ScheduleStore} {i : Nat}
  {P : Schedule → Prop}

/-! ## Pauses, enabling writes and due reservations -/

/-- The answer of a pause or a deletion that was carried out. -/
def Paused (op : Operation) (outcome : Outcome) (id : String) : Prop :=
  match op, outcome with
  | .setEnabled scheduleId false _, .written (some _) => scheduleId = id
  | .delete scheduleId, .deleted true => scheduleId = id
  | _, _ => False

def Leaves (id : String) (P : Schedule → Prop) (e : ScheduleEntry) : Prop :=
  e.path = .schedule id ∧ match e.content with
    | some (.schedule sched) => P sched
    | _ => False

abbrev Pauses (id : String) : ScheduleEntry → Prop :=
  Leaves id fun sched => sched.enabled = false ∨ sched.deleted = true

abbrev Enables (id : String) (e : ScheduleEntry) : Prop :=
  (e.site = .setEnabled ∨ e.site = .edit ∨ e.site = .create) ∧
    Leaves id (fun sched => sched.enabled = true) e

/-- Client `i` paused the schedule and it was enabled again later. -/
def EnabledAgain (i : Nat) (id : String) : ScheduleStore → Prop
  | [] => False
  | f :: older => (Enables id f ∧ ∃ g ∈ older, g.author = i ∧ Pauses id g) ∨ EnabledAgain i id older

instance (id : String) (P : Schedule → Prop) [DecidablePred P] (e : ScheduleEntry) :
    Decidable (Leaves id P e) := by
  unfold Leaves
  split <;> infer_instance

instance (i : Nat) (id : String) : (l : ScheduleStore) → Decidable (EnabledAgain i id l)
  | [] => isFalse fun h => h
  | _ :: older =>
    have := instDecidableEnabledAgain i id older
    inferInstanceAs (Decidable (_ ∨ _))

/-- Once a pause or deletion has been answered in `s`, every due reservation
stored on the way to `s'` comes after the schedule was enabled again. -/
def FencedBetween (s s' : ScheduleSystem) : Prop :=
  ∀ i t outcome id, s.tasks[i]? = some t → t.program = .pure outcome → Paused t.op outcome id →
    ∀ (older : ScheduleStore) e, PastOf (e :: older) s'.store →
      s.store.length ≤ older.length → e.path = .schedule id → e.site = .reserveDue →
        EnabledAgain i id older

def reservesEnabled : Condition := fun l _ site change =>
  match site, change with
  | .reserveDue, some (.schedule id, _) =>
    match l.get (.schedule id) with
    | some (.schedule sched, _) => sched.enabled = true
    | _ => True
  | _, _ => True

/-- `reservesEnabled`, computed. -/
def reservesEnabledHolds (l : ScheduleStore) (site : Site)
    (change : Option (Change Path Contents)) : Bool :=
  match site, change with
  | .reserveDue, some (.schedule id, _) =>
    match l.get (.schedule id) with
    | some (.schedule sched, _) => sched.enabled
    | _ => true
  | _, _ => true

theorem reservesEnabledHolds_iff {site : Site} {change : Option (Change Path Contents)} :
    reservesEnabledHolds l site change = true ↔ reservesEnabled l i site change := by
  unfold reservesEnabledHolds reservesEnabled
  split
  · split <;> simp
  · simp

instance (l : ScheduleStore) (i : Nat) (site : Site) (change : Option (Change Path Contents)) :
    Decidable (reservesEnabled l i site change) :=
  decidable_of_iff _ reservesEnabledHolds_iff

theorem leaves_of {sched : Schedule} (hp : e.path = .schedule id)
    (hc : e.content = some (.schedule sched)) (h : P sched) : Leaves id P e := by
  refine ⟨hp, ?_⟩
  rw [hc]
  exact h

theorem Leaves.content
    (h : Leaves id P e) : ∃ sched, e.content = some (.schedule sched) ∧ P sched := by
  obtain ⟨-, hc⟩ := h
  split at hc
  · next sched heq => exact ⟨sched, heq, hc⟩
  · exact hc.elim

theorem enabledAgain_of_held {i p v : Nat} {f g : ScheduleEntry}
    (hg : l.Held p g) (hauthor : g.author = i) (hpauses : Pauses id g) (hf : l.Held v f)
    (henables : Enables id f) (hlt : p < v) : EnabledAgain i id l := by
  induction l with
  | nil => exact (not_held_nil hf).elim
  | cons e older ih =>
    rcases held_cons.mp hf with ⟨rfl, rfl⟩ | hf
    · rcases held_cons.mp hg with ⟨rfl, -⟩ | hg
      · exact absurd hlt (Nat.lt_irrefl _)
      · exact .inl ⟨henables, g, hg.mem, hauthor, hpauses⟩
    · have hv := hf.lt
      rcases held_cons.mp hg with ⟨rfl, -⟩ | hg
      · omega
      · exact .inr (ih hg hf)

/-! ## What stands after a pause -/

section Standing

variable {cond : Condition} {l : ScheduleStore} {id : String} {site : Site} {old new : Schedule}

theorem Writes.deleted (h : Writes lib l id site old new) (hdeleted : old.deleted = true) :
    new.deleted = true := by
  have dead (live : old.deleted = false) : new.deleted = true := by
    rw [hdeleted] at live
    cases live
  cases h with
  | setEnabled _ _ live => exact dead live
  | edit _ live => exact dead live
  | delete _ => rfl
  | _ => exact hdeleted

/-- Only enablement and edits enable a record. -/
theorem Writes.enabled (h : Writes lib l id site old new) (hnew : new.enabled = true) :
    old.enabled = true ∨ site = .setEnabled ∨ site = .edit := by
  cases h with
  | setEnabled _ _ _ => exact .inr (.inl rfl)
  | edit _ _ => exact .inr (.inr rfl)
  | delete _ => cases hnew
  | _ => exact .inl hnew

/-- The record that stands is paused or deleted, or was enabled after `p`. -/
def StandsPaused (id : String) (p : Nat) (l : ScheduleStore) : Prop :=
  (∃ sched v, l.get (.schedule id) = some (.schedule sched, v) ∧
      (sched.enabled = false ∨ sched.deleted = true)) ∨
    ∃ v f, l.Held v f ∧ Enables id f ∧ p < v

theorem standsPaused_step {p : Nat} (hp : p < l.length) (h : History (scheduling lib cond) (e :: l))
    (hl : StandsPaused id p l) : StandsPaused id p (e :: l) := by
  rcases hl with ⟨sched, v, hget, hpaused⟩ | ⟨v, f, hf, hrest⟩
  · rcases record_step h hget with ⟨-, hsame⟩ | ⟨hpath, new, hc, hwrites, hnew⟩
    · exact .inl ⟨sched, v, hsame, hpaused⟩
    · by_cases henabled : new.enabled = true ∧ new.deleted = false
      · have hsite : e.site = .setEnabled ∨ e.site = .edit := by
          rcases hpaused with hdisabled | hdeleted
          · rcases hwrites.enabled henabled.1 with hwas | hsite
            · rw [hdisabled] at hwas
              cases hwas
            · exact hsite
          · have hdead := hwrites.deleted hdeleted
            rw [henabled.2] at hdead
            cases hdead
        refine .inr ⟨l.length, e, held_cons_self _ _, ⟨?_, leaves_of hpath hc
          henabled.1⟩, hp⟩
        rcases hsite with hsite | hsite
        · exact .inl hsite
        · exact .inr (.inl hsite)
      · refine .inl ⟨new, l.length, hnew, ?_⟩
        rw [not_and_or, Bool.not_eq_true, Bool.not_eq_false] at henabled
        exact henabled
  · exact .inr ⟨v, f, hf.mono (suffix_cons _ _), hrest⟩

/-- After a pausing write the record that stands is paused until an enabling
write. -/
theorem standsPaused {p : Nat} {g : ScheduleEntry} (h : History (scheduling lib cond) l)
    (hg : l.Held p g) (hpauses : Pauses id g) : StandsPaused id p l := by
  obtain ⟨older, hpast, rfl⟩ := hg.split
  obtain ⟨sched, hc, hpaused⟩ := hpauses.content
  have hpath := hpauses.1
  refine h.stable hpast (P := StandsPaused id older.length) ?_ fun l' e hl' hist' hstands => ?_
  · refine .inl ⟨sched, older.length, ?_, hpaused⟩
    rw [get_cons_same hpath, hc]
    rfl
  · have hle := hl'.length_le
    rw [length_cons] at hle
    exact standsPaused_step (by omega) hist' hstands

/-- The record a due reservation replaces is live. -/
theorem live_of_reserveDue (h : History (scheduling lib cond) (e :: l))
    (hpath : e.path = .schedule id) (hsite : e.site = .reserveDue) :
    ∃ old v, l.get (.schedule id) = some (.schedule old, v) ∧ old.deleted = false := by
  have hallowed : Allowed lib l e := h.allowed
  rw [Allowed, hpath, hsite] at hallowed
  split at hallowed
  · next heq _ => cases heq
  · next heq _ =>
    cases heq
    rcases hallowed with hdeclares | ⟨old, v, hold, hwrites⟩
    · cases hdeclares.site
    · cases hwrites with
      | reserveDue _ _ _ live _ _ => exact ⟨old, v, hold, live⟩
  · exact hallowed.elim

end Standing

theorem pausedBy_of_answered {op : Operation} {outcome : Outcome} (hpaused : Paused op outcome id)
    (h : Answered op i outcome l) : ∃ p g, l.Held p g ∧ g.author = i ∧ Pauses id g := by
  unfold Paused at hpaused
  split at hpaused
  · subst hpaused
    obtain ⟨hdisabled, v, e, he, ha, -, hp, hc⟩ := h
    exact ⟨v, e, he, ha, leaves_of hp hc (.inl hdisabled)⟩
  · subst hpaused
    obtain ⟨sched, hdeleted, v, e, he, ha, -, hp, hc⟩ := h
    exact ⟨v, e, he, ha, leaves_of hp hc (.inr hdeleted)⟩
  · exact hpaused.elim

/-- A deletion fences in every run: a reservation reads the tombstone. -/
theorem delete_fences {cond : Condition} {s s' : ScheduleSystem} (hs : Runs lib cond s)
    (hs' : Reaches (schedules lib) (Respects (scheduling lib cond)) s s')
    {t : Task Path Contents Site Error Query Operation Outcome} (ht : s.tasks[i]? = some t)
    (hop : t.op = .delete id) (hpure : t.program = .pure (.deleted true)) {older : ScheduleStore}
    (hpast : PastOf (e :: older) s'.store) (hlen : s.store.length ≤ older.length)
    (hpath : e.path = .schedule id) : e.site ≠ .reserveDue := by
  intro hsite
  obtain ⟨l, hl, -, hanswered⟩ := (schedules_sound hs).result ht hpure
  rw [hop] at hanswered
  obtain ⟨sched, hdeleted, p, g, hg, -, -, hp, hc⟩ := hanswered
  have hist := (schedules_sound (hs.trans hs')).history.of_suffix hpast
  have hsolder : s.store.PastOf older :=
    suffix_of_suffix_length_le hs'.pastOf ((suffix_cons _ _).trans hpast) hlen
  obtain ⟨older', hpast', rfl⟩ := (hg.mono (hl.past.trans hsolder)).split
  have hstands : ∃ sched v, older.get (.schedule id) = some (.schedule sched, v) ∧
      sched.deleted = true := by
    refine hist.tail.stable hpast' (P := fun l => ∃ sched v,
      l.get (.schedule id) = some (.schedule sched, v) ∧ sched.deleted = true) ?_ ?_
    · refine ⟨sched, older'.length, ?_, hdeleted⟩
      rw [get_cons_same hp, hc]
      rfl
    · rintro l' f - hist' ⟨sched', v, hget, hdel⟩
      rcases record_step hist' hget with ⟨-, hsame⟩ | ⟨-, new, -, hwrites, hnew⟩
      · exact ⟨sched', v, hsame, hdel⟩
      · exact ⟨new, l'.length, hnew, hwrites.deleted hdel⟩
  obtain ⟨sched', v, hget, hdel⟩ := hstands
  obtain ⟨old, w, hold, hlive⟩ := live_of_reserveDue hist hpath hsite
  rw [hget] at hold
  cases hold
  rw [hlive] at hdel
  cases hdel

/-! ## A sweep that read the schedule before the pause -/

/-- Client `i` was answered that it paused the schedule. -/
def pausedBy (i : Nat) (id : String) (s : ScheduleSystem) : Bool :=
  match s.tasks[i]? with
  | some ⟨.setEnabled scheduleId false _, .pure (.written (some _))⟩ => decide (scheduleId = id)
  | _ => false

def lastReserves (id : String) : ScheduleStore → Bool
  | e :: _ => decide (e.path = .schedule id ∧ e.site = .reserveDue)
  | [] => false

def pauseDeclared : List ScheduleEvent :=
  [.start (.declare everyMinute) 0, .call 0, .start (.setEnabled "sch-1" false none) 1, .call 1,
    .call 1]

def enableAndSweep : List ScheduleEvent :=
  [.start (.setEnabled "sch-1" true none) 1, .call 2, .call 2, .start (.sweep 60000000) 1,
    .call 3, .call 3, .answer 3 (.word "o1"), .call 3, .answer 3 (.process ⟨"h", 1⟩), .call 3]

/-- A run of given events with a state on the way, each with a property that can
be checked. -/
theorem exists_exec_twice (lib : Libraries) (cond : Condition)
    [∀ l i site change, Decidable (cond l i site change)]
    (first second : List ScheduleEvent) {P Q : ScheduleSystem → Bool}
    (h : (exec (schedules lib) (Respects (scheduling lib cond)) first ⟨[], []⟩).any
      (fun s => P s && (s.exec (schedules lib) (Respects (scheduling lib cond))
        second).any Q) = true) :
    ∃ s s', Runs lib cond s ∧ Reaches (schedules lib) (Respects (scheduling lib cond)) s s' ∧
      P s = true ∧ Q s' = true := by
  obtain ⟨s, hs, hboth⟩ := exists_exec first h
  rw [Bool.and_eq_true] at hboth
  obtain ⟨s', hs', hq⟩ := exists_exec second hboth.2
  exact ⟨s, s', hs, hs', hboth.1, hq⟩

theorem pausedBy_iff {s : ScheduleSystem} (h : pausedBy i id s = true) :
    ∃ t outcome, s.tasks[i]? = some t ∧ t.program = .pure outcome ∧ Paused t.op outcome id := by
  unfold pausedBy at h
  split at h
  · next scheduleId _ sched heq =>
    have hid : scheduleId = id := of_decide_eq_true h
    exact ⟨_, .written (some sched), heq, rfl, hid⟩
  · cases h

theorem lastReserves_iff (h : lastReserves id l = true) :
    ∃ e older, l = e :: older ∧ e.path = .schedule id ∧ e.site = .reserveDue := by
  cases l with
  | nil => cases h
  | cons e older =>
    obtain ⟨hpath, hsite⟩ := of_decide_eq_true h
    exact ⟨e, older, rfl, hpath, hsite⟩

def dueThenPaused : List ScheduleEvent :=
  [.start (.declare everyMinute) 0, .call 0, .start (.sweep 60000000) 1, .call 1, .call 1,
    .answer 1 (.word "o1"), .start (.setEnabled "sch-1" false none) 1, .call 2, .call 2]

def reserveAnyway : List ScheduleEvent :=
  [.call 1, .answer 1 (.process ⟨"h", 1⟩), .call 1]

def deletedBy (i : Nat) (id : String) (s : ScheduleSystem) : Bool :=
  match s.tasks[i]? with
  | some ⟨.delete scheduleId, .pure (.deleted true)⟩ =>
    decide (scheduleId = id ∧ s.store.length = 3)
  | _ => false

def writtenLater : ScheduleStore → Bool
  | e :: older => decide (3 ≤ older.length ∧ e.path = .schedule "sch-1")
  | [] => false

/-- What was pending at a deletion goes on. -/
theorem delete_fences_pending :
    ∃ (s s' : ScheduleSystem) (e : ScheduleEntry) (older : ScheduleStore), s'.store = e :: older ∧
      s.store.length ≤ older.length ∧ e.path = .schedule "sch-1" ∧ e.site ≠ .reserveDue := by
  obtain ⟨s, s', hs, hs', hdeleted, hlater⟩ := exists_exec_twice minutes anyStep
    (dueThenPaused.take 6 ++ reserveAnyway ++ [.start (.delete "sch-1") 1, .call 2, .call 2])
    [.call 1, .call 1] (P := deletedBy 2 "sch-1") (Q := fun s => writtenLater s.store)
    (by decide +kernel)
  unfold deletedBy at hdeleted
  split at hdeleted
  · next ht =>
    obtain ⟨hop, hlen⟩ := of_decide_eq_true hdeleted
    cases hstore : s'.store with
    | nil => simp [hstore, writtenLater] at hlater
    | cons e older =>
      rw [hstore] at hlater
      obtain ⟨hlong, hpath⟩ := of_decide_eq_true hlater
      rw [← hlen] at hlong
      exact ⟨s, s', e, older, hstore, hlong, hpath,
        delete_fences hs hs' ht (congrArg _ hop) rfl (hstore ▸ suffix_refl _) hlong hpath⟩
  · cases hdeleted

end Stado.Schedules
