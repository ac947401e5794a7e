import Stado.Schedules.Rules

/-!
# The schedule programs keep the protocol

Every write of every operation is one the rules of the schedules allow, so the
store of every run is a history of the protocol (`schedules_sound`).
-/

namespace Stado.Schedules

open CasStore Program

variable {lib : Libraries} {cond : Condition} {i : Nat} {l : ScheduleStore}

/-- The program makes only writes the rules allow. -/
abbrev Keeps {α : Type} (lib : Libraries) (cond : Condition) (i : Nat) (p : Scheduling α)
    (l : ScheduleStore) : Prop :=
  p.Meets (scheduling lib cond) i (fun _ _ => True) l

/-! ## Reads and swaps -/

variable {site : Site} {scheduleId owner key : String} {version fuel : Nat} {α : Type}
  {old new : Schedule} {pending : ScheduleOccurrenceReservation} {sched : Schedule}

theorem meets_readVersioned :
    (readVersioned site scheduleId).Meets (scheduling lib cond) i
      (fun found l' => ∀ sched v, found = some (sched, v) → StoredAt l' v scheduleId sched) l := by
  refine meets_bind (meets_read fun l1 _ hist1 _ => ?_)
  cases hget : l1.get (.schedule scheduleId) with
  | none =>
    refine meets_pure fun sched v h => ?_
    cases h
  | some found =>
    obtain ⟨c, v⟩ := found
    obtain ⟨sched, rfl⟩ := schedule_of_get hist1 hget
    refine meets_pure fun sched' v' h => ?_
    cases h
    exact storedAt_of_get hget

theorem meets_swapRecord {Q : Swap → ScheduleStore → Prop}
    (hstored : StoredAt l version scheduleId old)
    (hwrites : ∀ l', l.PastOf l' → History (scheduling lib cond) l' →
      Writes lib l' scheduleId site old new)
    (hQ : ∀ l', l.PastOf l' → l'.get (.schedule scheduleId) = some (.schedule old, version) →
      Q (.stored l'.length) (⟨.schedule scheduleId, some (.schedule new), site, i⟩ :: l'))
    (hlost : ∀ l', l.PastOf l' → Q .conflict l') (habsent : ∀ l', l.PastOf l' → Q .notFound l') :
    (perform site (.swap (.schedule scheduleId) version (.schedule new)) :
      Scheduling Swap).Meets (scheduling lib cond) i Q l := by
  refine meets_swap ?_ ?_ ?_ ?_
  · intro l' c hl hist hget _
    have hc := (hstored.mono hl).eq_of_get hget
    subst hc
    exact Or.inr ⟨old, version, hget, hwrites l' hl hist⟩
  · intro l' c hl hget _
    have hc := (hstored.mono hl).eq_of_get hget
    subst hc
    exact hQ l' hl hget
  · exact fun l' _ _ hl _ _ _ _ => hlost l' hl
  · exact fun l' hl _ _ _ => habsent l' hl

section

variable (hist : History (scheduling lib cond) l)

include hist

theorem meets_swapOnce (hstored : StoredAt l version scheduleId old)
    (hwrites : ∀ l', l.PastOf l' → History (scheduling lib cond) l' →
      Writes lib l' scheduleId site old new) :
    (swapOnce site scheduleId version new).Meets (scheduling lib cond) i
      (fun found l' => ∀ sched, found = some sched →
        sched = new ∧ ∃ v, StoredAt l' v scheduleId new) l := by
  refine meets_then hist (Q := fun answer l' => ∀ v, answer = .stored v →
    StoredAt l' v scheduleId new) (meets_swapRecord hstored hwrites ?_ ?_ ?_)
    fun answer l1 _ _ hanswer => ?_
  · rintro l' - - _ ⟨rfl⟩
    exact ⟨_, Store.held_cons_self _ _, rfl, rfl⟩
  · intro l' _ v h
    cases h
  · intro l' _ v h
    cases h
  · cases answer with
    | stored v =>
      refine meets_pure ?_
      rintro _ ⟨rfl⟩
      exact ⟨rfl, v, hanswer v rfl⟩
    | conflict =>
      refine meets_pure fun sched h => ?_
      cases h
    | notFound =>
      refine meets_pure fun sched h => ?_
      cases h

theorem meets_swapLoop {readSite : Site} {absent : α} {decide : Schedule → Except α (Schedule × α)}
    {Q : α → ScheduleStore → Prop}
    (hwrites : ∀ l' old new answer, l.PastOf l' → History (scheduling lib cond) l' →
      decide old = .ok (new, answer) → Writes lib l' scheduleId site old new)
    (habsent : ∀ l', l.PastOf l' → Q absent l')
    (hdecided : ∀ l' old answer, l.PastOf l' → decide old = .error answer → Q answer l')
    (hstored : ∀ l' old new answer v, l.PastOf l' →
      l'.get (.schedule scheduleId) = some (.schedule old, v) → decide old = .ok (new, answer) →
      Q answer (⟨.schedule scheduleId, some (.schedule new), site, i⟩ :: l')) :
    (swapLoop readSite site scheduleId absent decide fuel).Meets (scheduling lib cond) i Q l := by
  suffices h : ∀ l', l.PastOf l' → History (scheduling lib cond) l' →
      (swapLoop readSite site scheduleId absent decide fuel).Meets (scheduling lib cond) i Q l'
    from h l (List.suffix_refl _) hist
  induction fuel with
  | zero => exact fun _ _ _ => trivial
  | succ fuel ih =>
    intro l1 h1 hist1
    refine meets_then hist1 meets_readVersioned fun found l2 h2 hist2 hfound => ?_
    cases found with
    | none => exact meets_pure (habsent l2 (h1.trans h2))
    | some read =>
      obtain ⟨old, version⟩ := read
      have hread := hfound old version rfl
      cases hdecide : decide old with
      | error answer =>
        simp only [hdecide]
        exact meets_pure (hdecided l2 old answer (h1.trans h2) hdecide)
      | ok decided =>
        obtain ⟨new, answer⟩ := decided
        simp only [hdecide]
        refine meets_then hist2 (Q := fun swap l' => l.PastOf l' ∧
          (∀ v, swap = .stored v → Q answer l')) (meets_swapRecord hread ?_ ?_ ?_ ?_)
          fun swap l3 h3 hist3 hswap => ?_
        · exact fun l3 h3 hist3 => hwrites l3 old new answer (h1.trans (h2.trans h3)) hist3
            hdecide
        · intro l3 h3 hget
          exact ⟨(h1.trans (h2.trans h3)).trans (List.suffix_cons _ _), fun _ _ =>
            hstored l3 old new answer version (h1.trans (h2.trans h3)) hget hdecide⟩
        · exact fun l3 h3 => ⟨h1.trans (h2.trans h3), fun _ h => by cases h⟩
        · exact fun l3 h3 => ⟨h1.trans (h2.trans h3), fun _ h => by cases h⟩
        · cases swap with
          | stored v => exact meets_pure (hswap.2 v rfl)
          | conflict => exact ih l3 (hswap.1) hist3
          | notFound => exact meets_pure (habsent l3 hswap.1)

variable {p : Scheduling α}

/-- A program run for its writes, then another. -/
theorem keeps_then {β : Type} {f : α → Scheduling β} (hp : Keeps lib cond i p l)
    (hf : ∀ a l', l.PastOf l' → History (scheduling lib cond) l' → Keeps lib cond i (f a) l') :
    Keeps lib cond i (p.bind f) l :=
  meets_then hist hp fun a l' hl hist' _ => hf a l' hl hist'

theorem keeps_attempt (hp : Keeps lib cond i p l) : Keeps lib cond i p.attempt l :=
  meets_attempt hp hist fun _ _ _ _ => trivial

end

theorem keeps_query {β : Type} {q : Query α} {f : α → Scheduling β}
    (hf : ∀ a l', l.PastOf l' → History (scheduling lib cond) l' → Keeps lib cond i (f a) l') :
    Keeps lib cond i ((query q).bind f) l :=
  meets_bind (meets_query fun l' hl hist' a => hf a l' hl hist')

/-! ## Declarations -/

theorem keeps_writeSchedule {sched : NewSchedule} : Keeps lib cond i (writeSchedule sched) l := by
  refine meets_bind (meets_create ?_ ?_ ?_)
  · intro l1 _ _ hnone _
    exact Or.inl ⟨rfl, hnone, rfl, sched.unreserved, sched.unfired⟩
  · exact fun _ _ _ _ => trivial
  · exact fun _ _ _ _ => trivial

/-- A write of the client that left the schedule as `sched`. -/
def WroteSchedule (l : ScheduleStore) (i : Nat) (site : Site) (scheduleId : String)
    (sched : Schedule) : Prop :=
  ∃ v e, l.Held v e ∧ e.author = i ∧ e.site = site ∧ e.path = .schedule scheduleId ∧
    e.content = some (.schedule sched)

theorem wroteSchedule_head :
    WroteSchedule (⟨.schedule scheduleId, some (.schedule sched), site, i⟩ :: l) i site scheduleId
      sched :=
  ⟨l.length, _, Store.held_cons_self _ _, rfl, rfl, rfl, rfl⟩

theorem meets_setScheduleEnabled {enabled : Bool}
    {next : Option String} (hist : History (scheduling lib cond) l) :
    (setScheduleEnabled fuel scheduleId enabled next).Meets (scheduling lib cond) i
      (fun answer l' => ∀ sched, answer = some sched → sched.enabled = enabled ∧
        WroteSchedule l' i .setEnabled scheduleId sched) l := by
  refine meets_swapLoop hist ?_ (fun _ _ _ h => by cases h) ?_ ?_
  · intro l1 old new answer _ _ hdecide
    split at hdecide
    · cases hdecide
    · next live =>
      cases hdecide
      exact .setEnabled enabled next (Bool.eq_false_iff.mpr live)
  · intro l1 old answer _ hdecide sched hsched
    split at hdecide
    · cases hdecide
      cases hsched
    · cases hdecide
  · intro l1 old new answer v _ _ hdecide sched hsched
    split at hdecide
    · cases hdecide
    · cases hdecide
      cases hsched
      exact ⟨rfl, wroteSchedule_head⟩

theorem keeps_editSchedule {change : Edit} (hist : History (scheduling lib cond) l) :
    Keeps lib cond i (editSchedule fuel scheduleId change) l := by
  refine meets_swapLoop hist ?_ (fun _ _ => trivial) (fun _ _ _ _ _ => trivial)
    fun _ _ _ _ _ _ _ _ => trivial
  intro l1 old new answer _ _ hdecide
  split at hdecide
  · cases hdecide
  · next live =>
    cases hdecide
    exact .edit change (Bool.eq_false_iff.mpr live)

theorem meets_deleteSchedule (hist : History (scheduling lib cond) l) :
    (deleteSchedule fuel scheduleId).Meets (scheduling lib cond) i
      (fun answer l' => answer = true → ∃ sched : Schedule, sched.deleted = true ∧
        WroteSchedule l' i .delete scheduleId sched) l := by
  refine meets_swapLoop hist ?_ (fun _ _ h => by cases h) ?_ ?_
  · intro l1 old new answer _ _ hdecide
    split at hdecide
    · cases hdecide
    · next live =>
      cases hdecide
      exact .delete (Bool.eq_false_iff.mpr live)
  · intro l1 old answer _ hdecide htrue
    split at hdecide
    · cases hdecide
      cases htrue
    · cases hdecide
  · intro l1 old new answer v _ _ hdecide _
    split at hdecide
    · cases hdecide
    · cases hdecide
      exact ⟨_, rfl, wroteSchedule_head⟩

/-! ## Taking an occurrence -/

theorem keeps_occurrenceLeaseLive : Keeps lib cond i (occurrenceLeaseLive lib pending) l := by
  unfold occurrenceLeaseLive
  split
  · split
    · trivial
    · exact keeps_query fun now l1 _ _ => trivial
  · exact keeps_query fun state l1 _ _ => trivial

section

variable (hist : History (scheduling lib cond) l)

include hist

theorem keeps_swapOnce (hstored : StoredAt l version scheduleId old)
    (hwrites : ∀ l', l.PastOf l' → History (scheduling lib cond) l' →
      Writes lib l' scheduleId site old new) :
    Keeps lib cond i (swapOnce site scheduleId version new) l :=
  (meets_swapOnce hist hstored hwrites).weaken fun _ _ _ => trivial

theorem keeps_reserveDueOccurrence {occurrenceAt next : String}
    (advances : Advances lib occurrenceAt next) :
    Keeps lib cond i (reserveDueOccurrence lib scheduleId occurrenceAt next owner) l := by
  refine meets_then hist meets_readVersioned fun found l1 _ _ hfound => ?_
  cases found with
  | none => trivial
  | some read =>
    obtain ⟨sched, version⟩ := read
    have hread := hfound sched version rfl
    show Keeps lib cond i (if _ then _ else if _ then _ else _) l1
    split
    · trivial
    · next live =>
      split
      · trivial
      · next free =>
        rw [not_or, not_not, not_not] at free
        obtain ⟨hpending, rfl⟩ := free
        refine keeps_query fun process l2 h2 hist2 => ?_
        exact keeps_swapOnce hist2 (hread.mono h2) fun _ _ _ =>
          .reserveDue next owner process (Bool.eq_false_iff.mpr live) hpending advances

theorem keeps_reserveManualOccurrence {token : String} :
    Keeps lib cond i (reserveManualOccurrence lib scheduleId owner token) l := by
  refine meets_then hist meets_readVersioned fun found l1 _ _ hfound => ?_
  cases found with
  | none => trivial
  | some read =>
    obtain ⟨sched, version⟩ := read
    have hread := hfound sched version rfl
    show Keeps lib cond i (if _ then _ else if _ then _ else _) l1
    split
    · trivial
    · next live =>
      split
      · trivial
      · next free =>
        rw [not_not] at free
        refine keeps_query fun process l2 h2 hist2 => ?_
        exact keeps_swapOnce hist2 (hread.mono h2) fun _ _ _ =>
          .reserveManual _ _ owner process (Bool.eq_false_iff.mpr live) free

theorem keeps_takeoverPendingOccurrence :
    Keeps lib cond i (takeoverPendingOccurrence lib scheduleId owner) l := by
  refine meets_then hist meets_readVersioned fun found l1 _ hist1 hfound => ?_
  cases found with
  | none => trivial
  | some read =>
    obtain ⟨sched, version⟩ := read
    have hread := hfound sched version rfl
    cases hpending : sched.pendingOccurrence with
    | none =>
      simp only [hpending]
      trivial
    | some pending =>
      simp only [hpending]
      refine keeps_then hist1 keeps_occurrenceLeaseLive fun live l2 h2 _ => ?_
      show Keeps lib cond i (if _ then _ else _) l2
      split
      · trivial
      · refine keeps_query fun process l3 h3 hist3 => ?_
        exact keeps_swapOnce hist3 (hread.mono (h2.trans h3)) fun _ _ _ =>
          .takeover owner process hpending

theorem keeps_beginPendingOccurrence :
    Keeps lib cond i (beginPendingOccurrence scheduleId key owner) l := by
  refine meets_then hist meets_readVersioned fun found l1 _ hist1 hfound => ?_
  cases found with
  | none => trivial
  | some read =>
    obtain ⟨sched, version⟩ := read
    have hread := hfound sched version rfl
    cases hpending : sched.pendingOccurrence with
    | none =>
      simp only [hpending]
      trivial
    | some pending =>
      simp only [hpending]
      split
      · trivial
      · exact keeps_swapOnce hist1 hread fun _ _ _ => .begin hpending

theorem keeps_advanceDueWithoutWork {expected next : String} (advances : Advances lib expected next) :
    Keeps lib cond i (advanceDueWithoutWork scheduleId expected next) l := by
  refine meets_then hist meets_readVersioned fun found l1 _ hist1 hfound => ?_
  cases found with
  | none => trivial
  | some read =>
    obtain ⟨sched, version⟩ := read
    have hread := hfound sched version rfl
    show Keeps lib cond i (if _ then _ else _) l1
    split
    · trivial
    · next free =>
      rw [not_or, not_not, not_not] at free
      obtain ⟨hpending, rfl⟩ := free
      refine keeps_then hist1 (keeps_swapOnce hist1 hread fun _ _ _ =>
        .advance next hpending advances) fun stored l2 _ _ => ?_
      cases stored <;> trivial

end

theorem heldBy_some (h : heldBy key owner sched = some pending) :
    sched.pendingOccurrence = some pending ∧ pending.occurrenceKey = key ∧
      pending.owner = owner := by
  unfold heldBy at h
  rw [Option.filter_eq_some_iff] at h
  obtain ⟨hpending, hmatch⟩ := h
  simp only [decide_eq_true_eq] at hmatch
  exact ⟨hpending, hmatch⟩

theorem keeps_releasePendingOccurrence (hist : History (scheduling lib cond) l) :
    Keeps lib cond i (releasePendingOccurrence fuel scheduleId key owner) l := by
  refine meets_swapLoop hist ?_ (fun _ _ => trivial) (fun _ _ _ _ _ => trivial)
    fun _ _ _ _ _ _ _ _ => trivial
  intro l1 old new answer _ _ hdecide
  split at hdecide
  · cases hdecide
  · next pending hheld =>
    cases hdecide
    exact .release (heldBy_some hheld).1

theorem keeps_abandonPendingOccurrence {failure : Error} (hist : History (scheduling lib cond) l)
    (rejected : failure.rejected = true) :
    Keeps lib cond i (abandonPendingOccurrence failure fuel scheduleId key owner) l := by
  refine meets_swapLoop hist ?_ (fun _ _ => trivial) (fun _ _ _ _ _ => trivial)
    fun _ _ _ _ _ _ _ _ => trivial
  intro l1 old new answer _ _ hdecide
  split at hdecide
  · cases hdecide
  · next pending hheld =>
    cases hdecide
    exact .abandon (heldBy_some hheld).1 rejected

theorem keeps_acceptPendingOccurrence {job : Job} {firedAt : Nat}
    (hist : History (scheduling lib cond) l) (planned : Planned lib l job.runId job) :
    Keeps lib cond i (acceptPendingOccurrence lib fuel scheduleId key owner job firedAt) l := by
  refine meets_swapLoop hist ?_ (fun _ _ => trivial) (fun _ _ _ _ _ => trivial)
    fun _ _ _ _ _ _ _ _ => trivial
  intro l1 old new answer h1 _ hdecide
  split at hdecide
  · cases hdecide
  · next pending hpending =>
    split at hdecide
    · cases hdecide
    · next hmatch =>
      cases hdecide
      simp only [not_or, not_not] at hmatch
      exact .accept firedAt hpending hmatch.2.2.2 (planned.mono h1)

end Stado.Schedules
