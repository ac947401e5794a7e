import Stado.Schedules.Sound

/-!
# An occurrence happens once

Every reservation is settled at most once, and stays the pending occurrence
until it is. A due time is reserved at most once, since the due time only ever
moves on.
-/

namespace Stado.Schedules

open CasStore List Option

variable {lib : Libraries} {p : ScheduleOccurrenceReservation} {l l' : ScheduleStore} {v : Nat}

/-! ## Reservations and settlements -/

/-- The write reserves an occurrence. -/
def Site.reserves : Site → Bool
  | .reserveDue | .reserveManual => true
  | _ => false

/-- The write settles the pending occurrence. -/
def Site.settles : Site → Bool
  | .accept | .abandon _ => true
  | _ => false

def occurrenceOf (e : ScheduleEntry) : Option ScheduleOccurrenceReservation :=
  match e.content with
  | some (.schedule sched) => sched.pendingOccurrence
  | _ => none

def origin (id : String) : ScheduleStore → Option Nat
  | [] => none
  | e :: older =>
    if e.path = .schedule id then
      if e.site.reserves then some older.length
      else if e.site.settles then none else origin id older
    else origin id older

/-- The settlements of the schedule: where each settled occurrence was reserved,
and the write that settled it. -/
def settlements (id : String) : ScheduleStore → List (Nat × ScheduleEntry)
  | [] => []
  | e :: older =>
    if e.path = .schedule id ∧ e.site.settles = true then
      ((origin id older).map (·, e)).toList ++ settlements id older
    else settlements id older

def firings (id : String) (l : ScheduleStore) : List (Nat × ScheduleEntry) :=
  (settlements id l).filter fun settlement => settlement.2.site = .accept

/-- The due times that were reserved, newest first. -/
def dueReservations (id : String) (l : ScheduleStore) : List String :=
  l.filterMap fun e =>
    if e.path = .schedule id ∧ e.site = .reserveDue then
      (occurrenceOf e).map (·.occurrenceAt)
    else none

/-- The occurrence was reserved at version `v`. -/
def ReservedAt (l : ScheduleStore) (v : Nat) (id : String)
    (p : ScheduleOccurrenceReservation) : Prop :=
  ∃ e, l.Held v e ∧ e.path = .schedule id ∧ e.site.reserves = true ∧ occurrenceOf e = some p

/-- Two reservations of one occurrence, by whomever they are held. -/
def SameOccurrence (p p' : ScheduleOccurrenceReservation) : Prop :=
  p'.occurrenceKey = p.occurrenceKey ∧ p'.occurrenceAt = p.occurrenceAt ∧ p'.runId = p.runId

theorem SameOccurrence.refl (p : ScheduleOccurrenceReservation) : SameOccurrence p p :=
  ⟨rfl, rfl, rfl⟩

theorem SameOccurrence.trans {p p' p'' : ScheduleOccurrenceReservation} (h : SameOccurrence p p')
    (h' : SameOccurrence p' p'') : SameOccurrence p p'' :=
  ⟨h'.1.trans h.1, h'.2.1.trans h.2.1, h'.2.2.trans h.2.2⟩

theorem ReservedAt.unique {l : ScheduleStore} {id : String} {p q : ScheduleOccurrenceReservation}
    (h : ReservedAt l v id p) (h' : ReservedAt l v id q) : p = q := by
  obtain ⟨e, he, -, -, hp⟩ := h
  obtain ⟨f, hf, -, -, hq⟩ := h'
  rw [he.unique hf, hq] at hp
  exact (Option.some.inj hp).symm

theorem ReservedAt.mono {id : String} (hl : l.PastOf l')
    (h : ReservedAt l v id p) : ReservedAt l' v id p := by
  obtain ⟨e, he, hrest⟩ := h
  exact ⟨e, he.mono hl, hrest⟩

def SettledAs (lib : Libraries) (l : ScheduleStore) (p : ScheduleOccurrenceReservation)
    (e : ScheduleEntry) : Prop :=
  (∃ failure : Error, e.site = .abandon failure ∧ failure.rejected = true) ∨
    (e.site = .accept ∧ ∃ sched, e.content = some (.schedule sched) ∧ sched.lastRunId = p.runId ∧
      Planned lib l p.runId ⟨sched.lastJobId, sched.lastRunId⟩)

theorem SettledAs.mono
    {e : ScheduleEntry} (hl : l.PastOf l') (h : SettledAs lib l p e) : SettledAs lib l' p e := by
  rcases h with hrejected | ⟨hsite, sched, hc, hrun, hplanned⟩
  · exact .inl hrejected
  · exact .inr ⟨hsite, sched, hc, hrun, hplanned.mono hl⟩

/-- What the schedule's record says of its occurrences. -/
structure Accounted (lib : Libraries) (id : String) (l : ScheduleStore) (sched : Schedule) :
    Prop where
  pending : match origin id l with
    | none => sched.pendingOccurrence = none
    | some v => ∃ p p', ReservedAt l v id p ∧ sched.pendingOccurrence = some p' ∧
        SameOccurrence p p'
  kept : ∀ v p, ReservedAt l v id p → origin id l = some v ∨ v ∈ (settlements id l).map Prod.fst
  distinct : ((origin id l).toList ++ (settlements id l).map Prod.fst).Nodup
  settled : ∀ settlement ∈ settlements id l, ∃ p, ReservedAt l settlement.1 id p ∧
    SettledAs lib l p settlement.2
  counted : sched.fireCount = tally^[(firings id l).length] 0

/-! ## One write -/

section Step

variable {cond : Condition} {l : ScheduleStore} {id : String} {e : ScheduleEntry}
  {old new : Schedule}

/-- What a write makes of the pending occurrence: it reserves one, settles it,
or keeps it. -/
theorem Writes.pending {site : Site} (h : Writes lib l id site old new) :
    (site.reserves = true ∧ old.pendingOccurrence = none ∧
        new.pendingOccurrence.isSome ∧ new.fireCount = old.fireCount) ∨
      (site.settles = true ∧ new.pendingOccurrence = none ∧ ∃ p, old.pendingOccurrence = some p ∧
          ((∃ failure : Error, site = .abandon failure ∧ failure.rejected = true ∧
              new.fireCount = old.fireCount) ∨
            (site = .accept ∧ new.lastRunId = p.runId ∧ new.fireCount = tally old.fireCount ∧
              Planned lib l p.runId ⟨new.lastJobId, new.lastRunId⟩))) ∨
      (site.reserves = false ∧ site.settles = false ∧ new.fireCount = old.fireCount ∧
        Option.Rel SameOccurrence old.pendingOccurrence new.pendingOccurrence) := by
  have same : Option.Rel SameOccurrence old.pendingOccurrence old.pendingOccurrence := by
    cases old.pendingOccurrence with
    | none => exact .none
    | some p => exact .some (.refl p)
  cases h with
  | setEnabled _ _ _ => exact .inr (.inr ⟨rfl, rfl, rfl, same⟩)
  | edit change _ =>
    refine .inr (.inr ⟨rfl, rfl, ?_⟩)
    cases change with
    | settings _ _ _ _ => exact ⟨rfl, same⟩
    | converge _ => exact ⟨rfl, same⟩
    | repin pin pinTo =>
      simp only [Edit.apply]
      split
      · exact ⟨rfl, same⟩
      · exact ⟨rfl, same⟩
  | delete _ => exact .inr (.inr ⟨rfl, rfl, rfl, same⟩)
  | reserveDue _ _ _ _ free _ => exact .inl ⟨rfl, free, rfl, rfl⟩
  | reserveManual _ _ _ _ _ free => exact .inl ⟨rfl, free, rfl, rfl⟩
  | takeover _ _ taken =>
    refine .inr (.inr ⟨rfl, rfl, rfl, ?_⟩)
    rw [taken]
    exact .some ⟨rfl, rfl, rfl⟩
  | begin claimed =>
    refine .inr (.inr ⟨rfl, rfl, rfl, ?_⟩)
    rw [claimed]
    exact .some ⟨rfl, rfl, rfl⟩
  | advance _ _ _ => exact .inr (.inr ⟨rfl, rfl, rfl, same⟩)
  | release held =>
    refine .inr (.inr ⟨rfl, rfl, rfl, ?_⟩)
    rw [held]
    exact .some ⟨rfl, rfl, rfl⟩
  | abandon held rejected =>
    exact .inr (.inl ⟨rfl, rfl, _, held, .inl ⟨_, rfl, rejected, rfl⟩⟩)
  | accept _ held run planned =>
    refine .inr (.inl ⟨rfl, rfl, _, held, .inr ⟨rfl, run.symm, rfl, ?_⟩⟩)
    rw [run]
    exact planned

theorem origin_other (hpath : e.path ≠ .schedule id) : origin id (e :: l) = origin id l := by
  simp [origin, hpath]

theorem settlements_other (hpath : e.path ≠ .schedule id) :
    settlements id (e :: l) = settlements id l := by
  simp [settlements, hpath]

theorem reservedAt_cons (h : ReservedAt (e :: l) v id p) :
    (v = l.length ∧ e.path = .schedule id ∧ e.site.reserves = true ∧ occurrenceOf e = some p) ∨
      ReservedAt l v id p := by
  obtain ⟨f, hf, hrest⟩ := h
  rcases Store.held_cons.mp hf with ⟨rfl, rfl⟩ | hf
  · exact .inl ⟨rfl, hrest⟩
  · exact .inr ⟨f, hf, hrest⟩

theorem Accounted.mono_settled {l' : ScheduleStore} (hl : l.PastOf l')
    {settlement : Nat × ScheduleEntry}
    (h : ∃ p, ReservedAt l settlement.1 id p ∧ SettledAs lib l p settlement.2) :
    ∃ p, ReservedAt l' settlement.1 id p ∧ SettledAs lib l' p settlement.2 := by
  obtain ⟨p, hreserved, hsettled⟩ := h
  exact ⟨p, hreserved.mono hl, hsettled.mono hl⟩

theorem Accounted.keep (h : Accounted lib id l old)
    (hreserves : e.path = .schedule id → e.site.reserves = false)
    (hsettles : e.path = .schedule id → e.site.settles = false)
    (hcount : new.fireCount = old.fireCount)
    (hsame : Option.Rel SameOccurrence old.pendingOccurrence new.pendingOccurrence) :
    Accounted lib id (e :: l) new := by
  have hl : l.PastOf (e :: l) := suffix_cons _ _
  have horigin : origin id (e :: l) = origin id l := by
    by_cases hpath : e.path = .schedule id
    · simp [origin, hpath, hreserves hpath, hsettles hpath]
    · exact origin_other hpath
  have hsettlements : settlements id (e :: l) = settlements id l := by
    by_cases hpath : e.path = .schedule id
    · simp [settlements, hsettles hpath]
    · exact settlements_other hpath
  refine ⟨?_, fun v p hp => ?_, ?_, fun settlement hs => ?_, ?_⟩
  · have hpending := h.pending
    rw [horigin]
    cases horigin' : origin id l with
    | none =>
      rw [horigin'] at hpending
      simp only [] at hpending ⊢
      rw [hpending] at hsame
      cases hnew : new.pendingOccurrence with
      | none => rfl
      | some p =>
        rw [hnew] at hsame
        cases hsame
    | some v =>
      rw [horigin'] at hpending
      obtain ⟨p, p', hreserved, hold, hsame'⟩ := hpending
      rw [hold] at hsame
      cases hnew : new.pendingOccurrence with
      | none =>
        rw [hnew] at hsame
        cases hsame
      | some p'' =>
        rw [hnew] at hsame
        cases hsame with
        | some hsame'' =>
          exact ⟨p, p'', hreserved.mono hl, rfl, hsame'.trans hsame''⟩
  · rw [horigin, hsettlements]
    rcases reservedAt_cons hp with ⟨-, hpath, hsite, -⟩ | hp
    · rw [hreserves hpath] at hsite
      cases hsite
    · exact h.kept v p hp
  · rw [horigin, hsettlements]
    exact h.distinct
  · rw [hsettlements] at hs
    exact Accounted.mono_settled hl (h.settled settlement hs)
  · rw [firings, hsettlements, hcount]
    exact h.counted

theorem Accounted.reserve (h : Accounted lib id l old) (hpath : e.path = .schedule id)
    (hc : e.content = some (.schedule new)) (hreserves : e.site.reserves = true)
    (hsettles : e.site.settles = false)
    (hfree : old.pendingOccurrence = none) (hsome : new.pendingOccurrence.isSome)
    (hcount : new.fireCount = old.fireCount) : Accounted lib id (e :: l) new := by
  have hl : l.PastOf (e :: l) := suffix_cons _ _
  obtain ⟨p, hp⟩ := isSome_iff_exists.mp hsome
  have hoccurrence : occurrenceOf e = some p := by rw [occurrenceOf, hc, ← hp]
  have hreserved : ReservedAt (e :: l) l.length id p :=
    ⟨e, Store.held_cons_self _ _, hpath, hreserves, hoccurrence⟩
  have horigin : origin id (e :: l) = some l.length := by simp [origin, hpath, hreserves]
  have hsettlements : settlements id (e :: l) = settlements id l := by
    simp [settlements, hsettles]
  have hnone : origin id l = none := by
    cases horigin' : origin id l with
    | none => rfl
    | some v =>
      have hpending := h.pending
      rw [horigin'] at hpending
      obtain ⟨q, q', -, hold, -⟩ := hpending
      rw [hfree] at hold
      cases hold
  have hdistinct := h.distinct
  rw [hnone, toList_none, nil_append] at hdistinct
  refine ⟨?_, fun v q hq => ?_, ?_, fun settlement hs => ?_, ?_⟩
  · rw [horigin]
    exact ⟨p, p, hreserved, hp, .refl p⟩
  · rw [horigin, hsettlements]
    rcases reservedAt_cons hq with ⟨rfl, -⟩ | hq
    · exact .inl rfl
    · rcases h.kept v q hq with hstands | hsettled
      · rw [hnone] at hstands
        cases hstands
      · exact .inr hsettled
  · rw [horigin, hsettlements, toList_some, singleton_append, nodup_cons]
    refine ⟨fun hmem => ?_, hdistinct⟩
    -- A settled occurrence was reserved in the past, this one just now.
    obtain ⟨settlement, hs, hv⟩ := List.mem_map.mp hmem
    obtain ⟨q, ⟨f, hf, -⟩, -⟩ := h.settled settlement hs
    have hlt := hf.lt
    omega
  · rw [hsettlements] at hs
    exact Accounted.mono_settled hl (h.settled settlement hs)
  · rw [firings, hsettlements, hcount]
    exact h.counted

theorem Accounted.settle (h : Accounted lib id l old) (hpath : e.path = .schedule id)
    (hreserves : e.site.reserves = false) (hsettles : e.site.settles = true)
    (hnone : new.pendingOccurrence = none) {p' : ScheduleOccurrenceReservation}
    (hold : old.pendingOccurrence = some p')
    (hsettled : ∀ p, SameOccurrence p p' → SettledAs lib l p e)
    (hcount : new.fireCount = if e.site = .accept then tally old.fireCount else old.fireCount) :
    Accounted lib id (e :: l) new := by
  have hl : l.PastOf (e :: l) := suffix_cons _ _
  have hpending := h.pending
  cases horigin' : origin id l with
  | none =>
    rw [horigin'] at hpending
    rw [hold] at hpending
    cases hpending
  | some v =>
    rw [horigin'] at hpending
    obtain ⟨p, q, hreserved, hq, hsame⟩ := hpending
    rw [hold] at hq
    cases hq
    have horigin : origin id (e :: l) = none := by simp [origin, hpath, hreserves, hsettles]
    have hsettlements : settlements id (e :: l) = (v, e) :: settlements id l := by
      simp [settlements, hpath, hsettles, horigin']
    have hdistinct := h.distinct
    rw [horigin'] at hdistinct
    refine ⟨?_, fun w q hq => ?_, ?_, fun settlement hs => ?_, ?_⟩
    · rw [horigin]
      exact hnone
    · rw [hsettlements, map_cons, mem_cons]
      rcases reservedAt_cons hq with ⟨-, -, hsite, -⟩ | hq
      · rw [hreserves] at hsite
        cases hsite
      · rcases h.kept w q hq with hstands | hsettledBefore
        · rw [horigin'] at hstands
          cases hstands
          exact .inr (.inl rfl)
        · exact .inr (.inr hsettledBefore)
    · rw [horigin, hsettlements]
      exact hdistinct
    · rw [hsettlements] at hs
      rcases mem_cons.mp hs with rfl | hs
      · exact ⟨p, hreserved.mono hl, (hsettled p hsame).mono hl⟩
      · exact Accounted.mono_settled hl (h.settled settlement hs)
    · rw [firings, hsettlements, hcount, filter_cons]
      have hcounted := h.counted
      rw [firings] at hcounted
      by_cases haccept : e.site = .accept
      · simp only [haccept, decide_true, if_true, length_cons]
        rw [Function.iterate_succ_apply', ← hcounted]
      · simp only [haccept, decide_false, if_false, Bool.false_eq_true]
        exact hcounted

/-- A schedule that was never declared has no occurrence. -/
theorem unreserved_of_absent (h : History (scheduling lib cond) l)
    (habsent : l.get (.schedule id) = none) :
    (∀ v f, l.Held v f → f.path ≠ .schedule id) ∧ origin id l = none ∧ settlements id l = [] := by
  have fresh : ∀ v f, l.Held v f → f.path ≠ .schedule id := by
    intro v f hf hp
    have hsome := get_ne_none h hf
    rw [hp] at hsome
    exact hsome habsent
  refine ⟨fresh, ?_⟩
  clear h habsent
  induction l with
  | nil => exact ⟨rfl, rfl⟩
  | cons f older ih =>
    have hf : f.path ≠ .schedule id := fresh older.length f (Store.held_cons_self f older)
    rw [origin_other hf, settlements_other hf]
    exact ih fun v g hg => fresh v g (hg.mono (suffix_cons _ _))

theorem Accounted.declared (h : History (scheduling lib cond) l) (hpath : e.path = .schedule id)
    (hdeclares : Declares l id e.site new) : Accounted lib id (e :: l) new := by
  have hsite := hdeclares.site
  obtain ⟨fresh, horigin, hsettlements⟩ := unreserved_of_absent h hdeclares.absent
  have horigin' : origin id (e :: l) = none := by
    simp [origin, hpath, hsite, Site.reserves, Site.settles, horigin]
  have hsettlements' : settlements id (e :: l) = [] := by
    simp [settlements, hsite, Site.settles, hsettlements]
  refine ⟨?_, fun v p hp => ?_, ?_, fun settlement hs => ?_, ?_⟩
  · rw [horigin']
    exact hdeclares.unreserved
  · rcases reservedAt_cons hp with ⟨-, -, hreserves, -⟩ | ⟨f, hf, hp', -⟩
    · rw [hsite] at hreserves
      cases hreserves
    · exact absurd hp' (fresh v f hf)
  · rw [horigin', hsettlements']
    exact nodup_nil
  · rw [hsettlements'] at hs
    cases hs
  · rw [firings, hsettlements', hdeclares.unfired]
    rfl

end Step

/-! ## Histories -/

/-- Enablement and edits leave the due time as it is. -/
def keepsDue : Condition := fun l _ site change =>
  match site, change with
  | .setEnabled, some (.schedule id, some (.schedule new))
  | .edit, some (.schedule id, some (.schedule new)) =>
    match l.get (.schedule id) with
    | some (.schedule old, _) => new.nextDueAt = old.nextDueAt
    | _ => True
  | _, _ => True

instance (l : ScheduleStore) (i : Nat) (site : Site) (change : Option (Change Path Contents)) :
    Decidable (keepsDue l i site change) := by
  unfold keepsDue
  split
  · split <;> infer_instance
  · split <;> infer_instance
  · infer_instance

section History

variable {cond : Condition} {l : ScheduleStore} {id : String} {e : ScheduleEntry}
  {old new : Schedule}

theorem accounted (h : History (scheduling lib cond) l) :
    ∀ sched v, l.get (.schedule id) = some (.schedule sched, v) → Accounted lib id l sched := by
  induction h with
  | nil =>
    intro sched v hget
    cases hget
  | @cons s e older allowed hcond ih =>
    intro sched v hget
    have hist := History.cons older allowed hcond
    rcases record_cases hist hget with ⟨hpath, hold⟩ | ⟨hpath, hc, hdeclares | ⟨old, w, hold,
      hwrites⟩⟩
    · refine (ih sched v hold).keep (fun h => absurd h hpath) (fun h => absurd h hpath) rfl ?_
      cases sched.pendingOccurrence with
      | none => exact .none
      | some p => exact .some (.refl p)
    · exact Accounted.declared older hpath hdeclares
    · have hacc := ih old w hold
      rcases hwrites.pending with ⟨hreserves, hfree, hsome, hcount⟩ | ⟨hsettles, hnone, p, hp,
        hhow⟩ | ⟨hreserves, hsettles, hcount, hsame⟩
      · refine hacc.reserve hpath hc hreserves ?_ hfree hsome hcount
        cases hsite : e.site <;> rw [hsite] at hreserves <;> first | rfl | cases hreserves
      · refine hacc.settle hpath ?_ hsettles hnone hp (fun q hq => ?_) ?_
        · cases hsite : e.site <;> rw [hsite] at hsettles <;> first | rfl | cases hsettles
        · rcases hhow with ⟨failure, hsite, hrejected, -⟩ | ⟨hsite, hrun, -, hplanned⟩
          · exact .inl ⟨failure, hsite, hrejected⟩
          · refine .inr ⟨hsite, sched, hc, hrun.trans hq.2.2, ?_⟩
            rw [← hq.2.2]
            exact hplanned
        · rcases hhow with ⟨failure, hsite, -, hcount⟩ | ⟨hsite, -, hcount, -⟩
          · rw [hsite, if_neg (by rintro ⟨⟩)]
            exact hcount
          · rw [hsite, if_pos rfl]
            exact hcount
      · exact hacc.keep (fun _ => hreserves) (fun _ => hsettles) hcount hsame

theorem Advances.trans {a b c : String} (h : Advances lib a b) (h' : Advances lib b c) :
    Advances lib a c := by
  obtain ⟨t, t', ht, ht', hlt⟩ := h
  obtain ⟨u, u', hu, hu', hlt'⟩ := h'
  rw [ht'] at hu
  cases hu
  exact ⟨t, u', ht, hu', by omega⟩

theorem not_advances_self {a : String} : ¬ Advances lib a a := by
  rintro ⟨t, t', ht, ht', hlt⟩
  rw [ht] at ht'
  cases ht'
  exact absurd hlt (Nat.lt_irrefl _)

/-- The due time stays as it is or moves on, unless an enabling write or an edit
resets it. -/
theorem Writes.due {site : Site} (h : Writes lib l id site old new) :
    new.nextDueAt = old.nextDueAt ∨ Advances lib old.nextDueAt new.nextDueAt ∨
      site = .setEnabled ∨ site = .edit := by
  cases h with
  | setEnabled _ _ _ => exact .inr (.inr (.inl rfl))
  | edit _ _ => exact .inr (.inr (.inr rfl))
  | delete _ => exact .inl rfl
  | reserveDue _ _ _ _ _ advances => exact .inr (.inl advances)
  | reserveManual _ _ _ _ _ _ => exact .inl rfl
  | takeover _ _ _ => exact .inl rfl
  | begin _ => exact .inl rfl
  | advance _ _ advances => exact .inr (.inl advances)
  | _ => exact .inl rfl

/-- A due reservation is of the due time that stood, and moves it on. -/
theorem Writes.reservesDue (h : Writes lib l id .reserveDue old new) :
    new.pendingOccurrence.map (·.occurrenceAt) = some old.nextDueAt ∧
      Advances lib old.nextDueAt new.nextDueAt := by
  cases h with
  | reserveDue _ _ _ _ _ advances => exact ⟨rfl, advances⟩

/-- Every due time reserved so far lies before the one that stands. -/
theorem due_once (h : History (scheduling lib keepsDue) l) :
    (∀ sched v, l.get (.schedule id) = some (.schedule sched, v) →
      ∀ at_ ∈ dueReservations id l, Advances lib at_ sched.nextDueAt) ∧
      (dueReservations id l).Nodup := by
  induction h with
  | nil =>
    refine ⟨fun sched v hget => ?_, nodup_nil⟩
    cases hget
  | @cons s e older allowed hcond ih =>
    have hist := History.cons older allowed hcond
    obtain ⟨hbefore, hnodup⟩ := ih
    by_cases hdue : e.path = .schedule id ∧ e.site = .reserveDue
    · -- The write reserves the due time that stood.
      have hpath := hdue.1
      have hsite := hdue.2
      have hallowed : Allowed lib s e := allowed
      rw [Allowed, hpath, hsite] at hallowed
      split at hallowed
      · next heq _ => cases heq
      · next new heq hc =>
        cases heq
        rcases hallowed with hdeclares | ⟨old, w, hold, hwrites⟩
        · cases hdeclares.site
        · obtain ⟨hat, hadvances⟩ := hwrites.reservesDue
          have hcons : dueReservations id (e :: s) = old.nextDueAt :: dueReservations id s := by
            simp [dueReservations, hpath, hsite, occurrenceOf, hc, hat]
          rw [hcons]
          refine ⟨fun sched v hget at_ hmem => ?_, nodup_cons.mpr ⟨fun hmem => ?_, hnodup⟩⟩
          · rw [Store.get_cons_same hpath, hc] at hget
            cases hget
            rcases mem_cons.mp hmem with rfl | hmem
            · exact hadvances
            · exact (hbefore old w hold at_ hmem).trans hadvances
          · exact not_advances_self (hbefore old w hold _ hmem)
      · exact hallowed.elim
    · have hcons : dueReservations id (e :: s) = dueReservations id s := by
        simp [dueReservations, hdue]
      rw [hcons]
      refine ⟨fun sched v hget at_ hmem => ?_, hnodup⟩
      rcases record_cases hist hget with ⟨-, hold⟩ | ⟨hpath, hc, hdeclares | ⟨old, w, hold,
        hwrites⟩⟩
      · exact hbefore sched v hold at_ hmem
      · -- Nothing was reserved of a schedule that did not exist.
        obtain ⟨f, hf, hat⟩ := mem_filterMap.mp hmem
        obtain ⟨u, hu⟩ := Store.held_of_mem hf
        have hsome := get_ne_none older hu
        split at hat
        · next hfpath =>
          rw [hfpath.1] at hsome
          exact absurd hdeclares.absent hsome
        · cases hat
      · have hlast := hbefore old w hold at_ hmem
        rcases hwrites.due with hsame | hadvances | hsite
        · rw [hsame]
          exact hlast
        · exact hlast.trans hadvances
        · have hkeeps : keepsDue s e.author e.site (some (e.path, e.content)) := hcond
          rw [hpath, hc] at hkeeps
          rcases hsite with hsite | hsite
          · rw [hsite] at hkeeps
            simp only [keepsDue, hold] at hkeeps
            rw [hkeeps]
            exact hlast
          · rw [hsite] at hkeeps
            simp only [keepsDue, hold] at hkeeps
            rw [hkeeps]
            exact hlast

theorem planned_once {runId : String} {v w : Nat} {m m' : RunManifest}
    (hist : History (scheduling lib cond) l) (h : PlannedAt l v runId m)
    (h' : PlannedAt l w runId m') : m.request = m'.request ∧ m.hardware = m'.hardware := by
  have hsome : l.get (.run runId) ≠ none := by
    obtain ⟨e, he, hp, -⟩ := h
    rw [← hp]
    exact get_ne_none hist he
  obtain ⟨⟨c, u⟩, hget⟩ := ne_none_iff_exists'.mp hsome
  obtain ⟨standing, rfl⟩ := run_of_get hist hget
  obtain ⟨hr, hh⟩ := same_plan hist h hget
  obtain ⟨hr', hh'⟩ := same_plan hist h' hget
  exact ⟨hr.trans hr'.symm, hh.trans hh'.symm⟩

end History

structure OccurrencesOnce (lib : Libraries) (l : ScheduleStore) (id : String) : Prop where
  /-- No due time is reserved twice. -/
  reserved : (dueReservations id l).Nodup
  /-- No reservation is settled twice. -/
  settled : ((settlements id l).map Prod.fst).Nodup
  /-- A settled occurrence fired its own run, or was rejected. -/
  settledAs : ∀ settlement ∈ settlements id l, ∃ p, ReservedAt l settlement.1 id p ∧
    SettledAs lib l p settlement.2
  /-- An occurrence that is not settled is pending. -/
  kept : ∀ v p, ReservedAt l v id p → v ∈ (settlements id l).map Prod.fst ∨
    ∃ sched w p', l.get (.schedule id) = some (.schedule sched, w) ∧
      sched.pendingOccurrence = some p' ∧ SameOccurrence p p'
  /-- Each firing is counted. -/
  counted : ∀ sched v, l.get (.schedule id) = some (.schedule sched, v) →
    sched.fireCount = tally^[(firings id l).length] 0
  /-- Every submission of a run has the same request and the same job. -/
  planned : ∀ runId v w m m', PlannedAt l v runId m → PlannedAt l w runId m' →
    m.request = m'.request ∧ m.job lib = m'.job lib

/-- A sweep reserves the occurrence of minute one and its process ends while it
submits. The next sweep takes the occurrence over, submits it again and settles
it. -/
def takenOver : List ScheduleEvent :=
  [.start (.declare everyMinute) 0, .call 0, .start (.sweep 60000000) 2, .call 1, .call 1,
    .answer 1 (.word "o1"), .call 1, .answer 1 (.process ⟨"h", 1⟩), .call 1, .call 1, .call 1,
    .answer 1 (.said none), .call 1, .answer 1 (.charged none), .answer 1 (.hardware (.ok "cpu")),
    .call 1, .stop 1, .start (.sweep 120000000) 2, .call 2, .call 2, .answer 2 (.word "o2"),
    .call 2, .answer 2 (.ownerState .gone), .answer 2 (.process ⟨"h", 2⟩), .call 2, .call 2,
    .call 2, .answer 2 (.said none), .call 2, .answer 2 (.charged none),
    .answer 2 (.admitted none), .call 2, .call 2, .call 2, .call 2]

end Stado.Schedules
