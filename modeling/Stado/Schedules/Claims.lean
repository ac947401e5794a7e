import Stado.Library.Failure
import Stado.Schedules.Sound

/-!
# Claims on a pending occurrence

The client that reserved, took over or began an occurrence has a claim on it
until it is settled, handed back or taken over. What each step of an attempt
does to the claim of its client, when it goes through and when it fails.
-/

namespace Stado.Schedules

open CasStore Program Option

variable {lib : Libraries}

/-! ## Claims -/

/-- The write leaves its client with a claim on the occurrence. -/
def Site.claims : Site → Bool
  | .reserveDue | .reserveManual | .takeover | .begin => true
  | _ => false

/-- The write leaves the occurrence, if any, without a claim. -/
def Site.disclaims : Site → Bool
  | .release | .abandon _ | .accept => true
  | _ => false

/-- The client with the claim on the schedule's pending occurrence. -/
def claimant (id : String) : ScheduleStore → Option Nat
  | [] => none
  | e :: older =>
    if e.path = .schedule id then
      if e.site.claims then some e.author
      else if e.site.disclaims then none else claimant id older
    else claimant id older

/-- The client has no claim. -/
def Free (i : Nat) (l : ScheduleStore) : Prop := ∀ id, claimant id l ≠ some i

/-- The only claim of the client is on an occurrence of the schedule with the
property. -/
def Holds (i : Nat) (id : String) (P : ScheduleOccurrenceReservation → Prop)
    (l : ScheduleStore) : Prop :=
  ∀ id', claimant id' l = some i → id' = id ∧ ∃ sched v p,
    l.get (.schedule id) = some (.schedule sched, v) ∧ sched.pendingOccurrence = some p ∧ P p

/-- A client's beginning of an occurrence it has claimed is not refused. -/
def beginsClaimed : Condition := fun l i site change =>
  site = .begin → change = none → Free i l

/-- A call that is lost leaves its client without a claim, unless it is one of a
submission. -/
def spared : Losses Path Contents Site := fun l i site change =>
  site = .submit ∨ Free i (l.apply site i change)

/-- What every end of an attempt's part satisfies. -/
abbrev Attempts {α : Type} (lib : Libraries) (i : Nat) (p : Scheduling α)
    (Q : Except Error α → ScheduleStore → Prop) (l : ScheduleStore) : Prop :=
  p.Ensures (scheduling lib beginsClaimed) spared i Q l

variable {i : Nat} {id : String} {l l' : ScheduleStore} {e : ScheduleEntry}
  {P : ScheduleOccurrenceReservation → Prop}

theorem claimant_mem {j : Nat} (h : claimant id l = some j) : ∃ f ∈ l, f.path = .schedule id := by
  induction l with
  | nil => cases h
  | cons f older ih =>
    by_cases hpath : f.path = .schedule id
    · exact ⟨f, List.mem_cons_self, hpath⟩
    · simp only [claimant, hpath, if_false] at h
      obtain ⟨g, hg, hp⟩ := ih h
      exact ⟨g, List.mem_cons_of_mem _ hg, hp⟩

instance (i : Nat) (l : ScheduleStore) : Decidable (Free i l) :=
  decidable_of_iff (∀ e ∈ l, ∀ id ∈ e.path.scheduleId, claimant id l ≠ some i)
    ⟨fun h id hclaim => by
      obtain ⟨f, hf, hpath⟩ := claimant_mem hclaim
      exact h f hf id (by rw [hpath]; exact mem_def.mpr rfl) hclaim,
    fun h e _ id _ => h id⟩

instance (l : ScheduleStore) (i : Nat) (site : Site) (change : Option (Change Path Contents)) :
    Decidable (beginsClaimed l i site change) :=
  inferInstanceAs (Decidable (_ → _ → _))

instance (l : ScheduleStore) (i : Nat) (site : Site) (change : Option (Change Path Contents)) :
    Decidable (spared l i site change) :=
  inferInstanceAs (Decidable (_ ∨ _))

theorem Free.holds (h : Free i l) : Holds i id P l := fun id' hclaim => absurd hclaim (h id')

/-- A claim that is only on occurrences that do not exist is none. -/
theorem Holds.free (h : Holds i id P l)
    (hnot : ∀ sched v p, l.get (.schedule id) = some (.schedule sched, v) →
      sched.pendingOccurrence = some p → ¬ P p) : Free i l := by
  intro id' hclaim
  obtain ⟨-, sched, v, p, hget, hp, hP⟩ := h id' hclaim
  exact hnot sched v p hget hp hP

/-- A client that has written nothing has no claim. -/
theorem free_of_fresh (hfresh : ∀ v f, l.Held v f → f.author ≠ i) : Free i l := by
  intro id hclaim
  induction l with
  | nil => cases hclaim
  | cons f older ih =>
    have hf := hfresh _ f (Store.held_cons_self f older)
    have hrest := ih fun v g hg => hfresh v g (hg.mono (List.suffix_cons _ _))
    unfold claimant at hclaim
    split at hclaim
    · split at hclaim
      · exact hf (Option.some.inj hclaim)
      · split at hclaim
        · cases hclaim
        · exact hrest hclaim
    · exact hrest hclaim

/-! ## One write -/

theorem claimant_cons (hpath : e.path = .schedule id) : claimant id (e :: l) =
    if e.site.claims then some e.author else if e.site.disclaims then none else claimant id l := by
  simp [claimant, hpath]

theorem claimant_other (hpath : e.path ≠ .schedule id) : claimant id (e :: l) = claimant id l := by
  simp [claimant, hpath]

theorem Writes.pending_same {site : Site} {old new : Schedule}
    (h : Writes lib l id site old new) (hclaims : site.claims = false)
    (hdisclaims : site.disclaims = false) : new.pendingOccurrence = old.pendingOccurrence := by
  cases h with
  | edit change _ =>
    cases change with
    | settings _ _ _ _ => rfl
    | converge _ => rfl
    | repin pin pinTo =>
      simp only [Edit.apply]
      split <;> rfl
  | reserveDue _ _ _ _ _ _ => cases hclaims
  | reserveManual _ _ _ _ _ _ => cases hclaims
  | takeover _ _ _ => cases hclaims
  | begin _ => cases hclaims
  | release _ => cases hdisclaims
  | abandon _ _ => cases hdisclaims
  | accept _ _ _ _ => cases hdisclaims
  | _ => rfl

variable {cond : Condition}

/-- A write that claims nothing for the client leaves it no more than it had. -/
theorem Holds.step (h : Holds i id P l) (hist : History (scheduling lib cond) (e :: l))
    (hother : e.site.claims = true → e.author ≠ i) : Holds i id P (e :: l) := by
  intro id' hclaim
  have before : claimant id' l = some i ∧
      (e.path = .schedule id' → e.site.claims = false ∧ e.site.disclaims = false) := by
    by_cases hpath : e.path = .schedule id'
    · rw [claimant_cons hpath] at hclaim
      split at hclaim
      · next hclaims => exact absurd (Option.some.inj hclaim) (hother hclaims)
      · next hclaims =>
        split at hclaim
        · cases hclaim
        · next hdisclaims =>
          exact ⟨hclaim, fun _ => ⟨Bool.eq_false_iff.mpr hclaims, Bool.eq_false_iff.mpr hdisclaims⟩⟩
    · rw [claimant_other hpath] at hclaim
      exact ⟨hclaim, fun hpath' => absurd hpath' hpath⟩
  obtain ⟨rfl, sched, v, p, hget, hp, hP⟩ := h id' before.1
  refine ⟨rfl, ?_⟩
  rcases record_step hist hget with ⟨-, hsame⟩ | ⟨hpath, new, -, hwrites, hnew⟩
  · exact ⟨sched, v, p, hsame, hp, hP⟩
  · obtain ⟨hclaims, hdisclaims⟩ := before.2 hpath
    refine ⟨new, l.length, p, hnew, ?_, hP⟩
    rw [hwrites.pending_same hclaims hdisclaims]
    exact hp

theorem Holds.idle (h : Holds i id P l) (hl : l.Idle i l')
    (hist : History (scheduling lib cond) l') : Holds i id P l' :=
  hist.idle_stable hl h fun _ _ hist' hauthor hP => hP.step hist' fun _ => hauthor

theorem Free.step (h : Free i l) (hist : History (scheduling lib cond) (e :: l))
    (hother : e.site.claims = true → e.author ≠ i) : Free i (e :: l) := by
  have hholds : Holds i "" (fun _ => False) l := h.holds
  exact (hholds.step hist hother).free fun _ _ _ _ _ hfalse => hfalse

theorem Free.idle (h : Free i l) (hl : l.Idle i l')
    (hist : History (scheduling lib cond) l') : Free i l' :=
  hist.idle_stable hl h fun _ _ hist' hauthor hfree => hfree.step hist' fun _ => hauthor

variable {new : Schedule} {site : Site} {Q : ScheduleOccurrenceReservation → Prop}
  {p : ScheduleOccurrenceReservation} {version : Nat}

theorem Holds.claim (h : Holds i id P l) (hpath : e.path = .schedule id)
    (hc : e.content = some (.schedule new)) (hp : new.pendingOccurrence = some p) (hQ : Q p) :
    Holds i id Q (e :: l) := by
  intro id' hclaim
  have hid : id' = id := by
    by_cases hpath' : e.path = .schedule id'
    · rw [hpath] at hpath'
      exact (Path.schedule.inj hpath').symm
    · rw [claimant_other hpath'] at hclaim
      exact (h id' hclaim).1
  subst hid
  refine ⟨rfl, new, l.length, p, ?_, hp, hQ⟩
  rw [Store.get_cons_same hpath, hc]
  rfl

theorem Holds.disclaim (h : Holds i id P l) (hpath : e.path = .schedule id)
    (hclaims : e.site.claims = false) (hdisclaims : e.site.disclaims = true) : Free i (e :: l) := by
  intro id' hclaim
  by_cases hpath' : e.path = .schedule id'
  · rw [claimant_cons hpath', hclaims, hdisclaims] at hclaim
    cases hclaim
  · rw [claimant_other hpath'] at hclaim
    obtain ⟨rfl, -⟩ := h id' hclaim
    exact hpath' hpath

/-! ## Reads and swaps -/

/-- The site of a call whose loss must leave no claim. -/
theorem Free.of_lost (hsite : site ≠ .submit) (h : spared l i site none) : Free i l := by
  rcases h with hsubmit | hfree
  · exact absurd hsubmit hsite
  · exact hfree

/-- A read keeps the claim, or fails with none left. -/
theorem attempts_readVersioned {scheduleId : String} (hsite : site ≠ .submit) (h : Holds i id P l) :
    Attempts lib i (readVersioned site scheduleId) (fun r l' => match r with
      | .ok found => Holds i id P l' ∧
          l'.get (.schedule scheduleId) = found.map fun read => (.schedule read.1, read.2)
      | .error _ => Free i l') l := by
  refine ensures_bind (ensures_perform ?_ ?_ ?_)
  · intro l1 h1 hist1 _ _
    have hholds := h.idle h1 hist1
    simp only [Call.answer]
    cases hget : l1.get (.schedule scheduleId) with
    | none => exact ⟨hholds, hget⟩
    | some found =>
      obtain ⟨c, v⟩ := found
      obtain ⟨sched, rfl⟩ := schedule_of_get hist1 hget
      exact ⟨hholds, hget⟩
  · exact fun l1 _ _ _ hlost => Free.of_lost hsite hlost
  · exact fun l1 _ _ _ hlost => Free.of_lost hsite hlost

/-- A swap over the schedule is stored, or leaves the claim as it was, or fails
with none left. -/
theorem attempts_swap (hsite : site ≠ .submit) (h : Holds i id P l) :
    Attempts lib i (perform site (.swap (.schedule id) version (.schedule new)))
      (fun r l' => match r with
        | .ok (.stored _) => ∃ l0, l' = ⟨.schedule id, some (.schedule new), site, i⟩ :: l0 ∧
            Holds i id P l0
        | .ok .conflict => Holds i id P l' ∧ (site = .begin → Free i l')
        | _ => Free i l') l := by
  refine ensures_perform ?_ ?_ ?_
  · intro l1 h1 hist1 hcond _
    have hholds := h.idle h1 hist1
    cases hget : l1.get (.schedule id) with
    | none =>
      simp only [Call.change, Call.answer, hget, map_none, reduceCtorEq, if_false, Store.apply_none]
      refine hholds.free fun sched v p hsome _ _ => ?_
      rw [hget] at hsome
      cases hsome
    | some found =>
      obtain ⟨c, v⟩ := found
      by_cases hv : v = version
      · subst hv
        simp only [Call.change, Call.answer, hget, map_some, if_true, Store.apply_some]
        exact ⟨l1, rfl, hholds⟩
      · simp only [Call.change, Call.answer, hget, map_some, Option.some.injEq, hv,
          if_false, Store.apply_none] at hcond ⊢
        exact ⟨hholds, fun hbegin => hcond hbegin rfl⟩
  · exact fun l1 _ _ _ hlost => Free.of_lost hsite hlost
  · intro l1 _ _ _ hlost
    rcases hlost with hsubmit | hfree
    · exact absurd hsubmit hsite
    · exact hfree

theorem Site.ne_submit_of_claims (h : site.claims = true) : site ≠ .submit := by
  rintro rfl
  cases h

theorem Site.ne_submit_of_disclaims (h : site.disclaims = true) : site ≠ .submit := by
  rintro rfl
  cases h

theorem attempts_swapOnce (hclaims : site.claims = true)
    (hist : History (scheduling lib beginsClaimed) l) (h : Holds i id P l)
    (hrefused : site = .begin ∨ Free i l) (hp : new.pendingOccurrence = some p) (hQ : Q p) :
    Attempts lib i (swapOnce site id version new) (fun r l' => match r with
      | .ok (some sched) => sched = new ∧ Holds i id Q l'
      | _ => Free i l') l := by
  have claim {R : ScheduleOccurrenceReservation → Prop} (h' : Holds i id R l)
      (hrefused' : ∀ l', (Holds i id R l' ∧ (site = .begin → Free i l')) → Free i l') :
      Attempts lib i (swapOnce site id version new) (fun r l' => match r with
        | .ok (some sched) => sched = new ∧ Holds i id Q l'
        | _ => Free i l') l := by
    refine ensures_then hist (attempts_swap (Site.ne_submit_of_claims hclaims) h')
      (fun answer l1 _ hanswer => ?_) fun _ _ hfree => hfree
    cases answer with
    | stored v =>
      obtain ⟨l0, rfl, hholds⟩ := hanswer
      exact ⟨rfl, hholds.claim rfl rfl hp hQ⟩
    | conflict => exact hrefused' l1 hanswer
    | notFound => exact hanswer
  rcases hrefused with hbegin | hfree
  · exact claim h fun l' hrefused => hrefused.2 hbegin
  · exact claim (R := fun _ => False) hfree.holds fun l' hrefused =>
      hrefused.1.free fun _ _ _ _ _ hfalse => hfalse

/-- A loop that settles or hands back the client's own occurrence leaves it
without a claim. -/
theorem attempts_swapLoop {α : Type} {readSite : Site} {absent : α}
    {decide : Schedule → Except α (Schedule × α)} {fuel : Nat} (hread : readSite ≠ .submit)
    (hclaims : site.claims = false) (hdisclaims : site.disclaims = true)
    (hist : History (scheduling lib beginsClaimed) l) (h : Holds i id P l)
    (hdecided : ∀ old answer p, decide old = .error answer → old.pendingOccurrence = some p →
      ¬ P p) :
    Attempts lib i (swapLoop readSite site id absent decide fuel) (fun _ l' => Free i l') l := by
  induction fuel generalizing l with
  | zero => trivial
  | succ fuel ih =>
    refine ensures_then hist (attempts_readVersioned hread h) (fun found l1 hist1 hfound => ?_)
      fun _ _ hfree => hfree
    obtain ⟨hholds, hget⟩ := hfound
    cases found with
    | none =>
      refine hholds.free fun sched v p hsome _ _ => ?_
      rw [hget] at hsome
      cases hsome
    | some read =>
      obtain ⟨sched, version⟩ := read
      cases hdecide : decide sched with
      | error answer =>
        simp only [hdecide]
        refine hholds.free fun sched' v p hsome hp => ?_
        rw [hget] at hsome
        cases hsome
        exact hdecided sched answer p hdecide hp
      | ok decided =>
        obtain ⟨new, answer⟩ := decided
        simp only [hdecide]
        refine ensures_then hist1
          (attempts_swap (Site.ne_submit_of_disclaims hdisclaims) hholds)
          (fun swap l2 hist2 hswap => ?_) fun _ _ hfree => hfree
        cases swap with
        | stored v =>
          obtain ⟨l0, rfl, hholds'⟩ := hswap
          exact hholds'.disclaim rfl hclaims hdisclaims
        | conflict => exact ih hist2 hswap.1
        | notFound => exact hswap

end Stado.Schedules
