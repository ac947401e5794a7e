import Mathlib.Algebra.BigOperators.Group.List.Basic
import Stado.Builds.Budget

/-!
# The build budget is kept

A charge that the registry takes was judged against the document it replaces,
because the swap compares generations. So the charges of one day never pass
the ceiling and its approvals, as long as the day of the entry only moves
forward: a charge that dates the entry back drops the count of the later day,
and that day is then spent again.
-/

namespace Stado.Builds

open Machine List Option Function Approval Charge

/-! ## What the charges of a day come to -/

section Log

variable (log : List Charge) (day : Day)

def chargesOn : List Charge := log.filter fun charge => charge.day = day

def chargedOn : ℕ := ((chargesOn log day).map builds).sum

def keysOn : List String := (chargesOn log day).map key

/-- The approvals that paid for a build of the day. -/
def approvedOn : ℕ := ((chargesOn log day).filterMap receipt).length

variable {day} (charge : Charge)

theorem chargesOn_cons_self (h : charge.day = day) :
    chargesOn (charge :: log) day = charge :: chargesOn log day :=
  filter_cons_of_pos (decide_eq_true h)

theorem chargesOn_cons_ne (h : charge.day ≠ day) :
    chargesOn (charge :: log) day = chargesOn log day :=
  filter_cons_of_neg (by simpa using h)

theorem chargedOn_cons_self (h : charge.day = day) :
    chargedOn (charge :: log) day = charge.builds + chargedOn log day := by
  rw [chargedOn, chargesOn_cons_self log charge h, map_cons, sum_cons, chargedOn]

theorem keysOn_cons_self (h : charge.day = day) :
    keysOn (charge :: log) day = charge.key :: keysOn log day := by
  rw [keysOn, chargesOn_cons_self log charge h, map_cons, keysOn]

theorem approvedOn_cons_self (h : charge.day = day) :
    approvedOn (charge :: log) day = charge.receipt.toList.length + approvedOn log day := by
  rw [approvedOn, chargesOn_cons_self log charge h, filterMap_cons, approvedOn]
  cases charge.receipt with
  | none => simp
  | some key => simp [Nat.add_comm]

theorem receipts_cons : (charge :: log).filterMap receipt =
    charge.receipt.toList ++ log.filterMap receipt := by
  rw [filterMap_cons]
  cases charge.receipt <;> rfl

variable {log}

theorem chargesOn_eq_nil (h : ∀ charge ∈ log, charge.day ≠ day) : chargesOn log day = [] := by
  refine filter_eq_nil_iff.mpr fun charge hcharge hday => ?_
  exact h charge hcharge (of_decide_eq_true hday)

end Log

/-- From a starting registry: what was spent and is charged since stays within
the ceiling and the approvals, a submission is charged once a day, an approval
pays once, and a refused charge is none that the registry took. -/
structure WithinBudget (start : Registry) (w : World) : Prop where
  total : ∀ day, (BuildBudget.read start day).used + chargedOn w.log day ≤
    max (BuildBudget.read start day).limit (BuildBudget.read start day).used + approvedOn w.log day
  once : ∀ day, (keysOn w.log day).Nodup ∧
    ∀ key ∈ keysOn w.log day, key ∉ (BuildBudget.read start day).charged
  receipts : (w.log.filterMap receipt).Nodup
  refused : ∀ process reason, w.phases process = .ended (.refused reason) →
    ∀ charge ∈ w.log, charge.process ≠ process

/-! ## What a charge writes -/

def entryDay (document : Registry) : Option Day := document.budget.bind BudgetEntry.day

theorem read_limit_le (document : Registry) (today : Day) :
    (BuildBudget.read document today).limit ≤ u64Max := by
  unfold BuildBudget.read
  cases hlimit : (document.budget.bind BudgetEntry.limit).bind asU64 with
  | none => simp [defaultDailyBuildLimit, u64Max]
  | some limit =>
    obtain ⟨number, -, hnumber⟩ := bind_eq_some_iff.mp hlimit
    unfold asU64 at hnumber
    split at hnumber
    · next hle =>
      cases hnumber
      exact hle
    · cases hnumber

variable {document : Registry}

/-- A day the entry is not of has only what the recipes say, and no keys. -/
theorem read_other_day {today : Day} (h : entryDay document ≠ some today) :
    (BuildBudget.read document today).used = runsSubmittedOn document today ∧
      (BuildBudget.read document today).charged = [] := by
  have hnone : document.budget.filter (fun entry => entry.day = some today) = none := by
    cases hbudget : document.budget with
    | none => rfl
    | some entry =>
      rw [entryDay, hbudget, bind_some] at h
      simp [Option.filter, h]
  unfold BuildBudget.read
  rw [hnone]
  simp

/-- The written document was judged against the one it was made from. -/
structure Pays (document : Registry) (today : Day) (submission : Submission)
    (receipt : Option ReceiptKey) (written : Registry) : Prop where
  fresh : submission.key ∉ (BuildBudget.read document today).charged
  within : receipt = none → submission.wanted ≤ (BuildBudget.read document today).remaining
  single : receipt ≠ none → submission.wanted = 1
  unused : ∀ key, receipt = some key → key ∉ document.approvals.kept
  budget : written.budget = some
    { day := some today
      used := some (saturatingAdd (BuildBudget.read document today).used submission.wanted)
      limit := some (BuildBudget.read document today).limit
      charged := some ((BuildBudget.read document today).charged ++ [submission.key]) }
  runs : written.runs = document.runs
  book : ∀ key, key ∈ document.approvals.kept ∨ receipt = some key → key ∈ written.approvals.kept

structure Asks (document : Registry) (today : Day) (submission : Submission) : Prop where
  fresh : submission.key ∉ (BuildBudget.read document today).charged
  uncharged : charged document submission.key = false
  single : submission.wanted = 1

section Judged

variable {document : Registry} {today : Day} {submission : Submission} {written : Registry}
  {intent : BuildIntent} {refusal : String} {key : ReceiptKey}

theorem record_eq {budget : BuildBudget} (hwanted : submission.wanted ≠ 0)
    (hfresh : submission.key ∉ budget.charged) :
    budget.record document submission.wanted [submission.key] = { document with
        budget := some
          { day := some budget.day
            used := some (saturatingAdd budget.used submission.wanted)
            limit := some budget.limit
            charged := some (budget.charged ++ [submission.key]) } } := by
  simp [BuildBudget.record, hwanted, hfresh]

theorem judge_fresh (h : judge document today submission ≠ .paid) :
    submission.key ∉ (BuildBudget.read document today).charged ∧
      charged document submission.key = false := by
  constructor
  · intro hmem
    refine h ?_
    unfold judge
    rw [if_pos]
    simp [BuildBudget.alreadyCharged, hmem]
  · by_contra hcharged
    refine h ?_
    unfold judge
    rw [if_pos]
    simp [Bool.not_eq_false _ ▸ hcharged]

theorem pays_of_writes (hwanted : submission.wanted ≠ 0)
    (h : judge document today submission = .writes written) :
    Pays document today submission none written := by
  have hjudged : judge document today submission ≠ .paid := by
    rw [h]
    simp
  obtain ⟨hfresh, -⟩ := judge_fresh hjudged
  unfold judge at h
  dsimp only at h
  split at h
  · cases h
  · split at h
    · next hrefusal =>
      cases h
      rw [record_eq hwanted hfresh]
      refine ⟨hfresh, fun _ => ?_, fun hnone => absurd rfl hnone, ?_, rfl, rfl, ?_⟩
      · by_contra hover
        simp [BuildBudget.refusal, hover] at hrefusal
      · intro key hkey
        cases hkey
      · rintro key (hkey | hkey)
        · exact hkey
        · cases hkey
    · split at h <;> cases h

theorem asks_of_judge (h : judge document today submission = .asks intent refusal) :
    Asks document today submission := by
  have hjudged : judge document today submission ≠ .paid := by
    rw [h]
    simp
  obtain ⟨hfresh, huncharged⟩ := judge_fresh hjudged
  refine ⟨hfresh, huncharged, ?_⟩
  unfold judge at h
  dsimp only at h
  split at h
  · cases h
  · split at h
    · cases h
    · split at h
      · cases h
      · next hintent =>
        have hsingle := (filter_eq_some_iff.mp hintent).2
        exact of_decide_eq_true hsingle

/-- Recording an approval adds its receipt and nothing else. -/
theorem record_receipt {entry : ApprovalEntry} {platform runId : String}
    (h : record document entry platform runId = .ok (written, key))
    (huncharged : charged document runId = false) :
    key ∉ document.approvals.kept ∧ written.budget = document.budget ∧
      written.runs = document.runs ∧
      ∀ other, other ∈ document.approvals.kept ∨ some key = some other →
        other ∈ written.approvals.kept := by
  unfold record at h
  cases hkey : receiptKey entry platform with
  | error outcome => simp [hkey, bind, Except.bind] at h
  | ok found =>
    simp only [hkey, bind, Except.bind] at h
    split at h
    · cases h
    · split at h
      · next previous hprevious =>
        split at h
        · next hown =>
          refine absurd huncharged ?_
          have hmem := AList.mem_lookup_iff.mp hprevious
          rw [Bool.not_eq_false]
          exact List.any_eq_true.mpr ⟨_, hmem, decide_eq_true hown⟩
        · cases h
      · next hnone =>
        cases h
        refine ⟨AList.lookup_eq_none.mp hnone, rfl, rfl, ?_⟩
        rintro other (hother | hother)
        · exact (AList.mem_insert _).mpr (.inr hother)
        · cases hother
          exact (AList.mem_insert _).mpr (.inl rfl)

theorem pays_of_approve (hasks : Asks document today submission)
    {answer : Except String ApprovalEntry}
    (h : approve document today submission intent refusal answer = .ok (written, key)) :
    Pays document today submission (some key) written := by
  have hwanted : submission.wanted ≠ 0 := by
    rw [hasks.single]
    exact Nat.one_ne_zero
  unfold approve at h
  split at h
  · cases h
  · rw [record_eq hwanted hasks.fresh] at h
    obtain ⟨hunused, hbudget, hruns, hbook⟩ := record_receipt h hasks.uncharged
    refine ⟨hasks.fresh, fun hnone => ?_, fun _ => hasks.single, ?_, hbudget, hruns, hbook⟩
    · cases hnone
    · intro other hother
      cases hother
      exact hunused

variable {receipt : Option ReceiptKey} {written : Registry}

section

variable (h : Pays document today submission receipt written)

include h

theorem Pays.used :
    saturatingAdd (BuildBudget.read document today).used submission.wanted ≤
      (BuildBudget.read written today).used := by
  have hfits : asU64 (saturatingAdd (BuildBudget.read document today).used submission.wanted) =
      some (saturatingAdd (BuildBudget.read document today).used submission.wanted) :=
    if_pos (Nat.min_le_right _ _)
  have hused : (BuildBudget.read written today).used =
      max (saturatingAdd (BuildBudget.read document today).used submission.wanted)
        (runsSubmittedOn written today) := by
    conv_lhs => unfold BuildBudget.read
    simp [h.budget, Option.filter, hfits]
  rw [hused]
  exact Nat.le_max_left _ _

theorem Pays.limit (day : Day) :
    (BuildBudget.read written day).limit = (BuildBudget.read document today).limit := by
  have hfits : asU64 (BuildBudget.read document today).limit =
      some (BuildBudget.read document today).limit := if_pos (read_limit_le document today)
  conv_lhs => unfold BuildBudget.read
  simp [h.budget, hfits]

theorem Pays.charged :
    (BuildBudget.read written today).charged =
      (BuildBudget.read document today).charged ++ [submission.key] := by
  conv_lhs => unfold BuildBudget.read
  simp [h.budget, Option.filter]

theorem Pays.entryDay : entryDay written = some today := by
  simp [Builds.entryDay, h.budget]

end

end Judged

/-! ## The invariant -/

/-- The push reaches the swap. -/
def Pushed.lands : Pushed → Bool
  | .answered | .lost _ => true
  | .refused _ | .failed _ => false

/-- The condition on a step: a document is not swapped in for an earlier day
than that of the entry it replaces. -/
def onward (w : World) : Event → Bool
  | .act process (.push pushed) =>
    match w.phases process with
    | .ready today _ _ _ generation =>
      !(pushed.lands && w.generation = generation) || (entryDay w.document).all (· ≤ today)
    | _ => true
  | _ => true

def Phase.Knows (document : Registry) (generation : ℕ) : Phase → Prop
  | .called _ submission => submission.wanted ≠ 0
  | .verifying today submission _ _ read at_ => at_ ≤ generation ∧
      (at_ = generation → read = document) ∧ Asks read today submission
  | .ready today submission receipt written at_ => at_ ≤ generation ∧ ∃ read,
      (at_ = generation → read = document) ∧ submission.wanted ≠ 0 ∧
        Pays read today submission receipt written
  | .idle | .ended _ => True

structure Covers (start : Registry) (w : World) (day : Day) : Prop where
  used : (BuildBudget.read start day).used + chargedOn w.log day ≤
      (BuildBudget.read w.document day).used ∨
    u64Max ≤ (BuildBudget.read w.document day).used
  keys : ∀ key, key ∈ (BuildBudget.read start day).charged ∨ key ∈ keysOn w.log day →
    key ∈ (BuildBudget.read w.document day).charged

structure Sound (start : Registry) (w : World) : Prop where
  within : WithinBudget start w
  runs : w.document.runs = start.runs
  limit : ∀ day, (BuildBudget.read w.document day).limit = (BuildBudget.read start day).limit
  kept : ∀ key ∈ w.log.filterMap receipt, key ∈ w.document.approvals.kept
  current : ∀ day, entryDay w.document = some day → Covers start w day
  ahead : ∀ day, (∀ held, entryDay w.document = some held → held < day) →
    entryDay start ≠ some day ∧ ∀ charge ∈ w.log, charge.day ≠ day
  knows : ∀ process, (w.phases process).Knows w.document w.generation
  unlogged : ∀ charge ∈ w.log, ∃ outcome, w.phases charge.process = .ended outcome ∧
    ∀ reason, outcome ≠ .refused reason

variable {start : Registry} {w : World} {process : ℕ} {phase : Phase}

theorem Phase.Knows.next {generation : ℕ} (h : phase.Knows document generation)
    (document' : Registry) : phase.Knows document' (generation + 1) := by
  cases phase with
  | idle => trivial
  | ended outcome => trivial
  | called today submission => exact h
  | verifying today submission intent refusal read at_ =>
    obtain ⟨hle, -, hasks⟩ := h
    exact ⟨by omega, fun heq => by omega, hasks⟩
  | ready today submission receipt written at_ =>
    obtain ⟨hle, read, -, hpays⟩ := h
    exact ⟨by omega, read, fun heq => by omega, hpays⟩

theorem sound_start (document : Registry) : Sound document (.start document) := by
  refine ⟨⟨fun day => ?_, fun day => ⟨nodup_nil, fun key hkey => ?_⟩, nodup_nil,
    fun process reason hphase => ?_⟩, rfl, fun day => rfl, fun key hkey => ?_,
    fun day hday => ⟨?_, fun key hkey => ?_⟩, fun day hday => ⟨?_, fun charge hcharge => ?_⟩,
    fun process => trivial, fun charge hcharge => ?_⟩
  · exact (Nat.le_max_right _ _).trans (Nat.le_add_right _ _)
  · cases hkey
  · cases hphase
  · cases hkey
  · exact .inl (le_refl _)
  · rcases hkey with hkey | hkey
    · exact hkey
    · cases hkey
  · intro hsame
    exact Nat.lt_irrefl _ (hday day hsame)
  · cases hcharge
  · cases hcharge

/-- The counts of a day that the entry has not passed are covered: it is the
entry's day, or one nothing has been charged to yet. -/
theorem Sound.covers (h : Sound start w) {today : Day}
    (hday : ∀ held, entryDay w.document = some held → held ≤ today) : Covers start w today := by
  by_cases hsame : entryDay w.document = some today
  · exact h.current today hsame
  · have hahead : ∀ held, entryDay w.document = some held → held < today := by
      intro held hheld
      refine Nat.lt_of_le_of_ne (hday held hheld) ?_
      rintro rfl
      exact hsame hheld
    obtain ⟨hstart, hlog⟩ := h.ahead today hahead
    have hnone := chargesOn_eq_nil hlog
    obtain ⟨hused, -⟩ := read_other_day hsame
    obtain ⟨hused', hcharged'⟩ := read_other_day hstart
    refine ⟨.inl ?_, ?_⟩
    · rw [hused, hused', chargedOn, hnone, runsSubmittedOn, runsSubmittedOn, h.runs]
      simp
    · rintro key (hkey | hkey)
      · rw [hcharged'] at hkey
        cases hkey
      · rw [keysOn, hnone] at hkey
        cases hkey

theorem Sound.unlogged_of (h : Sound start w)
    (hphase : ∀ outcome, w.phases process ≠ .ended outcome) :
    ∀ charge ∈ w.log, charge.process ≠ process := by
  rintro charge hcharge rfl
  obtain ⟨outcome, hended, -⟩ := h.unlogged charge hcharge
  exact hphase outcome hended

theorem Sound.move (h : Sound start w) (hfree : ∀ charge ∈ w.log, charge.process ≠ process)
    (hphase : phase.Knows w.document w.generation) : Sound start (w.move process phase) := by
  refine ⟨⟨h.within.total, h.within.once, h.within.receipts, fun other reason hother => ?_⟩,
    h.runs, h.limit, h.kept, fun day hday => ⟨(h.current day hday).used, (h.current day hday).keys⟩,
    h.ahead, fun other => ?_, fun charge hcharge => ?_⟩
  · by_cases hsame : other = process
    · subst hsame
      exact hfree
    · simp only [World.move, update_of_ne hsame] at hother
      exact h.within.refused other reason hother
  · by_cases hsame : other = process
    · subst hsame
      simpa [World.move] using hphase
    · simpa [World.move, hsame] using h.knows other
  · simp only [World.move, update_of_ne (hfree charge hcharge)]
    exact h.unlogged charge hcharge

section Taken

variable {process generation : ℕ} {today : Day} {submission : Submission}
  {receipt : Option ReceiptKey} {written : Registry}

theorem remaining_spec {budget : BuildBudget} {wanted : ℕ} (hwanted : wanted ≠ 0)
    (h : wanted ≤ budget.remaining) : budget.used + wanted ≤ budget.limit := by
  unfold BuildBudget.remaining at h
  omega

theorem Sound.total_taken (h : Sound start w) (hcovers : Covers start w today)
    (hwanted : submission.wanted ≠ 0) (hpays : Pays w.document today submission receipt written) :
    (BuildBudget.read start today).used + (submission.wanted + chargedOn w.log today) ≤
      max (BuildBudget.read start today).limit (BuildBudget.read start today).used +
        (receipt.toList.length + approvedOn w.log today) := by
  have htotal := h.within.total today
  cases receipt with
  | some key =>
    rw [hpays.single (by simp)]
    simp only [toList_some, length_singleton]
    omega
  | none =>
    have hspent := remaining_spec hwanted (hpays.within rfl)
    have hlimit := h.limit today
    have hmax := read_limit_le start today
    have hle := Nat.le_max_left (BuildBudget.read start today).limit
      (BuildBudget.read start today).used
    rcases hcovers.used with hused | hfull
    · omega
    · omega

theorem Sound.covers_taken (hcovers : Covers start w today)
    (hpays : Pays w.document today submission receipt written) (process generation : ℕ)
    (phases : ℕ → Phase) :
    Covers start ⟨written, generation,
      ⟨process, today, submission.key, submission.wanted, receipt⟩ :: w.log, phases⟩ today := by
  have hused := hpays.used
  have hcount := hcovers.used
  refine ⟨?_, fun key hkey => ?_⟩
  · rw [chargedOn_cons_self w.log _ rfl]
    dsimp only
    unfold saturatingAdd at hused
    rcases Nat.le_total ((BuildBudget.read w.document today).used + submission.wanted) u64Max with
      hfits | hover
    · rw [Nat.min_eq_left hfits] at hused
      omega
    · rw [Nat.min_eq_right hover] at hused
      exact .inr hused
  · rw [keysOn_cons_self w.log _ rfl, mem_cons] at hkey
    have hcharged := hpays.charged
    rw [hcharged, mem_append, mem_singleton]
    rcases hkey with hkey | rfl | hkey
    · exact .inl (hcovers.keys key (.inl hkey))
    · exact .inr rfl
    · exact .inl (hcovers.keys key (.inr hkey))

/-- A document swapped in onward keeps the budget. -/
theorem Sound.taken (h : Sound start w)
    (hphase : w.phases process = .ready today submission receipt written generation)
    (hgeneration : w.generation = generation)
    (hday : ∀ held, entryDay w.document = some held → held ≤ today) {outcome : Outcome}
    (houtcome : ∀ reason, outcome ≠ .refused reason) :
    Sound start (World.move { w with
      document := written
      generation := generation + 1
      log := ⟨process, today, submission.key, submission.wanted, receipt⟩ :: w.log }
      process (.ended outcome)) := by
  have hknows := h.knows process
  rw [hphase] at hknows
  obtain ⟨-, read, hread, hwanted, hpays⟩ := hknows
  obtain rfl := hread hgeneration.symm
  have hcovers := h.covers hday
  have hfree : ∀ charge ∈ w.log, charge.process ≠ process :=
    h.unlogged_of fun outcome => by
      rw [hphase]
      simp
  refine ⟨⟨fun day => ?_, fun day => ?_, ?_, fun other reason hother => ?_⟩, ?_, fun day => ?_,
    fun key hkey => ?_, fun day hentry => ?_, fun day hahead => ?_, fun other => ?_,
    fun charge hcharge => ?_⟩
  · -- the total of a day
    by_cases hsame : today = day
    · subst hsame
      simp only [World.move]
      rw [chargedOn_cons_self w.log _ rfl, approvedOn_cons_self w.log _ rfl]
      exact h.total_taken hcovers hwanted hpays
    · simp only [World.move, chargedOn, approvedOn]
      rw [chargesOn_cons_ne w.log _ hsame]
      exact h.within.total day
  · -- the keys of a day
    by_cases hsame : today = day
    · subst hsame
      simp only [World.move]
      rw [keysOn_cons_self w.log _ rfl]
      have hnot : submission.key ∉ keysOn w.log today := fun hmem =>
        hpays.fresh (hcovers.keys _ (.inr hmem))
      refine ⟨nodup_cons.mpr ⟨hnot, (h.within.once today).1⟩, fun key hkey hstart => ?_⟩
      rcases mem_cons.mp hkey with rfl | hkey
      · exact hpays.fresh (hcovers.keys _ (.inl hstart))
      · exact (h.within.once today).2 key hkey hstart
    · simp only [World.move, keysOn]
      rw [chargesOn_cons_ne w.log _ hsame]
      exact h.within.once day
  · -- the receipts
    simp only [World.move]
    rw [receipts_cons]
    cases receipt with
    | none => exact h.within.receipts
    | some key =>
      exact nodup_cons.mpr
        ⟨fun hmem => hpays.unused key rfl (h.kept key hmem), h.within.receipts⟩
  · -- who is refused
    have hne : other ≠ process := by
      rintro rfl
      simp only [World.move, update_self, Phase.ended.injEq] at hother
      exact houtcome reason hother
    simp only [World.move, update_of_ne hne] at hother
    rintro charge hcharge rfl
    rcases mem_cons.mp hcharge with rfl | hcharge
    · exact hne rfl
    · exact h.within.refused _ reason hother charge hcharge rfl
  · exact hpays.runs.trans h.runs
  · exact (hpays.limit day).trans ((h.limit today).trans rfl)
  · -- the receipts are in the book
    refine hpays.book key ?_
    simp only [World.move] at hkey
    rw [receipts_cons] at hkey
    cases receipt with
    | none => exact .inl (h.kept key hkey)
    | some used =>
      rcases mem_cons.mp hkey with rfl | hkey
      · exact .inr rfl
      · exact .inl (h.kept key hkey)
  · -- the entry is of today now
    have htoday : some today = some day := hpays.entryDay.symm.trans hentry
    cases htoday
    exact Sound.covers_taken hcovers hpays process (generation + 1) _
  · -- no charge is of a later day
    have hlt := hahead today hpays.entryDay
    obtain ⟨hstart, hlog⟩ := h.ahead day fun held hheld => (hday held hheld).trans_lt hlt
    refine ⟨hstart, fun charge hcharge => ?_⟩
    rcases mem_cons.mp hcharge with rfl | hcharge
    · exact hlt.ne
    · exact hlog charge hcharge
  · by_cases hsame : other = process
    · subst hsame
      simp only [World.move, update_self]
      trivial
    · simp only [World.move, update_of_ne hsame]
      rw [← hgeneration]
      exact (h.knows other).next written
  · rcases mem_cons.mp hcharge with rfl | hcharge
    · exact ⟨outcome, by simp [World.move], houtcome⟩
    · simp only [World.move, update_of_ne (hfree charge hcharge)]
      exact h.unlogged charge hcharge

end Taken

/-- An edit of the rest of the registry keeps every count. -/
theorem Sound.edited (h : Sound start w) (rest : String) :
    Sound start { w with
      document := { w.document with rest }, generation := w.generation + 1 } := by
  refine ⟨⟨h.within.total, h.within.once, h.within.receipts, h.within.refused⟩, h.runs, h.limit,
    h.kept, fun day hday => ?_, h.ahead, fun process => (h.knows process).next _, h.unlogged⟩
  have hcovers := h.current day hday
  exact ⟨hcovers.used, hcovers.keys⟩

theorem Sound.step {w' : World} {event : Event} (h : Sound start w)
    (honward : onward w event = true) (hstep : step w event = some w') : Sound start w' := by
  cases event with
  | edit rest =>
    cases hstep
    exact h.edited rest
  | act process action =>
    cases action with
    | call today submission =>
      simp only [Builds.step] at hstep
      split at hstep
      · next hphase =>
        cases hstep
        refine h.move (h.unlogged_of (by simp [hphase])) ?_
        split
        · trivial
        · next hbuilds =>
          simpa [Phase.Knows, Submission.wanted] using hbuilds
      · cases hstep
    | fetch failure =>
      simp only [Builds.step] at hstep
      split at hstep
      · next today submission hphase =>
        have hknows := h.knows process
        rw [hphase] at hknows
        have hfree : ∀ charge ∈ w.log, charge.process ≠ process := h.unlogged_of (by simp [hphase])
        split at hstep
        · cases hstep
          exact h.move hfree trivial
        · cases hstep
          refine h.move hfree ?_
          cases hjudge : judge w.document today submission with
          | paid => trivial
          | refused reason => trivial
          | asks intent refusal =>
            exact ⟨le_refl _, fun _ => rfl, asks_of_judge hjudge⟩
          | writes document =>
            exact ⟨le_refl _, w.document, fun _ => rfl, hknows, pays_of_writes hknows hjudge⟩
      · cases hstep
    | verify answer =>
      simp only [Builds.step] at hstep
      split at hstep
      · next today submission intent refusal document generation hphase =>
        have hknows := h.knows process
        rw [hphase] at hknows
        obtain ⟨hle, hread, hasks⟩ := hknows
        cases hstep
        refine h.move (h.unlogged_of (by simp [hphase])) ?_
        cases happrove : approve document today submission intent refusal answer with
        | error outcome => trivial
        | ok result =>
          have hwanted : submission.wanted ≠ 0 := by
            rw [hasks.single]
            exact Nat.one_ne_zero
          exact ⟨hle, document, hread, hwanted, pays_of_approve hasks happrove⟩
      · cases hstep
    | push pushed =>
      simp only [Builds.step] at hstep
      split at hstep
      · next today submission receipt document generation hphase =>
        have hfree : ∀ charge ∈ w.log, charge.process ≠ process := h.unlogged_of (by simp [hphase])
        have hday : pushed.lands = true → w.generation = generation →
            ∀ held, entryDay w.document = some held → held ≤ today := by
          intro hlands hgeneration held hheld
          simp only [onward, hphase, hlands, hgeneration, hheld, decide_true, Bool.and_self,
            Bool.not_true, Bool.false_or, all_some] at honward
          exact of_decide_eq_true honward
        unfold World.swap at hstep
        cases pushed with
        | refused reason =>
          cases hstep
          exact h.move hfree trivial
        | failed reason =>
          cases hstep
          exact h.move hfree trivial
        | answered =>
          by_cases hgeneration : w.generation = generation
          · simp only [hgeneration, if_true] at hstep
            cases hstep
            exact h.taken hphase hgeneration (hday rfl hgeneration) (by simp)
          · simp only [hgeneration, if_false] at hstep
            cases hstep
            exact h.move hfree trivial
        | lost reason =>
          by_cases hgeneration : w.generation = generation
          · simp only [hgeneration, if_true, getD_some] at hstep
            cases hstep
            exact h.taken hphase hgeneration (hday rfl hgeneration) (by simp)
          · simp only [hgeneration, if_false, getD_none] at hstep
            cases hstep
            exact h.move hfree trivial
      · cases hstep

/-- A step of a charge that the registry takes nothing from leaves it as it was. -/
theorem document_of_log {w w' : World} {action : Action}
    (hstep : step w (.act process action) = some w') (hlog : w'.log = w.log) :
    w'.document = w.document := by
  have hcons : ∀ charge : Charge, charge :: w.log ≠ w.log := fun charge heq => by
    have hlen := congrArg List.length heq
    simp at hlen
  cases action with
  | call today submission =>
    simp only [step] at hstep
    split at hstep <;> cases hstep
    rfl
  | fetch failure =>
    simp only [step] at hstep
    split at hstep
    · split at hstep <;> cases hstep <;> rfl
    · cases hstep
  | verify answer =>
    simp only [step] at hstep
    split at hstep <;> cases hstep
    rfl
  | push pushed =>
    simp only [step] at hstep
    split at hstep
    · next today submission receipt document generation hphase =>
      unfold World.swap at hstep
      by_cases hgeneration : w.generation = generation
      · simp only [hgeneration, if_true, getD_some] at hstep
        cases pushed <;> cases hstep
        · rfl
        · rfl
        · exact absurd hlog (hcons _)
        · exact absurd hlog (hcons _)
      · simp only [hgeneration, if_false, getD_none] at hstep
        cases pushed <;> cases hstep <;> rfl
    · cases hstep

/-- In every run of charges and approvals whose swaps go onward, from any
registry, no day is charged past its ceiling and its approvals, a submission is
charged once a day, an approval pays once and a refused charge is none the
registry took; and a step that is taken nothing from changes nothing. -/
theorem budget_kept {start : Registry} {w : World}
    (h : Reaches step (fun w event => onward w event = true) (.start start) w) :
    WithinBudget start w ∧ ∀ process action w', step w (.act process action) = some w' →
      w'.log = w.log → w'.document = w.document := by
  have hsound : Sound start w := h.invariant (sound_start start)
    fun _ _ _ hsound honward hstep => hsound.step honward hstep
  exact ⟨hsound.within, fun _ _ _ hstep hlog => document_of_log hstep hlog⟩

/-! ## A day dated back -/

/-- A registry nothing has been charged to. -/
def unspent : Registry := ⟨none, [], .absent, ""⟩

def oneBuild (key : String) : Submission :=
  ⟨key, ["stado release worker --request r.json"], "a queue submission", none⟩

/-- A process reads the registry and charges a build without an approval. -/
def readAndPush (process : ℕ) : List Event :=
  [.act process (.fetch none), .act process (.push .answered)]

def chargeOnce (process : ℕ) (today : Day) (key : String) : List Event :=
  .act process (.call today (oneBuild key)) :: readAndPush process

theorem charged_once : ∃ w, WithinBudget unspent w ∧ chargedOn w.log 2 = 2 := by
  have hrun : ∃ w, Reaches step (fun w event => onward w event = true) (.start unspent) w ∧
      decide (chargedOn w.log 2 = 2) = true :=
    exists_reaches (chargeOnce 1 2 "first" ++
      [.act 2 (.call 2 (oneBuild "first")), .act 2 (.fetch none)] ++ chargeOnce 3 2 "second") _
      (by decide +kernel)
  obtain ⟨w, hreaches, hcharged⟩ := hrun
  exact ⟨w, (budget_kept hreaches).1, of_decide_eq_true hcharged⟩

/-- A charge reads its clock on day 1 and the registry on day 2, after three
builds; the day is then charged for a fourth, under a key it has charged. -/
def datedBack : List Event :=
  .act 1 (.call 1 (oneBuild "late")) :: chargeOnce 2 2 "a" ++ chargeOnce 3 2 "b" ++
    chargeOnce 4 2 "c" ++ readAndPush 1 ++ chargeOnce 5 2 "a"

theorem spent_again : ∃ w, Reaches step always (.start unspent) w ∧ ¬ WithinBudget unspent w ∧
    keysOn w.log 2 = ["a", "c", "b", "a"] := by
  have hrun : ∃ w, Reaches step always (.start unspent) w ∧
      decide (keysOn w.log 2 = ["a", "c", "b", "a"]) = true :=
    exists_reaches datedBack _ (by decide +kernel)
  obtain ⟨w, hreaches, hkeys⟩ := hrun
  have hkeys := of_decide_eq_true hkeys
  refine ⟨w, hreaches, fun hwithin => ?_, hkeys⟩
  have hnodup := (hwithin.once 2).1
  rw [hkeys] at hnodup
  revert hnodup
  decide

end Stado.Builds
