import Mathlib.Algebra.Order.Ring.Int
import Mathlib.Algebra.BigOperators.Group.List.Basic
import Stado.Agent.ClaimSpecs

/-!
# GPU work on boards that may take it

The free figure, the budget of each board and what was started are tied over
one claim scan: while every started job takes and none gives, and a single
board left is the one the driver puts work on, each started job runs on a board
the reservation leaves and within that board's reading.
-/

namespace Stado.Agent

open Machine List Option AgentLoop Reading

/-! ## Where the started jobs run -/

/-- The board a started job runs on: the one named for it, else the driver's
first. -/
def Reading.runsOn (A : Reading) (start : Start) : Option GpuCard :=
  match start.placement with
  | some uuid => A.boards.find? (·.uuid == uuid)
  | none => A.boards.head?

def Reading.takes (A : Reading) (card : GpuCard) (start : Start) : ℤ :=
  if A.runsOn start = some card then max 0 start.need.toInt else 0

def Reading.taken (A : Reading) (card : GpuCard) (started : List Start) : ℤ :=
  (started.map (A.takes card)).sum

/-- Each started job that needs VRAM (newest first) runs on a board the
reservation does not withdraw, whose reading less what earlier starts took on it
is at least the need. -/
def Reading.Placed (A : Reading) : List Start → Prop
  | [] => True
  | start :: earlier =>
    (0 < start.need → ∃ card, A.runsOn start = some card ∧ A.withdraws card = false ∧
      start.need.toInt ≤ card.freeVramGb.toInt - A.taken card earlier) ∧
    A.Placed earlier

/-- The needs placed on a board stay within its reading. -/
def Reading.Within (A : Reading) (started : List Start) : Prop :=
  ∀ card, 0 < A.taken card started → A.taken card started ≤ card.freeVramGb.toInt

/-- No budget of the later scan is above the earlier one's. -/
def Scan.Lowers (scan scan' : Scan) : Prop :=
  scan'.freeVramGb ≤ scan.freeVramGb ∧
    List.Forall₂ (fun entry entry' => entry'.1 = entry.1 ∧ entry'.2 ≤ entry.2)
      scan.cardBudget scan'.cardBudget

/-- A board the reservation leaves has a reading, and where one board is left it
is the driver's first. -/
def Reading.Placeable (A : Reading) : Prop :=
  (∃ card ∈ A.remaining, 0 ≤ card.freeVramGb) ∧
    ∀ card, A.remaining = [card] → A.boards.head? = some card

/-- A job that starts takes VRAM or none, and takes it only where a board can be
told for it. -/
def TakesVram (H : Host) (agent : AgentLoop) : Step → Prop
  | .turn turn => ∀ scan need cores, agent.scan = some scan →
      Starts H scan agent.slots turn need cores → 0 ≤ need ∧ (0 < need → scan.reading.Placeable)
  | _ => True

section Placement

variable {H : Host} {A : Reading} {scan : Scan} {slots : List Slot} {turn : Turn}
  {need cores : Int64} {started : List Start} {card : GpuCard}

theorem taken_cons (start : Start) :
    A.taken card (start :: started) = A.takes card start + A.taken card started := by
  unfold taken
  rw [map_cons, sum_cons]

variable {start : Start} {budget : List (String × Int64)} {uuid : String} {agent : AgentLoop}
  {free : Int64} {agent : AgentLoop} {entries : List (String × Int64)}
  {offered : Int64 × List GpuCard}

theorem takes_here (h : A.runsOn start = some card) (hneed : 0 ≤ start.need) :
    A.takes card start = start.need.toInt := by
  unfold takes
  rw [if_pos h, max_eq_right (zero_le_iff.mp hneed)]

theorem takes_elsewhere (h : A.runsOn start ≠ some card) : A.takes card start = 0 := by
  unfold takes
  rw [if_neg h]

theorem takes_nothing (hneed : start.need ≤ 0) : A.takes card start = 0 := by
  unfold takes
  rw [le_zero_iff] at hneed
  split
  · exact max_eq_left hneed
  · rfl

/-- The newest start on a board bounds all of them. -/
theorem within_of_placed (h : A.Placed started) : A.Within started := by
  induction started with
  | nil =>
    intro card hpos
    unfold taken at hpos
    exact absurd hpos (lt_irrefl 0)
  | cons start earlier ih =>
    obtain ⟨hplaced, hearlier⟩ := h
    intro card hpos
    rw [taken_cons] at hpos ⊢
    by_cases hruns : A.runsOn start = some card
    · by_cases hneed : 0 < start.need
      · obtain ⟨card', hruns', -, hfits⟩ := hplaced hneed
        rw [hruns] at hruns'
        cases hruns'
        rw [takes_here hruns (Std.le_of_lt hneed)]
        omega
      · rw [takes_nothing (Std.not_lt.mp hneed), zero_add] at hpos ⊢
        exact ih hearlier card hpos
    · rw [takes_elsewhere hruns, zero_add] at hpos ⊢
      exact ih hearlier card hpos

/-- Each placed start that needs VRAM runs on a board the reservation leaves. -/
theorem Reading.Placed.mem (h : A.Placed started) (start : Start) (hmem : start ∈ started)
    (hneed : 0 < start.need) : ∃ card, A.runsOn start = some card ∧ A.withdraws card = false := by
  induction started with
  | nil => cases hmem
  | cons newest earlier ih =>
    obtain ⟨hplaced, hearlier⟩ := h
    rcases mem_cons.mp hmem with rfl | hmem
    · obtain ⟨card, hruns, hkept, -⟩ := hplaced hneed
      exact ⟨card, hruns, hkept⟩
    · exact ih hearlier hmem

theorem runsOn_named (hcard : card ∈ A.boards)
    (h : start.placement = some card.uuid) : A.runsOn start = some card := by
  unfold runsOn
  rw [h]
  dsimp only
  rcases hfind : A.boards.find? (·.uuid == card.uuid) with _ | card'
  · rw [List.find?_eq_none] at hfind
    exact absurd (beq_self_eq_true card.uuid) (hfind card hcard)
  · have huuid := List.find?_some hfind
    rw [beq_iff_eq] at huuid
    rw [hfind, A.board_eq (mem_of_find?_eq_some hfind) hcard huuid]

/-! ## The board budget -/

theorem emptiest_eq_none (h : emptiest entries = none) : entries = [] := by
  rcases entries with _ | ⟨entry, rest⟩
  · rfl
  · unfold emptiest at h
    split at h
    · split at h
      · cases h
      · cases h
    · cases h

/-- The board kept is one of the entries, and no entry has more. -/
theorem emptiest_spec {best : String × Int64}
    (h : emptiest entries = some best) : best ∈ entries ∧ ∀ entry ∈ entries, entry.2 ≤ best.2 := by
  induction entries generalizing best with
  | nil => cases h
  | cons entry rest ih =>
    unfold emptiest at h
    split at h
    · next later hlater =>
      obtain ⟨hmem, hmax⟩ := ih hlater
      split at h
      · next hlt =>
        cases h
        refine ⟨mem_cons_self, fun e he => ?_⟩
        rcases mem_cons.mp he with rfl | he
        · exact Std.le_refl _
        · exact Std.le_trans (hmax e he) (Std.le_of_lt hlt)
      · next hge =>
        cases h
        refine ⟨mem_cons_of_mem _ hmem, fun e he => ?_⟩
        rcases mem_cons.mp he with rfl | he
        · exact Std.not_lt.mp hge
        · exact hmax e he
    · next hnone =>
      cases h
      rw [emptiest_eq_none hnone]
      refine ⟨mem_cons_self, fun e he => ?_⟩
      rw [mem_singleton] at he
      rw [he]
      exact Std.le_refl _

/-- A board is named for the job: it holds the need, and of all boards that do
it is the emptiest. -/
theorem placementFor_some (h : placementFor need budget = some uuid) :
    1 < budget.length ∧
      ∃ free, (uuid, free) ∈ budget ∧ need ≤ free ∧ ∀ entry ∈ budget, entry.2 ≤ free := by
  unfold placementFor at h
  split at h
  · cases h
  · next hlong =>
    refine ⟨Nat.lt_of_not_le hlong, ?_⟩
    rw [map_eq_some_iff] at h
    obtain ⟨⟨uuid', free⟩, hbest, rfl⟩ := h
    obtain ⟨hmem, hmax⟩ := emptiest_spec hbest
    rw [mem_filter, decide_eq_true_eq] at hmem
    obtain ⟨hmem, hneed⟩ := hmem
    refine ⟨free, hmem, hneed, fun entry hentry => ?_⟩
    by_cases hle : need ≤ entry.2
    · exact hmax entry (mem_filter.mpr ⟨hentry, decide_eq_true hle⟩)
    · exact Std.le_of_lt (Std.lt_of_lt_of_le (Std.not_le.mp hle) hneed)

/-- No board is named: at most one is left, or none holds the need. -/
theorem placementFor_none (h : placementFor need budget = none) :
    budget.length ≤ 1 ∨ ∀ entry ∈ budget, entry.2 < need := by
  unfold placementFor at h
  split at h
  · next hle => exact .inl hle
  · rw [map_eq_none_iff] at h
    have hnil := emptiest_eq_none h
    rw [filter_eq_nil_iff] at hnil
    refine .inr fun entry hentry => ?_
    have hnot := hnil entry hentry
    rw [decide_eq_true_eq] at hnot
    exact Std.not_le.mp hnot

/-- Under distinct UUIDs the charge is to the entry of the board and no other. -/
theorem chargeBoard_eq (hkeys : (budget.map (·.1)).Nodup) (uuid : String) (need : Int64) :
    chargeBoard uuid need budget = budget.map fun entry =>
        if entry.1 = uuid then (entry.1, entry.2 - min need entry.2) else entry := by
  induction budget with
  | nil => rfl
  | cons entry rest ih =>
    obtain ⟨id, free⟩ := entry
    rw [map_cons, nodup_cons] at hkeys
    obtain ⟨hfresh, hrest⟩ := hkeys
    unfold chargeBoard
    rw [map_cons]
    split
    · next hid =>
      subst hid
      congr 1
      symm
      refine (map_congr_left fun entry hentry => ?_).trans (List.map_id rest)
      rw [if_neg, id_eq]
      intro heq
      exact hfresh (List.mem_map.mpr ⟨entry, hentry, heq⟩)
    · rw [ih hrest]

theorem chargeBoard_placed
    (hkeys : (budget.map (·.1)).Nodup) (hmem : (uuid, free) ∈ budget) (hneed : need ≤ free) :
    chargeBoard uuid need budget =
      budget.map fun entry => if entry.1 = uuid then (uuid, free - need) else entry := by
  rw [chargeBoard_eq hkeys]
  refine map_congr_left fun entry hentry => ?_
  by_cases hid : entry.1 = uuid
  · have hentry' : entry = (uuid, free) := inj_on_of_nodup_map hkeys hentry hmem hid
    rw [if_pos hid, if_pos hid, hentry', sub_min_of_le hneed]
  · rw [if_neg hid, if_neg hid]

/-! ## The budgets of one scan -/

/-- The scan's budgets against the boards' readings: each entry, the free figure
over a single board, and the free figure over several. -/
structure OpenTo (scan : Scan) : Prop where
  boards : (scan.cardBudget.map (·.1)).Perm (scan.reading.remaining.map (·.uuid))
  left : ∀ card ∈ scan.reading.remaining, ∀ free, (card.uuid, free) ∈ scan.cardBudget →
    1 < scan.cardBudget.length →
      free.toInt ≤ card.freeVramGb.toInt - scan.reading.taken card scan.started
  alone : ∀ card, scan.reading.remaining = [card] → 0 ≤ card.freeVramGb →
    scan.freeVramGb.toInt ≤ card.freeVramGb.toInt - scan.reading.taken card scan.started
  widest : (∃ card ∈ scan.reading.remaining, 0 ≤ card.freeVramGb) →
    1 < scan.cardBudget.length → ∃ entry ∈ scan.cardBudget, scan.freeVramGb ≤ entry.2

/-- What one scan keeps: distinct boards, placed starts, and either no VRAM left
to claim or budgets that stand for the readings. -/
structure Budgeted (scan : Scan) : Prop where
  keys : (scan.cardBudget.map (·.1)).Nodup
  placed : scan.reading.Placed scan.started
  offered : scan.freeVramGb ≤ 0 ∨ OpenTo scan

theorem taken_nil (card : GpuCard) : A.taken card [] = 0 := rfl

theorem openTo_opened (hcards : offered.2.Perm A.remaining)
    {used : Int64} (hfree : offered.1 = freeForOneJob A.totalVramGb used offered.2) :
    OpenTo (.opened A offered) := by
  have hbudget : (Scan.opened A offered).cardBudget =
      offered.2.map fun card => (card.uuid, card.freeVramGb) := rfl
  have hkeys : (Scan.opened A offered).cardBudget.map (·.1) = offered.2.map (·.uuid) := by
    rw [hbudget, List.map_map]
    rfl
  have hreading : (Scan.opened A offered).reading = A := rfl
  have hstarted : (Scan.opened A offered).started = [] := rfl
  constructor
  · rw [hkeys]
    exact hcards.map _
  · intro card hcard free hmem _
    rw [hreading] at hcard
    rw [hstarted, taken_nil, sub_zero]
    rw [hbudget, List.mem_map] at hmem
    obtain ⟨card', hcard', heq⟩ := hmem
    rw [Prod.mk.injEq] at heq
    obtain ⟨huuid, rfl⟩ := heq
    have hboard := (mem_remaining.mp (hcards.mem_iff.mp hcard')).1
    rw [board_eq hboard (mem_remaining.mp hcard).1 huuid]
  · intro card halone hnonneg
    rw [hreading] at halone
    rw [hstarted, taken_nil, sub_zero, ← Int64.le_iff_toInt_le]
    rw [halone, perm_singleton] at hcards
    have hexists : ∃ card' ∈ offered.2, 0 ≤ card'.freeVramGb := by
      rw [hcards]
      exact ⟨card, mem_singleton_self _, hnonneg⟩
    obtain ⟨card', hcard', hle⟩ := exists_freeForOneJob_le A.totalVramGb used hexists
    rw [← hfree] at hle
    rw [hcards, mem_singleton] at hcard'
    rw [hcard'] at hle
    exact hle
  · intro hexists _
    obtain ⟨card, hcard, hnonneg⟩ := hexists
    obtain ⟨card', hcard', hle⟩ := exists_freeForOneJob_le A.totalVramGb used
      ⟨card, hcards.mem_iff.mpr hcard, hnonneg⟩
    rw [← hfree] at hle
    rw [hbudget]
    exact ⟨_, List.mem_map_of_mem hcard', hle⟩

theorem budgeted_opened (h : Offers A offered)
    (hnamed : (offered.2.map (·.uuid)).Nodup) : Budgeted (.opened A offered) := by
  refine ⟨?_, trivial, ?_⟩
  · have hkeys : (Scan.opened A offered).cardBudget.map (·.1) = offered.2.map (·.uuid) := by
      unfold Scan.opened
      rw [List.map_map]
      rfl
    rw [hkeys]
    exact hnamed
  · rcases h with hfree | ⟨hcards, used, hfree⟩
    · exact .inl hfree
    · exact .inr (openTo_opened hcards hfree)

/-! ## One candidate's turn -/

theorem startSlot_fields (H : Host) (scan : Scan) (slots : List Slot) (turn : Turn)
    (need cores : Int64) :
    (startSlot H scan slots turn need cores).1.reading = scan.reading ∧
      (startSlot H scan slots turn need cores).1.freeVramGb = scan.freeVramGb - need ∧
      (startSlot H scan slots turn need cores).1.started =
        ⟨turn.job, need, placementFor need scan.cardBudget, slots.length⟩ :: scan.started := by
  unfold startSlot
  exact ⟨rfl, rfl, rfl⟩

theorem startSlot_named (h : placementFor need scan.cardBudget = some uuid) :
    (startSlot H scan slots turn need cores).1.cardBudget =
      chargeBoard uuid need scan.cardBudget := by
  unfold startSlot
  simp only [h]

theorem startSlot_unnamed (h : placementFor need scan.cardBudget = none) :
    (startSlot H scan slots turn need cores).1.cardBudget = scan.cardBudget := by
  unfold startSlot
  simp only [h]

/-- The board named for a job that starts. -/
structure Names (scan : Scan) (need : Int64) (uuid : String) (free : Int64) : Prop where
  mem : (uuid, free) ∈ scan.cardBudget
  holds : need ≤ free
  emptiest : ∀ entry ∈ scan.cardBudget, entry.2 ≤ free

theorem Names.charged (hnames : Names scan need uuid free)
    (hkeys : (scan.cardBudget.map (·.1)).Nodup) (h : placementFor need scan.cardBudget = some uuid) :
    (startSlot H scan slots turn need cores).1.cardBudget =
      scan.cardBudget.map fun entry => if entry.1 = uuid then (uuid, free - need) else entry := by
  rw [startSlot_named h, chargeBoard_placed hkeys hnames.mem hnames.holds]

theorem keys_charged (uuid : String) (left : Int64) :
    (budget.map fun entry => if entry.1 = uuid then (uuid, left) else entry).map (·.1) =
      budget.map (·.1) := by
  rw [List.map_map]
  refine map_congr_left fun entry _ => ?_
  by_cases hid : entry.1 = uuid
  · simp [hid]
  · simp [hid]

theorem Budgeted.keys_startSlot (h : Budgeted scan) :
    (startSlot H scan slots turn need cores).1.cardBudget.map (·.1) =
      scan.cardBudget.map (·.1) := by
  rcases hplacement : placementFor need scan.cardBudget with _ | uuid
  · rw [startSlot_unnamed hplacement]
  · obtain ⟨-, free, hmem, hholds, hmax⟩ := placementFor_some hplacement
    have hnames : Names scan need uuid free := ⟨hmem, hholds, hmax⟩
    rw [hnames.charged h.keys hplacement, keys_charged]

/-- A start that takes nothing leaves every board's takings. -/
theorem taken_startSlot_zero (hneed : need ≤ 0) (card : GpuCard) :
    scan.reading.taken card (startSlot H scan slots turn need cores).1.started =
      scan.reading.taken card scan.started := by
  obtain ⟨-, -, hstarted⟩ := startSlot_fields H scan slots turn need cores
  have hzero : scan.reading.takes card
      ⟨turn.job, need, placementFor need scan.cardBudget, slots.length⟩ = 0 :=
    takes_nothing hneed
  rw [hstarted, taken_cons, hzero, zero_add]

/-- A board is named: the start runs there, within the board's entry, and the
budgets still stand. -/
theorem OpenTo.named (h : OpenTo scan)
    (hkeys : (scan.cardBudget.map (·.1)).Nodup) (hnames : Names scan need uuid free)
    (hplacement : placementFor need scan.cardBudget = some uuid)
    (hlength : 1 < scan.cardBudget.length) (hneed : 0 ≤ need)
    (hfits : 0 < need → need ≤ scan.freeVramGb) :
    OpenTo (startSlot H scan slots turn need cores).1 ∧
      ∃ card ∈ scan.reading.remaining, scan.reading.runsOn
        ⟨turn.job, need, placementFor need scan.cardBudget, slots.length⟩ = some card ∧
          need.toInt ≤ card.freeVramGb.toInt - scan.reading.taken card scan.started := by
  obtain ⟨hreading, hfree, hstarted⟩ := startSlot_fields H scan slots turn need cores
  have hbudget : (startSlot H scan slots turn need cores).1.cardBudget =
      scan.cardBudget.map fun entry => if entry.1 = uuid then (uuid, free - need) else entry :=
    hnames.charged hkeys hplacement
  have huuid : uuid ∈ scan.cardBudget.map (·.1) := List.mem_map_of_mem hnames.mem
  rw [h.boards.mem_iff, List.mem_map] at huuid
  obtain ⟨card, hcard, rfl⟩ := huuid
  have hruns : scan.reading.runsOn
      ⟨turn.job, need, placementFor need scan.cardBudget, slots.length⟩ = some card :=
    runsOn_named (mem_remaining.mp hcard).1 hplacement
  have hleft := h.left card hcard free hnames.mem hlength
  have hholds := Int64.le_iff_toInt_le.mp hnames.holds
  have hsub := toInt_sub_of_fits hneed fun _ => hnames.holds
  have hsub' := toInt_sub_of_fits hneed hfits
  have htaken : ∀ card', scan.reading.taken card'
      (startSlot H scan slots turn need cores).1.started =
        (if card' = card then need.toInt else 0) + scan.reading.taken card' scan.started := by
    intro card'
    rw [hstarted, taken_cons]
    by_cases heq : card' = card
    · rw [if_pos heq, heq, takes_here hruns hneed]
    · rw [if_neg heq, takes_elsewhere]
      rw [hruns]
      exact fun hsame => heq (Option.some.inj hsame).symm
  refine ⟨⟨?_, ?_, ?_, ?_⟩, card, hcard, hruns, by omega⟩
  · rw [hreading, hbudget, keys_charged]
    exact h.boards
  · rw [hreading]
    intro card' hcard' free' hmem' _
    rw [htaken]
    rw [hbudget, List.mem_map] at hmem'
    obtain ⟨⟨id, old⟩, hold, heq⟩ := hmem'
    by_cases hid : id = card.uuid
    · rw [if_pos hid, Prod.mk.injEq] at heq
      obtain ⟨hsame, rfl⟩ := heq
      have hboard := board_eq (mem_remaining.mp hcard).1 (mem_remaining.mp hcard').1 hsame
      rw [if_pos hboard.symm, ← hboard]
      omega
    · rw [if_neg hid, Prod.mk.injEq] at heq
      obtain ⟨rfl, rfl⟩ := heq
      have hother : card' ≠ card := by
        intro hsame
        rw [hsame] at hid
        exact hid rfl
      rw [if_neg hother, zero_add]
      exact h.left card' hcard' old hold hlength
  · rw [hreading]
    intro card' halone _
    have hlen := h.boards.length_eq
    rw [length_map, length_map, halone, length_singleton] at hlen
    omega
  · rw [hreading, hbudget, hfree, length_map]
    intro hexists _
    obtain ⟨⟨id, wide⟩, hmem, hle⟩ := h.widest hexists hlength
    have hle' := Int64.le_iff_toInt_le.mp (Std.le_trans hle (hnames.emptiest _ hmem))
    refine ⟨(card.uuid, free - need), ?_, ?_⟩
    · rw [List.mem_map]
      exact ⟨(card.uuid, free), hnames.mem, if_pos rfl⟩
    · rw [Int64.le_iff_toInt_le, hsub, hsub']
      omega

/-- No board is named and VRAM is needed: one board is left, it is the driver's
first, and its reading holds the job. -/
theorem OpenTo.unnamed (h : OpenTo scan) (hplacement : placementFor need scan.cardBudget = none)
    (hneed : 0 < need) (hfits : need ≤ scan.freeVramGb) (hplaceable : scan.reading.Placeable) :
    OpenTo (startSlot H scan slots turn need cores).1 ∧
      ∃ card ∈ scan.reading.remaining, scan.reading.runsOn
        ⟨turn.job, need, placementFor need scan.cardBudget, slots.length⟩ = some card ∧
          need.toInt ≤ card.freeVramGb.toInt - scan.reading.taken card scan.started := by
  obtain ⟨hreading, hfree, hstarted⟩ := startSlot_fields H scan slots turn need cores
  have hbudget : (startSlot H scan slots turn need cores).1.cardBudget = scan.cardBudget :=
    startSlot_unnamed hplacement
  obtain ⟨hexists, hfirst⟩ := hplaceable
  have hlength : scan.cardBudget.length ≤ 1 := by
    rcases placementFor_none hplacement with hle | hall
    · exact hle
    · by_contra hlt
      obtain ⟨entry, hentry, hle⟩ := h.widest hexists (by omega)
      have hless := hall entry hentry
      exact Std.not_lt.mpr (Std.le_trans hfits hle) hless
  have hlen := h.boards.length_eq
  rw [length_map, length_map] at hlen
  obtain ⟨card, halone, hnonneg⟩ :
      ∃ card, scan.reading.remaining = [card] ∧ 0 ≤ card.freeVramGb := by
    obtain ⟨card, hcard, hnonneg⟩ := hexists
    have hone : scan.reading.remaining.length = 1 := by
      have hpos := length_pos_of_mem hcard
      omega
    obtain ⟨card', hcard'⟩ := length_eq_one_iff.mp hone
    rw [hcard', mem_singleton] at hcard
    rw [hcard] at hnonneg
    exact ⟨card', hcard', hnonneg⟩
  have hruns : scan.reading.runsOn
      ⟨turn.job, need, placementFor need scan.cardBudget, slots.length⟩ = some card := by
    unfold runsOn
    simp only [hplacement]
    exact hfirst card halone
  have hfree' := h.alone card halone hnonneg
  have hholds := Int64.le_iff_toInt_le.mp hfits
  have hsub := toInt_sub_of_fits (Std.le_of_lt hneed) fun _ => hfits
  refine ⟨⟨?_, ?_, ?_, ?_⟩, card, by rw [halone]; exact mem_singleton_self _, hruns, by omega⟩
  · rw [hreading, hbudget]
    exact h.boards
  · rw [hbudget]
    intro _ _ _ _ hlong
    omega
  · rw [hreading, hfree, hstarted]
    intro card' halone' _
    rw [halone, List.cons.injEq] at halone'
    rw [← halone'.1, taken_cons, takes_here hruns (Std.le_of_lt hneed), hsub]
    dsimp only
    omega
  · rw [hbudget]
    intro _ hlong
    omega

/-- A start that needs nothing and is named no board leaves the budgets. -/
theorem OpenTo.idle (h : OpenTo scan) (hplacement : placementFor need scan.cardBudget = none)
    (hneed : need = 0) : OpenTo (startSlot H scan slots turn need cores).1 := by
  obtain ⟨hreading, hfree, -⟩ := startSlot_fields H scan slots turn need cores
  have hbudget : (startSlot H scan slots turn need cores).1.cardBudget = scan.cardBudget :=
    startSlot_unnamed hplacement
  have htaken : ∀ card, scan.reading.taken card
      (startSlot H scan slots turn need cores).1.started = scan.reading.taken card scan.started :=
    taken_startSlot_zero (by rw [hneed]; exact Std.le_refl _)
  have hfree' : scan.freeVramGb - need = scan.freeVramGb := by rw [hneed, Int64.sub_zero]
  rw [hfree'] at hfree
  constructor
  · rw [hreading, hbudget]
    exact h.boards
  · rw [hreading, hbudget]
    intro card hcard free hmem hlong
    rw [htaken]
    exact h.left card hcard free hmem hlong
  · rw [hreading, hfree]
    intro card halone hnonneg
    rw [htaken]
    exact h.alone card halone hnonneg
  · rw [hreading, hbudget, hfree]
    exact h.widest

/-- One more start under the condition: placed, and the budgets stand. -/
theorem Budgeted.startSlot (h : Budgeted scan) (hneed : 0 ≤ need)
    (hfits : 0 < need → need ≤ scan.freeVramGb) (hplaceable : 0 < need → scan.reading.Placeable) :
    Budgeted (startSlot H scan slots turn need cores).1 := by
  obtain ⟨hreading, hfree, hstarted⟩ := startSlot_fields H scan slots turn need cores
  have hkeys : ((Stado.Agent.startSlot H scan slots turn need cores).1.cardBudget.map
      (·.1)).Nodup := by
    rw [h.keys_startSlot]
    exact h.keys
  have hplacedOn : ∀ card ∈ scan.reading.remaining, scan.reading.runsOn
      ⟨turn.job, need, placementFor need scan.cardBudget, slots.length⟩ = some card →
        need.toInt ≤ card.freeVramGb.toInt - scan.reading.taken card scan.started →
          (Stado.Agent.startSlot H scan slots turn need cores).1.reading.Placed
            (Stado.Agent.startSlot H scan slots turn need cores).1.started := by
    intro card hcard hruns hwithin
    rw [hreading, hstarted]
    exact ⟨fun _ => ⟨card, hruns, (mem_remaining.mp hcard).2, hwithin⟩, h.placed⟩
  have hplacedZero : need = 0 →
      (Stado.Agent.startSlot H scan slots turn need cores).1.reading.Placed
        (Stado.Agent.startSlot H scan slots turn need cores).1.started := by
    intro hzero
    rw [hreading, hstarted]
    refine ⟨fun hpos => ?_, h.placed⟩
    dsimp only at hpos
    rw [hzero] at hpos
    exact absurd hpos Std.lt_irrefl
  rcases h.offered with hclosed | hopen
  · have hzero : need = 0 := by
      refine Std.le_antisymm ?_ hneed
      refine Std.not_lt.mp fun hpos => ?_
      exact Std.not_lt.mpr (Std.le_trans (hfits hpos) hclosed) hpos
    refine ⟨hkeys, hplacedZero hzero, .inl ?_⟩
    rw [hfree, hzero, Int64.sub_zero]
    exact hclosed
  · rcases hplacement : placementFor need scan.cardBudget with _ | uuid
    · by_cases hzero : need = 0
      · exact ⟨hkeys, hplacedZero hzero, .inr (hopen.idle hplacement hzero)⟩
      · have hpos : 0 < need := Std.lt_of_le_of_ne hneed (Ne.symm hzero)
        obtain ⟨hopen', card, hcard, hruns, hwithin⟩ :=
          hopen.unnamed hplacement hpos (hfits hpos) (hplaceable hpos)
        exact ⟨hkeys, hplacedOn card hcard hruns hwithin, .inr hopen'⟩
    · obtain ⟨hlength, free, hmem, hholds, hmax⟩ := placementFor_some hplacement
      obtain ⟨hopen', card, hcard, hruns, hwithin⟩ :=
        hopen.named h.keys ⟨hmem, hholds, hmax⟩ hplacement hlength hneed hfits
      exact ⟨hkeys, hplacedOn card hcard hruns hwithin, .inr hopen'⟩

/-- One more start under the condition raises no budget. -/
theorem Budgeted.lowers (h : Budgeted scan) (hneed : 0 ≤ need)
    (hfits : 0 < need → need ≤ scan.freeVramGb) :
    scan.Lowers (Stado.Agent.startSlot H scan slots turn need cores).1 := by
  obtain ⟨-, hfree, -⟩ := startSlot_fields H scan slots turn need cores
  constructor
  · rw [hfree]
    exact sub_le_of_fits hneed hfits
  · rcases hplacement : placementFor need scan.cardBudget with _ | uuid
    · rw [startSlot_unnamed hplacement, forall₂_same]
      exact fun entry _ => ⟨rfl, Std.le_refl _⟩
    · obtain ⟨-, free, hmem, hholds, hmax⟩ := placementFor_some hplacement
      have hnames : Names scan need uuid free := ⟨hmem, hholds, hmax⟩
      rw [hnames.charged h.keys hplacement, forall₂_map_right_iff, forall₂_same]
      intro entry hentry
      by_cases hid : entry.1 = uuid
      · have heq : entry = (uuid, free) := inj_on_of_nodup_map h.keys hentry hmem hid
        rw [if_pos hid, heq]
        exact ⟨rfl, sub_le_of_fits hneed fun _ => hholds⟩
      · rw [if_neg hid]
        exact ⟨rfl, Std.le_refl _⟩

theorem Budgeted.ended (h : Budgeted scan) (ended : Bool) :
    Budgeted { scan with ended := ended } := by
  refine ⟨h.keys, h.placed, h.offered.imp id fun hopen => ?_⟩
  exact ⟨hopen.boards, hopen.left, hopen.alone, hopen.widest⟩

theorem Scan.lowers_ended (scan : Scan) (ended : Bool) :
    scan.Lowers { scan with ended := ended } := by
  refine ⟨Std.le_refl _, ?_⟩
  rw [forall₂_same]
  exact fun _ _ => ⟨rfl, Std.le_refl _⟩

/-- A candidate's turn under the condition. -/
theorem Budgeted.next (h : Budgeted scan) (hscan : agent.scan = some scan)
    (htakes : TakesVram H agent (.turn turn)) :
    Budgeted (claimTurn H scan agent.slots turn).1 ∧
      scan.Lowers (claimTurn H scan agent.slots turn).1 := by
  rcases claimTurn_cases H scan agent.slots turn with ⟨ended, hturn⟩ | ⟨need, cores, hstarts, hturn⟩
  · rw [hturn]
    exact ⟨h.ended ended, scan.lowers_ended ended⟩
  · obtain ⟨hneed, hplaceable⟩ := htakes scan need cores hscan hstarts
    have hfits : 0 < need → need ≤ scan.freeVramGb := candidateFit_free hstarts.fits
    rw [hturn]
    exact ⟨h.startSlot hneed hfits hplaceable, h.lowers hneed hfits⟩

def Sound (agent : AgentLoop) : Prop := ∀ scan, agent.scan = some scan → Budgeted scan

theorem sound_step {agent' : AgentLoop} {a : Step} (h : Sound agent)
    (htakes : TakesVram H agent a) (hstep : agent.step H a = some agent') : Sound agent' := by
  cases a with
  | openScan A =>
    unfold AgentLoop.step AgentLoop.openScan at hstep
    dsimp only at hstep
    split at hstep
    · cases hstep
    · rw [bind_eq_some_iff] at hstep
      obtain ⟨offered, hoffered, hstep⟩ := hstep
      rw [bind_eq_some_iff] at hstep
      obtain ⟨offered', hoffered', hstep⟩ := hstep
      split at hstep
      · cases hstep
        intro scan hscan
        cases hscan
        exact budgeted_opened (measure_offers hoffered' (beforeAdmission_offers hoffered))
          (measure_named hoffered' (beforeAdmission_named hoffered))
      · cases hstep
  | turn turn =>
    unfold AgentLoop.step AgentLoop.turn at hstep
    dsimp only at hstep
    rw [bind_eq_some_iff] at hstep
    obtain ⟨scan, hscan, hstep⟩ := hstep
    split at hstep
    · cases hstep
    · cases hstep
      intro scan' hscan'
      cases hscan'
      exact ((h scan hscan).next hscan htakes).1
  | close =>
    unfold AgentLoop.step at hstep
    dsimp only at hstep
    rw [map_eq_some_iff] at hstep
    obtain ⟨_, -, rfl⟩ := hstep
    intro scan hscan
    cases hscan
  | remove i =>
    unfold AgentLoop.step at hstep
    dsimp only at hstep
    split at hstep
    · cases hstep
    · cases hstep
      intro scan hscan
      cases hscan
  | sample i used =>
    unfold AgentLoop.step at hstep
    dsimp only at hstep
    split at hstep
    · cases hstep
    · cases hstep
      intro scan hscan
      cases hscan

/-! ## A start outside the condition -/

theorem taken_nonneg (card : GpuCard) (started : List Start) : 0 ≤ A.taken card started := by
  induction started with
  | nil => exact le_refl 0
  | cons start earlier ih =>
    rw [taken_cons]
    have htakes : 0 ≤ A.takes card start := by
      unfold takes
      split
      · exact le_max_left _ _
      · exact le_refl 0
    omega

/-- A board entry never stands above a reading without VRAM. -/
theorem OpenTo.negative (h : OpenTo scan)
    (hnone : ∀ card ∈ scan.reading.remaining, card.freeVramGb < 0)
    (hmem : (uuid, free) ∈ scan.cardBudget) (hlength : 1 < scan.cardBudget.length) : free < 0 := by
  have huuid : uuid ∈ scan.cardBudget.map (·.1) := List.mem_map_of_mem hmem
  rw [h.boards.mem_iff, List.mem_map] at huuid
  obtain ⟨card, hcard, rfl⟩ := huuid
  have hleft := h.left card hcard free hmem hlength
  have htaken : 0 ≤ scan.reading.taken card scan.started := taken_nonneg card scan.started
  have hcardless := hnone card hcard
  rw [Int64.lt_iff_toInt_lt, Int64.toInt_zero] at hcardless ⊢
  omega

/-- Where no board may be told, no board is named, and the driver's first may not
take the job. -/
theorem OpenTo.unplaced (h : OpenTo scan) (hneed : 0 < need) (hplaceable : ¬scan.reading.Placeable) :
    ∀ card, scan.reading.runsOn
      ⟨turn.job, need, placementFor need scan.cardBudget, slots.length⟩ = some card →
        scan.reading.withdraws card = false →
          ¬need.toInt ≤ card.freeVramGb.toInt - scan.reading.taken card scan.started := by
  intro card hruns hkept hwithin
  have htaken : 0 ≤ scan.reading.taken card scan.started := taken_nonneg card scan.started
  have hpos := zero_lt_iff.mp hneed
  have hunnamed : placementFor need scan.cardBudget = none → scan.reading.Placeable := by
    intro hplacement
    have hfirst : scan.reading.boards.head? = some card := by
      unfold runsOn at hruns
      simpa only [hplacement] using hruns
    have hcard : card ∈ scan.reading.remaining := mem_remaining.mpr ⟨mem_of_mem_head? hfirst, hkept⟩
    refine ⟨⟨card, hcard, ?_⟩, fun card' halone => ?_⟩
    · rw [zero_le_iff]
      omega
    · rw [halone, mem_singleton] at hcard
      rw [← hcard]
      exact hfirst
  rcases hplacement : placementFor need scan.cardBudget with _ | uuid
  · exact hplaceable (hunnamed hplacement)
  · obtain ⟨hlength, free, hmem, hholds, -⟩ := placementFor_some hplacement
    refine hplaceable ⟨?_, fun card' halone => ?_⟩
    · by_contra hall
      have hnone : ∀ card ∈ scan.reading.remaining, card.freeVramGb < 0 := by
        intro card' hcard'
        exact Std.not_le.mp fun hle => hall ⟨card', hcard', hle⟩
      have hless := h.negative hnone hmem hlength
      rw [Int64.lt_iff_toInt_lt, Int64.toInt_zero] at hless
      rw [Int64.le_iff_toInt_le] at hholds
      omega
    · have hlen := h.boards.length_eq
      rw [length_map, length_map, halone, length_singleton] at hlen
      omega

/-- A start that gives VRAM back raises the free figure, unless the figure leaves
its range. -/
theorem not_lowers_of_negative (hneed : need < 0)
    (hrange : scan.freeVramGb.toInt - need.toInt < 2 ^ 63) :
    ¬scan.Lowers (startSlot H scan slots turn need cores).1 := by
  rintro ⟨hfree, -⟩
  obtain ⟨-, hfree', -⟩ := startSlot_fields H scan slots turn need cores
  have hge := Int64.le_toInt scan.freeVramGb
  rw [Int64.lt_iff_toInt_lt, Int64.toInt_zero] at hneed
  rw [hfree', Int64.le_iff_toInt_le, Int64.toInt_sub, Int.bmod_eq_of_le] at hfree
  · omega
  · omega
  · omega

def InRange (H : Host) (scan : Scan) (slots : List Slot) (turn : Turn) : Prop :=
  ∀ need cores, Starts H scan slots turn need cores → scan.freeVramGb.toInt - need.toInt < 2 ^ 63

/-- A turn that keeps the claim met the condition. -/
theorem Budgeted.takes (h : Budgeted scan) (hscan : agent.scan = some scan)
    (hrange : InRange H scan agent.slots turn)
    (hplaced : scan.reading.Placed (claimTurn H scan agent.slots turn).1.started)
    (hlowers : scan.Lowers (claimTurn H scan agent.slots turn).1) :
    TakesVram H agent (.turn turn) := by
  intro scan' need cores hscan' hstarts
  rw [hscan] at hscan'
  cases hscan'
  have hturn : claimTurn H scan agent.slots turn =
      Stado.Agent.startSlot H scan agent.slots turn need cores :=
    hstarts.claimTurn_eq
  rw [hturn] at hplaced hlowers
  refine ⟨Std.not_lt.mp fun hneg => ?_, fun hpos => ?_⟩
  · exact not_lowers_of_negative hneg (hrange need cores hstarts) hlowers
  · by_contra hplaceable
    obtain ⟨-, -, hstarted⟩ := startSlot_fields H scan agent.slots turn need cores
    rw [hstarted] at hplaced
    obtain ⟨card, hruns, hkept, hwithin⟩ := hplaced.1 hpos
    rcases h.offered with hclosed | hopen
    · have hfree := candidateFit_free hstarts.fits hpos
      exact Std.not_lt.mpr (Std.le_trans hfree hclosed) hpos
    · exact hopen.unplaced hpos hplaceable card hruns hkept hwithin

/-- **GPU work is placed only on boards that may take it**: in every claim scan
whose starts meet the condition, over any boards, reservation, total, slots and
queue; and a turn outside it breaks the claim. -/
theorem boards_may_take {agent agent' : AgentLoop} (hidle : agent.scan = none)
    (hr : Reaches (step H) (TakesVram H) agent agent') (hscan : agent'.scan = some scan) :
    scan.reading.Placed scan.started ∧ scan.reading.Within scan.started ∧ ∀ turn,
        (TakesVram H agent' (.turn turn) → scan.Lowers (claimTurn H scan agent'.slots turn).1) ∧
        (InRange H scan agent'.slots turn →
          scan.reading.Placed (claimTurn H scan agent'.slots turn).1.started →
            scan.Lowers (claimTurn H scan agent'.slots turn).1 →
              TakesVram H agent' (.turn turn)) := by
  have hbudgeted : Budgeted scan := by
    refine hr.invariant (I := Sound) ?_ (fun _ _ _ h => sound_step h) scan hscan
    intro scan hscan
    rw [hidle] at hscan
    cases hscan
  refine ⟨hbudgeted.placed, within_of_placed hbudgeted.placed, fun turn => ⟨fun htakes => ?_, ?_⟩⟩
  · exact (hbudgeted.next hscan htakes).2
  · exact fun hrange hplaced hlowers => hbudgeted.takes hscan hrange hplaced hlowers

end Placement

/-! ## Runs on a host with two boards -/

namespace TwoBoards

def host : Host where
  gpuType := "nvidia-rtx"
  kind := "local"
  consumerId := "local-rig"
  toLowercase := id
  platformAccepts _ _ := true
  executesLocally := true
  modelOf _ := none
  isLocalOnlyModel _ := false
  isExclusiveModel _ := false
  sameVariant provider kind := provider == kind
  providerIsLocal provider := provider == "local"
  compatAccelTypes _ := []
  systemPackagesEligible _ := true

def sizes : Readings := ⟨fun _ => some none, fun _ => none⟩

def boards : Driver := ⟨[⟨"GPU-a", 96, 90⟩, ⟨"GPU-b", 96, 80⟩], by decide⟩

def reading (reservation : Option Reservation) (driver : Driver) : Reading where
  totalVramGb := 96
  pinnedOnly := false
  selfTerminated := false
  reservation := .ok reservation
  vastActive := false
  sizes := sizes
  driver := .ok driver
  queuedWins := false
  containerRunning := .ok false
  pauseSucceeds := false
  refuseDisk := false
  settling := false
  cudaOk := true
  admits := true
  availableCpuCores := some 64

/-- A job of `gpuMemGb`, which the fleet's sizing says nothing more of. -/
def job (jobId machineType : String) (gpuMemGb : Int64) : Job where
  jobId := jobId
  command := "python train.py"
  gpuMemGb := gpuMemGb
  gpuType := ""
  machineType := machineType
  provider := "local"
  pinToProvider := false
  priority := 0
  runId := ""
  outputUri := ""
  pinnedHost := ""
  assignedTo := ""
  exclusive := false
  platformOs := ""
  architecture := ""
  cpuCores := 1
  repo := ""
  aptPackages := []
  preCommand := ""

def starts (job : Job) : Turn := ⟨job, sizes, true, true, .held, .started⟩

def idle : AgentLoop := ⟨[], none⟩

/-- The condition, checked on what a candidate needs. -/
def met (agent : AgentLoop) : Step → Bool
  | .turn turn => agent.scan.all fun scan => turn.need.all fun need =>
    decide (0 ≤ need) && scan.reading.remaining.any (fun card => decide (0 ≤ card.freeVramGb)) &&
      decide (scan.reading.remaining.length ≠ 1)
  | _ => true

theorem takesVram_of_met {a : Step} (h : met agent a = true) : TakesVram host agent a := by
  cases a with
  | turn turn =>
    intro scan need cores hscan hstarts
    unfold met at h
    simp only [hscan, candidateFit_need hstarts.fits, all_some] at h
    rw [Bool.and_eq_true, Bool.and_eq_true, decide_eq_true_eq, decide_eq_true_eq,
      List.any_eq_true] at h
    obtain ⟨⟨hneed, card, hcard, hnonneg⟩, hmany⟩ := h
    refine ⟨hneed, fun _ => ⟨⟨card, hcard, of_decide_eq_true hnonneg⟩, fun card' halone => ?_⟩⟩
    rw [halone] at hmany
    exact absurd rfl hmany
  | _ => trivial

def twoJobs : List Step :=
  [.openScan (reading none boards), .turn (starts (job "one" "gpu" 40)),
    .turn (starts (job "two" "gpu" 40))]

def placedApart (agent : AgentLoop) : Bool :=
  agent.scan.any fun scan => scan.started.map (·.placement) == [some "GPU-b", some "GPU-a"]

end TwoBoards

open TwoBoards in
theorem boards_may_take_two :
    ∃ agent' scan, Reaches (step host) (TakesVram host) idle agent' ∧
      agent'.scan = some scan ∧ scan.started.map (·.placement) = [some "GPU-b", some "GPU-a"] ∧
        scan.reading.Placed scan.started := by
  obtain ⟨agent', hr, hscan⟩ :
      ∃ agent', Reaches (step host) (fun agent a => met agent a = true) idle agent' ∧
        placedApart agent' = true :=
    exists_reaches twoJobs placedApart (by decide +kernel)
  unfold placedApart at hscan
  rw [Option.any_eq_true] at hscan
  obtain ⟨scan, hscan, hplacements⟩ := hscan
  have htakes := hr.mono fun _ _ => takesVram_of_met
  exact ⟨agent', scan, htakes, hscan, eq_of_beq hplacements, (boards_may_take rfl htakes hscan).1⟩

namespace TwoBoards

/-- The engine holds the driver's first board by name. -/
def reservedFirst : List Step :=
  [.openScan (reading (some ⟨"llm", .exclusive, some "GPU-a"⟩) boards),
    .turn (starts (job "one" "gpu" 40))]

/-- A host whose driver reports no board. -/
def unreported : List Step :=
  [.openScan (reading none ⟨[], nodup_nil⟩), .turn (starts (job "one" "gpu" 40))]

/-- A queued document with a negative figure. -/
def refund : Turn := starts (job "back" CPU_MACHINE_TYPE (-50))

/-- A start that needs VRAM runs on no board the reservation leaves. -/
def misplaced (agent : AgentLoop) : Bool :=
  agent.scan.any fun scan => scan.started.any fun start =>
    decide (0 < start.need) && (scan.reading.runsOn start).all scan.reading.withdraws

theorem not_placed_of_misplaced (h : misplaced agent = true) :
    ∃ scan, agent.scan = some scan ∧ ¬scan.reading.Placed scan.started := by
  unfold misplaced at h
  rw [Option.any_eq_true] at h
  obtain ⟨scan, hscan, h⟩ := h
  rw [List.any_eq_true] at h
  obtain ⟨start, hmem, h⟩ := h
  rw [Bool.and_eq_true, decide_eq_true_eq] at h
  obtain ⟨hneed, hall⟩ := h
  refine ⟨scan, hscan, fun hplaced => ?_⟩
  obtain ⟨card, hruns, hkept⟩ := hplaced.mem start hmem hneed
  rw [hruns, all_some, hkept] at hall
  cases hall

end TwoBoards

open TwoBoards in
/-- A job runs on the board an engine holds, a job runs on no board, and a
document with a negative figure raises what the next candidates are judged by. -/
theorem withdrawn_board_taken :
    (∃ agent' scan, Reaches (step host) always idle agent' ∧
      agent'.scan = some scan ∧ scan.reading.boards ≠ [] ∧ ¬scan.reading.Placed scan.started) ∧
    (∃ agent' scan, Reaches (step host) always idle agent' ∧
      agent'.scan = some scan ∧ scan.reading.boards = [] ∧ ¬scan.reading.Placed scan.started) ∧
    ∃ agent' scan, Reaches (step host) always idle agent' ∧
      agent'.scan = some scan ∧ ¬scan.Lowers (claimTurn host scan agent'.slots refund).1 := by
  refine ⟨?_, ?_, ?_⟩
  · obtain ⟨agent', hr, hend⟩ :
        ∃ agent', Reaches (step host) always idle agent' ∧
          (misplaced agent' && agent'.scan.all fun scan => !scan.reading.boards.isEmpty) = true :=
      exists_reaches reservedFirst (fun agent : AgentLoop => misplaced agent &&
        agent.scan.all fun scan => !scan.reading.boards.isEmpty) (by decide +kernel)
    rw [Bool.and_eq_true] at hend
    obtain ⟨hmisplaced, hboards⟩ := hend
    obtain ⟨scan, hscan, hnot⟩ := not_placed_of_misplaced hmisplaced
    refine ⟨agent', scan, hr, hscan, ?_, hnot⟩
    simpa [hscan] using hboards
  · obtain ⟨agent', hr, hend⟩ :
        ∃ agent', Reaches (step host) always idle agent' ∧
          (misplaced agent' && agent'.scan.all fun scan => scan.reading.boards.isEmpty) = true :=
      exists_reaches unreported (fun agent : AgentLoop => misplaced agent &&
        agent.scan.all fun scan => scan.reading.boards.isEmpty) (by decide +kernel)
    rw [Bool.and_eq_true] at hend
    obtain ⟨hmisplaced, hboards⟩ := hend
    obtain ⟨scan, hscan, hnot⟩ := not_placed_of_misplaced hmisplaced
    refine ⟨agent', scan, hr, hscan, ?_, hnot⟩
    simpa [hscan] using hboards
  · obtain ⟨agent', hr, hend⟩ :
        ∃ agent', Reaches (step host) always idle agent' ∧
          (agent'.scan.any fun scan => decide (scan.freeVramGb <
            (claimTurn host scan agent'.slots refund).1.freeVramGb)) = true :=
      exists_reaches [Step.openScan (reading none boards)]
        (fun agent : AgentLoop => agent.scan.any fun scan => decide (scan.freeVramGb <
          (claimTurn host scan agent.slots refund).1.freeVramGb)) (by decide +kernel)
    rw [Option.any_eq_true] at hend
    obtain ⟨scan, hscan, hraised⟩ := hend
    refine ⟨agent', scan, hr, hscan, fun hlowers => ?_⟩
    exact Std.not_lt.mpr hlowers.1 (of_decide_eq_true hraised)

end Stado.Agent
