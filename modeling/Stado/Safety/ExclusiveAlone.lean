import Stado.Safety.BoardPlacement

/-!
# Exclusive work and the accelerator

While no exclusive model is started beside a job that needs VRAM, and no job
that gives VRAM back is started beside an exclusive one, an exclusive slot is
the only one that needs VRAM. A job with its own flag always starts alone.
-/

namespace Stado.Agent

open Machine List Option AgentLoop

/-- Neither of two slots is exclusive while the other needs VRAM. -/
def Compatible (H : Host) (slot slot' : Slot) : Prop :=
  (H.slotIsExclusive slot = true → slot'.need ≤ 0) ∧
    (H.slotIsExclusive slot' = true → slot.need ≤ 0)

/-- Any two slots running together are compatible. -/
def ExclusiveAlone (H : Host) (slots : List Slot) : Prop := slots.Pairwise (Compatible H)

def FlaggedFirst (scan : Scan) : Prop :=
  ∀ start ∈ scan.started, start.job.exclusive = true → start.running = 0

/-- A job that starts beside an exclusive slot does not give VRAM back, and an
exclusive job starts beside no slot that needs VRAM. -/
def KeepsApart (H : Host) (agent : AgentLoop) : Step → Prop
  | .turn turn => ∀ scan need cores, agent.scan = some scan →
      Starts H scan agent.slots turn need cores →
        (agent.slots.any H.slotIsExclusive = true → 0 ≤ need) ∧
        (H.slotIsExclusive ⟨turn.job, need, 0⟩ = true → ∀ slot ∈ agent.slots, slot.need ≤ 0)
  | _ => True

/-- What the loop keeps: compatible slots, and in a scan that goes on beside an
exclusive slot no VRAM to claim. -/
structure Exclusive (H : Host) (agent : AgentLoop) : Prop where
  alone : ExclusiveAlone H agent.slots
  flagged : ∀ scan, agent.scan = some scan → FlaggedFirst scan
  held : ∀ scan, agent.scan = some scan → scan.ended = false →
    agent.slots.any H.slotIsExclusive = true → scan.freeVramGb ≤ 0

section Runs

variable {H : Host} {agent agent' : AgentLoop} {scan : Scan} {slots : List Slot} {turn : Turn}
  {need cores : Int64}

/-- A job with its own flag is eligible only where nothing runs. -/
theorem eligible_exclusive {job : Job} {vram : Int64} {count : ℕ} {pinned : Bool}
    (h : H.eligibilityRefusal job vram count pinned = none) (hflag : job.exclusive = true) :
    count = 0 := by
  by_contra hcount
  have hpos : decide (0 < count) = true := decide_eq_true (Nat.pos_of_ne_zero hcount)
  unfold Host.eligibilityRefusal at h
  rw [hflag, hpos] at h
  dsimp only at h
  split at h
  · cases h
  · split at h
    · cases h
    · split at h
      · cases h
      · rw [Bool.and_self, if_pos rfl] at h
        cases h

/-- Of two slots only the exclusivity and the need are read. -/
theorem exclusiveAlone_map :
    ExclusiveAlone H slots ↔ (slots.map fun slot => (H.slotIsExclusive slot, slot.need)).Pairwise
        fun x y => (x.1 = true → y.2 ≤ 0) ∧ (y.1 = true → x.2 ≤ 0) := by
  unfold ExclusiveAlone Compatible
  rw [pairwise_map]

theorem map_modify_sampled (i : ℕ) (used : Int64) :
    (slots.modify i (·.sampled used)).map (fun slot => (H.slotIsExclusive slot, slot.need)) =
      slots.map fun slot => (H.slotIsExclusive slot, slot.need) := by
  have hsampled : ∀ slot : Slot, H.slotIsExclusive (slot.sampled used) = H.slotIsExclusive slot ∧
      (slot.sampled used).need = slot.need := by
    intro slot
    unfold Slot.sampled Host.slotIsExclusive
    split
    · exact ⟨rfl, rfl⟩
    · exact ⟨rfl, rfl⟩
  induction slots generalizing i with
  | nil => simp
  | cons slot rest ih =>
    cases i with
    | zero => simp [hsampled slot]
    | succ i =>
      rw [modify_succ_cons, map_cons, map_cons, ih]

theorem ExclusiveAlone.sampled (h : ExclusiveAlone H slots) (i : ℕ) (used : Int64) :
    ExclusiveAlone H (slots.modify i (·.sampled used)) := by
  rw [exclusiveAlone_map, map_modify_sampled]
  exact exclusiveAlone_map.mp h

/-- One more slot beside compatible ones. -/
theorem ExclusiveAlone.append (h : ExclusiveAlone H slots) (slot : Slot)
    (hnew : ∀ other ∈ slots, Compatible H other slot) : ExclusiveAlone H (slots ++ [slot]) := by
  unfold ExclusiveAlone
  rw [pairwise_append]
  refine ⟨h, pairwise_singleton _ _, fun other hother last hlast => ?_⟩
  rw [mem_singleton] at hlast
  rw [hlast]
  exact hnew other hother

/-- A start beside an exclusive slot, where no VRAM is left, needs none. -/
theorem need_of_held (hfit : candidateFit scan slots turn = .fits need cores)
    (hfree : scan.freeVramGb ≤ 0) : need ≤ 0 := by
  refine Std.not_lt.mp fun hpos => ?_
  exact Std.not_lt.mpr (Std.le_trans (candidateFit_free hfit hpos) hfree) hpos

theorem startSlot_slots (H : Host) (scan : Scan) (slots : List Slot) (turn : Turn)
    (need cores : Int64) :
    (startSlot H scan slots turn need cores).2 = slots ++ [⟨turn.job, need, 0⟩] := by
  unfold startSlot
  rfl

theorem startSlot_ended (h : (startSlot H scan slots turn need cores).1.ended = false) :
    H.slotIsExclusive ⟨turn.job, need, 0⟩ = false := by
  unfold startSlot at h
  dsimp only at h
  rw [Bool.or_eq_false_iff, Bool.or_eq_false_iff, Bool.or_eq_false_iff] at h
  exact h.1.1.1

/-- A candidate's turn keeps the loop's invariant. -/
theorem Exclusive.next (h : Exclusive H agent) (hscan : agent.scan = some scan)
    (hgoes : scan.ended = false) (hapart : KeepsApart H agent (.turn turn)) :
    Exclusive H ⟨(claimTurn H scan agent.slots turn).2,
      some (claimTurn H scan agent.slots turn).1⟩ := by
  rcases claimTurn_cases H scan agent.slots turn with ⟨ended, hturn⟩ | ⟨need, cores, hstarts, hturn⟩
  · rw [hturn]
    refine ⟨h.alone, ?_, ?_⟩
    · intro scan' hscan'
      cases hscan'
      exact h.flagged scan hscan
    · intro scan' hscan' _ hexclusive
      cases hscan'
      exact h.held scan hscan hgoes hexclusive
  · obtain ⟨hgives, hexclusive⟩ := hapart scan need cores hscan hstarts
    have hheld := h.held scan hscan hgoes
    rw [hturn]
    refine ⟨?_, ?_, ?_⟩
    · dsimp only
      rw [startSlot_slots]
      refine h.alone.append _ fun other hother => ⟨fun hother' => ?_, fun hnew => ?_⟩
      · have hany : agent.slots.any H.slotIsExclusive = true :=
          List.any_eq_true.mpr ⟨other, hother, hother'⟩
        exact need_of_held hstarts.fits (hheld hany)
      · exact hexclusive hnew other hother
    · intro scan' hscan'
      cases hscan'
      intro start hstart hflag
      unfold startSlot at hstart
      dsimp only at hstart
      rcases mem_cons.mp hstart with rfl | hstart
      · exact eligible_exclusive hstarts.eligible hflag
      · exact h.flagged scan hscan start hstart hflag
    · intro scan' hscan' hgoes' hany
      cases hscan'
      dsimp only at hany
      rw [startSlot_slots, any_append, any_cons, any_nil, Bool.or_false,
        startSlot_ended hgoes', Bool.or_false] at hany
      have hfree := hheld hany
      have hzero : need = 0 := Std.le_antisymm (need_of_held hstarts.fits hfree) (hgives hany)
      unfold startSlot
      dsimp only
      rw [hzero, Int64.sub_zero]
      exact hfree

theorem exclusive_step {a : Step} (h : Exclusive H agent) (hapart : KeepsApart H agent a)
    (hstep : agent.step H a = some agent') : Exclusive H agent' := by
  have hidle : ∀ slots, ExclusiveAlone H slots → Exclusive H ⟨slots, none⟩ := by
    intro slots halone
    exact ⟨halone, (fun _ hscan => by cases hscan), fun _ hscan => by cases hscan⟩
  cases a with
  | openScan A =>
    unfold AgentLoop.step AgentLoop.openScan at hstep
    dsimp only at hstep
    split at hstep
    · cases hstep
    · rw [bind_eq_some_iff] at hstep
      obtain ⟨offered, hoffered, hstep⟩ := hstep
      rw [bind_eq_some_iff] at hstep
      obtain ⟨offered', hoffered', hstep⟩ := hstep
      split at hstep
      · cases hstep
        refine ⟨h.alone, ?_, ?_⟩
        · intro scan hscan
          cases hscan
          exact fun start hstart => by cases hstart
        · intro scan hscan _ hany
          cases hscan
          exact measure_free hoffered' (beforeAdmission_exclusive hany hoffered)
      · cases hstep
  | turn turn =>
    unfold AgentLoop.step AgentLoop.turn at hstep
    dsimp only at hstep
    rw [bind_eq_some_iff] at hstep
    obtain ⟨scan, hscan, hstep⟩ := hstep
    split at hstep
    · cases hstep
    · next hgoes =>
      cases hstep
      exact h.next hscan (Bool.eq_false_iff.mpr hgoes) hapart
  | close =>
    unfold AgentLoop.step at hstep
    dsimp only at hstep
    rw [map_eq_some_iff] at hstep
    obtain ⟨_, -, rfl⟩ := hstep
    exact hidle _ h.alone
  | remove i =>
    unfold AgentLoop.step at hstep
    dsimp only at hstep
    split at hstep
    · cases hstep
    · cases hstep
      exact hidle _ (h.alone.sublist (eraseIdx_sublist _ i))
  | sample i used =>
    unfold AgentLoop.step at hstep
    dsimp only at hstep
    split at hstep
    · cases hstep
    · cases hstep
      exact hidle _ (h.alone.sampled i used)

/-- **Exclusive work has the accelerator to itself**: in every run of one agent
from no slots, whose starts meet the condition. -/
theorem exclusive_has_accelerator (hr : Reaches (step H) (KeepsApart H) ⟨[], none⟩ agent) :
    ExclusiveAlone H agent.slots ∧ ∀ scan, agent.scan = some scan → FlaggedFirst scan := by
  have hexclusive : Exclusive H agent := by
    refine hr.invariant (I := Exclusive H) ?_ fun _ _ _ h => exclusive_step h
    exact ⟨List.Pairwise.nil, (fun _ hscan => by cases hscan), fun _ hscan => by cases hscan⟩
  exact ⟨hexclusive.alone, hexclusive.flagged⟩

end Runs

/-! ## Runs with an exclusive model -/

namespace TwoBoards

/-- The fleet's policy lists the model `flux` as exclusive. -/
def fluxHost : Host :=
  { host with
    modelOf := fun command => if command == "flux" then some "flux" else none
    isExclusiveModel := fun model => model == "flux" }

def flux : Job := { job "flux" "gpu" 20 with command := "flux" }

def flagged : Job := { job "flagged" "gpu" 20 with exclusive := true }

/-- One scan over the candidates. -/
def scanOf (turns : List Turn) : List Step :=
  .openScan (reading none boards) :: turns.map .turn ++ [.close]

/-- The condition, checked on what a candidate needs. -/
def keeps (agent : AgentLoop) : Step → Bool
  | .turn turn => turn.need.all fun need =>
    decide (0 ≤ need) && (!fluxHost.slotIsExclusive ⟨turn.job, need, 0⟩ ||
      agent.slots.all fun slot => decide (slot.need ≤ 0))
  | _ => true

theorem keepsApart_of_keeps {agent : AgentLoop} {a : Step} (h : keeps agent a = true) :
    KeepsApart fluxHost agent a := by
  cases a with
  | turn turn =>
    intro scan need cores hscan hstarts
    unfold keeps at h
    dsimp only at h
    rw [candidateFit_need hstarts.fits, all_some, Bool.and_eq_true, decide_eq_true_eq,
      Bool.or_eq_true, List.all_eq_true] at h
    obtain ⟨hneed, hapart⟩ := h
    refine ⟨fun _ => hneed, fun hexclusive slot hslot => ?_⟩
    rw [hexclusive] at hapart
    rcases hapart with hapart | hapart
    · cases hapart
    · exact of_decide_eq_true (hapart slot hslot)
  | _ => trivial

/-- A job without VRAM, then the exclusive model, then a job the host has no
VRAM for. -/
def beside : List Step :=
  scanOf [starts (job "cpu" CPU_MACHINE_TYPE 0), starts flux] ++
    scanOf [starts (job "gpu" "gpu" 20)]

def twoRun (agent : AgentLoop) : Bool := agent.slots.map (·.need) == [0, 20]

end TwoBoards

open TwoBoards in
theorem exclusive_has_accelerator_beside :
    ∃ agent, Reaches (step fluxHost) (KeepsApart fluxHost) ⟨[], none⟩ agent ∧
      agent.slots.map (·.need) = [0, 20] ∧ ExclusiveAlone fluxHost agent.slots := by
  obtain ⟨agent, hr, hslots⟩ :
      ∃ agent, Reaches (step fluxHost) (fun agent a => keeps agent a = true)
        ⟨[], none⟩ agent ∧ twoRun agent = true :=
    exists_reaches beside twoRun (by decide +kernel)
  have hapart := hr.mono fun _ _ => keepsApart_of_keeps
  exact ⟨agent, hapart, eq_of_beq hslots, (exclusive_has_accelerator hapart).1⟩

namespace TwoBoards

/-- The exclusive model is claimed beside a job that needs VRAM. -/
def joined : List Step := scanOf [starts (job "gpu" "gpu" 20)] ++ scanOf [starts flux]

/-- A document with a negative figure opens an exclusive job's host again. -/
def reopened : List Step :=
  scanOf [starts flagged] ++
    scanOf [starts (job "back" CPU_MACHINE_TYPE (-50)), starts (job "gpu" "gpu" 40)]

def crowded (agent : AgentLoop) : Bool :=
  agent.slots.head?.any fun first => agent.slots.getLast?.any fun last =>
    decide (1 < agent.slots.length) && decide (0 < first.need) && decide (0 < last.need) &&
      (fluxHost.slotIsExclusive first || fluxHost.slotIsExclusive last)

theorem not_alone_of_crowded {agent : AgentLoop} (h : crowded agent = true) :
    ¬ExclusiveAlone fluxHost agent.slots := by
  unfold crowded at h
  rw [Option.any_eq_true] at h
  obtain ⟨first, hfirst, h⟩ := h
  rw [Option.any_eq_true] at h
  obtain ⟨last, hlast, h⟩ := h
  rw [Bool.and_eq_true, Bool.and_eq_true, Bool.and_eq_true, decide_eq_true_eq, decide_eq_true_eq,
    decide_eq_true_eq, Bool.or_eq_true] at h
  obtain ⟨⟨⟨hlength, hneed⟩, hneed'⟩, hexclusive⟩ := h
  intro halone
  obtain ⟨rest, hslots⟩ := List.head?_eq_some_iff.mp hfirst
  have hmem : last ∈ rest := by
    rw [hslots] at hlast hlength
    rcases rest with _ | ⟨next, rest⟩
    · simp at hlength
    · rw [List.getLast?_cons_cons] at hlast
      exact mem_of_getLast? hlast
  unfold ExclusiveAlone at halone
  rw [hslots, pairwise_cons] at halone
  obtain ⟨hlast', hfirst'⟩ := halone.1 last hmem
  rcases hexclusive with hexclusive | hexclusive
  · exact Std.not_lt.mpr (hlast' hexclusive) hneed'
  · exact Std.not_lt.mpr (hfirst' hexclusive) hneed

end TwoBoards

open TwoBoards in
/-- An exclusive model starts beside a job that needs VRAM, and a job that needs
VRAM starts beside an exclusive one. -/
theorem exclusive_shares_accelerator :
    (∃ agent, Reaches (step fluxHost) always ⟨[], none⟩ agent ∧
      agent.slots.map (·.job) = [job "gpu" "gpu" 20, flux] ∧ ¬ExclusiveAlone fluxHost agent.slots) ∧
      ∃ agent, Reaches (step fluxHost) always ⟨[], none⟩ agent ∧ agent.slots.map (·.job) =
          [flagged, job "back" CPU_MACHINE_TYPE (-50), job "gpu" "gpu" 40] ∧
            ¬ExclusiveAlone fluxHost agent.slots := by
  constructor
  · obtain ⟨agent, hr, hend⟩ :
        ∃ agent, Reaches (step fluxHost) always ⟨[], none⟩ agent ∧
          (crowded agent && agent.slots.map (·.job) == [job "gpu" "gpu" 20, flux]) = true :=
      exists_reaches joined (fun agent : AgentLoop => crowded agent &&
        agent.slots.map (·.job) == [job "gpu" "gpu" 20, flux]) (by decide +kernel)
    rw [Bool.and_eq_true] at hend
    obtain ⟨hcrowded, hslots⟩ := hend
    exact ⟨agent, hr, eq_of_beq hslots, not_alone_of_crowded hcrowded⟩
  · obtain ⟨agent, hr, hend⟩ :
        ∃ agent, Reaches (step fluxHost) always ⟨[], none⟩ agent ∧
          (crowded agent && agent.slots.map (·.job) ==
            [flagged, job "back" CPU_MACHINE_TYPE (-50), job "gpu" "gpu" 40]) = true :=
      exists_reaches reopened (fun agent : AgentLoop => crowded agent &&
        agent.slots.map (·.job) ==
          [flagged, job "back" CPU_MACHINE_TYPE (-50), job "gpu" "gpu" 40]) (by decide +kernel)
    rw [Bool.and_eq_true] at hend
    obtain ⟨hcrowded, hslots⟩ := hend
    exact ⟨agent, hr, eq_of_beq hslots, not_alone_of_crowded hcrowded⟩

end Stado.Agent
