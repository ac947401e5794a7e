import Stado.Library.Checks
import Stado.Library.Rising
import Stado.Rollout.Retirements

/-!
# Automatic retries are bounded

The trail lists exactly the retirements of a digest that reached it, while it
can be counted at all; a trail that cannot permits none. So a digest is retried
only with more room than at every earlier retry, unless no earlier retry read
any room: those bind nothing, and go on as long as no reading can be taken.
-/

namespace Stado.Rollout

open List Retired RetireVerdict Written

variable {causes : Causes} {site : AgentSite} {digest : Digest} {file : Option AuditFile}
  {history : List Retired} {state : HostReleaseState} {before : List Retired}
  {answers : PassAnswers}

/-! ## The trail and the history -/

/-- A trail with no unreadable line lists the retirements of the history. -/
structure Lists (product : String) (digest : Digest) (file : Option AuditFile)
    (history : List Retired) : Prop where
  absent : file = none → history = []
  rooms : ∀ f, file = some f → .notJson ∉ f.lines →
    countedRooms product digest f.lines = history.map room

theorem Lists.append (h : Lists site.product digest file history) (line : AuditLine) (ended : Bool)
    (more : List Retired) (hline : countedRooms site.product digest [line] = more.map room) :
    Lists site.product digest (some (AuditFile.append line ended file)) (history ++ more) := by
  refine ⟨nofun, ?_⟩
  rintro f hf hjson
  rw [← Option.some.inj hf] at hjson ⊢
  cases file with
  | none =>
    rw [h.absent rfl, nil_append]
    exact hline
  | some f =>
    by_cases htorn : f.torn = true
    · rw [AuditFile.append_torn htorn] at hjson
      exact absurd (mem_append_right _ mem_cons_self) hjson
    · rw [AuditFile.append_whole htorn] at hjson ⊢
      have hlines : .notJson ∉ f.lines := fun hmem => hjson (mem_append_left _ hmem)
      rw [countedRooms_append, h.rooms f rfl hlines, hline, map_append]

theorem Lists.broken (history : List Retired) (ended : Bool) (file : Option AuditFile) :
    Lists site.product digest (some (AuditFile.append .notJson ended file)) history := by
  refine ⟨nofun, ?_⟩
  rintro f hf hjson
  rw [← Option.some.inj hf] at hjson
  refine absurd ?_ hjson
  cases file with
  | none => exact mem_cons_self
  | some f =>
    by_cases htorn : f.torn = true
    · rw [AuditFile.append_torn htorn]
      exact mem_append_right _ mem_cons_self
    · rw [AuditFile.append_whole htorn]
      exact mem_append_right _ mem_cons_self

theorem counts_own (answers : PassAnswers) :
    countedRooms site.product digest
      [.entry ⟨some agentActor, some site.product, some digest, .named answers.now,
        answers.room⟩] = [answers.room] := by
  rw [countedRooms, if_pos (by simp [AuditEntry.counts])]
  rfl

theorem Lists.pass (h : Lists site.product digest file history) (answers : PassAnswers)
    (state : HostReleaseState) :
    Lists site.product digest (retirePass causes site digest answers state file).2.2
      (history ++ retiredBy answers
        (retireDecision causes site digest answers state file)) := by
  unfold retirePass
  cases hdecision : retireDecision causes site digest answers state file with
  | error why =>
    show Lists _ _ file (history ++ [])
    rw [append_nil]
    exact h
  | ok verdict =>
    have hkept : Lists site.product digest file (history ++ []) := by
      rw [append_nil]
      exact h
    cases verdict with
    | candidateHeld cause => exact hkept
    | waiting retiredAt best now => exact hkept
    | bindHeld holder => exact hkept
    | retire cause =>
      cases hwritten : answers.written with
      | whole =>
        simp only [isRetire, recordRetirement, hwritten, retiredBy, reached, if_true]
        exact h.append _ true [⟨cause, answers.room⟩] (counts_own answers)
      | unended why =>
        simp only [isRetire, recordRetirement, hwritten, retiredBy, reached, if_true]
        exact h.append _ false [⟨cause, answers.room⟩] (counts_own answers)
      | unopened why =>
        simp only [isRetire, recordRetirement, hwritten, retiredBy, reached, if_true]
        exact hkept
      | part why =>
        simp only [isRetire, recordRetirement, hwritten, retiredBy, reached, if_true]
        exact Lists.broken _ false file
      | nothing why =>
        simp only [isRetire, recordRetirement, hwritten, retiredBy, reached, if_true]
        refine ⟨nofun, ?_⟩
        rintro f hf hjson
        obtain rfl := Option.some.inj hf
        cases hfile : file with
        | none =>
          rw [h.absent hfile]
          rfl
        | some f =>
          rw [hfile] at hjson
          exact hkept.rooms f hfile hjson

theorem lists (h : Retries causes site digest file history) :
    Lists site.product digest file history := by
  induction h with
  | start => exact ⟨fun _ => rfl, nofun⟩
  | pass answers state _ ih => exact ih.pass answers state
  | foreign line ended hother _ ih =>
    have hrooms : countedRooms site.product digest [line] = [] := by
      cases line with
      | notJson => rfl
      | entry e =>
        rw [countedRooms, if_neg (by rw [show e.counts _ _ = false from hother]; decide)]
        rfl
    have happend := ih.append line ended [] hrooms
    rw [append_nil] at happend
    exact happend

/-- A retirement for a host condition, none of the ports', has more room than
every earlier one, or no earlier one read any. -/
theorem decision_permits (h : Lists site.product digest file history) {cause : QuarantineCause}
    (hdecision : retireDecision causes site digest answers state file = .ok (.retire cause))
    (hcause : cause ≠ .stableBindOccupied) :
    (∀ earlier ∈ history.map room, earlier = ⟨none, none⟩) ∨
      Above answers.room (history.map room) := by
  unfold retireDecision at hdecision
  cases hrecord : state.quarantined.get digest with
  | none =>
    rw [hrecord] at hdecision
    cases hdecision
  | some record =>
    rw [hrecord] at hdecision
    obtain ⟨previous, hprevious, hverdict⟩ := Checks.bind_eq_ok.mp hdecision
    have hverdict := Except.ok.inj hverdict
    have hexceeds : ∀ last best, previous = some (last, best) →
        answers.room.exceeds best = true := by
      rintro last best rfl
      generalize (if (record.classification causes).cause = .stableBindOccupied then
        PortsNow.read _ answers.listener site.ports else PortsNow.free) = ports at hverdict
      unfold retireVerdict at hverdict
      dsimp only at hverdict
      split_ifs at hverdict with hbind hholds hmore
      · -- a port's record is retired for the port, not for room
        cases ports with
        | free =>
          refine absurd ?_ hcause
          rw [← retire.inj hverdict]
          exact hbind
        | _ => cases hverdict
      · exact hmore
    unfold lastAutoRetirementIn at hprevious
    cases hunread : answers.unread with
    | some why =>
      rw [hunread] at hprevious
      cases hprevious
    | none =>
      rw [hunread] at hprevious
      cases hfile : file with
      | none =>
        rw [h.absent hfile]
        exact .inl fun _ hmem => absurd hmem not_mem_nil
      | some f =>
        rw [hfile] at hprevious
        obtain ⟨counted, hcounted, hlast⟩ := Checks.bind_eq_ok.mp hprevious
        obtain ⟨hjson, hrooms, hdigest⟩ := countRetirements_eq_ok hcounted
        rw [h.rooms f hfile hjson] at hrooms
        rw [← hrooms]
        refine lastAutoRetirement_permits hdigest ?_
        intro last best hbest
        exact hexceeds last best ((Except.ok.inj hlast).symm.trans hbest)

/-- Retirements that follow a reading: each for a host condition has more room
than every earlier one. -/
theorem history_rises (h : Retries causes site digest file history) :
    ∀ before r after, history = before ++ r :: after → r.cause ≠ .stableBindOccupied →
      (∀ earlier ∈ before.map room, earlier = ⟨none, none⟩) ∨ Above r.room (before.map room) := by
  induction h with
  | start =>
    intro before r after hsplit
    cases before <;> cases hsplit
  | foreign line ended hother hbefore ih => exact ih
  | @pass file history answers state hbefore ih =>
    intro before r after hsplit hcause
    rcases retiredBy_cases answers (retireDecision causes site digest answers state file) with
      hnone | ⟨cause, hdecision, hone⟩
    · rw [hnone, append_nil] at hsplit
      exact ih before r after hsplit hcause
    · rw [hone] at hsplit
      rcases eq_nil_or_concat after with rfl | ⟨rest, last, rfl⟩
      · obtain ⟨rfl, hlast⟩ := append_inj' hsplit rfl
        obtain rfl := singleton_inj.mp hlast
        exact decision_permits (lists hbefore) hdecision hcause
      · have hconcat : history ++ [⟨cause, answers.room⟩] = (before ++ r :: rest) ++ [last] := by
          rw [hsplit, concat_eq_append, append_assoc, cons_append]
        exact ih before r rest (append_inj' hconcat rfl).1 hcause

/-! ## Bounded retries -/

/-- The trail can be counted: it was read, and every retirement in it. -/
def Countable (site : AgentSite) (digest : Digest) (answers : PassAnswers)
    (file : Option AuditFile) : Prop :=
  answers.unread = none ∧ ∀ f, file = some f → ∃ counted,
    countRetirements (quarantineAuditPath site.stateDir site.product) site.product digest 0
      f.lines = .ok counted

theorem uncountable_refused (h : ¬Countable site digest answers file) :
    ∃ why, (retirePass causes site digest answers state file).1 = .error why := by
  unfold retirePass
  cases hdecision : retireDecision causes site digest answers state file with
  | error why => exact ⟨why, rfl⟩
  | ok verdict =>
    refine absurd ?_ h
    unfold retireDecision at hdecision
    cases hrecord : state.quarantined.get digest with
    | none =>
      rw [hrecord] at hdecision
      cases hdecision
    | some record =>
      rw [hrecord] at hdecision
      obtain ⟨previous, hprevious, -⟩ := Checks.bind_eq_ok.mp hdecision
      unfold lastAutoRetirementIn at hprevious
      cases hunread : answers.unread with
      | some why =>
        rw [hunread] at hprevious
        cases hprevious
      | none =>
        refine ⟨hunread, ?_⟩
        rintro f rfl
        rw [hunread] at hprevious
        obtain ⟨counted, hcounted, -⟩ := Checks.bind_eq_ok.mp hprevious
        exact ⟨counted, hcounted⟩

theorem rises_of_readsAbove {reading : HostRoom → Option ℤ} {r : Retired}
    (h : ReadsAbove (reading r.room) ((before.map room).map reading)) :
    Rising.Rises (fun r : Retired => reading r.room) before r := by
  obtain ⟨n, hn, -, hbound⟩ := h
  refine ⟨n, hn, ?_⟩
  intro e he m hm
  exact hbound (reading e.room) (List.mem_map_of_mem (List.mem_map_of_mem he)) m hm

theorem rises_of_above {r : Retired} (h : Above r.room (before.map room)) :
    Rising.Rises (fun r : Retired => r.room.availableMemoryBytes) before r ∨
      Rising.Rises (fun r : Retired => r.room.freeDiskBytes) before r :=
  h.imp rises_of_readsAbove rises_of_readsAbove

/-- In every run of a digest's passes: each retirement for a host condition other
than an occupied port has more memory or more disk than every earlier one read,
unless no earlier one read either; with bounded readings only so many follow the
first that read one; and a trail that cannot be counted permits none. -/
theorem retries_bounded (h : Retries causes site digest file history) :
    (∀ before r after, history = before ++ r :: after → r.cause ≠ .stableBindOccupied →
      (∀ earlier ∈ before.map room, earlier = ⟨none, none⟩) ∨ Above r.room (before.map room)) ∧
    (∀ low high : ℤ, (∀ r ∈ history, ∀ n, r.room.availableMemoryBytes = some n ∨
        r.room.freeDiskBytes = some n → low ≤ n ∧ n ≤ high) →
      ∀ early first later, history = early ++ first :: later → first.room ≠ ⟨none, none⟩ →
        later.countP (fun r => r.cause ≠ .stableBindOccupied) ≤ 2 * (high - low + 1).toNat) ∧
    ∀ answers state, ¬Countable site digest answers file →
      ∃ why, (retirePass causes site digest answers state file).1 = .error why := by
  refine ⟨history_rises h, ?_, fun answers state => uncountable_refused⟩
  rintro low high hbounds early first later rfl hfirst
  have hsplit : early ++ first :: later = (early ++ [first]) ++ later := by
    rw [append_assoc, singleton_append]
  rw [hsplit] at hbounds
  refine Rising.count_le hbounds ?_
  intro before r after hlater hcounted
  have hrise := history_rises h ((early ++ [first]) ++ before) r after
    (by rw [hsplit, hlater, append_assoc, append_assoc, append_assoc])
    (of_decide_eq_true hcounted)
  rcases hrise with hunread | habove
  · refine absurd (hunread first.room ?_) hfirst
    exact List.mem_map_of_mem (by simp)
  · exact rises_of_above habove

/-! ## Two retries -/

def noCauses : Causes where
  classify _ := ⟨.unclassified, ""⟩
  classifyObserved _ c := c
  observed cause sentence := ⟨cause, sentence⟩
  predicate _ _ := none
  remedy _ := none

def vaultSite : AgentSite := ⟨"/var/stado", "basia", "skarbiec", [8443]⟩

def vanished : HostReleaseState :=
  { HostReleaseState.new with
    quarantined := [("ab12", ⟨"pid 7 is gone", 5, .releaseProcessVanished, ""⟩)] }

def roomAnswers (memory disk : Option Int) : PassAnswers where
  room := ⟨memory, disk⟩
  listener _ := .ok none
  unread := none
  now := 9
  written := .whole

/-- The document finds the release vanished again after each retry. -/
theorem retries_of_rooms (first second : PassAnswers) :
    ∃ file, Retries noCauses vaultSite "ab12" file
      (([] ++ retiredBy first (retireDecision noCauses vaultSite "ab12" first vanished none)) ++
        retiredBy second (retireDecision noCauses vaultSite "ab12" second vanished
          (retirePass noCauses vaultSite "ab12" first vanished none).2.2)) :=
  ⟨_, .pass second vanished (.pass first vanished .start)⟩

theorem second_retry_above :
    Above ⟨some 6, none⟩ [⟨some 4, some 2⟩] := by
  obtain ⟨file, hrun⟩ :=
    retries_of_rooms (roomAnswers (some 4) (some 2)) (roomAnswers (some 6) none)
  obtain ⟨hrises, -, -⟩ := retries_bounded hrun
  rcases hrises [⟨.releaseProcessVanished, ⟨some 4, some 2⟩⟩]
      ⟨.releaseProcessVanished, ⟨some 6, none⟩⟩ [] (by decide +kernel) (by decide) with
    hunread | habove
  · have hfirst := hunread ⟨some 4, some 2⟩ mem_cons_self
    exact absurd hfirst (by decide)
  · exact habove

/-- Two retries of one digest with no reading between them. -/
theorem unread_retries :
    (∃ file, Retries noCauses vaultSite "ab12" file
      [⟨.releaseProcessVanished, ⟨none, none⟩⟩, ⟨.releaseProcessVanished, ⟨none, none⟩⟩]) ∧
    ¬Above ⟨none, none⟩ [⟨none, none⟩] := by
  constructor
  · obtain ⟨file, hrun⟩ := retries_of_rooms (roomAnswers none none) (roomAnswers none none)
    exact ⟨file, hrun⟩
  · rintro (⟨n, hn, -⟩ | ⟨n, hn, -⟩)
    · cases hn
    · cases hn

end Stado.Rollout
