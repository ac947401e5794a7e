import Stado.Protocol.Effects

/-!
# A planned job is admitted at most once

Admission checks that the job has no document and no transition record, and
creates its `queue/` document some steps later. The document itself refuses a
second create while it is there; once it is swept only the record is left to
tell that the job was admitted, and the create does not look at it.
-/

namespace Stado

open CasStore

variable {l : ObjectStore} {jobId : String}

/-- No step admits a job that has a transition record, and none deletes a job
document other than a sentinel. -/
def admittedOnce : Condition := fun l _ site change =>
  match site, change with
  | .admission, some (.document _ jobId, _) => l.get (.transition jobId) = none
  | .deleteDocument, some _ => False
  | _, _ => True

instance (l : ObjectStore) (i : Nat) (site : Site) (change : Option (Change Path Contents)) :
    Decidable (admittedOnce l i site change) := by
  unfold admittedOnce
  split <;> infer_instance

/-- The job was created in `queue/` at version `v`. -/
def AdmittedAt (l : ObjectStore) (jobId : String) (v : Nat) : Prop :=
  ∃ e, l.Held v e ∧ e.path = .document .queue jobId ∧ e.site = .admission

/-- How many times the job was created in `queue/`. -/
def admissions (l : ObjectStore) (jobId : String) : Nat :=
  l.countP fun e => decide (e.path = .document .queue jobId ∧ e.site = .admission)

/-- A `queue/` document that was written and is gone was swept, and its job has
a record. -/
theorem record_of_swept (h : History (lifecycle admittedOnce) l) {v : Nat} {e : StoreEntry}
    (he : l.Held v e) (hp : e.path = .document .queue jobId) {c : Contents}
    (hc : e.content = some c) (gone : l.get (.document .queue jobId) = none) :
    (l.get (.transition jobId)).isSome = true := by
  obtain ⟨w, f, hf, hfp, hfc, -⟩ := Store.removed_of_get_none gone he hp hc
  obtain ⟨older, hpast, -, hal, hcond⟩ := held_allowed h hf
  have hpast' := pastOf_of_cons hpast
  cases hal.documentWrite hfp with
  | sweeps p j sentinel =>
    cases hfp
    obtain ⟨l0, job, u, t, hl0, hget, hs⟩ := sentinel
    obtain ⟨g, hg, hgp, hgc⟩ := Store.get_held hget
    obtain ⟨older', -, -, hpast'', -, -, hsource, -, -, hrec⟩ :=
      clean_write (h.of_suffix (hl0.trans hpast')) hg hgp hgc hs
    rw [hgp] at hsource
    obtain ⟨-, rfl⟩ := Path.document.inj hsource
    exact record_stays h
      (hrec.mono (((pastOf_of_cons hpast'').trans hl0).trans hpast'))
  | deletes p j => exact hcond.elim
  | _ => cases hfc

/-- **Step.** An admission that meets the condition finds that the job was never
admitted. -/
theorem not_admitted_before {e : StoreEntry} (h : History (lifecycle admittedOnce) (e :: l))
    (hp : e.path = .document .queue jobId) (hsite : e.site = .admission) {v : Nat} :
    ¬ AdmittedAt l jobId v := by
  rintro ⟨f, hf, hfp, hfs⟩
  have hist := h.tail
  have hcond : admittedOnce l e.author e.site (some (e.path, e.content)) := h.cond
  cases (show Allowed l e from h.allowed).documentWrite hp with
  | admits job state absent =>
    cases hp
    obtain ⟨older, -, -, hal, -⟩ := held_allowed hist hf
    cases hal.documentWrite hfp with
    | admits job' state' absent' =>
      have hsome := record_of_swept hist hf hfp rfl absent
      rw [show l.get (.transition job.jobId) = none from hcond] at hsome
      cases hsome
    | _ => cases hfs
  | _ => cases hsite

theorem admissions_le_one (h : History (lifecycle admittedOnce) l) (jobId : String) :
    admissions l jobId ≤ 1 := by
  induction h with
  | nil => exact Nat.zero_le _
  | @cons l e older allowed cond ih =>
    have hist : History (lifecycle admittedOnce) (e :: l) := .cons older allowed cond
    unfold admissions at ih ⊢
    by_cases hadmits : e.path = .document .queue jobId ∧ e.site = .admission
    · have hnone : l.countP
          (fun e => decide (e.path = .document .queue jobId ∧ e.site = .admission)) = 0 := by
        refine List.countP_eq_zero.mpr fun f hf hdecide => ?_
        obtain ⟨v, hv⟩ := Store.held_of_mem hf
        obtain ⟨hfp, hfs⟩ := of_decide_eq_true hdecide
        exact not_admitted_before hist hadmits.1 hadmits.2 ⟨f, hv, hfp, hfs⟩
      rw [List.countP_cons_of_pos (by simpa using hadmits)]
      exact Nat.succ_le_succ (Nat.le_of_eq hnone)
    · rw [List.countP_cons_of_neg (by simpa using hadmits)]
      exact ih

/-- **Admitted at most once.** In every run whose steps meet the condition, of
any number of submitters, workers and sweeps, a job is created in `queue/` at
most once. -/
theorem admitted_at_most_once {s : QueueSystem} (h : Runs admittedOnce s) (jobId : String) :
    admissions s.store jobId ≤ 1 :=
  admissions_le_one (queue_sound h) jobId

theorem admitted_at_most_once_claimed :
    ∃ s : QueueSystem, Runs admittedOnce s ∧ standing s.store .running "j" = true ∧
      admissions s.store "j" ≤ 1 := by
  obtain ⟨s, hs, hlive⟩ : ∃ s, Runs admittedOnce s ∧ standing s.store .running "j" = true :=
    System.exists_exec (submitterRun 1 ++ claimRun 1) (by decide +kernel)
  exact ⟨s, hs, hlive, admitted_at_most_once hs "j"⟩

/-- A submitter stalls before its create. A second submitter of the request
admits the job, a worker claims and completes it and its sentinel is swept; the
first submitter resumes and creates the job again. -/
def stalledRun : List QueueEvent :=
  submitterRun 0 ++ .start (.submit oneCommand) 9 :: calls 1 2 ++
    [.answer 1 (.refused none), .answer 1 (.instant 5)] ++ calls 1 1 ++
    [.answer 1 (.instant 5), .answer 1 (.process "h" 1)] ++ calls 1 21 ++
    [.answer 1 (.instant 5)] ++ calls 1 1 ++ claimRun 2 ++
    .start (.moveIfVersion
      { plannedJob.val with completedAt := some (.instant 7), state := .completed }
      toCompleted 11) 9 :: calls 3 3 ++
    [.answer 3 (.word "b"), .answer 3 (.instant 7)] ++ calls 3 14 ++ [.answer 3 (.instant 8)] ++
    calls 3 6 ++
    .start (.sweep .queue) 9 :: calls 4 4 ++ calls 0 1

theorem admitted_twice :
    ¬ ∀ s : QueueSystem, Runs anyStep s → ∀ jobId, admissions s.store jobId ≤ 1 := by
  intro h
  obtain ⟨s, hs, htwice⟩ : ∃ s, Runs anyStep s ∧ decide (admissions s.store "j" = 2) = true :=
    System.exists_exec stalledRun (by decide +kernel)
  have hle := h s hs "j"
  rw [of_decide_eq_true htwice] at hle
  omega

end Stado
