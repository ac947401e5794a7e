import Stado.Queue.Losses
import Stado.Queue.Machine

/-!
# One restart for each kind of loss

While every loss of a kind that the job was already restarted for finds that kind
as the last one its record was given, a job goes back to the queue once at most
for each kind of loss, and a second loss of the kind ends it.
-/

namespace Stado

open Machine List JobHistory Passage

/-! ## What the history says -/

/-- The job was put back for a loss of this kind. -/
def Passage.Restarts (kind : String) : Passage → Prop
  | .lost reason .queue => lossKind reason = kind
  | _ => False

instance (kind : String) : DecidablePred (Restarts kind)
  | .lost _ .queue => inferInstanceAs (Decidable (_ = _))
  | .lost _ .running | .lost _ .completed | .lost _ .uploaded | .lost _ .failed
  | .lost _ .cancelled | .returned _ | .carried | .ended => .isFalse id

def RestartedFor (kind : String) (passages : List Passage) : Prop :=
  ∃ passage ∈ passages, passage.Restarts kind

def SecondEnds (passages : List Passage) : Prop :=
  ∀ reason target earlier, .lost reason target :: earlier <:+ passages →
    RestartedFor (lossKind reason) earlier → target.terminal = true

/-- The job is put back once at most for each kind of loss. -/
def RestartedOnce (passages : List Passage) : Prop :=
  ∀ kind, passages.countP (Restarts kind) ≤ 1

/-- The last move that rewrote the kept reason wrote one of this kind. -/
def KeepsKind (kind : String) : List Passage → Prop
  | [] => False
  | .lost reason _ :: _ => lossKind reason = kind
  | .returned error :: _ => error.map lossKind = some kind
  | .carried :: earlier => KeepsKind kind earlier
  | .ended :: earlier => KeepsKind kind earlier

def Remembered (s : JobHistory) : JobMove → Prop
  | .lost _ _ reason =>
    RestartedFor (lossKind reason) s.passages → KeepsKind (lossKind reason) s.passages
  | _ => True

section Histories

variable {s s' : JobHistory} {start requested job : Job} {kind reason : String}
  {passage : Passage} {passages earlier : List Passage} {target fromPrefix toPrefix : Prefix}

theorem restartedFor_cons : RestartedFor kind (passage :: passages) ↔
    passage.Restarts kind ∨ RestartedFor kind passages := by
  unfold RestartedFor
  constructor
  · rintro ⟨p, hmem, hp⟩
    rcases mem_cons.mp hmem with rfl | hmem
    · exact .inl hp
    · exact .inr ⟨p, hmem, hp⟩
  · rintro (hp | ⟨p, hmem, hp⟩)
    · exact ⟨passage, mem_cons_self, hp⟩
    · exact ⟨p, mem_cons_of_mem _ hmem, hp⟩

theorem SecondEnds.cons (h : SecondEnds passages)
    (hlost : ∀ reason target, passage = .lost reason target →
      RestartedFor (lossKind reason) passages → target.terminal = true) :
    SecondEnds (passage :: passages) := by
  intro reason target earlier hsuffix
  rcases suffix_cons_iff.mp hsuffix with heq | hsuffix
  · rw [List.cons.injEq] at heq
    rw [heq.2]
    exact hlost reason target heq.1.symm
  · exact h reason target earlier hsuffix

theorem SecondEnds.of_cons (h : SecondEnds (passage :: passages)) : SecondEnds passages :=
  fun reason target earlier hsuffix =>
    h reason target earlier (hsuffix.trans (suffix_cons _ _))

theorem SecondEnds.restartedOnce (h : SecondEnds passages) : RestartedOnce passages := by
  intro kind
  induction passages with
  | nil => exact Nat.zero_le 1
  | cons passage passages ih =>
    have hrest := ih h.of_cons
    rw [countP_cons]
    split
    · next hrestarts =>
      rw [decide_eq_true_eq] at hrestarts
      have hnone : passages.countP (Restarts kind) = 0 := by
        rw [countP_eq_zero]
        intro p hmem hp
        rw [decide_eq_true_eq] at hp
        unfold Restarts at hrestarts
        split at hrestarts
        · next reason =>
          have hends := h reason .queue passages (suffix_refl _)
            ⟨p, hmem, by rw [hrestarts]; exact hp⟩
          cases hends
        · exact hrestarts
      omega
    · exact hrest

/-- What a move that is not terminal keeps of the record's reason. -/
theorem merge_error (h : mergeTransitionDestination s.job requested fromPrefix toPrefix = .ok job)
    (hlive : toPrefix.terminal = false) :
    job.error = if fromPrefix = .running ∧ toPrefix = .queue then requested.error
      else s.job.error := by
  unfold mergeTransitionDestination at h
  split at h
  · cases h
  · rw [hlive, Except.ok.injEq] at h
    rw [← h]
    dsimp only
    rw [if_neg Bool.false_ne_true]
    cases toPrefix with
    | queue =>
      unfold mergeRequested
      dsimp only
      by_cases hfrom : fromPrefix = .running
      · rw [if_pos hfrom, if_pos ⟨hfrom, rfl⟩]
      · rw [if_neg hfrom, if_neg fun hboth => hfrom hboth.1]
    | running => rw [if_neg fun hboth => by cases hboth.2]; rfl
    | _ => cases hlive

/-- The record against the history: the submission is the one it began with, a live
record keeps the reason last written, and second losses ended the job. -/
structure Restarting (start : Job) (s : JobHistory) : Prop where
  submission : s.job.submission = start.submission
  kept : s.job.state = .queued ∨ s.job.state = .running →
    ∀ kind, KeepsKind kind s.passages → s.job.error.map lossKind = some kind
  restarts : start.submission.submitterRestarts = true → ∀ kind, ¬RestartedFor kind s.passages
  second : SecondEnds s.passages

theorem not_restarts_of_terminal (h : target.terminal = true) :
    ¬(lost reason target).Restarts kind := by
  cases target with
  | queue => cases h
  | _ => exact id

theorem Restarting.install {moved : Passage} (h : Restarting start s)
    (hinstall : s.install requested fromPrefix toPrefix moved = some s')
    (hkept : toPrefix.terminal = false → ∀ kind, KeepsKind kind (moved :: s.passages) →
      (if fromPrefix = .running ∧ toPrefix = .queue then requested.error
        else s.job.error).map lossKind = some kind)
    (hlost : ∀ reason target, moved = .lost reason target →
      RestartedFor (lossKind reason) s.passages → target.terminal = true)
    (hsubmitter : start.submission.submitterRestarts = true → ∀ kind, ¬moved.Restarts kind) :
    Restarting start s' := by
  unfold JobHistory.install at hinstall
  split at hinstall
  · next job hmerge =>
    cases hinstall
    obtain ⟨hstate, hsubmission, -⟩ := mergeTransitionDestination_ok hmerge
    refine ⟨hsubmission.trans h.submission, ?_, ?_, h.second.cons hlost⟩
    · intro hlive kind hkeeps
      have hterminal : toPrefix.terminal = false := by
        dsimp only at hlive
        rw [hstate] at hlive
        cases toPrefix with
        | queue => rfl
        | running => rfl
        | _ => rcases hlive with hlive | hlive <;> cases hlive
      have herror : job.error = _ := merge_error hmerge hterminal
      dsimp only
      rw [herror]
      exact hkept hterminal kind hkeeps
    · intro hown kind
      rw [restartedFor_cons]
      rintro (hmoved | hearlier)
      · exact hsubmitter hown kind hmoved
      · exact h.restarts hown kind hearlier
  · cases hinstall

/-! ## The loss -/

/-- A job goes back exactly where it leaves its restarts to Stado and keeps another
kind of loss, or none. -/
theorem restartRefusal_eq_none : restartRefusal job reason = none ↔
    job.submission.submitterRestarts = false ∧ job.error.map lossKind ≠ some (lossKind reason) := by
  unfold restartRefusal
  split
  · next hown =>
    rw [hown]
    simp
  · next hown =>
    rw [Bool.not_eq_true] at hown
    rw [Option.map_eq_none_iff, Option.filter_eq_none_iff]
    simp [hown]

/-- A lost job is put back with the reason kept, or it fails. -/
theorem lossMove_cases (handler : LossHandler) (job : Job) (now : Nat) (reason : String) :
    ((lossMove handler job now reason).2 = .queue ∧
      (lossMove handler job now reason).1.error = some reason ∧ restartRefusal job reason = none) ∨
    ((lossMove handler job now reason).2 = .failed ∧ restartRefusal job reason ≠ none) := by
  unfold lossMove
  cases handler with
  | reaper =>
    cases hrefusal : restartRefusal job reason with
    | none => exact .inl ⟨rfl, rfl, rfl⟩
    | some refusal => exact .inr ⟨rfl, fun heq => by cases heq⟩
  | monitor =>
    cases hrefusal : restartRefusal job reason with
    | none => exact .inl ⟨rfl, rfl, rfl⟩
    | some refusal => exact .inr ⟨rfl, fun heq => by cases heq⟩

theorem Restarting.lost {handler : LossHandler} {now : Nat} (h : Restarting start s)
    (hremembered : Remembered s (.lost handler now reason))
    (hstep : s.step (.lost handler now reason) = some s') : Restarting start s' := by
  unfold step at hstep
  dsimp only at hstep
  split at hstep
  · next hrunning =>
    rcases lossMove_cases handler s.job now reason with
      ⟨htarget, herror, hrefusal⟩ | ⟨htarget, hrefusal⟩
    · rw [htarget] at hstep
      obtain ⟨hown, hother⟩ := restartRefusal_eq_none.mp hrefusal
      refine h.install hstep ?_ ?_ ?_
      · intro _ kind hkeeps
        rw [if_pos ⟨rfl, rfl⟩, herror]
        exact congrArg some hkeeps
      · intro reason' target' heq hrestarted
        rw [lost.injEq] at heq
        obtain ⟨rfl, -⟩ := heq
        exact absurd (h.kept (.inr hrunning) _ (hremembered hrestarted)) hother
      · intro hsubmitter
        rw [← h.submission, hown] at hsubmitter
        cases hsubmitter
    · rw [htarget] at hstep
      refine h.install hstep ?_ ?_ ?_
      · intro hterminal
        cases hterminal
      · intro reason' target' heq _
        rw [lost.injEq] at heq
        rw [← heq.2]
        rfl
      · intro _ kind
        exact not_restarts_of_terminal rfl
  · cases hstep

theorem restarting_step {a : JobMove} (h : Restarting start s) (hremembered : Remembered s a)
    (hstep : s.step a = some s') : Restarting start s' := by
  cases a with
  | lost handler now reason => exact h.lost hremembered hstep
  | claimed requested =>
    unfold step at hstep
    dsimp only at hstep
    split at hstep
    · next hqueued =>
      refine h.install hstep ?_ (fun _ _ heq => by cases heq) (fun _ _ => id)
      intro _ kind hkeeps
      rw [if_neg fun hboth => by cases hboth.1]
      exact h.kept (.inl hqueued) kind hkeeps
    · cases hstep
  | preempted now =>
    unfold step at hstep
    dsimp only at hstep
    split at hstep
    · next hrunning =>
      refine h.install hstep ?_ (fun _ _ heq => by cases heq) (fun _ _ => id)
      intro _ kind hkeeps
      rw [if_pos ⟨rfl, rfl⟩]
      exact h.kept (.inr hrunning) kind hkeeps
    · cases hstep
  | returned requested =>
    unfold step at hstep
    dsimp only at hstep
    split at hstep
    · refine h.install hstep ?_ (fun _ _ heq => by cases heq) (fun _ _ => id)
      intro _ kind hkeeps
      rw [if_pos ⟨rfl, rfl⟩]
      exact hkeeps
    · cases hstep
  | rewritten fields =>
    unfold step at hstep
    dsimp only at hstep
    split at hstep
    · next hsame =>
      cases hstep
      refine ⟨hsame.1.trans h.submission, ?_, ?_, h.second.cons fun _ _ heq => by cases heq⟩
      · intro hlive kind hkeeps
        dsimp only
        rw [hsame.2]
        exact h.kept hlive kind hkeeps
      · intro hown kind
        rw [restartedFor_cons]
        rintro (hcarried | hearlier)
        · exact hcarried
        · exact h.restarts hown kind hearlier
    · cases hstep
  | ended requested target =>
    have hvacuous : target.terminal = true → target.terminal = false → False := by
      intro hterminal hlive
      rw [hterminal] at hlive
      cases hlive
    unfold step at hstep
    dsimp only at hstep
    split at hstep
    · next hends =>
      exact h.install hstep (fun hlive => (hvacuous hends.1 hlive).elim)
        (fun _ _ heq => by cases heq) (fun _ _ => id)
    · split at hstep
      · next hends =>
        exact h.install hstep (fun hlive => (hvacuous hends.1 hlive).elim)
          (fun _ _ heq => by cases heq) (fun _ _ => id)
      · cases hstep

theorem restarting_start (job : Job) : Restarting job ⟨job, []⟩ where
  submission := rfl
  kept := fun _ _ hkeeps => hkeeps.elim
  restarts := fun _ _ hrestarted => by
    obtain ⟨passage, hmem, -⟩ := hrestarted
    cases hmem
  second := fun reason target earlier hsuffix => by
    cases suffix_nil.mp hsuffix

/-- **A job is restarted once for each kind of loss**: in every history of a job whose
losses find the kind kept that they repeat, a second loss of a kind ends the job. -/
theorem restarted_once (hr : Reaches step Remembered ⟨job, []⟩ s) :
    RestartedOnce s.passages ∧ SecondEnds s.passages := by
  have hend : Restarting job s :=
    hr.invariant (I := Restarting job) (restarting_start job) fun _ _ _ h => restarting_step h
  exact ⟨hend.second.restartedOnce, hend.second⟩

end Histories

/-! ## Histories of one job -/

instance : ∀ passages : List Passage, ∀ kind, Decidable (KeepsKind kind passages)
  | [], _ => .isFalse id
  | .lost _ _ :: _, _ => inferInstanceAs (Decidable (_ = _))
  | .returned _ :: _, _ => inferInstanceAs (Decidable (_ = _))
  | .carried :: earlier, kind => instDecidableKeepsKind earlier kind
  | .ended :: earlier, kind => instDecidableKeepsKind earlier kind

instance (kind : String) (passages : List Passage) : Decidable (RestartedFor kind passages) :=
  inferInstanceAs (Decidable (∃ passage ∈ passages, passage.Restarts kind))

instance : ∀ (s : JobHistory) (a : JobMove), Decidable (Remembered s a)
  | s, .lost _ _ reason => inferInstanceAs (Decidable
      (RestartedFor (lossKind reason) s.passages → KeepsKind (lossKind reason) s.passages))
  | _, .claimed _ | _, .preempted _ | _, .returned _ | _, .rewritten _ | _, .ended _ _ =>
    .isTrue trivial

def deadAgent : String := "VM reaped (dead agent, age=900s)"

def wedgedAgent : String := "VM reaped (wedged agent)"

def instanceGone : String := "instance gone (lifecycle=None)"

/-- A job claimed, its machine reaped twice for one kind of cause, and claimed and
preempted in between. -/
def reapedTwice : List JobMove :=
  [.claimed (claimedBy "a" "j"), .lost .monitor 5 deadAgent, .claimed (claimedBy "b" "j"),
    .preempted 6, .claimed (claimedBy "c" "j"), .lost .monitor 7 wedgedAgent]

def reapedTwicePassages : List Passage :=
  [.lost wedgedAgent .failed, .carried, .carried, .carried, .lost deadAgent .queue, .carried]

theorem restarted_once_reaped :
    ∃ s, Reaches step Remembered ⟨(bareJob "j").val, []⟩ s ∧
      s.passages = reapedTwicePassages ∧ RestartedOnce s.passages := by
  obtain ⟨s, hr, hpassages⟩ :
      ∃ s, Reaches step Remembered ⟨(bareJob "j").val, []⟩ s ∧
        decide (s.passages = reapedTwicePassages) = true :=
    exists_reaches reapedTwice (fun s : JobHistory => decide (s.passages = reapedTwicePassages))
      (by decide +kernel)
  exact ⟨s, hr, of_decide_eq_true hpassages, (restarted_once hr).1⟩

/-- The promise of the job's worker passes, the next instance goes, and the promise
passes again. -/
def lostInTurn : List JobMove :=
  [.claimed (claimedBy "a" "j"), .lost .reaper 5 leaseExpiredReason, .claimed (claimedBy "b" "j"),
    .lost .monitor 6 instanceGone, .claimed (claimedBy "c" "j"), .lost .reaper 7 leaseExpiredReason]

def lostInTurnPassages : List Passage :=
  [.lost leaseExpiredReason .queue, .carried, .lost instanceGone .queue, .carried,
    .lost leaseExpiredReason .queue, .carried]

/-- A job whose losses alternate in kind is put back twice for one kind. -/
theorem restarted_for_alternating_losses :
    ∃ s, Reaches step always ⟨(bareJob "j").val, []⟩ s ∧
      s.passages = lostInTurnPassages ∧ ¬RestartedOnce s.passages ∧ ¬SecondEnds s.passages := by
  obtain ⟨s, hr, hpassages⟩ :
      ∃ s, Reaches step always ⟨(bareJob "j").val, []⟩ s ∧
        decide (s.passages = lostInTurnPassages) = true :=
    exists_reaches lostInTurn (fun s : JobHistory => decide (s.passages = lostInTurnPassages))
      (by decide +kernel)
  have hpassages := of_decide_eq_true hpassages
  have honce : ¬RestartedOnce s.passages := by
    intro honce
    have hcount := honce (lossKind leaseExpiredReason)
    rw [hpassages] at hcount
    revert hcount
    decide +kernel
  exact ⟨s, hr, hpassages, honce, fun hsecond => honce hsecond.restartedOnce⟩

end Stado
