import Stado.Safety.OwnProcesses

/-!
# The outcome of a finished workload

From the moment a workload has exited, while its slot is not yielded and an OOM
requeue follows its upload, the first document this agent writes for the job is
the terminal one its exit calls for, or the requeue; it is written after the
artifacts, nothing puts the job back a second time, and the slot is kept until
then.
-/

namespace Stado.Agent

open Machine List ActiveSlot

/-! ## What the exit calls for -/

/-- The work tree was seen missing, before the acts began or among them. -/
def SeenMissing (start : ActiveSlot) (acts : List Act) : Prop :=
  start.workdirMissing = true ∨ .sawMissing ∈ acts

/-- How the last verification ended. -/
def lastVerified : List Act → Option Bool
  | [] => none
  | .verified passed :: _ => some passed
  | _ :: earlier => lastVerified earlier

/-- The exit was success, the tree was never seen missing, and the verification,
where the job has one, passed. -/
def Succeeded (start : ActiveSlot) (code : ExitCode) (acts : List Act) : Prop :=
  code.code = 0 ∧ ¬SeenMissing start acts ∧
    (start.hasVerifyCommand = true → lastVerified acts = some true)

def Unwritten (acts : List Act) : Prop := ∀ document, .wrote document ∉ acts

/-- Whether the exit calls for a document: only a job that did not succeed may be
requeued for its memory. -/
def CallsFor (start : ActiveSlot) (code : ExitCode) (acts : List Act) : Document → Prop
  | .completed => Succeeded start code acts
  | .failed => ¬Succeeded start code acts
  | .oomRequeued => ¬Succeeded start code acts
  | .yielded => False

def FirstWritten (start : ActiveSlot) (code : ExitCode) (acts : List Act) : Prop :=
  ∀ document earlier, .wrote document :: earlier <:+ acts → Unwritten earlier →
    .uploaded ∈ earlier ∧ CallsFor start code earlier document

/-- The job goes back to the queue once at most, and only as the first document. -/
def RequeuedOnce (acts : List Act) : Prop :=
  ∀ document earlier, .wrote document :: earlier <:+ acts →
    document ≠ .yielded ∧ (document = .oomRequeued → Unwritten earlier)

/-- This agent wrote a document, or saw that another had settled the job. -/
def Settled (acts : List Act) : Prop :=
  (∃ document, .wrote document ∈ acts) ∨ .settledElsewhere ∈ acts

/-! ## The runs it holds for -/

def ActiveSlot.ExitedWith (slot : ActiveSlot) (code : ExitCode) : Prop :=
  slot.child = .exited code ∨ slot.child = .reaped code

def ActiveSlot.fromNow (slot : ActiveSlot) : ActiveSlot := { slot with acts := [] }

def Escalation.made : Escalation → Bool
  | .refused => false
  | .failed => false
  | .moveFailed made => made
  | .moved _ => true

def ActiveSlot.reapedBy (slot : ActiveSlot) (T : Tick) : ActiveSlot :=
  (slot.followRenter T).1.observe.endLeftoverGroup T.killAnswer

def ActiveSlot.Escalates (slot : ActiveSlot) (T : Tick) (code : ExitCode) : Prop :=
  let judged := (slot.lookForTree T).verify T code
  (judged.2 ≠ 0 ∨ judged.1.workdirMissing = true) ∧
    ¬(judged.1.workdirMissing = false ∧ T.outputRead = false)

def ActiveSlot.RequeuesBy (slot : ActiveSlot) (T : Tick) (code : ExitCode) : Prop :=
  T.terminalRecord = some false ∧ T.held = some true ∧ (slot.followRenter T).2 = true ∧
    T.tryWait = true ∧ T.workDir = true ∧ T.escalation.made = true ∧
      (slot.reapedBy T).Escalates T code

/-- A finished job's slot is not yielded, and its OOM requeue follows an upload and
no document. -/
def KeepsFinished (code : ExitCode) (slot : ActiveSlot) : SlotStep → Prop
  | .exits _ => True
  | .advance T => slot.RequeuesBy T code → .uploaded ∈ slot.acts ∧ Unwritten slot.acts
  | .yield _ => slot.child = .running

section Acts

variable {start slot slot' slot'' : ActiveSlot} {code : ExitCode} {acts earlier new : List Act}
  {a : Act} {document : Document} {T : Tick}

/-! ## Acts that decide nothing -/

/-- An act the outcome does not depend on. -/
def Act.Plain : Act → Prop
  | .sawMissing => False
  | .verified _ => False
  | .wrote _ => False
  | _ => True

structure Grows (slot slot' : ActiveSlot) : Prop where
  child : ∀ code, slot.ExitedWith code → slot'.ExitedWith code
  command : slot'.hasVerifyCommand = slot.hasVerifyCommand
  missing : slot'.workdirMissing = slot.workdirMissing
  acts : ∃ new, slot'.acts = new ++ slot.acts ∧ ∀ a ∈ new, a.Plain

theorem Grows.refl (slot : ActiveSlot) : Grows slot slot where
  child := fun _ h => h
  command := rfl
  missing := rfl
  acts := ⟨[], rfl, fun _ hmem => absurd hmem not_mem_nil⟩

section

variable (h : Grows slot slot')

include h

theorem Grows.trans (h' : Grows slot' slot'') : Grows slot slot'' := by
  obtain ⟨new, hacts, hplain⟩ := h.acts
  obtain ⟨new', hacts', hplain'⟩ := h'.acts
  refine ⟨fun code hexited => h'.child code (h.child code hexited),
    h'.command.trans h.command, h'.missing.trans h.missing, new' ++ new, ?_, ?_⟩
  · rw [hacts', hacts, append_assoc]
  · intro a hmem
    rcases mem_append.mp hmem with hmem | hmem
    · exact hplain' a hmem
    · exact hplain a hmem

theorem Grows.act (hplain : a.Plain) : Grows slot (slot'.act a) := by
  have hone : Grows slot' (slot'.act a) := by
    refine ⟨fun _ h => h, rfl, rfl, [a], rfl, fun b hmem => ?_⟩
    rw [mem_singleton.mp hmem]
    exact hplain
  exact h.trans hone

theorem Grows.pausedSet (paused : Bool) : Grows slot (slot'.pausedSet paused) :=
  ⟨h.child, h.command, h.missing, h.acts⟩

theorem Grows.observe : Grows slot slot'.observe := by
  refine h.trans ?_
  unfold ActiveSlot.observe
  split
  · exact Grows.refl slot'
  · next code hchild =>
    refine ⟨fun code' hexited => ?_, rfl, rfl, [.observed code], rfl, fun b hmem => ?_⟩
    · rcases hexited with hexited | hexited
      · rw [hchild, Child.exited.injEq] at hexited
        exact .inr (congrArg Child.reaped hexited)
      · rw [hchild] at hexited
        cases hexited
    · rw [mem_singleton.mp hmem]
      trivial
  · exact Grows.refl slot'

theorem Grows.ended (code : ExitCode) : Grows slot (slot'.ended code) := by
  refine h.trans ?_
  unfold ActiveSlot.ended
  split
  · next hchild =>
    refine ⟨fun code' hexited => ?_, rfl, rfl, [.exited code], rfl, fun b hmem => ?_⟩
    · rcases hexited with hexited | hexited
      · rw [hchild] at hexited
        cases hexited
      · rw [hchild] at hexited
        cases hexited
    · rw [mem_singleton.mp hmem]
      trivial
  · exact Grows.refl slot'

theorem Grows.endLeftoverGroup (answer : KillAnswer) :
    Grows slot (slot'.endLeftoverGroup answer) := by
  unfold ActiveSlot.endLeftoverGroup
  split
  · exact h
  · have hsent : Grows slot (slot'.act (.signal .kill slot'.paused answer)) := h.act trivial
    exact ⟨hsent.child, hsent.command, hsent.missing, hsent.acts⟩

theorem Grows.followRenter (T : Tick) : Grows slot (slot'.followRenter T).1 := by
  have hsent : ∀ sig, Grows slot (slot'.act (.signal sig slot'.paused T.pauseAnswer)) :=
    fun sig => h.act trivial
  unfold ActiveSlot.followRenter
  split
  · dsimp only
    split
    · exact (hsent .stop).pausedSet true
    · exact hsent .stop
  · split
    · dsimp only
      split
      · exact (hsent .cont).pausedSet false
      · exact hsent .cont
    · exact h

end

theorem Grows.reapedBy (slot : ActiveSlot) (T : Tick) : Grows slot (slot.reapedBy T) :=
  ((Grows.refl slot).followRenter T).observe.endLeftoverGroup T.killAnswer

theorem Grows.awaitExit (h : Grows slot slot') (T : Tick) : Grows slot (slot'.awaitExit T).1 := by
  unfold ActiveSlot.awaitExit
  split
  · exact (h.ended T.endCode).observe
  · exact h

theorem Grows.continueGroup (h : Grows slot slot') (T : Tick) :
    Grows slot (slot'.continueGroup T).1 := by
  have hsent : Grows slot (slot'.act (.signal .cont slot'.paused T.contAnswer)) := h.act trivial
  unfold ActiveSlot.continueGroup
  split
  · dsimp only
    split
    · exact (hsent.pausedSet false).awaitExit T
    · exact (hsent.pausedSet false).awaitExit T
    · exact hsent
    · exact hsent
  · exact h.awaitExit T

theorem Grows.terminateCancelled (slot : ActiveSlot) (T : Tick) :
    Grows slot (slot.terminateCancelled T).1 := by
  have hsent : Grows slot (slot.act (.signal .term slot.paused T.termAnswer)) :=
    (Grows.refl slot).act trivial
  unfold ActiveSlot.terminateCancelled
  dsimp only
  split
  · exact hsent.continueGroup T
  · exact hsent.continueGroup T
  · split
    · exact hsent
    · split
      · exact (hsent.observe.pausedSet false).continueGroup T
      · exact hsent.observe
  · exact hsent

/-! ## The outcome under plain acts -/

section

variable (hplain : ∀ a ∈ new, a.Plain)

include hplain

theorem SeenMissing.append : SeenMissing start (new ++ acts) ↔ SeenMissing start acts := by
  unfold SeenMissing
  rw [mem_append]
  have hnew : .sawMissing ∉ new := fun hmem => hplain _ hmem
  simp [hnew]

theorem lastVerified_append : lastVerified (new ++ acts) = lastVerified acts := by
  induction new with
  | nil => rfl
  | cons a new ih =>
    have hrest := ih fun b hmem => hplain b (mem_cons_of_mem _ hmem)
    have ha := hplain a mem_cons_self
    cases a with
    | verified passed => exact ha.elim
    | _ => exact hrest

theorem Succeeded.append : Succeeded start code (new ++ acts) ↔ Succeeded start code acts := by
  unfold Succeeded
  rw [SeenMissing.append hplain, lastVerified_append hplain]

theorem Unwritten.append (h : Unwritten acts) : Unwritten (new ++ acts) := by
  intro document hmem
  rcases mem_append.mp hmem with hmem | hmem
  · exact hplain _ hmem
  · exact h document hmem

end

theorem Unwritten.cons (h : Unwritten acts) (ha : ∀ document, a ≠ .wrote document) :
    Unwritten (a :: acts) := by
  intro document hmem
  rcases mem_cons.mp hmem with heq | hmem
  · exact ha document heq.symm
  · exact h document hmem

theorem FirstWritten.cons (h : FirstWritten start code acts)
    (ha : ∀ document, a ≠ .wrote document) : FirstWritten start code (a :: acts) := by
  intro document earlier hsuffix
  rcases suffix_cons_iff.mp hsuffix with heq | hsuffix
  · rw [List.cons.injEq] at heq
    exact absurd heq.1.symm (ha document)
  · exact h document earlier hsuffix

theorem RequeuedOnce.cons (h : RequeuedOnce acts) (ha : ∀ document, a ≠ .wrote document) :
    RequeuedOnce (a :: acts) := by
  intro document earlier hsuffix
  rcases suffix_cons_iff.mp hsuffix with heq | hsuffix
  · rw [List.cons.injEq] at heq
    exact absurd heq.1.symm (ha document)
  · exact h document earlier hsuffix

theorem Act.Plain.ne_wrote (h : a.Plain) (document : Document) : a ≠ .wrote document := by
  rintro rfl
  exact h

/-! ## The slot's invariant -/

/-- A slot finishing an exit, its acts counted from `start`. -/
structure Finishing (start : ActiveSlot) (code : ExitCode) (slot : ActiveSlot) : Prop where
  child : slot.ExitedWith code
  command : slot.hasVerifyCommand = start.hasVerifyCommand
  missing : slot.workdirMissing = true ↔ SeenMissing start slot.acts
  first : FirstWritten start code slot.acts
  once : RequeuedOnce slot.acts

/-- Uploaded, and no document written. -/
def Ready (acts : List Act) : Prop := .uploaded ∈ acts ∧ Unwritten acts

theorem Ready.grow (h : Ready slot.acts) (hgrows : Grows slot slot') : Ready slot'.acts := by
  obtain ⟨new, hacts, hplain⟩ := hgrows.acts
  rw [hacts]
  exact ⟨mem_append_right _ h.1, h.2.append hplain⟩

theorem Ready.cons (h : Ready acts) (ha : ∀ document, a ≠ .wrote document) : Ready (a :: acts) :=
  ⟨mem_cons_of_mem _ h.1, h.2.cons ha⟩

theorem Finishing.grow (h : Finishing start code slot) (hgrows : Grows slot slot') :
    Finishing start code slot' := by
  obtain ⟨new, hacts, hplain⟩ := hgrows.acts
  have hwritten : FirstWritten start code (new ++ slot.acts) ∧ RequeuedOnce (new ++ slot.acts) := by
    clear hacts
    induction new with
    | nil => exact ⟨h.first, h.once⟩
    | cons a new ih =>
      have hrest := ih fun b hmem => hplain b (mem_cons_of_mem _ hmem)
      have ha := (hplain a mem_cons_self).ne_wrote
      exact ⟨hrest.1.cons ha, hrest.2.cons ha⟩
  refine ⟨hgrows.child code h.child, hgrows.command.trans h.command, ?_, ?_, ?_⟩
  · rw [hgrows.missing, hacts, SeenMissing.append hplain]
    exact h.missing
  · rw [hacts]
    exact hwritten.1
  · rw [hacts]
    exact hwritten.2

theorem Finishing.act (h : Finishing start code slot) (hplain : a.Plain) :
    Finishing start code (slot.act a) :=
  h.grow ((Grows.refl slot).act hplain)

/-- A document is written: the one called for after the upload where it is the first,
and a requeue only as the first. -/
theorem Finishing.wrote (h : Finishing start code slot) (huploaded : .uploaded ∈ slot.acts)
    (hcalls : CallsFor start code slot.acts document)
    (hrequeue : document = .oomRequeued → Unwritten slot.acts) :
    Finishing start code (slot.act (.wrote document)) := by
  refine ⟨h.child, h.command, ?_, ?_, ?_⟩
  · have hmissing : SeenMissing start (.wrote document :: slot.acts) ↔
        SeenMissing start slot.acts := by
      unfold SeenMissing
      simp
    exact h.missing.trans hmissing.symm
  · intro document' earlier hsuffix hunwritten
    rcases suffix_cons_iff.mp hsuffix with heq | hsuffix
    · rw [List.cons.injEq, Act.wrote.injEq] at heq
      obtain ⟨rfl, rfl⟩ := heq
      exact ⟨huploaded, hcalls⟩
    · exact h.first document' earlier hsuffix hunwritten
  · intro document' earlier hsuffix
    rcases suffix_cons_iff.mp hsuffix with heq | hsuffix
    · rw [List.cons.injEq, Act.wrote.injEq] at heq
      obtain ⟨rfl, rfl⟩ := heq
      refine ⟨?_, hrequeue⟩
      rintro rfl
      exact hcalls
    · exact h.once document' earlier hsuffix

theorem settled_wrote : Settled (.wrote document :: acts) :=
  .inl ⟨document, mem_cons_self⟩

theorem settled_elsewhere : Settled (.settledElsewhere :: acts) := .inr mem_cons_self

/-! ## Finalization -/

theorem Finishing.lookForTree (h : Finishing start code slot) (T : Tick) :
    Finishing start code (slot.lookForTree T) := by
  have hdoc : ∀ document, Act.sawMissing ≠ .wrote document := fun document heq => by cases heq
  unfold ActiveSlot.lookForTree
  split
  · refine ⟨h.child, h.command, ?_, h.first.cons hdoc, h.once.cons hdoc⟩
    constructor
    · intro _
      exact .inr mem_cons_self
    · intro _
      rfl
  · exact h

theorem Ready.lookForTree (h : Ready slot.acts) (T : Tick) : Ready (slot.lookForTree T).acts := by
  unfold ActiveSlot.lookForTree
  split
  · exact h.cons fun document heq => by cases heq
  · exact h

theorem Finishing.verify (h : Finishing start code slot) (T : Tick) (code' : ExitCode) :
    Finishing start code (slot.verify T code').1 := by
  unfold ActiveSlot.verify
  split
  · have hdoc : ∀ document,
        Act.verified (ActiveSlot.verificationCode T.verification).isNone ≠ .wrote document :=
      fun document heq => by cases heq
    refine ⟨h.child, h.command, ?_, h.first.cons hdoc, h.once.cons hdoc⟩
    have hmissing : SeenMissing start
        (.verified (ActiveSlot.verificationCode T.verification).isNone :: slot.acts) ↔
          SeenMissing start slot.acts := by
      unfold SeenMissing
      simp
    exact h.missing.trans hmissing.symm
  · exact h

theorem Ready.verify (h : Ready slot.acts) (T : Tick) (code : ExitCode) :
    Ready (slot.verify T code).1.acts := by
  unfold ActiveSlot.verify
  split
  · exact h.cons fun document heq => by cases heq
  · exact h

/-- A verification that does not pass is recorded with a code that is not 0. -/
theorem verificationCode_getD (verification : Verification) :
    (verificationCode verification).getD 0 = 0 ↔ (verificationCode verification).isNone = true := by
  cases verification with
  | exited code =>
    have hlow := code.low
    have hhigh := code.high
    simp only [verificationCode, Option.getD_some, Option.isNone_some,
      Bool.false_eq_true, iff_false]
    omega
  | _ => decide

section

variable (h : Finishing start code slot)

include h

theorem Finishing.judged (T : Tick) :
    (slot.verify T code).2 = 0 ∧ (slot.verify T code).1.workdirMissing = false ↔
      Succeeded start code (slot.verify T code).1.acts := by
  have hmissing : slot.workdirMissing = false ↔ ¬SeenMissing start slot.acts := by
    rw [← h.missing, Bool.not_eq_true]
  unfold ActiveSlot.verify Succeeded
  rw [← h.command]
  split
  · next hverifies =>
    obtain ⟨hcode, htree, hcommand⟩ := hverifies
    have hseen : SeenMissing start
        (.verified (ActiveSlot.verificationCode T.verification).isNone :: slot.acts) ↔
          SeenMissing start slot.acts := by
      unfold SeenMissing
      simp
    have hunseen := hmissing.mp htree
    dsimp only [ActiveSlot.act]
    rw [hcode, verificationCode_getD, hseen]
    simp [htree, hunseen, hcommand, lastVerified]
  · next hnone =>
    rw [← hmissing]
    constructor
    · rintro ⟨hcode, htree⟩
      exact ⟨hcode, htree, fun hcommand => absurd ⟨hcode, htree, hcommand⟩ hnone⟩
    · rintro ⟨hcode, htree, -⟩
      exact ⟨hcode, htree⟩

/-- The terminal move, after the upload. -/
theorem Finishing.settle (huploaded : .uploaded ∈ slot.acts)
    (hcalls : CallsFor start code slot.acts document) (hterminal : document ≠ .oomRequeued)
    (T : Tick) :
    Finishing start code (slot.settle T document).1 ∧
      ((slot.settle T document).2 = .done → Settled (slot.settle T document).1.acts) := by
  have hwrote : Finishing start code (slot.act (.wrote document)) :=
    h.wrote huploaded hcalls fun heq => absurd heq hterminal
  unfold ActiveSlot.settle
  split
  · exact ⟨hwrote, fun _ => settled_wrote⟩
  · next made _ =>
    have hmade : Finishing start code (if made then slot.act (.wrote document) else slot) := by
      split
      · exact hwrote
      · exact h
    dsimp only
    split
    · refine ⟨hmade, fun hdone => ?_⟩
      cases hdone
    · exact ⟨hmade.act trivial, fun _ => settled_elsewhere⟩
    · refine ⟨hmade, fun hdone => ?_⟩
      cases hdone

theorem Finishing.publish (hcalls : CallsFor start code (.uploaded :: slot.acts) document)
    (hterminal : document ≠ .oomRequeued) (T : Tick) :
    Finishing start code (slot.publish T document).1 ∧
      ((slot.publish T document).2 = .done → Settled (slot.publish T document).1.acts) := by
  have huploaded : Finishing start code (slot.act .uploaded) := h.act trivial
  unfold ActiveSlot.publish
  split
  · refine ⟨h, fun hdone => ?_⟩
    cases hdone
  · split
    · refine ⟨huploaded, fun hdone => ?_⟩
      cases hdone
    · exact huploaded.settle mem_cons_self hcalls hterminal T

/-- A failed exit, where the escalation's move follows an upload and no document. -/
theorem Finishing.escalate (hfailed : ¬Succeeded start code slot.acts) (T : Tick)
    (hready : T.escalation.made = true → Ready slot.acts) :
    Finishing start code (slot.escalate T).1 ∧
      ((slot.escalate T).2 = .done → Settled (slot.escalate T).1.acts) := by
  have hrequeued : T.escalation.made = true →
      Finishing start code (slot.act (.wrote .oomRequeued)) := fun hmade =>
    h.wrote (hready hmade).1 hfailed fun _ => (hready hmade).2
  unfold ActiveSlot.escalate
  split
  · have hplain : ∀ a ∈ [Act.uploaded], a.Plain := fun a hmem => by
      rw [mem_singleton.mp hmem]
      trivial
    have hcalls : CallsFor start code (.uploaded :: slot.acts) .failed := by
      unfold CallsFor
      rw [← singleton_append, Succeeded.append hplain]
      exact hfailed
    exact h.publish hcalls (fun heq => by cases heq) T
  · refine ⟨h, fun hdone => ?_⟩
    cases hdone
  · next made hescalation =>
    refine ⟨?_, fun hdone => ?_⟩
    · split
      · next hmade =>
        refine hrequeued ?_
        rw [hescalation]
        exact hmade
      · exact h
    · cases hdone
  · next cleared hescalation =>
    refine ⟨hrequeued ?_, fun _ => settled_wrote⟩
    rw [hescalation]
    rfl

/-- The exit comes to the document it calls for. -/
theorem Finishing.finalize (T : Tick)
    (hready : T.workDir = true → T.escalation.made = true → slot.Escalates T code →
      Ready slot.acts) :
    Finishing start code (slot.finalize T code).1 ∧
      ((slot.finalize T code).2 = .done → Settled (slot.finalize T code).1.acts) := by
  have hjudged : Finishing start code ((slot.lookForTree T).verify T code).1 :=
    (h.lookForTree T).verify T code
  have hsuccess := (h.lookForTree T).judged T
  unfold ActiveSlot.finalize
  split
  · refine ⟨h, fun hdone => ?_⟩
    cases hdone
  · next hdir =>
    rw [Bool.not_eq_true', Bool.not_eq_false] at hdir
    dsimp only
    split
    · next hfails =>
      have hfailed : ¬Succeeded start code ((slot.lookForTree T).verify T code).1.acts := by
        rw [← hsuccess]
        rintro ⟨hcode, htree⟩
        rcases hfails with hfails | hfails
        · exact hfails hcode
        · rw [htree] at hfails
          cases hfails
      split
      · refine ⟨hjudged, fun hdone => ?_⟩
        cases hdone
      · next hread =>
        refine hjudged.escalate hfailed T fun hmade => ?_
        exact ((hready hdir hmade ⟨hfails, hread⟩).lookForTree T).verify T code
    · next hpasses =>
      have hsucceeded : Succeeded start code ((slot.lookForTree T).verify T code).1.acts := by
        rw [← hsuccess]
        rw [not_or, not_not, Bool.not_eq_true] at hpasses
        exact hpasses
      have hplain : ∀ a ∈ [Act.uploaded], a.Plain := fun a hmem => by
        rw [mem_singleton.mp hmem]
        trivial
      have hcalls : CallsFor start code
          (.uploaded :: ((slot.lookForTree T).verify T code).1.acts) .completed := by
        unfold CallsFor
        rw [← singleton_append, Succeeded.append hplain]
        exact hsucceeded
      exact hjudged.publish hcalls (fun heq => by cases heq) T

theorem Finishing.dropSlot (T : Tick) (uploads : Bool) :
    Finishing start code (slot.dropSlot T uploads).1 ∧
      ((slot.dropSlot T uploads).2 = .done → Settled (slot.dropSlot T uploads).1.acts) := by
  have hended : Finishing start code (slot.terminateCancelled T).1 :=
    h.grow (Grows.terminateCancelled slot T)
  unfold ActiveSlot.dropSlot
  dsimp only
  split
  · refine ⟨hended, fun hdone => ?_⟩
    cases hdone
  · split
    · split
      · refine ⟨hended, fun hdone => ?_⟩
        cases hdone
      · refine ⟨Finishing.act ?_ trivial, fun _ => settled_elsewhere⟩
        split
        · exact hended.act trivial
        · exact hended
    · exact ⟨hended.act trivial, fun _ => settled_elsewhere⟩

end

theorem ActiveSlot.ExitedWith.not_running (h : slot.ExitedWith code) : slot.child ≠ .running := by
  intro hrunning
  rcases h with h | h
  · rw [hrunning] at h
    cases h
  · rw [hrunning] at h
    cases h

theorem observe_status_exited (h : slot.ExitedWith code) : slot.observe.status = some code := by
  unfold observe status
  rcases h with h | h
  · rw [h]
  · rw [h]
    dsimp only
    rw [h]

theorem Finishing.advance (h : Finishing start code slot) (T : Tick)
    (hkeeps : KeepsFinished code slot (.advance T)) :
    Finishing start code (slot.advance T).1 ∧
      ((slot.advance T).2 = .done → Settled (slot.advance T).1.acts) := by
  unfold ActiveSlot.advance
  split
  · refine ⟨h, fun hdone => ?_⟩
    cases hdone
  · exact h.dropSlot T true
  · next hrecord =>
    split
    · refine ⟨h, fun hdone => ?_⟩
      cases hdone
    · exact h.dropSlot T false
    · next hheld =>
      have hfollowed : Finishing start code (slot.followRenter T).1 :=
        h.grow ((Grows.refl slot).followRenter T)
      dsimp only
      split
      · refine ⟨hfollowed, fun hdone => ?_⟩
        cases hdone
      · next hrenter =>
        rw [Bool.not_eq_true', Bool.not_eq_false] at hrenter
        unfold ActiveSlot.reapAndFinalize
        rw [observe_status_exited hfollowed.child]
        split
        · refine ⟨hfollowed, fun hdone => ?_⟩
          cases hdone
        · next hwait =>
          rw [Bool.not_eq_true', Bool.not_eq_false] at hwait
          have hreaped := h.grow (Grows.reapedBy slot T)
          refine hreaped.finalize T fun hdir hmade hescalates => ?_
          have hready : Ready slot.acts :=
            hkeeps ⟨hrecord, hheld, hrenter, hwait, hdir, hmade, hescalates⟩
          exact hready.grow (Grows.reapedBy slot T)

def Kept (start : ActiveSlot) (code : ExitCode) (slot : ActiveSlot) : Prop :=
  Finishing start code slot ∧ (slot.kept = false → Settled slot.acts)

theorem kept_step {b : SlotStep} (h : Kept start code slot) (hkeeps : KeepsFinished code slot b)
    (hstep : slot.step b = some slot') : Kept start code slot' := by
  unfold step at hstep
  split at hstep
  · cases hstep
  · have hexited := h.1.child.not_running
    cases b with
    | exits code' =>
      dsimp only at hstep
      rw [if_neg hexited] at hstep
      cases hstep
    | advance T =>
      dsimp only at hstep
      cases hstep
      obtain ⟨hfinishing, hdone⟩ := h.1.advance T hkeeps
      refine ⟨⟨hfinishing.child, hfinishing.command, hfinishing.missing, hfinishing.first,
        hfinishing.once⟩, fun hkept => hdone ?_⟩
      exact not_not.mp (of_decide_eq_false hkept)
    | yield Y => exact absurd hkeeps hexited

theorem kept_fromNow (hexited : start.ExitedWith code) (hkept : start.kept = true) :
    Kept start code start.fromNow := by
  refine ⟨⟨hexited, rfl, ?_, ?_, ?_⟩, fun hgiven => ?_⟩
  · constructor
    · exact .inl
    · rintro (hmissing | hmem)
      · exact hmissing
      · cases hmem
  · intro document earlier hsuffix
    cases suffix_nil.mp hsuffix
  · intro document earlier hsuffix
    cases suffix_nil.mp hsuffix
  · have hgiven' : start.kept = false := hgiven
    rw [hkept] at hgiven'
    cases hgiven'

/-- **A finished workload reaches the outcome of its exit**: from any slot whose
workload has exited, in every run whose steps meet the condition. -/
theorem finished_reaches_outcome (hexited : start.ExitedWith code) (hkept : start.kept = true)
    (hr : Reaches step (KeepsFinished code) start.fromNow slot) :
    FirstWritten start code slot.acts ∧ RequeuedOnce slot.acts ∧
      (slot.kept = false → Settled slot.acts) := by
  have hend : Kept start code slot :=
    hr.invariant (I := Kept start code) (kept_fromNow hexited hkept) fun _ _ _ h => kept_step h
  exact ⟨hend.1.first, hend.1.once, hend.2⟩

end Acts

/-! ## Runs after one exit -/

instance (acts : List Act) : Decidable (Unwritten acts) :=
  decidable_of_iff (.wrote .completed ∉ acts ∧ .wrote .failed ∉ acts ∧
      .wrote .oomRequeued ∉ acts ∧ .wrote .yielded ∉ acts) <| by
    constructor
    · rintro ⟨hcompleted, hfailed, hrequeued, hyielded⟩ document
      cases document with
      | completed => exact hcompleted
      | failed => exact hfailed
      | oomRequeued => exact hrequeued
      | yielded => exact hyielded
    · intro h
      exact ⟨h .completed, h .failed, h .oomRequeued, h .yielded⟩

instance (slot : ActiveSlot) (T : Tick) (code : ExitCode) :
    Decidable (slot.RequeuesBy T code) := by
  unfold RequeuesBy Escalates
  infer_instance

instance (code : ExitCode) : ∀ (slot : ActiveSlot) (a : SlotStep),
    Decidable (KeepsFinished code slot a)
  | _, .exits _ => .isTrue trivial
  | slot, .advance T => inferInstanceAs (Decidable
      (slot.RequeuesBy T code → .uploaded ∈ slot.acts ∧ Unwritten slot.acts))
  | slot, .yield _ => inferInstanceAs (Decidable (slot.child = .running))

namespace OneSlot

def crashed : ExitCode := ⟨1, by decide, by decide⟩

/-- A slot whose workload has just exited. -/
def exitedAs (code : ExitCode) : ActiveSlot := (spawned true).ended code

/-- The upload refused, then the status, and the move made and answered with an
error, another tick at which the store holds nothing settled, and the last. -/
def retried : List SlotStep :=
  [.advance refused, .advance { calm with status := false },
    .advance { calm with move := .failed true }, .advance calm]

def retriedActs : List Act :=
  [.wrote .completed, .uploaded, .verified true, .wrote .completed, .uploaded, .verified true,
    .uploaded, .verified true, .verified true, .signal .kill false .esrch, .observed success]

end OneSlot

open OneSlot in
theorem finished_reaches_outcome_retried :
    ∃ slot, Reaches step (KeepsFinished success) (exitedAs success).fromNow slot ∧
      slot.acts = retriedActs ∧ FirstWritten (exitedAs success) success slot.acts := by
  obtain ⟨slot, hr, hacts⟩ :
      ∃ slot, Reaches step (KeepsFinished success) (exitedAs success).fromNow slot ∧
        decide (slot.acts = retriedActs) = true :=
    exists_reaches retried (fun slot : ActiveSlot => decide (slot.acts = retriedActs))
      (by decide +kernel)
  exact ⟨slot, hr, of_decide_eq_true hacts, (finished_reaches_outcome (.inl rfl) rfl hr).1⟩

namespace OneSlot

/-- The job finished, its upload was refused, and demand response sheds it. -/
def shed : List SlotStep := [.advance refused, .yield asked]

/-- The job failed for want of memory, and a larger accelerator is there. -/
def outOfMemory : List SlotStep := [.advance { calm with escalation := .moved true }]

def shedActs : List Act :=
  [.wrote .yielded, .uploaded, .verified true, .signal .kill false .esrch, .observed success]

def outOfMemoryActs : List Act :=
  [.wrote .oomRequeued, .signal .kill false .esrch, .observed crashed]

end OneSlot

open OneSlot in
/-- A job that finished goes back to the queue to run again; and one that ran out of
memory goes back before its artifacts were uploaded. -/
theorem finished_put_back :
    (∃ slot, Reaches step always (exitedAs success).fromNow slot ∧
      slot.acts = shedActs ∧ ¬RequeuedOnce slot.acts) ∧
    ∃ slot, Reaches step always (exitedAs crashed).fromNow slot ∧
      slot.acts = outOfMemoryActs ∧ ¬FirstWritten (exitedAs crashed) crashed slot.acts := by
  constructor
  · obtain ⟨slot, hr, hacts⟩ :
        ∃ slot, Reaches step always (exitedAs success).fromNow slot ∧
          decide (slot.acts = shedActs) = true :=
      exists_reaches shed (fun slot : ActiveSlot => decide (slot.acts = shedActs))
        (by decide +kernel)
    have hacts := of_decide_eq_true hacts
    refine ⟨slot, hr, hacts, fun honce => ?_⟩
    rw [hacts] at honce
    exact (honce .yielded _ (suffix_refl shedActs)).1 rfl
  · obtain ⟨slot, hr, hacts⟩ :
        ∃ slot, Reaches step always (exitedAs crashed).fromNow slot ∧
          decide (slot.acts = outOfMemoryActs) = true :=
      exists_reaches outOfMemory (fun slot : ActiveSlot => decide (slot.acts = outOfMemoryActs))
        (by decide +kernel)
    have hacts := of_decide_eq_true hacts
    refine ⟨slot, hr, hacts, fun hfirst => ?_⟩
    rw [hacts] at hfirst
    have huploaded := (hfirst .oomRequeued _ (suffix_refl outOfMemoryActs) (by decide)).1
    revert huploaded
    decide

end Stado.Agent
