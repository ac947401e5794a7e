import Stado.Agent.Slots

/-!
# Signals to a slot's own processes

While a slot whose exit was observed is advanced only where no branch signals,
and no yield asks a paused job to exit, every signal goes to a child that was
not waited for yet, but for the one end of its leftover group; and a paused job
that is asked to exit is continued.
-/

namespace Stado.Agent

open Machine List

/-! ## What the acts say -/

/-- The child's exit was observed. -/
def Seen (acts : List Act) : Prop := ∃ code, .observed code ∈ acts

/-- Each signal was sent before the exit was observed, or is the end of the
leftover group at that observation. -/
def OwnSignals (acts : List Act) : Prop :=
  ∀ sig paused answer earlier, .signal sig paused answer :: earlier <:+ acts → ¬Seen earlier ∨
      sig = .kill ∧ ∃ code rest, earlier = .observed code :: rest ∧ ¬Seen rest

/-- Each paused job that was asked to exit was continued next. -/
def Continued (acts : List Act) : Prop :=
  ∀ earlier, .signal .term true .ok :: earlier <:+ acts →
    ∃ answer, .signal .cont true answer :: .signal .term true .ok :: earlier <:+ acts

/-- A signal is sent only where the exit was not observed: no ended or withdrawn
record is found, no renter comes or goes, and the group was ended. No yield asks
a paused job to exit. -/
def SignalsLiving (slot : ActiveSlot) : SlotStep → Prop
  | .exits _ => True
  | .advance T => slot.status.isSome = true → T.terminalRecord ≠ some true ∧
      (T.terminalRecord = some false → T.held ≠ some false ∧
        (T.held = some true → slot.paused = T.vastActive ∧
          (T.tryWait = true → slot.groupEnded = true)))
  | .yield Y => slot.paused = true → slot.child = .running → Y.workDir = true →
      Y.hookEnds = none → Y.tryWait = true → Y.termAnswer ≠ .ok

section Acts

variable {acts : List Act} {a : Act} {slot slot' : ActiveSlot} {T : Tick} {Y : ActiveSlot.Yield}
  {code : ExitCode} {answer : KillAnswer} {paused : Bool} {answer answer' : KillAnswer}
  {sig : Signal}

theorem seen_cons : Seen (a :: acts) ↔ (∃ code, a = .observed code) ∨ Seen acts := by
  unfold Seen
  constructor
  · rintro ⟨code, hmem⟩
    rcases mem_cons.mp hmem with rfl | hmem
    · exact .inl ⟨code, rfl⟩
    · exact .inr ⟨code, hmem⟩
  · rintro (⟨code, rfl⟩ | ⟨code, hmem⟩)
    · exact ⟨code, mem_cons_self⟩
    · exact ⟨code, mem_cons_of_mem _ hmem⟩

theorem OwnSignals.cons (h : OwnSignals acts) (hsilent : ∀ sig paused answer,
    a ≠ .signal sig paused answer) : OwnSignals (a :: acts) := by
  intro sig paused answer earlier hsuffix
  rcases suffix_cons_iff.mp hsuffix with heq | hsuffix
  · rw [List.cons.injEq] at heq
    exact absurd heq.1.symm (hsilent sig paused answer)
  · exact h sig paused answer earlier hsuffix

theorem OwnSignals.living (h : OwnSignals acts) (hunseen : ¬Seen acts) :
    OwnSignals (.signal sig paused answer :: acts) := by
  intro sig' paused' answer' earlier hsuffix
  rcases suffix_cons_iff.mp hsuffix with heq | hsuffix
  · rw [List.cons.injEq] at heq
    rw [heq.2]
    exact .inl hunseen
  · exact h sig' paused' answer' earlier hsuffix

theorem OwnSignals.leftover (h : OwnSignals acts) (hunseen : ¬Seen acts) :
    OwnSignals (.signal .kill paused answer :: .observed code :: acts) := by
  intro sig' paused' answer' earlier hsuffix
  rcases suffix_cons_iff.mp hsuffix with heq | hsuffix
  · rw [List.cons.injEq, Act.signal.injEq] at heq
    obtain ⟨⟨rfl, -, -⟩, rfl⟩ := heq
    exact .inr ⟨rfl, code, acts, rfl, hunseen⟩
  · exact h.cons (fun _ _ _ heq => by cases heq) sig' paused' answer' earlier hsuffix

theorem Continued.cons (h : Continued acts) (hasks : a ≠ .signal .term true .ok) :
    Continued (a :: acts) := by
  intro earlier hsuffix
  rcases suffix_cons_iff.mp hsuffix with heq | hsuffix
  · rw [List.cons.injEq] at heq
    exact absurd heq.1.symm hasks
  · obtain ⟨answer, hcont⟩ := h earlier hsuffix
    exact ⟨answer, hcont.trans (suffix_cons _ _)⟩

theorem Continued.asked (h : Continued acts) :
    Continued (.signal .cont true answer :: .signal .term true answer' :: acts) := by
  intro earlier hsuffix
  rcases suffix_cons_iff.mp hsuffix with heq | hsuffix
  · rw [List.cons.injEq] at heq
    cases heq.1
  · rcases suffix_cons_iff.mp hsuffix with heq | hsuffix
    · rw [List.cons.injEq, Act.signal.injEq] at heq
      obtain ⟨⟨-, -, rfl⟩, rfl⟩ := heq
      exact ⟨answer, suffix_refl _⟩
    · obtain ⟨answer'', hcont⟩ := h earlier hsuffix
      exact ⟨answer'', (hcont.trans (suffix_cons _ _)).trans (suffix_cons _ _)⟩

/-! ## The slot's invariant -/

/-- The acts of a slot so far, and that the child is waited for when its exit was
observed. -/
structure Owns (slot : ActiveSlot) : Prop where
  known : Seen slot.acts ↔ slot.status.isSome = true
  own : OwnSignals slot.acts
  continued : Continued slot.acts

theorem Owns.unseen (h : Owns slot) (hstatus : slot.status = none) : ¬Seen slot.acts := by
  rw [h.known, hstatus]
  exact Bool.false_ne_true

theorem Owns.congr (h : Owns slot) (hchild : slot'.child = slot.child)
    (hacts : slot'.acts = slot.acts) : Owns slot' := by
  have hstatus : slot'.status = slot.status := by
    unfold ActiveSlot.status
    rw [hchild]
  refine ⟨?_, ?_, ?_⟩
  · rw [hacts, hstatus]
    exact h.known
  · rw [hacts]
    exact h.own
  · rw [hacts]
    exact h.continued

theorem Owns.pausedSet (h : Owns slot) (paused : Bool) : Owns (slot.pausedSet paused) :=
  h.congr rfl rfl

def Act.Silent : Act → Prop
  | .signal .. => False
  | .observed _ => False
  | _ => True

theorem Owns.act (h : Owns slot) (hsilent : a.Silent) : Owns (slot.act a) := by
  refine ⟨?_, h.own.cons ?_, h.continued.cons ?_⟩
  · have hstatus : (slot.act a).status = slot.status := rfl
    have hacts : (slot.act a).acts = a :: slot.acts := rfl
    rw [hacts, hstatus, seen_cons, ← h.known]
    constructor
    · rintro (⟨code, rfl⟩ | hseen)
      · exact hsilent.elim
      · exact hseen
    · exact .inr
  · rintro sig paused answer rfl
    exact hsilent
  · rintro rfl
    exact hsilent

/-- A signal to a child that was not waited for, where it does not ask a paused
job to exit. -/
theorem Owns.signal (h : Owns slot) (hstatus : slot.status = none)
    (hasks : .signal sig paused answer ≠ Act.signal .term true .ok) :
    Owns (slot.act (.signal sig paused answer)) := by
  have hunseen := h.unseen hstatus
  refine ⟨?_, h.own.living hunseen, h.continued.cons hasks⟩
  have hstatus' : (slot.act (.signal sig paused answer)).status = slot.status := rfl
  have hacts : (slot.act (.signal sig paused answer)).acts =
      .signal sig paused answer :: slot.acts := rfl
  rw [hacts, hstatus', seen_cons, ← h.known]
  constructor
  · rintro (⟨code, heq⟩ | hseen)
    · cases heq
    · exact hseen
  · exact .inr

theorem observe_status (slot : ActiveSlot) (h : slot.status.isSome = true) :
    slot.observe = slot := by
  unfold ActiveSlot.status at h
  unfold ActiveSlot.observe
  split
  · rfl
  · next hchild =>
    rw [hchild] at h
    cases h
  · rfl

/-- A child whose exit is not given runs. -/
theorem running_of_unobserved (h : ¬slot.observe.status.isSome = true) : slot.child = .running := by
  unfold ActiveSlot.observe at h
  rcases hchild : slot.child with _ | code | code
  · rfl
  · rw [hchild] at h
    exact absurd rfl h
  · rw [hchild] at h
    unfold ActiveSlot.status at h
    rw [hchild] at h
    exact absurd rfl h

theorem Owns.observe (h : Owns slot) : Owns slot.observe := by
  unfold ActiveSlot.observe
  split
  · exact h
  · next code hchild =>
    have hstatus : slot.status = none := by
      unfold ActiveSlot.status
      rw [hchild]
    refine ⟨?_, h.own.cons ?_, h.continued.cons ?_⟩
    · constructor
      · intro _
        rfl
      · intro _
        exact ⟨code, mem_cons_self⟩
    · intro sig paused answer heq
      cases heq
    · intro heq
      cases heq
  · exact h

theorem Owns.ended (h : Owns slot) (code : ExitCode) : Owns (slot.ended code) := by
  unfold ActiveSlot.ended
  split
  · next hchild =>
    have hstatus : slot.status = none := by
      unfold ActiveSlot.status
      rw [hchild]
    have hunseen := h.unseen hstatus
    refine ⟨?_, h.own.cons ?_, h.continued.cons ?_⟩
    · constructor
      · intro hseen
        rcases seen_cons.mp hseen with ⟨_, heq⟩ | hseen
        · cases heq
        · exact absurd hseen hunseen
      · intro hsome
        cases hsome
    · intro sig paused answer heq
      cases heq
    · intro heq
      cases heq
  · exact h

/-! ## Ending a job that was settled elsewhere -/

/-- A paused job is asked to exit and continued next. -/
theorem Owns.asked (h : Owns slot) (hstatus : slot.status = none) :
    Owns ((slot.act (.signal .term true answer)).act (.signal .cont true answer')) := by
  have hunseen := h.unseen hstatus
  have hunseen' : ¬Seen (.signal .term true answer :: slot.acts) := by
    rw [seen_cons]
    rintro (⟨code, heq⟩ | hseen)
    · cases heq
    · exact hunseen hseen
  refine ⟨?_, (h.own.living hunseen).living hunseen', h.continued.asked⟩
  have hstatus' : ((slot.act (.signal .term true answer)).act
      (.signal .cont true answer')).status = slot.status := rfl
  rw [hstatus', hstatus]
  constructor
  · intro hseen
    rcases seen_cons.mp hseen with ⟨code, heq⟩ | hseen
    · cases heq
    · exact absurd hseen hunseen'
  · intro hsome
    cases hsome

theorem Owns.awaitExit (h : Owns slot) (T : Tick) : Owns (slot.awaitExit T).1 := by
  unfold ActiveSlot.awaitExit
  split
  · exact (h.ended _).observe
  · exact h

theorem continueGroup_running (T : Tick) (hpaused : slot.paused = false) :
    slot.continueGroup T = slot.awaitExit T := by
  unfold ActiveSlot.continueGroup
  rw [hpaused]
  rfl

/-- After a signal that asked it to exit, a group is continued where it was
paused. -/
theorem Owns.continueAsked (h : Owns slot) (hstatus : slot.status = none) (T : Tick) :
    Owns ((slot.act (.signal .term slot.paused answer)).continueGroup T).1 := by
  rcases hpaused : slot.paused with _ | _
  · have hsent : Owns (slot.act (.signal .term false answer)) :=
      h.signal hstatus fun heq => by cases heq
    rw [continueGroup_running T (by exact hpaused)]
    exact hsent.awaitExit T
  · have hasked : Owns ((slot.act (.signal .term true answer)).act
        (.signal .cont true T.contAnswer)) := h.asked hstatus
    have hpaused' : (slot.act (.signal .term true answer)).paused = true := hpaused
    unfold ActiveSlot.continueGroup
    rw [hpaused', if_pos rfl]
    dsimp only
    split
    · exact (hasked.pausedSet false).awaitExit T
    · exact (hasked.pausedSet false).awaitExit T
    · exact hasked
    · exact hasked

/-- A job that was not waited for is ended within its own processes. -/
theorem Owns.terminateCancelled (h : Owns slot) (hstatus : slot.status = none) (T : Tick) :
    Owns (slot.terminateCancelled T).1 := by
  unfold ActiveSlot.terminateCancelled
  dsimp only
  split
  · exact h.continueAsked hstatus T
  · exact h.continueAsked hstatus T
  · have hsent : Owns (slot.act (.signal .term slot.paused T.termAnswer)) := by
      refine h.signal hstatus ?_
      next heq =>
        rw [heq]
        intro habsurd
        rw [Act.signal.injEq] at habsurd
        cases habsurd.2.2
    split
    · exact hsent
    · split
      · rw [continueGroup_running T rfl]
        exact (hsent.observe.pausedSet false).awaitExit T
      · exact hsent.observe
  · next heq =>
    refine h.signal hstatus ?_
    rw [heq]
    intro habsurd
    rw [Act.signal.injEq] at habsurd
    cases habsurd.2.2

theorem Owns.dropSlot (h : Owns slot) (hstatus : slot.status = none) (T : Tick) (uploads : Bool) :
    Owns (slot.dropSlot T uploads).1 := by
  have hended := h.terminateCancelled hstatus T
  unfold ActiveSlot.dropSlot
  dsimp only
  split
  · exact hended
  · split
    · split
      · exact hended
      · refine Owns.act ?_ trivial
        split
        · exact hended.act trivial
        · exact hended
    · exact hended.act trivial

/-! ## Finalization sends nothing -/

theorem Owns.lookForTree (h : Owns slot) (T : Tick) : Owns (slot.lookForTree T) := by
  unfold ActiveSlot.lookForTree
  split
  · exact (h.act (a := .sawMissing) trivial).congr rfl rfl
  · exact h

theorem Owns.verify (h : Owns slot) (T : Tick) (code : ExitCode) : Owns (slot.verify T code).1 := by
  unfold ActiveSlot.verify
  split
  · exact h.act trivial
  · exact h

theorem Owns.settle (h : Owns slot) (T : Tick) (document : Document) :
    Owns (slot.settle T document).1 := by
  unfold ActiveSlot.settle
  split
  · exact h.act trivial
  · next made _ =>
    have hmade : Owns (if made then slot.act (.wrote document) else slot) := by
      split
      · exact h.act trivial
      · exact h
    dsimp only
    split
    · exact hmade
    · exact hmade.act trivial
    · exact hmade

theorem Owns.publish (h : Owns slot) (T : Tick) (document : Document) :
    Owns (slot.publish T document).1 := by
  have huploaded : Owns (slot.act .uploaded) := h.act trivial
  unfold ActiveSlot.publish
  split
  · exact h
  · split
    · exact huploaded
    · exact huploaded.settle T document

theorem Owns.escalate (h : Owns slot) (T : Tick) : Owns (slot.escalate T).1 := by
  unfold ActiveSlot.escalate
  split
  · exact h.publish T _
  · exact h
  · dsimp only
    split
    · exact h.act trivial
    · exact h
  · exact h.act trivial

theorem Owns.finalize (h : Owns slot) (T : Tick) (code : ExitCode) :
    Owns (slot.finalize T code).1 := by
  have hjudged := (h.lookForTree T).verify T code
  unfold ActiveSlot.finalize
  split
  · exact h
  · dsimp only
    split
    · split
      · exact hjudged
      · exact hjudged.escalate T
    · exact hjudged.publish T _

theorem Owns.runningTick (h : Owns slot) (T : Tick) : Owns (slot.runningTick T).1 := by
  unfold ActiveSlot.runningTick
  split
  · exact h
  · split
    · exact h
    · exact h.lookForTree T

/-! ## The tick and the yield -/

/-- Where a signal is sent for a renter, the child was not waited for. -/
theorem Owns.followRenter (h : Owns slot) (T : Tick)
    (hliving : slot.status.isSome = true → slot.paused = T.vastActive) :
    Owns (slot.followRenter T).1 := by
  have hsend : slot.paused ≠ T.vastActive → ∀ sig, sig ≠ .term →
      Owns (slot.act (.signal sig slot.paused T.pauseAnswer)) := by
    intro hdiffers sig hsig
    have hstatus : slot.status = none := by
      rw [← Option.not_isSome_iff_eq_none]
      exact fun hsome => hdiffers (hliving hsome)
    refine h.signal hstatus fun heq => ?_
    rw [Act.signal.injEq] at heq
    exact hsig heq.1
  unfold ActiveSlot.followRenter
  split
  · next hflags =>
    rw [Bool.and_eq_true, Bool.not_eq_true'] at hflags
    have hsent := hsend (by rw [hflags.1, hflags.2]; exact Bool.false_ne_true) .stop nofun
    dsimp only
    split
    · exact hsent.congr rfl rfl
    · exact hsent
  · split
    · next hflags =>
      rw [Bool.and_eq_true, Bool.not_eq_true'] at hflags
      have hsent := hsend (by rw [hflags.1, hflags.2]; exact Bool.noConfusion) .cont nofun
      dsimp only
      split
      · exact hsent.congr rfl rfl
      · exact hsent
    · exact h

theorem followRenter_child (slot : ActiveSlot) (T : Tick) :
    (slot.followRenter T).1.child = slot.child ∧
      (slot.followRenter T).1.groupEnded = slot.groupEnded := by
  unfold ActiveSlot.followRenter
  split
  · dsimp only
    split
    · exact ⟨rfl, rfl⟩
    · exact ⟨rfl, rfl⟩
  · split
    · dsimp only
      split
      · exact ⟨rfl, rfl⟩
      · exact ⟨rfl, rfl⟩
    · exact ⟨rfl, rfl⟩

theorem Owns.endObserved (h : Owns slot) (answer : KillAnswer)
    (hended : slot.status.isSome = true → slot.groupEnded = true)
    (hsome : slot.observe.status.isSome = true) : Owns (slot.observe.endLeftoverGroup answer) := by
  have hobserved := h.observe
  unfold ActiveSlot.endLeftoverGroup
  split
  · exact hobserved
  · next hgroup =>
    rcases hstatus : slot.status with _ | code
    · have hunseen := h.unseen hstatus
      obtain ⟨code, hacts⟩ : ∃ code, slot.observe.acts = .observed code :: slot.acts := by
        unfold ActiveSlot.observe at hsome ⊢
        unfold ActiveSlot.status at hstatus hsome
        split
        · next hchild =>
          rw [hchild] at hsome
          simp [hchild] at hsome
        · next code _ => exact ⟨code, rfl⟩
        · next hchild =>
          rw [hchild] at hstatus
          cases hstatus
      refine ⟨?_, ?_, ?_⟩
      · constructor
        · intro _
          exact hsome
        · intro _
          exact seen_cons.mpr (.inr (hobserved.known.mpr hsome))
      · have hown : OwnSignals (.signal .kill slot.observe.paused answer ::
            .observed code :: slot.acts) := h.own.leftover hunseen
        rw [← hacts] at hown
        exact hown
      · exact hobserved.continued.cons fun heq => by cases heq
    · have hsame : slot.observe = slot := observe_status slot (by rw [hstatus]; rfl)
      rw [hsame] at hgroup
      exact absurd (hended (by rw [hstatus]; rfl)) hgroup

theorem Owns.reapAndFinalize (h : Owns slot) (T : Tick)
    (hended : slot.status.isSome = true → T.tryWait = true → slot.groupEnded = true) :
    Owns (slot.reapAndFinalize T).1 := by
  unfold ActiveSlot.reapAndFinalize
  split
  · exact h
  · next hwait =>
    rw [Bool.not_eq_true', Bool.not_eq_false] at hwait
    split
    · exact h.observe.runningTick T
    · next code hcode =>
      have hgroup : Owns (slot.observe.endLeftoverGroup T.killAnswer) :=
        h.endObserved _ (fun hsome => hended hsome hwait) (by rw [hcode]; rfl)
      exact hgroup.finalize T code

theorem Owns.advance (h : Owns slot) (T : Tick) (hliving : SignalsLiving slot (.advance T)) :
    Owns (slot.advance T).1 := by
  have hunreaped : ¬slot.status.isSome = true → slot.status = none :=
    Option.not_isSome_iff_eq_none.mp
  unfold ActiveSlot.advance
  split
  · exact h
  · next hrecord =>
    refine h.dropSlot (hunreaped fun hsome => ?_) T true
    exact (hliving hsome).1 hrecord
  · next hrecord =>
    split
    · exact h
    · next hheld =>
      refine h.dropSlot (hunreaped fun hsome => ?_) T false
      exact ((hliving hsome).2 hrecord).1 hheld
    · next hheld =>
      have hfollowed := h.followRenter T fun hsome =>
        (((hliving hsome).2 hrecord).2 hheld).1
      obtain ⟨hchild, hgroup⟩ := followRenter_child slot T
      have hstatus : (slot.followRenter T).1.status = slot.status := by
        unfold ActiveSlot.status
        rw [hchild]
      dsimp only
      split
      · exact hfollowed
      · refine hfollowed.reapAndFinalize T fun hsome hwait => ?_
        rw [hstatus] at hsome
        rw [hgroup]
        exact (((hliving hsome).2 hrecord).2 hheld).2 hwait

theorem Owns.stopForYield (h : Owns slot) (Y : ActiveSlot.Yield)
    (hasks : slot.paused = true → slot.child = .running → Y.tryWait = true → Y.termAnswer ≠ .ok) :
    Owns (slot.stopForYield Y).1 := by
  unfold ActiveSlot.stopForYield
  split
  · exact h
  · next hwait =>
    rw [Bool.not_eq_true', Bool.not_eq_false] at hwait
    split
    · exact h.observe
    · next hrunning =>
      have hchild := running_of_unobserved hrunning
      have hobserve : slot.observe = slot := by
        unfold ActiveSlot.observe
        rw [hchild]
      have hstatus : slot.status = none := by
        unfold ActiveSlot.status
        rw [hchild]
      have hsent : Owns (slot.act (.signal .term slot.paused Y.termAnswer)) := by
        refine h.signal hstatus fun heq => ?_
        rw [Act.signal.injEq] at heq
        exact hasks heq.2.1 hchild hwait heq.2.2
      rw [hobserve]
      dsimp only
      split
      · exact (hsent.ended _).observe
      · exact hsent

theorem Owns.requeue (h : Owns slot) (Y : ActiveSlot.Yield) : Owns (slot.requeue Y) := by
  have huploaded : Owns (if Y.upload then slot.act .uploaded else slot) := by
    split
    · exact h.act trivial
    · exact h
  unfold ActiveSlot.requeue
  split
  · exact h
  · dsimp only
    split
    · exact huploaded.act trivial
    · split
      · exact huploaded.act trivial
      · exact huploaded

theorem Owns.requestYield (h : Owns slot) (Y : ActiveSlot.Yield)
    (hliving : SignalsLiving slot (.yield Y)) : Owns (slot.requestYield Y) := by
  have hgiven : Owns { slot with kept := false } := h.congr rfl rfl
  unfold ActiveSlot.requestYield
  dsimp only
  split
  · exact hgiven
  · next hdir =>
    rw [Bool.not_eq_true', Bool.not_eq_false] at hdir
    rcases hhook : Y.hookEnds with _ | code
    · have hstopped := hgiven.stopForYield Y fun hpaused hchild hwait =>
        hliving hpaused hchild hdir hhook hwait
      dsimp only
      split
      · exact hstopped.requeue Y
      · exact hstopped
    · have hstopped := (hgiven.ended code).stopForYield Y fun _ hchild => by
        unfold ActiveSlot.ended at hchild
        split at hchild
        · cases hchild
        · next hnot => exact absurd hchild hnot
      dsimp only
      split
      · exact hstopped.requeue Y
      · exact hstopped

theorem owns_step {b : SlotStep} (h : Owns slot) (hliving : SignalsLiving slot b)
    (hstep : slot.step b = some slot') : Owns slot' := by
  unfold ActiveSlot.step at hstep
  split at hstep
  · cases hstep
  · cases b with
    | exits code =>
      dsimp only at hstep
      split at hstep
      · cases hstep
        exact h.ended code
      · cases hstep
    | advance T =>
      dsimp only at hstep
      cases hstep
      exact (h.advance T hliving).congr rfl rfl
    | yield Y =>
      dsimp only at hstep
      cases hstep
      exact h.requestYield Y hliving

theorem owns_spawned (hasVerifyCommand : Bool) : Owns (.spawned hasVerifyCommand) := by
  refine ⟨?_, ?_, ?_⟩
  · constructor
    · rintro ⟨code, hmem⟩
      cases hmem
    · intro hsome
      cases hsome
  · intro sig paused answer earlier hsuffix
    cases suffix_nil.mp hsuffix
  · intro earlier hsuffix
    cases suffix_nil.mp hsuffix

/-- **A slot signals only its own living processes**: in every run of a slot from
its spawn whose steps meet the condition. -/
theorem signals_own_processes {hasVerifyCommand : Bool}
    (hr : Reaches ActiveSlot.step SignalsLiving (.spawned hasVerifyCommand) slot) :
    OwnSignals slot.acts ∧ Continued slot.acts := by
  have howns : Owns slot :=
    hr.invariant (I := Owns) (owns_spawned hasVerifyCommand) fun _ _ _ h => owns_step h
  exact ⟨howns.own, howns.continued⟩

end Acts

/-! ## Runs of one slot -/

instance : ∀ (slot : ActiveSlot) (a : SlotStep), Decidable (SignalsLiving slot a)
  | _, .exits _ => .isTrue trivial
  | slot, .advance T => inferInstanceAs (Decidable (slot.status.isSome = true →
      T.terminalRecord ≠ some true ∧
      (T.terminalRecord = some false → T.held ≠ some false ∧
        (T.held = some true → slot.paused = T.vastActive ∧
          (T.tryWait = true → slot.groupEnded = true)))))
  | slot, .yield Y => inferInstanceAs (Decidable (slot.paused = true → slot.child = .running →
      Y.workDir = true → Y.hookEnds = none → Y.tryWait = true → Y.termAnswer ≠ .ok))

namespace OneSlot

def success : ExitCode := ⟨0, by decide, by decide⟩

def calm : Tick where
  terminalRecord := some false
  held := some true
  vastActive := false
  pauseAnswer := .ok
  termAnswer := .ok
  contAnswer := .ok
  killAnswer := .esrch
  tryWait := true
  waits := true
  endCode := success
  workDir := true
  treeMissing := false
  heartbeat := true
  verification := .passed
  outputRead := true
  escalation := .refused
  upload := true
  status := true
  move := .ok
  settled := some false

/-- A yield whose hook leaves the job running. -/
def asked : ActiveSlot.Yield where
  workDir := true
  hookEnds := none
  tryWait := true
  termAnswer := .ok
  waits := true
  endCode := success
  status := true
  upload := true
  move := .ok

def rented : Tick := { calm with vastActive := true }

def refused : Tick := { calm with upload := false }

/-- Paused and resumed for a renter, then finished, its first upload refused. -/
def finished : List SlotStep :=
  [.advance rented, .advance calm, .exits success, .advance refused, .advance calm]

def finishedActs : List Act :=
  [.wrote .completed, .uploaded, .signal .kill false .esrch, .observed success, .exited success,
    .signal .cont true .ok, .signal .stop false .ok]

end OneSlot

open OneSlot in
theorem signals_own_processes_finished :
    ∃ slot, Reaches ActiveSlot.step SignalsLiving (.spawned false) slot ∧
      slot.acts = finishedActs ∧ OwnSignals slot.acts := by
  obtain ⟨slot, hr, hacts⟩ :
      ∃ slot, Reaches ActiveSlot.step SignalsLiving (.spawned false) slot ∧
        decide (slot.acts = finishedActs) = true :=
    exists_reaches finished (fun slot : ActiveSlot => decide (slot.acts = finishedActs))
      (by decide +kernel)
  exact ⟨slot, hr, of_decide_eq_true hacts, (signals_own_processes hr).1⟩

namespace OneSlot

/-- The job finished, its upload was refused, and a renter comes. -/
def rentedLate : List SlotStep :=
  [.exits success, .advance refused, .advance { refused with vastActive := true }]

/-- The job finished, its upload was refused, and it was cancelled. -/
def cancelledLate : List SlotStep :=
  [.exits success, .advance refused, .advance { calm with terminalRecord := some true }]

/-- The job is paused, the tick that would resume it fails at the store, and its
host sheds load. -/
def yieldedPaused : List SlotStep :=
  [.advance rented, .advance { calm with terminalRecord := none },
    .yield { asked with waits := false }]

def stopLate : List Act :=
  [.signal .stop false .ok, .signal .kill false .esrch, .observed success, .exited success]

def termPaused : List Act := [.signal .term true .ok, .signal .stop false .ok]

def termLate : List Act :=
  [.settledElsewhere, .uploaded, .signal .term false .ok, .signal .kill false .esrch,
    .observed success, .exited success]

theorem not_own_of_seen
    {acts earlier : List Act} (hsuffix : .signal sig paused answer :: earlier <:+ acts)
    (hkill : sig ≠ .kill) (hseen : Seen earlier) : ¬OwnSignals acts := by
  intro hown
  rcases hown _ _ _ _ hsuffix with hunseen | ⟨heq, -⟩
  · exact hunseen hseen
  · exact hkill heq

end OneSlot

open OneSlot in
/-- A slot whose child was waited for stops whatever bears its pid and asks
whatever bears its group to exit; and a paused job is asked to exit and left
paused. -/
theorem reaped_ids_signalled :
    (∃ slot, Reaches ActiveSlot.step always (.spawned false) slot ∧
      slot.acts = stopLate ∧ ¬OwnSignals slot.acts) ∧
    (∃ slot, Reaches ActiveSlot.step always (.spawned false) slot ∧
      slot.acts = termLate ∧ ¬OwnSignals slot.acts) ∧
    ∃ slot, Reaches ActiveSlot.step always (.spawned false) slot ∧
      slot.acts = termPaused ∧ ¬Continued slot.acts := by
  refine ⟨?_, ?_, ?_⟩
  · obtain ⟨slot, hr, hacts⟩ :
        ∃ slot, Reaches ActiveSlot.step always (.spawned false) slot ∧
          decide (slot.acts = stopLate) = true :=
      exists_reaches rentedLate (fun slot : ActiveSlot => decide (slot.acts = stopLate))
        (by decide +kernel)
    have hacts := of_decide_eq_true hacts
    refine ⟨slot, hr, hacts, ?_⟩
    rw [hacts]
    exact not_own_of_seen (suffix_refl stopLate) nofun ⟨success, by decide⟩
  · obtain ⟨slot, hr, hacts⟩ :
        ∃ slot, Reaches ActiveSlot.step always (.spawned false) slot ∧
          decide (slot.acts = termLate) = true :=
      exists_reaches cancelledLate (fun slot : ActiveSlot => decide (slot.acts = termLate))
        (by decide +kernel)
    have hacts := of_decide_eq_true hacts
    refine ⟨slot, hr, hacts, ?_⟩
    rw [hacts]
    exact not_own_of_seen ⟨[.settledElsewhere, .uploaded], rfl⟩ nofun ⟨success, by decide⟩
  · obtain ⟨slot, hr, hacts⟩ :
        ∃ slot, Reaches ActiveSlot.step always (.spawned false) slot ∧
          decide (slot.acts = termPaused) = true :=
      exists_reaches yieldedPaused (fun slot : ActiveSlot => decide (slot.acts = termPaused))
        (by decide +kernel)
    have hacts := of_decide_eq_true hacts
    refine ⟨slot, hr, hacts, fun hcontinued => ?_⟩
    rw [hacts] at hcontinued
    obtain ⟨answer, hsuffix⟩ := hcontinued _ (suffix_refl termPaused)
    have hlength := hsuffix.length_le
    unfold termPaused at hlength
    simp at hlength

end Stado.Agent
