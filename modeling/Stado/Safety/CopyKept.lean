import Mathlib.Data.Nat.Cast.Order.Basic
import Stado.Targets.LastGood

/-!
# What the last-known-good copy keeps

A process judges its document against the copy it read, and replaces the one
on disk; it dates its document by the second it stores it in. So the copy
keeps its generation, its hosts and its age in the runs whose replacements are
made in turn: no document is stored over one that would have refused it, and
no sidecar is stored beside, or left beside, a document answered before it.
-/

namespace Stado.LastGood

open Machine List Option

variable {validate : Document → Except String Unit} {files : Files} {written : RegistryCacheMeta}
  {copy : Copy} {w : World} {incoming recorded : Document} {advance : DirectoryAdvance}
  {arrival : Arrival} {phase : Phase} {k : ℕ}

/-! ## Documents that follow one another -/

def Text.namesHosts (text : Text) : Prop :=
  ∃ document, text.document? = some document ∧ declaredTargets document ≠ []

def Text.generation (text : Text) : Option ℕ :=
  text.document?.bind fun document => document.directory.toOption.bind id

/-- The new copy loses no hosts and, unless the rollback was accepted, no
generation. -/
structure Follows (old new : Text) (advance : DirectoryAdvance) : Prop where
  hosts : old.namesHosts → new.namesHosts
  generation : advance = .required → ∀ held arriving, old.generation = some held →
    new.generation = some arriving → held ≤ arriving

theorem namesHosts_of_mayReplace (h : mayReplaceLastGood incoming (some recorded) = .ok ())
    (hheld : declaredTargets recorded ≠ []) : declaredTargets incoming ≠ [] := by
  intro hnone
  unfold mayReplaceLastGood at h
  rw [if_pos] at h
  · cases h
  · simp [hnone, hheld]

theorem le_of_notRolledBack {held arriving : ℕ}
    (h : directoryNotRolledBack incoming recorded = .ok ())
    (hincoming : incoming.directory = .ok (some arriving))
    (hrecorded : recorded.directory = .ok (some held)) : held ≤ arriving := by
  by_contra hlt
  unfold directoryNotRolledBack at h
  simp only [hincoming, hrecorded] at h
  rw [if_pos (Nat.lt_of_not_le hlt)] at h
  cases h

theorem directory_of_generation {document : Document} {generation : ℕ}
    (h : (Text.json document).generation = some generation) :
    document.directory = .ok (some generation) := by
  simp only [Text.generation, Text.document?, bind_some] at h
  cases hdirectory : document.directory with
  | error error => simp [hdirectory, Except.toOption] at h
  | ok named =>
    simp only [hdirectory, Except.toOption, bind_some, id] at h
    rw [h]

theorem follows_of_judge {old new : Text}
    (h : judge validate new advance (.ok (some old)) = .ok ()) : Follows old new advance := by
  cases new with
  | unparseable error => cases h
  | json data =>
    cases old with
    | unparseable error =>
      refine ⟨?_, ?_⟩
      · rintro ⟨document, hdocument, -⟩
        cases hdocument
      · intro _ held arriving hheld _
        cases hheld
    | json recorded =>
      unfold judge at h
      cases hvalid : validate data with
      | error error => simp [hvalid, Except.mapError, bind, Except.bind] at h
      | ok _ =>
        simp only [hvalid, Except.mapError, bind, Except.bind, Option.bind, Text.document?] at h
        cases hhosts : mayReplaceLastGood data (some recorded) with
        | error error => simp [hhosts] at h
        | ok _ =>
          simp only [hhosts] at h
          refine ⟨?_, ?_⟩
          · rintro ⟨document, hdocument, hnamed⟩
            cases hdocument
            exact ⟨data, rfl, namesHosts_of_mayReplace hhosts hnamed⟩
          · rintro rfl held arriving hheld harriving
            have hkept : directoryNotRolledBack data recorded = .ok () := by
              cases hback : directoryNotRolledBack data recorded with
              | ok _ => rfl
              | error error => simp [hback] at h
            exact le_of_notRolledBack hkept (directory_of_generation harriving)
              (directory_of_generation hheld)

/-- A recorded copy that cannot be read is not replaced. -/
theorem judge_unreadable (text : Text) (advance : DirectoryAdvance) (error : String) :
    judge validate text advance (.error error) ≠ .ok () := by
  intro h
  cases text with
  | unparseable detail => cases h
  | json data =>
    unfold judge at h
    cases hvalid : validate data <;> simp [hvalid, Except.mapError, bind, Except.bind] at h

/-! ## The law -/

/-- Every document that replaced another follows it, and no sidecar on disk is
later than the answer of the document beside it. -/
structure Kept (files : Files) : Prop where
  follows : ∀ copy advance older, (.document copy advance :: older) <:+ files →
    ∀ old k, Files.document older = some (old, k) → Follows old.text copy.text advance
  dated : ∀ copy k written, files.document = some (copy, k) → files.sidecar = some written →
    written.readAt ≤ copy.answered

/-- So a copy is never read as fresher than it is, in whole seconds. -/
theorem Kept.aged {Registry : Type} {load : Text → Except String Registry} (h : Kept files)
    {now : ℕ} (hcopy : files.document = some (copy, k)) {registry : Registry} {age : ℤ}
    (hread : readLastGood load now files = .ok (some (registry, written, age))) :
    (((now - copy.answered) / second : ℕ) : ℤ) ≤ age := by
  unfold readLastGood at hread
  rw [hcopy] at hread
  cases hsidecar : files.sidecar with
  | none => simp [hsidecar] at hread
  | some stored =>
    have hdated := h.dated copy k stored hcopy hsidecar
    simp only [hsidecar] at hread
    cases hload : load copy.text with
    | error error => simp [hload, bind, Except.bind] at hread
    | ok loaded =>
      simp only [hload, bind, Except.bind] at hread
      split at hread
      · cases hread
      · next hage =>
        simp only [Except.ok.injEq, Option.some.injEq, Prod.mk.injEq] at hread
        obtain ⟨-, -, rfl⟩ := hread
        rcases Nat.lt_or_ge now copy.answered with hlt | hle
        · rw [Nat.sub_eq_zero_of_le hlt.le, Nat.zero_div]
          exact Int.not_lt.mp hage
        · have hnow : ((now : ℤ) - stored.readAt) = ((now - stored.readAt : ℕ) : ℤ) := by
            omega
          have hdiv : (((now - stored.readAt : ℕ) : ℤ)).tdiv second =
              ((now - stored.readAt) / second : ℕ) := rfl
          rw [hnow, hdiv]
          exact_mod_cast Nat.div_le_div_right (by omega)

/-- The file is replaced, whatever the process is told. -/
def Persisted.replaces : Persisted → Bool
  | .made | .landed _ => true
  | .failed _ => false

/-- A document may be stored: the copy on disk was there when the process read
it, or does not refuse the document either, and the sidecar on disk was not
stamped after the document was answered. -/
def documentInTurn (validate : Document → Except String Unit) (files : Files) (arrival : Arrival)
    (seen : ℕ) : Bool :=
  (files.document.all fun recorded => recorded.2 < seen ||
    (judge validate arrival.text arrival.advance (.ok (some recorded.1.text))).toBool) &&
  files.sidecar.all fun written => written.readAt ≤ arrival.answered

/-- A sidecar may be stored: it was stamped in the second its document was
answered in, and a document stored since was not answered before the stamp. -/
def sidecarInTurn (files : Files) (arrival : Arrival) (written : RegistryCacheMeta)
    (after : ℕ) : Bool :=
  written.readAt ≤ arrival.answered &&
  files.document.all fun recorded => recorded.2 ≤ after || written.readAt ≤ recorded.1.answered

/-- The condition on a step: a replacement is made in turn. -/
def inTurn (validate : Document → Except String Unit) (w : World) : Event → Bool
  | .act process (.writeDocument persisted) =>
    match w.phases process with
    | .stamped arrival seen _ =>
      !persisted.replaces || documentInTurn validate w.files arrival seen
    | _ => true
  | .act process (.writeSidecar persisted) =>
    match w.phases process with
    | .documented arrival written after =>
      !persisted.replaces || sidecarInTurn w.files arrival written after
    | _ => true
  | _ => true

/-! ## The invariant -/

/-- What the files were after the first `k` replacements. -/
def Files.asOf (files : Files) (k : ℕ) : Files := files.drop (files.length - k)

theorem asOf_length (files : Files) : files.asOf files.length = files := by
  simp [Files.asOf]

theorem asOf_cons (hk : k ≤ files.length) (replacement : Replacement) :
    Files.asOf (replacement :: files) k = files.asOf k := by
  have hlen : (replacement :: files).length - k = (files.length - k) + 1 := by
    simp only [length_cons]
    omega
  rw [Files.asOf, hlen, drop_succ_cons, Files.asOf]

/-- The document on disk is one that the replacements before it do not know. -/
theorem document_lt (h : files.document = some (copy, k)) : k < files.length := by
  induction files with
  | nil => cases h
  | cons newest older ih =>
    cases newest with
    | document stored advance =>
      cases h
      exact Nat.lt_succ_self _
    | sidecar written => exact (ih h).trans (Nat.lt_succ_self _)

/-- A document on disk already there after `n` replacements was the one then. -/
theorem document_asOf {k n : ℕ} (hn : n ≤ files.length) (h : files.document = some (copy, k))
    (hk : k < n) : (files.asOf n).document = some (copy, k) := by
  induction files with
  | nil => cases h
  | cons newest older ih =>
    rcases Nat.lt_or_ge older.length n with hlt | hle
    · have hlen : n = (newest :: older).length := by
        simp only [length_cons] at hn ⊢
        omega
      rw [hlen, asOf_length]
      exact h
    · rw [asOf_cons hle]
      cases newest with
      | document stored advance =>
        cases h
        omega
      | sidecar written => exact ih hle h

def Phase.Knows (validate : Document → Except String Unit) (files : Files) : Phase → Prop
  | .judged arrival seen | .stamped arrival seen _ => seen ≤ files.length ∧
      ∃ found, judge validate arrival.text arrival.advance (.ok found) = .ok () ∧
        found = (files.asOf seen).document.map fun recorded => recorded.1.text
  | .documented arrival _ after => ∃ copy k, files.document = some (copy, k) ∧ after ≤ k ∧
      (k = after → copy.answered = arrival.answered)
  | .idle | .called _ | .ended _ | .crashed => True

structure Sound (validate : Document → Except String Unit) (w : World) : Prop where
  kept : Kept w.files
  knows : ∀ process, (w.phases process).Knows validate w.files

theorem Phase.Knows.cons (h : phase.Knows validate files)
    (replacement : Replacement) : phase.Knows validate (replacement :: files) := by
  have hasOf : ∀ (arrival : Arrival) (seen : ℕ), (seen ≤ files.length ∧
      ∃ found, judge validate arrival.text arrival.advance (.ok found) = .ok () ∧
        found = (files.asOf seen).document.map fun recorded => recorded.1.text) →
      seen ≤ (replacement :: files).length ∧
      ∃ found, judge validate arrival.text arrival.advance (.ok found) = .ok () ∧
        found = (Files.asOf (replacement :: files) seen).document.map
          fun recorded => recorded.1.text := by
    rintro arrival seen ⟨hseen, hfound⟩
    rw [asOf_cons hseen]
    exact ⟨hseen.trans (Nat.le_succ _), hfound⟩
  cases phase with
  | judged arrival seen => exact hasOf arrival seen h
  | stamped arrival seen written => exact hasOf arrival seen h
  | documented arrival written after =>
    obtain ⟨copy, k, hcopy, hafter, hown⟩ := h
    cases replacement with
    | sidecar stored => exact ⟨copy, k, hcopy, hafter, hown⟩
    | document stored advance =>
      have hlt := document_lt hcopy
      exact ⟨stored, files.length, rfl, hafter.trans hlt.le, fun heq => by omega⟩
  | _ => trivial

theorem Sound.move (h : Sound validate w) {process : ℕ}
    (hphase : phase.Knows validate w.files) : Sound validate (w.move process phase) := by
  refine ⟨h.kept, fun other => ?_⟩
  by_cases hother : other = process
  · subst hother
    simpa [World.move] using hphase
  · simpa [World.move, hother] using h.knows other

theorem Sound.persist (h : Sound validate w) {process : ℕ} {persisted : Persisted}
    {replacement : Replacement} {next : Phase}
    (hkept : persisted.replaces = true → Kept (replacement :: w.files))
    (hnext : next.Knows validate (replacement :: w.files)) :
    Sound validate (World.move { w with files := persisted.files replacement w.files } process
      (persisted.phase next)) := by
  cases persisted with
  | failed error => exact h.move (show Phase.Knows _ _ (.ended (.error (.notWritten error))) from trivial)
  | made =>
    have hsound : Sound validate { w with files := replacement :: w.files } :=
      ⟨hkept rfl, fun other => (h.knows other).cons replacement⟩
    exact hsound.move hnext
  | landed error =>
    have hsound : Sound validate { w with files := replacement :: w.files } :=
      ⟨hkept rfl, fun other => (h.knows other).cons replacement⟩
    exact hsound.move (show Phase.Knows _ _ (.ended (.error (.notWritten error))) from trivial)

theorem Kept.document (h : Kept files)
    (hfollows : ∀ old k, files.document = some (old, k) → Follows old.text copy.text advance)
    (hdated : ∀ written, files.sidecar = some written → written.readAt ≤ copy.answered) :
    Kept (.document copy advance :: files) := by
  refine ⟨fun stored how older hsuffix old k hold => ?_, fun stored k written hstored hwritten => ?_⟩
  · rcases suffix_cons_iff.mp hsuffix with heq | hsuffix
    · cases heq
      exact hfollows old k hold
    · exact h.follows stored how older hsuffix old k hold
  · cases hstored
    exact hdated written hwritten

theorem Kept.sidecar (h : Kept files)
    (hdated : ∀ copy k, files.document = some (copy, k) → written.readAt ≤ copy.answered) :
    Kept (.sidecar written :: files) := by
  refine ⟨fun stored how older hsuffix old k hold => ?_, fun stored k beside hstored hbeside => ?_⟩
  · rcases suffix_cons_iff.mp hsuffix with heq | hsuffix
    · cases heq
    · exact h.follows stored how older hsuffix old k hold
  · cases hbeside
    exact hdated stored k hstored

/-- A document stored in turn follows the one on disk: the copy its process
read is still there, or the one there does not refuse it. -/
theorem kept_of_documentInTurn (h : Sound validate w) {process seen : ℕ}
    (hphase : w.phases process = .stamped arrival seen written)
    (hturn : documentInTurn validate w.files arrival seen = true) :
    Kept (.document ⟨arrival.text, arrival.answered⟩ arrival.advance :: w.files) := by
  have hknows := h.knows process
  rw [hphase] at hknows
  obtain ⟨hseen, found, hjudge, hfound⟩ := hknows
  rw [documentInTurn, Bool.and_eq_true] at hturn
  refine h.kept.document (fun old k hold => ?_) fun stored hstored => ?_
  · have hold' := hturn.1
    rw [hold, all_some, Bool.or_eq_true] at hold'
    rcases hold' with hk | hpasses
    · have hthere := document_asOf hseen hold (of_decide_eq_true hk)
      rw [hthere] at hfound
      subst hfound
      exact follows_of_judge hjudge
    · cases hverdict : judge validate arrival.text arrival.advance (.ok (some old.text)) with
      | ok _ => exact follows_of_judge hverdict
      | error refusal => simp [hverdict, Except.toBool] at hpasses
  · have hstamp := hturn.2
    rw [hstored, all_some] at hstamp
    exact of_decide_eq_true hstamp

/-- A sidecar stored in turn dates its own document, or one answered since. -/
theorem kept_of_sidecarInTurn (h : Sound validate w) {process after : ℕ}
    (hphase : w.phases process = .documented arrival written after)
    (hturn : sidecarInTurn w.files arrival written after = true) :
    Kept (.sidecar written :: w.files) := by
  have hknows := h.knows process
  rw [hphase] at hknows
  obtain ⟨beside, n, hbeside, hafter, hown⟩ := hknows
  rw [sidecarInTurn, Bool.and_eq_true] at hturn
  refine h.kept.sidecar fun copy k hcopy => ?_
  obtain ⟨rfl, rfl⟩ : copy = beside ∧ k = n := by
    rw [hbeside] at hcopy
    cases hcopy
    exact ⟨rfl, rfl⟩
  have hsince := hturn.2
  rw [hcopy, all_some, Bool.or_eq_true] at hsince
  rcases hsince with hk | hanswered
  · rw [hown (Nat.le_antisymm (of_decide_eq_true hk) hafter)]
    exact of_decide_eq_true hturn.1
  · exact of_decide_eq_true hanswered

theorem sound_start (left : Option Copy) : Sound validate (.start left) := by
  refine ⟨⟨fun copy advance older hsuffix old k hold => ?_, fun copy k written _ hwritten => ?_⟩,
    fun process => trivial⟩
  · cases left with
    | none => simp [World.start] at hsuffix
    | some stored =>
      have hlen := hsuffix.length_le
      simp only [World.start, map_some, Option.toList, length_cons, length_nil] at hlen
      obtain rfl : older = [] := eq_nil_of_length_eq_zero (by omega)
      cases hold
  · cases left <;> cases hwritten

/-- A step made in turn keeps the files and what every process knows of them. -/
theorem Sound.step {w w' : World} {event : Event} (h : Sound validate w)
    (hturn : inTurn validate w event = true) (hstep : step validate w event = some w') :
    Sound validate w' := by
  cases event with
  | wait ticks =>
    cases hstep
    exact ⟨h.kept, h.knows⟩
  | act process action =>
    cases action with
    | crash =>
      cases hstep
      exact h.move (show Phase.Knows _ _ (.crashed) from trivial)
    | call arrival =>
      simp only [LastGood.step] at hstep
      split at hstep
      · split at hstep
        · cases hstep
          refine h.move ?_
          split <;> trivial
        · cases hstep
      · cases hstep
    | readRecorded failure =>
      simp only [LastGood.step] at hstep
      split at hstep
      · next arrival hphase =>
        split at hstep
        · next hjudge =>
          cases hstep
          cases failure with
          | some error => exact absurd hjudge (judge_unreadable _ _ error)
          | none =>
            refine h.move ⟨le_refl _, _, hjudge, ?_⟩
            rw [asOf_length]
        · cases hstep
          exact h.move (show Phase.Knows _ _ (.ended _) from trivial)
      · cases hstep
    | createDirectory failure =>
      simp only [LastGood.step] at hstep
      split at hstep
      · next arrival seen hphase =>
        have hknows := h.knows process
        rw [hphase] at hknows
        split at hstep
        · cases hstep
          exact h.move (show Phase.Knows _ _ (.ended _) from trivial)
        · cases hstep
          exact h.move (show Phase.Knows _ _ (.stamped arrival seen _) from hknows)
      · cases hstep
    | writeDocument persisted =>
      simp only [LastGood.step] at hstep
      split at hstep
      · next arrival seen written hphase =>
        cases hstep
        refine h.persist (fun hreplaces => ?_) ?_
        · simp only [inTurn, hphase, hreplaces, Bool.not_true, Bool.false_or] at hturn
          exact kept_of_documentInTurn h hphase hturn
        · exact ⟨_, _, rfl, le_refl _, fun _ => rfl⟩
      · cases hstep
    | writeSidecar persisted =>
      simp only [LastGood.step] at hstep
      split at hstep
      · next arrival written after hphase =>
        cases hstep
        refine h.persist (fun hreplaces => ?_) trivial
        simp only [inTurn, hphase, hreplaces, Bool.not_true, Bool.false_or] at hturn
        exact kept_of_sidecarInTurn h hphase hturn
      · cases hstep

/-- In every run whose replacements are made in turn, from whatever undated
document was left on disk, the copy loses no hosts and no generation, the
sidecar on disk is not later than the answer of the document beside it, and no
read of the copy reports it fresher than it is. -/
theorem copy_kept {left : Option Copy} {w : World}
    (h : Reaches (step validate) (fun w event => inTurn validate w event = true) (.start left) w) :
    Kept w.files ∧ ∀ (Registry : Type) (load : Text → Except String Registry) (now : ℕ)
      (copy : Copy) (k : ℕ) (registry : Registry) (written : RegistryCacheMeta) (age : ℤ),
      w.files.document = some (copy, k) →
      readLastGood load now w.files = .ok (some (registry, written, age)) →
      (((now - copy.answered) / second : ℕ) : ℤ) ≤ age := by
  have hsound : Sound validate w := h.invariant (sound_start left)
    fun _ _ _ hsound hturn hstep => hsound.step hturn hstep
  exact ⟨hsound.kept, fun _ _ _ _ _ _ _ _ hcopy hread => hsound.kept.aged hcopy hread⟩

def namedAt (generation answered : ℕ) : Arrival :=
  ⟨.json ⟨some ["host"], .ok (some generation)⟩, answered, "store version", .required, true⟩

def storeAlone (process : ℕ) (arrival : Arrival) : List Event :=
  [.act process (.call arrival), .act process (.readRecorded none),
    .act process (.createDirectory none), .act process (.writeDocument .made),
    .act process (.writeSidecar .made)]

theorem stored_alone : ∃ w : World, Kept w.files ∧ w.files.sidecar = some ⟨0, "store version"⟩ := by
  have hrun : ∃ w, Reaches (step fun _ => .ok ())
      (fun w event => inTurn (fun _ => .ok ()) w event = true) (.start none) w ∧
        decide (w.files.sidecar = some ⟨0, "store version"⟩) = true :=
    exists_reaches (storeAlone 1 (namedAt 5 0) ++ storeAlone 2 (namedAt 6 0)) _ (by decide +kernel)
  obtain ⟨w, hreaches, hstored⟩ := hrun
  exact ⟨w, (copy_kept hreaches).1, of_decide_eq_true hstored⟩

/-- A process has judged its document and another stores a later one; then the
first stores the earlier one over it, under the later one's sidecar. -/
def overtaken : List Event :=
  [.act 1 (.call (namedAt 5 0)), .act 1 (.readRecorded none), .act 1 (.createDirectory none),
    .wait (10 * second)] ++ storeAlone 2 (namedAt 6 (10 * second)) ++
  [.act 1 (.writeDocument .made)]

theorem rolled_back : ∃ w, Reaches (step fun _ => .ok ()) always (.start none) w ∧
    ¬ Kept w.files := by
  refine ⟨_, @exec_reaches _ _ _ _ _ _ _ overtaken rfl, fun hkept => ?_⟩
  have hfollows := hkept.follows _ _ _ (suffix_refl _) _ _ rfl
  have hle := hfollows.generation rfl 6 5 rfl rfl
  omega

end Stado.LastGood
