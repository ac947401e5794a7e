import Stado.Queue.Failover

/-!
# The reads of the failover store

`exists` and `download_bytes` ask the mirror for a release object the primary
is missing and `stat` does not, so the three agree exactly where there is no
such object. A deleted object is served again exactly when it is a release
object whose mirror outlived the delete: what is absent from the primary, and
from the mirror too where the mirror is asked, stays absent under every step
that does not write it (`Absent.run`).
-/

namespace Stado.Failover

open List Option Backend

variable {mode : ReadMode} {calls : Calls} {stores : Stores} {path : String}

/-! ## What the reads answer when every call is answered -/

def Calls.answered (now : Stamp) : Calls := ⟨now, .answered, .answered, .answered⟩

structure Unhealed (stores : Stores) (path : String) : Prop where
  heals : healsFromMirror path = true
  missing : stores.primary.get path = none
  mirrored : stores.backup.get path ≠ none

/-- Neither the primary has the object, nor the mirror where it is asked. -/
structure Absent (stores : Stores) (path : String) : Prop where
  primary : stores.primary.get path = none
  mirror : healsFromMirror path = true → stores.backup.get path = none

theorem exact_listBlobsWithMeta (path : String) (b : Backend) :
    exact path (b.listBlobsWithMeta path) = (b.get path).isSome := by
  rw [Bool.eq_iff_iff]
  unfold exact listBlobsWithMeta
  constructor
  · intro h
    obtain ⟨blob, hblob, hname⟩ := List.any_eq_true.mp h
    obtain ⟨⟨name, stored⟩, hentry, rfl⟩ := List.mem_map.mp hblob
    have hsame : name = path := of_decide_eq_true hname
    subst hsame
    have hmem := (mem_filter.mp hentry).1
    have hget : b.get name = some stored := AList.mem_lookup_iff.mpr hmem
    simp [hget]
  · intro h
    obtain ⟨stored, hget⟩ := isSome_iff_exists.mp h
    have hmem : (⟨path, stored⟩ : Sigma fun _ : String => Blob) ∈ b.blobs.entries :=
      AList.mem_lookup_iff.mp hget
    refine List.any_eq_true.mpr ⟨info path stored, List.mem_map.mpr
      ⟨⟨path, stored⟩, mem_filter.mpr ⟨hmem, ?_⟩, rfl⟩, by simp [info]⟩
    simp

theorem blobExists_answered (mode : ReadMode) (now : Stamp) (path : String) (stores : Stores) :
    blobExists mode (.answered now) path stores = .ok ((stores.primary.get path).isSome ||
      healsFromMirror path && (stores.backup.get path).isSome) := by
  simp only [blobExists, Calls.answered, Fate.read, exact_listBlobsWithMeta, Backend.blobExists]
  cases (stores.primary.get path).isSome with
  | true => simp
  | false => cases healsFromMirror path <;> simp

theorem downloadBytes_answered (mode : ReadMode) (now : Stamp) (path : String) (stores : Stores) :
    (downloadBytes mode (.answered now) path stores).1 = .ok ((stores.primary.get path <|>
        if healsFromMirror path then stores.backup.get path else none).map Blob.content) := by
  simp only [downloadBytes, Calls.answered, Fate.read, Backend.downloadBytes]
  cases stores.primary.get path with
  | some blob => simp
  | none =>
    simp only [map_none, mirroredBytes, Fate.read, Backend.downloadBytes]
    cases healsFromMirror path with
    | false => simp
    | true => cases stores.backup.get path <;> simp

theorem stat_answered (mode : ReadMode) (now : Stamp) (path : String) (stores : Stores) :
    stat mode (.answered now) path stores =
      .ok ((stores.primary.get path).map (Backend.info path)) := by
  simp [stat, Calls.answered, Fate.read, Backend.stat]

/-- With every call answered, `exists` holds exactly when a body is downloaded
and exactly when a stat describes the object. -/
def Agree (mode : ReadMode) (stores : Stores) (path : String) : Prop :=
  ∀ now, (blobExists mode (.answered now) path stores = .ok true ↔
      ∃ content, (downloadBytes mode (.answered now) path stores).1 = .ok (some content)) ∧
    (blobExists mode (.answered now) path stores = .ok true ↔
      ∃ info, stat mode (.answered now) path stores = .ok (some info))

/-- With every call answered, one of the three reads serves the object. -/
def Served (mode : ReadMode) (stores : Stores) (path : String) : Prop :=
  ∃ now, blobExists mode (.answered now) path stores = .ok true ∨
    (∃ content, (downloadBytes mode (.answered now) path stores).1 = .ok (some content)) ∨
    ∃ info, stat mode (.answered now) path stores = .ok (some info)

theorem agree_iff : Agree mode stores path ↔ ¬ Unhealed stores path := by
  unfold Agree
  simp only [blobExists_answered, downloadBytes_answered, stat_answered]
  cases hprimary : stores.primary.get path with
  | some blob =>
    have hnot : ¬ Unhealed stores path := by
      intro h
      rw [h.missing] at hprimary
      cases hprimary
    simp [hnot]
  | none =>
    have hiff : Unhealed stores path ↔
        healsFromMirror path = true ∧ (stores.backup.get path).isSome = true := by
      rw [isSome_iff_ne_none]
      exact ⟨fun h => ⟨h.heals, h.mirrored⟩, fun h => ⟨h.1, hprimary, h.2⟩⟩
    have hnow : Nonempty Stamp := ⟨.instant 0⟩
    rw [hiff]
    cases healsFromMirror path with
    | false => simp
    | true => cases stores.backup.get path <;> simp

theorem served_iff : Served mode stores path ↔ ¬ Absent stores path := by
  unfold Served
  simp only [blobExists_answered, downloadBytes_answered, stat_answered]
  have hiff : Absent stores path ↔ stores.primary.get path = none ∧
      (healsFromMirror path = true → stores.backup.get path = none) :=
    ⟨fun h => ⟨h.primary, h.mirror⟩, fun h => ⟨h.1, h.2⟩⟩
  have hnow : Nonempty Stamp := ⟨.instant 0⟩
  rw [hiff]
  cases stores.primary.get path with
  | some blob => simp
  | none =>
    cases healsFromMirror path with
    | false => simp
    | true => cases stores.backup.get path <;> simp

/-! ## What a step keeps absent -/

/-- Stores no object under a path that has none. -/
def Backend.Mutation.KeepsAbsent {α : Type} (act : Mutation α) (path : String) : Prop :=
  ∀ b, b.get path = none → (act b).2.get path = none

namespace Backend

variable {other : String}

theorem keepsAbsent_uploadBytes (h : path ≠ other) (now : Stamp)
    (content : Bytes) : (uploadBytes now other content).KeepsAbsent path := by
  intro b hb
  rw [uploadBytes, get_put_ne h]
  exact hb

theorem keepsAbsent_uploadIfAbsent (h : path ≠ other) (now : Stamp)
    (content : Bytes) : (uploadIfAbsent now other content).KeepsAbsent path := by
  intro b hb
  unfold uploadIfAbsent
  split
  · exact hb
  · rw [get_put_ne h]
    exact hb

theorem keepsAbsent_compareAndSwapText (h : path ≠ other) (now : Stamp) (version : ℕ)
    (content : Bytes) : (compareAndSwapText now other version content).KeepsAbsent path := by
  intro b hb
  unfold compareAndSwapText
  split
  · exact hb
  · split
    · rw [get_put_ne h]
      exact hb
    · exact hb

theorem keepsAbsent_delete (other : String) : (delete other).KeepsAbsent path := by
  intro b hb
  by_cases h : path = other
  · subst h
    exact get_remove path b
  · rw [delete, get_remove_ne h]
    exact hb

end Backend

theorem Backend.Mutation.KeepsAbsent.mutate {α : Type} {act : Mutation α}
    (h : act.KeepsAbsent path) (fate : Fate) : (fate.mutate act).KeepsAbsent path := by
  intro b hb
  cases fate with
  | answered => exact h b hb
  | refused => exact hb
  | lost => exact h b hb

theorem mutate_refused {α β : Type} (hcalls : calls.written = .refused) (act : Mutation α)
    (mirror : α → Option (Mutation β)) : (mutate calls act mirror stores).2 = stores := by
  simp [mutate, hcalls, Fate.mutate]

theorem Absent.mutate {α β : Type} (h : Absent stores path) {act : Mutation α}
    {mirror : α → Option (Mutation β)} (hact : act.KeepsAbsent path)
    (hmirror : ∀ answer, ∀ replica ∈ mirror answer, replica.KeepsAbsent path) :
    Absent (mutate calls act mirror stores).2 path := by
  have hprimary := (hact.mutate calls.written) stores.primary h.primary
  unfold Failover.mutate
  split
  · next error primary heq =>
    rw [heq] at hprimary
    exact ⟨hprimary, h.mirror⟩
  · next answer primary heq =>
    rw [heq] at hprimary
    split
    · exact ⟨hprimary, h.mirror⟩
    · next replica hreplica =>
      have hkeeps := (hmirror answer replica hreplica).mutate calls.mirrored
      exact ⟨hprimary, fun hheals => hkeeps stores.backup (h.mirror hheals)⟩

/-- Reading what is absent stores nothing under it, and healing another path
leaves it absent. -/
theorem Absent.downloadBytes (h : Absent stores path) (other : String) :
    Absent (downloadBytes mode calls other stores).2 path := by
  have hmirrored : Absent (mirroredBytes calls other stores).2 path := by
    unfold mirroredBytes
    split
    · next hheals =>
      split
      · exact h
      · exact h
      · next content hread =>
        refine ⟨?_, h.mirror⟩
        have hne : path ≠ other := by
          rintro rfl
          rw [Backend.downloadBytes, h.mirror hheals] at hread
          cases hfate : calls.mirrored <;> simp [hfate, Fate.read] at hread
        exact (Backend.keepsAbsent_uploadBytes hne _ _).mutate _ _ h.primary
    · exact h
  unfold Failover.downloadBytes
  split
  · exact h
  · exact hmirrored
  · split
    · exact h
    · exact h

def Step.Writes (step : Step) (path : String) : Prop :=
  step.request.target = some path ∧ step.calls.written ≠ .refused

theorem Absent.apply (h : Absent stores path) {step : Step} (hstep : ¬ step.Writes path) :
    Absent (step.apply mode stores) path := by
  obtain ⟨request, calls⟩ := step
  have hwrites : request.target = some path → calls.written = .refused := by
    intro htarget
    by_contra hwritten
    exact hstep ⟨htarget, hwritten⟩
  -- one case for each operation: a write of this path is refused, and of another keeps it absent
  cases request with
  | uploadBytes other content =>
    by_cases hne : path = other
    · simp only [Step.apply, Failover.uploadBytes]
      rw [mutate_refused (hwrites (congrArg some hne.symm))]
      exact h
    · refine h.mutate (keepsAbsent_uploadBytes hne _ _) fun answer replica hmem => ?_
      cases hmem
      exact keepsAbsent_uploadBytes hne _ _
  | uploadTextIfAbsent other content =>
    by_cases hne : path = other
    · simp only [Step.apply, Failover.uploadTextIfAbsent]
      rw [mutate_refused (hwrites (congrArg some hne.symm))]
      exact h
    · refine h.mutate (keepsAbsent_uploadIfAbsent hne _ _) fun answer replica hmem => ?_
      cases answer <;> cases hmem
      exact keepsAbsent_uploadBytes hne _ _
  | uploadFileIfAbsent other content reread =>
    by_cases hne : path = other
    · simp only [Step.apply, Failover.uploadFileIfAbsent]
      rw [mutate_refused (hwrites (congrArg some hne.symm))]
      exact h
    · refine h.mutate (keepsAbsent_uploadIfAbsent hne _ _) fun answer replica hmem => ?_
      cases answer <;> cases reread <;> cases hmem
      exact keepsAbsent_uploadBytes hne _ _
  | compareAndSwapText other version content =>
    by_cases hne : path = other
    · simp only [Step.apply, Failover.compareAndSwapText]
      rw [mutate_refused (hwrites (congrArg some hne.symm))]
      exact h
    · refine h.mutate (keepsAbsent_compareAndSwapText hne _ _ _)
        fun answer replica hmem => ?_
      cases hmem
      exact keepsAbsent_uploadBytes hne _ _
  | delete other =>
    refine h.mutate (keepsAbsent_delete other) fun answer replica hmem => ?_
    cases hmem
    exact keepsAbsent_delete other
  | downloadBytes other => exact h.downloadBytes other
  | _ => exact h

theorem Absent.run (h : Absent stores path) {history : List Step}
    (hhistory : ∀ step ∈ history, ¬ step.Writes path) : Absent (run mode stores history) path := by
  induction history generalizing stores with
  | nil => exact h
  | cons step later ih =>
    have hstep : Absent (step.apply mode stores) path := h.apply (hhistory step mem_cons_self)
    exact ih hstep fun step hmem => hhistory step (mem_cons_of_mem _ hmem)

/-! ## Deletes -/

/-- A delete that succeeds while the mirror's copy of a release object stays. -/
structure Outlived (stores : Stores) (path : String) (calls : Calls) : Prop where
  heals : healsFromMirror path = true
  mirrored : stores.backup.get path ≠ none
  deleted : calls.written = .answered
  refused : calls.mirrored = .refused

theorem written_of_delete_ok (h : (delete calls path stores).1 = .ok ()) :
    calls.written = .answered := by
  cases hwritten : calls.written with
  | answered => rfl
  | _ => simp [delete, mutate, Fate.mutate, hwritten] at h

theorem delete_answered (hwritten : calls.written = .answered) :
    delete calls path stores = (.ok (), ⟨stores.primary.remove path,
      (calls.mirrored.mutate (Backend.delete path) stores.backup).2⟩) := by
  simp [delete, mutate, Fate.mutate, hwritten, Backend.delete]

theorem absent_of_delete (h : (delete calls path stores).1 = .ok ())
    (hnot : ¬ Outlived stores path calls) : Absent (delete calls path stores).2 path := by
  have hwritten := written_of_delete_ok h
  rw [delete_answered hwritten]
  refine ⟨Backend.get_remove path _, fun hheals => ?_⟩
  cases hmirrored : calls.mirrored with
  | answered => exact Backend.get_remove path _
  | lost => exact Backend.get_remove path _
  | refused =>
    by_contra hget
    exact hnot ⟨hheals, hget, hwritten, hmirrored⟩

theorem Outlived.served (h : Outlived stores path calls) :
    (delete calls path stores).1 = .ok () ∧ Served mode (delete calls path stores).2 path := by
  rw [delete_answered h.deleted]
  refine ⟨rfl, served_iff.mpr fun habsent => h.mirrored ?_⟩
  have hget := habsent.mirror h.heals
  rw [h.refused] at hget
  exact hget

theorem run_append (history later : List Step) :
    run mode stores (history ++ later) = run mode (run mode stores history) later :=
  foldl_append

/-- At every point of a history, what a successful delete removed is served by
none of the reads until a later step writes it. -/
def DeletesKept (mode : ReadMode) (stores : Stores) (history : List Step) : Prop :=
  ∀ earlier path calls later rest, history = earlier ++ ⟨.delete path, calls⟩ :: (later ++ rest) →
    (delete calls path (run mode stores earlier)).1 = .ok () →
    (∀ step ∈ later, ¬ step.Writes path) →
    ¬ Served mode (run mode stores (earlier ++ ⟨.delete path, calls⟩ :: later)) path

/-- The reads of a path agree exactly when the primary is not missing a release
object that the mirror has, and deletes are kept throughout a history exactly
when no delete in it leaves the mirror's copy of a release object behind. -/
theorem reads_agree (mode : ReadMode) (stores : Stores) :
    (∀ path, Agree mode stores path ↔ ¬ Unhealed stores path) ∧
    ∀ history, DeletesKept mode stores history ↔
      ∀ earlier path calls rest, history = earlier ++ ⟨.delete path, calls⟩ :: rest →
        ¬ Outlived (run mode stores earlier) path calls := by
  refine ⟨fun path => agree_iff, fun history => ⟨?_, ?_⟩⟩
  · intro hkept earlier path calls rest hhistory houtlived
    have hok := (@Outlived.served mode _ _ _ houtlived).1
    have hserved := (@Outlived.served mode _ _ _ houtlived).2
    refine hkept earlier path calls [] rest hhistory hok (fun step hmem => ?_) ?_
    · cases hmem
    · rw [run_append]
      exact hserved
  · intro hnone earlier path calls later rest hhistory hok hlater hserved
    have hnot := hnone earlier path calls (later ++ rest) hhistory
    have habsent := absent_of_delete hok hnot
    rw [run_append] at hserved
    exact served_iff.mp hserved (habsent.run hlater)

/-- A release object is stored, and deleted without the mirror. -/
def unmirroredDelete : List Step :=
  [⟨.uploadBytes "releases/agent/1" [7], .answered (.instant 0)⟩,
    ⟨.delete "releases/agent/1", ⟨.instant 1, .answered, .answered, .refused⟩⟩]

/-- It is then still listed and read, and no stat finds it. -/
theorem delete_outlived :
    ¬ DeletesKept .primaryOnly ⟨.empty, .empty⟩ unmirroredDelete ∧
      ¬ Agree .primaryOnly (run .primaryOnly ⟨.empty, .empty⟩ unmirroredDelete)
        "releases/agent/1" := by
  have hheals : healsFromMirror "releases/agent/1" = true := by decide +kernel
  have hmissing : (run .primaryOnly ⟨.empty, .empty⟩ unmirroredDelete).primary.get
      "releases/agent/1" = none := by decide +kernel
  have hmirrored : (run .primaryOnly ⟨.empty, .empty⟩ unmirroredDelete).backup.get
      "releases/agent/1" ≠ none := by decide +kernel
  constructor
  · intro hkept
    have hnot := hkept [⟨.uploadBytes "releases/agent/1" [7], .answered (.instant 0)⟩]
      "releases/agent/1" ⟨.instant 1, .answered, .answered, .refused⟩ [] [] rfl rfl (by simp)
    exact hnot (served_iff.mpr fun habsent => hmirrored (habsent.mirror hheals))
  · intro hagree
    exact agree_iff.mp hagree ⟨hheals, hmissing, hmirrored⟩

end Stado.Failover
