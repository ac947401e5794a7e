import Stado.Queue.Machine

/-!
# A destination is merged once

The document a move installs is the current one with the fields its move may
carry. Counters are carried only by a job that goes back to the queue, and
artifacts only to a terminal prefix; merging the outcome again with the same
document changes nothing.
-/

namespace Stado

open List Prefix

def addArtifact (paths : List String) (artifact : String) : List String :=
  if artifact ∈ paths then paths else paths ++ [artifact]

variable {paths added : List String}

theorem mem_addArtifacts {artifact : String} :
    artifact ∈ added.foldl addArtifact paths ↔ artifact ∈ paths ∨ artifact ∈ added := by
  induction added generalizing paths with
  | nil => simp
  | cons first later ih =>
    rw [foldl_cons, ih, addArtifact]
    split_ifs with hfirst
    · constructor
      · rintro (h | h)
        · exact .inl h
        · exact .inr (mem_cons_of_mem _ h)
      · rintro (h | h)
        · exact .inl h
        · rcases mem_cons.mp h with rfl | h
          · exact .inl hfirst
          · exact .inr h
    · rw [mem_append, mem_singleton, mem_cons, or_assoc]

theorem addArtifacts_again (h : ∀ artifact ∈ added, artifact ∈ paths) :
    added.foldl addArtifact paths = paths := by
  induction added with
  | nil => rfl
  | cons first later ih =>
    obtain ⟨hfirst, hlater⟩ := forall_mem_cons.mp h
    rw [foldl_cons, addArtifact, if_pos hfirst, ih hlater]

theorem mergeTerminal_again (destination : JobFields) (requested : Job) :
    mergeTerminal (mergeTerminal destination requested) requested =
      mergeTerminal destination requested := by
  have hpaths : ∀ artifact ∈ requested.artifactPaths,
      artifact ∈ requested.artifactPaths.foldl addArtifact destination.artifactPaths :=
    fun artifact hartifact => mem_addArtifacts.mpr (.inr hartifact)
  show { destination with
    peakVramGb := max (max destination.peakVramGb requested.peakVramGb) requested.peakVramGb
    peakVramPerGpu :=
      (destination.peakVramPerGpu || requested.peakVramPerGpu) || requested.peakVramPerGpu
    artifactPaths := requested.artifactPaths.foldl addArtifact
      (requested.artifactPaths.foldl addArtifact destination.artifactPaths) } = _
  rw [Int.max_eq_left (Int.le_max_right ..), Bool.or_assoc, Bool.or_self, addArtifacts_again hpaths]
  rfl

/-! ## The merge -/

section Merge

variable {current requested destination : Job} {fromPrefix toPrefix : Prefix}

/-- What a merge that is accepted says of its destination. -/
structure Merged (current requested : Job) (fromPrefix toPrefix : Prefix) (destination : Job) :
    Prop where
  projection : immutableJobProjection destination = immutableJobProjection current ∧
    immutableJobProjection destination = immutableJobProjection requested
  lease : destination.leaseExpiresAt ≠ none → toPrefix = .running
  counted : current.restarts ≤ destination.restarts ∧
    current.preemptCount ≤ destination.preemptCount ∧ current.yieldCount ≤ destination.yieldCount
  requeued : fromPrefix = .running → toPrefix = .queue → requested.restarts ≤ destination.restarts ∧
      requested.preemptCount ≤ destination.preemptCount ∧
      requested.yieldCount ≤ destination.yieldCount
  artifacts : ∀ artifact, artifact ∈ destination.artifactPaths ↔
    artifact ∈ current.artifactPaths ∨ toPrefix.terminal = true ∧ artifact ∈ requested.artifactPaths
  again : mergeTransitionDestination destination requested fromPrefix toPrefix = .ok destination

theorem merge_eq (h : immutableJobProjection current = immutableJobProjection requested) :
    mergeTransitionDestination current requested fromPrefix toPrefix =
      .ok ({ (if toPrefix.terminal then
        mergeTerminal (mergeRequested { current.toJobFields with leaseExpiresAt := none } requested
          fromPrefix toPrefix) requested
        else mergeRequested { current.toJobFields with leaseExpiresAt := none } requested
          fromPrefix toPrefix) with state := prefixState toPrefix }) := by
  rw [mergeTransitionDestination, if_neg (not_not.mpr h)]

theorem merged_of_ok
    (h : mergeTransitionDestination current requested fromPrefix toPrefix = .ok destination) :
    Merged current requested fromPrefix toPrefix destination := by
  obtain ⟨-, hsubmission, hsame⟩ := mergeTransitionDestination_ok h
  have hagain : immutableJobProjection destination = immutableJobProjection requested :=
    hsubmission.trans hsame.symm
  have hmem : ∀ artifact, artifact ∈ requested.artifactPaths.foldl addArtifact
      current.artifactPaths ↔ artifact ∈ current.artifactPaths ∨
        artifact ∈ requested.artifactPaths := fun artifact => mem_addArtifacts
  rw [merge_eq hsame.symm] at h
  cases h
  refine ⟨⟨hsubmission, hagain⟩, ?_, ?_, ?_, ?_, ?_⟩
  · cases toPrefix <;> cases fromPrefix <;> simp [mergeRequested, mergeTerminal, terminal]
  · cases toPrefix <;> cases fromPrefix <;>
      simp [mergeRequested, mergeTerminal, terminal, Int.le_max_left]
  · rintro rfl rfl
    exact ⟨Int.le_max_right .., Int.le_max_right .., Int.le_max_right ..⟩
  · cases toPrefix with
    | queue => cases fromPrefix <;> simp [mergeRequested, terminal]
    | running => simp [mergeRequested, terminal]
    | _ =>
      intro artifact
      exact (hmem artifact).trans (by simp [terminal])
  · rw [merge_eq hagain]
    cases toPrefix with
    | running => rfl
    | queue =>
      cases fromPrefix with
      | running =>
        simp [mergeRequested, terminal, Int.max_eq_left, Int.le_max_right]
      | _ => rfl
    | _ =>
      exact congrArg (fun fields : JobFields => Except.ok (Job.mk fields (prefixState _)))
        (mergeTerminal_again (mergeRequested { current.toJobFields with leaseExpiresAt := none }
          requested fromPrefix _) requested)

end Merge

end Stado
