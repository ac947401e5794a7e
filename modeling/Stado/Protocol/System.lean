import Stado.Protocol.Operations
import Stado.Queue.Machine

/-!
# The queue keeps the protocol

Submission and the reaper keep the protocol, so every operation does, and the
store every run of the queue reaches is a history of the lifecycle
(`queue_sound`).
-/

namespace Stado

open CasStore Program

variable {cond : Condition} {i : Nat} {l : ObjectStore}

/-! ## Submission -/

theorem keeps_requireManifest {runId : String} (hist : History (lifecycle cond) l) :
    Keeps cond i (requireManifest runId) l := by
  refine keeps_then hist meets_readManifest fun found l1 _ _ => ?_
  cases found <;> trivial

theorem keeps_liveHolder {entry : RunEntry} : Keeps cond i (liveHolder entry) l := by
  unfold liveHolder
  split
  · trivial
  · split
    · trivial
    · exact keeps_query fun now l1 _ _ => keeps_ite (fun _ => keeps_pure _) fun _ => keeps_pure _
  · refine keeps_query fun state l1 _ _ => ?_
    cases state <;> trivial

variable {request : SubmissionRequest} {fuel index now : Nat} {jobId : String} {job : Job}
  {summary : ReaperSummary} {instanceRef : String}

section

variable (hist : History (lifecycle cond) l)

include hist

theorem keeps_readValidated : Keeps cond i (readValidated request) l := by
  refine keeps_then hist meets_readManifest fun found l1 _ _ => ?_
  split
  · trivial
  · refine keeps_query fun now l2 _ _ => ?_
    split <;> trivial

theorem keeps_claimEntry : Keeps cond i (claimEntry fuel request index) l := by
  induction fuel generalizing l with
  | zero => trivial
  | succ fuel ih =>
    refine keeps_then hist (keeps_readValidated hist) fun found l1 _ hist1 => ?_
    obtain ⟨m, version, validated⟩ := found
    dsimp only
    split
    · refine keeps_ite (fun _ => keeps_pure _) fun _ => keeps_ite (fun _ => ?_) fun _ => ?_
      · split <;> trivial
      · refine keeps_then hist1 (keeps_ite (fun _ => keeps_liveHolder) fun _ => keeps_pure _)
          fun holder l2 _ _ => ?_
        split
        · trivial
        · refine keeps_query fun process l3 _ hist3 => ?_
          refine keeps_then hist3 (meets_auxiliary_swap rfl rfl fun _ _ _ _ => trivial)
            fun answer l4 _ hist4 => ?_
          cases answer with
          | conflict => exact ih hist4
          | notFound => trivial
          | stored claimedVersion =>
            refine keeps_then hist4 (meets_auxiliary_swap rfl rfl fun _ _ _ _ => trivial)
              fun answer l5 _ hist5 => ?_
            cases answer with
            | conflict => exact ih hist5
            | _ => trivial
    · trivial

theorem keeps_checkpointAccepted :
    Keeps cond i (checkpointAccepted fuel request index jobId) l := by
  induction fuel generalizing l with
  | zero => trivial
  | succ fuel ih =>
    refine keeps_then hist (keeps_readValidated hist) fun found l1 _ hist1 => ?_
    obtain ⟨m, version, validated⟩ := found
    dsimp only
    split
    · refine keeps_ite (fun _ => keeps_pure _) fun _ => keeps_ite (fun _ => trivial) fun _ => ?_
      refine keeps_then hist1 (meets_auxiliary_swap rfl rfl fun _ _ _ _ => trivial)
        fun answer l2 _ hist2 => ?_
      cases answer with
      | stored version => trivial
      | conflict => exact ih hist2
      | notFound => trivial
    · trivial

theorem keeps_findJob {prefixes : List Prefix} : Keeps cond i (findJob jobId prefixes) l := by
  induction prefixes generalizing l with
  | nil => trivial
  | cons p rest ih =>
    refine keeps_then hist (keeps_of_meets (meets_readJob hist)) fun found l1 _ hist1 => ?_
    cases found with
    | none => exact ih hist1
    | some job => trivial

theorem keeps_acceptRecovered {existing planned : Job} :
    Keeps cond i (acceptRecovered existing planned index) l := by
  unfold acceptRecovered
  split
  · trivial
  · exact keeps_then hist (keeps_repairQueuedAdmissionMetadata hist) fun _ _ _ _ => keeps_pure _

theorem keeps_admitPlanned {planned : PlannedJob} :
    Keeps cond i (admitPlanned fuel planned index) l := by
  refine keeps_then hist (keeps_findJob hist) fun found l1 _ hist1 => ?_
  cases found with
  | some existing => exact keeps_acceptRecovered hist1
  | none =>
    refine keeps_then hist1 (keeps_endedByTransition hist1) fun ended l2 _ hist2 => ?_
    cases ended with
    | some ended => trivial
    | none =>
      refine keeps_then hist2 (keeps_createQueuedJobIfAbsent hist2 planned.property)
        fun created l3 _ hist3 => ?_
      cases created with
      | true => trivial
      | false =>
        refine keeps_then hist3 (keeps_findJob hist3) fun found l4 _ hist4 => ?_
        cases found with
        | some existing => exact keeps_acceptRecovered hist4
        | none => trivial

theorem keeps_submitEntry : Keeps cond i (submitEntry fuel request index) l := by
  refine keeps_then hist (keeps_claimEntry hist) fun claim l1 _ hist1 => ?_
  cases claim with
  | terminal job => trivial
  | accepted planned =>
    refine keeps_then hist1 (keeps_findJob hist1) fun found l2 _ hist2 => ?_
    cases found with
    | some existing => exact keeps_acceptRecovered hist2
    | none =>
      refine keeps_then hist2 (keeps_endedByTransition hist2) fun ended l3 _ _ => ?_
      cases ended <;> trivial
  | owned planned =>
    refine keeps_then hist1 (keeps_admitPlanned hist1) fun job l2 _ hist2 => ?_
    exact keeps_then hist2 (keeps_checkpointAccepted hist2) fun _ _ _ _ => keeps_pure _

end

theorem keeps_createManifest : Keeps cond i (createManifest request) l := by
  refine keeps_query fun now l1 _ hist1 => ?_
  refine keeps_then hist1 (meets_auxiliary_create rfl rfl fun _ _ _ _ => trivial)
    fun created l2 _ hist2 => ?_
  cases created with
  | true => trivial
  | false => exact keeps_requireManifest hist2

theorem keeps_submit
    (hist : History (lifecycle cond) l) : Keeps cond i (submit fuel request) l := by
  refine keeps_then hist (keeps_exist fun b l1 _ hist1 => ?_) fun existing l1 _ _ => ?_
  · cases b with
    | true => exact keeps_then hist1 (keeps_requireManifest hist1) fun _ _ _ _ => keeps_pure _
    | false => trivial
  refine keeps_query fun charged l2 _ hist2 => ?_
  cases charged with
  | some refused => trivial
  | none =>
    refine keeps_then hist2 ?_ fun m l3 _ _ => ?_
    · cases existing with
      | some m => exact keeps_ite (fun _ => trivial) fun _ => keeps_pure _
      | none => exact keeps_createManifest
    · refine keeps_query fun now l4 _ hist4 => ?_
      split
      · trivial
      · refine keeps_foldList hist4 fun accepted index l5 _ _ hist5 => ?_
        exact keeps_then hist5 (keeps_submitEntry hist5) fun _ _ _ _ => keeps_pure _

/-! ## The reaper -/

theorem keeps_attempt {α : Type} {p : Storage α} (hist : History (lifecycle cond) l)
    (hp : Keeps cond i p l) : Keeps cond i p.attempt l :=
  meets_attempt hp hist fun _ _ _ _ => trivial

theorem keeps_cleanupStatus (hist : History (lifecycle cond) l) :
    Keeps cond i (cleanupStatus jobId) l :=
  keeps_each hist fun _ _ _ _ _ => meets_delete (fun _ _ _ _ _ => .auxiliary rfl rfl)
    (fun _ _ _ _ => trivial) fun _ _ _ _ => trivial

theorem keeps_jobLiveness : Keeps cond i (jobLiveness job now) l := by
  unfold jobLiveness
  split
  · trivial
  · refine keeps_ite (fun _ => keeps_pure _) fun _ => keeps_query fun b l1 _ _ => ?_
    cases b <;> trivial

theorem keeps_finalizeIfSelfTerminating : Keeps cond i (finalizeIfSelfTerminating fuel job) l := by
  refine keeps_ite (fun _ => keeps_pure _) fun _ => keeps_query fun now l1 _ hist1 => ?_
  refine keeps_then hist1 (keeps_moveJob hist1 (by decide)) fun _ l2 _ hist2 => ?_
  exact keeps_then hist2 (keeps_cleanupStatus hist2) fun _ _ _ _ => keeps_pure _

theorem keeps_settle {version : Nat} {reason : String} (hist : History (lifecycle cond) l) :
    Keeps cond i (settle fuel job version now reason summary) l := by
  refine keeps_then hist keeps_finalizeIfSelfTerminating fun finalized l1 _ hist1 => ?_
  cases finalized with
  | true => trivial
  | false =>
    refine keeps_then hist1 ?_ fun verified l2 _ hist2 => ?_
    · split
      · trivial
      · refine keeps_query fun verified l2 _ _ => ?_
        cases verified <;> trivial
    · cases verified with
      | some completedAt =>
        refine keeps_then hist2 (keeps_transitionJobIfVersion hist2 (by decide))
          fun moved l3 _ _ => ?_
        cases moved <;> trivial
      | none =>
        dsimp only
        split
        · refine keeps_then hist2 (keeps_transitionJobIfVersion hist2 (by decide))
            fun moved l3 _ _ => ?_
          cases moved <;> trivial
        · refine keeps_then hist2 (keeps_transitionJobIfVersion hist2 (by decide))
            fun moved l3 _ hist3 => ?_
          cases moved with
          | true => exact keeps_then hist3 (keeps_cleanupStatus hist3) fun _ _ _ _ => keeps_pure _
          | false => trivial

theorem keeps_reapOne
    (hist : History (lifecycle cond) l) : Keeps cond i (reapOne fuel jobId now summary) l := by
  refine keeps_then hist (keeps_recoverJobTransition hist) fun _ l1 _ hist1 => ?_
  refine keeps_then hist1 keeps_readVersioned fun found l2 _ hist2 => ?_
  cases found with
  | none => trivial
  | some found =>
    refine keeps_ite (fun _ => ?_) fun _ => ?_
    · exact keeps_then hist2 (keeps_recoverJobTransition hist2) fun _ _ _ _ => keeps_pure _
    · refine keeps_then hist2 keeps_jobLiveness fun liveness l3 _ hist3 => ?_
      cases liveness with
      | lapsed expires => exact keeps_settle hist3
      | _ => trivial

theorem keeps_reapOrReport (hist : History (lifecycle cond) l) :
    Keeps cond i (reapOrReport fuel now summary jobId) l := by
  refine keeps_then hist (keeps_attempt hist (keeps_reapOne hist)) fun result l1 _ _ => ?_
  cases result <;> trivial

theorem keeps_reapNamed {jobIds : List String} : Keeps cond i (reapNamed fuel jobIds) l :=
  keeps_query fun _ _ _ hist1 => keeps_foldList hist1 fun _ _ _ _ _ hist2 =>
    keeps_reapOrReport hist2

theorem keeps_reapExpiredLeases : Keeps cond i (reapExpiredLeases fuel) l :=
  keeps_query fun _ _ _ hist1 => keeps_then hist1 keeps_listJobIds fun _ _ _ hist2 =>
    keeps_foldList hist2 fun _ _ _ _ _ hist3 => keeps_reapOrReport hist3

theorem keeps_releaseLeftBehindOne (hist : History (lifecycle cond) l) :
    Keeps cond i (releaseLeftBehindOne fuel instanceRef now summary jobId) l := by
  refine keeps_then hist (keeps_recoverJobTransition hist) fun _ l1 _ hist1 => ?_
  refine keeps_then hist1 keeps_readVersioned fun found l2 _ _ => ?_
  cases found with
  | none => trivial
  | some found =>
    refine keeps_ite (fun _ => keeps_pure _) fun _ => keeps_query fun left l3 _ hist3 => ?_
    split
    · exact keeps_settle hist3
    · trivial
    · trivial

theorem keeps_releaseLeftBehind : Keeps cond i (releaseLeftBehind fuel instanceRef) l :=
  keeps_query fun _ _ _ hist1 => keeps_then hist1 keeps_listJobIds fun _ _ _ hist2 =>
    keeps_foldList hist2 fun _ _ _ _ _ hist3 => keeps_releaseLeftBehindOne hist3

theorem keeps_program {op : Operation} (hist : History (lifecycle cond) l) :
    Keeps cond i (op.program fuel) l := by
  have answer : ∀ {α : Type} {p : Storage α} {f : α → Outcome}, Keeps cond i p l →
      Keeps cond i (p.bind fun a => Pure.pure (f a)) l := fun hp =>
    keeps_then hist hp fun _ _ _ _ => keeps_pure _
  cases op with
  | submit request => exact answer (keeps_submit hist)
  | createQueued job => exact answer (keeps_createQueuedJobIfAbsent hist job.property)
  | repairAdmission planned => exact answer (keeps_repairQueuedAdmissionMetadata hist)
  | claim job promise => exact answer (keeps_claimQueuedJob hist)
  | renew jobId promise => exact answer (keeps_renewRunningLease hist)
  | move job route => exact answer (keeps_moveJob hist route.distinct)
  | moveIfVersion job route version =>
    exact answer (keeps_transitionJobIfVersion hist route.distinct)
  | recover jobId => exact answer (keeps_recoverJobTransition hist)
  | settleCancellations => exact answer (keeps_settleQueuedCancellations hist)
  | fenceCancellation jobId => exact answer keeps_fenceCancellation
  | updatePriority jobId priority => exact answer (keeps_updateQueuedPriority hist)
  | updateGpuMem jobId gpuMemGb => exact answer (keeps_rewritten hist)
  | updatePlacement jobId provider assignedTo notBefore => exact answer (keeps_rewritten hist)
  | updateAssignment jobId assignedTo => exact answer (keeps_rewritten hist)
  | reap jobIds => exact answer keeps_reapNamed
  | reapExpired => exact answer keeps_reapExpiredLeases
  | releaseLeftBehind instanceRef => exact answer keeps_releaseLeftBehind
  | sweep p => exact answer (keeps_retireSettledSentinels hist)
  | backfill => exact answer keeps_backfillPriorityMarkers
  | delete p jobId => exact answer (keeps_deleteJob hist)

abbrev Runs (cond : Condition) (s : QueueSystem) : Prop :=
  System.Reaches queue (fun s ev => s.Respects (lifecycle cond) ev) ⟨[], []⟩ s

/-- **Soundness.** Every store a run of the queue reaches is a history of the
lifecycle. -/
theorem queue_sound {s : QueueSystem} (h : Runs cond s) : History (lifecycle cond) s.store := by
  have initial : System.Sound (lifecycle cond) (fun _ _ _ _ => True) (⟨[], []⟩ : QueueSystem) :=
    .initial
  exact (initial.reaches (fun _ _ _ _ _ _ hist _ => keeps_program hist)
    (fun _ _ _ hok => hok) h).history

end Stado
