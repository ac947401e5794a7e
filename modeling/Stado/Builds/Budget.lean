import Mathlib.Algebra.GroupWithZero.Nat
import Mathlib.Data.List.AList
import Mathlib.Data.List.Infix
import Stado.Library.Machine

/-!
# The fleet's daily build budget

The registry holds how many builds were submitted on one day, the ceiling for
a day, and the submissions already charged. A charge reads the registry with
its generation, refuses or records, and swaps the document in if the registry
is still at that generation. An approval from the build registry pays for one
build past the ceiling and leaves a receipt.

A day is its number. A JSON number is read back only where it fits 64 bits.
-/

namespace Stado.Builds

/-! ## The registry document -/

abbrev Day := ℕ

def u64Max : ℕ := 2 ^ 64 - 1

def asU64 (number : ℕ) : Option ℕ := if number ≤ u64Max then some number else none

def saturatingAdd (a b : ℕ) : ℕ := min (a + b) u64Max

/-- The `build_budget` entry, each field none where it is missing or of
another type. -/
structure BudgetEntry where
  day : Option Day
  used : Option ℕ
  limit : Option ℕ
  charged : Option (List String)
deriving DecidableEq

/-- A platform run of a recipe, with the day its recorded instant falls on. -/
structure RecipeRun where
  jobId : Option String
  day : Option Day
deriving DecidableEq

/-- The user approval inside an entry of the build registry. -/
structure UserApproval where
  sessionId : Option String
  turnDigest : Option String
  target : Option String
deriving DecidableEq

/-- What the build registry answers for a build's coordinates. -/
structure ApprovalEntry where
  target : Option String
  revision : Option String
  userApproval : Option UserApproval
deriving DecidableEq

/-- What a receipt is kept under: the message that approved, and the platform. -/
structure ReceiptKey where
  sessionId : String
  turnDigest : String
  target : String
  platform : String
deriving DecidableEq

structure Receipt where
  runId : String
  platform : String
  entry : ApprovalEntry
deriving DecidableEq

abbrev Receipts := AList fun _ : ReceiptKey => Receipt

/-- The `build_approvals` value: none, one that is no object, or the receipts. -/
inductive ReceiptBook where
  | absent
  | other
  | receipts (kept : Receipts)

def ReceiptBook.kept : ReceiptBook → Receipts
  | .absent | .other => ∅
  | .receipts kept => kept

structure Registry where
  budget : Option BudgetEntry
  runs : List RecipeRun
  approvals : ReceiptBook
  rest : String

/-! ## The budget -/

def defaultDailyBuildLimit : ℕ := 3

/-- What the fleet has spent today and what it may spend. -/
structure BuildBudget where
  day : Day
  used : ℕ
  limit : ℕ
  charged : List String

/-- Build jobs the recipes themselves say were submitted on `day`. -/
def runsSubmittedOn (document : Registry) (day : Day) : ℕ :=
  (document.runs.filter fun run => run.jobId.any (· ≠ "") && run.day = some day).length

namespace BuildBudget

/-- The budget of `today`. Only today's entry counts; an entry of another day
is spent history. -/
def read (document : Registry) (today : Day) : BuildBudget :=
  let todayEntry := document.budget.filter fun entry => entry.day = some today
  let submitted := runsSubmittedOn document today
  { day := today
    used := match (todayEntry.bind BudgetEntry.used).bind asU64 with
      | some counted => max counted submitted
      | none => submitted
    limit := ((document.budget.bind BudgetEntry.limit).bind asU64).getD defaultDailyBuildLimit
    charged := (todayEntry.bind BudgetEntry.charged).getD [] }

variable (budget : BuildBudget)

def alreadyCharged (key : String) : Bool := budget.charged.contains key

def remaining : ℕ := budget.limit - budget.used

/-- Why `wanted` more builds cannot be submitted, if they cannot. -/
def refusal (wanted : ℕ) (reason : String) : Option String :=
  if wanted ≤ budget.remaining then none
  else some (s!"the fleet's daily build budget is spent: {budget.used} of {budget.limit} build " ++
    s!"job(s) submitted, and {reason} asks for {wanted} more")

def record (document : Registry) (submitted : ℕ) (keys : List String) : Registry :=
  if submitted = 0 then document
  else
    { document with
      budget := some
        { day := some budget.day
          used := some (saturatingAdd budget.used submitted)
          limit := some budget.limit
          charged := some (keys.foldl
            (fun charged key => if charged.contains key then charged else charged ++ [key])
            budget.charged) } }

end BuildBudget

/-! ## Approvals -/

structure BuildIntent where
  product : String
  revision : String
  platform : String

/-- How a charge ends: paid, refused, or failed for another reason. -/
inductive Outcome where
  | charged
  | refused (reason : String)
  | failed (reason : String)
deriving DecidableEq

namespace Approval

def verify (intent : BuildIntent) (answer : Except String ApprovalEntry) :
    Except String ApprovalEntry := do
  let entry ← answer
  if entry.target = some intent.product ∧ entry.revision = some intent.revision ∧
      entry.userApproval.isSome then .ok entry
  else .error "Tama returned approval for different build coordinates"

def field (name : String) (value : Option String) : Except Outcome String :=
  match value.filter (· ≠ "") with
  | some value => .ok value
  | none => .error (.refused s!"verified build approval is missing {name}")

def receiptKey (entry : ApprovalEntry) (platform : String) : Except Outcome ReceiptKey := do
  let sessionId ← field "session_id" (entry.userApproval.bind UserApproval.sessionId)
  let turnDigest ← field "turn_digest" (entry.userApproval.bind UserApproval.turnDigest)
  let target ← field "target" (entry.userApproval.bind UserApproval.target)
  .ok ⟨sessionId, turnDigest, target, platform⟩

/-- Whether a receipt names this submission. -/
def charged (document : Registry) (runId : String) : Bool :=
  document.approvals.kept.entries.any fun entry => entry.2.runId = runId

def record (document : Registry) (entry : ApprovalEntry) (platform runId : String) :
    Except Outcome (Registry × ReceiptKey) := do
  let key ← receiptKey entry platform
  match document.approvals with
  | .other => .error (.failed "build approval receipts are not an object")
  | book =>
    match book.kept.lookup key with
    | some previous =>
      let target := entry.target.getD ""
      if previous.runId = runId then .ok (document, key)
      else .error (.refused (s!"this user message already authorized another {platform} " ++
        s!"build of {target}; a retry needs new consent"))
    | none =>
      .ok ({ document with
        approvals := .receipts (book.kept.insert key ⟨runId, platform, entry⟩) }, key)

end Approval

/-! ## A charge -/

def buildVersionFile : String := "stado-build-version.txt"

def releaseBuildProgram : String := "release worker --request"

/-- Whether this command makes a machine compile something for the fleet. -/
def compiles (command : String) : Bool :=
  buildVersionFile.toList <:+: command.toList ∨ releaseBuildProgram.toList <:+: command.toList

/-- What a charge is called with. -/
structure Submission where
  key : String
  commands : List String
  askedBy : String
  intent : Option BuildIntent

namespace Submission

def builds (submission : Submission) : List String := submission.commands.filter compiles

def wanted (submission : Submission) : ℕ := submission.builds.length

end Submission

/-- What a charge makes of the registry it read: nothing more to pay, a
refusal, an approval to ask for, or the document it would write. -/
inductive Judgement where
  | paid
  | refused (reason : String)
  | asks (intent : BuildIntent) (refusal : String)
  | writes (document : Registry)

def judge (document : Registry) (today : Day) (submission : Submission) : Judgement :=
  let budget := BuildBudget.read document today
  if budget.alreadyCharged submission.key || Approval.charged document submission.key then .paid
  else
    match budget.refusal submission.wanted submission.askedBy with
    | none => .writes (budget.record document submission.wanted [submission.key])
    | some refusal =>
      match submission.intent.filter fun _ => submission.wanted = 1 with
      | none => .refused refusal
      | some intent => .asks intent refusal

def approve (document : Registry) (today : Day) (submission : Submission) (intent : BuildIntent)
    (refusal : String) (answer : Except String ApprovalEntry) :
    Except Outcome (Registry × ReceiptKey) :=
  match Approval.verify intent answer with
  | .error error => .error (.refused s!"{refusal}\n{error}")
  | .ok entry =>
    Approval.record
      ((BuildBudget.read document today).record document submission.wanted [submission.key])
      entry intent.platform submission.key

/-! ## The fleet's charges -/

/-- A charge that the registry took: who made it, the day its host's clock
read, and the receipt of an approval that paid for it. -/
structure Charge where
  process : ℕ
  day : Day
  key : String
  builds : ℕ
  receipt : Option ReceiptKey
deriving DecidableEq

inductive Phase where
  | idle
  | called (today : Day) (submission : Submission)
  | verifying (today : Day) (submission : Submission) (intent : BuildIntent) (refusal : String)
      (document : Registry) (generation : ℕ)
  | ready (today : Day) (submission : Submission) (receipt : Option ReceiptKey)
      (document : Registry) (generation : ℕ)
  | ended (outcome : Outcome)

/-- How the push of a document goes: refused by its validation, failed before
the swap, swapped with its answer, or swapped and the answer lost. -/
inductive Pushed where
  | refused (reason : String)
  | failed (reason : String)
  | answered
  | lost (reason : String)
deriving DecidableEq

inductive Action where
  | call (today : Day) (submission : Submission)
  | fetch (failure : Option String)
  | verify (answer : Except String ApprovalEntry)
  | push (pushed : Pushed)

/-- A step of one charge, or another writer's edit of the rest of the registry. -/
inductive Event where
  | edit (rest : String)
  | act (process : ℕ) (action : Action)

/-- The stored registry, the charges it took, newest first, and where every
process stands. -/
structure World where
  document : Registry
  generation : ℕ
  log : List Charge
  phases : ℕ → Phase

namespace World

def start (document : Registry) : World := ⟨document, 0, [], fun _ => .idle⟩

def move (w : World) (process : ℕ) (phase : Phase) : World :=
  { w with phases := Function.update w.phases process phase }

def swap (w : World) (document : Registry) (generation : ℕ) (charge : Charge) : Option World :=
  if w.generation = generation then
    some { w with document, generation := generation + 1, log := charge :: w.log }
  else none

end World

def conflict : Outcome := .failed "the registry is not at the generation it was read at"

def step (w : World) : Event → Option World
  | .edit rest =>
    some { w with document := { w.document with rest }, generation := w.generation + 1 }
  | .act process (.call today submission) =>
    match w.phases process with
    | .idle =>
      some (w.move process
        (if submission.builds.isEmpty then .ended .charged else .called today submission))
    | _ => none
  | .act process (.fetch failure) =>
    match w.phases process with
    | .called today submission =>
      match failure with
      | some error => some (w.move process (.ended (.failed error)))
      | none =>
        some (w.move process (match judge w.document today submission with
          | .paid => .ended .charged
          | .refused reason => .ended (.refused reason)
          | .asks intent refusal =>
            .verifying today submission intent refusal w.document w.generation
          | .writes document => .ready today submission none document w.generation))
    | _ => none
  | .act process (.verify answer) =>
    match w.phases process with
    | .verifying today submission intent refusal document generation =>
      some (w.move process
        (match approve document today submission intent refusal answer with
          | .error outcome => .ended outcome
          | .ok (written, key) => .ready today submission (some key) written generation))
    | _ => none
  | .act process (.push pushed) =>
    match w.phases process with
    | .ready today submission receipt document generation =>
      let charge : Charge := ⟨process, today, submission.key, submission.wanted, receipt⟩
      match pushed with
      | .refused reason => some (w.move process (.ended (.refused reason)))
      | .failed reason => some (w.move process (.ended (.failed reason)))
      | .answered =>
        match w.swap document generation charge with
        | some w' => some (w'.move process (.ended .charged))
        | none => some (w.move process (.ended conflict))
      | .lost reason =>
        some (((w.swap document generation charge).getD w).move process
          (.ended (.failed reason)))
    | _ => none

end Stado.Builds
