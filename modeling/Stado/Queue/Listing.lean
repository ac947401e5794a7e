import Mathlib.Data.List.Sort
import Mathlib.Data.PNat.Notation
import Stado.Library.Machine

/-!
# What a scheduler poll can claim

The ordered walk over the priority index: one page of names at a time, each
marker resolved to the job it names, stopping on a full window or a spent
budget. A bounded scan starts where the last one through the same store handle
stopped and wraps once at the end of the prefix.
-/

namespace Stado.Listing

open Machine

variable {Name Job : Type}

/-- The priority index and the jobs it names, as they stand for every scan. -/
structure Index (Name Job : Type) [LT Name] where
  /-- Every object name under the prefix, in listing order. -/
  names : List Name
  sorted : names.Pairwise (· < ·)
  isMarker : Name → Bool
  /-- The job a marker's body names; none when the body is gone or names none. -/
  body : Name → Option String
  /-- The queued document of a job. -/
  job : String → Option Job
  jobId : Job → String
  markerPath : Job → Name
  /-- A document is stored under its own job's id. -/
  stored : ∀ id job', job id = some job' → jobId job' = id

/-- What a caller can run, and how much scanning it will pay to find it. -/
structure JobScan (Job : Type) where
  want : Option ℕ+
  scanBudget : Option ℕ+
  accepts : Job → Bool
  fromHead : Bool

namespace JobScan

variable (scan : JobScan Job)

def windowFull (found : ℕ) : Bool :=
  scan.want.any fun want => (want : ℕ) ≤ found

def budgetSpent (scanned : ℕ) : Bool :=
  scan.scanBudget.any fun budget => (budget : ℕ) ≤ scanned

/-- Whether the scan starts at the shared cursor and moves it. -/
def rotates : Bool := (scan.want.isSome || scan.scanBudget.isSome) && !scan.fromHead

end JobScan

/-- What is left of one of the scan's bounds after `used` of it: none for no
bound, and none for a spent one. -/
def left (bound : Option ℕ+) (used : ℕ) : Option ℕ :=
  bound.bind fun bound => if bound - used = 0 then none else some (bound - used)

/-- How many marker names the next page pulls. -/
def markerPage (scan : JobScan Job) (found scanned : ℕ) : Option ℕ :=
  match left scan.want found, left scan.scanBudget scanned with
  | some wanted, some allowed => some (min wanted allowed)
  | some bound, none => some bound
  | none, some bound => some bound
  | none, none => none

/-- What a walk has found: the jobs it returns, the ids of these, the budget it
was charged, and the markers it read. -/
structure Walk (Name Job : Type) where
  out : List Job
  seen : List String
  scanned : ℕ
  read : List Name

/-- A walk that goes on, or one that stopped and leaves the cursor there; no
name is the head. -/
inductive Walked (Name Job : Type) where
  | on (walk : Walk Name Job)
  | stopped (at' : Option Name) (walk : Walk Name Job)

def Walk.charge (walk : Walk Name Job) (marker : Name) : Walk Name Job :=
  { walk with scanned := walk.scanned + 1, read := walk.read ++ [marker] }

section

variable [LinearOrder Name] (index : Index Name Job) (scan : JobScan Job)

/-- Resolve a page's markers to the jobs their bodies name. One whose body is
gone, names none, or names a job already found is charged here. -/
def resolve (walk : Walk Name Job) (entries : List (Name × String)) :
    List Name → List (Name × String) × Walked Name Job
  | [] => (entries, .on walk)
  | marker :: rest =>
    match (index.body marker).filter fun id => id ∉ walk.seen with
    | some id => resolve walk (entries ++ [(marker, id)]) rest
    | none =>
      let walk := walk.charge marker
      if scan.budgetSpent walk.scanned then (entries, .stopped (some marker) walk)
      else resolve walk entries rest

/-- The job of a charged marker, returned when the marker is its current key, the
caller accepts it and it was not returned before. -/
def Walk.take (walk : Walk Name Job) (marker : Name) (id : String) : Walk Name Job :=
  match index.job id with
  | some job =>
    if marker = index.markerPath job ∧ scan.accepts job = true ∧ index.jobId job ∉ walk.seen then
      { walk with out := walk.out ++ [job], seen := walk.seen ++ [index.jobId job] }
    else walk
  | none => walk

/-- Judge a page's jobs in order. On the wrapped leg, a name past the one the
walk began at ends it. -/
def judge (origin : Option Name) (wrapped : Bool) (walk : Walk Name Job) :
    List (Name × String) → Walked Name Job
  | [] => .on walk
  | (marker, id) :: rest =>
    if wrapped && origin.any (· < marker) then .stopped none walk
    else
      let walk := (walk.charge marker).take index scan marker id
      if scan.windowFull walk.out.length || scan.budgetSpent walk.scanned then
        .stopped (some marker) walk
      else judge origin wrapped walk rest

def walkPage (origin : Option Name) (wrapped : Bool) (walk : Walk Name Job)
    (page : List Name) : Walked Name Job :=
  match resolve index scan walk [] (page.filter index.isMarker) with
  | (_, .stopped at' walk) => .stopped at' walk
  | (entries, .on walk) => judge index scan origin wrapped walk entries

/-- The names after `at'`, page after page, to the end of the prefix. Each page
pulls a name at least, so as many pages as names are enough. -/
def walkLeg (origin : Option Name) (wrapped : Bool) :
    ℕ → Walk Name Job → List Name → Walked Name Job
  | 0, walk, _ => .on walk
  | pages + 1, walk, names =>
    if names = [] then .on walk
    else
      let limit := (markerPage scan walk.out.length walk.scanned).getD names.length
      match walkPage index scan origin wrapped walk (names.take limit) with
      | .stopped at' walk => .stopped at' walk
      | .on walk => walkLeg origin wrapped pages walk (names.drop limit)

def Index.after (cursor : Option Name) : List Name :=
  match cursor with
  | none => index.names
  | some at' => index.names.filter (at' < ·)

/-- The walk from `origin`, and where it leaves the cursor: at the end of the
prefix a walk that did not start at the head wraps once. -/
def walkFrom (origin : Option Name) : Option Name × Walk Name Job :=
  match walkLeg index scan origin false (index.after origin).length ⟨[], [], 0, []⟩
      (index.after origin) with
  | .stopped at' walk => (at', walk)
  | .on walk =>
    if origin = none then (none, walk)
    else
      match walkLeg index scan origin true index.names.length walk index.names with
      | .stopped at' walk => (at', walk)
      | .on walk => (none, walk)

/-- `collect_from_index`: the jobs a scan that read `cursor` returns, and the
cursor it leaves if it moves it. -/
def collectFromIndex (cursor : Option Name) : Option (Option Name) × Walk Name Job :=
  let origin := if scan.rotates then cursor else none
  let walked := walkFrom index scan origin
  (if scan.rotates then some walked.1 else none, walked.2)

/-! ## Scans through one handle -/

/-- A scan under way, with the cursor it read. -/
structure Flight (Name Job : Type) where
  caller : ℕ
  scan : JobScan Job
  cursor : Option Name

/-- A scan that ended. -/
structure Finished (Name Job : Type) where
  caller : ℕ
  scan : JobScan Job
  walk : Walk Name Job

/-- A store handle: its shared cursor, the scans under way, and the finished
ones, newest first. -/
structure Handle (Name Job : Type) where
  cursor : Option Name
  flights : List (Flight Name Job)
  finished : List (Finished Name Job)

inductive Step (Job : Type) where
  /-- A caller starts a rotating scan, which reads the cursor. -/
  | start (caller : ℕ) (scan : JobScan Job)
  /-- The scan under way ends and leaves the cursor where it stopped. -/
  | finish (i : ℕ)
  /-- The scan under way fails; the cursor is not moved. -/
  | fail (i : ℕ)

def Handle.step (handle : Handle Name Job) : Step Job → Option (Handle Name Job)
  | .start caller scan =>
    if scan.rotates then
      some { handle with
        flights := handle.flights ++ [⟨caller, scan, handle.cursor⟩] }
    else none
  | .finish i =>
    handle.flights[i]?.map fun flight =>
      match collectFromIndex index flight.scan flight.cursor with
      | (cursor, walk) =>
        { cursor := cursor.getD handle.cursor
          flights := handle.flights.eraseIdx i
          finished := ⟨flight.caller, flight.scan, walk⟩ :: handle.finished }
  | .fail i =>
    handle.flights[i]?.map fun _ => { handle with flights := handle.flights.eraseIdx i }

end

end Stado.Listing
