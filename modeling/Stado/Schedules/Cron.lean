import Mathlib.Order.MinMax

/-!
# Due-time arithmetic

The translation of a five-field cron expression, the next due time a sweep
computes, and the identifiers derived from an occurrence. The date, time-zone,
cron and digest libraries are parameters with the two facts the schedules rely
on.
-/

namespace Stado.Schedules

/-- What the libraries under the schedules do. Instants are microseconds. -/
structure Libraries where
  /-- A schedule the cron library compiled. -/
  CronSchedule : Type
  /-- `cron::Schedule::from_str`. -/
  cronFromStr : String → Option CronSchedule
  /-- The first element of `schedule.after`, in the zone named, as an instant. -/
  after : CronSchedule → (zone : String) → Nat → Option Nat
  /-- Why a text names no time zone. -/
  zoneError : String → Option String
  /-- `Weekday::from_str`, counted from Sunday. -/
  weekday : String → Option Nat
  /-- `DateTime::parse_from_rfc3339`, in UTC. -/
  parseFromRfc3339 : String → Option Nat
  /-- `NaiveDateTime::parse_from_str` with `%Y-%m-%dT%H:%M:%S%.f`, taken as UTC. -/
  parseNaive : String → Option Nat
  /-- `DateTime::format`. -/
  format : Nat → String → String
  /-- `digest_value` of a scope and a token. -/
  digestValue : (scope token : String) → String
  /-- `digest_value` of a request with the hardware resolved for it, which the
  stable job key and the job id are cut from. -/
  jobKey : (request hardware : String) → String
  /-- The iterator gives each matching time after the one it is given. -/
  after_lt : ∀ schedule zone at_ next, after schedule zone at_ = some next → at_ < next
  /-- What the iterator gives is a whole second, and its text reads back. -/
  after_second : ∀ schedule zone at_ next, after schedule zone at_ = some next →
    next % 1000000 = 0 ∧ parseFromRfc3339 (format next "%Y-%m-%dT%H:%M:%S+00:00") = some next
  /-- The empty text is no instant. -/
  parse_empty : parseFromRfc3339 "" = none

variable (lib : Libraries)

/-! ## Texts -/

/-- `str::split` on one character. -/
def splitAt (text : String) (separator : Char) : List String :=
  (text.toList.splitOn separator).map String.ofList

def splitOnce (text : String) (separator : Char) : Option (String × String) :=
  if separator ∈ text.toList then
    some (String.ofList (text.toList.takeWhile (· ≠ separator)),
      String.ofList ((text.toList.dropWhile (· ≠ separator)).drop 1))
  else none

def splitWhitespace (text : String) : List String :=
  ((text.toList.splitOnP Char.isWhitespace).map String.ofList).filter (· ≠ "")

/-- The characters without those of `p` at either end. -/
def trimMatches (p : Char → Bool) (text : List Char) : List Char :=
  ((text.dropWhile p).reverse.dropWhile p).reverse

def trim (text : String) : String := String.ofList (trimMatches Char.isWhitespace text.toList)

def parseU8 (text : String) : Option Nat :=
  let digits := match text.toList with
    | '+' :: rest => rest
    | chars => chars
  if digits ≠ [] ∧ digits.all Char.isDigit then
    let value := digits.foldl (fun n c => 10 * n + (c.toNat - '0'.toNat)) 0
    if value < 256 then some value else none
  else none

/-! ## The day-of-week field -/

def rawDowValue (token : String) : Option Nat :=
  match lib.weekday token with
  | some day => some day
  | none => (parseU8 token).filter (· ≤ 7)

/-- The values `lo`, `lo + step`, … up to `hi`. -/
def stepped (lo hi step : Nat) : List Nat :=
  if lo ≤ hi then (List.range ((hi - lo) / step + 1)).map fun k => lo + k * step else []

inductive DowBase where
  | every
  | range (lo hi : Nat)
  | day (value : Nat)
deriving DecidableEq

/-- One item of the field, with the step it writes. -/
structure DowItem where
  base : DowBase
  step : Option Nat
deriving DecidableEq

def readStep (item : String) : Option (String × Option Nat) :=
  match splitOnce item '/' with
  | some (base, step) => ((parseU8 step).filter (0 < ·)).map fun s => (base, some s)
  | none => some (item, none)

def readDow (item : String) : Option DowItem :=
  if item = "" then none
  else do
    let (base, step) ← readStep item
    if base = "*" ∨ base = "?" then some ⟨.every, step⟩
    else
      match splitOnce base '-' with
      | some (lo, hi) => do
          let lo ← rawDowValue lib lo
          let hi ← rawDowValue lib hi
          some ⟨.range lo hi, step⟩
      | none => do
          let value ← rawDowValue lib base
          some ⟨.day value, step⟩

/-- The values of `while raw <= hi` with `raw += step` on a byte, which wraps
in a release build. No value comes twice, so `hi + 1` turns see the end. -/
def rawValues (hi step : Nat) : (turns raw : Nat) → List Nat
  | 0, _ => []
  | turns + 1, raw =>
    if raw ≤ hi then raw :: rawValues hi step turns ((raw + step) % 256) else []

/-- Where a range ends: one that wraps through Sunday runs past 7. -/
def rangeEnd (lo hi : Nat) : Nat := if hi < lo then hi + 7 else hi

/-- The values an item's loop goes through. -/
def DowItem.loop (item : DowItem) : List Nat :=
  let step := item.step.getD 1
  match item.base with
  | .every => []
  | .range lo hi => rawValues (rangeEnd lo hi) step (rangeEnd lo hi + 1) lo
  | .day value => if step = 1 then [] else rawValues 6 step 7 value

/-- The days of one item of the field. -/
def DowItem.days (item : DowItem) : List Nat :=
  match item.base with
  | .every => stepped 0 6 (item.step.getD 1)
  | .range _ _ => item.loop.map (· % 7)
  | .day value => if item.step.getD 1 = 1 then [value % 7] else item.loop.map (· % 7)

def dowItem (item : String) : Option (List Nat) := (readDow lib item).map DowItem.days

/-- The days as the cron library lists them, when there are any. -/
def dowText (days : List Nat) : Option String :=
  if days = [] then none
  else some (",".intercalate (days.map fun day => toString (day + 1)))

/-- The field in the cron library's numbering, Sunday being 1. -/
def expandDow (field : String) : Option String := do
  let days ← ((splitAt field ',').map trim).mapM (dowItem lib)
  dowText ((List.range 7).filter (· ∈ days.flatten))

def isAll (field : String) : Bool := field == "*" || field == "?"

/-- One or two library schedules; two when both the day of the month and the
day of the week are restricted, which fire when either matches. -/
def compile (cron : String) : Except String (List lib.CronSchedule) :=
  let invalid := s!"invalid cron expression: {cron.quote}"
  let parse (expr : String) : Except String lib.CronSchedule :=
    match lib.cronFromStr expr with
    | some schedule => .ok schedule
    | none => .error invalid
  let expr := trim cron
  let expr := if expr = "@annually" then "@yearly" else if expr = "@midnight" then "@daily" else expr
  if expr.toList.head? = some '@' then do
    let schedule ← parse expr
    pure [schedule]
  else
    match splitWhitespace expr with
    | [minute, hour, dom, month, dow] => do
        let dowTranslated ← if isAll dow then pure "*" else
          match expandDow lib dow with
          | some days => .ok days
          | none => .error invalid
        if !isAll dom && !isAll dow then do
          let byDay ← parse s!"0 {minute} {hour} {dom} {month} *"
          let byWeekday ← parse s!"0 {minute} {hour} * {month} {dowTranslated}"
          pure [byDay, byWeekday]
        else do
          let schedule ← parse s!"0 {minute} {hour} {dom} {month} {dowTranslated}"
          pure [schedule]
    | _ => .error invalid

/-! ## Due times -/

/-- The earlier of the best time so far and the schedule's next one. -/
def earliest (afterUtc : Nat) (zone : String) (best : Option Nat)
    (schedule : lib.CronSchedule) : Option Nat :=
  match lib.after schedule zone afterUtc with
  | none => best
  | some next => some (match best with | none => next | some current => min current next)

/-- The first cron occurrence strictly after `afterUtc`. -/
def computeNextDue (cron : String) (afterUtc : Nat) (tz : String) : Except String Nat :=
  match lib.zoneError tz with
  | some error => .error s!"{tz.quote} is not a time zone: {error}"
  | none => do
      let schedules ← compile lib cron
      match schedules.foldl (earliest lib afterUtc tz) none with
      | some next => .ok next
      | none => .error s!"no future occurrence for cron expression: {cron.quote}"

def isoformatUtc (at_ : Nat) : String :=
  if at_ % 1000000 = 0 then lib.format at_ "%Y-%m-%dT%H:%M:%S+00:00"
  else lib.format at_ "%Y-%m-%dT%H:%M:%S%.6f+00:00"

def parseIso (text : String) : Option Nat :=
  (lib.parseFromRfc3339 text).or (lib.parseNaive text)

/-- The time a sweep writes is later than its clock, and reads back. -/
def Later (at_ next : Nat) : Prop :=
  at_ < next ∧ parseIso lib (isoformatUtc lib next) = some next

variable {lib}

variable {zone : String} {next afterUtc : Nat} {schedule : lib.CronSchedule} {best : Option Nat}

theorem later_of_after {at_ : Nat}
    (h : lib.after schedule zone at_ = some next) : Later lib at_ next := by
  obtain ⟨hsecond, hparse⟩ := lib.after_second _ _ _ _ h
  refine ⟨lib.after_lt _ _ _ _ h, ?_⟩
  simp only [isoformatUtc, hsecond, if_true, parseIso, hparse, Option.or]

theorem later_earliest (hbest : ∀ b ∈ best, Later lib afterUtc b)
    (h : earliest lib afterUtc zone best schedule = some next) : Later lib afterUtc next := by
  unfold earliest at h
  cases hafter : lib.after schedule zone afterUtc with
  | none =>
    rw [hafter] at h
    exact hbest next h
  | some found =>
    have hfound := later_of_after hafter
    rw [hafter] at h
    cases best with
    | none =>
      cases h
      exact hfound
    | some current =>
      cases h
      show Later lib afterUtc (min current found)
      rcases min_choice current found with hmin | hmin
      · rw [hmin]
        exact hbest current rfl
      · rw [hmin]
        exact hfound

theorem later_foldl {schedules : List lib.CronSchedule} (hbest : ∀ b ∈ best, Later lib afterUtc b)
    (h : schedules.foldl (earliest lib afterUtc zone) best = some next) :
    Later lib afterUtc next := by
  induction schedules generalizing best with
  | nil => exact hbest next h
  | cons schedule rest ih => exact ih (fun b hb => later_earliest hbest hb) h

/-- **The next due time is strictly later**, and the text a record keeps of it
reads back as the same instant. -/
theorem later_of_computeNextDue {cron tz : String}
    (h : computeNextDue lib cron afterUtc tz = .ok next) : Later lib afterUtc next := by
  unfold computeNextDue at h
  split at h
  · cases h
  · cases hcompile : compile lib cron with
    | error e =>
      rw [hcompile] at h
      cases h
    | ok schedules =>
      rw [hcompile] at h
      simp only [bind, Except.bind] at h
      split at h
      · next found hfold =>
        cases h
        exact later_foldl (fun b hb => (Option.not_mem_none b hb).elim) hfold
      · cases h

variable (lib)

/-- `stable_run_id`: the run id of a caller-retained token. -/
def stableRunId (scope token : String) : String :=
  let digest := lib.digestValue scope token
  let label := (scope.toList.map fun c =>
    if c.isAlphanum || c == '-' || c == '_' then c else '-').take 32
  let trimmed := trimMatches (· == '-') label
  let label := if trimmed = [] then "scope" else String.ofList trimmed
  s!"run-{label}-{String.ofList (digest.toList.take 24)}"

def occurrenceToken (scheduleId occurrenceAt : String) : String :=
  scheduleId ++ "\x00" ++ occurrenceAt

end Stado.Schedules
