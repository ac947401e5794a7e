import Mathlib.Algebra.Group.Nat.Defs
import Mathlib.Data.List.Basic
import Stado.Library.Machine

/-!
# The inference gateway

The one door an outside caller reaches a deployment through: a request is
admitted against the caller's limits, sent to the engine without the lock, and
its answer is added to the caller's hour. Usage is held by the process and
written to the store whole, one object per caller and hour; a restarted gateway
reads the day's hours back.
-/

namespace Stado.Inference

open List

/-! ## Counts -/

/-- `+` on a `u64`. -/
def add64 (a b : ℕ) : ℕ := (a + b) % 2 ^ 64

/-- What one metered request was: refused for a limit, or answered, with the
tokens its answer stated. -/
inductive Metering where
  | refused
  | answered (status : ℕ) (stated : Option (ℕ × ℕ))
deriving DecidableEq

/-- One caller's use in one hour; hours are counted from the epoch. -/
structure HourUsage where
  caller : String
  hour : ℕ
  requests : ℕ
  promptTokens : ℕ
  generatedTokens : ℕ
  /-- Answered requests whose answer stated no usage. -/
  usageUnread : ℕ
  /-- Requests refused for a limit. -/
  refused : ℕ
deriving DecidableEq

/-- `HourUsage::default()` for one caller and hour. -/
def HourUsage.new (caller : String) (hour : ℕ) : HourUsage :=
  ⟨caller, hour, 0, 0, 0, 0, 0⟩

/-- `HourUsage::tokens`, the counts added by `add`. -/
def HourUsage.tokens (add : ℕ → ℕ → ℕ) (usage : HourUsage) : ℕ :=
  add usage.promptTokens usage.generatedTokens

/-- One request counted into its hour, the counts added by `add`. -/
def HourUsage.meter (add : ℕ → ℕ → ℕ) (usage : HourUsage) : Metering → HourUsage
  | .refused => { usage with refused := add usage.refused 1 }
  | .answered _ (some (prompt, generated)) =>
    { usage with
      requests := add usage.requests 1
      promptTokens := add usage.promptTokens prompt
      generatedTokens := add usage.generatedTokens generated }
  | .answered status none =>
    if status < 400 then
      { usage with
        requests := add usage.requests 1
        usageUnread := add usage.usageUnread 1 }
    else { usage with requests := add usage.requests 1 }

/-! ## The process -/

/-- What one caller may spend. -/
structure Limits where
  requestsPerMinute : ℕ
  tokensPerDay : ℕ
deriving DecidableEq

/-- One caller of the deployment. -/
structure Caller where
  caller : String
  keySha256 : String
  limits : Limits
  revokedAt : Option String
deriving DecidableEq

/-- The system clock in seconds since the epoch and the monotonic clock in
milliseconds. -/
structure Clock where
  utc : ℕ
  mono : ℕ
deriving DecidableEq

def hourOf (utc : ℕ) : ℕ := utc / 3600

def dayOf (hour : ℕ) : ℕ := hour / 24

/-- What the gateway holds between requests. -/
structure State where
  callers : List Caller
  /-- Per caller: request instants in the last minute. -/
  recent : String → List ℕ
  /-- Per caller: the UTC day and the tokens spent in it. -/
  dayTokens : String → Option (ℕ × ℕ)
  /-- Per caller: the hour being counted. -/
  hours : String → Option HourUsage
  lastFlush : ℕ

/-- The stored hours of each caller: the objects under
`inference/usage/<deployment>/<caller>/`. -/
abbrev UsageStore := String → List HourUsage

def put {α : Type} (map : String → α) (key : String) (value : α) : String → α :=
  fun other => if other = key then value else map other

@[simp] theorem put_same {α : Type} (map : String → α) (key : String) (value : α) :
    put map key value key = value := if_pos rfl

theorem put_other {α : Type} (map : String → α) {key other : String} (value : α)
    (h : other ≠ key) : put map key value other = map other := if_neg h

def UsageStore.hour (store : UsageStore) (caller : String) (hour : ℕ) : Option HourUsage :=
  (store caller).find? fun usage => usage.hour = hour

/-- `save_usage`: the hour's object written whole. -/
def saveUsage (store : UsageStore) (usage : HourUsage) : UsageStore :=
  put store usage.caller
    (usage :: (store usage.caller).filter fun other => other.hour ≠ usage.hour)

/-- `flush`: every held hour written to the store; `saves` says whose write
reaches it. A write that does not is only reported. -/
def flush (saves : String → Bool) (state : State) (store : UsageStore) : UsageStore :=
  fun caller =>
    match state.hours caller with
    | some usage => if saves caller then saveUsage store usage caller else store caller
    | none => store caller

theorem hour_saveUsage (store : UsageStore) (usage : HourUsage) (hour : ℕ) :
    UsageStore.hour (saveUsage store usage) usage.caller hour =
      if hour = usage.hour then some usage else store.hour usage.caller hour := by
  unfold UsageStore.hour saveUsage
  rw [put_same]
  by_cases h : hour = usage.hour
  · simp [h]
  · have hne : usage.hour ≠ hour := fun e => h e.symm
    rw [List.find?_cons_of_neg (by simpa using hne), if_neg h, List.find?_filter]
    congr 1
    funext other
    by_cases ho : other.hour = hour
    · simp [ho, h]
    · simp [ho]

/-- The hours of a caller's objects are distinct. -/
def UsageStore.Keyed (store : UsageStore) : Prop :=
  ∀ caller, ((store caller).map (·.hour)).Nodup

variable {store : UsageStore} {caller : String} {usage : HourUsage} {saves : String → Bool}
  {state : State}

theorem UsageStore.Keyed.hour (h : store.Keyed) (hmem : usage ∈ store caller) :
    store.hour caller usage.hour = some usage := by
  have hnodup := h caller
  unfold UsageStore.hour
  generalize store caller = kept at hmem hnodup ⊢
  induction kept with
  | nil => cases hmem
  | cons first rest ih =>
    rw [map_cons, nodup_cons] at hnodup
    rcases mem_cons.mp hmem with rfl | hrest
    · simp
    · have hne : first.hour ≠ usage.hour := fun e =>
        hnodup.1 (e ▸ List.mem_map_of_mem hrest)
      rw [List.find?_cons_of_neg (by simpa using hne)]
      exact ih hrest hnodup.2

theorem UsageStore.hour_hour {hour : ℕ} (h : store.hour caller hour = some usage) :
    usage.hour = hour := by
  simpa using List.find?_some h

theorem UsageStore.mem_of_hour {hour : ℕ} (h : store.hour caller hour = some usage) :
    usage ∈ store caller :=
  mem_of_find?_eq_some h

theorem UsageStore.Keyed.saveUsage (h : store.Keyed) (usage : HourUsage) :
    UsageStore.Keyed (saveUsage store usage) := by
  intro caller
  unfold Stado.Inference.saveUsage
  by_cases hc : caller = usage.caller
  · subst hc
    rw [put_same, map_cons, nodup_cons]
    constructor
    · intro hmem
      obtain ⟨other, hother, he⟩ := List.mem_map.mp hmem
      simp [he] at hother
    · exact (h _).sublist (filter_sublist.map _)
  · rw [put_other _ _ hc]
    exact h caller

theorem flush_held (h : state.hours caller = some usage) (hsaves : saves caller = true) :
    flush saves state store caller = Stado.Inference.saveUsage store usage caller := by
  unfold flush
  simp [h, hsaves]

theorem flush_lost (hsaves : saves caller = false) :
    flush saves state store caller = store caller := by
  unfold flush
  cases state.hours caller <;> simp [hsaves]

theorem flush_empty (h : state.hours caller = none) :
    flush saves state store caller = store caller := by
  unfold flush
  simp [h]

/-- The caller presenting `bearer`, if any declared caller's key hashes to it. -/
def presented (keyHash : String → String) (callers : List Caller) (bearer : String) :
    Option Caller :=
  callers.find? fun caller => caller.keySha256 = keyHash bearer

/-- The held hour of `caller` before a request of `hour` is counted: an hour
held from another is flushed and dropped, and one that is not held begins at
zero. -/
def openHour (saves : String → Bool) (caller : String) (hour : ℕ) (now : Clock)
    (state : State) (store : UsageStore) : HourUsage × State × UsageStore :=
  match state.hours caller with
  | some usage =>
    if usage.hour = hour then (usage, state, store)
    else
      (.new caller hour, { state with hours := put state.hours caller none, lastFlush := now.mono },
        flush saves state store)
  | none => (.new caller hour, state, store)

/-- One request counted into the caller's hour, which is written over the held
one. -/
def meterHour (saves : String → Bool) (caller : String) (hour : ℕ) (what : Metering)
    (now : Clock) (state : State) (store : UsageStore) : State × UsageStore :=
  match openHour saves caller hour now state store with
  | (usage, state, store) =>
    ({ state with hours := put state.hours caller (some (usage.meter add64 what)) }, store)

/-! ## One request -/

/-- The tokens the caller is held to have spent on `day`. -/
def State.spent (state : State) (caller : String) (day : ℕ) : ℕ :=
  match state.dayTokens caller with
  | some (countedDay, tokens) => if countedDay = day then tokens else 0
  | none => 0

/-- The instants of the last minute. -/
def State.window (state : State) (caller : String) (now : Clock) : List ℕ :=
  (state.recent caller).filter fun instant => now.mono - instant < 60000

def State.overRate (state : State) (caller : Caller) (now : Clock) : Bool :=
  caller.limits.requestsPerMinute ≤ (state.window caller.caller now).length

/-- The state with the caller's window kept, and this request in it unless it is
full. -/
def State.noted (state : State) (caller : Caller) (now : Clock) : State :=
  let window := state.window caller.caller now
  let kept := if state.overRate caller now then window else window ++ [now.mono]
  { state with recent := put state.recent caller.caller kept }

inductive Admission where
  /-- The key is unknown or revoked: nothing is counted. -/
  | unauthorized
  /-- A limit refuses the request, which is counted in its hour. -/
  | refused (caller : String)
  | admitted (caller : String)
deriving DecidableEq

/-- The admission of a request whose clock reading fell in `hour`. -/
def admission (keyHash : String → String) (saves : String → Bool) (bearer : String) (hour : ℕ)
    (now : Clock) (state : State) (store : UsageStore) : Admission × State × UsageStore :=
  match presented keyHash state.callers bearer with
  | none => (.unauthorized, state, store)
  | some caller =>
    if caller.revokedAt.isSome then (.unauthorized, state, store)
    else
      let overDay : Bool := caller.limits.tokensPerDay ≤ state.spent caller.caller (dayOf hour)
      if state.overRate caller now || overDay then
        (.refused caller.caller,
          meterHour saves caller.caller hour .refused now (state.noted caller now) store)
      else (.admitted caller.caller, state.noted caller now, store)

/-- What an admission does: it counts nothing, refuses the presented caller and
counts that, or admits the caller below its day's tokens. -/
theorem admission_cases (keyHash : String → String) (saves : String → Bool) (bearer : String)
    (hour : ℕ) (now : Clock) (state : State) (store : UsageStore) :
    admission keyHash saves bearer hour now state store = (.unauthorized, state, store) ∨
      ∃ caller, presented keyHash state.callers bearer = some caller ∧
        (admission keyHash saves bearer hour now state store = (.refused caller.caller,
              meterHour saves caller.caller hour .refused now (state.noted caller now) store) ∨
          state.spent caller.caller (dayOf hour) < caller.limits.tokensPerDay ∧
            admission keyHash saves bearer hour now state store =
              (.admitted caller.caller, state.noted caller now, store)) := by
  unfold admission
  split
  · exact .inl rfl
  · next caller hcaller =>
    split
    · exact .inl rfl
    · refine .inr ⟨caller, hcaller, ?_⟩
      dsimp only
      split
      · exact .inl rfl
      · next hover =>
        refine .inr ⟨?_, rfl⟩
        have hday : ¬caller.limits.tokensPerDay ≤ state.spent caller.caller (dayOf hour) :=
          fun hle => hover (by
            rw [Bool.or_eq_true]
            exact .inr (decide_eq_true hle))
        exact Nat.lt_of_not_le hday

/-- The day's tokens with one answer's added; a counter of another day is
replaced. -/
def spend (counter : Option (ℕ × ℕ)) (day prompt generated : ℕ) : ℕ × ℕ :=
  match counter with
  | some (countedDay, tokens) =>
    if countedDay = day then (day, add64 tokens (add64 prompt generated))
    else (day, add64 0 (add64 prompt generated))
  | none => (day, add64 0 (add64 prompt generated))

def State.spendStated (state : State) (caller : String) (day : ℕ) :
    Option (ℕ × ℕ) → State
  | some (prompt, generated) =>
    { state with
      dayTokens :=
        put state.dayTokens caller (some (spend (state.dayTokens caller) day prompt generated)) }
  | none => state

/-- The accounting of an answered request: into the caller's hour and day, and
every held hour is flushed once the last flush is old enough. -/
def accounting (flushEvery : ℕ) (closing saves : String → Bool) (caller : String) (hour : ℕ)
    (status : ℕ) (stated : Option (ℕ × ℕ)) (now : Clock) (state : State) (store : UsageStore) :
    State × UsageStore :=
  match meterHour closing caller hour (.answered status stated) now state store with
  | (state, store) =>
    let state := state.spendStated caller (dayOf hour) stated
    if flushEvery ≤ now.mono - state.lastFlush then
      ({ state with lastFlush := now.mono }, flush saves state store)
    else (state, store)

/-- `spent_today`: the day's tokens of each caller with a stored hour of it, from
the stored hours, and the hour in progress, continued. -/
def spentToday (now : Clock) (store : UsageStore) :
    (String → Option (ℕ × ℕ)) × (String → Option HourUsage) :=
  let today := dayOf (hourOf now.utc)
  (fun caller =>
      let kept := (store caller).filter fun usage => today * 24 ≤ usage.hour
      if kept = [] then none
      else some (today, (kept.map (·.tokens add64)).foldl add64 0),
    fun caller => store.hour caller (hourOf now.utc))

def start (callers : List Caller) (now : Clock) (store : UsageStore) : State where
  callers := callers
  recent := fun _ => []
  dayTokens := (spentToday now store).1
  hours := (spentToday now store).2
  lastFlush := now.mono

/-! ## The gateway and its requests -/

/-- A request that read the clock and waits for the lock. -/
structure Waiting where
  bearer : String
  hour : ℕ
deriving DecidableEq

/-- A request the engine is asked for. -/
structure Sent where
  caller : String
  hour : ℕ
deriving DecidableEq

/-- A request counted, with the hour it was metered to. -/
structure Metered where
  caller : String
  hour : ℕ
  what : Metering
deriving DecidableEq

structure World where
  clock : Clock
  state : State
  store : UsageStore
  waiting : List Waiting
  sent : List Sent
  /-- The metered requests, newest first: what the counts are judged by, read by
  no routine. -/
  metered : List Metered

inductive Step where
  | tick (utc mono : ℕ)
  /-- A request with a key arrives and reads the clock. -/
  | arrive (bearer : String)
  | enter (i : ℕ) (saves : String → Bool)
  | answer (i : ℕ) (status : ℕ) (stated : Option (ℕ × ℕ)) (closing saves : String → Bool)
  /-- The engine did not answer, or its answer could not be read. -/
  | lose (i : ℕ)
  /-- The refresher: the callers read again, and the held hours flushed. -/
  | refresh (callers : Option (List Caller)) (saves : String → Bool)
  /-- The process ends, its requests with it, and a new one starts. -/
  | restart (callers : List Caller)

/-- Every held hour is stored as it is held. -/
def World.Flushed (w : World) : Prop :=
  ∀ caller usage, w.state.hours caller = some usage → w.store.hour caller usage.hour = some usage

def World.tick (w : World) (utc mono : ℕ) : World :=
  { w with clock := ⟨w.clock.utc + utc, w.clock.mono + mono⟩ }

/-- The lock is taken by the waiting request `i`. -/
def World.enter (keyHash : String → String) (w : World) (i : ℕ) (saves : String → Bool) :
    Option World :=
  w.waiting[i]?.map fun request =>
    let w := { w with waiting := w.waiting.eraseIdx i }
    match admission keyHash saves request.bearer request.hour w.clock w.state w.store with
    | (.unauthorized, state, store) => { w with state, store }
    | (.refused caller, state, store) =>
      { w with state, store, metered := ⟨caller, request.hour, .refused⟩ :: w.metered }
    | (.admitted caller, state, store) =>
      { w with state, store, sent := w.sent ++ [⟨caller, request.hour⟩] }

/-- The engine's answer to the sent request `i` is counted. -/
def World.answer (flushEvery : ℕ) (w : World) (i status : ℕ) (stated : Option (ℕ × ℕ))
    (closing saves : String → Bool) : Option World :=
  w.sent[i]?.map fun request =>
    match accounting flushEvery closing saves request.caller request.hour status stated w.clock
        w.state w.store with
    | (state, store) =>
      { w with
        state, store
        sent := w.sent.eraseIdx i
        metered := ⟨request.caller, request.hour, .answered status stated⟩ :: w.metered }

def World.refresh (w : World) (callers : Option (List Caller)) (saves : String → Bool) : World :=
  { w with
    state := { w.state with callers := callers.getD w.state.callers, lastFlush := w.clock.mono }
    store := flush saves w.state w.store }

def World.restart (w : World) (callers : List Caller) : World :=
  { w with state := start callers w.clock w.store, waiting := [], sent := [] }

section

variable (keyHash : String → String) (flushEvery : ℕ)

/-- One step of the gateway and its requests. -/
def World.step (w : World) : Step → Option World
  | .tick utc mono => some (w.tick utc mono)
  | .arrive bearer =>
    some { w with waiting := w.waiting ++ [⟨bearer, hourOf w.clock.utc⟩] }
  | .enter i saves => w.enter keyHash i saves
  | .answer i status stated closing saves => w.answer flushEvery i status stated closing saves
  | .lose i => w.sent[i]?.map fun _ => { w with sent := w.sent.eraseIdx i }
  | .refresh callers saves => some (w.refresh callers saves)
  | .restart callers => some (w.restart callers)

end

end Stado.Inference
