import Mathlib.Algebra.Order.Field.Rat
import Mathlib.Data.List.AList
import Mathlib.Data.List.Sort
import Stado.Library.Machine

/-!
# Capacity reservations

A row for each workload placed on a host, renewed by its holder in the
background, removed by its release, and swept away by the host's agent once
its holder's promise has passed. A storage call takes effect at any point
after it is sent; who sent it may have stopped waiting for it by then.

A consumer's id holds no slash, so the rows under its directory are the rows
of its keys. A reservation's id is the number of its hold.
-/

namespace Stado.Reservations

/-! ## The row -/

/-- Instants are counted in nanoseconds. -/
def second : ℕ := 1000000000

structure Reservation where
  reservationId : ℕ
  consumerId : String
  target : String
  kind : String
  product : String
  holder : String
  cpuCores : ℤ
  ramGb : ℚ
  vramGb : ℤ
  acquiredAt : ℕ
  heartbeatAt : ℕ
  ttlSeconds : ℕ
deriving DecidableEq

abbrev Key := String × ℕ

namespace Reservation

variable (row : Reservation)

def key : Key := (row.consumerId, row.reservationId)

/-- The instant this reservation stops counting unless heartbeated. -/
def expiresAt : ℕ := row.heartbeatAt + row.ttlSeconds * second

def isLive (now : ℕ) : Bool := now < row.expiresAt

end Reservation

/-- What a caller asks to hold. -/
structure ReservationRequest where
  consumerId : String
  target : String
  kind : String
  product : String
  holder : String
  cpuCores : ℤ
  ramGb : ℚ
  vramGb : ℤ
  promise : ℕ
deriving DecidableEq

/-- Whole seconds covering `promise`, never less than it. -/
def secondsCovering (promise : ℕ) : ℕ :=
  promise / second + if promise % second = 0 then 0 else 1

def ReservationRequest.row (request : ReservationRequest) (reservationId now : ℕ) :
    Reservation where
  reservationId := reservationId
  consumerId := request.consumerId
  target := request.target
  kind := request.kind
  product := request.product
  holder := request.holder
  cpuCores := request.cpuCores
  ramGb := request.ramGb
  vramGb := request.vramGb
  acquiredAt := now
  heartbeatAt := now
  ttlSeconds := secondsCovering request.promise

/-- The row with a fresh heartbeat and the time within which it is renewed. -/
def Reservation.heartbeat (row : Reservation) (now promise : ℕ) : Reservation :=
  { row with heartbeatAt := now, ttlSeconds := secondsCovering promise }

/-- The sum of a set of reservations, in the units the publication uses. -/
structure Reserved where
  cpuCores : ℤ
  ramGb : ℚ
  vramGb : ℤ
deriving DecidableEq

def Reserved.of (reservations : List Reservation) : Reserved :=
  reservations.foldl
    (fun sum row => ⟨sum.cpuCores + row.cpuCores, sum.ramGb + row.ramGb, sum.vramGb + row.vramGb⟩)
    ⟨0, 0, 0⟩

/-! ## Holders and sweeps -/

/-- A storage call that has been sent and has not taken effect. A renewal
carries its turn among the renewals of its hold, a sweep's delete the row that
the sweep read. -/
inductive Call where
  | renew (row : Reservation) (turn : ℕ)
  | release (key : Key)
  | retire (sweep : ℕ) (read : Reservation)
deriving DecidableEq

/-- Where a hold stands. The create of an acquiring or abandoned hold is under
way, which the latter no longer waits for; a held reservation has sent `turn`
renewals and may be waiting for the last of them. -/
inductive Hold where
  | idle
  | acquiring (row : Reservation)
  | abandoned (row : Reservation)
  | held (row : Reservation) (turn : ℕ) (waiting : Bool)
  | releasing (row : Reservation)
  | released (row : Reservation)
  | gone (row : Reservation)
deriving DecidableEq

def Hold.row? : Hold → Option Reservation
  | .idle => none
  | .acquiring row | .abandoned row | .held row _ _ | .releasing row | .released row
  | .gone row => some row

/-- Where a sweep stands: the names it has still to read, the live rows it has
found and how many it has retired. -/
inductive Sweep where
  | idle
  | started (consumer : String) (now : ℕ)
  | reading (consumer : String) (now : ℕ) (names : List Key) (live : List Reservation)
      (retired : ℕ)
  | retiring (consumer : String) (now : ℕ) (names : List Key) (live : List Reservation)
      (retired : ℕ)
  | swept (consumer : String) (now : ℕ) (live : List Reservation) (retired : ℕ)
  | failed
deriving DecidableEq

/-- The stored rows and the calls under way. The last three fields are a
record of the run: the newest renewal of each hold that has taken effect, the
holds whose promise has passed at some instant, and the rows sweeps removed. -/
structure World where
  clock : ℕ
  rows : AList fun _ : Key => Reservation
  calls : List Call
  holds : ℕ → Hold
  sweeps : ℕ → Sweep
  newest : ℕ → Option (Reservation × ℕ)
  lapsed : ℕ → Bool
  removed : List (Reservation × ℕ)

namespace World

def start : World :=
  ⟨0, ∅, [], fun _ => .idle, fun _ => .idle, fun _ => none, fun _ => false, []⟩

def moveHold (w : World) (id : ℕ) (hold : Hold) : World :=
  { w with holds := Function.update w.holds id hold }

def moveSweep (w : World) (id : ℕ) (sweep : Sweep) : World :=
  { w with sweeps := Function.update w.sweeps id sweep }

def send (w : World) (call : Call) : World := { w with calls := call :: w.calls }

/-- Time passes; a promise that it passes is recorded. -/
def wait (w : World) (ticks : ℕ) : World :=
  { w with
    clock := w.clock + ticks
    lapsed := fun id => w.lapsed id ||
      (w.newest id).any fun newest => !newest.1.isLive (w.clock + ticks) }

def store (w : World) (row : Reservation) (turn : ℕ) : World :=
  { w with
    rows := w.rows.insert row.key row
    newest := Function.update w.newest row.reservationId (some (row, turn))
    lapsed := Function.update w.lapsed row.reservationId
      (w.lapsed row.reservationId || !row.isLive w.clock) }

end World

/-- What a holder does with the answer of its call, if it still waits for it. -/
def Hold.answered (hold : Hold) : Call → Hold
  | .renew _ turn =>
    match hold with
    | .held row sent true => .held row sent (sent ≠ turn)
    | _ => hold
  | .release _ =>
    match hold with
    | .releasing row => .released row
    | _ => hold
  | .retire _ _ => hold

def Sweep.answered : Sweep → Sweep
  | .retiring consumer now names live retired => .reading consumer now names live (retired + 1)
  | sweep => sweep

def effect (w : World) : Call → World
  | .renew row turn =>
    (w.store row turn).moveHold row.reservationId
      ((w.holds row.reservationId).answered (.renew row turn))
  | .release key =>
    { w with rows := w.rows.erase key }.moveHold key.2
      ((w.holds key.2).answered (.release key))
  | .retire sweep read =>
    { w with
      rows := w.rows.erase read.key
      removed := ((w.rows.lookup read.key).map fun row => (row, w.clock)).toList ++ w.removed
    }.moveSweep sweep (w.sweeps sweep).answered

inductive Event where
  | wait (ticks : ℕ)
  /-- A sent call takes effect. -/
  | land (call : Call)
  /-- A sent call will not take effect. -/
  | lose (call : Call)
  | acquire (id : ℕ) (request : ReservationRequest)
  /-- The create of a hold takes effect. -/
  | create (id : ℕ)
  /-- The create of a hold will not take effect. -/
  | miss (id : ℕ)
  /-- The background task renews, promising this much. -/
  | renew (id promise : ℕ)
  | release (id : ℕ)
  /-- A holder's call has failed for it, or its hold is dropped. -/
  | giveUp (id : ℕ)
  | sweep (id : ℕ) (consumer : String)
  | list (id : ℕ)
  | read (id : ℕ)
  /-- A sweep's call has failed for it. -/
  | abandon (id : ℕ)
deriving DecidableEq

/-- The create of a hold takes effect: there is a row of that key already, or
the row is stored and its hold moves on. -/
def created (w : World) (id : ℕ) (row : Reservation) (hold : Hold) : World :=
  match w.rows.lookup row.key with
  | some _ => w.moveHold id (.gone row)
  | none => (w.store row 0).moveHold id hold

def directory (w : World) (consumer : String) : List Key :=
  w.rows.keys.filter fun key => key.1 = consumer

def step (w : World) : Event → Option World
  | .wait ticks => some (w.wait ticks)
  | .land call =>
    if call ∈ w.calls then some (effect { w with calls := w.calls.erase call } call) else none
  | .lose call =>
    if call ∈ w.calls then some { w with calls := w.calls.erase call } else none
  | .acquire id request =>
    match w.holds id with
    | .idle => some (w.moveHold id (.acquiring (request.row id w.clock)))
    | _ => none
  | .create id =>
    match w.holds id with
    | .acquiring row => some (created w id row (.held row 0 false))
    | .abandoned row => some (created w id row (.gone row))
    | _ => none
  | .miss id =>
    match w.holds id with
    | .acquiring row | .abandoned row => some (w.moveHold id (.gone row))
    | _ => none
  | .renew id promise =>
    match w.holds id with
    | .held row turn false =>
      let renewed := row.heartbeat w.clock promise
      some ((w.moveHold id (.held renewed (turn + 1) true)).send (.renew renewed (turn + 1)))
    | _ => none
  | .release id =>
    match w.holds id with
    | .held row _ _ => some ((w.moveHold id (.releasing row)).send (.release row.key))
    | _ => none
  | .giveUp id =>
    match w.holds id with
    | .held row turn true => some (w.moveHold id (.held row turn false))
    | .acquiring row => some (w.moveHold id (.abandoned row))
    | .held row _ false | .releasing row => some (w.moveHold id (.gone row))
    | _ => none
  | .sweep id consumer =>
    match w.sweeps id with
    | .idle => some (w.moveSweep id (.started consumer w.clock))
    | _ => none
  | .list id =>
    match w.sweeps id with
    | .started consumer now =>
      some (w.moveSweep id (.reading consumer now (directory w consumer) [] 0))
    | _ => none
  | .read id =>
    match w.sweeps id with
    | .reading consumer now [] live retired =>
      some (w.moveSweep id (.swept consumer now
        (live.insertionSort fun left right => left.acquiredAt ≤ right.acquiredAt) retired))
    | .reading consumer now (key :: names) live retired =>
      match w.rows.lookup key with
      | none => some (w.moveSweep id (.reading consumer now names live retired))
      | some row =>
        if row.isLive now then
          some (w.moveSweep id (.reading consumer now names (live ++ [row]) retired))
        else
          some ((w.moveSweep id (.retiring consumer now names live retired)).send
            (.retire id row))
    | _ => none
  | .abandon id =>
    match w.sweeps id with
    | .started _ _ | .reading _ _ _ _ _ | .retiring _ _ _ _ _ => some (w.moveSweep id .failed)
    | _ => none

end Stado.Reservations
