import Stado.Directory.Document

/-!
# The rate limiter

Fixed windows in memory, each with the hits it allowed, and the call that counts
one more: windows that have ended are dropped, the call is judged, and a state
that changed is stored before the call is answered.
-/

namespace Stado.RateLimit

open Std
open Directory (Table debug)

inductive RateLimitError where
  | invalidRequest (reason : String)
  | state (reason : String)
  | storage (reason : String)
deriving DecidableEq

def RateLimitError.text : RateLimitError → String
  | .invalidRequest reason => s!"invalid rate-limit request: {reason}"
  | .state reason => s!"invalid persisted rate-limit state: {reason}"
  | .storage reason => reason

structure RateLimitClient where
  name : String
  namespaces : List String
deriving DecidableEq

structure ConsumeRequest where
  nameSpace : String
  key : String
  limit : ℕ
  windowMs : ℕ
deriving DecidableEq

structure ConsumeResponse where
  allowed : Bool
  limit : ℕ
  remaining : ℕ
  resetAt : ℕ
  retryAfterSeconds : Option ℕ
deriving DecidableEq

/-- A window of one key; its hits are when its allowed calls arrived. -/
structure Record extends ConsumeRequest where
  client : String
  hits : List ℕ
  resetAt : ℕ
deriving DecidableEq

def Record.used (record : Record) : ℕ := record.hits.length

/-! ## Validation -/

def lowercaseHex (c : Char) : Bool := c.isDigit || decide ('a' ≤ c) && decide (c ≤ 'f')

def validateRequest (client : RateLimitClient) (request : ConsumeRequest) :
    Except RateLimitError Unit :=
  if request.nameSpace ∉ client.namespaces then
    .error (.invalidRequest "namespace is outside the authenticated client policy")
  else if ¬(request.key.toList.all lowercaseHex ∧ request.key.length = 64) then
    .error (.invalidRequest "key must be a lowercase SHA-256 digest")
  else if request.limit = 0 ∨ request.windowMs = 0 then
    .error (.invalidRequest "limit and window_ms must be non-zero")
  else .ok ()

def recordId (client : String) (request : ConsumeRequest) : String :=
  s!"{client}/{request.nameSpace}/{request.key}/{request.limit}/{request.windowMs}"

/-- What `restore` asks of every record. -/
def validateRecord (clients : Table RateLimitClient) (id : String) (record : Record) :
    Except RateLimitError Unit :=
  let refused (why : String) : Except RateLimitError Unit :=
    .error (.state s!"record {debug id} is not canonical: {why}")
  match clients[record.client]? with
  | none => .error (.state s!"record {debug id} names an unknown client")
  | some client =>
    match validateRequest client record.toConsumeRequest with
    | .error e => refused e.text
    | .ok () =>
      if record.hits = [] then refused "it holds no hits"
      else if record.limit < record.used then
        refused s!"it holds {record.hits.length} hits over its limit of {record.limit}"
      else if record.resetAt = 0 then refused "its reset_at is zero"
      else if id ≠ recordId record.client record.toConsumeRequest then
        let expected := recordId record.client record.toConsumeRequest
        refused s!"its fields name the record {debug expected}"
      else .ok ()

/-! ## A call -/

/-- A call of an authenticated client, with what the clock reads in it and why its
state could not be stored, if it could not. -/
structure Call where
  client : RateLimitClient
  request : ConsumeRequest
  clock : ℤ
  unstored : Option RateLimitError

namespace Call

def id (call : Call) : String := recordId call.client.name call.request

def now (call : Call) : ℕ := call.clock.toNat

def resetAt (call : Call) : ℕ := call.now + call.request.windowMs

end Call

structure Outcome where
  answer : Except RateLimitError ConsumeResponse
  records : Table Record
  stored : Option (Table Record)

/-- The answer over the windows that have not ended; `seconds` rounds
milliseconds up. -/
def judge (seconds : ℕ → ℕ) (call : Call) (records : Table Record) :
    ConsumeResponse × Table Record :=
  match records[call.id]? with
  | some record =>
    if call.request.limit ≤ record.used then
      (⟨false, call.request.limit, call.request.limit - record.used, record.resetAt,
        some (seconds (record.resetAt - call.now))⟩, records)
    else
      let record := { record with hits := record.hits ++ [call.now] }
      (⟨true, call.request.limit, call.request.limit - record.used, record.resetAt, none⟩,
        records.insert call.id record)
  | none =>
    let record : Record := ⟨call.request, call.client.name, [call.now], call.resetAt⟩
    (⟨true, call.request.limit, call.request.limit - record.used, call.resetAt, none⟩,
      records.insert call.id record)

def standing (now : ℕ) (records : Table Record) : Table Record :=
  records.filter fun _ record => decide (now < record.resetAt)

def consume (seconds : ℕ → ℕ) (records : Table Record) (call : Call) : Outcome :=
  match validateRequest call.client call.request with
  | .error e => ⟨.error e, records, none⟩
  | .ok () =>
    if call.clock < 0 then
      ⟨.error (.invalidRequest <| "system clock is before epoch: " ++
        "out of range integral type conversion attempted"), records, none⟩
    else if 18446744073709551615 < call.resetAt then
      ⟨.error (.invalidRequest "window overflows epoch time"), records, none⟩
    else
      let (response, judged) := judge seconds call (standing call.now records)
      if judged.toList = records.toList then ⟨.ok response, judged, none⟩
      else
        match call.unstored with
        | some e => ⟨.error e, records, none⟩
        | none => ⟨.ok response, judged, some judged⟩

def run (seconds : ℕ → ℕ) (records : Table Record) (calls : List Call) : Table Record :=
  calls.foldl (fun records call => (consume seconds records call).records) records

/-- A call with the records it met and what came of it. -/
structure Step where
  before : Table Record
  call : Call
  outcome : Outcome

def history (seconds : ℕ → ℕ) (records : Table Record) : List Call → List Step
  | [] => []
  | call :: calls =>
    let outcome := consume seconds records call
    ⟨records, call, outcome⟩ :: history seconds outcome.records calls

end Stado.RateLimit
