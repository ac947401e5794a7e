import Mathlib.Data.List.Infix
import Stado.Library.Machine

/-!
# The last-known-good registry copy

The copy a host keeps of the last registry document its authority served, and
the sidecar that dates it. Both files are kept as the list of their atomic
replacements, newest first. A process that stores a document reads the
recorded copy, judges the document against it, replaces the document and then
the sidecar; processes take these steps in any order and may crash between any
two of them.
-/

namespace Stado.LastGood

/-! ## Documents -/

/-- What the cache reads of a registry document. -/
structure Document where
  /-- The `targets` list, none when there is none. -/
  targets : Option (List String)
  /-- The service directory's generation, none without a directory. -/
  directory : Except String (Option ℕ)

/-- The text of a file: a JSON document, or what its parser says of it. -/
inductive Text where
  | unparseable (error : String)
  | json (document : Document)

def declaredTargets (document : Document) : List String := document.targets.getD []

/-- Why the copy was not refreshed. -/
inductive LastGoodRefusal where
  | noCacheLocation
  | unparseable (detail : String)
  | rejectedByThisBuild (detail : String)
  | wouldLoseRecordedHosts (held : ℕ) (detail : String)
  | directoryRollback (detail : String)
  | notWritten (detail : String)
deriving DecidableEq

/-- Whether a lower service directory generation may replace the copy. -/
inductive DirectoryAdvance where
  | required | acceptedRollback
deriving DecidableEq

def mayReplaceLastGood (incoming : Document) (recorded : Option Document) : Except String Unit :=
  let held := (recorded.map declaredTargets).getD []
  if (declaredTargets incoming).isEmpty ∧ ¬ held.isEmpty then
    .error (s!"the authority served a registry naming no hosts and the recorded copy names " ++
      s!"{held.length}; keeping the recorded copy, because an empty fleet is what an outage looks " ++
      "like from here and the fallback exists for outages")
  else .ok ()

def directoryNotRolledBack (incoming recorded : Document) : Except String Unit :=
  match incoming.directory with
  | .error error =>
    .error (s!"the registry read's service directory cannot be read, so whether it rolls the " ++
      s!"recorded copy back is unknown: {error}")
  | .ok arriving =>
    let held : Option ℕ := match recorded.directory with
      | .ok held => held
      | .error _ => none
    match arriving, held with
    | some arriving, some held =>
      if arriving < held then
        .error (s!"the registry read names service directory generation {arriving}, below " ++
          s!"generation {held} this host's last-known-good copy holds; keeping the copy, because " ++
          "a directory generation only advances and a lower one is an authority answering " ++
          "after its role moved; if the copy's generation is the false one, `stado resolver " ++
          s!"accept --generation {arriving}` on this host adopts the lower one once")
      else .ok ()
    | _, _ => .ok ()

/-- The document a recorded text holds; one that does not parse holds none. -/
def Text.document? : Text → Option Document
  | .unparseable _ => none
  | .json document => some document

/-- The judgement of a document against what was found recorded: a text, no
file, or a file that cannot be read. `validate` is the registry contract. -/
def judge (validate : Document → Except String Unit) (text : Text) (advance : DirectoryAdvance)
    (found : Except String (Option Text)) : Except LastGoodRefusal Unit :=
  match text with
  | .unparseable error => .error (.unparseable error)
  | .json data => do
      (validate data).mapError .rejectedByThisBuild
      let recorded ← found.mapError fun error => .notWritten
        (s!"the recorded copy cannot be read, so whether this document would lose its hosts is " ++
          s!"unknown: {error}")
      let recorded := recorded.bind Text.document?
      (mayReplaceLastGood data recorded).mapError
        (.wouldLoseRecordedHosts ((recorded.map declaredTargets).getD []).length)
      match advance, recorded with
      | .required, some recorded =>
        (directoryNotRolledBack data recorded).mapError .directoryRollback
      | _, _ => .ok ()

/-! ## The files -/

/-- Instants are counted in nanoseconds. -/
def second : ℕ := 1000000000

/-- An instant as it is written down: in whole seconds. -/
def wholeSeconds (now : ℕ) : ℕ := now / second * second

structure RegistryCacheMeta where
  readAt : ℕ
  generation : String
deriving DecidableEq

/-- A stored document: its text, and the instant the authority answered with it. -/
structure Copy where
  text : Text
  answered : ℕ

/-- One atomic replacement of a file. -/
inductive Replacement where
  | document (copy : Copy) (advance : DirectoryAdvance)
  | sidecar (written : RegistryCacheMeta)

/-- The replacements made so far, newest first. -/
abbrev Files := List Replacement

namespace Files

/-- The document on disk, with how many replacements came before it. -/
def document : Files → Option (Copy × ℕ)
  | [] => none
  | .document copy _ :: older => some (copy, older.length)
  | .sidecar _ :: older => document older

def sidecar : Files → Option RegistryCacheMeta
  | [] => none
  | .sidecar written :: _ => some written
  | .document _ _ :: older => sidecar older

end Files

/-! ## Storing a document -/

/-- A call of `store_last_good_as`: its arguments, when the document was
answered by the authority, and whether the process has a cache location. -/
structure Arrival where
  text : Text
  answered : ℕ
  generation : String
  advance : DirectoryAdvance
  located : Bool

/-- Where a process stands in its call. `seen` counts the replacements made
when it read the recorded copy, and `after` those made before its document. -/
inductive Phase where
  | idle
  | called (arrival : Arrival)
  | judged (arrival : Arrival) (seen : ℕ)
  | stamped (arrival : Arrival) (seen : ℕ) (written : RegistryCacheMeta)
  | documented (arrival : Arrival) (written : RegistryCacheMeta) (after : ℕ)
  | ended (outcome : Except LastGoodRefusal Unit)
  | crashed

/-- How the replacement of a file ends: made, failed before the rename, or
failed after it. -/
inductive Persisted where
  | made
  | failed (error : String)
  | landed (error : String)
deriving DecidableEq

def Persisted.files (persisted : Persisted) (replacement : Replacement) (files : Files) : Files :=
  match persisted with
  | .made | .landed _ => replacement :: files
  | .failed _ => files

def Persisted.phase (persisted : Persisted) (next : Phase) : Phase :=
  match persisted with
  | .made => next
  | .failed error | .landed error => .ended (.error (.notWritten error))

/-- A step of one process. A failure is what the file system says. -/
inductive Action where
  | call (arrival : Arrival)
  | readRecorded (failure : Option String)
  | createDirectory (failure : Option String)
  | writeDocument (persisted : Persisted)
  | writeSidecar (persisted : Persisted)
  | crash

inductive Event where
  | wait (ticks : ℕ)
  | act (process : ℕ) (action : Action)

structure World where
  files : Files
  clock : ℕ
  phases : ℕ → Phase

namespace World

/-- Nobody is storing, and an undated document may be left on disk. -/
def start (left : Option Copy) : World :=
  ⟨(left.map fun copy => .document copy .required).toList, 0, fun _ => .idle⟩

def move (w : World) (process : ℕ) (phase : Phase) : World :=
  { w with phases := Function.update w.phases process phase }

/-- The recorded copy as a process reads it. -/
def found (w : World) : Option String → Except String (Option Text)
  | some error => .error error
  | none => .ok (w.files.document.map fun recorded => recorded.1.text)

end World

/-- What a step leads to, when it can be taken. -/
def step (validate : Document → Except String Unit) (w : World) : Event → Option World
  | .wait ticks => some { w with clock := w.clock + ticks }
  | .act process .crash => some (w.move process .crashed)
  | .act process (.call arrival) =>
    match w.phases process with
    | .idle =>
      if arrival.answered ≤ w.clock then
        some (w.move process
          (if arrival.located then .called arrival else .ended (.error .noCacheLocation)))
      else none
    | _ => none
  | .act process (.readRecorded failure) =>
    match w.phases process with
    | .called arrival =>
      match judge validate arrival.text arrival.advance (w.found failure) with
      | .ok () => some (w.move process (.judged arrival w.files.length))
      | .error refusal => some (w.move process (.ended (.error refusal)))
    | _ => none
  | .act process (.createDirectory failure) =>
    match w.phases process with
    | .judged arrival seen =>
      match failure with
      | some error => some (w.move process (.ended (.error (.notWritten error))))
      | none =>
        some (w.move process
          (.stamped arrival seen ⟨wholeSeconds w.clock, arrival.generation⟩))
    | _ => none
  | .act process (.writeDocument persisted) =>
    match w.phases process with
    | .stamped arrival _ written =>
      let files := persisted.files
        (.document ⟨arrival.text, arrival.answered⟩ arrival.advance) w.files
      some ({ w with files }.move process
        (persisted.phase (.documented arrival written w.files.length)))
    | _ => none
  | .act process (.writeSidecar persisted) =>
    match w.phases process with
    | .documented _ written _ =>
      some ({ w with files := persisted.files (.sidecar written) w.files }.move process
        (persisted.phase (.ended (.ok ()))))
    | _ => none

/-- The copy with its sidecar and its age in seconds, none when one of the
files is missing. `load` is the registry loader. -/
def readLastGood {Registry : Type} (load : Text → Except String Registry) (now : ℕ)
    (files : Files) : Except String (Option (Registry × RegistryCacheMeta × ℤ)) :=
  match files.sidecar, files.document with
  | some written, some (copy, _) => do
      let registry ← load copy.text
      let age := ((now : ℤ) - written.readAt).tdiv second
      if age < 0 then .error "read_at is later than this host's clock"
      else .ok (some (registry, written, age))
  | _, _ => .ok none

end Stado.LastGood
