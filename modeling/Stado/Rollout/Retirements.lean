import Stado.Rollout.Records

/-!
# The quarantine audit trail

The file an agent's automatic retirements and an operator's clears are appended
to, one JSON document a line, and the pass that reads it back before it retires
a digest's quarantine again.
-/

namespace Stado.Rollout

open List HostRoom

/-! ## The file -/

inductive AuditStamp where
  | missing
  | unparsed (text : String)
  | named (t : Time)
deriving DecidableEq

/-- What the fields of one line's document answer. -/
structure AuditEntry where
  actor : Option String
  product : Option String
  digest : Option Digest
  auditedAt : AuditStamp
  room : HostRoom
deriving DecidableEq

inductive AuditLine where
  | notJson
  | entry (e : AuditEntry)
deriving DecidableEq

/-- The file: its lines, and whether the last one has no newline after it. -/
structure AuditFile where
  lines : List AuditLine
  torn : Bool
deriving DecidableEq

/-- The actor a line written by this agent carries. -/
def agentActor : String := "release-agent"

def quarantineAuditPath (stateDir product : String) : String :=
  s!"{stateDir}/{product}.quarantine-audit.jsonl"

/-- Append a line, with its newline or without: on a torn file it is written
behind what the last line holds, and two documents on one line are not JSON. -/
def AuditFile.append (line : AuditLine) (ended : Bool) (file : Option AuditFile) : AuditFile :=
  match file with
  | none => ⟨[line], !ended⟩
  | some file =>
    if file.torn then ⟨file.lines.dropLast ++ [.notJson], !ended⟩
    else ⟨file.lines ++ [line], !ended⟩

variable {file : AuditFile}

theorem AuditFile.append_torn (h : file.torn = true) (line : AuditLine)
    (ended : Bool) :
    AuditFile.append line ended (some file) = ⟨file.lines.dropLast ++ [.notJson], !ended⟩ := if_pos h

theorem AuditFile.append_whole (h : ¬file.torn = true) (line : AuditLine)
    (ended : Bool) :
    AuditFile.append line ended (some file) = ⟨file.lines ++ [line], !ended⟩ := if_neg h

def AuditEntry.counts (product : String) (digest : Digest) (e : AuditEntry) : Bool :=
  e.actor == some agentActor && e.digest == some digest && e.product == some product

def AuditLine.counts (product : String) (digest : Digest) : AuditLine → Bool
  | .notJson => false
  | .entry e => e.counts product digest

def countRetirements (path product : String) (digest : Digest) (index : ℕ) :
    List AuditLine → Except String (List Retirement)
  | [] => .ok []
  | .notJson :: _ =>
    .error (s!"{path}: the line after the first {index} is not JSON, " ++
      "so retirements cannot be counted")
  | .entry e :: later =>
    if e.counts product digest then
      match e.auditedAt with
      | .missing => .error
          s!"{path}: the retirement after the first {index} line(s) has no audited_at"
      | .unparsed text => .error
          (s!"{path}: the retirement after the first {index} line(s) has audited_at " ++
            s!"{text}, which is not a time")
      | .named t => do
          let rest ← countRetirements path product digest (index + 1) later
          return ⟨digest, t, e.room⟩ :: rest
    else countRetirements path product digest (index + 1) later

/-- When this agent last retired the digest, and the most room any of its
retirements of it recorded. A trail that does not exist yet answers nothing. -/
def lastAutoRetirementIn (path product : String) (digest : Digest) (unread : Option String)
    (file : Option AuditFile) : Except String (Option (Time × HostRoom)) :=
  match unread with
  | some why => .error
      (s!"cannot read the quarantine audit trail {path}, so this digest's earlier " ++
        s!"retirements are unknown: {why}")
  | none =>
    match file with
    | none => .ok none
    | some file => do
        let retirements ← countRetirements path product digest 0 file.lines
        return lastAutoRetirement retirements digest

/-! ## One pass -/

/-- What becomes of one appended line. -/
inductive Written where
  | whole
  | unopened (why : String)
  | nothing (why : String)
  | part (why : String)
  | unended (why : String)

/-- What one pass reads of the host, and what becomes of the line it writes. -/
structure PassAnswers where
  room : HostRoom
  listener : Port → Except String (Option Pid)
  unread : Option String
  now : Time
  written : Written

/-- Read `ports`, leaving out `own`, the pid of the release's active process. -/
def PortsNow.read (own : Option Pid) (listener : Port → Except String (Option Pid)) :
    List Port → PortsNow
  | [] => .free
  | port :: later =>
    match listener port with
    | .error why => .unread why
    | .ok none => PortsNow.read own listener later
    | .ok (some pid) =>
      if some pid = own then PortsNow.read own listener later
      else .held s!"pid {pid} listens on port {port}"

def recordRetirement (path product : String) (digest : Digest) (answers : PassAnswers)
    (file : Option AuditFile) : Except String Unit × Option AuditFile :=
  let line : AuditLine :=
    .entry ⟨some agentActor, some product, some digest, .named answers.now, answers.room⟩
  let cannotAppend (why : String) : Except String Unit :=
    .error s!"cannot append to the quarantine audit trail {path}: {why}"
  match answers.written with
  | .whole => (.ok (), some (AuditFile.append line true file))
  | .unopened why =>
    (.error s!"cannot open the quarantine audit trail {path}: {why}", file)
  | .nothing why => (cannotAppend why, some (file.getD ⟨[], false⟩))
  | .part why => (cannotAppend why, some (AuditFile.append .notJson false file))
  | .unended why => (cannotAppend why, some (AuditFile.append line false file))

/-- Where one product's agent keeps its files and which ports it serves on. -/
structure AgentSite where
  stateDir : String
  targetName : String
  product : String
  ports : List Port

def retireDecision (causes : Causes) (site : AgentSite) (digest : Digest) (answers : PassAnswers)
    (state : HostReleaseState) (file : Option AuditFile) : Except String RetireVerdict :=
  let path := quarantineAuditPath site.stateDir site.product
  match state.quarantined.get digest with
  | none =>
    let product := site.product
    let target := site.targetName
    .error s!"{product} on {target} has no quarantine record for {digest}"
  | some record => do
      let own := state.active.map fun active => active.pid
      let bindHeld :=
        if (record.classification causes).cause = .stableBindOccupied then
          PortsNow.read own answers.listener site.ports
        else .free
      let previous ← lastAutoRetirementIn path site.product digest answers.unread file
      return retireVerdict causes record previous answers.room bindHeld

/-- Retire the desired digest's quarantine when its cause was the host's, and
say what was decided either way. -/
def retirePass (causes : Causes) (site : AgentSite) (digest : Digest) (answers : PassAnswers)
    (state : HostReleaseState) (file : Option AuditFile) :
    Except String RetireVerdict × HostReleaseState × Option AuditFile :=
  let path := quarantineAuditPath site.stateDir site.product
  match retireDecision causes site digest answers state file with
  | .error why => (.error why, state, file)
  | .ok verdict =>
    if verdict.isRetire then
      match recordRetirement path site.product digest answers file with
      | (.error why, written) => (.error why, state, written)
      | (.ok (), written) =>
        (.ok verdict, { state with quarantined := state.quarantined.remove digest }, written)
    else (.ok verdict, state, file)

/-! ## Runs -/

/-- One automatic retirement: the cause it was for and the host's room then. -/
structure Retired where
  cause : QuarantineCause
  room : HostRoom
deriving DecidableEq

/-- Whether a retirement's line reached the trail; the pass may have been told
that it did not. -/
def Written.reached : Written → Bool
  | .whole | .unended _ => true
  | .unopened _ | .nothing _ | .part _ => false

/-- What a pass adds to the history of retirements. -/
def retiredBy (answers : PassAnswers) : Except String RetireVerdict → List Retired
  | .ok (.retire cause) => if answers.written.reached then [⟨cause, answers.room⟩] else []
  | _ => []

theorem retiredBy_cases (answers : PassAnswers) (decision : Except String RetireVerdict) :
    retiredBy answers decision = [] ∨ ∃ cause, decision = .ok (.retire cause) ∧
      retiredBy answers decision = [⟨cause, answers.room⟩] := by
  match decision with
  | .error why => exact .inl rfl
  | .ok (.candidateHeld cause) => exact .inl rfl
  | .ok (.waiting retiredAt best now) => exact .inl rfl
  | .ok (.bindHeld holder) => exact .inl rfl
  | .ok (.retire cause) =>
    by_cases hreached : answers.written.reached = true
    · exact .inr ⟨cause, rfl, if_pos hreached⟩
    · exact .inl (if_neg hreached)

/-- The runs of one digest's passes: each finds any document, quarantined again
or never saved, and any room; between them others append lines to the trail that
are not this agent's retirements of the digest. -/
inductive Retries (causes : Causes) (site : AgentSite) (digest : Digest) :
    Option AuditFile → List Retired → Prop where
  | start : Retries causes site digest none []
  | pass {file : Option AuditFile} {history : List Retired} (answers : PassAnswers)
      (state : HostReleaseState) (before : Retries causes site digest file history) :
      Retries causes site digest (retirePass causes site digest answers state file).2.2
        (history ++ retiredBy answers (retireDecision causes site digest answers state file))
  | foreign {file : Option AuditFile} {history : List Retired} (line : AuditLine) (ended : Bool)
      (other : line.counts site.product digest = false)
      (before : Retries causes site digest file history) :
      Retries causes site digest (some (AuditFile.append line ended file)) history

def countedRooms (product : String) (digest : Digest) : List AuditLine → List HostRoom
  | [] => []
  | .notJson :: later => countedRooms product digest later
  | .entry e :: later =>
    if e.counts product digest then e.room :: countedRooms product digest later
    else countedRooms product digest later

variable {path product : String} {digest : Digest} {counted : List Retirement}

theorem countedRooms_append (lines others : List AuditLine) :
    countedRooms product digest (lines ++ others) =
      countedRooms product digest lines ++ countedRooms product digest others := by
  induction lines with
  | nil => rfl
  | cons line lines ih =>
    cases line with
    | notJson => exact ih
    | entry e =>
      rw [cons_append, countedRooms, countedRooms, ih]
      split_ifs <;> rfl

/-- A trail that is counted has every line readable, and every retirement in it
is counted. -/
theorem countRetirements_eq_ok {index : ℕ} {lines : List AuditLine}
    (h : countRetirements path product digest index lines = .ok counted) :
    .notJson ∉ lines ∧ counted.map Retirement.room = countedRooms product digest lines ∧
      ∀ retirement ∈ counted, retirement.digest = digest := by
  induction lines generalizing index counted with
  | nil =>
    rw [← Except.ok.inj h]
    exact ⟨not_mem_nil, rfl, fun _ hmem => absurd hmem not_mem_nil⟩
  | cons line later ih =>
    cases line with
    | notJson => cases h
    | entry e =>
      rw [countRetirements] at h
      split_ifs at h with hcounts
      · cases hstamp : e.auditedAt with
        | missing =>
          rw [hstamp] at h
          cases h
        | unparsed text =>
          rw [hstamp] at h
          cases h
        | named t =>
          rw [hstamp] at h
          cases hlater : countRetirements path product digest (index + 1) later with
          | error why =>
            simp only [hlater] at h
            cases h
          | ok rest =>
            simp only [hlater] at h
            obtain ⟨hjson, hrooms, hdigest⟩ := ih hlater
            rw [← Except.ok.inj h]
            refine ⟨?_, ?_, ?_⟩
            · rintro (_ | ⟨_, hmem⟩)
              exact hjson hmem
            · rw [countedRooms, if_pos hcounts, ← hrooms]
              rfl
            · intro retirement hmem
              rcases mem_cons.mp hmem with rfl | hmem
              · rfl
              · exact hdigest retirement hmem
      · obtain ⟨hjson, hrooms, hdigest⟩ := ih h
        refine ⟨?_, ?_, hdigest⟩
        · rintro (_ | ⟨_, hmem⟩)
          exact hjson hmem
        · rw [countedRooms, if_neg hcounts, hrooms]

/-! ## The most room of several retirements -/

/-- The larger readings of a list: nothing when nothing was read, else one that
every reading is within. -/
theorem foldl_larger (first : Option Int) (rest : List (Option Int)) :
    (rest.foldl larger first = none → ∀ reading ∈ first :: rest, reading = none) ∧
      ∀ best, rest.foldl larger first = some best →
        (∃ reading ∈ first :: rest, reading.isSome = true) ∧
          ∀ reading ∈ first :: rest, ∀ m, reading = some m → m ≤ best := by
  induction rest generalizing first with
  | nil =>
    refine ⟨?_, ?_⟩
    · intro hnone reading hmem
      rw [mem_singleton.mp hmem]
      exact hnone
    · intro best hbest
      have hfirst : first = some best := hbest
      refine ⟨⟨first, mem_cons_self, by rw [hfirst]; rfl⟩, ?_⟩
      intro reading hmem m hm
      rw [mem_singleton.mp hmem, hfirst] at hm
      exact (Option.some.inj hm).ge
  | cons second rest ih =>
    obtain ⟨hnone, hsome⟩ := ih (larger first second)
    rw [foldl_cons]
    constructor
    · intro hall reading hmem
      have hlarger := hnone hall _ mem_cons_self
      cases first with
      | some a => cases second <;> cases hlarger
      | none =>
        cases second with
        | some b => cases hlarger
        | none =>
          rcases mem_cons.mp hmem with rfl | hmem
          · rfl
          · rcases mem_cons.mp hmem with rfl | hmem
            · rfl
            · exact hnone hall reading (mem_cons_of_mem _ hmem)
    · intro best hbest
      obtain ⟨⟨reading, hmem, hread⟩, hbound⟩ := hsome best hbest
      have hlarger := hbound _ mem_cons_self
      refine ⟨?_, ?_⟩
      · rcases mem_cons.mp hmem with rfl | hmem
        · cases first with
          | some a => exact ⟨some a, mem_cons_self, rfl⟩
          | none =>
            cases second with
            | some b => exact ⟨some b, by simp, rfl⟩
            | none => cases hread
        · exact ⟨reading, by simp [hmem], hread⟩
      · intro reading hmem m hm
        rcases mem_cons.mp hmem with rfl | hmem
        · subst hm
          cases second with
          | none => exact hlarger m rfl
          | some b => exact (le_max_left m b).trans (hlarger _ rfl)
        · rcases mem_cons.mp hmem with rfl | hmem
          · subst hm
            cases first with
            | none => exact hlarger m rfl
            | some a => exact (le_max_right a m).trans (hlarger _ rfl)
          · exact hbound reading (mem_cons_of_mem _ hmem) m hm

/-- A reading `now` is above every reading of a list, one of which was taken. -/
def ReadsAbove (now : Option Int) (earlier : List (Option Int)) : Prop :=
  ∃ n, now = some n ∧ (∃ reading ∈ earlier, reading.isSome = true) ∧
    ∀ reading ∈ earlier, ∀ m, reading = some m → m < n

theorem readsAbove_of_more {now first : Option Int} {rest : List (Option Int)}
    (h : more now (rest.foldl larger first) = true) : ReadsAbove now (first :: rest) := by
  obtain ⟨-, hsome⟩ := foldl_larger first rest
  cases now with
  | none => cases h
  | some n =>
    cases hbest : rest.foldl larger first with
    | none =>
      rw [hbest] at h
      cases h
    | some best =>
      rw [hbest] at h
      obtain ⟨hread, hbound⟩ := hsome best hbest
      have hlt : best < n := of_decide_eq_true h
      exact ⟨n, rfl, hread, fun reading hmem m hm => (hbound reading hmem m hm).trans_lt hlt⟩

theorem foldl_widest (first : HostRoom) (rest : List Retirement) :
    rest.foldl (fun room line => room.widest line.room) first =
      ⟨(rest.map fun line => line.room.availableMemoryBytes).foldl larger
          first.availableMemoryBytes,
        (rest.map fun line => line.room.freeDiskBytes).foldl larger
          first.freeDiskBytes⟩ := by
  induction rest generalizing first with
  | nil => rfl
  | cons line rest ih =>
    rw [foldl_cons, ih]
    rfl

def Above (room : HostRoom) (earlier : List HostRoom) : Prop :=
  ReadsAbove room.availableMemoryBytes (earlier.map availableMemoryBytes) ∨
    ReadsAbove room.freeDiskBytes (earlier.map freeDiskBytes)

theorem lastAutoRetirement_permits {room : HostRoom}
    (hdigest : ∀ retirement ∈ counted, retirement.digest = digest)
    (h : ∀ last best, lastAutoRetirement counted digest = some (last, best) →
      room.exceeds best = true) :
    (∀ earlier ∈ counted.map Retirement.room, earlier = ⟨none, none⟩) ∨
      Above room (counted.map Retirement.room) := by
  have hfilter : (counted.filter fun line => line.digest == digest) = counted := by
    refine filter_eq_self.mpr ?_
    intro line hline
    exact beq_iff_eq.mpr (hdigest line hline)
  cases counted with
  | nil => exact .inl fun _ hmem => absurd hmem not_mem_nil
  | cons first rest =>
    rw [lastAutoRetirement, hfilter] at h
    dsimp only at h
    rw [foldl_widest] at h
    split_ifs at h with hdefault
    · left
      obtain ⟨hmemory, hdisk⟩ := mk.inj hdefault
      intro earlier hmem
      obtain ⟨line, hline, rfl⟩ := List.mem_map.mp hmem
      have hmemoryMem : line.room.availableMemoryBytes ∈
          (first :: rest).map fun line => line.room.availableMemoryBytes :=
        List.mem_map_of_mem hline
      have hdiskMem : line.room.freeDiskBytes ∈
          (first :: rest).map fun line => line.room.freeDiskBytes := List.mem_map_of_mem hline
      have hmemoryNone := (foldl_larger _ _).1 hmemory _ hmemoryMem
      have hdiskNone := (foldl_larger _ _).1 hdisk _ hdiskMem
      cases hroom : line.room with
      | mk memory disk =>
        rw [hroom] at hmemoryNone hdiskNone
        exact congrArg₂ mk hmemoryNone hdiskNone
    · right
      have hexceeds := h _ _ rfl
      rw [exceeds, Bool.or_eq_true] at hexceeds
      rcases hexceeds with hmore | hmore
      · left
        have habove := readsAbove_of_more hmore
        rw [List.map_map]
        exact habove
      · right
        have habove := readsAbove_of_more hmore
        rw [List.map_map]
        exact habove

def trailFile (product : String) (trail : List Retirement) : AuditFile :=
  ⟨trail.map fun line =>
    .entry ⟨some agentActor, some product, some line.digest, .named line.auditedAt, line.room⟩,
    false⟩

end Stado.Rollout
