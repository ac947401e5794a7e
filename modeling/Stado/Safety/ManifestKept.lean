import Stado.Queue.Machine
import Stado.Queue.Manifests

/-!
# Run manifests stay valid

Claiming, checkpointing and retaining each rewrite one entry of the manifest
they validated. What an entry is derived from is left alone, an ended entry is
not rewritten at all, and the state a claim or a checkpoint writes is not an
ended one; a retained outcome is valid when the retained job says it ended, in
the way of its prefix, between the run's creation and the recording.
-/

namespace Stado.Manifests

open Machine Option

/-! ## What validation says -/

section Checks

variable {α β : Type} {reason : String} {a : α}

theorem bind_eq_ok {x : Except StorageError α} {f : α → Except StorageError β} {b : β} :
    (x >>= f) = .ok b ↔ ∃ a, x = .ok a ∧ f a = .ok b := by
  cases x with
  | ok a => exact ⟨fun h => ⟨a, rfl, h⟩, fun ⟨_, ha, h⟩ => by cases ha; exact h⟩
  | error e => exact ⟨fun h => (by cases h), fun ⟨_, ha, _⟩ => (by cases ha)⟩

theorem refuseIf_eq_ok {condition : Bool} {u : Unit} :
    refuseIf condition reason = .ok u ↔ condition = false := by
  unfold refuseIf
  cases condition with
  | true => exact ⟨fun h => (by cases h), fun h => (by cases h)⟩
  | false => exact ⟨fun _ => rfl, fun _ => rfl⟩

theorem orRefuse_eq_ok {found : Option α} : orRefuse found reason = .ok a ↔ found = some a := by
  cases found with
  | none => exact ⟨fun h => (by cases h), fun h => (by cases h)⟩
  | some b => exact ⟨fun h => (by cases h; rfl), fun h => (by cases h; rfl)⟩

theorem readAs_eq_ok {what : String} {read : Except String α} :
    readAs what read = .ok a ↔ read = .ok a := by
  cases read with
  | ok b => exact ⟨fun h => (by cases h; rfl), fun h => (by cases h; rfl)⟩
  | error e => exact ⟨fun h => (by cases h), fun h => (by cases h)⟩

theorem toOption_eq_some {x : Except String α} : x.toOption = some a ↔ x = .ok a := by
  cases x with
  | ok b => exact ⟨fun h => (by cases h; rfl), fun h => (by cases h; rfl)⟩
  | error e => exact ⟨fun h => (by cases h), fun h => (by cases h)⟩

end Checks

def Entry.standing (entry : Entry) : Option EntryState := entry.state.bind EntryState.ofWord

section Validated

variable {Request Options Hardware : Type} [DecidableEq Request]
  {d : Derivation Request Options Hardware} {plan : Plan Options Hardware}
  {legacy : Option String} {now index : ℕ} {command : String} {hardware : Hardware}
  {entry : Entry} {validated : ManifestEntry} {all : List ManifestEntry} {index : ℕ}
  {rows : List (String × Hardware)} {entries : List Entry} {state : EntryState}
  {outcome : OutcomeField} {retained : Option Job} {job : Job} {other : Entry}

omit [DecidableEq Request] in
theorem validateEntry_eq_ok :
    validateEntry d plan legacy now index command hardware entry = .ok validated ↔
      derivedJob d plan legacy index command hardware entry = .ok validated.plannedJob ∧
      entry.standing = some validated.state ∧
      outcomeJob entry.outcome = .ok validated.outcomeJob ∧
      checkOutcome d plan now index validated.plannedJob validated.state validated.outcomeJob
        entry.outcome = .ok () := by
  unfold validateEntry Entry.standing
  simp only [bind_eq_ok, orRefuse_eq_ok, bind_eq_some_iff]
  constructor
  · rintro ⟨job, hjob, word, hword, state, hstate, retained, hretained, _, hcheck, heq⟩
    cases heq
    exact ⟨hjob, ⟨word, hword, hstate⟩, hretained, hcheck⟩
  · rintro ⟨hjob, ⟨word, hword, hstate⟩, hretained, hcheck⟩
    exact ⟨validated.plannedJob, hjob, word, hword, validated.state, hstate,
      validated.outcomeJob, hretained, (), hcheck, rfl⟩

omit [DecidableEq Request] in
theorem checkOutcome_standing (h : state.ended = false) :
    checkOutcome d plan now index job state retained outcome = .ok () ↔ retained = none := by
  unfold checkOutcome
  simp only [h, Bool.false_eq_true, if_false, refuseIf_eq_ok]
  cases retained <;> simp

omit [DecidableEq Request] in
theorem validateEntries_get {index i : ℕ}
    (h : validateEntries d plan legacy now index entries rows = .ok all)
    (hi : all[i]? = some validated) :
    ∃ entry command hardware, entries[i]? = some entry ∧ rows[i]? = some (command, hardware) ∧
      validateEntry d plan legacy now (index + i) command hardware entry = .ok validated := by
  induction entries generalizing index rows all i with
  | nil =>
    cases h
    cases hi
  | cons entry entries ih =>
    cases rows with
    | nil =>
      cases h
      cases hi
    | cons row rows =>
      obtain ⟨command, hardware⟩ := row
      simp only [validateEntries, bind_eq_ok] at h
      obtain ⟨first, hfirst, rest, hrest, heq⟩ := h
      cases heq
      cases i with
      | zero =>
        cases hi
        exact ⟨entry, command, hardware, rfl, rfl, hfirst⟩
      | succ i =>
        obtain ⟨found, c, hw, hentry, hrow, hvalid⟩ := ih hrest hi
        refine ⟨found, c, hw, hentry, hrow, ?_⟩
        rw [Nat.add_right_comm] at hvalid
        exact hvalid

omit [DecidableEq Request] in
theorem validateEntries_length (h : validateEntries d plan legacy now index entries rows = .ok all) :
    all.length = min entries.length rows.length := by
  induction entries generalizing index rows all with
  | nil =>
    cases h
    simp
  | cons entry entries ih =>
    cases rows with
    | nil =>
      cases h
      simp
    | cons row rows =>
      obtain ⟨command, hardware⟩ := row
      simp only [validateEntries, bind_eq_ok] at h
      obtain ⟨first, -, rest, hrest, heq⟩ := h
      cases heq
      rw [List.length_cons, List.length_cons, List.length_cons, ih hrest]
      omega

omit [DecidableEq Request] in
theorem validateEntries_ok_iff :
    (∃ all, validateEntries d plan legacy now index entries rows = .ok all) ↔
      ∀ i entry command hardware, entries[i]? = some entry → rows[i]? = some (command, hardware) →
        ∃ validated, validateEntry d plan legacy now (index + i) command hardware entry =
          .ok validated := by
  induction entries generalizing index rows with
  | nil => exact ⟨fun _ i entry _ _ h => by simp at h, fun _ => ⟨[], rfl⟩⟩
  | cons entry entries ih =>
    cases rows with
    | nil => exact ⟨fun _ i _ _ _ _ h => by simp at h, fun _ => ⟨[], rfl⟩⟩
    | cons row rows =>
      obtain ⟨command, hardware⟩ := row
      simp only [validateEntries, bind_eq_ok]
      constructor
      · rintro ⟨all, first, hfirst, rest, hrest, heq⟩ i other c hw hentry hrow
        cases i with
        | zero =>
          cases hentry
          cases hrow
          exact ⟨first, hfirst⟩
        | succ i =>
          obtain ⟨found, hfound⟩ := ih.mp ⟨rest, hrest⟩ i other c hw hentry hrow
          rw [Nat.add_right_comm] at hfound
          exact ⟨found, hfound⟩
      · intro h
        obtain ⟨first, hfirst⟩ := h 0 entry command hardware rfl rfl
        obtain ⟨rest, hrest⟩ := ih.mpr fun i other c hw hentry hrow => by
          obtain ⟨found, hfound⟩ := h (i + 1) other c hw hentry hrow
          rw [← Nat.add_assoc, Nat.add_right_comm] at hfound
          exact ⟨found, hfound⟩
        exact ⟨first :: rest, first, hfirst, rest, hrest, rfl⟩

/-- What `readPlan` takes from the manifest. -/
theorem readPlan_ok {m : Manifest Request} {runId requestDigest : String} {request : Request}
    (h : readPlan d m runId request requestDigest = .ok plan) :
    m.runId = some runId ∧ m.requestDigest = some requestDigest ∧ m.request = some request ∧
      m.schema = some "stado.run-submission.v3" ∧ plan.runId = runId ∧
      plan.hardware.length = plan.commands.length ∧
      ∃ text, m.createdAt = some text ∧ d.instant text = .ok plan.createdAt := by
  unfold readPlan at h
  simp only [bind_eq_ok, refuseIf_eq_ok, orRefuse_eq_ok] at h
  obtain ⟨_, hof, _, -, _, -, commands, -, texts, -, options, -, choices, -, hardware, -, rows, -,
    _, hrows, created, hcreated, by_, -, source, -, app, -, at_, hat, _, -, heq⟩ := h
  simp only [ne_eq, decide_eq_false_iff_not, not_or, not_not] at hof hrows
  cases heq
  exact ⟨hof.2.1, hof.2.2.1, hof.2.2.2, hof.1, rfl, hrows, created, hcreated,
    toOption_eq_some.mp hat⟩

/-- The two entries are derived from the same plan. -/
structure SamePlan (entry other : Entry) : Prop where
  commandIndex : other.commandIndex = entry.commandIndex
  command : other.command = entry.command
  jobKey : other.jobKey = entry.jobKey
  jobId : other.jobId = entry.jobId
  plannedJob : other.plannedJob = entry.plannedJob

omit [DecidableEq Request] in
theorem derivedJob_congr (h : SamePlan entry other) :
    derivedJob d plan legacy index command hardware other =
      derivedJob d plan legacy index command hardware entry := by
  unfold derivedJob
  rw [h.commandIndex, h.command, h.jobKey, h.jobId, h.plannedJob]

omit [DecidableEq Request] in
theorem derivedJob_ok (h : derivedJob d plan legacy index command hardware entry = .ok job) :
    entry.plannedJob = some (.ok job) := by
  unfold derivedJob at h
  simp only [bind_eq_ok, orRefuse_eq_ok, readAs_eq_ok] at h
  obtain ⟨_, -, planned, hplanned, read, hread, _, -, heq⟩ := h
  cases heq
  rw [hplanned, hread]

omit [DecidableEq Request] in
/-- An entry that has not ended may be given another state of that kind. -/
theorem validateEntry_standing
    (h : validateEntry d plan legacy now index command hardware entry = .ok validated)
    (hlast : validated.state.ended = false) (hplan : SamePlan entry other)
    (hstate : other.standing = some state) (hnext : state.ended = false)
    (houtcome : other.outcome = entry.outcome) :
    validateEntry d plan legacy now index command hardware other =
      .ok ⟨validated.plannedJob, state, none⟩ := by
  obtain ⟨hjob, -, hretained, hcheck⟩ := validateEntry_eq_ok.mp h
  have hnone : validated.outcomeJob = none := (checkOutcome_standing hlast).mp hcheck
  refine validateEntry_eq_ok.mpr ⟨?_, hstate, ?_, (checkOutcome_standing hnext).mpr rfl⟩
  · rw [derivedJob_congr hplan]
    exact hjob
  · rw [houtcome, hretained, hnone]

end Validated

/-! ## The condition -/

/-- The job ended in the way of its prefix, between the run's creation and
now. -/
def ended (toPrefix : Prefix) (job : Job) (createdAt now : ℕ) : Bool :=
  job.state = prefixState toPrefix &&
    match (endedAt toPrefix job).bind Stamp.read with
    | some at_ => createdAt ≤ at_ && at_ ≤ now
    | none => false

section Condition

variable {Request Options Hardware : Type}

def createdAt (d : Derivation Request Options Hardware) (m : Manifest Request) : Option ℕ :=
  m.createdAt.bind fun text => (d.instant text).toOption

def OutcomeField.isAbsent : OutcomeField → Bool
  | .absent => true
  | .notObject | .object _ => false

def awaited (m : Manifest Request) (job : Job) (toPrefix : Prefix) : Bool :=
  toPrefix.terminal && job.submission.runId ≠ "" && job.submission.submissionRequestDigest ≠ "" &&
    validRunId job.submission.runId &&
    match job.submission.submissionCommandIndex with
    | none => false
    | some index =>
      match m.entry index with
      | none => false
      | some entry =>
        entry.jobId = some job.jobId && entry.outcome.isAbsent &&
          match entry.plannedJob with
          | some (.ok planned) =>
            terminalJobMatchesEntry job planned job.submission.runId index
          | _ => false

/-- The condition on a step: a job whose outcome is still to be retained is one
that ended in the way of its prefix, after the run was created and by now. -/
def wellEnded (d : Derivation Request Options Hardware) (w : World Request) :
    Event Request → Bool
  | .decide client _ _ =>
    match w.clients client with
    | .deciding (.recordTerminalOutcome job toPrefix) read _ =>
      !awaited read job toPrefix ||
        (createdAt d read).any fun createdAt => ended toPrefix job createdAt w.clock
    | _ => true
  | _ => true

end Condition

section Kept

variable {Request Options Hardware : Type} [DecidableEq Request]
  {d : Derivation Request Options Hardware} {entry other : Entry} {plan : Plan Options Hardware}
  {legacy : Option String} {hardware : Hardware} {command : String} {planned job : Job}
  {now index : ℕ} {toPrefix : Prefix}

omit [DecidableEq Request] in
theorem terminalPrefix_asStr {p : Prefix} (h : p.terminal = true) :
    terminalPrefix p.asStr = some p := by
  cases p with
  | queue => cases h
  | running => cases h
  | _ => decide +kernel

omit [DecidableEq Request] in
theorem terminalOutcome_retained
    (hterminal : toPrefix.terminal = true) (hended : ended toPrefix job plan.createdAt now = true)
    (hmatches : terminalJobMatchesEntry job planned plan.runId index = true) :
    terminalOutcome d plan now index planned (some job) (retainedOutcome d job toPrefix now) =
      .ok () := by
  unfold ended at hended
  rw [Bool.and_eq_true, decide_eq_true_eq] at hended
  obtain ⟨hstate, hwithin⟩ := hended
  split at hwithin
  · next at_ hat =>
    rw [Bool.and_eq_true, decide_eq_true_eq, decide_eq_true_eq] at hwithin
    obtain ⟨stamp, hstamp, hread⟩ := bind_eq_some_iff.mp hat
    have hinstant : recordedInstant stamp "terminal retained job timestamp" = .ok at_ := by
      unfold recordedInstant
      rw [hread]
    unfold terminalOutcome retainedOutcome endedWithin recordedText
    simp only [bind_eq_ok, orRefuse_eq_ok, refuseIf_eq_ok]
    refine ⟨_, rfl, (), rfl, _, rfl, job, rfl, toPrefix, ?_, _, rfl, now, ?_, (), ?_, (),
      ⟨stamp, hstamp, at_, hinstant, ?_⟩, ?_⟩
    · rw [terminalPrefix_asStr hterminal, filter_some, decide_eq_true hstate]
      rfl
    · rw [d.instant_rfc3339]
    · simp only [decide_eq_false_iff_not]
      omega
    · simp only [decide_eq_false_iff_not]
      omega
    · simp only [hmatches, not_true_eq_false, decide_false]
  · cases hwithin

omit [DecidableEq Request] in
theorem validateEntry_retained {validated : ManifestEntry}
    (h : validateEntry d plan legacy now index command hardware entry = .ok validated)
    (hplan : SamePlan entry other) (hplanned : entry.plannedJob = some (.ok planned))
    (hstate : other.standing = some .terminal)
    (houtcome : other.outcome = retainedOutcome d job toPrefix now)
    (hterminal : toPrefix.terminal = true) (hended : ended toPrefix job plan.createdAt now = true)
    (hmatches : terminalJobMatchesEntry job planned plan.runId index = true) :
    validateEntry d plan legacy now index command hardware other =
      .ok ⟨planned, .terminal, some job⟩ := by
  obtain ⟨hjob, -⟩ := validateEntry_eq_ok.mp h
  have hsame : some (.ok planned : Except String Job) = some (.ok validated.plannedJob) :=
    hplanned.symm.trans (derivedJob_ok hjob)
  cases hsame
  refine validateEntry_eq_ok.mpr ⟨?_, hstate, ?_, ?_⟩
  · rw [derivedJob_congr hplan]
    exact hjob
  · rw [houtcome]
    rfl
  · rw [houtcome]
    exact terminalOutcome_retained hterminal hended hmatches

omit [DecidableEq Request] in
theorem terminalOutcome_mono {now later index : ℕ} (hle : now ≤ later)
    (h : terminalOutcome d plan now index job retained outcome = .ok ()) :
    terminalOutcome d plan later index job retained outcome = .ok () := by
  unfold terminalOutcome at h ⊢
  simp only [bind_eq_ok, orRefuse_eq_ok, refuseIf_eq_ok] at h ⊢
  obtain ⟨outcome, houtcome, _, hfields, word, hword, terminal, hterminal, p, hp, text, htext, at_,
    hat, _, hwithin, _, hended, hmatches⟩ := h
  refine ⟨outcome, houtcome, (), hfields, word, hword, terminal, hterminal, p, hp, text, htext,
    at_, hat, (), ?_, (), hended, hmatches⟩
  simp only [decide_eq_false_iff_not] at hwithin ⊢
  omega

omit [DecidableEq Request] in
theorem validateEntry_mono {now later index : ℕ} {validated : ManifestEntry} (hle : now ≤ later)
    (h : validateEntry d plan legacy now index command hardware entry = .ok validated) :
    validateEntry d plan legacy later index command hardware entry = .ok validated := by
  obtain ⟨hjob, hstate, hretained, hcheck⟩ := validateEntry_eq_ok.mp h
  refine validateEntry_eq_ok.mpr ⟨hjob, hstate, hretained, ?_⟩
  cases hended : validated.state.ended with
  | true =>
    simp only [checkOutcome, hended, if_true] at hcheck ⊢
    exact terminalOutcome_mono hle hcheck
  | false =>
    rw [checkOutcome_standing hended] at hcheck ⊢
    exact hcheck

/-! ## Accepted manifests -/

variable {runId : String} {request : Request} {requestDigest : String} {m : Manifest Request}
  {now : ℕ}

variable (d runId request requestDigest) in
def Accepted (m : Manifest Request) (now : ℕ) : Prop :=
  ∃ all, validateRunManifest d m runId request requestDigest now = .ok all

theorem accepted_iff : Accepted d runId request requestDigest m now ↔
    ∃ plan entries, readPlan d m runId request requestDigest = .ok plan ∧
      m.entries = some entries ∧ entries.length = plan.commands.length ∧
      (m.migratedFromV2RequestDigest.any fun digest => !lowercaseSha256Hex digest) = false ∧
      ∀ i entry command hardware, entries[i]? = some entry →
        (plan.commands.zip plan.hardware)[i]? = some (command, hardware) →
          ∃ validated, validateEntry d plan m.migratedFromV2RequestDigest now i command hardware
            entry = .ok validated := by
  unfold Accepted validateRunManifest
  simp only [bind_eq_ok, orRefuse_eq_ok, refuseIf_eq_ok]
  constructor
  · rintro ⟨all, plan, hplan, entries, hentries, _, hlength, _, hlegacy, hall⟩
    have heach := validateEntries_ok_iff.mp ⟨all, hall⟩
    simp only [Nat.zero_add] at heach
    simp only [ne_eq, decide_eq_false_iff_not, not_not] at hlength
    exact ⟨plan, entries, hplan, hentries, hlength, hlegacy, heach⟩
  · rintro ⟨plan, entries, hplan, hentries, hlength, hlegacy, heach⟩
    obtain ⟨all, hall⟩ := validateEntries_ok_iff.mpr fun i entry command hardware hentry hrow => by
      rw [Nat.zero_add]
      exact heach i entry command hardware hentry hrow
    refine ⟨all, plan, hplan, entries, hentries, (), ?_, (), hlegacy, hall⟩
    simp only [ne_eq, decide_eq_false_iff_not, not_not]
    exact hlength

theorem Accepted.mono {later : ℕ} (h : Accepted d runId request requestDigest m now)
    (hle : now ≤ later) : Accepted d runId request requestDigest m later := by
  obtain ⟨plan, entries, hplan, hentries, hlength, hlegacy, heach⟩ := accepted_iff.mp h
  refine accepted_iff.mpr ⟨plan, entries, hplan, hentries, hlength, hlegacy,
    fun i entry command hardware hentry hrow => ?_⟩
  obtain ⟨validated, hvalidated⟩ := heach i entry command hardware hentry hrow
  exact ⟨validated, validateEntry_mono hle hvalidated⟩

omit [DecidableEq Request] in
theorem entry_eq_some :
    m.entry index = some entry ↔ ∃ entries, m.entries = some entries ∧
      entries[index]? = some entry := by
  rw [Manifest.entry, bind_eq_some_iff]

theorem Accepted.setEntry (h : Accepted d runId request requestDigest m now)
    (hentry : m.entry index = some entry) (hvalid : ∀ plan command hardware validated,
      readPlan d m runId request requestDigest = .ok plan →
      validateEntry d plan m.migratedFromV2RequestDigest now index command hardware entry =
        .ok validated →
      ∃ validated', validateEntry d plan m.migratedFromV2RequestDigest now index command hardware
        other = .ok validated') :
    Accepted d runId request requestDigest (m.setEntry index other) now := by
  obtain ⟨plan, entries, hplan, hentries, hlength, hlegacy, heach⟩ := accepted_iff.mp h
  obtain ⟨found, hfound, hat⟩ := entry_eq_some.mp hentry
  rw [hentries] at hfound
  cases hfound
  refine accepted_iff.mpr ⟨plan, entries.set index other, hplan, ?_, ?_, hlegacy,
    fun i next command hardware hnext hrow => ?_⟩
  · rw [Manifest.setEntry, hentries]
    rfl
  · rw [List.length_set]
    exact hlength
  · by_cases hindex : index = i
    · subst hindex
      have hlt := (List.getElem?_eq_some_iff.mp hat).1
      rw [List.getElem?_set_self hlt] at hnext
      cases hnext
      obtain ⟨validated, hvalidated⟩ := heach index entry command hardware hat hrow
      exact hvalid plan command hardware validated hplan hvalidated
    · rw [List.getElem?_set_ne hindex] at hnext
      exact heach i next command hardware hnext hrow

theorem Accepted.validated
    (h : Accepted d runId request requestDigest m now) (hentry : m.entry index = some entry) :
    ∃ plan command hardware validated, readPlan d m runId request requestDigest = .ok plan ∧
      validateEntry d plan m.migratedFromV2RequestDigest now index command hardware entry =
        .ok validated := by
  obtain ⟨plan, entries, hplan, hentries, hlength, -, heach⟩ := accepted_iff.mp h
  obtain ⟨found, hfound, hat⟩ := entry_eq_some.mp hentry
  rw [hentries] at hfound
  cases hfound
  have hlt := (List.getElem?_eq_some_iff.mp hat).1
  have hsame : plan.hardware.length = plan.commands.length := (readPlan_ok hplan).2.2.2.2.2.1
  have hrow : index < (plan.commands.zip plan.hardware).length := by
    rw [List.length_zip]
    omega
  obtain ⟨validated, hvalidated⟩ := heach index entry _ _ hat (List.getElem?_eq_getElem hrow)
  exact ⟨plan, _, _, validated, hplan, hvalidated⟩

theorem validated_entry {validated : ManifestEntry}
    (h : validateRunManifest d m runId request requestDigest now = .ok all)
    (hat : all[index]? = some validated) (hentry : m.entry index = some entry) :
    ∃ plan command hardware, validateEntry d plan m.migratedFromV2RequestDigest now index command
      hardware entry = .ok validated := by
  unfold validateRunManifest at h
  simp only [bind_eq_ok, orRefuse_eq_ok] at h
  obtain ⟨plan, -, entries, hentries, _, -, _, -, hall⟩ := h
  obtain ⟨found, command, hardware, hfound, -, hvalid⟩ := validateEntries_get hall hat
  obtain ⟨others, hothers, hother⟩ := entry_eq_some.mp hentry
  rw [hentries] at hothers
  cases hothers
  rw [hfound] at hother
  cases hother
  rw [Nat.zero_add] at hvalid
  exact ⟨plan, command, hardware, hvalid⟩

/-! ## How an entry goes on -/

/-- An entry keeps its plan; one that has ended stays as it is, and one that is
accepted is accepted or ended. -/
structure Entry.Goes (entry later : Entry) : Prop where
  plan : SamePlan entry later
  ended : ∀ state, entry.standing = some state → state.ended = true → later = entry
  accepted : entry.standing = some .accepted →
    ∃ state, later.standing = some state ∧ (state = .accepted ∨ state.ended = true)

theorem Entry.Goes.refl (entry : Entry) : Entry.Goes entry entry :=
  ⟨⟨rfl, rfl, rfl, rfl, rfl⟩, fun _ _ _ => rfl, fun h => ⟨.accepted, h, .inl rfl⟩⟩

theorem Entry.Goes.trans {entry later last : Entry} (h : Entry.Goes entry later)
    (h' : Entry.Goes later last) : Entry.Goes entry last := by
  refine ⟨⟨?_, ?_, ?_, ?_, ?_⟩, fun state hstate hended => ?_, fun haccepted => ?_⟩
  · exact h'.plan.commandIndex.trans h.plan.commandIndex
  · exact h'.plan.command.trans h.plan.command
  · exact h'.plan.jobKey.trans h.plan.jobKey
  · exact h'.plan.jobId.trans h.plan.jobId
  · exact h'.plan.plannedJob.trans h.plan.plannedJob
  · have hsame := h.ended state hstate hended
    rw [← hsame] at hstate
    exact (h'.ended state hstate hended).trans hsame
  · obtain ⟨state, hstate, rfl | hended⟩ := h.accepted haccepted
    · exact h'.accepted hstate
    · rw [h'.ended state hstate hended]
      exact ⟨state, hstate, .inr hended⟩

def Keeps (m later : Manifest Request) : Prop :=
  ∀ index entry, m.entry index = some entry →
    ∃ entry', later.entry index = some entry' ∧ Entry.Goes entry entry'

omit [DecidableEq Request] in
theorem Keeps.refl (m : Manifest Request) : Keeps m m :=
  fun _ entry hentry => ⟨entry, hentry, Entry.Goes.refl entry⟩

omit [DecidableEq Request] in
theorem Keeps.trans {later last : Manifest Request} (h : Keeps m later) (h' : Keeps later last) :
    Keeps m last := by
  intro index entry hentry
  obtain ⟨entry', hentry', hgoes⟩ := h index entry hentry
  obtain ⟨entry'', hentry'', hgoes'⟩ := h' index entry' hentry'
  exact ⟨entry'', hentry'', hgoes.trans hgoes'⟩

omit [DecidableEq Request] in
theorem entry_setEntry_self
    (hentry : m.entry index = some entry) : (m.setEntry index other).entry index = some other := by
  obtain ⟨entries, hentries, hat⟩ := entry_eq_some.mp hentry
  refine entry_eq_some.mpr ⟨entries.set index other, ?_, ?_⟩
  · rw [Manifest.setEntry, hentries]
    rfl
  · exact List.getElem?_set_self (List.getElem?_eq_some_iff.mp hat).1

omit [DecidableEq Request] in
theorem entry_setEntry_ne {index other : ℕ} (h : index ≠ other) :
    (m.setEntry index entry).entry other = m.entry other := by
  unfold Manifest.entry Manifest.setEntry
  cases m.entries with
  | none => rfl
  | some entries =>
    change (entries.set index entry)[other]? = entries[other]?
    exact List.getElem?_set_ne h

variable {index : ℕ} {entry other : Entry}

omit [DecidableEq Request] in
theorem Keeps.setEntry (hentry : m.entry index = some entry)
    (h : Entry.Goes entry other) : Keeps m (m.setEntry index other) := by
  intro i found hfound
  by_cases hindex : index = i
  · subst hindex
    rw [hentry] at hfound
    cases hfound
    exact ⟨other, entry_setEntry_self hentry, h⟩
  · exact ⟨found, (entry_setEntry_ne hindex).trans hfound, Entry.Goes.refl found⟩

theorem goes_standing (hplan : SamePlan entry other) (hstate : entry.standing = some state)
    (hlast : state.ended = false) (haccepted : state ≠ .accepted) : Entry.Goes entry other := by
  refine ⟨hplan, fun found hfound hended => ?_, fun hfound => ?_⟩
  · rw [hstate] at hfound
    cases hfound
    rw [hlast] at hended
    cases hended
  · rw [hstate] at hfound
    cases hfound
    exact absurd rfl haccepted

theorem exists_validated (h : validateRunManifest d m runId request requestDigest now = .ok all)
    (hentry : m.entry index = some entry) : ∃ validated, all[index]? = some validated := by
  unfold validateRunManifest at h
  simp only [bind_eq_ok, orRefuse_eq_ok, refuseIf_eq_ok] at h
  obtain ⟨plan, hplan, entries, hentries, _, hlength, _, -, hall⟩ := h
  simp only [ne_eq, decide_eq_false_iff_not, not_not] at hlength
  obtain ⟨others, hothers, hat⟩ := entry_eq_some.mp hentry
  rw [hentries] at hothers
  cases hothers
  have hlt := (List.getElem?_eq_some_iff.mp hat).1
  have hsame : plan.hardware.length = plan.commands.length := (readPlan_ok hplan).2.2.2.2.2.1
  have hall := validateEntries_length hall
  rw [List.length_zip] at hall
  have hindex : index < all.length := by omega
  exact ⟨_, List.getElem?_eq_getElem hindex⟩

/-! ## What the operations write -/

/-- An entry that is neither accepted nor ended is rewritten under its plan and
in a state that is not ended. -/
theorem rewritten {state state' : EntryState} (h : Accepted d runId request requestDigest m now)
    (hentry : m.entry index = some entry) (hstate : entry.standing = some state)
    (haccepted : state ≠ .accepted) (hended : state.ended = false) (hplan : SamePlan entry other)
    (hnext : other.standing = some state') (hopen : state'.ended = false)
    (houtcome : other.outcome = entry.outcome) :
    Accepted d runId request requestDigest (m.setEntry index other) now ∧
      Keeps m (m.setEntry index other) := by
  refine ⟨h.setEntry hentry fun plan command hardware validated _ hvalid => ?_,
    Keeps.setEntry hentry (goes_standing hplan hstate hended haccepted)⟩
  obtain ⟨-, hstanding, -⟩ := validateEntry_eq_ok.mp hvalid
  rw [hstate] at hstanding
  cases hstanding
  exact ⟨_, validateEntry_standing hvalid hended hplan hnext hopen houtcome⟩

variable {ctx : SubmissionContext Request} {index : ℕ} {s : Surroundings}
  {next : Manifest Request} {current : ManifestEntry}

theorem claimEntry_swap (h : claimEntry d ctx index s m = .swap next) :
    (∃ all, validateRunManifest d m ctx.runId ctx.request ctx.requestDigest s.now = .ok all) ∧
    ∃ entry state, m.entry index = some entry ∧ entry.standing = some state ∧
      state ≠ .accepted ∧ state.ended = false ∧
      next = m.setEntry index (entry.claimedBy ctx.owner s.process) := by
  unfold claimEntry at h
  split at h
  · cases h
  · next all hall =>
    split at h
    · next current entry hcurrent hentry =>
      obtain ⟨plan, command, hardware, hvalid⟩ := validated_entry hall hcurrent hentry
      obtain ⟨-, hstate, -⟩ := validateEntry_eq_ok.mp hvalid
      split at h
      · cases h
      · next haccepted =>
        split at h
        · split at h <;> cases h
        · next hended =>
          split at h
          · cases h
          · cases h
            exact ⟨⟨all, hall⟩, entry, current.state, hentry, hstate, haccepted,
              Bool.eq_false_iff.mpr hended, rfl⟩
    · cases h

omit [DecidableEq Request] in
@[simp] theorem standing_claimedBy (entry : Entry) (owner : String) (process : Process) :
    (entry.claimedBy owner process).standing = some .claimed :=
  EntryState.ofWord_word .claimed

@[simp] theorem standing_enqueued (entry : Entry) : entry.enqueued.standing = some .enqueuing :=
  EntryState.ofWord_word .enqueuing

@[simp] theorem standing_acceptedAs (entry : Entry) (now : String) :
    (entry.acceptedAs now).standing = some .accepted :=
  EntryState.ofWord_word .accepted

@[simp] theorem standing_endedWith (entry : Entry) (outcome : OutcomeField) :
    (entry.endedWith outcome).standing = some .terminal :=
  EntryState.ofWord_word .terminal

theorem samePlan_claimedBy (entry : Entry) (owner : String) (process : Process) :
    SamePlan entry (entry.claimedBy owner process) := ⟨rfl, rfl, rfl, rfl, rfl⟩

theorem samePlan_enqueued (entry : Entry) : SamePlan entry entry.enqueued :=
  ⟨rfl, rfl, rfl, rfl, rfl⟩

theorem samePlan_acceptedAs (entry : Entry) (now : String) :
    SamePlan entry (entry.acceptedAs now) := ⟨rfl, rfl, rfl, rfl, rfl⟩

theorem samePlan_endedWith (entry : Entry) (outcome : OutcomeField) :
    SamePlan entry (entry.endedWith outcome) := ⟨rfl, rfl, rfl, rfl, rfl⟩

omit [DecidableEq Request] in
theorem enqueuing_setEntry (hentry : m.entry index = some entry) :
    enqueuing index (m.setEntry index other) = m.setEntry index other.enqueued := by
  unfold enqueuing
  rw [entry_setEntry_self hentry]
  simp only [Manifest.setEntry, Option.map_map]
  congr 1
  cases m.entries with
  | none => rfl
  | some entries => simp only [map_some, Function.comp_apply, List.set_set]

theorem claimEntry_keeps (h : claimEntry d ctx index s m = .swap next)
    (haccepted : Accepted d runId request requestDigest m s.now) :
    (Accepted d runId request requestDigest next s.now ∧ Keeps m next) ∧
      Accepted d runId request requestDigest (enqueuing index next) s.now ∧
      Keeps next (enqueuing index next) := by
  obtain ⟨-, entry, state, hentry, hstate, hopen, hended, rfl⟩ := claimEntry_swap h
  have hclaimed := rewritten haccepted hentry hstate hopen hended (samePlan_claimedBy _ _ _)
    (standing_claimedBy _ ctx.owner s.process) rfl rfl
  refine ⟨hclaimed, ?_⟩
  have htaken := rewritten hclaimed.1 (entry_setEntry_self hentry) (standing_claimedBy _ _ _)
    (by decide) rfl (samePlan_enqueued _) (standing_enqueued _) rfl rfl
  unfold enqueuing
  rw [entry_setEntry_self hentry]
  exact htaken

omit [DecidableEq Request] in
theorem setEntry_self (hentry : m.entry index = some entry) : m.setEntry index entry = m := by
  obtain ⟨entries, hentries, hat⟩ := entry_eq_some.mp hentry
  obtain ⟨hlt, hget⟩ := List.getElem?_eq_some_iff.mp hat
  cases m with
  | mk schema runId requestDigest request obsolete createdAt submittedBy submittedFrom
      submitterApp sourceDigest inputDigest migrated entries' =>
      simp only at hentries
      subst hentries
      simp only [Manifest.setEntry, map_some, ← hget, List.set_getElem_self]

theorem claimEntry_own
    (hall : validateRunManifest d m ctx.runId ctx.request ctx.requestDigest s.now = .ok all)
    (hcurrent : all[index]? = some current) (hentry : m.entry index = some entry)
    (hstate : current.state = .enqueuing) (howner : entry.owner = some ctx.owner) :
    claimEntry d ctx index s m =
      .swap (m.setEntry index (entry.claimedBy ctx.owner s.process)) := by
  have hfree : heldByAnother d ctx.owner s current.state entry = none := by
    unfold heldByAnother
    rw [howner]
    simp
  unfold claimEntry
  simp only [hall, hcurrent, hentry, hfree]
  rw [hstate]
  rfl

/-- Claiming an entry again for the same process leaves it as the first claim
did. -/
theorem claimEntry_again {s' : Surroundings} (h : claimEntry d ctx index s m = .swap next)
    (haccepted : Accepted d ctx.runId ctx.request ctx.requestDigest (enqueuing index next) s'.now)
    (hprocess : s'.process = s.process) :
    ∃ again, claimEntry d ctx index s' (enqueuing index next) = .swap again ∧
      enqueuing index again = enqueuing index next := by
  obtain ⟨-, entry, state, hentry, -, -, -, rfl⟩ := claimEntry_swap h
  rw [enqueuing_setEntry hentry] at haccepted ⊢
  have htaken : (m.setEntry index (entry.claimedBy ctx.owner s.process).enqueued).entry index =
      some (entry.claimedBy ctx.owner s.process).enqueued := entry_setEntry_self hentry
  obtain ⟨all, hall⟩ := haccepted
  obtain ⟨current, hcurrent⟩ := exists_validated hall htaken
  obtain ⟨plan, command, hardware, hvalid⟩ := validated_entry hall hcurrent htaken
  obtain ⟨-, hstate, -⟩ := validateEntry_eq_ok.mp hvalid
  rw [standing_enqueued] at hstate
  have hstate : current.state = .enqueuing := (Option.some.inj hstate).symm
  refine ⟨_, claimEntry_own hall hcurrent htaken hstate rfl, ?_⟩
  rw [enqueuing_setEntry htaken, hprocess]
  exact setEntry_self htaken

/-! ## Operations that have come to rest -/

structure RetainedAt (runId : String) (index : ℕ) (job : Job) (toPrefix : Prefix)
    (entry : Entry) : Prop where
  jobId : entry.jobId = some job.jobId
  planned : ∃ planned, entry.plannedJob = some (.ok planned) ∧
    terminalJobMatchesEntry job planned runId index = true
  ended : ∃ state, entry.standing = some state ∧ state.ended = true
  outcome : entry.state = some EntryState.reaped.word ∨ ∃ outcome, entry.outcome = .object outcome ∧
    outcome.toPrefix = some toPrefix.asStr ∧ outcome.job = some (.ok job)

variable (d runId request requestDigest) in
/-- The operation has nothing left to do about the manifest, and never will. -/
def Settled (op : Operation Request) (m : Manifest Request) : Prop :=
  match op with
  | .claimEntry ctx index | .checkpointAccepted ctx index _ =>
    (ctx.runId = runId ∧ ctx.request = request ∧ ctx.requestDigest = requestDigest) ∧
      ∃ entry state, m.entry index = some entry ∧ entry.standing = some state ∧
        (state = .accepted ∨ state.ended = true)
  | .recordTerminalOutcome job toPrefix =>
    toPrefix.terminal = true ∧
    (job.submission.submissionCommandIndex = none ∨ job.submission.runId = "" ∨
      job.submission.submissionRequestDigest = "" ∨
      (validRunId job.submission.runId = true ∧ job.submission.runId = runId ∧
        d.digestValue request = requestDigest ∧
        ∃ index entry, job.submission.submissionCommandIndex = some index ∧
          m.entry index = some entry ∧ RetainedAt runId index job toPrefix entry))

omit [DecidableEq Request] in
theorem Settled.keeps {op : Operation Request} {later : Manifest Request}
    (h : Settled d runId request requestDigest op m) (hkeeps : Keeps m later) :
    Settled d runId request requestDigest op later := by
  have hstands : ∀ index, (∃ entry state, m.entry index = some entry ∧
      entry.standing = some state ∧ (state = .accepted ∨ state.ended = true)) →
      ∃ entry state, later.entry index = some entry ∧ entry.standing = some state ∧
        (state = .accepted ∨ state.ended = true) := by
    rintro index ⟨entry, state, hentry, hstate, hstands⟩
    obtain ⟨entry', hentry', hgoes⟩ := hkeeps index entry hentry
    rcases hstands with rfl | hended
    · obtain ⟨state', hstate', hstands'⟩ := hgoes.accepted hstate
      exact ⟨entry', state', hentry', hstate', hstands'⟩
    · rw [hgoes.ended state hstate hended] at hentry'
      exact ⟨entry, state, hentry', hstate, .inr hended⟩
  cases op with
  | claimEntry ctx index => exact ⟨h.1, hstands index h.2⟩
  | checkpointAccepted ctx index jobId => exact ⟨h.1, hstands index h.2⟩
  | recordTerminalOutcome job toPrefix =>
    refine ⟨h.1, ?_⟩
    rcases h.2 with hnone | hrun | hdigest | ⟨hvalid, hof, hsame, index, entry, hindex, hentry,
      hretained⟩
    · exact .inl hnone
    · exact .inr (.inl hrun)
    · exact .inr (.inr (.inl hdigest))
    · obtain ⟨entry', hentry', hgoes⟩ := hkeeps index entry hentry
      obtain ⟨state, hstate, hended⟩ := hretained.ended
      rw [hgoes.ended state hstate hended] at hentry'
      exact .inr (.inr (.inr ⟨hvalid, hof, hsame, index, entry, hindex, hentry', hretained⟩))

/-- The answers that leave nothing to do. -/
def Answer.final : Answer → Bool
  | .accepted _ | .terminal _ | .checkpointed | .retained | .skipped => true
  | .owned _ | .refused _ | .failed => false

/-- The decision stores nothing and refuses nothing. -/
def Decision.settles : Decision Request → Prop
  | .ends answer => answer.final = true
  | .found => True
  | .swap _ => False

theorem known_of_validated {runId' : String} {request' : Request}
    {requestDigest' : String} (h : Accepted d runId request requestDigest m now)
    (hall : validateRunManifest d m runId' request' requestDigest' now = .ok all) :
    runId' = runId ∧ request' = request ∧ requestDigest' = requestDigest := by
  obtain ⟨plan, entries, hplan, -⟩ := accepted_iff.mp h
  obtain ⟨plan', entries', hplan', -⟩ := accepted_iff.mp ⟨all, hall⟩
  obtain ⟨hrun, hdigest, hrequest, -⟩ := readPlan_ok hplan
  obtain ⟨hrun', hdigest', hrequest', -⟩ := readPlan_ok hplan'
  rw [hrun] at hrun'
  rw [hdigest] at hdigest'
  rw [hrequest] at hrequest'
  cases hrun'
  cases hdigest'
  cases hrequest'
  exact ⟨rfl, rfl, rfl⟩

/-- The entry at an index stands in one of the states a submission is done
with. -/
def StandsDone (m : Manifest Request) (index : ℕ) : Prop :=
  ∃ entry state, m.entry index = some entry ∧ entry.standing = some state ∧
    (state = .accepted ∨ state.ended = true)

theorem standsDone_of_validated
    (hall : validateRunManifest d m runId request requestDigest now = .ok all)
    (hcurrent : all[index]? = some current) (hentry : m.entry index = some entry)
    (hdone : current.state = .accepted ∨ current.state.ended = true) : StandsDone m index := by
  obtain ⟨plan, command, hardware, hvalid⟩ := validated_entry hall hcurrent hentry
  obtain ⟨-, hstate, -⟩ := validateEntry_eq_ok.mp hvalid
  exact ⟨entry, current.state, hentry, hstate, hdone⟩

theorem claimEntry_ends {answer : Answer} (h : claimEntry d ctx index s m = .ends answer)
    (hfinal : answer.final = true) :
    (∃ all, validateRunManifest d m ctx.runId ctx.request ctx.requestDigest s.now = .ok all) ∧
      StandsDone m index := by
  unfold claimEntry at h
  split at h
  · cases h
    cases hfinal
  · next all hall =>
    split at h
    · next current entry hcurrent hentry =>
      split at h
      · next haccepted =>
        exact ⟨⟨all, hall⟩, standsDone_of_validated hall hcurrent hentry (.inl haccepted)⟩
      · split at h
        · next hended =>
          exact ⟨⟨all, hall⟩, standsDone_of_validated hall hcurrent hentry (.inr hended)⟩
        · split at h
          · cases h
            cases hfinal
          · cases h
    · cases h
      cases hfinal

theorem checkpointAccepted_ends {jobId : String} {answer : Answer}
    (h : checkpointAccepted d ctx index jobId s m = .ends answer) (hfinal : answer.final = true) :
    (∃ all, validateRunManifest d m ctx.runId ctx.request ctx.requestDigest s.now = .ok all) ∧
      StandsDone m index := by
  unfold checkpointAccepted at h
  split at h
  · cases h
    cases hfinal
  · next all hall =>
    split at h
    · next current entry hcurrent hentry =>
      split at h
      · next hdone =>
        exact ⟨⟨all, hall⟩, standsDone_of_validated hall hcurrent hentry hdone⟩
      · split at h
        · cases h
          cases hfinal
        · cases h
    · cases h
      cases hfinal

theorem checkpointAccepted_swap {jobId : String}
    (h : checkpointAccepted d ctx index jobId s m = .swap next) :
    (∃ all, validateRunManifest d m ctx.runId ctx.request ctx.requestDigest s.now = .ok all) ∧
    ∃ entry state, m.entry index = some entry ∧ entry.standing = some state ∧
      state ≠ .accepted ∧ state.ended = false ∧
      next = m.setEntry index (entry.acceptedAs (d.rfc3339 s.now)) := by
  unfold checkpointAccepted at h
  split at h
  · cases h
  · next all hall =>
    split at h
    · next current entry hcurrent hentry =>
      obtain ⟨plan, command, hardware, hvalid⟩ := validated_entry hall hcurrent hentry
      obtain ⟨-, hstate, -⟩ := validateEntry_eq_ok.mp hvalid
      split at h
      · cases h
      · next hdone =>
        split at h
        · cases h
        · cases h
          rw [not_or, Bool.not_eq_true] at hdone
          exact ⟨⟨all, hall⟩, entry, current.state, hentry, hstate, hdone.1, hdone.2, rfl⟩
    · cases h

theorem checkpointAccepted_keeps {jobId : String}
    (h : checkpointAccepted d ctx index jobId s m = .swap next)
    (haccepted : Accepted d runId request requestDigest m s.now) :
    (Accepted d runId request requestDigest next s.now ∧ Keeps m next) ∧
      Settled d runId request requestDigest (.checkpointAccepted ctx index jobId) next := by
  obtain ⟨⟨all, hall⟩, entry, state, hentry, hstate, hopen, hended, rfl⟩ :=
    checkpointAccepted_swap h
  refine ⟨rewritten haccepted hentry hstate hopen hended (samePlan_acceptedAs _ _)
    (standing_acceptedAs _ _) rfl rfl, known_of_validated haccepted hall, ?_⟩
  exact ⟨_, .accepted, entry_setEntry_self hentry, standing_acceptedAs _ _, .inl rfl⟩

/-! ## Retention -/

variable {job : Job} {toPrefix : Prefix}

theorem stored_ok (h : validateStoredRunManifest d m runId now = .ok ()) :
    ∃ request all, m.request = some request ∧
      validateRunManifest d m runId request (d.digestValue request) now = .ok all := by
  unfold validateStoredRunManifest at h
  simp only [bind_eq_ok, orRefuse_eq_ok] at h
  obtain ⟨request, hrequest, all, hall, -⟩ := h
  exact ⟨request, all, hrequest, hall⟩

/-- What a retention read when it stores an outcome. -/
structure Retaining (d : Derivation Request Options Hardware) (runId : String) (index : ℕ)
    (job : Job) (now : ℕ) (m : Manifest Request) (entry : Entry) (planned : Job) : Prop where
  stored : validateStoredRunManifest d m runId now = .ok ()
  entry_eq : m.entry index = some entry
  jobId : entry.jobId = some job.jobId
  planned_eq : entry.plannedJob = some (.ok planned)
  linked : terminalJobMatchesEntry job planned runId index = true

variable (d m s job toPrefix) in
theorem retainAt_cases :
    (∃ answer, retainAt d runId index job toPrefix s m = .ends answer ∧ answer.final = false) ∨
    (∃ entry planned, Retaining d runId index job s.now m entry planned ∧
      retainAt d runId index job toPrefix s m = .found ∧
      (entry.state = some EntryState.reaped.word ∨ ∃ outcome, entry.outcome = .object outcome ∧
        outcome.toPrefix = some toPrefix.asStr ∧ outcome.job = some (.ok job))) ∨
    ∃ entry planned, Retaining d runId index job s.now m entry planned ∧
      entry.outcome = .absent ∧ retainAt d runId index job toPrefix s m =
        .swap (m.setEntry index (entry.endedWith (retainedOutcome d job toPrefix s.now))) := by
  unfold retainAt
  split
  · exact .inl ⟨_, rfl, rfl⟩
  · next hstored =>
    split
    · exact .inl ⟨_, rfl, rfl⟩
    · split
      · exact .inl ⟨_, rfl, rfl⟩
      · next entry hentry =>
        split
        · exact .inl ⟨_, rfl, rfl⟩
        · next hjob =>
          split
          · exact .inl ⟨_, rfl, rfl⟩
          · exact .inl ⟨_, rfl, rfl⟩
          · next planned hplanned =>
            split
            · exact .inl ⟨_, rfl, rfl⟩
            · next hlinked =>
              have hread : Retaining d runId index job s.now m entry planned :=
                ⟨hstored, hentry, not_not.mp hjob, hplanned, not_not.mp hlinked⟩
              split
              · next hreaped =>
                exact .inr (.inl ⟨entry, planned, hread, rfl, .inl hreaped⟩)
              · split
                · next houtcome =>
                  exact .inr (.inr ⟨entry, planned, hread, houtcome, rfl⟩)
                · exact .inl ⟨_, rfl, rfl⟩
                · next outcome houtcome =>
                  split
                  · exact .inl ⟨_, rfl, rfl⟩
                  · next existing hexisting =>
                    split
                    · next hsame =>
                      obtain ⟨hstem, rfl⟩ := hsame
                      exact .inr (.inl ⟨entry, planned, hread, rfl,
                        .inr ⟨outcome, houtcome, hstem, hexisting⟩⟩)
                    · exact .inl ⟨_, rfl, rfl⟩
                  · exact .inl ⟨_, rfl, rfl⟩

section

variable (h : Accepted d runId request requestDigest m now)

include h

theorem Accepted.open_of_absent (hentry : m.entry index = some entry)
    (houtcome : entry.outcome = .absent) :
    ∃ state, entry.standing = some state ∧ state.ended = false := by
  obtain ⟨plan, command, hardware, validated, -, hvalid⟩ := h.validated hentry
  obtain ⟨-, hstate, -, hcheck⟩ := validateEntry_eq_ok.mp hvalid
  refine ⟨validated.state, hstate, ?_⟩
  cases hended : validated.state.ended with
  | false => rfl
  | true =>
    simp only [checkOutcome, hended, if_true, houtcome, terminalOutcome, bind_eq_ok,
      orRefuse_eq_ok] at hcheck
    obtain ⟨outcome, hobject, -⟩ := hcheck
    cases hobject

theorem Accepted.ended_of_object {outcome : Outcome} (hentry : m.entry index = some entry)
    (houtcome : entry.outcome = .object outcome) (hjob : outcome.job = some (.ok job)) :
    ∃ state, entry.standing = some state ∧ state.ended = true := by
  obtain ⟨plan, command, hardware, validated, -, hvalid⟩ := h.validated hentry
  obtain ⟨-, hstate, hretained, hcheck⟩ := validateEntry_eq_ok.mp hvalid
  refine ⟨validated.state, hstate, ?_⟩
  cases hended : validated.state.ended with
  | true => rfl
  | false =>
    have hnone : validated.outcomeJob = none := (checkOutcome_standing hended).mp hcheck
    have hsome : outcomeJob entry.outcome = .ok (some job) := by
      simp only [outcomeJob, houtcome, OutcomeField.object?, bind_some, hjob]
      rfl
    rw [hsome, hnone] at hretained
    cases hretained

theorem known_of_stored (hstored : validateStoredRunManifest d m job.submission.runId now = .ok ()) :
    job.submission.runId = runId ∧ d.digestValue request = requestDigest := by
  obtain ⟨request', all, -, hall⟩ := stored_ok hstored
  obtain ⟨hrun, hrequest, hdigest⟩ := known_of_validated h hall
  exact ⟨hrun, hrequest ▸ hdigest⟩

end

theorem Retaining.settled (h : Retaining d job.submission.runId index job now m entry planned)
    (haccepted : Accepted d runId request requestDigest m now)
    (hterminal : toPrefix.terminal = true)
    (hindex : job.submission.submissionCommandIndex = some index)
    (hvalid : validRunId job.submission.runId = true)
    (houtcome : entry.state = some EntryState.reaped.word ∨ ∃ outcome,
      entry.outcome = .object outcome ∧ outcome.toPrefix = some toPrefix.asStr ∧
        outcome.job = some (.ok job)) :
    Settled d runId request requestDigest (.recordTerminalOutcome job toPrefix) m := by
  obtain ⟨hrun, hdigest⟩ := known_of_stored haccepted h.stored
  refine ⟨hterminal, .inr (.inr (.inr ⟨hvalid, hrun, hdigest, index, entry, hindex,
    h.entry_eq, h.jobId, ⟨planned, h.planned_eq, hrun ▸ h.linked⟩, ?_, houtcome⟩))⟩
  rcases houtcome with hreaped | ⟨outcome, hobject, -, hjob⟩
  · refine ⟨.reaped, ?_, rfl⟩
    rw [Entry.standing, hreaped]
    exact EntryState.ofWord_word .reaped
  · exact haccepted.ended_of_object h.entry_eq hobject hjob

/-- A retention of a job that ended well keeps the manifest valid. -/
theorem Retaining.keeps (h : Retaining d job.submission.runId index job now m entry planned)
    (haccepted : Accepted d runId request requestDigest m now)
    (hterminal : toPrefix.terminal = true) (habsent : entry.outcome = .absent)
    (hended : (createdAt d m).any (fun createdAt => ended toPrefix job createdAt now) = true) :
    Accepted d runId request requestDigest
        (m.setEntry index (entry.endedWith (retainedOutcome d job toPrefix now))) now ∧
      Keeps m (m.setEntry index (entry.endedWith (retainedOutcome d job toPrefix now))) := by
  obtain ⟨hrun, -⟩ := known_of_stored haccepted h.stored
  obtain ⟨state, hstate, hopen⟩ := haccepted.open_of_absent h.entry_eq habsent
  constructor
  · refine haccepted.setEntry h.entry_eq fun plan command hardware validated hplan hvalid => ?_
    obtain ⟨-, -, -, -, hplanRun, -, text, htext, hat⟩ := readPlan_ok hplan
    have hcreated : createdAt d m = some plan.createdAt := by
      rw [createdAt, htext, bind_some, hat]
      rfl
    rw [hcreated, any_some] at hended
    refine ⟨_, validateEntry_retained hvalid (samePlan_endedWith _ _) h.planned_eq
      (standing_endedWith _ _) rfl hterminal hended ?_⟩
    rw [hplanRun, ← hrun]
    exact h.linked
  · refine Keeps.setEntry h.entry_eq ⟨samePlan_endedWith _ _, fun found hfound hfoundEnded => ?_,
      fun _ => ⟨.terminal, standing_endedWith _ _, .inr rfl⟩⟩
    rw [hstate] at hfound
    cases hfound
    rw [hopen] at hfoundEnded
    cases hfoundEnded

variable (d m s job toPrefix) in
/-- A record that is neither refused nor skipped is a retention at the job's
index. -/
theorem recordTerminalOutcome_cases :
    (∃ answer, recordTerminalOutcome d job toPrefix s m = .ends answer ∧ answer.final = false) ∨
    (recordTerminalOutcome d job toPrefix s m = .ends .skipped ∧ toPrefix.terminal = true ∧
      (job.submission.submissionCommandIndex = none ∨ job.submission.runId = "" ∨
        job.submission.submissionRequestDigest = "")) ∨
    ∃ index, job.submission.submissionCommandIndex = some index ∧ toPrefix.terminal = true ∧
      job.submission.runId ≠ "" ∧ job.submission.submissionRequestDigest ≠ "" ∧
      validRunId job.submission.runId = true ∧
      recordTerminalOutcome d job toPrefix s m =
        retainAt d job.submission.runId index job toPrefix s m := by
  unfold recordTerminalOutcome
  split
  · exact .inl ⟨_, rfl, rfl⟩
  · next hterminal =>
    have hterminal := not_not.mp hterminal
    split
    · next hnone => exact .inr (.inl ⟨rfl, hterminal, .inl hnone⟩)
    · next index hindex =>
      split
      · next hempty => exact .inr (.inl ⟨rfl, hterminal, .inr hempty⟩)
      · next hlinked =>
        rw [not_or] at hlinked
        split
        · exact .inl ⟨_, rfl, rfl⟩
        · next hvalid =>
          exact .inr (.inr ⟨index, hindex, hterminal, hlinked.1, hlinked.2,
            not_not.mp hvalid, rfl⟩)

omit [DecidableEq Request] in
theorem awaited_of_entry (hterminal : toPrefix.terminal = true)
    (hindex : job.submission.submissionCommandIndex = some index)
    (hrun : job.submission.runId ≠ "") (hdigest : job.submission.submissionRequestDigest ≠ "")
    (hvalid : validRunId job.submission.runId = true) (hentry : m.entry index = some entry)
    (hjob : entry.jobId = some job.jobId) (hplanned : entry.plannedJob = some (.ok planned))
    (hlinked : terminalJobMatchesEntry job planned job.submission.runId index = true)
    (habsent : entry.outcome = .absent) : awaited m job toPrefix = true := by
  unfold awaited
  rw [hindex]
  simp only [hterminal, hvalid, hentry, hplanned, hlinked, hjob, habsent, OutcomeField.isAbsent,
    ne_eq, hrun, hdigest, not_false_eq_true, decide_true, Bool.and_true]

variable (d runId request requestDigest) in
/-- What a swap prepares: the second swap of a claim, or the end of the other
operations. -/
def After (op : Operation Request) (next : Manifest Request) (now : ℕ) : Prop :=
  match op with
  | .claimEntry _ index =>
    Accepted d runId request requestDigest (enqueuing index next) now ∧
      Keeps next (enqueuing index next)
  | .checkpointAccepted _ _ _ | .recordTerminalOutcome _ _ =>
    Settled d runId request requestDigest op next

theorem recordTerminalOutcome_swap (h : recordTerminalOutcome d job toPrefix s m = .swap next)
    (haccepted : Accepted d runId request requestDigest m s.now)
    (hended : awaited m job toPrefix = true →
      (createdAt d m).any (fun createdAt => ended toPrefix job createdAt s.now) = true) :
    (Accepted d runId request requestDigest next s.now ∧ Keeps m next) ∧
      Settled d runId request requestDigest (.recordTerminalOutcome job toPrefix) next := by
  rcases recordTerminalOutcome_cases d m s job toPrefix with
    ⟨answer, heq, -⟩ | ⟨heq, -⟩ | ⟨index, hindex, hterminal, hrun, hdigest, hvalid, heq⟩
  · rw [heq] at h
    cases h
  · rw [heq] at h
    cases h
  · rw [heq] at h
    rcases retainAt_cases d m s job toPrefix with
      ⟨answer, heq, -⟩ | ⟨entry, planned, -, heq, -⟩ | ⟨entry, planned, hread, habsent, heq⟩
    · rw [heq] at h
      cases h
    · rw [heq] at h
      cases h
    · rw [heq] at h
      cases h
      have hawaited := hended (awaited_of_entry hterminal hindex hrun hdigest hvalid hread.entry_eq
        hread.jobId hread.planned_eq hread.linked habsent)
      have hkept := hread.keeps haccepted hterminal habsent hawaited
      refine ⟨hkept, ?_⟩
      obtain ⟨hof, hsame⟩ := known_of_stored haccepted hread.stored
      refine ⟨hterminal, .inr (.inr (.inr ⟨hvalid, hof, hsame, index, _, hindex,
        entry_setEntry_self hread.entry_eq, ?_⟩))⟩
      exact ⟨hread.jobId, ⟨planned, hread.planned_eq, hof ▸ hread.linked⟩,
        ⟨.terminal, standing_endedWith _ _, rfl⟩, .inr ⟨_, rfl, rfl, rfl⟩⟩

variable {op : Operation Request}

theorem decide_swap (h : op.decide d s m = .swap next)
    (haccepted : Accepted d runId request requestDigest m s.now)
    (hended : ∀ job toPrefix, op = .recordTerminalOutcome job toPrefix →
      awaited m job toPrefix = true →
        (createdAt d m).any (fun createdAt => ended toPrefix job createdAt s.now) = true) :
    (Accepted d runId request requestDigest next s.now ∧ Keeps m next) ∧
      After d runId request requestDigest op next s.now := by
  cases op with
  | claimEntry ctx index => exact claimEntry_keeps h haccepted
  | checkpointAccepted ctx index jobId => exact checkpointAccepted_keeps h haccepted
  | recordTerminalOutcome job toPrefix =>
    exact recordTerminalOutcome_swap h haccepted (hended job toPrefix rfl)

theorem recordTerminalOutcome_settled (h : (recordTerminalOutcome d job toPrefix s m).settles)
    (haccepted : Accepted d runId request requestDigest m s.now) :
    Settled d runId request requestDigest (.recordTerminalOutcome job toPrefix) m := by
  rcases recordTerminalOutcome_cases d m s job toPrefix with
    ⟨answer, heq, hfinal⟩ | ⟨-, hterminal, hskipped⟩ |
    ⟨index, hindex, hterminal, hrun, hdigest, hvalid, heq⟩
  · rw [heq] at h
    exact absurd h (by rw [Decision.settles, hfinal]; simp)
  · rcases hskipped with hnone | hrun | hdigest
    · exact ⟨hterminal, .inl hnone⟩
    · exact ⟨hterminal, .inr (.inl hrun)⟩
    · exact ⟨hterminal, .inr (.inr (.inl hdigest))⟩
  · rw [heq] at h
    rcases retainAt_cases d m s job toPrefix with
      ⟨answer, heq, hfinal⟩ | ⟨entry, planned, hread, -, houtcome⟩ | ⟨_, _, -, -, heq⟩
    · rw [heq] at h
      exact absurd h (by rw [Decision.settles, hfinal]; simp)
    · exact hread.settled haccepted hterminal hindex hvalid houtcome
    · rw [heq] at h
      exact h.elim

/-- An operation that stores nothing and is not refused has nothing left to
do. -/
theorem settled_of_settles (h : (op.decide d s m).settles)
    (haccepted : Accepted d runId request requestDigest m s.now) :
    Settled d runId request requestDigest op m := by
  cases op with
  | claimEntry ctx index =>
    change (claimEntry d ctx index s m).settles at h
    cases heq : claimEntry d ctx index s m with
    | ends answer =>
      rw [heq] at h
      obtain ⟨⟨all, hall⟩, hdone⟩ := claimEntry_ends heq h
      exact ⟨known_of_validated haccepted hall, hdone⟩
    | found =>
      unfold claimEntry at heq
      split at heq
      · cases heq
      · split at heq
        · split at heq
          · cases heq
          · split at heq
            · split at heq <;> cases heq
            · split at heq <;> cases heq
        · cases heq
    | swap next =>
      rw [heq] at h
      exact h.elim
  | checkpointAccepted ctx index jobId =>
    change (checkpointAccepted d ctx index jobId s m).settles at h
    cases heq : checkpointAccepted d ctx index jobId s m with
    | ends answer =>
      rw [heq] at h
      obtain ⟨⟨all, hall⟩, hdone⟩ := checkpointAccepted_ends heq h
      exact ⟨known_of_validated haccepted hall, hdone⟩
    | found =>
      unfold checkpointAccepted at heq
      split at heq
      · cases heq
      · split at heq
        · split at heq
          · cases heq
          · split at heq <;> cases heq
        · cases heq
    | swap next =>
      rw [heq] at h
      exact h.elim
  | recordTerminalOutcome job toPrefix => exact recordTerminalOutcome_settled h haccepted

omit [DecidableEq Request] in
theorem outcomeJob_of_ended {validated : ManifestEntry}
    (h : validateEntry d plan legacy now index command hardware entry = .ok validated)
    (hended : validated.state.ended = true) : ∃ job, validated.outcomeJob = some job := by
  obtain ⟨-, -, -, hcheck⟩ := validateEntry_eq_ok.mp h
  simp only [checkOutcome, hended, if_true, terminalOutcome, bind_eq_ok, orRefuse_eq_ok] at hcheck
  obtain ⟨_, -, _, -, _, -, job, hjob, -⟩ := hcheck
  exact ⟨job, hjob⟩

theorem StandsDone.validated (h : StandsDone m index)
    (hall : validateRunManifest d m runId request requestDigest now = .ok all) :
    ∃ current entry, all[index]? = some current ∧ m.entry index = some entry ∧
      (current.state = .accepted ∨
        current.state.ended = true ∧ ∃ job, current.outcomeJob = some job) := by
  obtain ⟨entry, state, hentry, hstate, hdone⟩ := h
  obtain ⟨current, hcurrent⟩ := exists_validated hall hentry
  obtain ⟨plan, command, hardware, hvalid⟩ := validated_entry hall hcurrent hentry
  have hstanding := (validateEntry_eq_ok.mp hvalid).2.1
  rw [hstate] at hstanding
  cases hstanding
  refine ⟨current, entry, hcurrent, hentry, ?_⟩
  rcases hdone with haccepted | hended
  · exact .inl haccepted
  · exact .inr ⟨hended, outcomeJob_of_ended hvalid hended⟩

theorem claimEntry_settles (haccepted : Accepted d ctx.runId ctx.request ctx.requestDigest m s.now)
    (hdone : StandsDone m index) : (claimEntry d ctx index s m).settles := by
  obtain ⟨all, hall⟩ := haccepted
  obtain ⟨current, entry, hcurrent, hentry, hstate⟩ := hdone.validated hall
  unfold claimEntry
  simp only [hall, hcurrent, hentry]
  rcases hstate with hstate | ⟨hended, job, hjob⟩
  · rw [if_pos hstate]
    exact rfl
  · by_cases hstate : current.state = .accepted
    · rw [if_pos hstate]
      exact rfl
    · rw [if_neg hstate, if_pos hended, hjob]
      exact rfl

theorem checkpointAccepted_settles {jobId : String}
    (haccepted : Accepted d ctx.runId ctx.request ctx.requestDigest m s.now)
    (hdone : StandsDone m index) : (checkpointAccepted d ctx index jobId s m).settles := by
  obtain ⟨all, hall⟩ := haccepted
  obtain ⟨current, entry, hcurrent, hentry, hstate⟩ := hdone.validated hall
  unfold checkpointAccepted
  simp only [hall, hcurrent, hentry]
  rw [if_pos (hstate.imp_right And.left)]
  exact rfl

theorem retainAt_found (haccepted : Accepted d runId request (d.digestValue request) m s.now)
    (hentry : m.entry index = some entry) (hretained : RetainedAt runId index job toPrefix entry) :
    retainAt d runId index job toPrefix s m = .found := by
  obtain ⟨all, hall⟩ := haccepted
  obtain ⟨plan, entries, hplan, -⟩ := accepted_iff.mp ⟨all, hall⟩
  obtain ⟨-, -, hrequest, hschema, -⟩ := readPlan_ok hplan
  have hstored : validateStoredRunManifest d m runId s.now = .ok () := by
    unfold validateStoredRunManifest
    simp only [bind_eq_ok, orRefuse_eq_ok]
    exact ⟨request, hrequest, all, hall, trivial⟩
  obtain ⟨planned, hplanned, hlinked⟩ := hretained.planned
  unfold retainAt
  simp only [hstored, hschema, hentry, hretained.jobId, hplanned, hlinked, ne_eq,
    not_true_eq_false, if_false]
  rcases hretained.outcome with hreaped | ⟨outcome, hobject, hstem, hjob⟩
  · rw [if_pos hreaped]
  · split
    · rfl
    · simp only [hobject, hjob, hstem, and_self, if_true]

theorem settles_of_settled (h : Settled d runId request requestDigest op m)
    (haccepted : Accepted d runId request requestDigest m s.now) : (op.decide d s m).settles := by
  cases op with
  | claimEntry ctx index =>
    obtain ⟨⟨hrun, hrequest, hdigest⟩, hdone⟩ := h
    rw [← hrun, ← hrequest, ← hdigest] at haccepted
    exact claimEntry_settles haccepted hdone
  | checkpointAccepted ctx index jobId =>
    obtain ⟨⟨hrun, hrequest, hdigest⟩, hdone⟩ := h
    rw [← hrun, ← hrequest, ← hdigest] at haccepted
    exact checkpointAccepted_settles haccepted hdone
  | recordTerminalOutcome job toPrefix =>
    obtain ⟨hterminal, hcases⟩ := h
    change (recordTerminalOutcome d job toPrefix s m).settles
    unfold recordTerminalOutcome
    rw [if_neg (not_not.mpr hterminal)]
    split
    · exact rfl
    · next index hindex =>
      split
      · exact rfl
      · next hlinked =>
        rw [not_or] at hlinked
        rcases hcases with hnone | hrun | hdigest |
          ⟨hvalid, hrun, hdigest, at_, entry, hat, hentry, hretained⟩
        · rw [hnone] at hindex
          cases hindex
        · exact absurd hrun hlinked.1
        · exact absurd hdigest hlinked.2
        · rw [hindex] at hat
          cases hat
          rw [if_neg (not_not.mpr hvalid)]
          subst hdigest
          rw [← hrun] at haccepted hretained
          rw [retainAt_found haccepted hentry hretained]
          trivial

/-! ## Clients -/

variable {w w' : World Request} {client : ℕ}

variable (d runId request requestDigest) in
/-- What a client relies on. A manifest it is to swap in follows the stored one
as long as that has the version the client read. -/
def Phase.Sound (w : World Request) : Phase Request → Prop
  | .idle => True
  | .reading op => op.runId = runId
  | .deciding op read version =>
    op.runId = runId ∧ version ≤ w.version ∧ (version = w.version → read = w.manifest) ∧
      Accepted d runId request requestDigest read w.clock ∧ Keeps read w.manifest
  | .swapping op next version =>
    op.runId = runId ∧ version ≤ w.version ∧ (version = w.version →
      (Accepted d runId request requestDigest next w.clock ∧ Keeps w.manifest next) ∧
        After d runId request requestDigest op next w.clock)
  | .taking op next version =>
    op.runId = runId ∧ version ≤ w.version ∧ (version = w.version →
      Accepted d runId request requestDigest next w.clock ∧ Keeps w.manifest next)
  | .indexing op => op.runId = runId ∧ Settled d runId request requestDigest op w.manifest
  | .done op answer =>
    op.runId = runId ∧ (answer.final = true → Settled d runId request requestDigest op w.manifest)

variable (d runId request requestDigest) in
structure Sound (w : World Request) : Prop where
  run : w.runId = runId
  accepted : Accepted d runId request requestDigest w.manifest w.clock
  clients : ∀ client, (w.clients client).Sound d runId request requestDigest w

theorem After.mono {later : ℕ} (h : After d runId request requestDigest op next now)
    (hle : now ≤ later) : After d runId request requestDigest op next later := by
  cases op with
  | claimEntry ctx index => exact ⟨h.1.mono hle, h.2⟩
  | _ => exact h

theorem Phase.Sound.later {phase : Phase Request} {ticks : ℕ}
    (h : phase.Sound d runId request requestDigest w) :
    phase.Sound d runId request requestDigest { w with clock := w.clock + ticks } := by
  have hle : w.clock ≤ w.clock + ticks := Nat.le_add_right _ _
  cases phase with
  | idle => trivial
  | reading op => exact h
  | deciding op read version => exact ⟨h.1, h.2.1, h.2.2.1, h.2.2.2.1.mono hle, h.2.2.2.2⟩
  | swapping op next version =>
    refine ⟨h.1, h.2.1, fun hversion => ?_⟩
    obtain ⟨⟨haccepted, hkeeps⟩, hafter⟩ := h.2.2 hversion
    exact ⟨⟨haccepted.mono hle, hkeeps⟩, hafter.mono hle⟩
  | taking op next version =>
    refine ⟨h.1, h.2.1, fun hversion => ?_⟩
    obtain ⟨haccepted, hkeeps⟩ := h.2.2 hversion
    exact ⟨haccepted.mono hle, hkeeps⟩
  | _ => exact h

/-- What a client relies on survives what another one stores. -/
theorem Phase.Sound.store {phase : Phase Request} (hkeeps : Keeps w.manifest next)
    (h : phase.Sound d runId request requestDigest w) :
    phase.Sound d runId request requestDigest (w.store next) := by
  have hle : w.version < (w.store next).version := Nat.lt_succ_self _
  cases phase with
  | idle => trivial
  | reading op => exact h
  | deciding op read version =>
    obtain ⟨hrun, hversion, -, haccepted, hread⟩ := h
    exact ⟨hrun, Nat.le_trans hversion (Nat.le_of_lt hle), fun heq => absurd heq (by omega), haccepted,
      hread.trans hkeeps⟩
  | swapping op next version =>
    exact ⟨h.1, Nat.le_trans h.2.1 (Nat.le_of_lt hle), fun heq => absurd heq (by have := h.2.1; omega)⟩
  | taking op next version =>
    exact ⟨h.1, Nat.le_trans h.2.1 (Nat.le_of_lt hle), fun heq => absurd heq (by have := h.2.1; omega)⟩
  | indexing op => exact ⟨h.1, h.2.keeps hkeeps⟩
  | done op answer => exact ⟨h.1, fun hfinal => (h.2 hfinal).keeps hkeeps⟩

section

variable (h : Sound d runId request requestDigest w)

include h

theorem Sound.move {phase : Phase Request} (hphase : phase.Sound d runId request requestDigest w) :
    Sound d runId request requestDigest (w.move client phase) := by
  refine ⟨h.run, h.accepted, fun other => ?_⟩
  by_cases hother : other = client
  · subst hother
    have hself : (w.move other phase).clients other = phase := Function.update_self ..
    rw [hself]
    cases phase <;> exact hphase
  · have hsame : (w.move client phase).clients other = w.clients other :=
      Function.update_of_ne hother ..
    rw [hsame]
    have hsound := h.clients other
    revert hsound
    cases w.clients other <;> exact fun hsound => hsound

theorem Sound.store (haccepted : Accepted d runId request requestDigest next w.clock)
    (hkeeps : Keeps w.manifest next) : Sound d runId request requestDigest (w.store next) :=
  ⟨h.run, haccepted, fun client => (h.clients client).store hkeeps⟩

theorem Sound.indexed (op : Operation Request) :
    Sound d runId request requestDigest (indexed w op) := by
  have hretained : ∀ retained, Sound d runId request requestDigest { w with retained } := by
    intro retained
    refine ⟨h.run, h.accepted, fun client => ?_⟩
    have hsound := h.clients client
    revert hsound
    change _ → (w.clients client).Sound d runId request requestDigest _
    cases w.clients client <;> exact fun hsound => hsound
  cases op with
  | claimEntry ctx index => exact h
  | checkpointAccepted ctx index jobId => exact h
  | recordTerminalOutcome job toPrefix =>
    simp only [Manifests.indexed]
    split
    · exact h
    · exact hretained _

theorem Sound.swapped {version : ℕ}
    (hclient : (Phase.swapping op next version).Sound d runId request requestDigest w)
    (hversion : version = w.version) :
    Sound d runId request requestDigest (swapped (w.store next) client op next) := by
  obtain ⟨⟨haccepted, hkeeps⟩, hafter⟩ := hclient.2.2 hversion
  have hstored := h.store haccepted hkeeps
  cases op with
  | claimEntry ctx index => exact hstored.move ⟨hclient.1, Nat.le_refl _, fun _ => hafter⟩
  | checkpointAccepted ctx index jobId => exact hstored.move ⟨hclient.1, fun _ => hafter⟩
  | recordTerminalOutcome job toPrefix => exact hstored.move ⟨hclient.1, hafter⟩

theorem Sound.taken {version : ℕ}
    (hclient : (Phase.taking op next version).Sound d runId request requestDigest w)
    (hversion : version = w.version) :
    Sound d runId request requestDigest (taken (w.store next) client op next) := by
  obtain ⟨haccepted, hkeeps⟩ := hclient.2.2 hversion
  have hstored := h.store haccepted hkeeps
  have hfail : ∀ answer : Answer, answer.final = false →
      Sound d runId request requestDigest ((w.store next).move client (.done op answer)) :=
    fun answer hanswer => hstored.move ⟨hclient.1, fun hfinal => by
      rw [hanswer] at hfinal
      cases hfinal⟩
  unfold Manifests.taken
  split
  · split
    · exact hfail _ rfl
    · exact hfail _ rfl
  · exact hfail _ rfl
  · exact hfail _ rfl

theorem Sound.failed (hrun : op.runId = runId) :
    Sound d runId request requestDigest (w.move client (.done op .failed)) :=
  h.move ⟨hrun, fun hfinal => by cases hfinal⟩

variable {event : Event Request}

theorem Sound.decided {process : Process} {ownerState : Process → OwnerState}
    (hevent : event = .decide client process ownerState) (hended : wellEnded d w event = true)
    (hstep : step d w event = some w') : Sound d runId request requestDigest w' := by
  subst hevent
  have hclient := h.clients client
  simp only [step] at hstep
  split at hstep
  · next op read version hphase =>
    rw [hphase] at hclient
    obtain ⟨hrun, hle, hsame, haccepted, hkeeps⟩ := hclient
    have hsettles : ∀ decision : Decision Request, decision.settles →
        op.decide d ⟨w.clock, process, ownerState⟩ read = decision →
          Settled d runId request requestDigest op w.manifest := by
      intro decision hsettles heq
      rw [← heq] at hsettles
      exact (settled_of_settles hsettles haccepted).keeps hkeeps
    split at hstep
    · next answer heq =>
      cases hstep
      exact h.move ⟨hrun, fun hfinal => hsettles (.ends answer) hfinal heq⟩
    · next heq =>
      cases hstep
      exact h.move ⟨hrun, hsettles .found trivial heq⟩
    · next next heq =>
      cases hstep
      refine h.move ⟨hrun, hle, fun hversion => ?_⟩
      rw [← hsame hversion]
      refine decide_swap heq haccepted fun job toPrefix hop hawaited => ?_
      subst hop
      simp only [wellEnded, hphase, hawaited, Bool.not_true, Bool.false_or] at hended
      exact hended
  · cases hstep

/-- A swap stores the manifest its client prepared, if nobody stored another
one since, or it has no effect. -/
theorem Sound.swapStep {reply : Reply} (hstep : step d w (.swap client reply) = some w') :
    Sound d runId request requestDigest w' := by
  have hclient := h.clients client
  simp only [step] at hstep
  split at hstep
  · next op next version hphase =>
    rw [hphase] at hclient
    have hlost : version = w.version → Sound d runId request requestDigest
        ((w.store next).move client (.done op .failed)) := fun hversion =>
      (h.store (hclient.2.2 hversion).1.1 (hclient.2.2 hversion).1.2).failed hclient.1
    cases reply with
    | failed =>
      cases hstep
      exact h.failed hclient.1
    | answered =>
      simp only at hstep
      split at hstep
      · next hversion =>
        cases hstep
        exact h.swapped hclient hversion
      · cases hstep
        exact h.move hclient.1
    | lost =>
      simp only at hstep
      split at hstep
      · next hversion =>
        cases hstep
        exact hlost hversion
      · cases hstep
        exact h.move hclient.1
  · next op next version hphase =>
    rw [hphase] at hclient
    have hlost : version = w.version → Sound d runId request requestDigest
        ((w.store next).move client (.done op .failed)) := fun hversion =>
      (h.store (hclient.2.2 hversion).1 (hclient.2.2 hversion).2).failed hclient.1
    cases reply with
    | failed =>
      cases hstep
      exact h.failed hclient.1
    | answered =>
      simp only at hstep
      split at hstep
      · next hversion =>
        cases hstep
        exact h.taken hclient hversion
      · cases hstep
        exact h.move hclient.1
    | lost =>
      simp only at hstep
      split at hstep
      · next hversion =>
        cases hstep
        exact hlost hversion
      · cases hstep
        exact h.move hclient.1
  · cases hstep

theorem Sound.step (hended : wellEnded d w event = true)
    (hstep : Manifests.step d w event = some w') : Sound d runId request requestDigest w' := by
  cases event with
  | wait ticks =>
    cases hstep
    exact ⟨h.run, h.accepted.mono (Nat.le_add_right _ _), fun client => (h.clients client).later⟩
  | call client op =>
    simp only [Manifests.step] at hstep
    split at hstep
    · split at hstep
      · next hrun =>
        cases hstep
        exact h.move (hrun.trans h.run)
      · cases hstep
    · split at hstep
      · next hrun =>
        cases hstep
        exact h.move (hrun.trans h.run)
      · cases hstep
    · cases hstep
  | read client =>
    have hclient := h.clients client
    simp only [Manifests.step] at hstep
    split at hstep
    · next op hphase =>
      rw [hphase] at hclient
      cases hstep
      exact h.move ⟨hclient, Nat.le_refl _, fun _ => rfl, h.accepted, Keeps.refl _⟩
    · cases hstep
  | unread client =>
    have hclient := h.clients client
    simp only [Manifests.step] at hstep
    split at hstep
    · next op hphase =>
      rw [hphase] at hclient
      cases hstep
      exact h.failed hclient
    · cases hstep
  | decide client process ownerState => exact h.decided rfl hended hstep
  | swap client reply => exact h.swapStep hstep
  | index client reply =>
    have hclient := h.clients client
    simp only [Manifests.step] at hstep
    split at hstep
    · next op hphase =>
      rw [hphase] at hclient
      have hindexed := h.indexed op
      have hmanifest : (Manifests.indexed w op).manifest = w.manifest := by
        cases op with
        | claimEntry ctx index => rfl
        | checkpointAccepted ctx index jobId => rfl
        | recordTerminalOutcome job toPrefix =>
          simp only [Manifests.indexed]
          split <;> rfl
      cases reply with
      | answered =>
        cases hstep
        refine hindexed.move ⟨hclient.1, fun _ => ?_⟩
        rw [hmanifest]
        exact hclient.2
      | lost =>
        cases hstep
        exact hindexed.failed hclient.1
      | failed =>
        cases hstep
        exact h.failed hclient.1
    · cases hstep

theorem keeps_step (hstep : step d w event = some w') : Keeps w.manifest w'.manifest := by
  have hsame : Keeps w.manifest w.manifest := Keeps.refl _
  cases event with
  | wait ticks =>
    cases hstep
    exact hsame
  | call client op =>
    simp only [step] at hstep
    split at hstep
    · split at hstep <;> cases hstep
      exact hsame
    · split at hstep <;> cases hstep
      exact hsame
    · cases hstep
  | read client =>
    simp only [step] at hstep
    split at hstep <;> cases hstep
    exact hsame
  | unread client =>
    simp only [step] at hstep
    split at hstep <;> cases hstep
    exact hsame
  | decide client process ownerState =>
    simp only [step] at hstep
    split at hstep
    · split at hstep <;> cases hstep <;> exact hsame
    · cases hstep
  | swap client reply =>
    have hclient := h.clients client
    simp only [step] at hstep
    split at hstep
    · next op next version hphase =>
      rw [hphase] at hclient
      have hswapped : (swapped (w.store next) client op next).manifest = next := by
        cases op <;> rfl
      cases reply with
      | failed =>
        cases hstep
        exact hsame
      | answered =>
        simp only at hstep
        split at hstep
        · next hversion =>
          cases hstep
          rw [hswapped]
          exact (hclient.2.2 hversion).1.2
        · cases hstep
          exact hsame
      | lost =>
        simp only at hstep
        split at hstep
        · next hversion =>
          cases hstep
          exact (hclient.2.2 hversion).1.2
        · cases hstep
          exact hsame
    · next op next version hphase =>
      rw [hphase] at hclient
      have htaken : (taken (w.store next) client op next).manifest = next := by
        unfold taken
        split
        · split <;> rfl
        · rfl
        · rfl
      cases reply with
      | failed =>
        cases hstep
        exact hsame
      | answered =>
        simp only at hstep
        split at hstep
        · next hversion =>
          cases hstep
          rw [htaken]
          exact (hclient.2.2 hversion).2
        · cases hstep
          exact hsame
      | lost =>
        simp only at hstep
        split at hstep
        · next hversion =>
          cases hstep
          exact (hclient.2.2 hversion).2
        · cases hstep
          exact hsame
    · cases hstep
  | index client reply =>
    simp only [step] at hstep
    split at hstep
    · next op hphase =>
      have hindexed : (indexed w op).manifest = w.manifest := by
        cases op with
        | claimEntry ctx index => rfl
        | checkpointAccepted ctx index jobId => rfl
        | recordTerminalOutcome job toPrefix =>
          simp only [indexed]
          split <;> rfl
      cases reply with
      | answered =>
        cases hstep
        change Keeps w.manifest (indexed w op).manifest
        rw [hindexed]
        exact hsame
      | lost =>
        cases hstep
        change Keeps w.manifest (indexed w op).manifest
        rw [hindexed]
        exact hsame
      | failed =>
        cases hstep
        exact hsame
    · cases hstep

end

/-! ## The law -/

variable (d) in
/-- The steps of a run meet the condition. -/
def WellEnded (w : World Request) (event : Event Request) : Prop := wellEnded d w event = true

instance decidableWellEnded (d : Derivation Request Options Hardware) :
    ∀ w event, Decidable (WellEnded d w event) :=
  fun w event => inferInstanceAs (Decidable (wellEnded d w event = true))

theorem sound_of_reaches (h : Reaches (step d) (WellEnded d) w w')
    (hw : Sound d runId request requestDigest w) : Sound d runId request requestDigest w' :=
  h.invariant hw fun _ _ _ hsound hmet hnext => hsound.step hmet hnext

theorem keeps_of_reaches (h : Reaches (step d) (WellEnded d) w w')
    (hw : Sound d runId request requestDigest w) : Keeps w.manifest w'.manifest := by
  induction h with
  | refl => exact Keeps.refl _
  | tail hrun hmet hnext ih => exact ih.trans (keeps_step (sound_of_reaches hrun hw) hnext)

variable (d runId request requestDigest) in
structure ManifestKept (w : World Request) : Prop where
  /-- The stored manifest is accepted. -/
  accepted : Accepted d runId request requestDigest w.manifest w.clock
  /-- An operation that ended well, asked again, stores nothing and is not
  refused. -/
  again : ∀ client op answer, w.clients client = .done op answer → answer.final = true →
    ∀ process ownerState, (op.decide d ⟨w.clock, process, ownerState⟩ w.manifest).settles
  /-- A claim that takes its entry twice for one process takes it as it did. -/
  claimed : ∀ ctx index process ownerState ownerState' ticks next,
    claimEntry d ctx index ⟨w.clock, process, ownerState⟩ w.manifest = .swap next →
      ∃ again, claimEntry d ctx index ⟨w.clock + ticks, process, ownerState'⟩
          (enqueuing index next) = .swap again ∧
        enqueuing index again = enqueuing index next

theorem Sound.manifestKept (h : Sound d runId request requestDigest w) :
    ManifestKept d runId request requestDigest w := by
  refine ⟨h.accepted, fun client op answer hdone hfinal process ownerState => ?_,
    fun ctx index process ownerState ownerState' ticks next hswap => ?_⟩
  · have hclient := h.clients client
    rw [hdone] at hclient
    exact settles_of_settled (hclient.2 hfinal) h.accepted
  · obtain ⟨⟨all, hall⟩, -⟩ := claimEntry_swap hswap
    obtain ⟨hrun, hrequest, hdigest⟩ := known_of_validated h.accepted hall
    have hnext := (claimEntry_keeps hswap h.accepted).2.1
    rw [← hrun, ← hrequest, ← hdigest] at hnext
    exact claimEntry_again hswap (hnext.mono (Nat.le_add_right _ _)) rfl

theorem sound_start {clock : ℕ} (h : Accepted d runId request requestDigest m clock) :
    Sound d runId request requestDigest (.start runId m clock) :=
  ⟨rfl, h, fun _ => trivial⟩

/-- From any accepted manifest, in every run in which a job whose outcome is
still to be retained ended in the way of its prefix between the run's creation
and the recording: the stored manifest is accepted, every entry keeps its job
id and an ended one stays as it is, and what is asked again changes nothing. -/
theorem manifest_kept {clock : ℕ} (hstart : Accepted d runId request requestDigest m clock)
    (hrun : Reaches (step d) (WellEnded d) (.start runId m clock) w) :
    ManifestKept d runId request requestDigest w ∧
      ∀ w', Reaches (step d) (WellEnded d) w w' → Keeps w.manifest w'.manifest := by
  have hsound := sound_of_reaches hrun (sound_start hstart)
  exact ⟨hsound.manifestKept, fun _ hrest => keeps_of_reaches hrest hsound⟩

end Kept

/-! ## A job from the future -/

def unary : Derivation (List String) Unit Unit where
  digestValue _ := "d"
  schema _ := some "stado.submission-request.v3"
  commands request := some (request.map some)
  options _ := some (.ok ())
  resolvedHardware request := some (.ok (request.map fun _ => ()))
  submissionSourceDigest _ := "source"
  submissionInputDigest _ _ := "input"
  submissionJobKey digest _ command := digest ++ command
  jobIdFromKey key := "job-" ++ key
  buildPlannedJob command _ jobId _ provenance :=
    { bareFields jobId with
      submission :=
        { (bareFields jobId).submission with
          command := command
          createdAt := provenance.createdAt
          runId := "r" }
      state := .queued }
  instant text := .ok text.toList.length
  rfc3339 now := String.ofList (List.replicate now '0')
  instant_rfc3339 now := by simp

def memberJob : Job :=
  { bareFields "job-dmake" with
    submission :=
      { (bareFields "job-dmake").submission with
        command := "make"
        createdAt := "0"
        runId := "r"
        submissionRequestDigest := "d"
        submissionCommandIndex := some 0 }
    state := .queued }

def oneEntry : Manifest (List String) where
  schema := some "stado.run-submission.v3"
  runId := some "r"
  requestDigest := some "d"
  request := some ["make"]
  obsolete := []
  createdAt := some "0"
  submittedBy := some "user"
  submittedFrom := some "host"
  submitterApp := some "app"
  sourceDigest := some "source"
  inputDigest := some "input"
  migratedFromV2RequestDigest := none
  entries := some [
    { commandIndex := some 0
      command := some "make"
      jobKey := some "dmake"
      jobId := some "job-dmake"
      plannedJob := some (.ok memberJob)
      state := some "planned"
      owner := none
      ownerHost := none
      ownerPid := none
      leaseExpiresAt := none
      acceptedAt := none
      outcome := .absent }]

def completedAt (at_ : ℕ) : Job :=
  { memberJob with completedAt := some (.instant at_), state := .completed }

def submission : SubmissionContext (List String) := ⟨"r", ["make"], "d", "submission:d"⟩

/-- Client 0 runs an operation, up to `n` swaps of it. -/
def running (op : Operation (List String)) (n : ℕ) : List (Event (List String)) :=
  [.call 0 op, .read 0, .decide 0 ⟨"host", 1⟩ fun _ => .gone] ++
    List.replicate n (.swap 0 .answered)

/-- The run is submitted and its job retained at instant 3, completed at
another. -/
def retaining (at_ : ℕ) : List (Event (List String)) :=
  running (.claimEntry submission 0) 2 ++
    running (.checkpointAccepted submission 0 "job-dmake") 1 ++ [.wait 2] ++
    running (.recordTerminalOutcome (completedAt at_) .completed) 1 ++ [.index 0 .answered]

theorem accepted_oneEntry : Accepted unary "r" ["make"] "d" oneEntry 1 := by
  have hok : (validateRunManifest unary oneEntry "r" ["make"] "d" 1).toOption.isSome = true := by
    decide +kernel
  obtain ⟨all, hall⟩ := isSome_iff_exists.mp hok
  cases heq : validateRunManifest unary oneEntry "r" ["make"] "d" 1 with
  | ok all' => exact ⟨all', heq⟩
  | error e =>
    rw [heq] at hall
    cases hall

def firstState (w : World (List String)) : Option String :=
  (w.manifest.entry 0).bind Entry.state

theorem retained_in_time : ∃ w, ManifestKept unary "r" ["make"] "d" w ∧
    firstState w = some "terminal" ∧ w.retained = [("job-dmake", "r")] := by
  have hrun : ∃ w, Reaches (step unary) (WellEnded unary) (.start "r" oneEntry 1) w ∧
      decide (firstState w = some "terminal" ∧ w.retained = [("job-dmake", "r")]) = true :=
    exists_reaches (retaining 2) _ (by decide +kernel)
  obtain ⟨w, hreaches, hend⟩ := hrun
  exact ⟨w, (manifest_kept accepted_oneEntry hreaches).1, of_decide_eq_true hend⟩

/-- The job says that it completes one instant after its outcome is recorded:
the outcome is stored, and the manifest that holds it is refused. -/
theorem retained_from_the_future : Accepted unary "r" ["make"] "d" oneEntry 1 ∧
    ∃ w, Reaches (step unary) always (.start "r" oneEntry 1) w ∧
      firstState w = some "terminal" ∧ ¬ Accepted unary "r" ["make"] "d" w.manifest w.clock := by
  refine ⟨accepted_oneEntry, ?_⟩
  have hrun : ∃ w, Reaches (step unary) always (.start "r" oneEntry 1) w ∧
      decide (firstState w = some "terminal" ∧
        (validateRunManifest unary w.manifest "r" ["make"] "d" w.clock).toOption.isSome = false) =
        true :=
    exists_reaches (retaining 4) _ (by decide +kernel)
  obtain ⟨w, hreaches, hend⟩ := hrun
  obtain ⟨hstate, hrefused⟩ := of_decide_eq_true hend
  refine ⟨w, hreaches, hstate, fun ⟨all, hall⟩ => ?_⟩
  rw [hall] at hrefused
  cases hrefused

end Stado.Manifests
