import Stado.RateLimit.Consume

/-!
# A window allows its limit

Every record in memory, and so every state that is stored, is one `restore`
accepts. A call is denied exactly when the window it falls in has counted its
limit, a call that fails leaves the records as they were, and from the call that
opens a window to the one that opens the next no more are allowed than its
limit.
-/

namespace Stado.RateLimit

open Std List Step
open Directory (Table rsplitOnce rsplitOnce_append)

/-! ## Records by their id -/

theorem toList_recordId (client : String) (request : ConsumeRequest) :
    (recordId client request).toList = ((client.toList ++ '/' :: (request.nameSpace.toList ++
      '/' :: request.key.toList)) ++ '/' :: Nat.toDigits 10 request.limit) ++
        '/' :: Nat.toDigits 10 request.windowMs := by
  unfold recordId
  simp only [String.toList_append, append_assoc]
  show client.toList ++ ('/' :: (request.nameSpace.toList ++ ('/' :: (request.key.toList ++
    ('/' :: ((toString request.limit).toList ++ ('/' :: (toString request.windowMs).toList))))))) = _
  rw [← Nat.toList_repr, ← Nat.toList_repr]
  simp

theorem slash_notMem_toDigits (n : ℕ) : '/' ∉ Nat.toDigits 10 n := by
  intro h
  exact absurd (Nat.isDigit_of_mem_toDigits (by decide) (by decide) h) (by decide)

/-- The limit can be read off an id. -/
theorem limit_of_recordId {client client' : String} {request request' : ConsumeRequest}
    (h : recordId client request = recordId client' request') : request.limit = request'.limit := by
  have htexts := congrArg String.toList h
  rw [toList_recordId, toList_recordId] at htexts
  have hwindows := congrArg (rsplitOnce '/') htexts
  rw [rsplitOnce_append (slash_notMem_toDigits _), rsplitOnce_append (slash_notMem_toDigits _)]
    at hwindows
  have hlimits := congrArg (rsplitOnce '/') (congrArg Prod.fst (Option.some.inj hwindows))
  dsimp only at hlimits
  rw [rsplitOnce_append (slash_notMem_toDigits _), rsplitOnce_append (slash_notMem_toDigits _)]
    at hlimits
  have hdigits := congrArg Prod.snd (Option.some.inj hlimits)
  have hnumber := congrArg (fun digits => Nat.ofDigitChars 10 digits 0) hdigits
  simpa only [Nat.ofDigitChars_ten_toDigits] using hnumber

/-! ## Records that are accepted -/

variable {clients : Table RateLimitClient} {seconds : ℕ → ℕ} {call : Call} {id : String}
  {record : Record} {records : Table Record}

/-- Every record is one `restore` takes. -/
def Accepted (clients : Table RateLimitClient) (records : Table Record) : Prop :=
  ∀ (id : String) (record : Record), records[id]? = some record →
    validateRecord clients id record = .ok ()

/-- What validation asks of a record, by its parts. -/
structure Valid (clients : Table RateLimitClient) (id : String) (record : Record) : Prop where
  client : ∃ client, clients[record.client]? = some client ∧
    validateRequest client record.toConsumeRequest = .ok ()
  hit : record.hits ≠ []
  within : record.used ≤ record.limit
  ends : record.resetAt ≠ 0
  named : id = recordId record.client record.toConsumeRequest

theorem validateRecord_eq_ok : validateRecord clients id record = .ok () ↔
    Valid clients id record := by
  unfold validateRecord
  constructor
  · intro h
    dsimp only at h
    split at h
    · cases h
    · next client hclient =>
      split at h
      · cases h
      · next hrequest =>
        split_ifs at h with hhit hover hzero hnamed
        exact ⟨⟨client, hclient, hrequest⟩, hhit, Nat.le_of_not_lt hover, hzero, not_not.mp hnamed⟩
  · rintro ⟨⟨client, hclient, hrequest⟩, hhit, hwithin, hends, hnamed⟩
    simp only [hclient, hrequest, if_neg hhit, if_neg (Nat.not_lt.mpr hwithin), if_neg hends,
      if_neg (not_not.mpr hnamed)]

theorem getElem?_standing {now : ℕ} : (standing now records)[id]? = some record ↔
    records[id]? = some record ∧ now < record.resetAt := by
  rw [standing, TreeMap.getElem?_filter', Option.filter_eq_some_iff, decide_eq_true_eq]

theorem Accepted.standing (h : Accepted clients records) (now : ℕ) :
    Accepted clients (standing now records) :=
  fun id record hrecord => h id record (getElem?_standing.mp hrecord).1

/-- A request that passes has a limit and a window. -/
theorem pos_of_validateRequest {client : RateLimitClient} {request : ConsumeRequest}
    (h : validateRequest client request = .ok ()) : 0 < request.limit ∧ 0 < request.windowMs := by
  unfold validateRequest at h
  split_ifs at h with hspace hkey hzero
  omega

theorem Accepted.insert (h : Accepted clients records) (hrecord : Valid clients id record) :
    Accepted clients (records.insert id record) := by
  intro other found hfound
  rw [TreeMap.getElem?_insert] at hfound
  split_ifs at hfound with heq
  · cases hfound
    rw [← Std.compare_eq_iff_eq.mp heq]
    exact validateRecord_eq_ok.mpr hrecord
  · exact h other found hfound

/-- What one call may make of the records that stand. -/
theorem judge_cases (seconds : ℕ → ℕ) (call : Call) (records : Table Record) :
    (∃ record, records[call.id]? = some record ∧ call.request.limit ≤ record.used ∧
      (judge seconds call records).1.allowed = false ∧ (judge seconds call records).2 = records) ∨
    (∃ record, records[call.id]? = some record ∧ record.used < call.request.limit ∧
      (judge seconds call records).1.allowed = true ∧ (judge seconds call records).2 =
        records.insert call.id { record with hits := record.hits ++ [call.now] }) ∨
    records[call.id]? = none ∧ (judge seconds call records).1.allowed = true ∧
      (judge seconds call records).2 = records.insert call.id
        ⟨call.request, call.client.name, [call.now], call.resetAt⟩ := by
  unfold judge
  cases hfound : records[call.id]? with
  | none => exact .inr (.inr ⟨rfl, rfl, rfl⟩)
  | some record =>
    by_cases hfull : call.request.limit ≤ record.used
    · exact .inl ⟨record, rfl, hfull, by simp [hfull], by simp [hfull]⟩
    · exact .inr (.inl ⟨record, rfl, Nat.lt_of_not_le hfull, by simp [hfull], by simp [hfull]⟩)

/-- A record under a call's id has the limit of the call. -/
theorem Accepted.limit (h : Accepted clients records) (hrecord : records[call.id]? = some record) :
    Valid clients call.id record ∧ record.limit = call.request.limit := by
  have hvalid := validateRecord_eq_ok.mp (h _ _ hrecord)
  exact ⟨hvalid, limit_of_recordId hvalid.named.symm⟩

theorem Accepted.judge (h : Accepted clients records)
    (hclient : clients[call.client.name]? = some call.client)
    (hrequest : validateRequest call.client call.request = .ok ()) :
    Accepted clients (judge seconds call records).2 := by
  have hpos := pos_of_validateRequest hrequest
  rcases judge_cases seconds call records with ⟨record, -, -, -, heq⟩ |
    ⟨record, hrecord, hroom, -, heq⟩ | ⟨-, -, heq⟩
  · rw [heq]
    exact h
  · obtain ⟨hvalid, hlimit⟩ := h.limit hrecord
    rw [heq]
    refine h.insert { hvalid with hit := by simp, within := ?_ }
    rw [Record.used, length_append, length_singleton, hlimit]
    exact hroom
  · rw [heq]
    refine h.insert ⟨⟨call.client, hclient, hrequest⟩, cons_ne_nil _ _, hpos.1, ?_, rfl⟩
    exact Nat.ne_of_gt (Nat.lt_of_lt_of_le hpos.2 (Nat.le_add_left _ _))

/-- What one call may come to. -/
theorem consume_cases (seconds : ℕ → ℕ) (records : Table Record) (call : Call) :
    (∃ e, consume seconds records call = ⟨.error e, records, none⟩) ∨
    validateRequest call.client call.request = .ok () ∧ ∃ stored,
      consume seconds records call = ⟨.ok (judge seconds call (standing call.now records)).1,
        (judge seconds call (standing call.now records)).2, stored⟩ ∧
      (∀ state ∈ stored, state = (judge seconds call (standing call.now records)).2) ∧
      (call.unstored ≠ none →
        (judge seconds call (standing call.now records)).2.toList = records.toList) := by
  unfold consume
  cases hrequest : validateRequest call.client call.request with
  | error e => exact .inl ⟨e, rfl⟩
  | ok u =>
    dsimp only
    split_ifs with hclock hwindow hsame
    · exact .inl ⟨_, rfl⟩
    · exact .inl ⟨_, rfl⟩
    · exact .inr ⟨rfl, none, rfl, by simp, fun _ => hsame⟩
    · cases hstored : call.unstored with
      | some e => exact .inl ⟨e, rfl⟩
      | none => exact .inr ⟨rfl, _, rfl, by simp, fun hne => absurd rfl hne⟩

theorem Accepted.consume (h : Accepted clients records)
    (hclient : clients[call.client.name]? = some call.client) :
    Accepted clients (consume seconds records call).records := by
  rcases consume_cases seconds records call with ⟨e, heq⟩ | ⟨hrequest, stored, heq, -⟩
  · rw [heq]
    exact h
  · rw [heq]
    exact (h.standing _).judge hclient hrequest

/-! ## Runs -/

/-- What a call is answered and leaves. -/
structure Step.Right (clients : Table RateLimitClient) (step : Step) : Prop where
  denied : ∀ response, step.outcome.answer = .ok response → (response.allowed = false ↔
    ∃ record, step.before[step.call.id]? = some record ∧ step.call.now < record.resetAt ∧
      record.used = step.call.request.limit)
  failed : ∀ e, step.outcome.answer = .error e → step.outcome.records = step.before
  unstored : step.call.unstored ≠ none → step.outcome.records.toList = step.before.toList
  stored : ∀ state, step.outcome.stored = some state → Accepted clients state

theorem right_consume (h : Accepted clients records)
    (hclient : clients[call.client.name]? = some call.client) :
    Right clients ⟨records, call, consume seconds records call⟩ := by
  have haccepted : Accepted clients (consume seconds records call).records := h.consume hclient
  rcases consume_cases seconds records call with ⟨e, heq⟩ | ⟨hrequest, stored, heq, hstored, hkept⟩
  · rw [heq]
    exact ⟨by simp, fun _ _ => rfl, fun _ => rfl, by simp⟩
  · rw [heq] at haccepted ⊢
    refine ⟨?_, by simp, hkept, fun state hstate => hstored state hstate ▸ haccepted⟩
    intro response hresponse
    cases hresponse
    have hfull : ∀ record, (standing call.now records)[call.id]? = some record →
        record.used ≤ call.request.limit := fun record hrecord => by
      obtain ⟨hvalid, hlimit⟩ := (h.standing _).limit hrecord
      exact hlimit ▸ hvalid.within
    rcases judge_cases seconds call (standing call.now records) with
      ⟨record, hrecord, hover, hdenied, -⟩ | ⟨record, hrecord, hroom, hallowed, -⟩ |
      ⟨hnone, hallowed, -⟩
    · obtain ⟨hin, hlive⟩ := getElem?_standing.mp hrecord
      exact iff_of_true hdenied ⟨record, hin, hlive, Nat.le_antisymm (hfull _ hrecord) hover⟩
    · refine iff_of_false (by simp [hallowed]) ?_
      rintro ⟨found, hfound, hlive, hused⟩
      have hsame := hrecord.symm.trans (getElem?_standing.mpr ⟨hfound, hlive⟩)
      cases hsame
      exact absurd hused (Nat.ne_of_lt hroom)
    · refine iff_of_false (by simp [hallowed]) ?_
      rintro ⟨found, hfound, hlive, -⟩
      rw [getElem?_standing.mpr ⟨hfound, hlive⟩] at hnone
      cases hnone

def Step.Allows (id : String) (step : Step) : Bool :=
  decide (step.call.id = id) && match step.outcome.answer with
    | .ok response => response.allowed
    | .error _ => false

/-- The call found no window of this id that stands, and opened one. -/
def Step.Opens (id : String) (step : Step) : Prop :=
  step.Allows id = true ∧ (standing step.call.now step.before)[id]? = none

variable {initial : Table Record} {calls : List Call}

theorem accepted_run (h : Accepted clients initial)
    (hcalls : ∀ call ∈ calls, clients[call.client.name]? = some call.client) :
    Accepted clients (run seconds initial calls) := by
  induction calls generalizing initial with
  | nil => exact h
  | cons call calls ih =>
    obtain ⟨hcall, hlater⟩ := forall_mem_cons.mp hcalls
    exact ih (h.consume hcall) hlater

theorem right_history (h : Accepted clients initial)
    (hcalls : ∀ call ∈ calls, clients[call.client.name]? = some call.client) :
    ∀ step ∈ history seconds initial calls, step.Right clients := by
  induction calls generalizing initial with
  | nil => exact fun step hstep => (by cases hstep)
  | cons call calls ih =>
    obtain ⟨hcall, hlater⟩ := forall_mem_cons.mp hcalls
    exact forall_mem_cons.mpr ⟨right_consume h hcall, ih (h.consume hcall) hlater⟩

/-- No more is allowed than the limit leaves room for, while no window is opened. -/
theorem counted_le (h : Accepted clients initial)
    (hcalls : ∀ call ∈ calls, clients[call.client.name]? = some call.client) {limit counted : ℕ}
    (hlimit : ∀ call ∈ calls, call.id = id → call.request.limit = limit)
    (hopen : ∀ step ∈ history seconds initial calls, ¬step.Opens id) (hcounted : counted ≤ limit)
    (hused : ∀ record, initial[id]? = some record → counted ≤ record.used) :
    counted + (history seconds initial calls).countP (Allows id) ≤ limit := by
  induction calls generalizing initial counted with
  | nil => exact hcounted
  | cons call calls ih =>
    obtain ⟨hcall, hlater⟩ := forall_mem_cons.mp hcalls
    obtain ⟨hfirst, hlimits⟩ := forall_mem_cons.mp hlimit
    obtain ⟨hnot, hopens⟩ := forall_mem_cons.mp hopen
    have hnext : Accepted clients (consume seconds initial call).records := h.consume hcall
    have hstands : ∀ record, (standing call.now initial)[id]? = some record →
        counted ≤ record.used := fun record hrecord => hused record (getElem?_standing.mp hrecord).1
    rw [history, countP_cons]
    rcases consume_cases seconds initial call with ⟨e, heq⟩ | ⟨-, stored, heq, -, -⟩
    · rw [heq] at hnext hopens ⊢
      simpa [Allows] using ih hnext hlater hlimits hopens hcounted hused
    · have hanswer : (consume seconds initial call).answer =
          .ok (judge seconds call (standing call.now initial)).1 := by rw [heq]
      have hrecords : (consume seconds initial call).records =
          (judge seconds call (standing call.now initial)).2 := by rw [heq]
      rw [hrecords] at hnext hopens ⊢
      rcases judge_cases seconds call (standing call.now initial) with
        ⟨record, -, -, hdenied, hsame⟩ | ⟨record, hrecord, hroom, hallowed, hhit⟩ |
        ⟨hnone, hallowed, hopened⟩
      · have hrest := ih hnext hlater hlimits hopens hcounted (by rwa [hsame])
        simpa [Allows, hanswer, hdenied] using hrest
      · by_cases hid : call.id = id
        · subst hid
          have hroom : record.used < limit := hfirst rfl ▸ hroom
          have hle := hstands record hrecord
          have hrest := ih hnext hlater hlimits hopens (Nat.succ_le_of_lt (hle.trans_lt hroom))
            fun found hfound => by
              rw [hhit, TreeMap.getElem?_insert_self] at hfound
              cases hfound
              rw [Record.used, length_append]
              exact Nat.succ_le_succ hle
          simp only [Allows, hanswer, hallowed, decide_true, Bool.and_self, if_true]
          omega
        · have hrest := ih hnext hlater hlimits hopens hcounted fun found hfound => by
            rw [hhit, TreeMap.getElem?_insert, if_neg (by simpa using hid)] at hfound
            exact hstands found hfound
          simpa [Allows, hid] using hrest
      · by_cases hid : call.id = id
        · refine absurd ⟨?_, hid ▸ hnone⟩ hnot
          simp [Allows, hid, hanswer, hallowed]
        · have hrest := ih hnext hlater hlimits hopens hcounted fun found hfound => by
            rw [hopened, TreeMap.getElem?_insert, if_neg (by simpa using hid)] at hfound
            exact hstands found hfound
          simpa [Allows, hid] using hrest

/-- A call that opens a window leaves it with one hit. -/
theorem opened {first : Call} (h : Opens id ⟨records, first, consume seconds records first⟩) :
    0 < first.request.limit ∧ first.id = id ∧
      ∀ record, (consume seconds records first).records[id]? = some record → 1 ≤ record.used := by
  obtain ⟨hallows, hnone⟩ := h
  rw [Allows, Bool.and_eq_true, decide_eq_true_eq] at hallows
  obtain ⟨hid, hallows⟩ := hallows
  dsimp only at hid hnone
  subst hid
  rcases consume_cases seconds records first with ⟨e, heq⟩ | ⟨hrequest, stored, heq, -⟩
  · simp [heq] at hallows
  · refine ⟨(pos_of_validateRequest hrequest).1, rfl, fun record hrecord => ?_⟩
    rcases judge_cases seconds first (standing first.now records) with
      ⟨found, hfound, -⟩ | ⟨found, hfound, -⟩ | ⟨-, -, hopened⟩
    · rw [hnone] at hfound
      cases hfound
    · rw [hnone] at hfound
      cases hfound
    · rw [heq, hopened, TreeMap.getElem?_insert_self] at hrecord
      cases hrecord
      exact le_rfl

def web : RateLimitClient := ⟨"web", ["login"]⟩

/-- A call for a key that may be used once in ten seconds. -/
def once (clock : ℤ) : Call :=
  ⟨web, ⟨"login", String.ofList (List.replicate 64 '0'), 1, 10000⟩, clock, none⟩

end Stado.RateLimit
