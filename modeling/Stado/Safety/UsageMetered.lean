import Mathlib.Algebra.BigOperators.Group.List.Basic
import Mathlib.Tactic.NormNum
import Stado.Inference.Gateway

/-!
# Usage is metered exactly

Every request is metered to the hour and the day its clock reading fell in,
however late its answer comes. While no hour is opened that is already stored,
no hour is dropped unwritten and no counter of a later day is in the way, what
is held and what is stored add up to the metered requests, and the day's
counter to the tokens answered.
-/

namespace Stado.Inference

open Machine List Option World

/-! ## What was metered -/

def Metering.tokens : Metering → ℕ
  | .answered _ (some (prompt, generated)) => prompt + generated
  | _ => 0

def totalOf (metered : List Metered) (caller : String) (hour : ℕ) : HourUsage :=
  match metered with
  | [] => .new caller hour
  | m :: older =>
    if m.caller = caller ∧ m.hour = hour then
      (totalOf older caller hour).meter (· + ·) m.what
    else totalOf older caller hour

/-- The tokens metered to the hours of a caller that satisfy `p`. -/
def tokensWhere (p : ℕ → Bool) (metered : List Metered) (caller : String) : ℕ :=
  match metered with
  | [] => 0
  | m :: older =>
    (if m.caller = caller ∧ p m.hour = true then m.what.tokens else 0) + tokensWhere p older caller

def tokensOn (metered : List Metered) (caller : String) (day : ℕ) : ℕ :=
  tokensWhere (fun hour => dayOf hour = day) metered caller

def tokensAt (metered : List Metered) (caller : String) (hour : ℕ) : ℕ :=
  tokensWhere (fun other => other = hour) metered caller

variable {metered older : List Metered} {caller : String} {hour day : ℕ} {m : Metered}
  {p : ℕ → Bool}

theorem tokensWhere_cons (p : ℕ → Bool) :
    tokensWhere p (m :: older) caller =
      (if m.caller = caller ∧ p m.hour = true then m.what.tokens else 0) +
        tokensWhere p older caller := rfl

theorem totalOf_cons_same (hc : m.caller = caller) (hh : m.hour = hour) :
    totalOf (m :: older) caller hour = (totalOf older caller hour).meter (· + ·) m.what :=
  if_pos ⟨hc, hh⟩

theorem totalOf_cons_other (h : ¬(m.caller = caller ∧ m.hour = hour)) :
    totalOf (m :: older) caller hour = totalOf older caller hour :=
  if_neg h

theorem meter_key (add : ℕ → ℕ → ℕ) (usage : HourUsage) (what : Metering) :
    (usage.meter add what).caller = usage.caller ∧ (usage.meter add what).hour = usage.hour := by
  unfold HourUsage.meter
  rcases what with _ | ⟨status, _ | ⟨prompt, generated⟩⟩
  · exact ⟨rfl, rfl⟩
  · dsimp only
    split <;> exact ⟨rfl, rfl⟩
  · exact ⟨rfl, rfl⟩

theorem totalOf_key (metered : List Metered) (caller : String) (hour : ℕ) :
    (totalOf metered caller hour).caller = caller ∧ (totalOf metered caller hour).hour = hour := by
  induction metered with
  | nil => exact ⟨rfl, rfl⟩
  | cons m older ih =>
    unfold totalOf
    split
    · have hkey := meter_key (· + ·) (totalOf older caller hour) m.what
      exact ⟨hkey.1.trans ih.1, hkey.2.trans ih.2⟩
    · exact ih

theorem meter_tokens (usage : HourUsage) (what : Metering) :
    (usage.meter (· + ·) what).promptTokens + (usage.meter (· + ·) what).generatedTokens =
      what.tokens + (usage.promptTokens + usage.generatedTokens) := by
  unfold HourUsage.meter Metering.tokens
  rcases what with _ | ⟨status, _ | ⟨prompt, generated⟩⟩
  · simp
  · dsimp only
    split <;> simp
  · dsimp only
    omega

theorem totalOf_tokens (metered : List Metered) (caller : String) (hour : ℕ) :
    (totalOf metered caller hour).promptTokens + (totalOf metered caller hour).generatedTokens =
      tokensAt metered caller hour := by
  unfold tokensAt
  induction metered with
  | nil => rfl
  | cons m older ih =>
    unfold totalOf
    rw [tokensWhere_cons]
    by_cases h : m.caller = caller ∧ m.hour = hour
    · rw [if_pos h, meter_tokens, ih]
      simp [h]
    · rw [if_neg h, ih]
      simp [h]

theorem tokensWhere_congr {p q : ℕ → Bool}
    (h : ∀ m ∈ metered, m.caller = caller → m.what.tokens ≠ 0 → p m.hour = q m.hour) :
    tokensWhere p metered caller = tokensWhere q metered caller := by
  induction metered with
  | nil => rfl
  | cons m older ih =>
    rw [tokensWhere_cons, tokensWhere_cons, ih fun m' hm' => h m' (mem_cons_of_mem _ hm')]
    by_cases hzero : m.what.tokens = 0
    · simp [hzero]
    · by_cases hc : m.caller = caller
      · rw [h m mem_cons_self hc hzero]
      · simp [hc]

theorem tokensWhere_eq_zero (h : ∀ m ∈ metered, m.caller = caller → p m.hour = false) :
    tokensWhere p metered caller = 0 := by
  induction metered with
  | nil => rfl
  | cons m older ih =>
    rw [tokensWhere_cons, ih fun m' hm' => h m' (mem_cons_of_mem _ hm')]
    by_cases hc : m.caller = caller
    · simp [h m mem_cons_self hc]
    · simp [hc]

/-- What was metered to an hour is no more than one of its requests stated. -/
theorem tokens_le_tokensWhere (h : m ∈ metered) (hc : m.caller = caller)
    (hp : p m.hour = true) : m.what.tokens ≤ tokensWhere p metered caller := by
  induction metered with
  | nil => cases h
  | cons first older ih =>
    rw [tokensWhere_cons]
    rcases mem_cons.mp h with rfl | hmem
    · rw [if_pos ⟨hc, hp⟩]
      omega
    · have := ih hmem
      omega

theorem sum_tokensAt {hours : List ℕ} (h : hours.Nodup) :
    (hours.map (tokensAt metered caller)).sum =
      tokensWhere (fun hour => hour ∈ hours) metered caller := by
  induction metered with
  | nil =>
    rw [show tokensAt [] caller = fun _ => 0 from rfl]
    simp [tokensWhere]
  | cons m older ih =>
    have hsplit : (hours.map (tokensAt (m :: older) caller)).sum = (hours.map fun hour =>
            if m.caller = caller ∧ m.hour = hour then m.what.tokens else 0).sum +
          (hours.map (tokensAt older caller)).sum := by
      rw [← sum_map_add]
      congr 1
      refine map_congr_left fun hour _ => ?_
      unfold tokensAt
      simp [tokensWhere]
    rw [hsplit, ih, tokensWhere_cons]
    congr 1
    clear hsplit ih
    by_cases hc : m.caller = caller
    · simp only [hc, true_and, decide_eq_true_eq]
      induction hours with
      | nil => simp
      | cons hour hours ihh =>
        rw [nodup_cons] at h
        rw [map_cons, sum_cons, ihh h.2]
        by_cases hh : m.hour = hour
        · subst hh
          simp [h.1]
        · simp [hh]
    · simp [hc]

/-! ## The claim -/

/-- Once everything held is written, the stored usage of every caller and hour
is the sum of the requests metered to it. -/
def World.Exact (w : World) : Prop :=
  ∀ caller hour,
    (UsageStore.hour (flush (fun _ => true) w.state w.store) caller hour).getD
        (.new caller hour) = totalOf w.metered caller hour

/-- The admission of the waiting request `i` reads a counter no lower than the
tokens answered to its caller on its day, and does not let it past them. -/
def World.HoldsDay (keyHash : String → String) (w : World) (i : ℕ) : Prop :=
  ∀ request caller, w.waiting[i]? = some request →
    presented keyHash w.state.callers request.bearer = some caller →
    tokensOn w.metered caller.caller (dayOf request.hour) ≤
        w.state.spent caller.caller (dayOf request.hour) ∧
      ∀ saves,
        (admission keyHash saves request.bearer request.hour w.clock w.state w.store).1 =
            .admitted caller.caller →
          tokensOn w.metered caller.caller (dayOf request.hour) < caller.limits.tokensPerDay

/-- The counts of `m`'s hour and day fit a `u64` once `m` is counted. -/
def Fits (m : Metered) (older : List Metered) : Prop :=
  let total := totalOf (m :: older) m.caller m.hour
  total.requests < 2 ^ 64 ∧ total.promptTokens < 2 ^ 64 ∧ total.generatedTokens < 2 ^ 64 ∧
    total.usageUnread < 2 ^ 64 ∧ total.refused < 2 ^ 64 ∧
    tokensOn (m :: older) m.caller (dayOf m.hour) < 2 ^ 64

instance (m : Metered) (older : List Metered) : Decidable (Fits m older) := by
  unfold Fits
  infer_instance

/-- Counting into `hour` opens no hour that is stored, and an hour it closes is
written. -/
def World.Opens (w : World) (saves : String → Bool) (caller : String) (hour : ℕ) : Prop :=
  (∀ usage ∈ w.state.hours caller, usage.hour ≠ hour → saves caller = true) ∧
    ((w.state.hours caller).map (·.hour) ≠ some hour → w.store.hour caller hour = none)

instance (w : World) (saves : String → Bool) (caller : String) (hour : ℕ) :
    Decidable (w.Opens saves caller hour) := by
  unfold Opens
  infer_instance

def World.DayNotPast (w : World) (caller : String) (day : ℕ) : Prop :=
  ∀ counter ∈ w.state.dayTokens caller, counter.1 ≤ day

instance (w : World) (caller : String) (day : ℕ) : Decidable (w.DayNotPast caller day) := by
  unfold DayNotPast
  infer_instance

/-- What the runs are over: the process is restarted after a flush that wrote
everything held. -/
def RestartsFlushed (w : World) : Step → Prop
  | .restart _ => w.Flushed
  | _ => True

/-- The admission of the waiting request `i` carries no day before the
counter's, and a refusal is counted into an hour it may open. -/
def World.EnterCounts (keyHash : String → String) (w : World) (i : ℕ) (saves : String → Bool) :
    Prop :=
  ∀ request ∈ w.waiting[i]?, ∀ caller ∈ presented keyHash w.state.callers request.bearer,
    w.DayNotPast caller.caller (dayOf request.hour) ∧
      ((admission keyHash saves request.bearer request.hour w.clock w.state w.store).1 =
          .refused caller.caller →
        w.Opens saves caller.caller request.hour ∧
          Fits ⟨caller.caller, request.hour, .refused⟩ w.metered)

instance (keyHash : String → String) (w : World) (i : ℕ) (saves : String → Bool) :
    Decidable (w.EnterCounts keyHash i saves) := by
  unfold EnterCounts
  infer_instance

/-- The answer to the sent request `i` is counted into an hour it may open, and
into no day before the counter's. -/
def World.AnswerCounts (w : World) (i status : ℕ) (stated : Option (ℕ × ℕ))
    (closing : String → Bool) : Prop :=
  ∀ request ∈ w.sent[i]?,
    w.Opens closing request.caller request.hour ∧
      (stated.isSome → w.DayNotPast request.caller (dayOf request.hour)) ∧
      Fits ⟨request.caller, request.hour, .answered status stated⟩ w.metered

instance (w : World) (i status : ℕ) (stated : Option (ℕ × ℕ)) (closing : String → Bool) :
    Decidable (w.AnswerCounts i status stated closing) := by
  unfold AnswerCounts
  infer_instance

/-- The condition on the steps: an answer or a refusal opens no hour already
stored and closes none unwritten, an admission and an answer with tokens carry
no day before the counter's, the counts fit their width, and the process is
restarted after a flush that wrote everything held. -/
def Counts (keyHash : String → String) (w : World) : Step → Prop
  | .enter i saves => w.EnterCounts keyHash i saves
  | .answer i status stated closing _ => w.AnswerCounts i status stated closing
  | .restart _ => w.Flushed
  | _ => True

/-! ## The hours -/

/-- Each held hour is the sum of its requests, and so is each stored one that is
not held. -/
structure HoursExact (state : State) (store : UsageStore) (metered : List Metered) : Prop where
  held : ∀ caller usage, state.hours caller = some usage → usage = totalOf metered caller usage.hour
  stored : ∀ caller hour, (state.hours caller).map (·.hour) ≠ some hour →
    (store.hour caller hour).getD (.new caller hour) = totalOf metered caller hour
  keyed : store.Keyed

variable {state : State} {store : UsageStore} {saves : String → Bool} {what : Metering}
  {now : Clock} {w : World} {usage : HourUsage}

theorem HoursExact.congr {state' : State} (h : HoursExact state store metered)
    (hhours : state'.hours = state.hours) : HoursExact state' store metered := by
  refine ⟨?_, ?_, h.keyed⟩
  · rw [hhours]
    exact h.held
  · rw [hhours]
    exact h.stored

theorem hour_congr {store store' : UsageStore} (h : store caller = store' caller) :
    store.hour caller hour = store'.hour caller hour := by
  unfold UsageStore.hour
  rw [h]

theorem hour_flush (h : state.hours caller = some usage)
    (hcaller : usage.caller = caller) (hsaves : saves caller = true) :
    UsageStore.hour (flush saves state store) caller hour =
      if hour = usage.hour then some usage else store.hour caller hour := by
  rw [hour_congr (flush_held h hsaves)]
  subst hcaller
  exact hour_saveUsage store usage hour

section

variable (h : HoursExact state store metered)

include h

theorem HoursExact.caller_eq (hheld : state.hours caller = some usage) : usage.caller = caller := by
  rw [h.held caller usage hheld]
  exact (totalOf_key metered caller usage.hour).1

theorem HoursExact.keyed_flush : UsageStore.Keyed (flush saves state store) := by
  intro caller
  rcases hheld : state.hours caller with _ | usage
  · rw [flush_empty hheld]
    exact h.keyed caller
  · rcases hsaves : saves caller with _ | _
    · rw [flush_lost hsaves]
      exact h.keyed caller
    · rw [flush_held hheld hsaves]
      exact (h.keyed.saveUsage usage) caller

theorem HoursExact.hour_flush_other (hne : (state.hours caller).map (·.hour) ≠ some hour) :
    UsageStore.hour (flush saves state store) caller hour = store.hour caller hour := by
  rcases hheld : state.hours caller with _ | usage
  · exact hour_congr (flush_empty hheld)
  · rcases hsaves : saves caller with _ | _
    · exact hour_congr (flush_lost hsaves)
    · rw [hheld] at hne
      have hne' : hour ≠ usage.hour := fun e => hne (by rw [e]; rfl)
      rw [hour_flush hheld (h.caller_eq hheld) hsaves, if_neg hne']

theorem HoursExact.flush :
    HoursExact state (flush saves state store) metered where
  held := h.held
  stored caller hour hne := by
    rw [h.hour_flush_other hne]
    exact h.stored caller hour hne
  keyed := h.keyed_flush

end

/-- Exact hours add up once what is held is written. -/
theorem HoursExact.exact (h : HoursExact w.state w.store w.metered) : w.Exact := by
  intro caller hour
  by_cases hne : (w.state.hours caller).map (·.hour) = some hour
  · rw [map_eq_some_iff] at hne
    obtain ⟨usage, hheld, rfl⟩ := hne
    rw [hour_flush hheld (h.caller_eq hheld) rfl, if_pos rfl]
    exact h.held caller usage hheld
  · rw [h.hour_flush_other hne]
    exact h.stored caller hour hne

theorem add64_eq {a b : ℕ} (h : a + b < 2 ^ 64) : add64 a b = a + b :=
  Nat.mod_eq_of_lt h

/-- Counting a request on 64 bits is counting it, when the counts fit. -/
theorem meter_add64 (hfits : Fits ⟨caller, hour, what⟩ metered) :
    (totalOf metered caller hour).meter add64 what =
      totalOf (⟨caller, hour, what⟩ :: metered) caller hour := by
  obtain ⟨hreq, hprompt, hgen, hunread, hrefused, -⟩ := hfits
  rw [totalOf_cons_same rfl rfl] at hreq hprompt hgen hunread hrefused ⊢
  unfold HourUsage.meter at hreq hprompt hgen hunread hrefused ⊢
  rcases what with _ | ⟨status, _ | ⟨prompt, generated⟩⟩
  · dsimp only at hrefused ⊢
    rw [add64_eq hrefused]
  · dsimp only at hreq hunread ⊢
    split at hreq
    · rw [if_pos ‹_›] at hunread ⊢
      rw [if_pos ‹_›, add64_eq hreq, add64_eq hunread]
    · rw [if_neg ‹_›, if_neg ‹_›, add64_eq hreq]
  · dsimp only at hreq hprompt hgen ⊢
    rw [add64_eq hreq, add64_eq hprompt, add64_eq hgen]

theorem totalOf_other_hour {other : ℕ} (h : other ≠ hour) :
    totalOf (⟨caller, hour, what⟩ :: metered) caller other = totalOf metered caller other :=
  totalOf_cons_other fun e => h e.2.symm

theorem totalOf_other_caller {other : String} (h : other ≠ caller) (hour' : ℕ) :
    totalOf (⟨caller, hour, what⟩ :: metered) other hour' = totalOf metered other hour' :=
  totalOf_cons_other fun e => h e.1.symm

/-- The state and store an hour is opened in: the hours are exact, and once the
opened one is set aside nothing of it is stored. -/
structure Opened (state : State) (store : UsageStore) (caller : String) (hour : ℕ)
    (metered : List Metered) (usage : HourUsage) : Prop where
  sum : usage = totalOf metered caller hour
  held : ∀ other usage, other ≠ caller → state.hours other = some usage →
    usage = totalOf metered other usage.hour
  stored : ∀ other hour', other ≠ caller → (state.hours other).map (·.hour) ≠ some hour' →
    (store.hour other hour').getD (.new other hour') = totalOf metered other hour'
  kept : ∀ hour', hour' ≠ hour →
    (store.hour caller hour').getD (.new caller hour') = totalOf metered caller hour'
  keyed : store.Keyed

/-- Opening an hour under the condition finds its sum. -/
theorem HoursExact.opens (h : HoursExact w.state w.store metered) (now : Clock)
    (hopens : w.Opens saves caller hour) :
    Opened (openHour saves caller hour now w.state w.store).2.1
      (openHour saves caller hour now w.state w.store).2.2 caller hour metered
      (openHour saves caller hour now w.state w.store).1 := by
  obtain ⟨hwritten, hfresh⟩ := hopens
  have hnew (hne : (w.state.hours caller).map (·.hour) ≠ some hour) :
      HourUsage.new caller hour = totalOf metered caller hour := by
    rw [← h.stored caller hour hne, hfresh hne]
    rfl
  unfold openHour
  split
  · next usage hheld =>
    split
    · next he =>
      subst he
      refine ⟨h.held caller usage hheld, fun other u _ => h.held other u,
        fun other hour' _ => h.stored other hour', fun hour' hne => ?_, h.keyed⟩
      refine h.stored caller hour' ?_
      rw [hheld]
      exact fun e => hne (Option.some.inj e).symm
    · next hne =>
      have hother : (w.state.hours caller).map (·.hour) ≠ some hour := by
        rw [hheld]
        exact fun e => hne (Option.some.inj e)
      refine ⟨hnew hother, fun other u ho => ?_, fun other hour' ho => ?_, fun hour' hat => ?_,
        h.keyed_flush⟩
      · dsimp only
        rw [put_other _ _ ho]
        exact h.held other u
      · dsimp only
        rw [put_other _ _ ho]
        intro hheld'
        rw [h.hour_flush_other hheld']
        exact h.stored other hour' hheld'
      · -- the hour that is closed is written as it was held
        have hsaves := hwritten usage hheld hne
        rw [hour_flush hheld (h.caller_eq hheld) hsaves]
        split
        · next he =>
          subst he
          exact h.held caller usage hheld
        · next he =>
          refine h.stored caller hour' ?_
          rw [hheld]
          exact fun e => he (Option.some.inj e).symm
  · next hheld =>
    have hother : (w.state.hours caller).map (·.hour) ≠ some hour := by
      rw [hheld]
      exact fun e => by cases e
    refine ⟨hnew hother, fun other u _ => h.held other u, fun other hour' _ => h.stored other hour',
      fun hour' _ => h.stored caller hour' ?_, h.keyed⟩
    rw [hheld]
    exact fun e => by cases e

/-- A request counted into an hour opened under the condition. -/
theorem HoursExact.meterHour (h : HoursExact w.state w.store metered)
    (now : Clock) (hopens : w.Opens saves caller hour) (hfits : Fits ⟨caller, hour, what⟩ metered) :
    HoursExact (meterHour saves caller hour what now w.state w.store).1
      (meterHour saves caller hour what now w.state w.store).2
      (⟨caller, hour, what⟩ :: metered) := by
  have hopened := h.opens now hopens
  unfold Stado.Inference.meterHour
  rcases hopen : openHour saves caller hour now w.state w.store with ⟨usage, state, store⟩
  rw [hopen] at hopened
  dsimp only at hopened ⊢
  have hsum : usage.meter add64 what = totalOf (⟨caller, hour, what⟩ :: metered) caller hour := by
    rw [hopened.sum]
    exact meter_add64 hfits
  have hhour : (usage.meter add64 what).hour = hour := by
    rw [hsum]
    exact (totalOf_key _ caller hour).2
  constructor
  · intro other u hu
    dsimp only at hu
    by_cases ho : other = caller
    · subst ho
      rw [put_same] at hu
      cases hu
      rw [hhour]
      exact hsum
    · rw [put_other _ _ ho] at hu
      rw [totalOf_other_caller ho]
      exact hopened.held other u ho hu
  · intro other hour' hne
    dsimp only at hne
    by_cases ho : other = caller
    · subst ho
      rw [put_same] at hne
      have hat : hour' ≠ hour := fun e => hne (by rw [e, map_some, hhour])
      rw [totalOf_other_hour hat]
      exact hopened.kept hour' hat
    · rw [put_other _ _ ho] at hne
      rw [totalOf_other_caller ho]
      exact hopened.stored other hour' ho hne
  · exact hopened.keyed

/-! ## The days -/

/-- Each counter is the tokens metered to its day, of which no later day has
any; a caller without a counter has none since the process began. -/
structure DaysCounted (began : ℕ) (dayTokens : String → Option (ℕ × ℕ))
    (metered : List Metered) : Prop where
  counted : ∀ caller day tokens, dayTokens caller = some (day, tokens) →
    tokens = tokensOn metered caller day ∧ ∀ later, day < later → tokensOn metered caller later = 0
  uncounted : ∀ caller, dayTokens caller = none →
    ∀ day, began ≤ day → tokensOn metered caller day = 0

variable {began status : ℕ} {stated : Option (ℕ × ℕ)}

theorem DaysCounted.spent (h : DaysCounted began w.state.dayTokens metered) (hbegan : began ≤ day)
    (hday : w.DayNotPast caller day) : w.state.spent caller day = tokensOn metered caller day := by
  unfold State.spent
  rcases hcounter : w.state.dayTokens caller with _ | ⟨counted, tokens⟩
  · exact (h.uncounted caller hcounter day hbegan).symm
  · have hle : counted ≤ day := hday _ hcounter
    obtain ⟨htokens, hlater⟩ := h.counted caller counted tokens hcounter
    dsimp only
    split
    · next he =>
      rw [← he]
      exact htokens
    · next hne => exact (hlater day (Nat.lt_of_le_of_ne hle hne)).symm

/-- An answer's tokens are added to what the counter is read as. -/
theorem spend_eq (state : State) (caller : String) (day prompt generated : ℕ) :
    spend (state.dayTokens caller) day prompt generated =
      (day, add64 (state.spent caller day) (add64 prompt generated)) := by
  unfold spend State.spent
  rcases state.dayTokens caller with _ | ⟨counted, tokens⟩
  · rfl
  · dsimp only
    split <;> rfl

theorem tokensOn_cons_zero (h : m.what.tokens = 0) :
    tokensOn (m :: older) caller day = tokensOn older caller day := by
  unfold tokensOn
  rw [tokensWhere_cons, h, ite_self, Nat.zero_add]

theorem tokensOn_cons_other (h : ¬(m.caller = caller ∧ dayOf m.hour = day)) :
    tokensOn (m :: older) caller day = tokensOn older caller day := by
  unfold tokensOn
  rw [tokensWhere_cons, if_neg (by simpa using h), Nat.zero_add]

theorem tokensOn_cons_same :
    tokensOn (⟨caller, hour, what⟩ :: older) caller (dayOf hour) =
      what.tokens + tokensOn older caller (dayOf hour) := by
  unfold tokensOn
  rw [tokensWhere_cons, if_pos (by simp)]

theorem DaysCounted.cons_zero {dayTokens : String → Option (ℕ × ℕ)}
    (h : DaysCounted began dayTokens older) (hzero : m.what.tokens = 0) :
    DaysCounted began dayTokens (m :: older) where
  counted caller day tokens hcounter := by
    obtain ⟨htokens, hlater⟩ := h.counted caller day tokens hcounter
    rw [tokensOn_cons_zero hzero]
    refine ⟨htokens, fun later hl => ?_⟩
    rw [tokensOn_cons_zero hzero]
    exact hlater later hl
  uncounted caller hcounter day hday := by
    rw [tokensOn_cons_zero hzero]
    exact h.uncounted caller hcounter day hday

theorem DaysCounted.spendStated (h : DaysCounted began w.state.dayTokens metered)
    (hstate : state.dayTokens = w.state.dayTokens) (hbegan : began ≤ dayOf hour)
    (hday : stated.isSome → w.DayNotPast caller (dayOf hour))
    (hfits : Fits ⟨caller, hour, .answered status stated⟩ metered) :
    DaysCounted began (state.spendStated caller (dayOf hour) stated).dayTokens
      (⟨caller, hour, .answered status stated⟩ :: metered) := by
  rcases stated with _ | ⟨prompt, generated⟩
  · unfold State.spendStated
    rw [hstate]
    exact h.cons_zero rfl
  · have hnot := hday rfl
    have hread := h.spent hbegan hnot
    obtain ⟨-, -, -, -, -, hfit⟩ := hfits
    rw [tokensOn_cons_same] at hfit
    have hstated : (Metering.answered status (some (prompt, generated))).tokens =
        prompt + generated := rfl
    rw [hstated] at hfit
    -- the counter the answer leaves: its day's tokens with its own
    have hcounter : spend (w.state.dayTokens caller) (dayOf hour) prompt generated =
        (dayOf hour, tokensOn (⟨caller, hour, .answered status (some (prompt, generated))⟩ ::
          metered) caller (dayOf hour)) := by
      have hadd : add64 prompt generated = prompt + generated := add64_eq (by omega)
      rw [tokensOn_cons_same, hstated, spend_eq, hread, hadd, add64_eq (by omega), Nat.add_comm]
    have hlater : ∀ later, dayOf hour < later →
        tokensOn (⟨caller, hour, .answered status (some (prompt, generated))⟩ :: metered)
          caller later = 0 := by
      intro later hl
      rw [tokensOn_cons_other fun e => Nat.ne_of_lt hl e.2]
      rcases hc : w.state.dayTokens caller with _ | ⟨counted, tokens⟩
      · exact h.uncounted caller hc later (Nat.le_trans hbegan (Nat.le_of_lt hl))
      · have hle : counted ≤ dayOf hour := hnot _ hc
        exact (h.counted caller counted tokens hc).2 later (Nat.lt_of_le_of_lt hle hl)
    unfold State.spendStated
    dsimp only
    rw [hstate, hcounter]
    constructor
    · intro other day tokens hc
      by_cases ho : other = caller
      · subst ho
        rw [put_same] at hc
        cases hc
        exact ⟨rfl, hlater⟩
      · rw [put_other _ _ ho] at hc
        obtain ⟨htokens, hafter⟩ := h.counted other day tokens hc
        rw [tokensOn_cons_other fun e => ho e.1.symm]
        refine ⟨htokens, fun later hl => ?_⟩
        rw [tokensOn_cons_other fun e => ho e.1.symm]
        exact hafter later hl
    · intro other hc day hd
      by_cases ho : other = caller
      · subst ho
        rw [put_same] at hc
        cases hc
      · rw [put_other _ _ ho] at hc
        rw [tokensOn_cons_other fun e => ho e.1.symm]
        exact h.uncounted other hc day hd

/-! ## The start -/

/-- A gateway just started over a store that holds what was metered before. -/
structure World.Begins (w : World) : Prop where
  started : w.state = start w.state.callers w.clock w.store
  waiting : w.waiting = []
  sent : w.sent = []
  sums : ∀ caller hour,
    (w.store.hour caller hour).getD (.new caller hour) = totalOf w.metered caller hour
  keyed : w.store.Keyed
  past : ∀ m ∈ w.metered, m.hour ≤ hourOf w.clock.utc
  fits : ∀ caller day, tokensOn w.metered caller day < 2 ^ 64

variable {w w' : World}

theorem foldl_tokens (hours : List HourUsage) (a : ℕ) (ha : a < 2 ^ 64) :
    (hours.map (·.tokens add64)).foldl add64 a =
      (a + (hours.map fun usage => usage.promptTokens + usage.generatedTokens).sum) % 2 ^ 64 := by
  induction hours generalizing a with
  | nil => exact (Nat.mod_eq_of_lt ha).symm
  | cons usage rest ih =>
    have hlt : add64 a (usage.tokens add64) < 2 ^ 64 := Nat.mod_lt _ (by norm_num)
    rw [map_cons, foldl_cons, ih _ hlt, map_cons, sum_cons]
    unfold HourUsage.tokens add64
    omega

theorem World.Begins.sum_today (h : w.Begins) (caller : String) :
    (((w.store caller).filter fun usage =>
        dayOf (hourOf w.clock.utc) * 24 ≤ usage.hour).map
          fun usage => usage.promptTokens + usage.generatedTokens).sum =
      tokensOn w.metered caller (dayOf (hourOf w.clock.utc)) := by
  set today := dayOf (hourOf w.clock.utc) with htoday
  have hmap : ((w.store caller).filter fun usage => today * 24 ≤ usage.hour).map
        (fun usage => usage.promptTokens + usage.generatedTokens) =
      (((w.store caller).filter fun usage => today * 24 ≤ usage.hour).map (·.hour)).map
        (tokensAt w.metered caller) := by
    rw [List.map_map]
    refine map_congr_left fun usage husage => ?_
    have hstored := h.keyed.hour (mem_of_mem_filter husage)
    have hsum := h.sums caller usage.hour
    rw [hstored, getD_some] at hsum
    rw [Function.comp_apply, ← totalOf_tokens, ← hsum]
  have hnodup :
      (((w.store caller).filter fun usage => today * 24 ≤ usage.hour).map (·.hour)).Nodup :=
    (h.keyed caller).sublist (filter_sublist.map _)
  rw [hmap, sum_tokensAt hnodup]
  unfold tokensOn
  refine tokensWhere_congr fun m hm hc hne => ?_
  have hpast := h.past m hm
  rw [decide_eq_decide]
  unfold dayOf at htoday ⊢
  constructor
  · intro hmem
    obtain ⟨usage, husage, he⟩ := List.mem_map.mp hmem
    have hle := of_mem_filter husage
    rw [decide_eq_true_eq] at hle
    omega
  · intro hday
    -- an hour with tokens is stored, since what is not stored sums to nothing
    have hsum := h.sums caller m.hour
    have hat : m.what.tokens ≤ tokensAt w.metered caller m.hour :=
      tokens_le_tokensWhere hm hc (by simp)
    rw [← totalOf_tokens, ← hsum] at hat
    rcases hstored : w.store.hour caller m.hour with _ | usage
    · rw [hstored] at hat
      exact absurd (Nat.le_zero.mp hat) hne
    · have he := UsageStore.hour_hour hstored
      refine List.mem_map.mpr ⟨usage, mem_filter.mpr ⟨UsageStore.mem_of_hour hstored, ?_⟩, he⟩
      rw [decide_eq_true_eq, he]
      omega

theorem World.Begins.none_later (h : w.Begins)
    (hday : dayOf (hourOf w.clock.utc) < day) : tokensOn w.metered caller day = 0 := by
  refine tokensWhere_eq_zero fun m hm _ => decide_eq_false ?_
  have hpast := h.past m hm
  unfold dayOf at hday ⊢
  omega

/-- The counters a gateway starts with. -/
theorem World.Begins.days (h : w.Begins) :
    DaysCounted (dayOf (hourOf w.clock.utc)) w.state.dayTokens w.metered := by
  rw [h.started]
  have hfold (caller : String) : (((w.store caller).filter fun usage =>
      dayOf (hourOf w.clock.utc) * 24 ≤ usage.hour).map (·.tokens add64)).foldl add64 0 =
        tokensOn w.metered caller (dayOf (hourOf w.clock.utc)) := by
    rw [foldl_tokens _ _ (by norm_num), h.sum_today caller, Nat.zero_add]
    exact Nat.mod_eq_of_lt (h.fits caller _)
  constructor
  · intro caller day tokens hcounter
    unfold start spentToday at hcounter
    dsimp only at hcounter
    split at hcounter
    · cases hcounter
    · rw [Option.some.injEq, Prod.mk.injEq] at hcounter
      obtain ⟨rfl, rfl⟩ := hcounter
      exact ⟨hfold caller, fun later hl => h.none_later hl⟩
  · intro caller hcounter day hday
    unfold start spentToday at hcounter
    dsimp only at hcounter
    split at hcounter
    · next hnone =>
      rcases Nat.eq_or_lt_of_le hday with rfl | hl
      · rw [← hfold caller, hnone]
        rfl
      · exact h.none_later hl
    · cases hcounter

theorem World.Begins.hours (h : w.Begins) : HoursExact w.state w.store w.metered := by
  refine ⟨fun caller usage hheld => ?_, fun caller hour _ => h.sums caller hour, h.keyed⟩
  rw [h.started] at hheld
  have hstored : w.store.hour caller (hourOf w.clock.utc) = some usage := hheld
  have hsum := h.sums caller (hourOf w.clock.utc)
  rw [hstored, getD_some] at hsum
  rw [UsageStore.hour_hour hstored]
  exact hsum

/-! ## Runs -/

/-- What stays true of a gateway whose steps meet the condition. -/
structure Accounted (began : ℕ) (w : World) : Prop where
  hours : HoursExact w.state w.store w.metered
  days : DaysCounted began w.state.dayTokens w.metered
  past : ∀ m ∈ w.metered, m.hour ≤ hourOf w.clock.utc
  waiting : ∀ r ∈ w.waiting, began ≤ dayOf r.hour ∧ r.hour ≤ hourOf w.clock.utc
  sent : ∀ r ∈ w.sent, began ≤ dayOf r.hour ∧ r.hour ≤ hourOf w.clock.utc
  begun : began ≤ dayOf (hourOf w.clock.utc)
  fits : ∀ caller day, tokensOn w.metered caller day < 2 ^ 64

theorem World.Begins.accounted (h : w.Begins) : Accounted (dayOf (hourOf w.clock.utc)) w where
  hours := h.hours
  days := h.days
  past := h.past
  waiting r hr := by
    rw [h.waiting] at hr
    cases hr
  sent r hr := by
    rw [h.sent] at hr
    cases hr
  begun := Nat.le_refl _
  fits := h.fits

theorem Accounted.restart (h : Accounted began w) (hflushed : w.Flushed) (callers : List Caller) :
    (w.restart callers).Begins where
  started := rfl
  waiting := rfl
  sent := rfl
  sums caller hour := by
    by_cases hne : (w.state.hours caller).map (·.hour) = some hour
    · rw [map_eq_some_iff] at hne
      obtain ⟨usage, hheld, rfl⟩ := hne
      have hstored : (w.restart callers).store.hour caller usage.hour = some usage :=
        hflushed caller usage hheld
      rw [hstored]
      exact h.hours.held caller usage hheld
    · exact h.hours.stored caller hour hne
  keyed := h.hours.keyed
  past := h.past
  fits := h.fits

theorem fits_cons (hfits : Fits m older) (h : ∀ caller day, tokensOn older caller day < 2 ^ 64)
    (caller : String) (day : ℕ) : tokensOn (m :: older) caller day < 2 ^ 64 := by
  by_cases hsame : m.caller = caller ∧ dayOf m.hour = day
  · obtain ⟨rfl, rfl⟩ := hsame
    exact hfits.2.2.2.2.2
  · rw [tokensOn_cons_other hsame]
    exact h caller day

theorem meterHour_dayTokens (saves : String → Bool) (caller : String) (hour : ℕ) (what : Metering)
    (now : Clock) (state : State) (store : UsageStore) :
    (meterHour saves caller hour what now state store).1.dayTokens = state.dayTokens := by
  unfold meterHour openHour
  split
  next heq =>
    split at heq
    · split at heq
      · cases heq
        rfl
      · cases heq
        rfl
    · cases heq
      rfl

theorem spendStated_hours (state : State) (caller : String) (day : ℕ)
    (stated : Option (ℕ × ℕ)) : (state.spendStated caller day stated).hours = state.hours := by
  rcases stated with _ | ⟨prompt, generated⟩ <;> rfl

/-- Time passing keeps the accounts. -/
theorem Accounted.tick (h : Accounted began w) (utc mono : ℕ) :
    Accounted began (w.tick utc mono) := by
  have hle : hourOf w.clock.utc ≤ hourOf (w.clock.utc + utc) :=
    Nat.div_le_div_right (Nat.le_add_right _ _)
  refine ⟨h.hours, h.days, fun m hm => Nat.le_trans (h.past m hm) hle, fun r hr => ?_,
    fun r hr => ?_, Nat.le_trans h.begun (Nat.div_le_div_right hle), h.fits⟩
  · exact ⟨(h.waiting r hr).1, Nat.le_trans (h.waiting r hr).2 hle⟩
  · exact ⟨(h.sent r hr).1, Nat.le_trans (h.sent r hr).2 hle⟩

/-- The requests of a list without one of them are requests of the list. -/
theorem forall_eraseIdx {α : Type} {P : α → Prop} {l : List α} {i : ℕ} (h : ∀ a ∈ l, P a) :
    ∀ a ∈ l.eraseIdx i, P a :=
  fun a ha => h a ((eraseIdx_sublist l i).subset ha)

variable {keyHash : String → String} {flushEvery i : ℕ} {closing : String → Bool} {a : Step}

/-- An admission under the condition keeps the accounts. -/
theorem Accounted.enter (h : Accounted began w) (hmet : Counts keyHash w (.enter i saves))
    (hstep : w.enter keyHash i saves = some w') : Accounted began w' := by
  unfold World.enter at hstep
  rw [map_eq_some_iff] at hstep
  obtain ⟨request, hrequest, rfl⟩ := hstep
  have hpending := h.waiting request (mem_of_getElem? hrequest)
  have hwaiting := forall_eraseIdx (i := i) h.waiting
  have hcond := hmet request hrequest
  rcases admission_cases keyHash saves request.bearer request.hour w.clock w.state w.store with
    heq | ⟨caller, hcaller, heq | ⟨-, heq⟩⟩
  · dsimp only
    rw [heq]
    exact ⟨h.hours, h.days, h.past, hwaiting, h.sent, h.begun, h.fits⟩
  · obtain ⟨-, hrefused⟩ := hcond caller hcaller
    obtain ⟨hopens, hfits⟩ := hrefused (by rw [heq])
    dsimp only
    rw [heq]
    refine ⟨?_, ?_, ?_, hwaiting, h.sent, h.begun, fits_cons hfits h.fits⟩
    · exact HoursExact.meterHour (w := { w with state := w.state.noted caller w.clock })
        (h.hours.congr rfl) _ hopens hfits
    · dsimp only
      rw [meterHour_dayTokens]
      exact h.days.cons_zero rfl
    · exact forall_mem_cons.mpr ⟨hpending.2, h.past⟩
  · dsimp only
    rw [heq]
    refine ⟨h.hours.congr rfl, h.days, h.past, hwaiting, ?_, h.begun, h.fits⟩
    exact forall_mem_append.mpr ⟨h.sent, by simpa using hpending⟩

theorem Accounted.answer (h : Accounted began w)
    (hmet : Counts keyHash w (.answer i status stated closing saves))
    (hstep : w.answer flushEvery i status stated closing saves = some w') : Accounted began w' := by
  unfold World.answer at hstep
  rw [map_eq_some_iff] at hstep
  obtain ⟨request, hrequest, rfl⟩ := hstep
  have hpending := h.sent request (mem_of_getElem? hrequest)
  have hsent := forall_eraseIdx (i := i) h.sent
  obtain ⟨hopens, hday, hfits⟩ := hmet request hrequest
  have hhours := h.hours.meterHour w.clock hopens hfits
  have hdays := h.days.spendStated (meterHour_dayTokens closing request.caller request.hour
    (.answered status stated) w.clock w.state w.store) hpending.1 hday hfits
  unfold accounting
  rcases hmeter : meterHour closing request.caller request.hour (.answered status stated)
    w.clock w.state w.store with ⟨state, store⟩
  rw [hmeter] at hhours hdays
  have hpast : ∀ m ∈ (⟨request.caller, request.hour, .answered status stated⟩ : Metered) ::
      w.metered, m.hour ≤ hourOf w.clock.utc := forall_mem_cons.mpr ⟨hpending.2, h.past⟩
  have hspent := hhours.congr
    (spendStated_hours state request.caller (dayOf request.hour) stated)
  dsimp only
  split
  · exact ⟨hspent.flush.congr rfl, hdays, hpast, h.waiting, hsent, h.begun, fits_cons hfits h.fits⟩
  · exact ⟨hspent, hdays, hpast, h.waiting, hsent, h.begun, fits_cons hfits h.fits⟩

/-- Each step under the condition keeps the accounts, of the process that began
last. -/
theorem accounted_step (h : ∃ began, Accounted began w) (hmet : Counts keyHash w a)
    (hstep : w.step keyHash flushEvery a = some w') : ∃ began, Accounted began w' := by
  obtain ⟨began, h⟩ := h
  unfold step at hstep
  cases a with
  | tick utc mono =>
    cases hstep
    exact ⟨began, h.tick utc mono⟩
  | arrive bearer =>
    cases hstep
    refine ⟨began, h.hours, h.days, h.past, ?_, h.sent, h.begun, h.fits⟩
    exact forall_mem_append.mpr ⟨h.waiting, by simpa using h.begun⟩
  | enter i saves => exact ⟨began, h.enter hmet hstep⟩
  | answer i status stated closing saves => exact ⟨began, h.answer hmet hstep⟩
  | lose i =>
    dsimp only at hstep
    rw [map_eq_some_iff] at hstep
    obtain ⟨request, -, rfl⟩ := hstep
    exact ⟨began, h.hours, h.days, h.past, h.waiting, forall_eraseIdx h.sent, h.begun, h.fits⟩
  | refresh callers saves =>
    cases hstep
    exact ⟨began, h.hours.flush.congr rfl, h.days, h.past, h.waiting, h.sent, h.begun, h.fits⟩
  | restart callers =>
    cases hstep
    exact ⟨_, (h.restart hmet callers).accounted⟩

/-- **Usage is metered exactly**: in every run whose steps meet the condition,
once everything held is written the stored usage of every caller and hour is the
sum of its metered requests, and every admission is judged by no less than the
tokens answered on its day. -/
theorem usage_metered (hw : w.Begins)
    (hr : Reaches (step keyHash flushEvery) (Counts keyHash) w w') :
    w'.Exact ∧ ∀ i saves, Counts keyHash w' (.enter i saves) → w'.HoldsDay keyHash i := by
  obtain ⟨began, h⟩ := hr.invariant (I := fun w => ∃ began, Accounted began w)
    ⟨_, hw.accounted⟩ fun _ _ _ hi hmet hstep => accounted_step hi hmet hstep
  refine ⟨h.hours.exact, fun i saves hmet request caller hrequest hcaller => ?_⟩
  have hpending := h.waiting request (mem_of_getElem? hrequest)
  obtain ⟨hday, -⟩ := hmet request hrequest caller hcaller
  have hspent := h.days.spent hpending.1 hday
  refine ⟨Nat.le_of_eq hspent.symm, fun saves' hadmitted => ?_⟩
  rw [← hspent]
  rcases admission_cases keyHash saves' request.bearer request.hour w'.clock w'.state w'.store with
    heq | ⟨other, hother, heq | ⟨hlt, -⟩⟩
  · rw [heq] at hadmitted
    cases hadmitted
  · rw [heq] at hadmitted
    cases hadmitted
  · rw [hcaller] at hother
    cases hother
    exact hlt

/-! ## Small gateways -/

namespace SmallGateway

def hash (key : String) : String := key

def ada : Caller := ⟨"ada", "key", ⟨100, 50⟩, none⟩

/-- A gateway started at `utc` over an empty store. -/
def world (utc : ℕ) : World :=
  let clock : Clock := ⟨utc, 0⟩
  ⟨clock, start [ada] clock fun _ => [], fun _ => [], [], [], []⟩

theorem world_begins (utc : ℕ) : (world utc).Begins where
  started := rfl
  waiting := rfl
  sent := rfl
  sums _ _ := rfl
  keyed _ := nodup_nil
  past m hm := by cases hm
  fits _ _ := Nat.two_pow_pos 64

/-- Every write reaches the store. -/
def saved (_ : String) : Bool := true

/-- A request arrives, and is let in or refused. -/
def asked : List Step := [.arrive "key", .enter 0 saved]

/-- The first sent request is answered. -/
def answered (tokens : ℕ) : Step := .answer 0 200 (some (tokens, 0)) saved saved

/-- The condition, of runs without a restart. -/
def met (w : World) : Step → Bool
  | .enter i saves => decide (w.EnterCounts hash i saves)
  | .answer i status stated closing _ => decide (w.AnswerCounts i status stated closing)
  | .restart _ => false
  | _ => true

theorem counts_of_met (h : met w a = true) : Counts hash w a := by
  cases a with
  | enter i saves => exact of_decide_eq_true (p := w.EnterCounts hash i saves) h
  | answer i status stated closing saves =>
    exact of_decide_eq_true (p := w.AnswerCounts i status stated closing) h
  | restart callers => cases h
  | _ => trivial

/-- A request, one in the next hour, and one past the day's limit in the hour
after. -/
def threeHours : List Step :=
  asked ++ [answered 30, .tick 3600 3600000] ++ asked ++ [answered 30, .tick 3600 3600000] ++ asked

end SmallGateway

open SmallGateway in
theorem usage_metered_three_hours :
    ∃ w', Reaches (step hash 0) (Counts hash) (world 0) w' ∧
      w'.metered.map (·.hour) = [2, 1, 0] ∧ w'.Exact := by
  obtain ⟨w', hr, hw'⟩ :
      ∃ w', Reaches (step hash 0) (fun w a => met w a = true) (world 0) w' ∧
        decide (w'.metered.map (·.hour) = [2, 1, 0]) = true :=
    exists_reaches threeHours (fun w : World => decide (w.metered.map (·.hour) = [2, 1, 0]))
      (by decide +kernel)
  have hcounts := hr.mono fun _ _ => counts_of_met
  exact ⟨w', hcounts, of_decide_eq_true hw', (usage_metered (world_begins 0) hcounts).1⟩

namespace SmallGateway

/-- A request of the first hour is answered after one of the second, and a third
comes in the second hour. -/
def lateAnswer : List Step :=
  asked ++ [.tick 3600 3600000] ++ asked ++
    [.answer 1 200 (some (7, 0)) saved saved, answered 5] ++ asked ++ [answered 3]

/-- A request of the first day is answered after the second day's limit is
spent, and another of the second day comes. -/
def dayReopened : List Step :=
  asked ++ [.tick 86400 86400000] ++ asked ++
    [.answer 1 200 (some (50, 0)) saved saved, answered 5, .arrive "key"]

def overwritten (w : World) : Bool :=
  (UsageStore.hour (flush (fun _ => true) w.state w.store) "ada" 1).getD (.new "ada" 1) ≠
    totalOf w.metered "ada" 1

def reopened (w : World) : Bool := w.state.spent "ada" 1 < tokensOn w.metered "ada" 1

/-- Runs without a restart. -/
def unrestarted (_ : World) : Step → Bool
  | .restart _ => false
  | _ => true

theorem restartsFlushed (h : unrestarted w a = true) : RestartsFlushed w a := by
  cases a with
  | restart callers => cases h
  | _ => trivial

end SmallGateway

open SmallGateway in
/-- A late answer starts a stored hour again from nothing, and gives the day
back. -/
theorem late_answer_lost :
    (∃ w', Reaches (step hash 3600) RestartsFlushed (world 0) w' ∧ ¬w'.Exact) ∧
      ∃ w', Reaches (step hash 3600) RestartsFlushed (world 0) w' ∧ ¬w'.HoldsDay hash 0 := by
  constructor
  · obtain ⟨w', hr, hw'⟩ :
        ∃ w', Reaches (step hash 3600) (fun w a => unrestarted w a = true) (world 0) w' ∧
          overwritten w' = true :=
      exists_reaches lateAnswer overwritten (by decide +kernel)
    refine ⟨w', hr.mono fun _ _ => restartsFlushed, fun hexact => ?_⟩
    exact of_decide_eq_true hw' (hexact "ada" 1)
  · obtain ⟨w', hr, hw'⟩ :
        ∃ w', Reaches (step hash 3600) (fun w a => unrestarted w a = true) (world 0) w' ∧
          (reopened w' && decide (w'.waiting = [⟨"key", 24⟩]) &&
            decide (w'.state.callers = [ada])) = true :=
      exists_reaches dayReopened (fun w : World => reopened w && decide (w.waiting = [⟨"key", 24⟩]) &&
        decide (w.state.callers = [ada])) (by decide +kernel)
    rw [Bool.and_eq_true, Bool.and_eq_true] at hw'
    obtain ⟨⟨hlow, hwaiting⟩, hcallers⟩ := hw'
    have hwaiting' := of_decide_eq_true hwaiting
    have hcallers' := of_decide_eq_true hcallers
    refine ⟨w', hr.mono fun _ _ => restartsFlushed, fun hholds => ?_⟩
    have hread := (hholds ⟨"key", 24⟩ ada (by rw [hwaiting']; rfl) (by rw [hcallers']; rfl)).1
    exact absurd hread (Nat.not_le.mpr (of_decide_eq_true hlow))

end Stado.Inference
