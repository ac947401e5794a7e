import Mathlib.Data.List.Sublists
import Stado.Schedules.Fire

/-!
# The days of a day-of-week field

An item gives the days it means, except that a step of 1 after a day and any
other step after Sunday's 7 lose days, and that an addition may leave the byte
it is made in.
-/

namespace Stado.Schedules

open DowItem List Option

/-- The days an item means: `N/step` runs from `N` to Saturday, and 7 is Sunday. -/
def DowItem.Means (item : DowItem) (d : ℕ) : Prop :=
  match item.base, item.step with
  | .every, step => d ≤ 6 ∧ step.getD 1 ∣ d
  | .range lo hi, step =>
    ∃ value, lo ≤ value ∧ value ≤ rangeEnd lo hi ∧ step.getD 1 ∣ value - lo ∧ value % 7 = d
  | .day value, none => d = value % 7
  | .day value, some step => value % 7 ≤ d ∧ d ≤ 6 ∧ step ∣ d - value % 7

/-- The days among these that the item loses: `N/1` gives only `N`, and
`7/step` nothing. -/
def DowItem.Loses (item : DowItem) (d : ℕ) : Prop :=
  match item.base, item.step with
  | .day value, some step => if step = 1 then d ≠ value % 7 else 6 < value
  | _, _ => False

/-- The last value an item goes through, if it goes through any, and its step
after it fit a byte. -/
def DowItem.Fits (item : DowItem) : Prop :=
  let step := item.step.getD 1
  match item.base with
  | .every => True
  | .range lo hi =>
    rangeEnd lo hi < lo ∨ lo + ((rangeEnd lo hi - lo) / step + 1) * step < 256
  | .day value => step = 1 ∨ 6 < value ∨ value + ((6 - value) / step + 1) * step < 256

/-- An addition of the item's loop leaves the byte. -/
def DowItem.Overflows (item : DowItem) : Prop :=
  ∃ raw ∈ item.loop, 256 ≤ raw + item.step.getD 1

/-! ## The loop -/

variable {hi step raw turns : ℕ} {d : ℕ}

theorem mem_rawValues (hstep : 0 < step) (hturns : hi < raw + turns)
    (hfits : ∀ value ∈ rawValues hi step turns raw, value + step < 256) :
    d ∈ rawValues hi step turns raw ↔ raw ≤ d ∧ d ≤ hi ∧ step ∣ d - raw := by
  induction turns generalizing raw with
  | zero =>
    refine ⟨fun h => absurd h not_mem_nil, fun h => ?_⟩
    omega
  | succ turns ih =>
    rw [rawValues] at hfits ⊢
    split
    · rename_i hle
      rw [if_pos hle] at hfits
      obtain ⟨hfirst, hlater⟩ := forall_mem_cons.mp hfits
      rw [Nat.mod_eq_of_lt hfirst] at hlater ⊢
      rw [mem_cons, ih (by omega) hlater]
      constructor
      · rintro (rfl | ⟨hge, hd, hdvd⟩)
        · exact ⟨le_rfl, hle, by simp⟩
        · refine ⟨by omega, hd, ?_⟩
          rw [show d - raw = d - (raw + step) + step by omega]
          exact (Nat.dvd_add_self_right).mpr hdvd
      · rintro ⟨hge, hd, hdvd⟩
        rcases Nat.eq_or_lt_of_le hge with rfl | hlt
        · exact .inl rfl
        · have hle' : step ≤ d - raw := Nat.le_of_dvd (by omega) hdvd
          refine .inr ⟨by omega, hd, ?_⟩
          rw [show d - (raw + step) = d - raw - step by omega]
          exact Nat.dvd_sub hdvd (Nat.dvd_refl step)
    · rename_i hgt
      refine ⟨fun h => absurd h not_mem_nil, fun h => ?_⟩
      omega

/-- No addition leaves the byte exactly when the one after the last value of
the progression stays in it. -/
theorem rawValues_fit (hstep : 0 < step) (hturns : hi < raw + turns) :
    (∀ value ∈ rawValues hi step turns raw, value + step < 256) ↔
      hi < raw ∨ raw + ((hi - raw) / step + 1) * step < 256 := by
  by_cases hle : raw ≤ hi
  case neg =>
    refine iff_of_true (fun value hvalue => ?_) (.inl (not_le.mp hle))
    cases turns with
    | zero => exact absurd hvalue not_mem_nil
    | succ turns =>
      rw [rawValues, if_neg hle] at hvalue
      exact absurd hvalue not_mem_nil
  rw [or_iff_right (not_lt.mpr hle)]
  have hlast : raw + (hi - raw) / step * step ≤ hi := by
    have := Nat.div_mul_le_self (hi - raw) step
    omega
  rw [Nat.succ_mul, ← Nat.add_assoc]
  constructor
  · intro h
    refine h _ ((mem_rawValues hstep hturns h).mpr ⟨Nat.le_add_right .., hlast, ?_⟩)
    rw [Nat.add_sub_cancel_left]
    exact Nat.dvd_mul_left ..
  · intro h
    have hvalues : ∀ turns value, raw ≤ value → step ∣ value - raw →
        ∀ later ∈ rawValues hi step turns value, later + step < 256 := by
      intro turns
      induction turns with
      | zero => exact fun _ _ _ _ hlater => absurd hlater not_mem_nil
      | succ turns ih =>
        intro value hge hdvd
        rw [rawValues]
        split
        · obtain ⟨times, htimes⟩ := hdvd
          have hcount : times * step ≤ (hi - raw) / step * step := by
            refine Nat.mul_le_mul_right step ((Nat.le_div_iff_mul_le hstep).mpr ?_)
            rw [Nat.mul_comm, ← htimes]
            omega
          have hfits : value + step < 256 := by
            rw [Nat.mul_comm] at htimes
            omega
          refine forall_mem_cons.mpr ⟨hfits, ?_⟩
          rw [Nat.mod_eq_of_lt hfits]
          refine ih (value + step) (by omega) ⟨times + 1, ?_⟩
          rw [Nat.mul_succ, ← htimes]
          omega
        · exact fun _ hlater => absurd hlater not_mem_nil
    exact hvalues turns raw le_rfl (by simp)

/-! ## Items -/

variable {item : DowItem} {items : List DowItem} {lib : Libraries}

theorem mem_stepped (hstep : 0 < step) {lo d : ℕ} :
    d ∈ stepped lo hi step ↔ lo ≤ d ∧ d ≤ hi ∧ step ∣ d - lo := by
  unfold stepped
  by_cases hle : lo ≤ hi
  · rw [if_pos hle, List.mem_map]
    constructor
    · rintro ⟨times, htimes, rfl⟩
      have hcount : times * step ≤ hi - lo :=
        (Nat.le_div_iff_mul_le hstep).mp (Nat.lt_succ_iff.mp (mem_range.mp htimes))
      refine ⟨Nat.le_add_right .., by omega, ?_⟩
      rw [Nat.add_sub_cancel_left]
      exact Nat.dvd_mul_left ..
    · rintro ⟨hge, hd, times, htimes⟩
      rw [Nat.mul_comm] at htimes
      refine ⟨times, mem_range.mpr (Nat.lt_succ_iff.mpr ?_), by omega⟩
      exact (Nat.le_div_iff_mul_le hstep).mpr (by omega)
  · rw [if_neg hle]
    refine ⟨fun h => absurd h not_mem_nil, fun h => ?_⟩
    omega

theorem fits_iff (hstep : 0 < item.step.getD 1) : item.Fits ↔ ¬item.Overflows := by
  have hnone (values : List ℕ) : (¬∃ raw ∈ values, 256 ≤ raw + item.step.getD 1) ↔
      ∀ raw ∈ values, raw + item.step.getD 1 < 256 := by simp
  obtain ⟨base, step⟩ := item
  cases base with
  | every => simp [Fits, Overflows, loop]
  | range lo hi => exact ((hnone _).trans (rawValues_fit hstep (by omega))).symm
  | day value =>
    unfold Fits Overflows loop
    dsimp only
    by_cases hone : step.getD 1 = 1
    · simp [hone]
    · rw [if_neg hone, hnone]
      exact (or_iff_right hone).trans (rawValues_fit hstep (by omega)).symm

/-- An item that fits gives the days it means and does not lose. -/
theorem mem_days (hstep : 0 < item.step.getD 1) (hfits : item.Fits) :
    d ∈ item.days ↔ item.Means d ∧ ¬item.Loses d := by
  have hraw : ∀ value ∈ item.loop, value + item.step.getD 1 < 256 := by
    simpa [Overflows] using (fits_iff hstep).mp hfits
  obtain ⟨base, step⟩ := item
  cases base with
  | every =>
    show d ∈ stepped 0 6 (step.getD 1) ↔ _
    rw [mem_stepped hstep]
    simp [Means, Loses]
  | range lo hi =>
    show d ∈ (rawValues _ _ _ lo).map (· % 7) ↔ _
    rw [List.mem_map]
    simp only [mem_rawValues hstep (by omega) hraw, Means, Loses, and_assoc,
      not_false_eq_true, and_true]
  | day value =>
    cases step with
    | none => simp [days, Means, Loses]
    | some step =>
      have hstep : 0 < step := hstep
      show d ∈ (if step = 1 then [value % 7] else
        (loop ⟨.day value, some step⟩).map (· % 7)) ↔
          (value % 7 ≤ d ∧ d ≤ 6 ∧ step ∣ d - value % 7) ∧
            ¬(if step = 1 then d ≠ value % 7 else 6 < value)
      by_cases hone : step = 1
      · rw [if_pos hone, if_pos hone, mem_singleton, not_not, hone]
        refine ⟨fun h => ⟨⟨by omega, by omega, Nat.one_dvd _⟩, h⟩, fun h => h.2⟩
      · have hloop : loop ⟨.day value, some step⟩ = rawValues 6 step 7 value := if_neg hone
        rw [hloop] at hraw
        rw [if_neg hone, if_neg hone, hloop, List.mem_map]
        simp only [mem_rawValues hstep (by omega) hraw]
        constructor
        · rintro ⟨raw, ⟨hge, hle, hdvd⟩, rfl⟩
          rw [Nat.mod_eq_of_lt (by omega : value < 7), Nat.mod_eq_of_lt (by omega : raw < 7)]
          exact ⟨⟨hge, hle, hdvd⟩, by omega⟩
        · rintro ⟨⟨hge, hle, hdvd⟩, hvalue⟩
          rw [Nat.mod_eq_of_lt (by omega : value < 7)] at hge hdvd
          exact ⟨d, ⟨hge, hle, hdvd⟩, Nat.mod_eq_of_lt (by omega)⟩

/-! ## Fields -/

theorem dowText_injective {days others : List ℕ} (hdays : days.Sublist (List.range 7))
    (hothers : others.Sublist (List.range 7)) (h : dowText days = dowText others) :
    days = others := by
  have hread : ∀ days ∈ (List.range 7).sublists,
      (((dowText days).getD "").toList.filter Char.isDigit).map (fun c => c.toNat - 49) = days := by
    decide +kernel
  rw [← hread days (List.mem_sublists.mpr hdays), h, hread others (List.mem_sublists.mpr hothers)]

/-- The items a field is read as. -/
def readField (lib : Libraries) (field : String) : Option (List DowItem) :=
  ((splitAt field ',').map trim).mapM (readDow lib)

open Classical in
/-- The days a field means, in order. -/
noncomputable def fieldDays (items : List DowItem) : List ℕ :=
  (List.range 7).filter fun d => ∃ item ∈ items, item.Means d

theorem mem_fieldDays : d ∈ fieldDays items ↔ d < 7 ∧ ∃ item ∈ items, item.Means d := by
  simp [fieldDays]

theorem DowItem.Means.lt (h : item.Means d) : d < 7 := by
  unfold Means at h
  split at h
  · omega
  · obtain ⟨value, -, -, -, rfl⟩ := h
    omega
  · omega
  · omega

theorem readDow_step {text : String} (h : readDow lib text = some item) : 0 < item.step.getD 1 := by
  unfold readDow at h
  split at h
  · cases h
  obtain ⟨⟨base, step⟩, hread, hbase⟩ := bind_eq_some_iff.mp h
  have hstep : 0 < step.getD 1 := by
    unfold readStep at hread
    split at hread
    · obtain ⟨value, hvalue, heq⟩ := map_eq_some_iff.mp hread
      cases heq
      exact of_decide_eq_true (filter_eq_some_iff.mp hvalue).2
    · cases hread
      exact Nat.one_pos
  dsimp only at hbase
  split at hbase
  · cases hbase
    exact hstep
  · split at hbase
    · obtain ⟨lo, -, hrange⟩ := bind_eq_some_iff.mp hbase
      obtain ⟨hi, -, heq⟩ := bind_eq_some_iff.mp hrange
      cases heq
      exact hstep
    · obtain ⟨value, -, heq⟩ := bind_eq_some_iff.mp hbase
      cases heq
      exact hstep

theorem mapM_days {texts : List String} (h : texts.mapM (readDow lib) = some items) :
    texts.mapM (dowItem lib) = some (items.map days) ∧ ∀ item ∈ items, 0 < item.step.getD 1 := by
  induction texts generalizing items with
  | nil =>
    cases h
    exact ⟨rfl, fun _ hitem => absurd hitem not_mem_nil⟩
  | cons text texts ih =>
    rw [mapM_cons] at h
    obtain ⟨item, hitem, hlater⟩ := bind_eq_some_iff.mp h
    obtain ⟨later, hread, heq⟩ := bind_eq_some_iff.mp hlater
    cases heq
    obtain ⟨hdays, hsteps⟩ := ih hread
    refine ⟨?_, forall_mem_cons.mpr ⟨readDow_step hitem, hsteps⟩⟩
    rw [mapM_cons, hdays, dowItem, hitem]
    rfl

/-- A field gives the days it means, with no addition leaving its byte, exactly
when every item's additions fit and the days an item loses are given by others. -/
theorem days_expanded {field : String} (hread : readField lib field = some items) :
    (expandDow lib field = dowText (fieldDays items) ∧ ∀ item ∈ items, ¬item.Overflows) ↔
      (∀ item ∈ items, item.Fits) ∧ ∀ item ∈ items, ∀ d, item.Means d → item.Loses d →
        ∃ other ∈ items, other.Means d ∧ ¬other.Loses d := by
  obtain ⟨hdays, hsteps⟩ := mapM_days hread
  have hfits : (∀ item ∈ items, ¬item.Overflows) ↔ ∀ item ∈ items, item.Fits :=
    forall₂_congr fun item hitem => (fits_iff (hsteps item hitem)).symm
  have hexpand : expandDow lib field =
      dowText ((List.range 7).filter (· ∈ (items.map days).flatten)) := by
    rw [expandDow, hdays]
    rfl
  rw [hfits, hexpand, and_comm]
  refine and_congr_right fun hall => ?_
  have hgiven (d : ℕ) : d ∈ (items.map days).flatten ↔
      ∃ item ∈ items, item.Means d ∧ ¬item.Loses d := by
    rw [mem_flatten]
    constructor
    · rintro ⟨_, hin, hd⟩
      obtain ⟨item, hitem, rfl⟩ := List.mem_map.mp hin
      exact ⟨item, hitem, (mem_days (hsteps item hitem) (hall item hitem)).mp hd⟩
    · rintro ⟨item, hitem, hd⟩
      exact ⟨_, List.mem_map_of_mem hitem, (mem_days (hsteps item hitem) (hall item hitem)).mpr hd⟩
  constructor
  · intro h item hitem d hmeans hloses
    have hsame : (List.range 7).filter (· ∈ (items.map days).flatten) = fieldDays items :=
      dowText_injective filter_sublist filter_sublist h
    have hin : d ∈ fieldDays items := mem_fieldDays.mpr ⟨hmeans.lt, item, hitem, hmeans⟩
    rw [← hsame, mem_filter, decide_eq_true_eq] at hin
    exact (hgiven d).mp hin.2
  · intro h
    unfold fieldDays
    refine congrArg dowText (List.filter_congr fun d _ => ?_)
    rw [decide_eq_decide, hgiven]
    constructor
    · rintro ⟨item, hitem, hmeans, -⟩
      exact ⟨item, hitem, hmeans⟩
    · rintro ⟨item, hitem, hmeans⟩
      by_cases hloses : item.Loses d
      · exact h item hitem d hmeans hloses
      · exact ⟨item, hitem, hmeans, hloses⟩

theorem days_expanded_weekdays :
    expandDow minutes "1-5" = dowText (fieldDays [⟨.range 1 5, none⟩]) := by
  refine ((@days_expanded _ minutes "1-5" (by decide +kernel)).mpr ⟨?_, ?_⟩).1
  · simp [Fits, rangeEnd]
  · simp [Loses]

/-- A step of 255 takes the byte back to 0, and Sunday comes with Monday. -/
theorem step_wraps :
    expandDow minutes "1-5/255" = dowText [0, 1] ∧
      ¬∀ (lib : Libraries) (field : String) (items : List DowItem), readField lib field = some items →
        expandDow lib field = dowText (fieldDays items) ∧ ∀ item ∈ items, ¬item.Overflows := by
  refine ⟨by decide +kernel, fun hall => ?_⟩
  have hloop := (hall minutes "1-5/255" [⟨.range 1 5, some 255⟩] (by decide +kernel)).2
  exact hloop _ (mem_singleton_self _) ⟨1, by decide, by decide⟩

end Stado.Schedules
