import Stado.Autonomy.Planning

/-!
# What a pass keeps within

A pass that withdraws what each of its jobs takes stays within the instances of
every offer and within the budgets: what is left of an offer is what it had less the
jobs decided onto it, and an eligible candidate costs no more than what is left.
-/

namespace Stado.Autonomy

open List Option CapacityOffer Headroom

/-! ## What is counted -/

def PlacementCandidate.newCloud (candidate : PlacementCandidate) : Bool :=
  !candidate.existingCapacity && candidate.provider.isCloud

/-- The job of a decision is in the queue with that placement. -/
def Decision.stays (d : Decision) : Bool := d.placed ≠ .gone

def Pass.onto (pass : Pass) (k : ℕ) : List Decision :=
  pass.decisions.filter fun d => d.stays && d.offer = k

def Pass.ontoCloud (pass : Pass) : List Decision :=
  pass.decisions.filter fun d => d.stays && d.selected.newCloud

def hourlySum (decisions : List Decision) : ℚ :=
  (decisions.map fun d => d.selected.hourlyComputeUsd.getD 0).sum

def costSum (decisions : List Decision) : ℚ :=
  (decisions.map fun d => d.selected.expectedTotalCostUsd.getD 0).sum

structure Decision.Cheapest (d : Decision) : Prop where
  selected : d.candidates[d.offer]? = some d.selected
  eligible : d.selected.eligible = true
  least : ∀ c ∈ d.candidates, c.eligible = true → ∃ cost other,
    d.selected.expectedTotalCostUsd = some cost ∧ c.expectedTotalCostUsd = some other ∧ cost ≤ other

/-- A pass over offers and budgets stays within them. -/
structure Within (offers : List CapacityOffer) (budget : CloudBudget) (pass : Pass) : Prop where
  capacity : ∀ k offer, offers[k]? = some offer →
    (pass.onto k).length ≤ offer.availableInstances.toNat
  hourly : pass.ontoCloud ≠ [] → ∀ headroom, budget.hourlyUsd = some headroom →
    (hourlySum pass.ontoCloud : WithBot ℚ) ≤ headroom
  total : pass.ontoCloud ≠ [] → ∀ headroom, budget.totalUsd = some headroom →
    (costSum pass.ontoCloud : WithBot ℚ) ≤ headroom
  cheapest : ∀ d ∈ pass.decisions, d.Cheapest

theorem cost_le_of_order {left right : PlacementCandidate} {x y : ℚ}
    (hx : left.expectedTotalCostUsd = some x) (hy : right.expectedTotalCostUsd = some y) :
    (candidateOrder left right = .gt → y ≤ x) ∧ (candidateOrder left right ≠ .gt → x ≤ y) := by
  unfold candidateOrder
  rw [hx, hy]
  simp only [knownFirst]
  rcases lt_trichotomy x y with hlt | rfl | hgt
  · have hcompare : compare x y = .lt := compare_lt_iff_lt.mpr hlt
    simp [hcompare, Ordering.then, hlt.le]
  · simp
  · have hcompare : compare x y = .gt := compare_gt_iff_gt.mpr hgt
    simp [hcompare, Ordering.then, hgt.le]

/-- The fold keeps a cheapest of the candidates it has seen. -/
theorem foldl_better (held : PlacementCandidate × ℕ) (candidates : List (PlacementCandidate × ℕ))
    (hcosts : ∀ entry ∈ held :: candidates, entry.1.expectedTotalCostUsd.isSome = true) :
    ∃ best ∈ held :: candidates, candidates.foldl better (some held) = some best ∧
      ∀ entry ∈ held :: candidates, ∃ cost other, best.1.expectedTotalCostUsd = some cost ∧
        entry.1.expectedTotalCostUsd = some other ∧ cost ≤ other := by
  induction candidates generalizing held with
  | nil =>
    obtain ⟨x, hx⟩ := isSome_iff_exists.mp (hcosts held mem_cons_self)
    refine ⟨held, mem_cons_self, rfl, fun entry hentry => ?_⟩
    obtain rfl := mem_singleton.mp hentry
    exact ⟨x, x, hx, hx, le_refl x⟩
  | cons next rest ih =>
    obtain ⟨x, hx⟩ := isSome_iff_exists.mp (hcosts held mem_cons_self)
    obtain ⟨y, hy⟩ := isSome_iff_exists.mp
      (hcosts next (mem_cons_of_mem _ mem_cons_self))
    have horder := cost_le_of_order hx hy
    simp only [foldl_cons, better]
    split
    · next hgt =>
      obtain ⟨best, hmem, hfold, hleast⟩ := ih next
        fun entry hentry => hcosts entry (mem_cons_of_mem _ hentry)
      refine ⟨best, mem_cons_of_mem _ hmem, hfold, fun entry hentry => ?_⟩
      rcases mem_cons.mp hentry with rfl | hentry
      · obtain ⟨cost, other, hcost, hother, hle⟩ := hleast next mem_cons_self
        obtain rfl := Option.some.inj (hy.symm.trans hother)
        exact ⟨cost, x, hcost, hx, hle.trans (horder.1 hgt)⟩
      · exact hleast entry hentry
    · next hnot =>
      obtain ⟨best, hmem, hfold, hleast⟩ := ih held fun entry hentry => by
        rcases mem_cons.mp hentry with rfl | hentry
        · exact hcosts entry mem_cons_self
        · exact hcosts entry (mem_cons_of_mem _ (mem_cons_of_mem _ hentry))
      refine ⟨best, ?_, hfold, fun entry hentry => ?_⟩
      · rcases mem_cons.mp hmem with rfl | hmem
        · exact mem_cons_self
        · exact mem_cons_of_mem _ (mem_cons_of_mem _ hmem)
      · rcases mem_cons.mp hentry with rfl | hentry
        · exact hleast entry mem_cons_self
        · rcases mem_cons.mp hentry with rfl | hentry
          · obtain ⟨cost, other, hcost, hother, hle⟩ := hleast held mem_cons_self
            obtain rfl := Option.some.inj (hx.symm.trans hother)
            exact ⟨cost, y, hcost, hy, hle.trans (horder.2 hnot)⟩
          · exact hleast entry (mem_cons_of_mem _ hentry)

variable {selected : PlacementCandidate} {headroom : Headroom} {figure : Option ℚ}

theorem cheapest_of_select {candidates : List PlacementCandidate}
    {k : ℕ} (hcosts : ∀ c ∈ candidates, c.eligible = true → c.expectedTotalCostUsd.isSome = true)
    (h : selectCandidate candidates = some (selected, k)) {jobId : String} {placed : Placed} :
    (Decision.mk jobId selected k candidates placed).Cheapest := by
  unfold selectCandidate at h
  generalize hentries : (candidates.zipIdx.filter fun entry => entry.1.eligible) = entries at h
  have hof : ∀ entry ∈ entries, candidates[entry.2]? = some entry.1 ∧ entry.1.eligible = true := by
    intro entry hentry
    rw [← hentries, mem_filter] at hentry
    exact ⟨mem_zipIdx_iff_getElem?.mp hentry.1, hentry.2⟩
  cases entries with
  | nil => cases h
  | cons first rest =>
    obtain ⟨best, hmem, hfold, hleast⟩ := foldl_better first rest
      fun entry hentry => hcosts entry.1 (mem_of_getElem? (hof entry hentry).1)
        (hof entry hentry).2
    simp only [foldl_cons, better, hfold, Option.some.injEq] at h
    subst h
    refine ⟨(hof _ hmem).1, (hof _ hmem).2, fun c hc heligible => ?_⟩
    obtain ⟨j, hj⟩ := List.getElem?_of_mem hc
    refine hleast (c, j) (hentries ▸ mem_filter.mpr ⟨?_, heligible⟩)
    exact mem_zipIdx_iff_getElem?.mpr hj

/-! ## What an eligible candidate takes -/

theorem le_of_not_exceeds
    (h : exceeds headroom figure = false) : ∀ remaining, headroom = some remaining →
      ∃ amount, figure = some amount ∧ (amount : WithBot ℚ) ≤ remaining := by
  rintro remaining rfl
  cases figure with
  | none => cases h
  | some amount => exact ⟨amount, rfl, not_lt.mp (of_decide_eq_false h)⟩

variable {job : PlanJob} {budget : CloudBudget} {market : Market} {offer : CapacityOffer}
  {offers : List CapacityOffer}

/-- An offer that is not refused has instances left, and new cloud capacity is within
what is left of the budgets. -/
theorem rejections_empty {runtime : Option ℚ} {quote : Option PriceQuote} {regions : List String}
    {p : Pricing} (h : rejections job offer runtime quote regions budget market p = []) :
    0 < offer.availableInstances ∧ ((!offer.existing && offer.provider.isCloud) = true →
      exceeds budget.hourlyUsd p.hourly = false ∧ exceeds budget.totalUsd p.total = false) := by
  unfold rejections at h
  simp only at h
  rw [filterMap_eq_nil_iff] at h
  have hinstances := h _ (.tail _ (.tail _ (.head _)))
  have hbudget := h _ (.tail _ (.tail _ (.tail _ (.tail _ (.tail _ (.tail _ (.head _)))))))
  constructor
  · simpa using hinstances
  · intro hcloud
    rw [Bool.and_eq_true] at hcloud
    simpa [hcloud.1, hcloud.2] using hbudget

structure Affordable (offer : CapacityOffer) (budget : CloudBudget) (c : PlacementCandidate) :
    Prop where
  target : c.targetId = offer.targetId
  accelerator : c.acceleratorType = offer.acceleratorType
  instances : 0 < offer.availableInstances
  hourly : c.newCloud = true → exceeds budget.hourlyUsd c.hourlyComputeUsd = false
  total : c.newCloud = true → exceeds budget.totalUsd c.expectedTotalCostUsd = false

theorem affordable (h : (candidateFor job budget market offer).eligible = true) :
    Affordable offer budget (candidateFor job budget market offer) := by
  have hrejected := h
  simp only [candidateFor, candidate, Bool.and_eq_true, List.isEmpty_iff] at hrejected
  obtain ⟨hinstances, hbudget⟩ := rejections_empty hrejected.1
  exact ⟨rfl, rfl, hinstances, fun hcloud => (hbudget hcloud).1, fun hcloud => (hbudget hcloud).2⟩

theorem cost_of_eligible
    : ∀ c ∈ candidatesForJob job offers budget market, c.eligible = true →
      c.expectedTotalCostUsd.isSome = true := by
  intro c hc heligible
  obtain ⟨offer, -, rfl⟩ := List.mem_map.mp hc
  simp only [candidateFor, candidate, Bool.and_eq_true] at heligible
  exact heligible.2

/-- What an offer is found again by. -/
def CapacityOffer.key (offer : CapacityOffer) : String × String :=
  (offer.targetId, offer.acceleratorType)

def CapacityOffer.less (offer : CapacityOffer) (count : ℕ) : CapacityOffer :=
  { offer with availableInstances := offer.availableInstances - count }

theorem reserveOffer_getElem? {k : ℕ}
    (hkeys : (offers.map key).Nodup) (hk : offers[k]? = some offer)
    (hkey : offer.key = (selected.targetId, selected.acceleratorType))
    (hpos : 0 < offer.availableInstances) (j : ℕ) :
    (reserveOffer selected offers)[j]? =
      (offers[j]?).map fun o => if j = k then o.less 1 else o := by
  induction offers generalizing k j with
  | nil => cases hk
  | cons first rest ih =>
    rw [map_cons, nodup_cons] at hkeys
    unfold reserveOffer
    cases k with
    | zero =>
      obtain rfl : first = offer := by simpa using hk
      obtain ⟨htarget, haccelerator⟩ := Prod.mk.inj hkey
      rw [if_pos ⟨htarget, haccelerator⟩]
      cases j with
      | zero =>
        have hmax : max (first.availableInstances - 1) (-2 ^ 63) =
            first.availableInstances - 1 := max_eq_left (by omega)
        simp only [List.getElem?_cons_zero, hmax]
        rfl
      | succ j => simp
    | succ k =>
      have hk : rest[k]? = some offer := by simpa using hk
      have hother : ¬ (first.targetId = selected.targetId ∧
          first.acceleratorType = selected.acceleratorType) := by
        rintro ⟨htarget, haccelerator⟩
        refine hkeys.1 (List.mem_map.mpr ⟨offer, mem_of_getElem? hk, ?_⟩)
        rw [hkey, key, htarget, haccelerator]
      rw [if_neg hother]
      cases j with
      | zero => simp
      | succ j => simpa using ih hkeys.2 hk j

/-! ## The account of a pass -/

structure Accounted (offers : List CapacityOffer) (budget : CloudBudget) (pass : Pass) : Prop
    extends Within offers budget pass where
  kept : ∀ k : ℕ, pass.offers[k]? = (offers[k]?).map fun offer => offer.less (pass.onto k).length
  hourlyLeft : pass.budget.hourlyUsd = spend budget.hourlyUsd (hourlySum pass.ontoCloud)
  totalLeft : pass.budget.totalUsd = spend budget.totalUsd (costSum pass.ontoCloud)

theorem spend_zero (headroom : Headroom) : headroom.spend 0 = headroom := by
  cases headroom with
  | none => rfl
  | some remaining =>
    cases remaining with
    | bot => rfl
    | coe amount => exact congrArg (fun a : ℚ => some (a : WithBot ℚ)) (sub_zero amount)

theorem spend_spend (headroom : Headroom) (a b : ℚ) :
    spend (headroom.spend a) b = headroom.spend (a + b) := by
  cases headroom with
  | none => rfl
  | some remaining =>
    cases remaining with
    | bot => rfl
    | coe amount => exact congrArg (fun a : ℚ => some (a : WithBot ℚ)) (sub_sub amount a b)

/-- What is no more than what is left fits on top of what was spent. -/
theorem add_le_of_left {a : ℚ} (h : exceeds (headroom.spend a) figure = false) :
    ∀ remaining, headroom = some remaining → ((a + figure.getD 0 : ℚ) : WithBot ℚ) ≤ remaining := by
  rintro remaining rfl
  obtain ⟨amount, rfl, hle⟩ := le_of_not_exceeds h _ rfl
  cases remaining with
  | bot => exact absurd hle (by simp)
  | coe limit =>
    have hle : amount ≤ limit - a := WithBot.coe_le_coe.mp hle
    exact WithBot.coe_le_coe.mpr (le_sub_iff_add_le'.mp hle)

theorem after_newCloud (budget : CloudBudget) (h : selected.newCloud = true) :
    (budget.after selected).hourlyUsd = spend budget.hourlyUsd (selected.hourlyComputeUsd.getD 0) ∧
      (budget.after selected).totalUsd =
        spend budget.totalUsd (selected.expectedTotalCostUsd.getD 0) := by
  unfold PlacementCandidate.newCloud at h
  rw [Bool.and_eq_true] at h
  unfold CloudBudget.after
  rw [if_pos h]
  constructor
  · cases selected.hourlyComputeUsd with
    | none => exact (spend_zero _).symm
    | some hourly => rfl
  · cases selected.expectedTotalCostUsd with
    | none => exact (spend_zero _).symm
    | some cost => rfl

theorem after_other (h : selected.newCloud = false) : budget.after selected = budget := by
  unfold PlacementCandidate.newCloud at h
  unfold CloudBudget.after
  rw [if_neg]
  rw [← Bool.and_eq_true, h]
  exact Bool.false_ne_true

section

variable {offers : List CapacityOffer} {budget : CloudBudget} {pass : Pass} {market : Market}
  {job : PlanJob} {selected : PlacementCandidate} {k : ℕ} {pass' : Pass}

/-- Before anything is decided. -/
theorem Accounted.start (summary : PlacementRunSummary) :
    Accounted offers budget ⟨offers, budget, summary, []⟩ := by
  refine ⟨⟨fun _ _ _ => Nat.zero_le _, fun h => absurd rfl h, fun h => absurd rfl h, by simp⟩,
    fun k => ?_, (spend_zero _).symm, (spend_zero _).symm⟩
  simp [Pass.onto, less]

theorem Accounted.same (h : Accounted offers budget pass)
    (hoffers : pass'.offers = pass.offers) (hbudget : pass'.budget = pass.budget)
    (hdecisions : pass'.decisions = pass.decisions) : Accounted offers budget pass' := by
  obtain ⟨offers', budget', summary', decisions'⟩ := pass'
  simp only at hoffers hbudget hdecisions
  subst hoffers hbudget hdecisions
  exact ⟨⟨h.capacity, h.hourly, h.total, h.cheapest⟩, h.kept, h.hourlyLeft, h.totalLeft⟩

theorem Accounted.keys (h : Accounted offers budget pass) :
    pass.offers.map key = offers.map key := by
  refine ext_getElem? fun j => ?_
  rw [List.getElem?_map, List.getElem?_map, h.kept j, Option.map_map]
  rfl

variable {placed : Placed} {candidates : List PlacementCandidate} {left : CapacityOffer}

theorem onto_decided (j : ℕ) :
    (pass.decided job selected k candidates placed).onto j =
      pass.onto j ++ if placed ≠ .gone ∧ k = j then
        [⟨job.jobId, selected, k, candidates, placed⟩] else [] := by
  simp [Pass.onto, Pass.decided, filter_append, filter_singleton, Decision.stays]

theorem ontoCloud_decided :
    (pass.decided job selected k candidates placed).ontoCloud =
      pass.ontoCloud ++ if placed ≠ .gone ∧ selected.newCloud = true then
        [⟨job.jobId, selected, k, candidates, placed⟩] else [] := by
  simp [Pass.ontoCloud, Pass.decided, filter_append, filter_singleton, Decision.stays]

theorem less_less (offer : CapacityOffer) (count : ℕ) :
    (offer.less count).less 1 = offer.less (count + 1) := by
  unfold less
  congr 1
  push_cast
  omega

theorem hourlySum_append (decisions : List Decision) (d : Decision) :
    hourlySum (decisions ++ [d]) = hourlySum decisions + d.selected.hourlyComputeUsd.getD 0 := by
  simp [hourlySum]

theorem costSum_append (decisions : List Decision) (d : Decision) :
    costSum (decisions ++ [d]) = costSum decisions + d.selected.expectedTotalCostUsd.getD 0 := by
  simp [costSum]

theorem affordable_of_select
    (hselect : selectCandidate (candidatesForJob job pass.offers pass.budget market) =
      some (selected, k)) :
    ∃ left, pass.offers[k]? = some left ∧ Affordable left pass.budget selected := by
  have hcheapest : (Decision.mk job.jobId selected k
      (candidatesForJob job pass.offers pass.budget market) .changed).Cheapest :=
    cheapest_of_select cost_of_eligible hselect
  have hget := hcheapest.selected
  simp only [candidatesForJob, List.getElem?_map, map_eq_some_iff] at hget
  obtain ⟨left, hleft, rfl⟩ := hget
  exact ⟨left, hleft, affordable hcheapest.eligible⟩

theorem Accounted.kept_changed (h : Accounted offers budget pass) (hkeys : (offers.map key).Nodup)
    (hleft : pass.offers[k]? = some left) (hafford : Affordable left pass.budget selected) (j : ℕ) :
    (reserveOffer selected pass.offers)[j]? = (offers[j]?).map fun offer =>
      offer.less ((pass.onto j).length + if k = j then 1 else 0) := by
  have hkey : left.key = (selected.targetId, selected.acceleratorType) := by
    rw [key, hafford.target, hafford.accelerator]
  rw [reserveOffer_getElem? (h.keys ▸ hkeys) hleft hkey hafford.instances j, h.kept j,
    Option.map_map]
  congr 1
  funext offer
  by_cases hj : j = k
  · subst hj
    simp [less_less]
  · simp [hj, Ne.symm hj]

theorem Accounted.budget_changed (h : Accounted offers budget pass)
    (hafford : Affordable left pass.budget selected)
    (hpass : pass' = pass.decided job selected k candidates .changed) :
    ((pass'.ontoCloud ≠ [] → ∀ headroom, budget.hourlyUsd = some headroom →
        (hourlySum pass'.ontoCloud : WithBot ℚ) ≤ headroom) ∧
      (pass'.ontoCloud ≠ [] → ∀ headroom, budget.totalUsd = some headroom →
        (costSum pass'.ontoCloud : WithBot ℚ) ≤ headroom)) ∧
    pass'.budget.hourlyUsd = spend budget.hourlyUsd (hourlySum pass'.ontoCloud) ∧
      pass'.budget.totalUsd = spend budget.totalUsd (costSum pass'.ontoCloud) := by
  have hbudget : pass'.budget = pass.budget.after selected := by
    simp [hpass, Pass.decided]
  cases hcloud : selected.newCloud with
  | true =>
    have honto : pass'.ontoCloud =
        pass.ontoCloud ++ [⟨job.jobId, selected, k, candidates, .changed⟩] := by
      rw [hpass, ontoCloud_decided]
      simp [hcloud]
    obtain ⟨hhourly, htotal⟩ := after_newCloud pass.budget hcloud
    have hfirst := hafford.hourly hcloud
    have hsecond := hafford.total hcloud
    rw [h.hourlyLeft] at hhourly hfirst
    rw [h.totalLeft] at htotal hsecond
    rw [hbudget, honto, hourlySum_append, costSum_append, hhourly, htotal]
    exact ⟨⟨fun _ => add_le_of_left hfirst, fun _ => add_le_of_left hsecond⟩,
      spend_spend _ _ _, spend_spend _ _ _⟩
  | false =>
    have honto : pass'.ontoCloud = pass.ontoCloud := by
      rw [hpass, ontoCloud_decided]
      simp [hcloud]
    rw [hbudget, after_other hcloud, honto]
    exact ⟨⟨h.hourly, h.total⟩, h.hourlyLeft, h.totalLeft⟩

theorem Accounted.decided (h : Accounted offers budget pass) (hkeys : (offers.map key).Nodup)
    (hselect : selectCandidate (candidatesForJob job pass.offers pass.budget market) =
      some (selected, k)) (hplaced : placed ≠ .stood) :
    Accounted offers budget (pass.decided job selected k
      (candidatesForJob job pass.offers pass.budget market) placed) := by
  have hcheapest : ∀ d ∈ (pass.decided job selected k
      (candidatesForJob job pass.offers pass.budget market) placed).decisions, d.Cheapest := by
    intro d hd
    rcases mem_append.mp hd with hd | hd
    · exact h.cheapest d hd
    · rw [mem_singleton.mp hd]
      exact cheapest_of_select cost_of_eligible hselect
  cases placed with
  | stood => exact absurd rfl hplaced
  | gone =>
    have honto : ∀ j, (pass.decided job selected k
        (candidatesForJob job pass.offers pass.budget market) .gone).onto j = pass.onto j :=
      fun j => (onto_decided j).trans (by simp)
    have hcloud : (pass.decided job selected k
        (candidatesForJob job pass.offers pass.budget market) .gone).ontoCloud = pass.ontoCloud :=
      ontoCloud_decided.trans (by simp)
    refine ⟨⟨fun j offer hj => ?_, ?_, ?_, hcheapest⟩, fun j => ?_, ?_, ?_⟩
    · rw [honto j]
      exact h.capacity j offer hj
    · rw [hcloud]
      exact h.hourly
    · rw [hcloud]
      exact h.total
    · rw [honto j]
      exact h.kept j
    · rw [hcloud]
      exact h.hourlyLeft
    · rw [hcloud]
      exact h.totalLeft
  | changed =>
    obtain ⟨left, hleft, hafford⟩ := affordable_of_select hselect
    have honto : ∀ j, ((pass.decided job selected k
        (candidatesForJob job pass.offers pass.budget market) .changed).onto j).length =
          (pass.onto j).length + if k = j then 1 else 0 := by
      intro j
      rw [onto_decided]
      by_cases hj : k = j <;> simp [hj]
    obtain ⟨⟨hhourly, htotal⟩, hhourlyLeft, htotalLeft⟩ := h.budget_changed hafford rfl
    refine ⟨⟨fun j offer hj => ?_, hhourly, htotal, hcheapest⟩, fun j => ?_, hhourlyLeft,
      htotalLeft⟩
    · rw [honto j]
      have hle := h.capacity j offer hj
      by_cases hjk : k = j
      · subst hjk
        have hkept := h.kept k
        rw [hleft, hj, map_some, Option.some.injEq] at hkept
        have hpos := hafford.instances
        rw [hkept] at hpos
        simp only [less, if_true] at hpos ⊢
        omega
      · simpa [hjk] using hle
    · rw [honto j]
      exact h.kept_changed hkeys hleft hafford j

end

end Stado.Autonomy
