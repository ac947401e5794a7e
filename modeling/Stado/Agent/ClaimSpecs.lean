import Stado.Agent.Claim

/-!
# What the gates offer and what a turn can do

One rule for each part of a tick: the free figure against the boards offered,
the boards a reservation leaves, and the only two ways a candidate's turn ends.
-/

namespace Stado.Agent

open List Option Reading

variable {H : Host} {A : Reading} {scan : Scan} {slots : List Slot} {turn : Turn}
  {need cores : Int64}

/-! ## Taking a need off a figure -/

variable {n : Int64} {cards : List GpuCard} {offer offer' : Offer}
  {offered offered' : Int64 × List GpuCard} {reservation : Reservation} {a : Int64}

theorem zero_le_iff : 0 ≤ n ↔ 0 ≤ n.toInt := by
  rw [Int64.le_iff_toInt_le, Int64.toInt_zero]

theorem zero_lt_iff : 0 < n ↔ 0 < n.toInt := by
  rw [Int64.lt_iff_toInt_lt, Int64.toInt_zero]

theorem le_zero_iff : n ≤ 0 ↔ n.toInt ≤ 0 := by
  rw [Int64.le_iff_toInt_le, Int64.toInt_zero]

/-- No subtraction of a need that fits leaves the range. -/
theorem toInt_sub_of_fits (hn : 0 ≤ n) (ha : 0 < n → n ≤ a) :
    (a - n).toInt = a.toInt - n.toInt := by
  have hlt := Int64.toInt_lt a
  have hge := Int64.le_toInt a
  rw [zero_lt_iff, Int64.le_iff_toInt_le] at ha
  rw [zero_le_iff] at hn
  rw [Int64.toInt_sub, Int.bmod_eq_of_le]
  · omega
  · omega

theorem sub_le_of_fits (hn : 0 ≤ n) (ha : 0 < n → n ≤ a) : a - n ≤ a := by
  rw [Int64.le_iff_toInt_le, toInt_sub_of_fits hn ha]
  rw [zero_le_iff] at hn
  omega

theorem sub_min_of_le (h : n ≤ a) : a - min n a = a - n := by
  rw [Std.LawfulOrderLeftLeaningMin.min_eq_left n a h]

instance maxEqOrInt64 : Std.MaxEqOr Int64 where
  max_eq_or a b := by
    have hmax : max a b = if a ≤ b then b else a := rfl
    rw [hmax]
    split
    · exact .inr rfl
    · exact .inl rfl

theorem freeForOneJob_total (total : Int64) (cards : List GpuCard) :
    freeForOneJob total total cards ≤ 0 := by
  have hbooked : total - min total total = 0 := by rw [Std.min_self, Int64.sub_self]
  unfold freeForOneJob
  simp only [hbooked]
  split
  · exact Std.min_le_left
  · exact Std.le_refl _

/-- Where a board with a reading is offered, one has at least the free figure. -/
theorem exists_freeForOneJob_le (total used : Int64) (h : ∃ card ∈ cards, 0 ≤ card.freeVramGb) :
    ∃ card ∈ cards, freeForOneJob total used cards ≤ card.freeVramGb := by
  obtain ⟨card, hcard, hnonneg⟩ := h
  unfold freeForOneJob
  split
  · next emptiest hmax =>
    have hmem := List.max?_mem hmax
    rw [mem_filter, List.mem_map] at hmem
    obtain ⟨⟨card', hcard', rfl⟩, -⟩ := hmem
    exact ⟨card', hcard', Std.min_le_right⟩
  · next hnone =>
    rw [List.max?_eq_none_iff, filter_eq_nil_iff] at hnone
    have hnot := hnone card.freeVramGb (List.mem_map_of_mem hcard)
    rw [decide_eq_true_eq] at hnot
    exact absurd hnonneg hnot

/-! ## The boards a reservation leaves -/

/-- The driver's boards, in its own order. -/
def Reading.boards (A : Reading) : List GpuCard :=
  match A.driver with
  | .ok driver => driver.boards
  | .error _ => []

theorem Reading.boards_named (A : Reading) : (A.boards.map (·.uuid)).Nodup := by
  unfold boards
  split
  · next driver _ => exact driver.named
  · exact nodup_nil

/-- Whether the host's reservation takes the board: the one an exclusive
reservation names, every board where it names none the driver reports or cannot
be read, and every board while a yieldable engine serves. -/
def Reading.withdraws (A : Reading) (card : GpuCard) : Bool :=
  match A.reservation with
  | .error _ => true
  | .ok none => false
  | .ok (some reservation) =>
    match reservation.gpuMode with
    | .exclusive =>
      match reservation.gpu with
      | some board =>
        if A.boards.any (·.uuid == board) then card.uuid == board else true
      | none => true
    | .yieldable =>
      match A.containerRunning with
      | .ok false => false
      | _ => true

def Reading.remaining (A : Reading) : List GpuCard := A.boards.filter fun card => !A.withdraws card

theorem mem_remaining {card : GpuCard} :
    card ∈ A.remaining ↔ card ∈ A.boards ∧ A.withdraws card = false := by
  unfold remaining
  rw [mem_filter, Bool.not_eq_true']

theorem Reading.board_eq {card card' : GpuCard} (h : card ∈ A.boards) (h' : card' ∈ A.boards)
    (huuid : card.uuid = card'.uuid) : card = card' :=
  inj_on_of_nodup_map A.boards_named h h' huuid

/-- What the gates hand to the scan: no VRAM, or the boards the reservation
leaves and the free figure over them. -/
def Offers (A : Reading) (offered : Int64 × List GpuCard) : Prop :=
  offered.1 ≤ 0 ∨
    offered.2.Perm A.remaining ∧ ∃ used, offered.1 = freeForOneJob A.totalVramGb used offered.2

theorem offers_total (cards : List GpuCard) :
    Offers A (freeForOneJob A.totalVramGb A.totalVramGb cards, cards) :=
  .inl (freeForOneJob_total _ _)

theorem offers_remaining {used : Int64} (h : cards.Perm A.remaining) :
    Offers A (freeForOneJob A.totalVramGb used cards, cards) :=
  .inr ⟨h, used, rfl⟩

theorem remaining_all (h : ∀ card, A.withdraws card = false) : A.remaining = A.boards := by
  unfold remaining
  rw [filter_eq_self]
  intro card _
  rw [h card]
  rfl

/-- The measured offer holds the whole total, or every board and a readable
reservation. -/
theorem measuredOffer_cases (h : measuredOffer H A slots = some offer) :
    offer.cards.Perm A.boards ∧
      (offer.usedVram = A.totalVramGb ∨ ∃ reservation, A.reservation = .ok reservation) := by
  unfold measuredOffer at h
  rw [map_eq_some_iff] at h
  obtain ⟨booked, -, rfl⟩ := h
  unfold boards
  rcases A.driver with _ | driver
  · exact ⟨.refl _, .inl rfl⟩
  · rcases A.reservation with _ | reservation
    · exact ⟨perm_insertionSort _ _, .inl rfl⟩
    · exact ⟨perm_insertionSort _ _, .inr ⟨reservation, rfl⟩⟩

theorem any_of_perm (h : cards.Perm A.boards) (board : String) :
    cards.any (·.uuid == board) = A.boards.any (·.uuid == board) := by
  rw [Bool.eq_iff_iff, List.any_eq_true, List.any_eq_true]
  simp only [h.mem_iff]

theorem withdrawExclusive_offers (hread : A.reservation = .ok (some reservation))
    (hmode : reservation.gpuMode = .exclusive) (hcards : offer.cards.Perm A.boards) :
    Offers A (freeForOneJob A.totalVramGb (withdrawExclusive A reservation offer).usedVram
      (withdrawExclusive A reservation offer).cards,
        (withdrawExclusive A reservation offer).cards) := by
  unfold withdrawExclusive
  split
  · next board hboard =>
    rw [any_of_perm hcards board]
    split
    · next hany =>
      refine offers_remaining ?_
      have hremaining : A.remaining = A.boards.filter (·.uuid != board) := by
        unfold remaining withdraws
        rw [hread]
        simp only [hmode, hboard, hany, if_true]
        rfl
      rw [hremaining]
      exact hcards.filter _
    · exact offers_total _
  · exact offers_total _

theorem withdrawYieldable_offers
    (hread : A.reservation = .ok (some reservation)) (hmode : reservation.gpuMode = .yieldable)
    (hcards : offer.cards.Perm A.boards) (h : withdrawYieldable A slots offer = some offer') :
    Offers A (freeForOneJob A.totalVramGb offer'.usedVram offer'.cards, offer'.cards) := by
  unfold withdrawYieldable at h
  dsimp only at h
  split at h
  · split at h
    · cases h
    · cases h
      exact offers_total _
  · next hrunning =>
    split at h
    · cases h
    · cases h
      refine offers_remaining ?_
      rw [remaining_all]
      · exact hcards
      · intro card
        unfold withdraws
        rw [hread]
        simp only [hmode, hrunning]
  · cases h
    exact offers_total _

theorem beforeAdmission_offers
    (h : beforeAdmission H A slots = some offered) : Offers A offered := by
  unfold beforeAdmission at h
  split at h
  · cases h
  · rw [bind_eq_some_iff] at h
    obtain ⟨offer, hoffer, h⟩ := h
    obtain ⟨hcards, hheld⟩ := measuredOffer_cases hoffer
    rw [map_eq_some_iff] at h
    obtain ⟨offer', hoffer', rfl⟩ := h
    split at hoffer'
    · next reservation hread =>
      split at hoffer'
      · next hmode =>
        cases hoffer'
        exact withdrawExclusive_offers hread hmode hcards
      · next hmode => exact withdrawYieldable_offers hread hmode hcards hoffer'
    · next hread =>
      cases hoffer'
      refine offers_remaining ?_
      rw [remaining_all]
      · exact hcards
      · intro card
        unfold withdraws
        rw [hread]
    · next hread =>
      cases hoffer'
      rcases hheld with hheld | ⟨reservation, hok⟩
      · rw [hheld]
        exact offers_total _
      · rw [hread] at hok
        cases hok

theorem measure_offers (h : measure H A slots offered = some offered') (hoffers : Offers A offered) :
    Offers A offered' := by
  unfold measure at h
  split at h
  · cases h
  · split at h
    · cases h
      exact .inl (Std.le_refl _)
    · cases h
      exact hoffers

theorem withdrawExclusive_sublist (reservation : Reservation) (offer : Offer) :
    (withdrawExclusive A reservation offer).cards.Sublist offer.cards := by
  unfold withdrawExclusive
  split
  · split
    · exact filter_sublist
    · exact List.Sublist.refl _
  · exact List.Sublist.refl _

theorem withdrawYieldable_cards
    (h : withdrawYieldable A slots offer = some offer') : offer'.cards = offer.cards := by
  unfold withdrawYieldable at h
  dsimp only at h
  split at h
  · split at h
    · cases h
    · cases h
      rfl
  · split at h
    · cases h
    · cases h
      rfl
  · cases h
    rfl

/-- Each board offered stands once. -/
theorem beforeAdmission_named
    (h : beforeAdmission H A slots = some offered) : (offered.2.map (·.uuid)).Nodup := by
  unfold beforeAdmission at h
  split at h
  · cases h
  · rw [bind_eq_some_iff] at h
    obtain ⟨offer, hoffer, h⟩ := h
    obtain ⟨hcards, -⟩ := measuredOffer_cases hoffer
    have hnamed : (offer.cards.map (·.uuid)).Nodup := ((hcards.map _).nodup_iff).mpr A.boards_named
    rw [map_eq_some_iff] at h
    obtain ⟨offer', hoffer', rfl⟩ := h
    split at hoffer'
    · split at hoffer'
      · cases hoffer'
        exact hnamed.sublist ((withdrawExclusive_sublist _ _).map _)
      · dsimp only
        rw [withdrawYieldable_cards hoffer']
        exact hnamed
    · cases hoffer'
      exact hnamed
    · cases hoffer'
      exact hnamed

theorem measure_named (h : measure H A slots offered = some offered')
    (hnamed : (offered.2.map (·.uuid)).Nodup) : (offered'.2.map (·.uuid)).Nodup := by
  unfold measure at h
  split at h
  · cases h
  · split at h
    · cases h
      exact nodup_nil
    · cases h
      exact hnamed

/-! ## An exclusive slot holds the total -/

theorem measuredOffer_exclusive (hexclusive : slots.any H.slotIsExclusive = true)
    (h : measuredOffer H A slots = some offer) : offer.usedVram = A.totalVramGb := by
  unfold measuredOffer at h
  rw [map_eq_some_iff] at h
  obtain ⟨booked, -, rfl⟩ := h
  rw [hexclusive]
  rcases A.driver with _ | driver
  · rfl
  · rcases A.reservation with _ | reservation
    · rfl
    · rfl

theorem withdrawExclusive_total (h : offer.usedVram = A.totalVramGb) :
    (withdrawExclusive A reservation offer).usedVram = A.totalVramGb := by
  unfold withdrawExclusive
  split
  · split
    · dsimp only
      split
      · rfl
      · exact h
    · rfl
  · rfl

theorem withdrawYieldable_total (h : offer.usedVram = A.totalVramGb)
    (hgate : withdrawYieldable A slots offer = some offer') : offer'.usedVram = A.totalVramGb := by
  unfold withdrawYieldable at hgate
  dsimp only at hgate
  split at hgate
  · split at hgate
    · cases hgate
    · cases hgate
      rfl
  · split at hgate
    · cases hgate
    · cases hgate
      exact h
  · cases hgate
    rfl

theorem beforeAdmission_exclusive (hexclusive : slots.any H.slotIsExclusive = true)
    (h : beforeAdmission H A slots = some offered) : offered.1 ≤ 0 := by
  unfold beforeAdmission at h
  split at h
  · cases h
  · rw [bind_eq_some_iff] at h
    obtain ⟨offer, hoffer, h⟩ := h
    have htotal := measuredOffer_exclusive hexclusive hoffer
    rw [map_eq_some_iff] at h
    obtain ⟨offer', hoffer', rfl⟩ := h
    have htotal' : offer'.usedVram = A.totalVramGb := by
      split at hoffer'
      · split at hoffer'
        · cases hoffer'
          exact withdrawExclusive_total htotal
        · exact withdrawYieldable_total htotal hoffer'
      · cases hoffer'
        exact htotal
      · cases hoffer'
        exact htotal
    dsimp only
    rw [htotal']
    exact freeForOneJob_total _ _

theorem measure_free (h : measure H A slots offered = some offered') (hfree : offered.1 ≤ 0) :
    offered'.1 ≤ 0 := by
  unfold measure at h
  split at h
  · cases h
  · split at h
    · cases h
      exact Std.le_refl _
    · cases h
      exact hfree

/-! ## One candidate's turn -/

/-- The candidate of this turn becomes a slot: it is no running job, it fits the
budgets, no rule refuses it, and its process starts. -/
structure Starts (H : Host) (scan : Scan) (slots : List Slot) (turn : Turn)
    (need cores : Int64) : Prop where
  apart : slots.any (·.job.jobId == turn.job.jobId) = false
  fits : candidateFit scan slots turn = .fits need cores
  eligible : H.eligibilityRefusal turn.job scan.reading.totalVramGb slots.length
    scan.reading.pinnedOnly = none
  packages : H.systemPackagesEligible turn.job = true
  cache : ((buildCacheKey turn.job).any fun key =>
    slots.any fun slot => buildCacheKey slot.job == some key) = false
  allowed : workloadAllowed turn = true
  spawned : turn.spawn = .started

/-- A turn starts the candidate, or changes nothing but whether the scan is
over. -/
theorem claimTurn_cases (H : Host) (scan : Scan) (slots : List Slot) (turn : Turn) :
    (∃ ended, claimTurn H scan slots turn = ({ scan with ended := ended }, slots)) ∨
      ∃ need cores, Starts H scan slots turn need cores ∧
        claimTurn H scan slots turn = startSlot H scan slots turn need cores := by
  unfold claimTurn
  split
  · exact .inl ⟨scan.ended, rfl⟩
  · next hapart =>
    split
    · exact .inl ⟨true, rfl⟩
    · exact .inl ⟨scan.ended, rfl⟩
    · next need cores hfits =>
      unfold startCandidate
      split
      · exact .inl ⟨scan.ended, rfl⟩
      · next heligible =>
        split
        · exact .inl ⟨scan.ended, rfl⟩
        · next hpackages =>
          split
          · exact .inl ⟨scan.ended, rfl⟩
          · next hcache =>
            split
            · exact .inl ⟨true, rfl⟩
            · next hallowed =>
              split
              · exact .inl ⟨scan.ended, rfl⟩
              · exact .inl ⟨scan.ended, rfl⟩
              · exact .inl ⟨scan.ended, rfl⟩
              · exact .inl ⟨true, rfl⟩
              · next hspawn =>
                refine .inr ⟨need, cores, ⟨?_, hfits, ?_, ?_, ?_, ?_, hspawn⟩, rfl⟩
                · simpa using hapart
                · simpa using heligible
                · simpa using hpackages
                · simpa using hcache
                · simpa using hallowed

theorem Starts.claimTurn_eq (h : Starts H scan slots turn need cores) :
    claimTurn H scan slots turn = startSlot H scan slots turn need cores := by
  unfold claimTurn
  rw [if_neg (by rw [h.apart]; exact Bool.false_ne_true)]
  simp only [h.fits]
  unfold startCandidate
  rw [if_neg (by rw [h.eligible]; exact Bool.false_ne_true), h.packages, h.cache, h.allowed]
  simp only [h.spawned]
  rfl

theorem candidateFit_free (h : candidateFit scan slots turn = .fits need cores)
    (hneed : 0 < need) : need ≤ scan.freeVramGb := by
  unfold candidateFit at h
  split at h
  · cases h
  · split at h
    · cases h
    · split at h
      · cases h
      · next judged _ =>
        split at h
        · cases h
        · next hfree =>
          split at h
          · cases h
          · split at h
            · cases h
            · cases h
              exact Std.not_lt.mp fun hlt => hfree ⟨hneed, hlt⟩

theorem candidateFit_need (h : candidateFit scan slots turn = .fits need cores) :
    turn.need = some need := by
  unfold candidateFit at h
  split at h
  · cases h
  · split at h
    · cases h
    · split at h
      · cases h
      · next judged hjudged =>
        split at h
        · cases h
        · split at h
          · cases h
          · split at h
            · cases h
            · cases h
              exact hjudged

end Stado.Agent
