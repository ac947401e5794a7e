import Mathlib.Data.List.Count
import Stado.Library.Rotation
import Stado.Queue.ListingSpecs

/-!
# Every marker is read

The cursor is shared by every rotating scan through a handle, so what it
promises is promised to the scans together: however they overlap, enough of
them read every marker of the index. It promises nothing to one caller among
others, whose scans may find the cursor at the same place each time.
-/

namespace Stado.Listing

open Machine List Option Handle

variable {Name Job : Type} [LinearOrder Name] {index : Index Name Job} {scan : JobScan Job}
  {walk walk' : Walk Name Job} {marker : Name} {origin : Option Name}

/-! ## How far a cursor is from a marker -/

/-- The names a walk from `cursor` passes up to `marker`, around the end of the
index if need be. -/
def Index.remaining (index : Index Name Job) (marker : Name) : Option Name → ℕ
  | none => index.names.countP (· ≤ marker)
  | some at' =>
    if at' < marker then index.names.countP fun name => at' < name ∧ name ≤ marker
    else index.names.countP (at' < ·) + index.names.countP (· ≤ marker)

theorem countP_lt {α : Type} {p q : α → Bool} {l : List α} {a : α}
    (h : ∀ x ∈ l, p x = true → q x = true) (ha : a ∈ l) (hq : q a = true) (hp : p a = false) :
    l.countP p < l.countP q := by
  induction l with
  | nil => cases ha
  | cons x rest ih =>
    obtain ⟨hx, hrest⟩ := forall_mem_cons.mp h
    have hle : rest.countP p ≤ rest.countP q := countP_mono_left hrest
    rw [countP_cons, countP_cons]
    rcases mem_cons.mp ha with rfl | hmem
    · rw [if_pos hq, if_neg (by simp [hp])]
      omega
    · have hlt := ih hrest hmem
      by_cases hpx : p x = true
      · rw [if_pos hpx, if_pos (hx hpx)]
        omega
      · rw [if_neg hpx]
        omega

theorem countP_disjoint {α : Type} {p q : α → Bool} {l : List α}
    (h : ∀ x ∈ l, p x = true → q x = false) : l.countP p + l.countP q ≤ l.length := by
  induction l with
  | nil => simp
  | cons x rest ih =>
    obtain ⟨hx, hrest⟩ := forall_mem_cons.mp h
    have hle := ih hrest
    rw [countP_cons, countP_cons, length_cons]
    by_cases hpx : p x = true
    · rw [if_pos hpx, if_neg (by simp [hx hpx])]
      omega
    · rw [if_neg hpx]
      split <;> omega

theorem remaining_le (index : Index Name Job) (marker : Name) (cursor : Option Name) :
    index.remaining marker cursor ≤ index.names.length := by
  unfold Index.remaining
  split
  · exact countP_le_length
  · split
    · exact countP_le_length
    · next at' hle =>
      refine countP_disjoint fun name _ hlt => ?_
      rw [decide_eq_true_eq] at hlt
      rw [decide_eq_false_iff_not, not_le]
      exact (not_lt.mp hle).trans_lt hlt

/-- A walk from `origin` that stops at `at'` before it passes `marker` stops
nearer to it. -/
theorem remaining_lt_of_after {at' : Name} (hat : at' ∈ index.names)
    (hafter : at' ∈ index.after origin)
    (hnot : ¬(marker ∈ index.after origin ∧ marker ≤ at')) (hmarker : marker ∈ index.names) :
    index.remaining marker (some at') < index.remaining marker origin := by
  rcases origin with _ | begun
  · have hlt : at' < marker := by
      by_contra hle
      exact hnot ⟨hmarker, not_lt.mp hle⟩
    unfold Index.remaining
    dsimp only
    rw [if_pos hlt]
    refine countP_lt (a := at') (fun name _ h => ?_) hat (by simp [hlt.le]) (by simp)
    simp only [decide_eq_true_eq] at h ⊢
    exact h.2
  · have hbegun : begun < at' := by simpa [Index.after] using (mem_filter.mp hafter).2
    unfold Index.remaining
    dsimp only
    by_cases hm : begun < marker
    · have hlt : at' < marker := by
        by_contra hle
        exact hnot ⟨mem_filter.mpr ⟨hmarker, by simpa using hm⟩, not_lt.mp hle⟩
      rw [if_pos hlt, if_pos hm]
      refine countP_lt (a := at') (fun name _ h => ?_) hat (by simp [hbegun, hlt.le]) (by simp)
      simp only [decide_eq_true_eq] at h ⊢
      exact ⟨hbegun.trans h.1, h.2⟩
    · rw [if_neg hm, if_neg (not_lt.mpr ((not_lt.mp hm).trans hbegun.le))]
      refine Nat.add_lt_add_right (countP_lt (a := at') (fun name _ h => ?_) hat ?_ ?_) _
      · simp only [decide_eq_true_eq] at h ⊢
        exact hbegun.trans h
      · simpa using hbegun
      · simp

/-- A walk that wrapped and stops before `marker` stops nearer to it. -/
theorem remaining_lt_of_wrapped {begun at' : Name} (hmarker : marker ≤ begun)
    (hlt : at' < marker) (hat : at' ∈ index.names) :
    index.remaining marker (some at') < index.remaining marker (some begun) := by
  unfold Index.remaining
  dsimp only
  rw [if_pos hlt, if_neg (not_lt.mpr hmarker)]
  have hless : (index.names.countP fun name => at' < name ∧ name ≤ marker) <
      index.names.countP (· ≤ marker) := by
    refine countP_lt (a := at') (fun name _ h => ?_) hat (by simp [hlt.le]) (by simp)
    simp only [decide_eq_true_eq] at h ⊢
    exact h.2
  omega

theorem after_sorted (index : Index Name Job) (cursor : Option Name) :
    (index.after cursor).Pairwise (· < ·) := by
  unfold Index.after
  split
  · exact index.sorted
  · exact index.sorted.filter _

theorem after_subset (index : Index Name Job) (cursor : Option Name) :
    index.after cursor ⊆ index.names := by
  unfold Index.after
  split
  · exact fun _ hm => hm
  · exact fun _ hm => mem_of_mem_filter hm

theorem walkFrom_reads (index : Index Name Job) (scan : JobScan Job) (origin : Option Name) :
    (walkFrom index scan origin).2.Sound index scan ∧
      ∀ marker ∈ index.names, index.isMarker marker = true →
        marker ∈ (walkFrom index scan origin).2.read ∨
          index.remaining marker (walkFrom index scan origin).1 <
            index.remaining marker origin := by
  have hsound : (⟨[], [], 0, []⟩ : Walk Name Job).Sound index scan :=
    ⟨fun _ hm => by simp at hm, fun _ hid => by simp at hid⟩
  have hwithin : (⟨[], [], 0, []⟩ : Walk Name Job).Within scan := by
    rcases hbudget : scan.scanBudget with _ | budget
    · exact within_of_unbounded hbudget
    · unfold Walk.Within
      rw [Bool.eq_false_iff, Ne, budgetSpent_iff hbudget]
      exact Nat.not_le.mpr budget.pos
  unfold walkFrom
  split
  · next at' walk' hleg =>
    obtain ⟨honward, hstops⟩ := walkLeg_stopped hsound hwithin (after_sorted index origin) hleg
    refine ⟨honward.sound, fun marker hmem hmarker => ?_⟩
    rcases at' with _ | at'
    · obtain ⟨hwrapped, -⟩ := hstops
      cases hwrapped
    · obtain ⟨hat, hread⟩ := hstops
      have hafter := mem_of_mem_filter hat
      by_cases hpassed : marker ∈ index.after origin ∧ marker ≤ at'
      · exact .inl (hread marker (mem_filter.mpr ⟨hpassed.1, hmarker⟩) hpassed.2)
      · exact .inr (remaining_lt_of_after (after_subset index origin hafter) hafter hpassed hmem)
  · next walk₁ hleg =>
    obtain ⟨honward, hwithin₁, hread⟩ := walkLeg_on hsound hwithin (le_refl _) hleg
    rcases origin with _ | begun
    · rw [if_pos rfl]
      exact ⟨honward.sound, fun marker hmem hmarker =>
        .inl (hread (mem_filter.mpr ⟨hmem, hmarker⟩))⟩
    · rw [if_neg (by simp)]
      -- what the first leg did not read lies before the name the walk began at
      have hbefore : ∀ marker ∈ index.names, index.isMarker marker = true →
          marker ∈ walk₁.read ∨ marker ≤ begun := by
        intro marker hmem hmarker
        refine (le_or_gt marker begun).symm.imp_left fun hlt => hread ?_
        exact mem_filter.mpr ⟨mem_filter.mpr ⟨hmem, by simpa using hlt⟩, hmarker⟩
      split
      · next at' walk' hleg' =>
        obtain ⟨honward', hstops⟩ := walkLeg_stopped honward.sound hwithin₁ index.sorted hleg'
        refine ⟨honward'.sound, fun marker hmem hmarker => ?_⟩
        rcases hbefore marker hmem hmarker with hm | hle
        · exact .inl (honward'.read hm)
        · rcases at' with _ | at'
          · obtain ⟨-, begun', hbegun, -, hread'⟩ := hstops
            cases hbegun
            exact .inl (hread' marker (mem_filter.mpr ⟨hmem, hmarker⟩) hle)
          · obtain ⟨hat, hread'⟩ := hstops
            rcases le_or_gt marker at' with hm | hlt
            · exact .inl (hread' marker (mem_filter.mpr ⟨hmem, hmarker⟩) hm)
            · exact .inr (remaining_lt_of_wrapped hle hlt (mem_of_mem_filter hat))
      · next walk' hleg' =>
        obtain ⟨honward', -, hread'⟩ := walkLeg_on honward.sound hwithin₁ (le_refl _) hleg'
        exact ⟨honward'.sound, fun marker hmem hmarker =>
          .inl (hread' (mem_filter.mpr ⟨hmem, hmarker⟩))⟩

/-- **A walk from the head is the plain walk.** It returns the jobs admitted by the markers up to
where it stopped, and no other, in the order of the index; short of its end it stops only on a full
window or a spent budget. -/
theorem head_walk_plain (index : Index Name Job) (scan : JobScan Job) :
    let walked := walkFrom index scan none
    (walked.2.out.map index.markerPath).Pairwise (· < ·) ∧
      (∀ job, job ∈ walked.2.out ↔
        ∃ marker, (∀ stop ∈ walked.1, marker ≤ stop) ∧ Admits index scan marker job) ∧
      (walked.1.isSome →
        scan.windowFull walked.2.out.length || scan.budgetSpent walked.2.scanned) := by
  intro walked
  obtain ⟨hsound, hreads⟩ := walkFrom_reads index scan none
  obtain ⟨hordered, hle, hbound⟩ : Ordered index scan [] walked.2.out ∧
      (∀ stop ∈ walked.1, ∀ job ∈ walked.2.out, index.markerPath job ≤ stop) ∧
      (walked.1.isSome →
        scan.windowFull walked.2.out.length || scan.budgetSpent walked.2.scanned) := by
    have hleg : (walkLeg index scan none false (index.after none).length ⟨[], [], 0, []⟩
        (index.after none)).Ordered index scan [] :=
      walkLeg_ordered ⟨by simp, index.sorted, Subset.refl _⟩
    unfold walked walkFrom
    split
    · next heq =>
      rw [heq] at hleg
      obtain ⟨hout, ⟨stop, rfl, hle⟩, hbound⟩ := hleg
      exact ⟨hout, by simpa using hle, fun _ => hbound⟩
    · next heq =>
      rw [heq] at hleg
      exact ⟨hleg, by simp, by simp⟩
  refine ⟨by simpa using hordered.sorted, fun job => ⟨fun hjob => ?_, ?_⟩, hbound⟩
  · exact ⟨_, fun stop hstop => hle stop hstop job hjob, hordered.admits job hjob⟩
  · rintro ⟨marker, hbefore, hin, ⟨id, hbody, hjob⟩, hpath, haccepts⟩
    refine hsound.returned marker ?_ id job hbody hjob hpath haccepts
    -- where the walk stopped is no nearer to a marker it has passed
    refine (hreads marker hin.1 hin.2).resolve_right (not_lt.mpr ?_)
    rcases hstop : walked.1 with _ | stop
    · exact le_rfl
    · rw [Index.remaining, Index.remaining, if_neg (not_lt.mpr (hbefore stop hstop))]
      exact Nat.le_add_left ..

/-! ## Runs -/

def Step.starts : Step Job → Bool
  | .start _ _ => true
  | _ => false

/-- At most `m` scans are under way at once. -/
def AtMost (m : ℕ) (handle : Handle Name Job) (a : Step Job) : Prop :=
  a.starts = true → handle.flights.length < m

instance (m : ℕ) (handle : Handle Name Job) (a : Step Job) : Decidable (AtMost m handle a) := by
  unfold AtMost
  infer_instance

/-- The scan read the marker; if its caller accepts the job the marker stands
for, it was returned it. -/
def Finished.Reads (index : Index Name Job) (f : Finished Name Job) (marker : Name) : Prop :=
  marker ∈ f.walk.read ∧ ∀ id job, index.body marker = some id → index.job id = some job →
      index.markerPath job = marker → f.scan.accepts job = true → job ∈ f.walk.out

/-- The potential of the scans under way, as seen from a marker. -/
def Handle.potential (index : Index Name Job) (m : ℕ) (marker : Name)
    (handle : Handle Name Job) : ℕ :=
  Rotation.potential m (index.remaining marker) handle.cursor (handle.flights.map (·.cursor))

/-- Either a scan that finished since `old` read the marker, or the potential has
fallen with every scan that finished. -/
structure Nearing (index : Index Name Job) (m bound : ℕ) (old : List (Finished Name Job))
    (marker : Name) (handle : Handle Name Job) : Prop where
  few : handle.flights.length ≤ m
  rotating : ∀ flight ∈ handle.flights, flight.scan.rotates = true
  nearer : ∃ new, handle.finished = new ++ old ∧
    ((∃ f ∈ new, f.Reads index marker) ∨ new.length + handle.potential index m marker ≤ bound)

variable {m bound : ℕ} {old : List (Finished Name Job)} {handle handle' : Handle Name Job}
  {a : Step Job}

theorem nearing_step (hmem : marker ∈ index.names) (hmarker : index.isMarker marker = true)
    (h : Nearing index m bound old marker handle) (hmet : AtMost m handle a)
    (hstep : handle.step index a = some handle') : Nearing index m bound old marker handle' := by
  obtain ⟨hfew, hrotating, new, hnew, hnearer⟩ := h
  unfold step at hstep
  cases a with
  | start caller scan =>
    dsimp only at hstep
    split at hstep
    · next hrotates =>
      cases hstep
      refine ⟨?_, ?_, new, hnew, hnearer.imp_right fun hle => ?_⟩
      · rw [length_append, length_singleton]
        exact hmet rfl
      · exact forall_mem_append.mpr ⟨hrotating, by simpa using hrotates⟩
      · unfold potential
        rw [map_append, map_singleton, Rotation.potential_start]
        · exact hle
        · rw [length_map]
          exact hmet rfl
    · cases hstep
  | fail i =>
    dsimp only at hstep
    rw [map_eq_some_iff] at hstep
    obtain ⟨flight, hflight, rfl⟩ := hstep
    have hcursor : (handle.flights.map (·.cursor))[i]? = some flight.cursor := by
      rw [List.getElem?_map, hflight, map_some]
    refine ⟨(length_eraseIdx_le _ _).trans hfew,
      fun f hf => hrotating f ((eraseIdx_sublist _ i).subset hf), new, hnew,
      hnearer.imp_right fun hle => ?_⟩
    have hless : Rotation.potential m (index.remaining marker) handle.cursor
        ((handle.flights.map (·.cursor)).eraseIdx i) ≤
          Rotation.potential m (index.remaining marker) handle.cursor
            (handle.flights.map (·.cursor)) :=
      Rotation.potential_fail hcursor (by simpa using hfew)
    unfold potential at hle ⊢
    dsimp only
    rw [← eraseIdx_map]
    omega
  | finish i =>
    dsimp only at hstep
    rw [map_eq_some_iff] at hstep
    obtain ⟨flight, hflight, rfl⟩ := hstep
    have hcursor : (handle.flights.map (·.cursor))[i]? = some flight.cursor := by
      rw [List.getElem?_map, hflight, map_some]
    have hrotates := hrotating flight (mem_of_getElem? hflight)
    have hcollect : collectFromIndex index flight.scan flight.cursor =
        (some (walkFrom index flight.scan flight.cursor).1,
          (walkFrom index flight.scan flight.cursor).2) := by
      unfold collectFromIndex
      rw [hrotates]
      rfl
    obtain ⟨hsound, hreads⟩ := walkFrom_reads index flight.scan
      flight.cursor
    rw [hcollect]
    refine ⟨(length_eraseIdx_le _ _).trans hfew,
      fun f hf => hrotating f ((eraseIdx_sublist _ i).subset hf),
      ⟨flight.caller, flight.scan, (walkFrom index flight.scan flight.cursor).2⟩ :: new,
      by rw [hnew]; rfl, ?_⟩
    rcases hreads marker hmem hmarker with hread | hless
    · refine .inl ⟨_, mem_cons_self, hread, fun id job hbody hjob hpath haccepts => ?_⟩
      exact hsound.returned marker hread id job hbody hjob hpath haccepts
    · refine hnearer.imp (fun hex => ?_) fun hle => ?_
      · obtain ⟨f, hf, hfreads⟩ := hex
        exact ⟨f, mem_cons_of_mem _ hf, hfreads⟩
      · have hfalls : Rotation.potential m (index.remaining marker)
            (walkFrom index flight.scan flight.cursor).1
            ((handle.flights.map (·.cursor)).eraseIdx i) <
              Rotation.potential m (index.remaining marker) handle.cursor
                (handle.flights.map (·.cursor)) :=
          Rotation.potential_finish hcursor (by simpa using hfew) hless
        unfold potential at hle ⊢
        dsimp only
        rw [← eraseIdx_map, getD_some, length_cons]
        omega

theorem finished_step (h : ∃ new, handle.finished = new ++ old)
    (hstep : handle.step index a = some handle') : ∃ new, handle'.finished = new ++ old := by
  obtain ⟨new, hnew⟩ := h
  unfold step at hstep
  cases a with
  | start caller scan =>
    dsimp only at hstep
    split at hstep
    · cases hstep
      exact ⟨new, hnew⟩
    · cases hstep
  | fail i =>
    dsimp only at hstep
    rw [map_eq_some_iff] at hstep
    obtain ⟨flight, -, rfl⟩ := hstep
    exact ⟨new, hnew⟩
  | finish i =>
    dsimp only at hstep
    rw [map_eq_some_iff] at hstep
    obtain ⟨flight, -, rfl⟩ := hstep
    exact ⟨_ :: new, by rw [hnew]; rfl⟩

/-- **Every marker is read**: however at most `m` rotating scans overlap, once
more than `m * (m + 1) ^ n` of them have finished, each of the `n` names' markers
was read by one, which was returned its job if it accepts it; so where they
share one rule, as those of a caller alone with the handle do, each job the rule
accepts was returned. -/
theorem every_marker_read (hfew : handle.flights.length ≤ m)
    (hrotating : ∀ flight ∈ handle.flights, flight.scan.rotates = true)
    (hr : Reaches (step index) (AtMost m) handle handle')
    (hmany : handle.finished.length + m * (m + 1) ^ index.names.length < handle'.finished.length) :
    ∃ new, handle'.finished = new ++ handle.finished ∧
      (∀ marker ∈ index.names, index.isMarker marker = true → ∃ f ∈ new, f.Reads index marker) ∧
      ∀ accepts, (∀ f ∈ new, f.scan.accepts = accepts) →
        ∀ marker ∈ index.names, index.isMarker marker = true →
          ∀ id job, index.body marker = some id → index.job id = some job →
            index.markerPath job = marker → accepts job = true → ∃ f ∈ new, job ∈ f.walk.out := by
  have hreads : ∀ marker ∈ index.names, index.isMarker marker = true →
      ∃ new, handle'.finished = new ++ handle.finished ∧ ∃ f ∈ new, f.Reads index marker := by
    intro marker hmem hmarker
    have hbound : handle.potential index m marker ≤ m * (m + 1) ^ index.names.length :=
      Rotation.potential_le (remaining_le index marker) (by simpa using hfew)
    have hnearing := hr.invariant
      (I := Nearing index m (m * (m + 1) ^ index.names.length) handle.finished marker)
      ⟨hfew, hrotating, [], rfl, .inr (by simpa using hbound)⟩
      fun _ _ _ h hmet hstep => nearing_step hmem hmarker h hmet hstep
    obtain ⟨new, hnew, hread | hle⟩ := hnearing.nearer
    · exact ⟨new, hnew, hread⟩
    · rw [hnew, length_append] at hmany
      omega
  obtain ⟨new, hnew⟩ := hr.invariant (I := fun h => ∃ new, h.finished = new ++ handle.finished)
    ⟨[], rfl⟩ fun _ _ _ h _ hstep => finished_step h hstep
  have hall : ∀ marker ∈ index.names, index.isMarker marker = true →
      ∃ f ∈ new, f.Reads index marker := by
    intro marker hmem hmarker
    obtain ⟨new', hnew', hread⟩ := hreads marker hmem hmarker
    rw [hnew] at hnew'
    rw [append_cancel_right hnew']
    exact hread
  refine ⟨new, hnew, hall, fun accepts hrule marker hmem hmarker id job hbody hjob hpath hacc => ?_⟩
  obtain ⟨f, hf, hread, hreturned⟩ := hall marker hmem hmarker
  refine ⟨f, hf, hreturned id job hbody hjob hpath ?_⟩
  rw [hrule f hf]
  exact hacc

/-! ## Two jobs -/

namespace TwoJobs

/-- Job `a` is first in the index and job `b` second. -/
def pair : Index ℕ String where
  names := [1, 2]
  sorted := by decide
  isMarker _ := true
  body name := if name = 1 then some "a" else some "b"
  job id := some id
  jobId := id
  markerPath job := if job = "a" then 1 else 2
  stored _ _ h := (Option.some.inj h).symm

/-- A scan that accepts every job and may download one. -/
def oneEach : JobScan String := ⟨none, some 1, fun _ => true, false⟩

/-- A handle no scan went through. -/
def fresh : Handle ℕ String := ⟨none, [], []⟩

/-- `count` scans, one after another. -/
def scans : ℕ → List (Step String)
  | 0 => []
  | count + 1 => .start 0 oneEach :: .finish 0 :: scans count

end TwoJobs

open TwoJobs in
theorem every_marker_read_alone :
    ∃ handle', Reaches (step pair) (AtMost 1) fresh handle' ∧
      ∃ f ∈ handle'.finished, f.Reads pair 2 := by
  obtain ⟨handle', hr, hcount⟩ :
      ∃ handle', Reaches (step pair) (AtMost 1) fresh handle' ∧
        decide (handle'.finished.length = 5) = true :=
    exists_reaches (scans 5) (fun handle : Handle _ _ => decide (handle.finished.length = 5))
      (by decide +kernel)
  have hfive : handle'.finished.length = 5 := of_decide_eq_true hcount
  obtain ⟨new, hnew, hread, -⟩ := every_marker_read
    (Nat.zero_le 1 : fresh.flights.length ≤ 1) (fun _ hf => by cases hf) hr (by rw [hfive]; decide)
  obtain ⟨f, hf, hreads⟩ := hread 2 (by decide) rfl
  exact ⟨handle', hr, f, by rw [hnew]; exact mem_append_left _ hf, hreads⟩

namespace TwoJobs

/-- One scan of the first caller, then one of the second. -/
def turn : List (Step String) :=
  [.start 0 oneEach, .finish 0, .start 1 oneEach, .finish 0]

/-- The first caller was never returned job `b`. -/
def Starved (handle : Handle ℕ String) : Prop :=
  ∀ f ∈ handle.finished, f.caller = 0 → "b" ∉ f.walk.out

/-- The handle between two turns: the cursor at the head or at the end. -/
structure Between (count : ℕ) (handle : Handle ℕ String) : Prop where
  cursor : handle.cursor = none ∨ handle.cursor = some 2
  idle : handle.flights = []
  count : (handle.finished.filter (·.caller = 0)).length = count
  starved : Starved handle

/-- A turn leaves the first caller starved and the cursor where it was. -/
theorem between_turn {count : ℕ} {handle : Handle ℕ String} (h : Between count handle) :
    ∃ handle', Reaches (step pair) (AtMost 2) handle handle' ∧ Between (count + 1) handle' := by
  obtain ⟨hcursor, hidle, hcount, hstarved⟩ := h
  obtain ⟨cursor, flights, finished⟩ := handle
  dsimp only at hcursor hidle hcount hstarved
  subst hidle
  have hrun : exec (step pair) (AtMost 2) ⟨cursor, [], finished⟩ turn =
      some ⟨some 2, [], ⟨1, oneEach, ⟨["b"], ["b"], 1, [2]⟩⟩ ::
        ⟨0, oneEach, ⟨["a"], ["a"], 1, [1]⟩⟩ :: finished⟩ := by
    rcases hcursor with rfl | rfl <;> rfl
  refine ⟨_, exec_reaches hrun, .inr rfl, rfl, by simp [hcount], ?_⟩
  refine forall_mem_cons.mpr ⟨fun h => by simp at h, ?_⟩
  exact forall_mem_cons.mpr ⟨fun _ => by simp, hstarved⟩

/-- For every count of its scans, the first caller is starved in some run. -/
theorem starved_for (count : ℕ) :
    ∃ handle', Reaches (step pair) (AtMost 2) fresh handle' ∧ Between count handle' := by
  induction count with
  | zero => exact ⟨fresh, .refl, .inl rfl, rfl, rfl, fun f hf => by cases hf⟩
  | succ count ih =>
    obtain ⟨handle, hr, hbetween⟩ := ih
    obtain ⟨handle', hr', hbetween'⟩ := between_turn hbetween
    exact ⟨handle', hr.trans hr', hbetween'⟩

end TwoJobs

open TwoJobs in
/-- No number of scans is enough for a caller whose turns alternate with another
caller's: each of them finds the cursor before job `a`. -/
theorem caller_starved :
    ¬∃ bound, ∀ handle', Reaches (step pair) (AtMost 2) fresh handle' →
      bound ≤ (handle'.finished.filter (·.caller = 0)).length →
        ∃ f ∈ handle'.finished, f.caller = 0 ∧ "b" ∈ f.walk.out := by
  rintro ⟨bound, h⟩
  obtain ⟨handle', hr, hbetween⟩ := starved_for bound
  obtain ⟨f, hf, hcaller, hout⟩ := h handle' hr hbetween.count.ge
  exact hbetween.starved f hf hcaller hout

end Stado.Listing
