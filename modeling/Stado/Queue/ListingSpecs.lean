import Stado.Queue.Listing

/-!
# What a walk reads

One lemma for each part of the walk: what it has read when it goes on, and
where the cursor is left when it stops. A walk that stops at a marker has read
every marker of its leg up to there, and one that leaves the cursor at the head
has read them all. The jobs it returns are in the order of the index.
-/

namespace Stado.Listing

open List Option Walk

variable {Name Job : Type} {scan : JobScan Job} {walk walk' : Walk Name Job} {marker : Name}
  {page : List Name}

@[simp] theorem charge_read : (walk.charge marker).read = walk.read ++ [marker] := rfl

@[simp] theorem charge_scanned : (walk.charge marker).scanned = walk.scanned + 1 := rfl

def Walk.Within (scan : JobScan Job) (walk : Walk Name Job) : Prop :=
  scan.budgetSpent walk.scanned = false

/-- `count` more names fit what is left of the budget. -/
def Affords (scan : JobScan Job) (scanned count : ℕ) : Prop :=
  ∀ budget ∈ scan.scanBudget, scanned + count ≤ budget

theorem budgetSpent_iff {budget : ℕ+} (h : scan.scanBudget = some budget) (scanned : ℕ) :
    scan.budgetSpent scanned = true ↔ (budget : ℕ) ≤ scanned := by
  unfold JobScan.budgetSpent
  rw [h]
  simp

theorem within_of_unbounded (h : scan.scanBudget = none) : walk.Within scan := by
  unfold Within JobScan.budgetSpent
  rw [h]
  rfl

theorem affords_filter {p : Name → Bool} (h : Affords scan walk.scanned page.length) :
    Affords scan walk.scanned (page.filter p).length := by
  intro budget hbudget
  have := h budget hbudget
  have hle := length_filter_le p page
  omega

theorem affords_page (found : ℕ) (hwithin : walk.Within scan) (names : List Name) :
    Affords scan walk.scanned
      (names.take ((markerPage scan found walk.scanned).getD names.length)).length := by
  intro budget hbudget
  unfold Within at hwithin
  rw [Bool.eq_false_iff, Ne, budgetSpent_iff hbudget] at hwithin
  have hleft : left scan.scanBudget walk.scanned = some (budget - walk.scanned) := by
    unfold left
    rw [hbudget, bind_some, if_neg (by omega)]
  have hle : (markerPage scan found walk.scanned).getD names.length ≤ budget - walk.scanned := by
    unfold markerPage
    rw [hleft]
    rcases left scan.want found with _ | wanted
    · exact le_refl _
    · exact min_le_right _ _
  rw [length_take]
  omega

variable [LinearOrder Name] {index : Index Name Job} {origin : Option Name} {wrapped : Bool}
  {names : List Name} {entries entries' : List (Name × String)} {markers : List Name}

/-- What a walk read it judged: an accepted job under its current key is
returned, and a returned job is found by its id. -/
structure Walk.Sound (index : Index Name Job) (scan : JobScan Job) (walk : Walk Name Job) :
    Prop where
  returned : ∀ marker ∈ walk.read, ∀ id job, index.body marker = some id →
    index.job id = some job → index.markerPath job = marker → scan.accepts job = true →
      job ∈ walk.out
  known : ∀ id ∈ walk.seen, ∃ job ∈ walk.out, index.job id = some job

/-- `walk'` goes on from `walk`: it is sound and forgets nothing it read. -/
structure Walk.Onward (index : Index Name Job) (scan : JobScan Job) (walk walk' : Walk Name Job) :
    Prop where
  sound : walk'.Sound index scan
  read : walk.read ⊆ walk'.read

theorem Walk.Onward.trans {walk'' : Walk Name Job} (h : Onward index scan walk walk')
    (h' : Onward index scan walk' walk'') : Onward index scan walk walk'' :=
  ⟨h'.sound, fun _ hm => h'.read (h.read hm)⟩

theorem Walk.Sound.refl (h : walk.Sound index scan) : Onward index scan walk walk :=
  ⟨h, fun _ hm => hm⟩

/-- A charged marker that returns no job: its body is gone, or names a job
already found. -/
theorem Walk.Sound.stale (h : walk.Sound index scan)
    (hstale : (index.body marker).filter (fun id => id ∉ walk.seen) = none) :
    (walk.charge marker).Sound index scan := by
  refine ⟨fun m hm id job hbody hjob hpath haccepts => ?_, h.known⟩
  rw [charge_read, mem_append, mem_singleton] at hm
  rcases hm with hm | rfl
  · exact h.returned m hm id job hbody hjob hpath haccepts
  · have hseen : id ∈ walk.seen := by
      rw [hbody] at hstale
      simpa using hstale
    obtain ⟨found, hfound, hid⟩ := h.known id hseen
    rw [hjob] at hid
    cases hid
    exact hfound

/-- What a page that was resolved leaves to be judged. -/
structure Resolved (index : Index Name Job) (scan : JobScan Job) (walk walk' : Walk Name Job)
    (markers : List Name) (entries live : List (Name × String)) : Prop where
  onward : Onward index scan walk walk'
  within : walk'.Within scan
  affords : Affords scan walk'.scanned (entries.length + live.length)
  sublist : (live.map (·.1)).Sublist markers
  bodies : ∀ entry ∈ live, index.body entry.1 = some entry.2
  covers : ∀ marker ∈ markers, marker ∈ walk'.read ∨ marker ∈ live.map (·.1)

theorem resolve_on (h : walk.Sound index scan) (hwithin : walk.Within scan)
    (haffords : Affords scan walk.scanned (entries.length + markers.length))
    (hres : resolve index scan walk entries markers = (entries', .on walk')) :
    ∃ live, entries' = entries ++ live ∧ Resolved index scan walk walk' markers entries live := by
  induction markers generalizing walk entries with
  | nil =>
    unfold resolve at hres
    cases hres
    exact ⟨[], (append_nil _).symm, h.refl, hwithin, haffords, by simp, by simp, by simp⟩
  | cons marker rest ih =>
    unfold resolve at hres
    rw [length_cons] at haffords
    split at hres
    · next id hlive =>
      have hbody : index.body marker = some id := (filter_eq_some_iff.mp hlive).1
      have haffords' :
          Affords scan walk.scanned ((entries ++ [(marker, id)]).length + rest.length) := by
        intro budget hbudget
        have := haffords budget hbudget
        rw [length_append, length_singleton]
        omega
      obtain ⟨live, rfl, hlive⟩ := ih h hwithin haffords' hres
      refine ⟨(marker, id) :: live, by simp, hlive.onward, hlive.within, ?_, ?_, ?_, ?_⟩
      · intro budget hbudget
        have := hlive.affords budget hbudget
        rw [length_append, length_singleton] at this
        rw [length_cons]
        omega
      · exact hlive.sublist.cons_cons marker
      · exact forall_mem_cons.mpr ⟨hbody, hlive.bodies⟩
      · refine forall_mem_cons.mpr ⟨.inr mem_cons_self, fun m hm => ?_⟩
        exact (hlive.covers m hm).imp_right (mem_cons_of_mem _)
    · next hstale =>
      dsimp only at hres
      split at hres
      · cases hres
      · next hnot =>
        rw [Bool.not_eq_true] at hnot
        have haffords' :
            Affords scan (walk.charge marker).scanned (entries.length + rest.length) := by
          intro budget hbudget
          have := haffords budget hbudget
          rw [charge_scanned]
          omega
        have hcharged : Onward index scan walk (walk.charge marker) :=
          ⟨h.stale hstale, fun m hm => mem_append_left _ hm⟩
        obtain ⟨live, rfl, hlive⟩ := ih (h.stale hstale) hnot haffords' hres
        refine ⟨live, rfl, hcharged.trans hlive.onward, hlive.within, hlive.affords,
          hlive.sublist.cons marker, hlive.bodies, ?_⟩
        refine forall_mem_cons.mpr ⟨.inl (hlive.onward.read ?_), hlive.covers⟩
        simp

/-- A page whose stale markers spend the budget has no other: a page pulls no
more names than the budget allows. -/
theorem resolve_stopped {at' : Option Name} (h : walk.Sound index scan)
    (haffords : Affords scan walk.scanned (entries.length + markers.length))
    (hres : resolve index scan walk entries markers = (entries', .stopped at' walk')) :
    entries = [] ∧ Onward index scan walk walk' ∧ (∃ marker ∈ markers, at' = some marker) ∧
      ∀ marker ∈ markers, marker ∈ walk'.read := by
  induction markers generalizing walk entries with
  | nil =>
    unfold resolve at hres
    cases hres
  | cons marker rest ih =>
    unfold resolve at hres
    rw [length_cons] at haffords
    split at hres
    · next id hlive =>
      have haffords' :
          Affords scan walk.scanned ((entries ++ [(marker, id)]).length + rest.length) := by
        intro budget hbudget
        have := haffords budget hbudget
        rw [length_append, length_singleton]
        omega
      obtain ⟨hempty, -⟩ := ih h haffords' hres
      simp at hempty
    · next hstale =>
      have hcharged : Onward index scan walk (walk.charge marker) :=
        ⟨h.stale hstale, fun m hm => mem_append_left _ hm⟩
      have haffords' :
          Affords scan (walk.charge marker).scanned (entries.length + rest.length) := by
        intro budget hbudget
        have := haffords budget hbudget
        rw [charge_scanned]
        omega
      dsimp only at hres
      split at hres
      · next hspent =>
        rw [Prod.mk.injEq] at hres
        obtain ⟨-, hres⟩ := hres
        cases hres
        rcases hbudget : scan.scanBudget with _ | budget
        · have hwithin : (walk.charge marker).Within scan := within_of_unbounded hbudget
          unfold Within at hwithin
          rw [hwithin] at hspent
          cases hspent
        · rw [budgetSpent_iff hbudget] at hspent
          have hle := haffords' budget hbudget
          have hentries : entries = [] := length_eq_zero_iff.mp (by omega)
          have hrest : rest = [] := length_eq_zero_iff.mp (by omega)
          subst hrest
          exact ⟨hentries, hcharged, ⟨marker, mem_cons_self, rfl⟩, by simp⟩
      · obtain ⟨hentries, honward, ⟨m, hm, hat⟩, hread⟩ := ih (h.stale hstale) haffords' hres
        refine ⟨hentries, hcharged.trans honward, ⟨m, mem_cons_of_mem _ hm, hat⟩, ?_⟩
        exact forall_mem_cons.mpr ⟨honward.read (by simp), hread⟩

/-! ## Where a walk stops -/

/-- A walk over `markers` that leaves the cursor at `at'` has read every marker up
to there; one that leaves it at the head went past the name it began at, and has
read every marker up to that. -/
def Stops (origin : Option Name) (wrapped : Bool) (markers read : List Name) :
    Option Name → Prop
  | some at' => at' ∈ markers ∧ ∀ m ∈ markers, m ≤ at' → m ∈ read
  | none => wrapped = true ∧ ∃ begun ∈ origin, (∃ m ∈ markers, begun < m) ∧
      ∀ m ∈ markers, m ≤ begun → m ∈ read

variable {markers live rest read : List Name} {at' : Option Name}

theorem Stops.widen (h : Stops origin wrapped live read at') (hsub : live ⊆ markers)
    (hcovers : ∀ m ∈ markers, m ∈ read ∨ m ∈ live) : Stops origin wrapped markers read at' := by
  rcases at' with _ | at'
  · obtain ⟨hwrapped, begun, hbegun, ⟨m, hm, hlt⟩, hread⟩ := h
    refine ⟨hwrapped, begun, hbegun, ⟨m, hsub hm, hlt⟩, fun m' hm' hle => ?_⟩
    exact (hcovers m' hm').elim id fun hlive => hread m' hlive hle
  · obtain ⟨hmem, hread⟩ := h
    refine ⟨hsub hmem, fun m' hm' hle => ?_⟩
    exact (hcovers m' hm').elim id fun hlive => hread m' hlive hle

theorem Stops.append_left (h : Stops origin wrapped markers read at')
    (hbefore : ∀ m ∈ markers, ∀ m' ∈ rest, m < m') :
    Stops origin wrapped (markers ++ rest) read at' := by
  rcases at' with _ | at'
  · obtain ⟨hwrapped, begun, hbegun, ⟨m, hm, hlt⟩, hread⟩ := h
    refine ⟨hwrapped, begun, hbegun, ⟨m, mem_append_left _ hm, hlt⟩, fun m' hm' hle => ?_⟩
    rcases mem_append.mp hm' with hm' | hm'
    · exact hread m' hm' hle
    · exact absurd (hlt.trans (hbefore m hm m' hm')) (not_lt.mpr hle)
  · obtain ⟨hmem, hread⟩ := h
    refine ⟨mem_append_left _ hmem, fun m' hm' hle => ?_⟩
    rcases mem_append.mp hm' with hm' | hm'
    · exact hread m' hm' hle
    · exact absurd (hbefore at' hmem m' hm') (not_lt.mpr hle)

theorem Stops.append_right (h : Stops origin wrapped rest read at') (hread : markers ⊆ read) :
    Stops origin wrapped (markers ++ rest) read at' := by
  refine h.widen (fun m hm => mem_append_right _ hm) fun m hm => ?_
  exact (mem_append.mp hm).imp_left fun hm => hread hm

theorem take_read (id : String) : ((walk.charge marker).take index scan marker id).read =
    walk.read ++ [marker] := by
  unfold Walk.take
  split
  · split <;> rfl
  · rfl

theorem Walk.Sound.take (h : walk.Sound index scan) {id : String}
    (hbody : index.body marker = some id) :
    ((walk.charge marker).take index scan marker id).Sound index scan := by
  unfold Walk.take
  rcases hjob : index.job id with _ | job
  · refine ⟨fun m hm id' job' hbody' hjob' hpath haccepts => ?_, h.known⟩
    rw [charge_read, mem_append, mem_singleton] at hm
    rcases hm with hm | rfl
    · exact h.returned m hm id' job' hbody' hjob' hpath haccepts
    · rw [hbody] at hbody'
      cases hbody'
      rw [hjob] at hjob'
      cases hjob'
  · dsimp only
    split
    · refine ⟨fun m hm id' job' hbody' hjob' hpath haccepts => ?_, fun id' hid' => ?_⟩
      · rw [charge_read, mem_append, mem_singleton] at hm
        rcases hm with hm | rfl
        · exact mem_append_left _ (h.returned m hm id' job' hbody' hjob' hpath haccepts)
        · rw [hbody] at hbody'
          cases hbody'
          rw [hjob] at hjob'
          cases hjob'
          simp
      · dsimp only at hid' ⊢
        rw [mem_append, mem_singleton] at hid'
        rcases hid' with hid' | rfl
        · obtain ⟨found, hfound, hfid⟩ := h.known id' hid'
          exact ⟨found, mem_append_left _ hfound, hfid⟩
        · exact ⟨job, by simp, by rw [index.stored id job hjob]; exact hjob⟩
    · next hnot =>
      refine ⟨fun m hm id' job' hbody' hjob' hpath haccepts => ?_, h.known⟩
      rw [charge_read, mem_append, mem_singleton] at hm
      rcases hm with hm | rfl
      · exact h.returned m hm id' job' hbody' hjob' hpath haccepts
      · rw [hbody] at hbody'
        cases hbody'
        rw [hjob] at hjob'
        cases hjob'
        -- the job is accepted under its current key, so it was returned before
        have hseen : index.jobId job ∈ walk.seen := by
          by_contra hfresh
          exact hnot ⟨hpath.symm, haccepts, hfresh⟩
        rw [index.stored id job hjob] at hseen
        obtain ⟨found, hfound, hid⟩ := h.known id hseen
        rw [hjob] at hid
        cases hid
        exact hfound

theorem Walk.Sound.taken (h : walk.Sound index scan) {id : String}
    (hbody : index.body marker = some id) :
    Onward index scan walk ((walk.charge marker).take index scan marker id) := by
  refine ⟨h.take hbody, fun m hm => ?_⟩
  rw [take_read]
  exact mem_append_left _ hm

/-- The jobs of a page judged to the end. -/
theorem judge_on (h : walk.Sound index scan)
    (hwithin : walk.Within scan) (hbodies : ∀ entry ∈ entries, index.body entry.1 = some entry.2)
    (hjudge : judge index scan origin wrapped walk entries = .on walk') :
    Onward index scan walk walk' ∧ walk'.Within scan ∧ entries.map (·.1) ⊆ walk'.read := by
  induction entries generalizing walk with
  | nil =>
    unfold judge at hjudge
    cases hjudge
    exact ⟨h.refl, hwithin, by simp⟩
  | cons entry rest ih =>
    obtain ⟨hbody, hrest⟩ := forall_mem_cons.mp hbodies
    unfold judge at hjudge
    dsimp only at hjudge
    split at hjudge
    · cases hjudge
    · split at hjudge
      · cases hjudge
      · next hgo =>
        rw [Bool.not_eq_true, Bool.or_eq_false_iff] at hgo
        obtain ⟨honward, hwithin', hread⟩ := ih (h.take hbody) hgo.2 hrest hjudge
        refine ⟨(h.taken hbody).trans honward, hwithin', ?_⟩
        rw [map_cons, cons_subset]
        exact ⟨honward.read (by rw [take_read]; simp), hread⟩

theorem judge_stopped (h : walk.Sound index scan) (hsorted : (entries.map (·.1)).Pairwise (· < ·))
    (hbodies : ∀ entry ∈ entries, index.body entry.1 = some entry.2)
    (hjudge : judge index scan origin wrapped walk entries = .stopped at' walk') :
    Onward index scan walk walk' ∧ Stops origin wrapped (entries.map (·.1)) walk'.read at' := by
  induction entries generalizing walk with
  | nil =>
    unfold judge at hjudge
    cases hjudge
  | cons entry rest ih =>
    obtain ⟨hbody, hrest⟩ := forall_mem_cons.mp hbodies
    rw [map_cons, pairwise_cons] at hsorted
    obtain ⟨hfirst, hsorted⟩ := hsorted
    have hle : ∀ m ∈ (entry :: rest).map (·.1), entry.1 ≤ m := by
      rw [map_cons]
      exact forall_mem_cons.mpr ⟨le_refl _, fun m hm => (hfirst m hm).le⟩
    unfold judge at hjudge
    dsimp only at hjudge
    split at hjudge
    · next hpast =>
      cases hjudge
      rw [Bool.and_eq_true, Option.any_eq_true] at hpast
      obtain ⟨hwrapped, begun, hbegun, hlt⟩ := hpast
      rw [decide_eq_true_eq] at hlt
      refine ⟨h.refl, hwrapped, begun, hbegun, ⟨entry.1, by simp, hlt⟩, fun m hm hmle => ?_⟩
      exact absurd (hlt.trans_le (hle m hm)) (not_lt.mpr hmle)
    · split at hjudge
      · cases hjudge
        refine ⟨h.taken hbody, by simp, fun m hm hmle => ?_⟩
        rw [take_read, le_antisymm hmle (hle m hm)]
        simp
      · obtain ⟨honward, hstops⟩ := ih (h.take hbody) hsorted hrest hjudge
        refine ⟨(h.taken hbody).trans honward, ?_⟩
        have hentry : [entry.1] ⊆ walk'.read := by
          rw [cons_subset]
          exact ⟨honward.read (by rw [take_read]; simp), nil_subset _⟩
        exact hstops.append_right hentry

/-! ## Pages and legs -/

theorem walkPage_on (h : walk.Sound index scan) (hwithin : walk.Within scan)
    (haffords : Affords scan walk.scanned page.length)
    (hpage : walkPage index scan origin wrapped walk page = .on walk') :
    Onward index scan walk walk' ∧ walk'.Within scan ∧ page.filter index.isMarker ⊆ walk'.read := by
  unfold walkPage at hpage
  split at hpage
  · cases hpage
  · next entries walk₁ hres =>
    obtain ⟨live, rfl, hlive⟩ := resolve_on h hwithin
      (by simpa using affords_filter haffords) hres
    obtain ⟨honward, hwithin', hread⟩ := judge_on hlive.onward.sound hlive.within hlive.bodies
      hpage
    refine ⟨hlive.onward.trans honward, hwithin', fun m hm => ?_⟩
    exact (hlive.covers m hm).elim (fun hm => honward.read hm) fun hm => hread hm

theorem walkPage_stopped (h : walk.Sound index scan) (hwithin : walk.Within scan)
    (haffords : Affords scan walk.scanned page.length) (hsorted : page.Pairwise (· < ·))
    (hpage : walkPage index scan origin wrapped walk page = .stopped at' walk') :
    Onward index scan walk walk' ∧
      Stops origin wrapped (page.filter index.isMarker) walk'.read at' := by
  unfold walkPage at hpage
  split at hpage
  · next entries at₁ walk₁ hres =>
    cases hpage
    obtain ⟨-, honward, ⟨m, hm, rfl⟩, hread⟩ := resolve_stopped h
      (by simpa using affords_filter haffords) hres
    exact ⟨honward, hm, fun m' hm' _ => hread m' hm'⟩
  · next entries walk₁ hres =>
    obtain ⟨live, rfl, hlive⟩ := resolve_on h hwithin
      (by simpa using affords_filter haffords) hres
    have hlivesorted := (hsorted.filter index.isMarker).sublist hlive.sublist
    obtain ⟨honward, hstops⟩ := judge_stopped hlive.onward.sound hlivesorted hlive.bodies hpage
    refine ⟨hlive.onward.trans honward, hstops.widen hlive.sublist.subset fun m hm => ?_⟩
    exact (hlive.covers m hm).imp_left fun hm => honward.read hm

theorem left_pos {bound : Option ℕ+} {used n : ℕ} (h : left bound used = some n) : 0 < n := by
  unfold left at h
  rw [bind_eq_some_iff] at h
  obtain ⟨b, -, hb⟩ := h
  split at hb
  · cases hb
  · cases hb
    omega

/-- A page pulls a name at least, and no more than the budget affords. -/
theorem markerPage_pos {found scanned n : ℕ} (h : markerPage scan found scanned = some n) :
    0 < n := by
  unfold markerPage at h
  split at h
  · next wanted allowed hw ha =>
    cases h
    exact lt_min (left_pos hw) (left_pos ha)
  · next hw _ =>
    cases h
    exact left_pos hw
  · next _ ha =>
    cases h
    exact left_pos ha
  · cases h

/-- A leg that goes on to the end of the prefix has read every marker of it. -/
theorem walkLeg_on {pages : ℕ} (h : walk.Sound index scan) (hwithin : walk.Within scan)
    (hpages : names.length ≤ pages)
    (hleg : walkLeg index scan origin wrapped pages walk names = .on walk') :
    Onward index scan walk walk' ∧ walk'.Within scan ∧
      names.filter index.isMarker ⊆ walk'.read := by
  induction pages generalizing walk names with
  | zero =>
    unfold walkLeg at hleg
    cases hleg
    rw [length_eq_zero_iff.mp (Nat.le_zero.mp hpages)]
    exact ⟨h.refl, hwithin, by simp⟩
  | succ pages ih =>
    unfold walkLeg at hleg
    split at hleg
    · next hempty =>
      cases hleg
      rw [hempty]
      exact ⟨h.refl, hwithin, by simp⟩
    · next hne =>
      dsimp only at hleg
      set limit := (markerPage scan walk.out.length walk.scanned).getD names.length with hlimit
      have hpos : 0 < limit := by
        rcases hpage : markerPage scan walk.out.length walk.scanned with _ | n
        · rw [hlimit, hpage]
          exact length_pos_of_ne_nil hne
        · rw [hlimit, hpage]
          exact markerPage_pos hpage
      split at hleg
      · cases hleg
      · next walk₁ hpage =>
        obtain ⟨honward, hwithin₁, hread⟩ :=
          walkPage_on h hwithin (affords_page _ hwithin names) hpage
        have hdrop : (names.drop limit).length ≤ pages := by
          rw [length_drop]
          have := length_pos_of_ne_nil hne
          omega
        obtain ⟨honward', hwithin', hread'⟩ := ih honward.sound hwithin₁ hdrop hleg
        refine ⟨honward.trans honward', hwithin', ?_⟩
        rw [← take_append_drop limit names, filter_append, append_subset]
        exact ⟨fun m hm => honward'.read (hread hm), hread'⟩

theorem walkLeg_stopped {pages : ℕ} (h : walk.Sound index scan) (hwithin : walk.Within scan)
    (hsorted : names.Pairwise (· < ·))
    (hleg : walkLeg index scan origin wrapped pages walk names = .stopped at' walk') :
    Onward index scan walk walk' ∧
      Stops origin wrapped (names.filter index.isMarker) walk'.read at' := by
  induction pages generalizing walk names with
  | zero =>
    unfold walkLeg at hleg
    cases hleg
  | succ pages ih =>
    unfold walkLeg at hleg
    split at hleg
    · cases hleg
    · dsimp only at hleg
      set limit := (markerPage scan walk.out.length walk.scanned).getD names.length
      have happend := take_append_drop limit names
      rw [← happend] at hsorted
      rw [pairwise_append] at hsorted
      obtain ⟨htake, hdrop, hbefore⟩ := hsorted
      rw [← happend, filter_append]
      have haffords := affords_page walk.out.length hwithin names
      split at hleg
      · next at₁ walk₁ hpage =>
        cases hleg
        obtain ⟨honward, hstops⟩ := walkPage_stopped h hwithin haffords htake hpage
        refine ⟨honward, hstops.append_left fun m hm m' hm' => ?_⟩
        exact hbefore m (mem_of_mem_filter hm) m' (mem_of_mem_filter hm')
      · next walk₁ hpage =>
        obtain ⟨honward, hwithin₁, hread⟩ := walkPage_on h hwithin haffords hpage
        obtain ⟨honward', hstops⟩ := ih honward.sound hwithin₁ hdrop hleg
        refine ⟨honward.trans honward', hstops.append_right fun m hm => ?_⟩
        exact honward'.read (hread hm)

/-! ## The order of what is returned -/

/-- The caller accepts the job of a marker of the index, under its current key. -/
def Admits (index : Index Name Job) (scan : JobScan Job) (marker : Name) (job : Job) : Prop :=
  (marker ∈ index.names ∧ index.isMarker marker = true) ∧
    (∃ id ∈ index.body marker, job ∈ index.job id) ∧ index.markerPath job = marker ∧
      scan.accepts job = true

/-- The jobs found are admitted, in the order of their markers, all before `names`. -/
structure Ordered (index : Index Name Job) (scan : JobScan Job) (names : List Name)
    (out : List Job) : Prop where
  admits : ∀ job ∈ out, Admits index scan (index.markerPath job) job
  sorted : (out.map index.markerPath ++ names).Pairwise (· < ·)
  subset : names ⊆ index.names

/-- A walk that stopped did so on a full window or a spent budget, at or past each job's marker. -/
def Walked.Ordered (index : Index Name Job) (scan : JobScan Job) (names : List Name) :
    Walked Name Job → Prop
  | .on walk => Listing.Ordered index scan names walk.out
  | .stopped at' walk => Listing.Ordered index scan names walk.out ∧
    (∃ marker ∈ at', ∀ job ∈ walk.out, index.markerPath job ≤ marker) ∧
      (scan.windowFull walk.out.length || scan.budgetSpent walk.scanned) = true

theorem Ordered.sublist {out : List Job} (h : Ordered index scan names out)
    (hsub : page.Sublist names) : Ordered index scan page out :=
  ⟨h.admits, h.sorted.sublist ((Sublist.refl _).append hsub), fun _ hm => h.subset (hsub.subset hm)⟩

theorem Ordered.le {out : List Job} (h : Ordered index scan names out) (hmarker : marker ∈ names) :
    ∀ job ∈ out, index.markerPath job ≤ marker := fun _ hjob =>
  ((pairwise_append.mp h.sorted).2.2 _ (mem_map_of_mem hjob) _ hmarker).le

theorem resolve_ordered {walked : Walked Name Job}
    (h : Ordered index scan (markers ++ names) walk.out)
    (hres : resolve index scan walk entries markers = (entries', walked)) :
    (∃ live walk', entries' = entries ++ live ∧ walked = .on walk' ∧ walk'.out = walk.out ∧
      (live.map (·.1)).Sublist markers ∧ ∀ entry ∈ live, index.body entry.1 = some entry.2) ∨
    ∃ at' walk', walked = .stopped at' walk' ∧ walked.Ordered index scan names := by
  induction markers generalizing walk entries with
  | nil =>
    cases hres
    exact .inl ⟨[], walk, by simp⟩
  | cons marker markers ih =>
    have hrest := h.sublist (sublist_cons_self ..)
    unfold resolve at hres
    split at hres
    · next id hlive =>
      refine (ih hrest hres).imp_left ?_
      rintro ⟨live, walk', rfl, rfl, hout, hsub, hbodies⟩
      refine ⟨(marker, id) :: live, walk', by simp, rfl, hout, hsub.cons_cons marker, ?_⟩
      exact forall_mem_cons.mpr ⟨(filter_eq_some_iff.mp hlive).1, hbodies⟩
    · dsimp only at hres
      split at hres
      · next hspent =>
        cases hres
        exact .inr ⟨_, _, rfl, hrest.sublist (sublist_append_right ..),
          ⟨marker, rfl, h.le mem_cons_self⟩, Bool.or_eq_true_iff.mpr (.inr hspent)⟩
      · refine (@ih (walk.charge marker) _ hrest hres).imp_left ?_
        rintro ⟨live, walk', h, h', hout, hsub, hbodies⟩
        exact ⟨live, walk', h, h', hout, hsub.cons marker, hbodies⟩

/-- A charged marker's job comes after those found before. -/
theorem Ordered.take (h : Ordered index scan (marker :: names) walk.out) {id : String}
    (hmarker : index.isMarker marker = true) (hbody : index.body marker = some id) :
    Ordered index scan names ((walk.charge marker).take index scan marker id).out ∧
      ∀ job ∈ ((walk.charge marker).take index scan marker id).out,
        index.markerPath job ≤ marker := by
  have hle := h.le mem_cons_self
  have hkept := h.sublist (sublist_cons_self ..)
  unfold Walk.take
  split
  · next job hjob =>
    split
    · next hall =>
      have hadmits : Admits index scan marker job :=
        ⟨⟨h.subset mem_cons_self, hmarker⟩, ⟨id, hbody, hjob⟩, hall.1.symm, hall.2.1⟩
      refine ⟨⟨?_, ?_, hkept.subset⟩, ?_⟩
      · exact forall_mem_append.mpr ⟨h.admits, by simpa [hall.1] using hadmits⟩
      · simpa [Walk.charge, ← hall.1] using h.sorted
      · exact forall_mem_append.mpr ⟨hle, by simp [hall.1]⟩
    · exact ⟨hkept, hle⟩
  · exact ⟨hkept, hle⟩

theorem judge_ordered (h : Ordered index scan (entries.map (·.1) ++ names) walk.out)
    (hbodies : ∀ entry ∈ entries, index.isMarker entry.1 = true ∧
      index.body entry.1 = some entry.2) :
    (judge index scan origin false walk entries).Ordered index scan names := by
  induction entries generalizing walk with
  | nil => exact h
  | cons entry rest ih =>
    obtain ⟨hbody, hrest⟩ := forall_mem_cons.mp hbodies
    obtain ⟨htake, hle⟩ := h.take hbody.1 hbody.2
    unfold judge
    rw [Bool.false_and, if_neg Bool.false_ne_true]
    dsimp only
    split
    · next hstop => exact ⟨htake.sublist (sublist_append_right ..), ⟨_, rfl, hle⟩, hstop⟩
    · exact ih htake hrest

theorem walkPage_ordered (h : Ordered index scan (page ++ names) walk.out) :
    (walkPage index scan origin false walk page).Ordered index scan names := by
  have hmarkers := h.sublist ((@filter_sublist _ index.isMarker page).append (Sublist.refl names))
  unfold walkPage
  rcases hres : resolve index scan walk [] (page.filter index.isMarker) with ⟨entries, walked⟩
  rcases resolve_ordered hmarkers hres with ⟨live, walk', rfl, rfl, hout, hsub, hbodies⟩ |
    ⟨at', walk', rfl, hstopped⟩
  · refine judge_ordered ?_ fun entry hentry => ⟨?_, hbodies entry hentry⟩
    · rw [hout]
      exact hmarkers.sublist (hsub.append (Sublist.refl names))
    · exact (mem_filter.mp (hsub.subset (mem_map_of_mem hentry))).2
  · exact hstopped

theorem walkLeg_ordered {pages : ℕ} (h : Ordered index scan names walk.out) :
    (walkLeg index scan origin false pages walk names).Ordered index scan [] := by
  induction pages generalizing walk names with
  | zero => exact h.sublist (nil_sublist _)
  | succ pages ih =>
    unfold walkLeg
    split
    · exact h.sublist (nil_sublist _)
    · dsimp only
      rw [← take_append_drop ((markerPage scan walk.out.length walk.scanned).getD names.length)
        names] at h
      have hpage : (walkPage index scan origin false walk _).Ordered index scan _ :=
        walkPage_ordered h
      split
      · next heq =>
        rw [heq] at hpage
        exact ⟨hpage.1.sublist (nil_sublist _), hpage.2⟩
      · next heq =>
        rw [heq] at hpage
        exact ih hpage

end Stado.Listing
