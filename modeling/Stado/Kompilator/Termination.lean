import Mathlib.Data.Set.Card
import Stado.Kompilator.ResolveSpecs

/-!
# Resolution terminates

A call that is not answered at once puts there a unit or a feature that was
not, and the units and the names of features of a graph are finitely many. So
the facts still to come bound the depth of the calls, whatever the tables say
and however they name one another.
-/

namespace Stado.Kompilator

open Procedures Command List Extends

variable {n : ℕ} {g : Graph n} {asked : Features}

/-- The features an entry names, of its own package or of a dependency. -/
def mentions (entry : String) : List String :=
  match Entry.of entry with
  | .dep _ => []
  | .sub _ sub _ => [sub]
  | .feature => [entry]

namespace Graph

variable (g asked) in
/-- The features that may be activated. -/
def names : Finset String :=
  insert "default" ((g.wanted asked).toFinset ∪ Finset.univ.biUnion fun node =>
    ((g.nodes node).dependencies.flatMap Dependency.features ++
      ((g.nodes node).features.flatMap Prod.snd).flatMap mentions).toFinset)

theorem default_mem_names : "default" ∈ g.names asked := Finset.mem_insert_self ..

theorem wanted_mem_names {f : String} (h : f ∈ g.wanted asked) : f ∈ g.names asked := by
  unfold names
  simp [h]

theorem line_mem_names {node : Fin n} {d : Dependency} {f : String}
    (hd : d ∈ (g.nodes node).dependencies) (hf : f ∈ d.features) : f ∈ g.names asked := by
  unfold names
  refine Finset.mem_insert_of_mem (Finset.mem_union_right _ ?_)
  refine Finset.mem_biUnion.mpr ⟨node, Finset.mem_univ _, ?_⟩
  rw [List.mem_toFinset]
  exact mem_append_left _ (mem_flatMap.mpr ⟨d, hd, hf⟩)

theorem entry_mem_names {u : BuildUnit n} {f entry m : String} (h : g.Enables u f entry)
    (hm : m ∈ mentions entry) : m ∈ g.names asked := by
  obtain ⟨entries, hlookup, hentry⟩ := h
  unfold Manifest.enables at hlookup
  obtain ⟨before, after, hsplit, -⟩ := lookup_eq_some_iff.mp hlookup
  unfold names
  refine Finset.mem_insert_of_mem (Finset.mem_union_right _ ?_)
  refine Finset.mem_biUnion.mpr ⟨u.node, Finset.mem_univ _, ?_⟩
  rw [List.mem_toFinset]
  refine mem_append_right _ (mem_flatMap.mpr ⟨entry, ?_, hm⟩)
  refine mem_flatMap.mpr ⟨(f, entries), ?_, hentry⟩
  show (f, entries) ∈ (g.manifest u).features
  rw [hsplit]
  simp

/-! ## The facts to come -/

instance finiteUnits : Finite (BuildUnit n) :=
  Finite.of_injective (fun u => (u.node, u.host)) fun u v h => by
    obtain ⟨i, a⟩ := u
    obtain ⟨j, b⟩ := v
    cases h
    rfl

def Coming (g : Graph n) (asked : Features) (φ : Fact n) : Prop :=
  match φ with
  | .unit _ => True
  | .edge _ _ => False
  | .feature _ f => f ∈ g.names asked

theorem coming_finite (g : Graph n) (asked : Features) : {φ | g.Coming asked φ}.Finite := by
  have hunits : (Set.univ : Set (BuildUnit n)).Finite := Set.finite_univ
  refine ((hunits.image Fact.unit).union
    ((hunits.prod (g.names asked).finite_toSet).image fun p => Fact.feature p.1 p.2)).subset ?_
  rintro (u | ⟨u, e⟩ | ⟨u, f⟩) h
  · exact .inl ⟨u, Set.mem_univ _, rfl⟩
  · exact h.elim
  · exact .inr ⟨(u, f), ⟨Set.mem_univ _, h⟩, rfl⟩

variable (g asked) in
/-- How many facts may still come. -/
noncomputable def toCome (t : Units n) : ℕ := ({φ | g.Coming asked φ} \ t.facts).ncard

variable (g asked) in
theorem toCome_le {s t : Units n} (h : s.facts ⊆ t.facts) :
    g.toCome asked t ≤ g.toCome asked s := by
  unfold toCome
  exact Set.ncard_le_ncard (Set.sdiff_subset_sdiff_right h) ((coming_finite g asked).sdiff)

variable (g asked) in
theorem toCome_lt {s t : Units n} (φ : Fact n) (h : s.facts ⊆ t.facts) (hcoming : g.Coming asked φ)
    (hnew : φ ∉ s.facts) (hthere : φ ∈ t.facts) : g.toCome asked t < g.toCome asked s := by
  unfold toCome
  refine Set.ncard_lt_ncard ⟨Set.sdiff_subset_sdiff_right h, fun hsub => ?_⟩
    ((coming_finite g asked).sdiff)
  exact (hsub ⟨hcoming, hnew⟩).2 hthere

/-- How deep a call may go. -/
noncomputable def need (g : Graph n) (asked : Features) : g.Call → Units n → ℕ
  | .ensure _, s => 3 * g.toCome asked s + 1
  | .activate _ _, s => 3 * g.toCome asked s + 2
  | .enableLine _ _ _, s => 3 * g.toCome asked s + 3

/-! ## The triples -/

def Named (g : Graph n) (asked : Features) (s : Units n) : Prop :=
  ∀ u x sub, s.Waits u x sub → sub ∈ g.names asked

def Asked (g : Graph n) (asked : Features) : g.Call → Units n → Prop
  | .ensure _, s => g.Named asked s
  | .enableLine u _ extra, s =>
    g.Named asked s ∧ .unit u ∈ s.facts ∧ ∀ f, extra = some f → f ∈ g.names asked
  | .activate _ f, s => g.Named asked s ∧ f ∈ g.names asked

/-- A call loses no fact, and an `ensure` has put its unit there. -/
def Left (g : Graph n) (asked : Features) (c : g.Call) (s t : Units n) : Prop :=
  s.facts ⊆ t.facts ∧ g.Named asked t ∧ ∀ u, c = .ensure u → .unit u ∈ t.facts

section Triples

variable {s : Units n} {u : BuildUnit n} {call : g.Call → Resolving n PUnit} {k : ℕ}

/-- The calls less deep than `k` end. -/
def EndsBelow (g : Graph n) (asked : Features) (call : g.Call → Resolving n PUnit) (k : ℕ) :
    Prop :=
  ∀ c s, g.Asked asked c s → g.need asked c s < k →
    Meets False (call c) s (fun _ t => g.Left asked c s t) (fun _ => True)

theorem Named.add {s t : Units n} {φ : Fact n} (h : g.Named asked s)
    (hadd : Units.Adds s t φ) : g.Named asked t :=
  fun v x sub hw => h v x sub ((hadd.waits v x sub).mp hw)

theorem ends_loop {α : Type} {xs : List α} {c : α → Resolving n PUnit} (hs : g.Named asked s)
    (round : ∀ x ∈ xs, ∀ t, s.facts ⊆ t.facts → g.Named asked t →
      Meets False (c x) t (fun _ r => t.facts ⊆ r.facts ∧ g.Named asked r) (fun _ => True)) :
    Meets False (forEach xs c) s (fun _ t => s.facts ⊆ t.facts ∧ g.Named asked t)
      (fun _ => True) := by
  have hloop := meets_forEach (I := fun t => s.facts ⊆ t.facts ∧ g.Named asked t)
    (R := fun _ _ => True) (N := False) (X := fun _ => True) xs ⟨subset_rfl, hs⟩
    (fun x hx t ht => (round x hx t ht.1 ht.2).post fun _ r hr =>
      ⟨⟨ht.1.trans hr.1, hr.2⟩, trivial, fun _ _ => trivial⟩)
  exact hloop.post fun _ t ht => ht.1

theorem ensure_ends (hcall : g.EndsBelow asked call (g.need asked (.ensure u) s))
    (hs : g.Named asked s) :
    Meets False (g.ensure call u) s (fun _ t => g.Left asked (.ensure u) s t) (fun _ => True) := by
  unfold ensure
  rw [meets_bind, meets_get]
  split
  · next hthere =>
    refine ⟨subset_rfl, hs, ?_⟩
    rintro _ ⟨⟩
    exact hthere
  · next hnew =>
    rw [meets_bind]
    apply meets_setState
    have hadd := adds_unit (s := s) (u := u) (by simpa using hnew)
    have hthere := (hadd.facts (.unit u)).mpr (.inl rfl)
    have hfewer := toCome_lt g asked (.unit u) hadd.subset trivial
      hnew hthere
    refine (ends_loop (hs.add hadd) fun p _ t ht hnamed => ?_).post fun _ t ht => ?_
    · dsimp only
      split
      · exact ⟨subset_rfl, hnamed⟩
      split
      · exact ⟨subset_rfl, hnamed⟩
      · refine (hcall (.enableLine u p none) t ⟨hnamed, ht hthere, fun f hf => by cases hf⟩
          ?_).post fun _ r hr => ⟨hr.1, hr.2.1⟩
        have := toCome_le g asked ht
        simp only [need]
        omega
    · refine ⟨hadd.subset.trans ht.1, ht.2, ?_⟩
      rintro _ ⟨⟩
      exact ht.1 hthere

/-- Features of one unit, activated in order. -/
theorem activateAll_ends (hcall : g.EndsBelow asked call k) (hs : g.Named asked s)
    (fs : List String) (hnamed : ∀ f ∈ fs, f ∈ g.names asked) (hk : 3 * g.toCome asked s + 2 < k) :
    Meets False (forEach fs fun f => call (.activate u f)) s
      (fun _ t => s.facts ⊆ t.facts ∧ g.Named asked t) (fun _ => True) := by
  refine ends_loop hs fun f hf t ht htn => ?_
  refine (hcall (.activate u f) t ⟨htn, hnamed f hf⟩ ?_).post fun _ r hr => ⟨hr.1, hr.2.1⟩
  have := toCome_le g asked ht
  simp only [need]
  omega

theorem enableAll_ends (hcall : g.EndsBelow asked call k) (hs : g.Named asked s)
    (hunit : .unit u ∈ s.facts) (x : String) (extra : Option String)
    (hextra : ∀ f, extra = some f → f ∈ g.names asked) (hk : 3 * g.toCome asked s + 3 < k) :
    Meets False (forEach (g.lines u x) fun line => call (.enableLine u line extra)) s
      (fun _ t => s.facts ⊆ t.facts ∧ g.Named asked t) (fun _ => True) := by
  refine ends_loop hs fun p _ t ht htn => ?_
  refine (hcall (.enableLine u p extra) t ⟨htn, ht hunit, hextra⟩ ?_).post
    fun _ r hr => ⟨hr.1, hr.2.1⟩
  have := toCome_le g asked ht
  simp only [need]
  omega

theorem enableLine_ends {p : Fin (g.nodes u.node).dependencies.length} {extra : Option String}
    (hcall : g.EndsBelow asked call (g.need asked (.enableLine u p extra) s)) (hs : g.Named asked s)
    (hunit : .unit u ∈ s.facts) (hextra : ∀ f, extra = some f → f ∈ g.names asked) :
    Meets False (g.enableLine call u p extra) s
      (fun _ t => g.Left asked (.enableLine u p extra) s t) (fun _ => True) := by
  unfold enableLine
  cases htarget : g.targets u.node p with
  | none => exact ⟨subset_rfl, hs, by rintro _ ⟨⟩⟩
  | some node =>
    have hneed : g.need asked (.enableLine u p extra) s = 3 * g.toCome asked s + 3 := rfl
    dsimp only
    rw [meets_bind]
    refine (hcall (.ensure _) s hs (by simp only [need]; omega)).post fun _ s1 h1 => ?_
    rw [meets_bind]
    refine meets_addEdge (h1.1 hunit) fun s2 hadd => ?_
    have h2 : s.facts ⊆ s2.facts := h1.1.trans hadd.subset
    have hs2 : g.Named asked s2 := h1.2.1.add hadd
    have hle2 := toCome_le g asked h2
    rw [meets_bind]
    refine Meets.post (Q := fun _ t => s2.facts ⊆ t.facts ∧ g.Named asked t)
      (meets_onlyIf (fun _ => ?_) fun _ => ⟨subset_rfl, hs2⟩) fun _ s3 h3 => ?_
    · exact (hcall (.activate _ "default") s2 ⟨hs2, default_mem_names⟩
        (by simp only [need]; omega)).post fun _ t ht => ⟨ht.1, ht.2.1⟩
    have hle3 := toCome_le g asked h3.1
    rw [meets_bind]
    refine (activateAll_ends hcall h3.2 _ (fun f hf => ?_) (by omega)).post fun _ s4 h4 => ?_
    · exact line_mem_names (List.get_mem _ _) hf
    have hle4 := toCome_le g asked h4.1
    rw [meets_bind]
    refine (activateAll_ends hcall h4.2 _ (fun f hf => hextra f (by simpa using hf))
      (by omega)).post fun _ s5 h5 => ?_
    have hgrown : s.facts ⊆ s5.facts := h2.trans (h3.1.trans (h4.1.trans h5.1))
    rw [meets_bind]
    refine meets_takeWaiting (hgrown hunit) fun waiting s6 hfacts hwaits htaken => ?_
    have hs6 : g.Named asked s6 := fun v x sub hw => h5.2 v x sub ((hwaits v x sub).mp hw).1
    have h6 : s.facts ⊆ s6.facts := fun ψ hψ => (hfacts ψ).mpr (hgrown hψ)
    have hle6 := toCome_le g asked h6
    refine (activateAll_ends hcall hs6 waiting (fun sub hsub => ?_) (by omega)).post
      fun _ t ht => ⟨h6.trans ht.1, ht.2, by rintro _ ⟨⟩⟩
    exact h5.2 u _ sub ((htaken sub).mp hsub)

theorem apply_ends (hcall : g.EndsBelow asked call k) (hs : g.Named asked s)
    (hunit : .unit u ∈ s.facts) {f entry : String} (hentry : g.Enables u f entry)
    (hk : 3 * g.toCome asked s + 3 < k) :
    Meets False (g.apply call u entry) s
      (fun _ t => s.facts ⊆ t.facts ∧ g.Named asked t) (fun _ => True) := by
  have hmention : ∀ m ∈ mentions entry, m ∈ g.names asked := fun m hm => entry_mem_names hentry hm
  unfold apply
  unfold mentions at hmention
  cases hof : Entry.of entry with
  | dep x => exact enableAll_ends hcall hs hunit x none (fun f hf => by cases hf) hk
  | feature =>
    rw [hof] at hmention
    exact (hcall (.activate u entry) s ⟨hs, hmention _ (mem_singleton.mpr rfl)⟩
      (by simp only [need]; omega)).post fun _ t ht => ⟨ht.1, ht.2.1⟩
  | sub x sub weak =>
    rw [hof] at hmention
    have hsub : sub ∈ g.names asked := hmention _ (mem_singleton.mpr rfl)
    dsimp only
    rw [meets_bind, meets_get]
    split
    · refine meets_addWeak hunit fun t hfacts hwaits => ⟨fun ψ hψ => (hfacts ψ).mpr hψ, ?_⟩
      intro v y sub' hw
      rcases (hwaits v y sub').mp hw with hw | ⟨-, -, rfl⟩
      · exact hs v y sub' hw
      · exact hsub
    · rw [meets_bind]
      refine Meets.post (Q := fun _ t => s.facts ⊆ t.facts ∧ g.Named asked t)
        (meets_onlyIf (fun _ => ?_) fun _ => ⟨subset_rfl, hs⟩) fun _ t ht => ?_
      · exact meets_addFeature hunit fun t hadd => ⟨hadd.subset, hs.add hadd⟩
      · have hle := toCome_le g asked ht.1
        refine (enableAll_ends hcall ht.2 (ht.1 hunit) x (some sub) ?_ (by omega)).post
          fun _ r hr => ⟨ht.1.trans hr.1, hr.2⟩
        rintro _ ⟨⟩
        exact hsub

theorem activate_ends {f : String} (hcall : g.EndsBelow asked call (g.need asked (.activate u f) s))
    (hs : g.Named asked s) (hf : f ∈ g.names asked) :
    Meets False (g.activate call u f) s (fun _ t => g.Left asked (.activate u f) s t)
      (fun _ => True) := by
  have hneed : g.need asked (.activate u f) s = 3 * g.toCome asked s + 2 := rfl
  unfold activate
  rw [meets_bind]
  refine (hcall (.ensure u) s hs (by simp only [need]; omega)).post fun _ s1 h1 => ?_
  obtain ⟨h1, hs1, hthere⟩ := h1
  have hthere := hthere u rfl
  obtain ⟨state, hstate⟩ := Units.unit_mem.mp hthere
  rw [meets_bind]
  apply meets_stateOf hstate
  split
  · exact ⟨h1, hs1, by rintro _ ⟨⟩⟩
  · next hnew =>
    rw [meets_bind]
    refine meets_addFeature hthere fun s2 hadd => ?_
    have hs2 : g.Named asked s2 := hs1.add hadd
    have h2 : s.facts ⊆ s2.facts := h1.trans hadd.subset
    have hle := toCome_le g asked h1
    have hfewer := toCome_lt g asked (.feature u f) hadd.subset hf
      (fun hmem => hnew (((mem_of_state hstate).2.1 f).mp hmem)) ((hadd.facts _).mpr (.inl rfl))
    split
    · next entries hentries =>
      refine (ends_loop hs2 fun entry hentry t ht htn => ?_).post
        fun _ t ht => ⟨h2.trans ht.1, ht.2, by rintro _ ⟨⟩⟩
      have hle' := toCome_le g asked ht
      exact apply_ends hcall htn (ht (hadd.subset hthere)) ⟨entries, hentries, hentry⟩
        (by omega)
    · split
      · exact (enableAll_ends hcall hs2 (hadd.subset hthere) f none (fun f hf => by cases hf)
          (by omega)).post fun _ t ht => ⟨h2.trans ht.1, ht.2, by rintro _ ⟨⟩⟩
      · trivial

variable (g asked) in
theorem run_ends_below (depth : ℕ) : g.EndsBelow asked (run g.body depth) depth := by
  refine run_ends (P := g.Asked asked) (Q := g.Left asked) (g.need asked) ?_ depth
  intro call c s hasked hcall
  have hcall : g.EndsBelow asked call (g.need asked c s) := fun c' s' h hlt => hcall c' s' h hlt
  cases c with
  | ensure u => exact ensure_ends hcall hasked
  | enableLine u p extra => exact enableLine_ends hcall hasked.1 hasked.2.1 hasked.2.2
  | activate u f => exact activate_ends hcall hasked.1 hasked.2

end Triples

/-! ## Every depth that is enough gives the same answer -/

section Depth

variable {call call' : g.Call → Resolving n PUnit}

section

variable (h : ∀ c, Extends (call c) (call' c))

include h

theorem enableAll_extends (u : BuildUnit n) (x : String) (extra : Option String) :
    Extends (forEach (g.lines u x) fun line => call (.enableLine u line extra))
      (forEach (g.lines u x) fun line => call' (.enableLine u line extra)) :=
  forEach (fun _ => h _) _

theorem ensure_extends (u : BuildUnit n) : Extends (g.ensure call u) (g.ensure call' u) := by
  unfold ensure
  refine bind (.refl _) fun units => ?_
  split
  · exact .refl _
  · refine bind (.refl _) fun _ => forEach (fun p => ?_) _
    dsimp only
    split
    · exact .refl _
    split
    · exact .refl _
    · exact h _

theorem enableLine_extends (u : BuildUnit n)
    (p : Fin (g.nodes u.node).dependencies.length) (extra : Option String) :
    Extends (g.enableLine call u p extra) (g.enableLine call' u p extra) := by
  unfold enableLine
  split
  · exact .refl _
  · refine bind (h _) fun _ => ?_
    refine bind (.refl _) fun _ => ?_
    refine bind (onlyIf (h _)) fun _ => ?_
    refine bind (forEach (fun _ => h _) _) fun _ => ?_
    refine bind (forEach (fun _ => h _) _) fun _ => ?_
    exact bind (.refl _) fun _ => forEach (fun _ => h _) _

theorem apply_extends (u : BuildUnit n) (entry : String) :
    Extends (g.apply call u entry) (g.apply call' u entry) := by
  unfold apply
  split
  · exact enableAll_extends h u _ _
  · refine bind (.refl _) fun units => ?_
    split
    · exact .refl _
    · exact bind (.refl _) fun _ => enableAll_extends h u _ _
  · exact h _

theorem activate_extends (u : BuildUnit n) (f : String) :
    Extends (g.activate call u f) (g.activate call' u f) := by
  unfold activate
  refine bind (h _) fun _ => ?_
  refine bind (.refl _) fun state => ?_
  split
  · exact .refl _
  · refine bind (.refl _) fun _ => ?_
    split
    · exact forEach (fun entry => apply_extends h u entry) _
    · split
      · exact enableAll_extends h u _ _
      · exact .refl _

end

theorem body_monotone : MonotoneBody g.body := by
  intro call call' h c
  cases c with
  | ensure u => exact ensure_extends h u
  | enableLine u p extra => exact enableLine_extends h u p extra
  | activate u f => exact activate_extends h u f

theorem build_extends {k l : ℕ} (hkl : k ≤ l) : Extends (g.build asked k) (g.build asked l) := by
  have hrun : ∀ c, Extends (run g.body k c) (run g.body l c) := run_extends body_monotone hkl
  unfold build
  refine bind (hrun _) fun _ => ?_
  refine bind (onlyIf (hrun _)) fun _ => ?_
  exact forEach (fun _ => mapError (hrun _)) _

variable (g asked) in
/-- Some depth is enough. -/
theorem build_ends : ∃ depth, Meets False (g.build asked depth) (fun _ => none)
    (fun _ _ => True) (fun _ => True) := by
  have hempty : g.Named asked (fun _ => none : Units n) :=
    fun u x sub hw => absurd hw (empty_waits u x sub)
  have hends := run_ends_below g asked
    (3 * g.toCome asked (fun _ => none) + 3)
  have hfewer : ∀ {t : Units n}, g.toCome asked t ≤ g.toCome asked (fun _ => none) :=
    fun {t} => toCome_le g asked fun φ hφ => absurd hφ (empty_facts φ)
  refine ⟨3 * g.toCome asked (fun _ => none) + 3, ?_⟩
  unfold build
  rw [meets_bind]
  refine (hends (.ensure g.root) _ hempty (by simp only [need]; omega)).post fun _ s1 h1 => ?_
  rw [meets_bind]
  have hle1 := hfewer (t := s1)
  refine Meets.post (Q := fun _ t => g.Named asked t)
    (meets_onlyIf (fun _ => ?_) fun _ => h1.2.1) fun _ s2 h2 => ?_
  · exact (hends (.activate g.root "default") s1 ⟨h1.2.1, default_mem_names⟩
      (by simp only [need]; omega)).post fun _ t ht => ht.2.1
  · refine (ends_loop h2 fun f hf t _ htn => meets_mapError ?_).post fun _ _ _ => trivial
    have hle := hfewer (t := t)
    exact (hends (.activate g.root f) t ⟨htn, wanted_mem_names hf⟩
      (by simp only [need]; omega)).post fun _ r hr => ⟨hr.1, hr.2.1⟩

/-- **Resolution terminates.** -/
theorem exists_builds (g : Graph n) (asked : Features) : ∃ result, g.Builds asked result := by
  obtain ⟨enough, hends⟩ := build_ends g asked
  unfold Meets at hends
  cases hbuild : g.build asked enough (fun _ => none) with
  | none =>
    rw [hbuild] at hends
    exact hends.elim
  | some r =>
    refine ⟨r.map Prod.snd, enough, fun depth hdepth => ?_⟩
    rcases build_extends hdepth (fun _ => none) with hnone | hsame
    · rw [hbuild] at hnone
      cases hnone
    · rw [← hsame, hbuild]
      cases r with
      | _ => rfl

end Depth

end Graph

end Stado.Kompilator
