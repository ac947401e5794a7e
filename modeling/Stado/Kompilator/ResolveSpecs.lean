import Stado.Kompilator.Activation

/-!
# What the three procedures do

One triple for each procedure, under the triple of the calls it makes. A call
adds active facts only; every fact it adds has its consequences among the facts
it leaves; a weak feature waits only while its dependency is not enabled. The
facts of the callers further up are theirs to complete.
-/

namespace Stado.Kompilator

open Procedures Command Option Units Function

variable {n : ℕ} {g : Graph n} {asked : Features}

/-! ## Reading and writing one unit -/

section Access

variable {N : Prop} {s t : Units n} {u v : BuildUnit n} {state : UnitState n}
  {X : String → Prop} {x sub : String} {Q : PUnit → Units n → Prop} {φ : Fact n} {x : String}
  {f : String} {e : Edge n}

theorem meets_stateOf {Q : UnitState n → Units n → Prop} (h : s u = some state)
    (hQ : Q state s) : Meets N (stateOf u) s Q X := by
  unfold stateOf
  rw [meets_bind, meets_get, h]
  exact hQ

theorem meets_setState
    (hQ : Q ⟨⟩ (update s u (some state))) : Meets N (setState u state) s Q X := by
  unfold setState
  rw [meets_bind, meets_get]
  exact hQ

/-- A weak feature of `x` waits in `u`. -/
def Units.Waits (t : Units n) (u : BuildUnit n) (x sub : String) : Prop :=
  ∃ state, t u = some state ∧ (x, sub) ∈ state.weak

/-- Some line called `x` is enabled in `u`. -/
def Units.Enabled (t : Units n) (u : BuildUnit n) (x : String) : Prop :=
  ∃ e, .edge u e ∈ t.facts ∧ e.aliasName = x

theorem Units.unit_mem : .unit u ∈ t.facts ↔ ∃ state, t u = some state :=
  isSome_iff_exists

theorem Units.enabled_iff : Graph.enabled t u x = true ↔ t.Enabled u x := by
  unfold Graph.enabled Enabled
  rw [Option.any_eq_true]
  constructor
  · rintro ⟨state, hstate, hany⟩
    rw [List.any_eq_true] at hany
    obtain ⟨e, he, hx⟩ := hany
    exact ⟨e, ⟨state, hstate, he⟩, by simpa using hx⟩
  · rintro ⟨e, ⟨state, hstate, he⟩, hx⟩
    exact ⟨state, hstate, List.any_eq_true.mpr ⟨e, he, by simpa using hx⟩⟩

theorem unit_mem_update : .unit v ∈ facts (update s u (some state)) ↔
    v = u ∨ .unit v ∈ s.facts := by
  show ((update s u (some state)) v).isSome ↔ v = u ∨ (s v).isSome
  by_cases hv : v = u
  · subst hv
    simp
  · simp [hv]

theorem edge_mem_update :
    .edge v e ∈ facts (update s u (some state)) ↔
      (v = u ∧ e ∈ state.edges) ∨ (v ≠ u ∧ .edge v e ∈ s.facts) := by
  show (∃ st, (update s u (some state)) v = some st ∧ e ∈ st.edges) ↔
    _ ∨ (_ ∧ ∃ st, s v = some st ∧ e ∈ st.edges)
  by_cases hv : v = u
  · subst hv
    simp
  · simp [hv]

theorem feature_mem_update :
    .feature v f ∈ facts (update s u (some state)) ↔
      (v = u ∧ f ∈ state.features) ∨ (v ≠ u ∧ .feature v f ∈ s.facts) := by
  show (∃ st, (update s u (some state)) v = some st ∧ f ∈ st.features) ↔
    _ ∨ (_ ∧ ∃ st, s v = some st ∧ f ∈ st.features)
  by_cases hv : v = u
  · subst hv
    simp
  · simp [hv]

theorem waits_update :
    Waits (update s u (some state)) v x sub ↔
      (v = u ∧ (x, sub) ∈ state.weak) ∨ (v ≠ u ∧ s.Waits v x sub) := by
  unfold Waits
  by_cases hv : v = u
  · subst hv
    simp
  · simp [hv]

/-- `t` has one fact more than `s`, and the same features wait. -/
structure Units.Adds (s t : Units n) (φ : Fact n) : Prop where
  facts : ∀ ψ, ψ ∈ t.facts ↔ ψ = φ ∨ ψ ∈ s.facts
  waits : ∀ u x sub, t.Waits u x sub ↔ s.Waits u x sub

theorem Units.Adds.subset (h : Adds s t φ) : s.facts ⊆ t.facts :=
  fun ψ hψ => (h.facts ψ).mpr (.inr hψ)

theorem Units.Adds.enabled (h : Adds s t φ)
    (hedge : ∀ u e, φ ≠ .edge u e) (he : t.Enabled v x) : s.Enabled v x := by
  obtain ⟨e, he, hx⟩ := he
  rcases (h.facts _).mp he with rfl | he
  · exact absurd rfl (hedge v e)
  · exact ⟨e, he, hx⟩

theorem adds_unit (h : s u = none) : Adds s (update s u (some .empty)) (.unit u) := by
  have hne : ∀ {v state}, s v = some state → v ≠ u := by
    rintro v state hv rfl
    rw [h] at hv
    cases hv
  constructor
  · intro ψ
    cases ψ with
    | unit v =>
      rw [unit_mem_update]
      simp
    | edge v e =>
      rw [edge_mem_update]
      constructor
      · rintro (⟨-, he⟩ | ⟨-, he⟩)
        · simp [UnitState.empty] at he
        · exact .inr he
      · rintro (he | he)
        · cases he
        · obtain ⟨state, hv, -⟩ := id he
          exact .inr ⟨hne hv, he⟩
    | feature v f =>
      rw [feature_mem_update]
      constructor
      · rintro (⟨-, hf⟩ | ⟨-, hf⟩)
        · simp [UnitState.empty] at hf
        · exact .inr hf
      · rintro (hf | hf)
        · cases hf
        · obtain ⟨state, hv, -⟩ := id hf
          exact .inr ⟨hne hv, hf⟩
  · intro v x sub
    rw [waits_update]
    constructor
    · rintro (⟨-, hw⟩ | ⟨-, hw⟩)
      · simp [UnitState.empty] at hw
      · exact hw
    · rintro hw
      obtain ⟨state, hv, -⟩ := id hw
      exact .inr ⟨hne hv, hw⟩

theorem mem_of_state (h : s u = some state) :
    (∀ e, .edge u e ∈ s.facts ↔ e ∈ state.edges) ∧
      (∀ f, .feature u f ∈ s.facts ↔ f ∈ state.features) ∧
      ∀ x sub, s.Waits u x sub ↔ (x, sub) ∈ state.weak := by
  refine ⟨fun e => ?_, fun f => ?_, fun x sub => ?_⟩
  · show (∃ st, s u = some st ∧ e ∈ st.edges) ↔ _
    simp [h]
  · show (∃ st, s u = some st ∧ f ∈ st.features) ↔ _
    simp [h]
  · unfold Waits
    simp [h]

theorem adds_feature (h : s u = some state) (f : String) :
    Adds s (update s u (some { state with features := state.features.insert f }))
      (.feature u f) := by
  obtain ⟨hedges, hfeatures, hweak⟩ := mem_of_state h
  constructor
  · intro ψ
    cases ψ with
    | unit v =>
      rw [unit_mem_update]
      constructor
      · rintro (rfl | hv)
        · exact .inr (unit_mem.mpr ⟨state, h⟩)
        · exact .inr hv
      · rintro (hv | hv)
        · cases hv
        · exact .inr hv
    | edge v e =>
      rw [edge_mem_update]
      by_cases hv : v = u
      · subst hv
        simp [hedges]
      · simp [hv]
    | feature v f' =>
      rw [feature_mem_update]
      by_cases hv : v = u
      · subst hv
        simp [hfeatures]
      · simp [hv]
  · intro v x sub
    rw [waits_update]
    by_cases hv : v = u
    · subst hv
      simp [hweak]
    · simp [hv]

theorem adds_edge (h : s u = some state) (e : Edge n) :
    Adds s (update s u (some { state with edges := state.edges ++ [e] }))
      (.edge u e) := by
  obtain ⟨hedges, hfeatures, hweak⟩ := mem_of_state h
  constructor
  · intro ψ
    cases ψ with
    | unit v =>
      rw [unit_mem_update]
      constructor
      · rintro (rfl | hv)
        · exact .inr (unit_mem.mpr ⟨state, h⟩)
        · exact .inr hv
      · rintro (hv | hv)
        · cases hv
        · exact .inr hv
    | edge v e' =>
      rw [edge_mem_update]
      by_cases hv : v = u
      · subst hv
        simp [hedges, or_comm]
      · simp [hv]
    | feature v f =>
      rw [feature_mem_update]
      by_cases hv : v = u
      · subst hv
        simp [hfeatures]
      · simp [hv]
  · intro v x sub
    rw [waits_update]
    by_cases hv : v = u
    · subst hv
      simp [hweak]
    · simp [hv]

theorem facts_of_weak (h : s u = some state) (weak : List (String × String)) :
    (∀ ψ, ψ ∈ facts (update s u (some { state with weak := weak })) ↔ ψ ∈ s.facts) ∧
      ∀ v x sub, Waits (update s u (some { state with weak := weak })) v x sub ↔
        (v = u ∧ (x, sub) ∈ weak) ∨ (v ≠ u ∧ s.Waits v x sub) := by
  obtain ⟨hedges, hfeatures, hweak⟩ := mem_of_state h
  refine ⟨fun ψ => ?_, fun v x sub => waits_update⟩
  cases ψ with
  | unit v =>
    rw [unit_mem_update]
    constructor
    · rintro (rfl | hv)
      · exact unit_mem.mpr ⟨state, h⟩
      · exact hv
    · exact .inr
  | edge v e =>
    rw [edge_mem_update]
    by_cases hv : v = u
    · subst hv
      simp [hedges]
    · simp [hv]
  | feature v f =>
    rw [feature_mem_update]
    by_cases hv : v = u
    · subst hv
      simp [hfeatures]
    · simp [hv]

theorem meets_addEdge (h : .unit u ∈ s.facts)
    (hQ : ∀ t, Adds s t (.edge u e) → Q ⟨⟩ t) : Meets N (addEdge u e) s Q X := by
  obtain ⟨state, hstate⟩ := unit_mem.mp h
  unfold addEdge
  rw [meets_bind]
  apply meets_stateOf hstate
  split
  · next hthere =>
    refine hQ s ⟨fun ψ => ?_, fun _ _ _ => Iff.rfl⟩
    constructor
    · exact .inr
    · rintro (rfl | hψ)
      · exact ((mem_of_state hstate).1 e).mpr hthere
      · exact hψ
  · exact meets_setState (hQ _ (adds_edge hstate e))

theorem meets_addFeature (h : .unit u ∈ s.facts)
    (hQ : ∀ t, Adds s t (.feature u f) → Q ⟨⟩ t) : Meets N (addFeature u f) s Q X := by
  obtain ⟨state, hstate⟩ := unit_mem.mp h
  unfold addFeature
  rw [meets_bind]
  apply meets_stateOf hstate
  exact meets_setState (hQ _ (adds_feature hstate f))

theorem meets_addWeak (h : .unit u ∈ s.facts) (hQ : ∀ t, (∀ ψ, ψ ∈ t.facts ↔ ψ ∈ s.facts) →
      (∀ v y sub', t.Waits v y sub' ↔ s.Waits v y sub' ∨ (v = u ∧ y = x ∧ sub' = sub)) →
      Q ⟨⟩ t) : Meets N (addWeak u x sub) s Q X := by
  obtain ⟨state, hstate⟩ := unit_mem.mp h
  unfold addWeak
  rw [meets_bind]
  apply meets_stateOf hstate
  obtain ⟨hfacts, hwaits⟩ := facts_of_weak hstate (state.weak ++ [(x, sub)])
  refine meets_setState (hQ _ hfacts fun v y sub' => ?_)
  rw [hwaits]
  by_cases hv : v = u
  · subst hv
    simp [(mem_of_state hstate).2.2]
  · simp [hv]

theorem meets_takeWaiting {Q : List String → Units n → Prop} (h : .unit u ∈ s.facts)
    (hQ : ∀ waiting t, (∀ ψ, ψ ∈ t.facts ↔ ψ ∈ s.facts) →
      (∀ v y sub, t.Waits v y sub ↔ s.Waits v y sub ∧ ¬(v = u ∧ y = x)) →
      (∀ sub, sub ∈ waiting ↔ s.Waits u x sub) → Q waiting t) :
    Meets N (takeWaiting u x) s Q X := by
  obtain ⟨state, hstate⟩ := unit_mem.mp h
  unfold takeWaiting
  rw [meets_bind]
  apply meets_stateOf hstate
  simp only [List.partition_eq_filter_filter]
  rw [meets_bind]
  apply meets_setState
  obtain ⟨hfacts, hwaits⟩ := facts_of_weak hstate
    (state.weak.filter (not ∘ fun waiting => waiting.1 == x))
  refine hQ _ _ hfacts (fun v y sub => ?_) fun sub => ?_
  · rw [hwaits]
    by_cases hv : v = u
    · subst hv
      simp [(mem_of_state hstate).2.2]
    · simp [hv]
  · rw [(mem_of_state hstate).2.2]
    simp

end Access

theorem Graph.mem_lines {u : BuildUnit n} {p : Fin (g.nodes u.node).dependencies.length} :
    p ∈ g.lines u x ↔ ((g.nodes u.node).dependencies.get p).aliasName = x ∧
      (((g.nodes u.node).dependencies.get p).kind = .normal ∨
        (g.manifest u).buildScript.isSome) := by
  unfold Graph.lines
  simp [List.mem_filter]

/-! ## Facts and their consequences -/

namespace Graph

section Consequences

variable (g) (S : Set (Fact n)) (t : Units n) (u : BuildUnit n)

def Brought (d : Dependency) (node : Fin n) : Prop := ∀ φ, g.Brings u d node φ → φ ∈ S

/-- What the lines called `x` bring is there. -/
def AllBrought (x : String) : Prop :=
  ∀ d node, g.Line u d node → d.aliasName = x → g.Brought S u d node

/-- Every unit that `x` names has the feature. -/
def Passed (x sub : String) : Prop :=
  ∀ d node, g.Line u d node → d.aliasName = x → .feature (g.reached u d node) sub ∈ S

def EntryDone (entry : String) : Prop :=
  match Entry.of entry with
  | .dep x => g.AllBrought t.facts u x
  | .sub x sub false => g.AllBrought t.facts u x ∧ g.Passed t.facts u x sub ∧
      ((g.manifest u).implicit x = true → .feature u x ∈ t.facts)
  | .sub x sub true => t.Waits u x sub ∨ g.Passed t.facts u x sub
  | .feature => .feature u entry ∈ t.facts

/-- The consequences of a fact are there, or wait. -/
def Settled : Fact n → Prop
  | .unit u => ∀ d node, g.Line u d node → d.optional = false → g.Brought t.facts u d node
  | .edge _ _ => True
  | .feature u f => (∀ entry, g.Enables u f entry → g.EntryDone t u entry) ∧
      ((g.manifest u).enables f = none → (g.manifest u).implicit f = true →
        g.AllBrought t.facts u f)

end Consequences

structure Grows (g : Graph n) (s t : Units n) : Prop where
  facts : s.facts ⊆ t.facts
  waits : ∀ u x sub, s.Waits u x sub → t.Waits u x sub ∨ g.Passed t.facts u x sub

/-- Only active facts, each edge a line enabled with the lines of its name, each
waiting feature of an active entry. -/
structure Sound (g : Graph n) (asked : Features) (t : Units n) : Prop where
  facts : t.facts ⊆ g.active asked
  edges : ∀ u e, .edge u e ∈ t.facts → ∃ d node, g.Line u d node ∧ e = g.edgeOf u d node ∧
    (d.optional = true → g.AllBrought (g.active asked) u d.aliasName)
  weak : ∀ u x sub, t.Waits u x sub → ∃ f entry, .feature u f ∈ g.active asked ∧
    g.Enables u f entry ∧ Entry.of entry = .sub x sub true
  known : ∀ u f, .feature u f ∈ t.facts → g.Known u f

/-- What a call that began in `s` leaves. -/
structure After (g : Graph n) (asked : Features) (s t : Units n) : Prop where
  grows : g.Grows s t
  idle : ∀ u x sub, t.Waits u x sub → t.Enabled u x → s.Waits u x sub ∧ s.Enabled u x
  sound : g.Sound asked t
  fresh : ∀ φ ∈ t.facts, φ ∉ s.facts → g.Settled t φ

variable {r s t : Units n} {u : BuildUnit n} {S T : Set (Fact n)} {node : Fin n} {d : Dependency}

theorem Brought.mono (h : g.Brought S u d node) (hST : S ⊆ T) : g.Brought T u d node :=
  fun φ hφ => hST (h φ hφ)

theorem AllBrought.mono (h : g.AllBrought S u x) (hST : S ⊆ T) : g.AllBrought T u x :=
  fun d node hl hx => (h d node hl hx).mono hST

theorem Passed.mono (h : g.Passed S u x sub) (hST : S ⊆ T) : g.Passed T u x sub :=
  fun d node hl hx => hST (h d node hl hx)

theorem Grows.refl (s : Units n) : g.Grows s s := ⟨fun _ h => h, fun _ _ _ h => .inl h⟩

theorem Grows.trans (h : g.Grows r s) (h' : g.Grows s t) : g.Grows r t := by
  refine ⟨fun φ hφ => h'.facts (h.facts hφ), fun u x sub hw => ?_⟩
  rcases h.waits u x sub hw with hw | hp
  · exact h'.waits u x sub hw
  · exact .inr (hp.mono h'.facts)

theorem EntryDone.mono {entry : String} (h : g.EntryDone s u entry) (hg : g.Grows s t) :
    g.EntryDone t u entry := by
  unfold EntryDone at h ⊢
  split
  · next heq =>
    rw [heq] at h
    exact AllBrought.mono h hg.facts
  · next heq =>
    rw [heq] at h
    obtain ⟨hb, hp, hi⟩ := h
    exact ⟨hb.mono hg.facts, hp.mono hg.facts, fun hx => hg.facts (hi hx)⟩
  · next heq =>
    rw [heq] at h
    rcases h with hw | hp
    · exact hg.waits _ _ _ hw
    · exact .inr (Passed.mono hp hg.facts)
  · next heq =>
    rw [heq] at h
    exact hg.facts h

theorem Settled.mono (h : g.Settled s φ) (hg : g.Grows s t) : g.Settled t φ := by
  cases φ with
  | unit u => exact fun d node hl ho => (h d node hl ho).mono hg.facts
  | edge u e => trivial
  | feature u f =>
    obtain ⟨he, hi⟩ := h
    exact ⟨fun entry hentry => (he entry hentry).mono hg, fun hn hx => (hi hn hx).mono hg.facts⟩

theorem After.refl (h : g.Sound asked s) : g.After asked s s :=
  ⟨.refl s, fun _ _ _ hw he => ⟨hw, he⟩, h, fun _ hφ hn => absurd hφ hn⟩

theorem After.trans (h : g.After asked r s) (h' : g.After asked s t) : g.After asked r t := by
  refine ⟨h.grows.trans h'.grows, fun u x sub hw he => ?_, h'.sound, fun φ hφ hn => ?_⟩
  · obtain ⟨hw', he'⟩ := h'.idle u x sub hw he
    exact h.idle u x sub hw' he'
  · by_cases hs : φ ∈ s.facts
    · exact (h.fresh φ hs hn).mono h'.grows
    · exact h'.fresh φ hφ hs

/-- A fact that is no edge is put there, and its consequences follow later. -/
theorem After.add (hadd : Adds s t φ) (hedge : ∀ u e, φ ≠ .edge u e)
    (h : g.After asked t r) (hφ : g.Settled r φ) : g.After asked s r := by
  refine ⟨Grows.trans ⟨hadd.subset, fun u x sub hw => .inl ((hadd.waits u x sub).mpr hw)⟩ h.grows,
    fun u x sub hw he => ?_, h.sound, fun ψ hψ hn => ?_⟩
  · obtain ⟨hw', he'⟩ := h.idle u x sub hw he
    exact ⟨(hadd.waits u x sub).mp hw', hadd.enabled hedge he'⟩
  · by_cases ht : ψ ∈ t.facts
    · rcases (hadd.facts ψ).mp ht with rfl | hs
      · exact hφ
      · exact absurd hs hn
    · exact h.fresh ψ hψ ht

theorem Sound.add (hs : g.Sound asked s) (hadd : Adds s t φ)
    (hedge : ∀ u e, φ ≠ .edge u e) (hφ : φ ∈ g.active asked)
    (hknown : ∀ u f, φ = .feature u f → g.Known u f) : g.Sound asked t := by
  constructor
  · intro ψ hψ
    rcases (hadd.facts ψ).mp hψ with rfl | hψ
    · exact hφ
    · exact hs.facts hψ
  · intro u e he
    rcases (hadd.facts _).mp he with he | he
    · exact absurd he.symm (hedge u e)
    · exact hs.edges u e he
  · intro u x sub hw
    exact hs.weak u x sub ((hadd.waits u x sub).mp hw)
  · intro u f hf
    rcases (hadd.facts _).mp hf with hf | hf
    · exact hknown u f hf.symm
    · exact hs.known u f hf

/-- A loop of calls, each with its own result. -/
theorem meets_loop {α : Type} {xs : List α} {c : α → Resolving n PUnit} {D : α → Units n → Prop}
    {X : String → Prop} (hs : g.Sound asked s) (kept : ∀ x t r, g.Grows t r → D x t → D x r)
    (round : ∀ x ∈ xs, ∀ t, g.After asked s t →
      Meets True (c x) t (fun _ r => g.After asked t r ∧ D x r) X) :
    Meets True (forEach xs c) s (fun _ r => g.After asked s r ∧ ∀ x ∈ xs, D x r) X := by
  refine (meets_forEach xs (After.refl hs) ?_).post fun _ r hr => ⟨hr.1, hr.2.1⟩
  intro x hx t ht
  refine (round x hx t ht).post fun _ r hr => ?_
  obtain ⟨hafter, hD⟩ := hr
  exact ⟨ht.trans hafter, hD, fun y hy => kept y t r hafter.grows hy⟩

/-! ## The triples -/

/-- What a caller owes: it asks for active facts only, and enables an optional
line with the lines of its name. -/
def Due (g : Graph n) (asked : Features) : g.Call → Units n → Prop
  | .ensure u, _ => .unit u ∈ g.active asked
  | .enableLine u p extra, s => .unit u ∈ s.facts ∧ ∀ node, g.targets u.node p = some node →
      let d := (g.nodes u.node).dependencies.get p
      g.Line u d node ∧ g.Brought (g.active asked) u d node ∧
        (d.optional = true → g.AllBrought (g.active asked) u d.aliasName) ∧
        ∀ f, extra = some f → .feature (g.reached u d node) f ∈ g.active asked
  | .activate u f, _ => .unit u ∈ g.active asked ∧ .feature u f ∈ g.active asked

/-- What a call has done when it returns. -/
def Did (g : Graph n) : g.Call → Units n → Prop
  | .ensure u, t => .unit u ∈ t.facts
  | .enableLine u p extra, t => ∀ node, g.targets u.node p = some node →
      let d := (g.nodes u.node).dependencies.get p
      g.Brought t.facts u d node ∧ ∀ f, extra = some f → .feature (g.reached u d node) f ∈ t.facts
  | .activate u f, t => .feature u f ∈ t.facts

theorem Did.mono {c : g.Call} (h : g.Did c s) (hg : g.Grows s t) : g.Did c t := by
  cases c with
  | ensure u => exact hg.facts h
  | enableLine u p extra =>
    intro node hnode
    obtain ⟨hb, he⟩ := h node hnode
    exact ⟨hb.mono hg.facts, fun f hf => hg.facts (he f hf)⟩
  | activate u f => exact hg.facts h

/-- The triple of a procedure. -/
def Right (g : Graph n) (asked : Features) (call : g.Call → Resolving n PUnit) : Prop :=
  ∀ c s, g.Sound asked s ∧ g.Due asked c s →
    Meets True (call c) s (fun _ t => g.After asked s t ∧ g.Did c t)
      (fun _ => ¬g.AllKnown asked)

section Triples

variable {call : g.Call → Resolving n PUnit}

/-- A line every build of `u` enables. -/
def Required (g : Graph n) (u : BuildUnit n) (p : Fin (g.nodes u.node).dependencies.length) :
    Prop :=
  ((g.nodes u.node).dependencies.get p).optional = false ∧
    (((g.nodes u.node).dependencies.get p).kind = .normal ∨ (g.manifest u).buildScript.isSome)

theorem line_of_kept {p : Fin (g.nodes u.node).dependencies.length}
    (htarget : g.targets u.node p = some node)
    (hkept : ¬(((g.nodes u.node).dependencies.get p).kind = .build ∧
      (g.manifest u).buildScript = none)) :
    g.Line u ((g.nodes u.node).dependencies.get p) node := by
  refine ⟨⟨p, rfl, htarget⟩, ?_⟩
  cases hk : ((g.nodes u.node).dependencies.get p).kind with
  | normal => exact .inl rfl
  | build =>
    right
    rw [isSome_iff_ne_none]
    exact fun hnone => hkept ⟨hk, hnone⟩

theorem ensure_right (hcall : g.Right asked call) (hs : g.Sound asked s)
    (hdue : .unit u ∈ g.active asked) :
    Meets True (g.ensure call u) s (fun _ t => g.After asked s t ∧ .unit u ∈ t.facts)
      (fun _ => ¬g.AllKnown asked) := by
  unfold ensure
  rw [meets_bind, meets_get]
  split
  · next hthere => exact ⟨.refl hs, hthere⟩
  · next hnew =>
    rw [meets_bind]
    apply meets_setState
    have hnone : s u = none := by simpa using hnew
    have hadd := adds_unit hnone
    have hsound : g.Sound asked (update s u (some .empty)) :=
      hs.add hadd (by rintro _ _ ⟨⟩) hdue (by rintro _ _ ⟨⟩)
    have hthere : .unit u ∈ facts (update s u (some .empty)) := (hadd.facts _).mpr (.inl rfl)
    -- every required line of a kind the build has
    refine (meets_loop (D := fun p t => g.Required u p → g.Did (.enableLine u p none) t)
      hsound ?_ ?_).post ?_
    · intro p t r hg hD hreq
      exact (hD hreq).mono hg
    · intro p _ t ht
      have hst : g.Sound asked t := ht.sound
      dsimp only
      split
      · next ho =>
        refine ⟨.refl hst, fun hreq => ?_⟩
        rw [hreq.1] at ho
        cases ho
      split
      · next hk =>
        refine ⟨.refl hst, fun hreq => ?_⟩
        rcases hreq.2 with hnormal | hscript
        · rw [hk.1] at hnormal
          cases hnormal
        · rw [hk.2] at hscript
          cases hscript
      · next ho hk =>
        refine (hcall (.enableLine u p none) t ⟨hst, ht.grows.facts hthere, ?_⟩).post
          fun _ r hr => ⟨hr.1, fun _ => hr.2⟩
        intro node htarget
        have hline := line_of_kept htarget hk
        refine ⟨hline, ?_, fun h => absurd h ho, fun f hf => by cases hf⟩
        exact fun φ hφ => g.active_of_follows asked
          (.required hdue hline (by simpa using ho) hφ)
    · rintro - r ⟨hafter, hall⟩
      refine ⟨hafter.add hadd (by rintro _ _ ⟨⟩) ?_, hafter.grows.facts hthere⟩
      intro d node hline ho
      obtain ⟨⟨p, hp, htarget⟩, hkept⟩ := hline
      subst hp
      exact (hall p (List.mem_finRange p) ⟨ho, hkept⟩ node htarget).1

theorem Sound.oneTarget (hplain : g.Plain asked) (hs : g.Sound asked s)
    (hw : s.Waits u x sub) (he : .edge u e ∈ s.facts) (hx : e.aliasName = x) : g.OneTarget u x := by
  obtain ⟨f, entry, hf, hentry, hsub⟩ := hs.weak u x sub hw
  exact hplain.weak u f entry x sub e hf hentry hsub (hs.facts he) hx

/-- An enabled line, between the calls it makes: its edge is put there, the
features it asks for are activated, and what waited for its name is taken and
activated on the unit it reaches. -/
theorem After.line (hplain : g.Plain asked) {s1 s2 s3 s4 s5 : Units n} (hline : g.Line u d node)
    (h1 : g.After asked s s1) (hadd : Adds s1 s2 (.edge u (g.edgeOf u d node)))
    (h3 : g.After asked s2 s3) (hfacts : ∀ ψ, ψ ∈ s4.facts ↔ ψ ∈ s3.facts)
    (hwaits : ∀ v y sub, s4.Waits v y sub ↔ s3.Waits v y sub ∧ ¬(v = u ∧ y = d.aliasName))
    (h5 : g.After asked s4 s5)
    (hpassed : ∀ sub, s3.Waits u d.aliasName sub → .feature (g.reached u d node) sub ∈ s5.facts) :
    g.After asked s s5 := by
  have hedge : .edge u (g.edgeOf u d node) ∈ s3.facts :=
    h3.grows.facts ((hadd.facts _).mpr (.inl rfl))
  have hgrow12 : g.Grows s1 s2 := ⟨hadd.subset, fun v y sub hw => .inl ((hadd.waits v y sub).mpr hw)⟩
  -- what waited for the line is passed to the one unit its name reaches
  have hgrow35 : g.Grows s3 s5 := by
    refine ⟨fun ψ hψ => h5.grows.facts ((hfacts ψ).mpr hψ), fun v y sub hw => ?_⟩
    by_cases hvy : v = u ∧ y = d.aliasName
    · obtain ⟨rfl, rfl⟩ := hvy
      right
      intro d' node' hline' hx
      have hone := h3.sound.oneTarget hplain hw hedge rfl
      have hsame := (hone d node d' node' hline rfl hline' hx).1
      rw [← hsame]
      exact hpassed sub hw
    · exact h5.grows.waits v y sub ((hwaits v y sub).mpr ⟨hw, hvy⟩)
  have hgrow25 : g.Grows s2 s5 := h3.grows.trans hgrow35
  have hgrow15 : g.Grows s1 s5 := hgrow12.trans hgrow25
  refine ⟨h1.grows.trans hgrow15, fun v y sub hw he => ?_, h5.sound, fun φ hφ hn => ?_⟩
  · obtain ⟨hw4, e, he4, hx⟩ := h5.idle v y sub hw he
    obtain ⟨hw3, hvy⟩ := (hwaits v y sub).mp hw4
    obtain ⟨hw2, e2, he2, hx2⟩ := h3.idle v y sub hw3 ⟨e, (hfacts _).mp he4, hx⟩
    have hw1 := (hadd.waits v y sub).mp hw2
    -- the new edge is called otherwise
    rcases (hadd.facts _).mp he2 with heq | he1
    · cases heq
      exact absurd ⟨rfl, hx2.symm⟩ hvy
    · exact h1.idle v y sub hw1 ⟨e2, he1, hx2⟩
  · by_cases hφ4 : φ ∈ s4.facts
    · have hφ3 := (hfacts φ).mp hφ4
      by_cases hφ2 : φ ∈ s2.facts
      · rcases (hadd.facts φ).mp hφ2 with rfl | hφ1
        · trivial
        · exact (h1.fresh φ hφ1 hn).mono hgrow15
      · exact (h3.fresh φ hφ3 hφ2).mono hgrow35
    · exact h5.fresh φ hφ hφ4

theorem Sound.addEdge (hs : g.Sound asked s) (hadd : Adds s t (.edge u (g.edgeOf u d node)))
    (hline : g.Line u d node) (hbrought : g.Brought (g.active asked) u d node)
    (htogether : d.optional = true → g.AllBrought (g.active asked) u d.aliasName) :
    g.Sound asked t := by
  constructor
  · intro ψ hψ
    rcases (hadd.facts ψ).mp hψ with rfl | hψ
    · exact hbrought _ .edge
    · exact hs.facts hψ
  · intro v e he
    rcases (hadd.facts _).mp he with heq | he
    · cases heq
      exact ⟨d, node, hline, rfl, htogether⟩
    · exact hs.edges v e he
  · intro v x sub hw
    exact hs.weak v x sub ((hadd.waits v x sub).mp hw)
  · intro v f hf
    rcases (hadd.facts _).mp hf with heq | hf
    · cases heq
    · exact hs.known v f hf

theorem Sound.waits (hs : g.Sound asked s) (hfacts : ∀ ψ, ψ ∈ t.facts ↔ ψ ∈ s.facts)
    (hwaits : ∀ u x sub, t.Waits u x sub → s.Waits u x sub ∨ ∃ f entry,
      .feature u f ∈ g.active asked ∧ g.Enables u f entry ∧ Entry.of entry = .sub x sub true) :
    g.Sound asked t := by
  constructor
  · exact fun ψ hψ => hs.facts ((hfacts ψ).mp hψ)
  · exact fun u e he => hs.edges u e ((hfacts _).mp he)
  · intro u x sub hw
    rcases hwaits u x sub hw with hw | hactive
    · exact hs.weak u x sub hw
    · exact hactive
  · exact fun u f hf => hs.known u f ((hfacts _).mp hf)

theorem activateAll_right (hcall : g.Right asked call) (hs : g.Sound asked s)
    (hunit : .unit u ∈ g.active asked) (fs : List String)
    (hdue : ∀ f ∈ fs, .feature u f ∈ g.active asked) :
    Meets True (forEach fs fun f => call (.activate u f)) s
      (fun _ t => g.After asked s t ∧ ∀ f ∈ fs, .feature u f ∈ t.facts)
      (fun _ => ¬g.AllKnown asked) := by
  refine meets_loop (D := fun f t => .feature u f ∈ t.facts) hs ?_ ?_
  · exact fun f t r hg hf => hg.facts hf
  · exact fun f hf t ht => hcall (.activate u f) t ⟨ht.sound, hunit, hdue f hf⟩

theorem activateIf_right (hcall : g.Right asked call) (hs : g.Sound asked s)
    (hunit : .unit u ∈ g.active asked) (f : String) (condition : Prop) [Decidable condition]
    (hdue : condition → .feature u f ∈ g.active asked) :
    Meets True (onlyIf condition (call (.activate u f))) s
      (fun _ t => g.After asked s t ∧ (condition → .feature u f ∈ t.facts))
      (fun _ => ¬g.AllKnown asked) := by
  refine meets_onlyIf (fun h => ?_) fun h => ⟨.refl hs, fun h' => absurd h' h⟩
  exact (hcall (.activate u f) s ⟨hs, hunit, hdue h⟩).post fun _ t ht => ⟨ht.1, fun _ => ht.2⟩

theorem enableLine_right (hplain : g.Plain asked) (hcall : g.Right asked call)
    (hs : g.Sound asked s) {p : Fin (g.nodes u.node).dependencies.length}
    {extra : Option String} (hdue : g.Due asked (.enableLine u p extra) s) :
    Meets True (g.enableLine call u p extra) s
      (fun _ t => g.After asked s t ∧ g.Did (.enableLine u p extra) t)
      (fun _ => ¬g.AllKnown asked) := by
  obtain ⟨hunit, hdue⟩ := hdue
  unfold enableLine
  cases htarget : g.targets u.node p with
  | none =>
    refine ⟨.refl hs, fun node h => ?_⟩
    rw [htarget] at h
    cases h
  | some node =>
    obtain ⟨hline, hbrought, htogether, hextra⟩ := hdue node htarget
    dsimp only
    generalize hd : (g.nodes u.node).dependencies.get p = d at *
    have hreached : .unit (g.reached u d node) ∈ g.active asked := hbrought _ .unit
    rw [meets_bind]
    refine (hcall (.ensure _) s ⟨hs, hreached⟩).post fun _ s1 hs1 => ?_
    obtain ⟨h1, hthere⟩ := hs1
    rw [meets_bind]
    refine meets_addEdge (h1.grows.facts hunit) fun s2 hadd => ?_
    have hs2 : g.Sound asked s2 := h1.sound.addEdge hadd hline hbrought htogether
    -- the features the line asks for
    rw [meets_bind]
    refine (activateIf_right hcall hs2 hreached "default" _
      fun h => hbrought _ (.default h.1 h.2)).post fun _ sa ha => ?_
    obtain ⟨ha, hdefault⟩ := ha
    rw [meets_bind]
    refine (activateAll_right hcall ha.sound hreached d.features
      fun f hf => hbrought _ (.feature hf)).post fun _ sb hb => ?_
    obtain ⟨hb, hfeatures⟩ := hb
    rw [meets_bind]
    refine (activateAll_right hcall hb.sound hreached extra.toList
      fun f hf => hextra f (by simpa using hf)).post fun _ s3 hc => ?_
    obtain ⟨hc, hextras⟩ := hc
    have h3 : g.After asked s2 s3 := ha.trans (hb.trans hc)
    have hedge3 : .edge u (g.edgeOf u d node) ∈ s3.facts :=
      h3.grows.facts ((hadd.facts _).mpr (.inl rfl))
    -- what waited for it
    rw [meets_bind]
    refine meets_takeWaiting (h3.grows.facts (hadd.subset (h1.grows.facts hunit)))
      fun waiting s4 hfacts hwaits htaken => ?_
    have hs4 : g.Sound asked s4 :=
      h3.sound.waits hfacts fun v y sub hw => .inl ((hwaits v y sub).mp hw).1
    refine (activateAll_right hcall hs4 hreached waiting ?_).post fun _ s5 h5 => ?_
    · intro sub hsub
      obtain ⟨f, entry, hf, hentry, hweak⟩ := h3.sound.weak u _ sub ((htaken sub).mp hsub)
      exact g.active_of_follows asked
        (.weak hf hentry hweak (h3.sound.facts hedge3) rfl)
    · obtain ⟨h5, hpassed⟩ := h5
      have hgrow : s3.facts ⊆ s5.facts := fun ψ hψ => h5.grows.facts ((hfacts ψ).mpr hψ)
      refine ⟨.line hplain hline h1 hadd h3 hfacts hwaits h5
        fun sub hw => hpassed sub ((htaken sub).mpr hw), ?_⟩
      intro node' htarget'
      rw [htarget] at htarget'
      cases htarget'
      rw [hd]
      refine ⟨fun φ hφ => hgrow ?_, fun f hf => hgrow (hextras f (by simp [hf]))⟩
      cases hφ with
      | edge => exact hedge3
      | unit => exact h3.grows.facts (hadd.subset hthere)
      | default hasks hdeclared =>
        exact hc.grows.facts (hb.grows.facts (hdefault ⟨hasks, hdeclared⟩))
      | feature hf => exact hc.grows.facts (hfeatures _ hf)

theorem enableAll_right (hcall : g.Right asked call) (hs : g.Sound asked s)
    (hunit : .unit u ∈ s.facts) (x : String) (extra : Option String)
    (hdue : g.AllBrought (g.active asked) u x)
    (hextra : ∀ f, extra = some f → g.Passed (g.active asked) u x f) :
    Meets True (forEach (g.lines u x) fun line => call (.enableLine u line extra)) s
      (fun _ t => g.After asked s t ∧ g.AllBrought t.facts u x ∧
        ∀ f, extra = some f → g.Passed t.facts u x f)
      (fun _ => ¬g.AllKnown asked) := by
  refine (meets_loop (D := fun p t => g.Did (.enableLine u p extra) t) hs ?_ ?_).post ?_
  · exact fun p t r hg hD => hD.mono hg
  · intro p hp t ht
    obtain ⟨hx, hkept⟩ := mem_lines.mp hp
    refine hcall (.enableLine u p extra) t ⟨ht.sound, ht.grows.facts hunit, ?_⟩
    intro node htarget
    have hline : g.Line u ((g.nodes u.node).dependencies.get p) node := ⟨⟨p, rfl, htarget⟩, hkept⟩
    refine ⟨hline, hdue _ _ hline hx, fun _ => ?_, fun f hf => hextra f hf _ _ hline hx⟩
    rw [hx]
    exact hdue
  · rintro - t ⟨hafter, hall⟩
    have hmem : ∀ {p}, ((g.nodes u.node).dependencies.get p).aliasName = x →
        (((g.nodes u.node).dependencies.get p).kind = .normal ∨
          (g.manifest u).buildScript.isSome) → g.Did (.enableLine u p extra) t :=
      fun hx hkept => hall _ (mem_lines.mpr ⟨hx, hkept⟩)
    refine ⟨hafter, ?_, ?_⟩
    · rintro d node ⟨⟨p, rfl, htarget⟩, hkept⟩ hx
      exact (hmem hx hkept node htarget).1
    · rintro f hf d node ⟨⟨p, rfl, htarget⟩, hkept⟩ hx
      exact (hmem hx hkept node htarget).2 f hf

/-- A weak entry of an active dependency asks for what is active: the lines of
its name are enabled together, and one of them is. -/
theorem Sound.weak_due (hplain : g.Plain asked) (hs : g.Sound asked s) {f entry x sub : String}
    (hunit : .unit u ∈ g.active asked) (hf : .feature u f ∈ g.active asked)
    (hentry : g.Enables u f entry) (hweak : Entry.of entry = .sub x sub true)
    (henabled : s.Enabled u x) :
    g.AllBrought (g.active asked) u x ∧ g.Passed (g.active asked) u x sub := by
  obtain ⟨e, he, hx⟩ := henabled
  have hone := hplain.weak u f entry x sub e hf hentry hweak (hs.facts he) hx
  obtain ⟨d, node, hline, rfl, htogether⟩ := hs.edges u e he
  have hd : d.aliasName = x := hx
  constructor
  · intro d' node' hline' hx'
    cases ho : d'.optional with
    | false =>
      exact fun φ hφ => g.active_of_follows asked (.required hunit hline' ho hφ)
    | true =>
      have hdo : d.optional = true := ((hone d node d' node' hline hd hline' hx').2).trans ho
      exact htogether hdo d' node' hline' (hx'.trans hd.symm)
  · intro d' node' hline' hx'
    rw [← (hone d node d' node' hline hd hline' hx').1]
    exact g.active_of_follows asked (.weak hf hentry hweak (hs.facts he) hx)

theorem apply_right (hplain : g.Plain asked) (hcall : g.Right asked call)
    (hs : g.Sound asked s) {f entry : String} (hunit : .unit u ∈ s.facts)
    (hf : .feature u f ∈ g.active asked) (hentry : g.Enables u f entry) :
    Meets True (g.apply call u entry) s
      (fun _ t => g.After asked s t ∧ g.EntryDone t u entry)
      (fun _ => ¬g.AllKnown asked) := by
  have hactive : .unit u ∈ g.active asked := hs.facts hunit
  unfold apply EntryDone
  cases hof : Entry.of entry with
  | dep x =>
    refine (enableAll_right hcall hs hunit x none ?_ (fun _ h => by cases h)).post
      fun _ t ht => ⟨ht.1, ht.2.1⟩
    intro d node hline hx φ hφ
    exact g.active_of_follows asked (.dep hf hentry hof hline hx hφ)
  | feature =>
    exact hcall (.activate u entry) s
      ⟨hs, hactive, g.active_of_follows asked (.named hf hentry hof)⟩
  | sub x sub weak =>
    rw [meets_bind, meets_get]
    cases weak with
    | true =>
      split
      · next hoff =>
        -- it waits: the dependency is not enabled
        have hoff : ¬s.Enabled u x := by
          rw [← enabled_iff, hoff.2]
          exact Bool.false_ne_true
        refine meets_addWeak hunit fun t hfacts hwaits => ⟨⟨?_, ?_, ?_, ?_⟩, ?_⟩
        · exact ⟨fun ψ hψ => (hfacts ψ).mpr hψ,
            fun v y sub' hw => .inl ((hwaits v y sub').mpr (.inl hw))⟩
        · rintro v y sub' hw ⟨e, he, hx⟩
          have hen : s.Enabled v y := ⟨e, (hfacts _).mp he, hx⟩
          rcases (hwaits v y sub').mp hw with hw | ⟨rfl, rfl, rfl⟩
          · exact ⟨hw, hen⟩
          · exact absurd hen hoff
        · refine hs.waits hfacts fun v y sub' hw => ?_
          rcases (hwaits v y sub').mp hw with hw | ⟨rfl, rfl, rfl⟩
          · exact .inl hw
          · exact .inr ⟨f, entry, hf, hentry, hof⟩
        · exact fun φ hφ hn => absurd ((hfacts φ).mp hφ) hn
        · exact .inl ((hwaits u x sub).mpr (.inr ⟨rfl, rfl, rfl⟩))
      · next hon =>
        have hon : s.Enabled u x := by
          rw [← enabled_iff]
          simpa using hon
        obtain ⟨hbrought, hpassed⟩ := hs.weak_due hplain hactive hf hentry hof hon
        rw [meets_bind]
        refine meets_onlyIf (fun h => by simp at h) fun _ => ?_
        refine (enableAll_right hcall hs hunit x (some sub) hbrought ?_).post
          fun _ t ht => ⟨ht.1, .inr (ht.2.2 sub rfl)⟩
        intro sub' h
        cases h
        exact hpassed
    | false =>
      split
      · next h => simp at h
      have hbrought : g.AllBrought (g.active asked) u x := fun d node hline hx φ hφ =>
        g.active_of_follows asked (.strongLine hf hentry hof hline hx hφ)
      have hpassed : ∀ sub', some sub = some sub' → g.Passed (g.active asked) u x sub' := by
        rintro _ ⟨⟩ d node hline hx
        exact g.active_of_follows asked (.strongFeature hf hentry hof hline hx)
      rw [meets_bind]
      refine meets_onlyIf (fun h => ?_) fun h => ?_
      · -- the name of an optional dependency becomes a feature; the table says nothing of it
        have himplicit := h.2
        have hnone := hplain.strong u f entry x sub hf hentry hof himplicit
        have hname : .feature u x ∈ g.active asked :=
          g.active_of_follows asked (.strongName hf hentry hof himplicit)
        refine meets_addFeature hunit fun t hadd => ?_
        have ht : g.Sound asked t := by
          refine hs.add hadd (by rintro _ _ ⟨⟩) hname ?_
          rintro _ _ ⟨⟩
          exact .inr himplicit
        refine (enableAll_right hcall ht (hadd.subset hunit) x (some sub) hbrought
          hpassed).post fun _ r hr => ?_
        obtain ⟨hafter, hb, hp⟩ := hr
        refine ⟨hafter.add hadd (by rintro _ _ ⟨⟩) ⟨?_, fun _ _ => hb⟩, hb, hp sub rfl,
          fun _ => hafter.grows.facts ((hadd.facts _).mpr (.inl rfl))⟩
        rintro entry' ⟨entries, hentries, -⟩
        rw [hnone] at hentries
        cases hentries
      · refine (enableAll_right hcall hs hunit x (some sub) hbrought hpassed).post
          fun _ r hr => ⟨hr.1, hr.2.1, hr.2.2 sub rfl, fun himplicit => ?_⟩
        exact absurd ⟨rfl, himplicit⟩ h

theorem activate_right (hplain : g.Plain asked) (hcall : g.Right asked call) (hs : g.Sound asked s)
    (hunit : .unit u ∈ g.active asked) (hf : .feature u f ∈ g.active asked) :
    Meets True (g.activate call u f) s
      (fun _ t => g.After asked s t ∧ .feature u f ∈ t.facts)
      (fun _ => ¬g.AllKnown asked) := by
  unfold activate
  rw [meets_bind]
  refine (hcall (.ensure u) s ⟨hs, hunit⟩).post fun _ s1 h1 => ?_
  obtain ⟨h1, hthere⟩ := h1
  obtain ⟨state, hstate⟩ := unit_mem.mp hthere
  rw [meets_bind]
  apply meets_stateOf hstate
  split
  · next hmem => exact ⟨h1, ((mem_of_state hstate).2.1 f).mpr hmem⟩
  · rw [meets_bind]
    refine meets_addFeature hthere fun s2 hadd => ?_
    have hmem : .feature u f ∈ s2.facts := (hadd.facts _).mpr (.inl rfl)
    have hs2 : g.Known u f → g.Sound asked s2 := by
      intro hknown
      refine h1.sound.add hadd (by rintro _ _ ⟨⟩) hf ?_
      rintro _ _ ⟨⟩
      exact hknown
    split
    · next entries hentries =>
      have hs2 := hs2 (.inl (by rw [hentries]; exact some_ne_none _))
      refine (meets_loop (D := fun entry t => g.EntryDone t u entry) hs2 ?_ ?_).post ?_
      · exact fun entry t r hg hD => hD.mono hg
      · intro entry hentry t ht
        exact apply_right hplain hcall ht.sound (ht.grows.facts (hadd.subset hthere)) hf
          ⟨entries, hentries, hentry⟩
      · rintro - t ⟨hafter, hall⟩
        refine ⟨h1.trans (hafter.add hadd (by rintro _ _ ⟨⟩) ⟨?_, ?_⟩), hafter.grows.facts hmem⟩
        · rintro entry ⟨entries', hentries', hentry⟩
          rw [hentries] at hentries'
          cases hentries'
          exact hall entry hentry
        · intro hnone
          rw [hentries] at hnone
          cases hnone
    · next hnone =>
      split
      · next himplicit =>
        have hs2 := hs2 (.inr himplicit)
        refine (enableAll_right hcall hs2 (hadd.subset hthere) f none ?_
          (fun _ h => by cases h)).post fun _ t ht => ?_
        · intro d node hline hx φ hφ
          exact g.active_of_follows asked (.implicit hf hnone himplicit hline hx hφ)
        · obtain ⟨hafter, hbrought, -⟩ := ht
          refine ⟨h1.trans (hafter.add hadd (by rintro _ _ ⟨⟩) ⟨?_, fun _ _ => hbrought⟩),
            hafter.grows.facts hmem⟩
          rintro entry ⟨entries, hentries, -⟩
          rw [hnone] at hentries
          cases hentries
      · next hunknown =>
        intro hall
        rcases hall u f hf with h | h
        · exact h hnone
        · exact hunknown h

theorem body_right (hplain : g.Plain asked) (hcall : g.Right asked call) :
    g.Right asked (g.body call) := by
  rintro c s ⟨hs, hdue⟩
  cases c with
  | ensure u => exact ensure_right hcall hs hdue
  | enableLine u p extra => exact enableLine_right hplain hcall hs hdue
  | activate u f => exact activate_right hplain hcall hs hdue.1 hdue.2

theorem run_right (hplain : g.Plain asked) (depth : ℕ) : g.Right asked (run g.body depth) :=
  run_meets (fun _ hcall => body_right hplain hcall) depth

end Triples

theorem closed_of_settled (hsound : g.Sound asked t) (hsettled : ∀ φ ∈ t.facts, g.Settled t φ)
    (hidle : ∀ u x sub, t.Waits u x sub → ¬t.Enabled u x) (hroot : .unit g.root ∈ t.facts)
    (hasked : ∀ f, g.Asks asked f → .feature g.root f ∈ t.facts)
    (h : g.Follows asked t.facts φ) : φ ∈ t.facts := by
  cases h with
  | root => exact hroot
  | asked h => exact hasked _ h
  | required active line required brings => exact hsettled _ active _ _ line required _ brings
  | named active enables isFeature =>
    have hdone := (hsettled _ active).1 _ enables
    unfold EntryDone at hdone
    rw [isFeature] at hdone
    exact hdone
  | dep active enables isDep line called brings =>
    have hdone := (hsettled _ active).1 _ enables
    unfold EntryDone at hdone
    rw [isDep] at hdone
    exact hdone _ _ line called _ brings
  | implicit active untold isImplicit line called brings =>
    exact (hsettled _ active).2 untold isImplicit _ _ line called _ brings
  | strongLine active enables isSub line called brings =>
    have hdone := (hsettled _ active).1 _ enables
    unfold EntryDone at hdone
    rw [isSub] at hdone
    exact hdone.1 _ _ line called _ brings
  | strongFeature active enables isSub line called =>
    have hdone := (hsettled _ active).1 _ enables
    unfold EntryDone at hdone
    rw [isSub] at hdone
    exact hdone.2.1 _ _ line called
  | strongName active enables isSub isImplicit =>
    have hdone := (hsettled _ active).1 _ enables
    unfold EntryDone at hdone
    rw [isSub] at hdone
    exact hdone.2.2 isImplicit
  | weak active enables isSub edge called =>
    have hdone := (hsettled _ active).1 _ enables
    unfold EntryDone at hdone
    rw [isSub] at hdone
    rcases hdone with hw | hpassed
    · exact absurd ⟨_, edge, called⟩ (hidle _ _ _ hw)
    · obtain ⟨d, node, hline, rfl, -⟩ := hsound.edges _ _ edge
      exact hpassed d node hline called

theorem empty_facts (φ : Fact n) : φ ∉ facts (fun _ => none : Units n) := by
  cases φ with
  | unit u => exact Bool.false_ne_true
  | _ => rintro ⟨state, h, -⟩; cases h

theorem empty_waits (u : BuildUnit n) (x sub : String) :
    ¬Waits (fun _ => none : Units n) u x sub := by
  rintro ⟨state, h, -⟩
  cases h

/-- **The units are the active ones**: resolution that ends with units leaves
the active facts, all of them known, and resolution that fails has met a
feature its package does not know. -/
theorem build_right (hplain : g.Plain asked) (depth : ℕ) :
    Meets True (g.build asked depth) (fun _ => none)
      (fun _ t => t.facts = g.active asked ∧ g.AllKnown asked)
      (fun _ => ¬g.AllKnown asked) := by
  have hcall : g.Right asked (run g.body depth) := run_right hplain depth
  have hs : g.Sound asked (fun _ => none : Units n) := by
    constructor
    · exact fun φ hφ => absurd hφ (empty_facts φ)
    · exact fun u e he => absurd he (empty_facts _)
    · exact fun u x sub hw => absurd hw (empty_waits u x sub)
    · exact fun u f hf => absurd hf (empty_facts _)
  have hroot : .unit g.root ∈ g.active asked := g.active_of_follows asked .root
  have hfeature : ∀ f, g.Asks asked f → .feature g.root f ∈ g.active asked :=
    fun f hf => g.active_of_follows asked (.asked hf)
  unfold build
  rw [meets_bind]
  refine (hcall (.ensure g.root) _ ⟨hs, hroot⟩).post fun _ s1 h1 => ?_
  obtain ⟨h1, hthere⟩ := h1
  rw [meets_bind]
  refine (activateIf_right hcall h1.sound hroot "default" _
    fun h => hfeature _ (.inr ⟨rfl, h⟩)).post fun _ s2 h2 => ?_
  obtain ⟨h2, hdefault⟩ := h2
  refine (meets_loop (D := fun f t => .feature g.root f ∈ t.facts) h2.sound ?_ ?_).post ?_
  · exact fun f t r hg hf => hg.facts hf
  · intro f hf t ht
    exact meets_mapError (hcall (.activate g.root f) t ⟨ht.sound, hroot, hfeature f (.inl hf)⟩)
  · rintro - t ⟨h3, hasked⟩
    have hafter : g.After asked (fun _ => none) t := h1.trans (h2.trans h3)
    have hclosed : g.active asked ⊆ t.facts := by
      refine g.active_subset asked fun φ hφ => ?_
      refine closed_of_settled hafter.sound
        (fun ψ hψ => hafter.fresh ψ hψ (empty_facts ψ)) ?_ ?_ ?_ hφ
      · exact fun u x sub hw he => empty_waits u x sub (hafter.idle u x sub hw he).1
      · exact h3.grows.facts (h2.grows.facts hthere)
      · rintro f (hf | ⟨rfl, hf⟩)
        · exact hasked f hf
        · exact h3.grows.facts (hdefault hf)
    exact ⟨Set.Subset.antisymm hafter.sound.facts hclosed,
      fun u f hf => hafter.sound.known u f (hclosed hf)⟩

end Graph

end Stado.Kompilator
