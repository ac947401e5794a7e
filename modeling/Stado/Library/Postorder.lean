import Mathlib.Data.Fintype.EquivFin
import Mathlib.Order.WellFounded

/-!
# Walking a graph in postorder

A walk with a stack of its own: a vertex is pushed once to be expanded and once
more to be listed, under its successors. Such a walk ends exactly when no cycle
can be reached from where it starts, and then lists every vertex it reaches
once, after its successors.
-/

namespace Postorder

open List Relation

variable {α : Type} [DecidableEq α] (next : α → List α)

/-- What is listed, and what is still to be done, the next item first; `true`
marks a vertex whose successors were pushed above it. -/
structure Walk (α : Type) where
  done : Finset α
  out : List α
  stack : List (α × Bool)

def Walk.start (root : α) : Walk α := ⟨∅, [], [(root, false)]⟩

def pushed (done : Finset α) (successors : List α) (stack : List (α × Bool)) : List (α × Bool) :=
  successors.foldl (fun stack v => if v ∈ done then stack else (v, false) :: stack) stack

/-- One turn of the loop, none once the stack is empty. -/
def step (w : Walk α) : Option (Walk α) :=
  match w.stack with
  | [] => none
  | (u, expanded) :: rest =>
    if u ∈ w.done then some { w with stack := rest }
    else if expanded then some ⟨insert u w.done, w.out ++ [u], rest⟩
    else some { w with stack := pushed w.done (next u) ((u, true) :: rest) }

/-- The loop, in at most `fuel` turns. -/
def run : ℕ → Walk α → Option (List α)
  | 0, _ => none
  | fuel + 1, w =>
    match step next w with
    | none => some w.out
    | some after => run fuel after

/-! ## Runs -/

def Steps (w after : Walk α) : Prop := step next w = some after

abbrev Reaches : Walk α → Walk α → Prop := ReflTransGen (Steps next)

variable {next} {w after : Walk α} {u v root : α} {rest : List (α × Bool)} {out : List α}

theorem steps_done (hdone : u ∈ w.done) {expanded : Bool} (hstack : w.stack = (u, expanded) :: rest) :
    Steps next w { w with stack := rest } := by
  rw [Steps, step, hstack]
  exact if_pos hdone

theorem steps_list (hdone : u ∉ w.done) (hstack : w.stack = (u, true) :: rest) :
    Steps next w ⟨insert u w.done, w.out ++ [u], rest⟩ := by
  rw [Steps, step, hstack]
  exact if_neg hdone

theorem steps_expand (hdone : u ∉ w.done) (hstack : w.stack = (u, false) :: rest) :
    Steps next w { w with stack := pushed w.done (next u) ((u, true) :: rest) } := by
  rw [Steps, step, hstack]
  exact if_neg hdone

theorem stack_of_stops (h : step next w = none) : w.stack = [] := by
  rcases hstack : w.stack with _ | ⟨⟨u, expanded⟩, rest⟩
  · rfl
  · by_cases hdone : u ∈ w.done
    · exact absurd (h.symm.trans (steps_done hdone hstack)) nofun
    · cases expanded with
      | true => exact absurd (h.symm.trans (steps_list hdone hstack)) nofun
      | false => exact absurd (h.symm.trans (steps_expand hdone hstack)) nofun

theorem run_eq_some {fuel : ℕ} (h : run next fuel w = some out) :
    ∃ last, Reaches next w last ∧ last.stack = [] ∧ last.out = out := by
  induction fuel generalizing w with
  | zero => cases h
  | succ fuel ih =>
    rw [run] at h
    cases hstep : step next w with
    | none =>
      rw [hstep] at h
      exact ⟨w, .refl, stack_of_stops hstep, Option.some.inj h⟩
    | some after =>
      rw [hstep] at h
      obtain ⟨last, hlast, hempty, hout⟩ := ih h
      exact ⟨last, .head hstep hlast, hempty, hout⟩

theorem run_of_reaches {last : Walk α} (h : Reaches next w last) (hempty : last.stack = []) :
    ∃ fuel, run next fuel w = some last.out := by
  induction h using ReflTransGen.head_induction_on with
  | refl =>
    refine ⟨1, ?_⟩
    rw [run, step, hempty]
  | head hstep _ ih =>
    obtain ⟨fuel, hfuel⟩ := ih
    refine ⟨fuel + 1, ?_⟩
    rw [run, hstep]
    exact hfuel

theorem pushed_eq (done : Finset α) (successors : List α) (stack : List (α × Bool)) :
    ∃ above, pushed done successors stack = above ++ stack ∧
      (∀ item ∈ above, item.2 = false ∧ item.1 ∈ successors) ∧
      ∀ v ∈ successors, v ∈ done ∨ (v, false) ∈ above := by
  induction successors generalizing stack with
  | nil => exact ⟨[], rfl, nofun, nofun⟩
  | cons v later ih =>
    rw [pushed, foldl_cons]
    split
    · rename_i hdone
      obtain ⟨above, heq, hitems, hall⟩ := ih stack
      refine ⟨above, heq, ?_, ?_⟩
      · intro item hitem
        exact ⟨(hitems item hitem).1, mem_cons_of_mem v (hitems item hitem).2⟩
      · intro other hother
        rcases mem_cons.mp hother with rfl | hother
        · exact .inl hdone
        · exact hall other hother
    · obtain ⟨above, heq, hitems, hall⟩ := ih ((v, false) :: stack)
      refine ⟨above ++ [(v, false)], ?_, ?_, ?_⟩
      · rw [append_assoc]
        exact heq
      · intro item hitem
        rcases mem_append.mp hitem with hitem | hitem
        · exact ⟨(hitems item hitem).1, mem_cons_of_mem v (hitems item hitem).2⟩
        · rw [mem_singleton.mp hitem]
          exact ⟨rfl, mem_cons_self⟩
      · intro other hother
        rcases mem_cons.mp hother with rfl | hother
        · exact .inr (mem_append_right above (mem_singleton_self _))
        · exact (hall other hother).imp_right (mem_append_left _)

/-- A vertex with no endless way out of it is worked off the stack. -/
theorem reaches_rest (hacc : Acc (fun v u => v ∈ next u) u) (w : Walk α)
    (hstack : w.stack = (u, false) :: rest) : ∃ last, Reaches next w last ∧ last.stack = rest := by
  induction hacc generalizing w rest with
  | intro u _ ih =>
    by_cases hdone : u ∈ w.done
    · exact ⟨_, .single (steps_done hdone hstack), rfl⟩
    obtain ⟨above, heq, hitems, -⟩ := pushed_eq w.done (next u) ((u, true) :: rest)
    -- The successors above `u` are worked off one by one.
    have habove : ∀ (items : List (α × Bool)) (w : Walk α) (below : List (α × Bool)),
        (∀ item ∈ items, item.2 = false ∧ item.1 ∈ next u) → w.stack = items ++ below →
          ∃ last, Reaches next w last ∧ last.stack = below := by
      intro items
      induction items with
      | nil => exact fun w below _ hstack => ⟨w, .refl, hstack⟩
      | cons item items ihitems =>
        intro w below hitems hstack
        obtain ⟨hfalse, hmem⟩ := hitems item mem_cons_self
        have htop : w.stack = (item.1, false) :: (items ++ below) := by
          rw [hstack, ← hfalse]
          rfl
        obtain ⟨middle, hmiddle, hrest⟩ := ih item.1 hmem w htop
        obtain ⟨last, hlast, hbelow⟩ := ihitems middle below
          (fun other hother => hitems other (mem_cons_of_mem item hother)) hrest
        exact ⟨last, hmiddle.trans hlast, hbelow⟩
    obtain ⟨middle, hmiddle, htop⟩ := habove above
      { w with stack := pushed w.done (next u) ((u, true) :: rest) } ((u, true) :: rest) hitems heq
    have hexpand := ReflTransGen.head (steps_expand hdone hstack) hmiddle
    by_cases hnow : u ∈ middle.done
    · exact ⟨_, hexpand.tail (steps_done hnow htop), rfl⟩
    · exact ⟨_, hexpand.tail (steps_list hnow htop), rfl⟩

/-! ## What a walk lists -/

/-- A vertex that can be reached from the root. -/
def Reachable (next : α → List α) (root u : α) : Prop :=
  ReflTransGen (fun u v => v ∈ next u) root u

/-- Every vertex of a list stands after its successors. -/
def Sorted (next : α → List α) (out : List α) : Prop :=
  ∀ before u later, out = before ++ u :: later → ∀ v ∈ next u, v ∈ before

omit [DecidableEq α] in
theorem Sorted.snoc (h : Sorted next out) (hu : ∀ v ∈ next u, v ∈ out) :
    Sorted next (out ++ [u]) := by
  intro before x later heq v hv
  rcases append_eq_append_iff.mp heq with ⟨more, hbefore, htail⟩ | ⟨more, hout, htail⟩
  · rw [hbefore]
    cases more with
    | nil =>
      obtain ⟨rfl, -⟩ := List.cons.inj htail
      rw [append_nil]
      exact hu v hv
    | cons y more =>
      have hlength := congrArg List.length htail
      simp at hlength
  · cases more with
    | nil =>
      obtain ⟨rfl, -⟩ := List.cons.inj htail
      have hv' := hu v hv
      rw [hout, append_nil] at hv'
      exact hv'
    | cons y more =>
      obtain ⟨rfl, -⟩ := List.cons.inj htail
      exact h before x more hout v hv

/-- What holds all along a walk from a root. -/
structure Sound (next : α → List α) (root : α) (w : Walk α) : Prop where
  done : ∀ u, u ∈ w.done ↔ u ∈ w.out
  nodup : w.out.Nodup
  sorted : Sorted next w.out
  begun : root ∈ w.out ∨ ∃ expanded, (root, expanded) ∈ w.stack
  reached : ∀ u ∈ w.out, Reachable next root u
  waiting : ∀ item ∈ w.stack, Reachable next root item.1
  expanded : ∀ above u below, w.stack = above ++ (u, true) :: below →
    ∀ v ∈ next u, v ∈ w.done ∨ ∃ expanded, (v, expanded) ∈ above

theorem Sound.start (root : α) : Sound next root (.start root) where
  done u := by simp [Walk.start]
  nodup := nodup_nil
  sorted before u later heq := by
    have hlength := congrArg List.length heq
    simp [Walk.start] at hlength
  begun := .inr ⟨false, mem_singleton_self _⟩
  reached u hu := nomatch hu
  waiting item hitem := by
    rw [mem_singleton.mp hitem]
    exact .refl
  expanded above u below heq := by
    cases above with
    | nil =>
      obtain ⟨hu, -⟩ := List.cons.inj heq
      cases hu
    | cons item above =>
      have hlength := congrArg List.length heq
      simp [Walk.start] at hlength

theorem Sound.drop (h : Sound next root w) (hdone : u ∈ w.done) {expanded : Bool}
    (hstack : w.stack = (u, expanded) :: rest) : Sound next root { w with stack := rest } where
  done := h.done
  nodup := h.nodup
  sorted := h.sorted
  begun := by
    rcases h.begun with hout | ⟨other, hmem⟩
    · exact .inl hout
    · rw [hstack] at hmem
      rcases mem_cons.mp hmem with heq | hmem
      · obtain ⟨rfl, -⟩ := Prod.mk.inj heq
        exact .inl ((h.done _).mp hdone)
      · exact .inr ⟨other, hmem⟩
  reached := h.reached
  waiting item hitem := h.waiting item (by rw [hstack]; exact mem_cons_of_mem _ hitem)
  expanded above x below heq v hv := by
    have hwhole : w.stack = ((u, expanded) :: above) ++ (x, true) :: below := by
      rw [hstack]
      exact congrArg _ heq
    rcases h.expanded _ x below hwhole v hv with hin | ⟨other, hmem⟩
    · exact .inl hin
    · rcases mem_cons.mp hmem with heq | hmem
      · obtain ⟨rfl, -⟩ := Prod.mk.inj heq
        exact .inl hdone
      · exact .inr ⟨other, hmem⟩

theorem Sound.list (h : Sound next root w) (hdone : u ∉ w.done)
    (hstack : w.stack = (u, true) :: rest) :
    Sound next root ⟨insert u w.done, w.out ++ [u], rest⟩ where
  done x := by
    rw [Finset.mem_insert, mem_append, mem_singleton, h.done, or_comm]
  nodup := by
    rw [nodup_append]
    refine ⟨h.nodup, nodup_singleton u, ?_⟩
    rintro x hx y hy rfl
    rw [mem_singleton.mp hy, ← h.done] at hx
    exact hdone hx
  sorted := by
    refine h.sorted.snoc ?_
    intro v hv
    rcases h.expanded [] u rest hstack v hv with hin | ⟨_, hmem⟩
    · exact (h.done v).mp hin
    · cases hmem
  begun := by
    rcases h.begun with hout | ⟨other, hmem⟩
    · exact .inl (mem_append_left _ hout)
    · rw [hstack] at hmem
      rcases mem_cons.mp hmem with heq | hmem
      · obtain ⟨rfl, -⟩ := Prod.mk.inj heq
        exact .inl (mem_append_right _ (mem_singleton_self _))
      · exact .inr ⟨other, hmem⟩
  reached x hx := by
    rcases mem_append.mp hx with hx | hx
    · exact h.reached x hx
    · rw [mem_singleton.mp hx]
      exact h.waiting (u, true) (by rw [hstack]; exact mem_cons_self)
  waiting item hitem := h.waiting item (by rw [hstack]; exact mem_cons_of_mem _ hitem)
  expanded above x below heq v hv := by
    have hwhole : w.stack = ((u, true) :: above) ++ (x, true) :: below := by
      rw [hstack]
      exact congrArg _ heq
    rcases h.expanded _ x below hwhole v hv with hin | ⟨other, hmem⟩
    · exact .inl (Finset.mem_insert_of_mem hin)
    · rcases mem_cons.mp hmem with heq | hmem
      · obtain ⟨rfl, -⟩ := Prod.mk.inj heq
        exact .inl (Finset.mem_insert_self _ _)
      · exact .inr ⟨other, hmem⟩

theorem Sound.expand (h : Sound next root w) (hstack : w.stack = (u, false) :: rest) :
    Sound next root { w with stack := pushed w.done (next u) ((u, true) :: rest) } := by
  obtain ⟨added, hpushed, hitems, hall⟩ := pushed_eq w.done (next u) ((u, true) :: rest)
  have hu : Reachable next root u := h.waiting (u, false) (by rw [hstack]; exact mem_cons_self)
  rw [hpushed]
  refine ⟨h.done, h.nodup, h.sorted, ?_, h.reached, ?_, ?_⟩
  · rcases h.begun with hout | ⟨other, hmem⟩
    · exact .inl hout
    · rw [hstack] at hmem
      rcases mem_cons.mp hmem with heq | hmem
      · obtain ⟨rfl, -⟩ := Prod.mk.inj heq
        exact .inr ⟨true, mem_append_right added mem_cons_self⟩
      · exact .inr ⟨other, mem_append_right added (mem_cons_of_mem _ hmem)⟩
  · intro item hitem
    rcases mem_append.mp hitem with hitem | hitem
    · exact hu.tail (hitems item hitem).2
    · rcases mem_cons.mp hitem with rfl | hitem
      · exact hu
      · exact h.waiting item (by rw [hstack]; exact mem_cons_of_mem _ hitem)
  · intro above x below heq v hv
    rcases append_eq_append_iff.mp heq with ⟨more, habove, htail⟩ | ⟨more, hadded, htail⟩
    · rw [habove]
      rcases more with _ | ⟨item, more⟩
      · -- The vertex that was expanded, under its own successors.
        obtain ⟨hx, -⟩ := List.cons.inj htail
        obtain ⟨rfl, -⟩ := Prod.mk.inj hx
        rw [append_nil]
        exact (hall v hv).imp_right fun hmem => ⟨false, hmem⟩
      · obtain ⟨rfl, hrest⟩ := List.cons.inj htail
        have hwhole : w.stack = ((u, false) :: more) ++ (x, true) :: below := by
          rw [hstack]
          exact congrArg _ hrest
        rcases h.expanded _ x below hwhole v hv with hin | ⟨other, hmem⟩
        · exact .inl hin
        · rcases mem_cons.mp hmem with heq | hmem
          · obtain ⟨rfl, -⟩ := Prod.mk.inj heq
            exact .inr ⟨true, mem_append_right added mem_cons_self⟩
          · exact .inr ⟨other, mem_append_right added (mem_cons_of_mem _ hmem)⟩
    · rcases more with _ | ⟨item, more⟩
      · obtain ⟨hx, -⟩ := List.cons.inj htail
        obtain ⟨rfl, -⟩ := Prod.mk.inj hx
        rw [append_nil] at hadded
        rw [← hadded]
        exact (hall v hv).imp_right fun hmem => ⟨false, hmem⟩
      · obtain ⟨rfl, -⟩ := List.cons.inj htail
        have hmem : (x, true) ∈ added := by
          rw [hadded]
          exact mem_append_right above mem_cons_self
        exact absurd (hitems _ hmem).1 nofun

theorem Sound.step (h : Sound next root w) (hstep : Steps next w after) :
    Sound next root after := by
  rcases hstack : w.stack with _ | ⟨⟨u, expanded⟩, rest⟩
  · rw [Steps, Postorder.step, hstack] at hstep
    cases hstep
  by_cases hdone : u ∈ w.done
  · obtain rfl := Option.some.inj ((steps_done hdone hstack).symm.trans hstep)
    exact h.drop hdone hstack
  · cases expanded with
    | true =>
      obtain rfl := Option.some.inj ((steps_list hdone hstack).symm.trans hstep)
      exact h.list hdone hstack
    | false =>
      obtain rfl := Option.some.inj ((steps_expand hdone hstack).symm.trans hstep)
      exact h.expand hstack

theorem Sound.of_reaches (hreaches : Reaches next (.start root) w) : Sound next root w := by
  induction hreaches with
  | refl => exact .start root
  | tail _ hstep ih => exact ih.step hstep

/-! ## Cycles -/

/-- No way out of a vertex that can be reached leads back to it. -/
def Acyclic (next : α → List α) (root : α) : Prop :=
  ∀ u, Reachable next root u → ¬TransGen (fun u v => v ∈ next u) u u

/-- Every vertex that can be reached, once, after its successors. -/
structure Topological (next : α → List α) (root : α) (out : List α) : Prop where
  nodup : out.Nodup
  reachable : ∀ u, u ∈ out ↔ Reachable next root u
  sorted : Sorted next out

omit [DecidableEq α] in
theorem Sorted.closed (h : Sorted next out) (hu : u ∈ out) (hv : v ∈ next u) : v ∈ out := by
  obtain ⟨before, later, rfl⟩ := append_of_mem hu
  exact mem_append_left _ (h before u later rfl v hv)

theorem Sorted.idxOf_lt (h : Sorted next out) (hu : u ∈ out)
    (hway : TransGen (fun u v => v ∈ next u) u v) : out.idxOf v < out.idxOf u := by
  have hone : ∀ u v, u ∈ out → v ∈ next u → out.idxOf v < out.idxOf u := by
    intro u v hu hv
    obtain ⟨before, later, rfl, hfresh⟩ := eq_append_cons_of_mem hu
    have hmem := h before u later rfl v hv
    rw [idxOf_append_of_mem hmem, idxOf_append_of_notMem hfresh]
    exact Nat.lt_add_right _ (idxOf_lt_length_iff.mpr hmem)
  have hclosed : ∀ v, TransGen (fun u v => v ∈ next u) u v → v ∈ out := by
    intro v hway
    induction hway with
    | single hv => exact h.closed hu hv
    | tail _ hv ih => exact h.closed ih hv
  induction hway with
  | single hv => exact hone u _ hu hv
  | tail hway hv ih => exact (hone _ _ (hclosed _ hway) hv).trans ih

theorem Topological.acyclic (h : Topological next root out) : Acyclic next root := by
  intro u hu hcycle
  exact Nat.lt_irrefl _ (h.sorted.idxOf_lt ((h.reachable u).mpr hu) hcycle)

theorem topological_of_run {fuel : ℕ} (h : run next fuel (.start root) = some out) :
    Topological next root out := by
  obtain ⟨last, hreaches, hempty, rfl⟩ := run_eq_some h
  have hsound := Sound.of_reaches hreaches
  refine ⟨hsound.nodup, fun u => ⟨hsound.reached u, fun hu => ?_⟩, hsound.sorted⟩
  induction hu with
  | refl =>
    rcases hsound.begun with hout | ⟨_, hmem⟩
    · exact hout
    · rw [hempty] at hmem
      cases hmem
  | tail _ hv ih => exact hsound.sorted.closed ih hv

omit [DecidableEq α] in
theorem Acyclic.acc [Finite α] (h : Acyclic next root) : Acc (fun v u => v ∈ next u) root := by
  let below (v u : α) : Prop := Reachable next root u ∧ TransGen (fun u v => v ∈ next u) u v
  have htrans : IsTrans α below := ⟨fun _ _ _ hvu hxv => ⟨hxv.1, hxv.2.trans hvu.2⟩⟩
  have hirrefl : Std.Irrefl below := ⟨fun u hu => h u hu.1 hu.2⟩
  have hwf : WellFounded below := Finite.wellFounded_of_trans_of_irrefl below
  have hall : ∀ u, Reachable next root u → Acc (fun v u => v ∈ next u) u := by
    intro u
    induction u using hwf.induction with
    | _ u ih =>
      intro hu
      exact Acc.intro u fun v hv => ih v ⟨hu, .single hv⟩ (hu.tail hv)
  exact hall root .refl

/-- A walk of a finite graph ends exactly when it meets no cycle. -/
theorem ends_iff [Finite α] :
    (∃ fuel out, run next fuel (.start root) = some out) ↔ Acyclic next root := by
  constructor
  · rintro ⟨fuel, out, hrun⟩
    exact (topological_of_run hrun).acyclic
  · intro h
    obtain ⟨last, hreaches, hempty⟩ := reaches_rest h.acc (.start root) rfl
    obtain ⟨fuel, hfuel⟩ := run_of_reaches hreaches hempty
    exact ⟨fuel, last.out, hfuel⟩

end Postorder
