import Mathlib.Data.List.Lex
import Mathlib.Data.List.Sort

/-!
# Paging by a cursor

A listing shows names in ascending order, each once, and resumes past the last
one it showed. `fresh` is what a walk over weakly ascending names, repeated ones
included, still has to show past a cursor; what a resumed walk shows is what the
first page left out.
-/

namespace Paging

open List

variable {α : Type*} [LinearOrder α]

/-! ## What is left to show -/

/-- What a walk shows past a cursor and besides what it has shown. -/
def fresh (cursor : α) (seen : List α) : List α → List α
  | [] => []
  | name :: later =>
    if name ≤ cursor ∨ name ∈ seen then fresh cursor seen later
    else name :: fresh cursor (seen ++ [name]) later

variable {cursor : α} {seen names : List α}

theorem fresh_skip {name : α} (h : name ≤ cursor ∨ name ∈ seen)
    (later : List α) : fresh cursor seen (name :: later) = fresh cursor seen later := if_pos h

theorem fresh_show {name : α} (h : ¬(name ≤ cursor ∨ name ∈ seen))
    (later : List α) :
    fresh cursor seen (name :: later) = name :: fresh cursor (seen ++ [name]) later := if_neg h

theorem mem_fresh {name : α} :
    name ∈ fresh cursor seen names ↔ name ∈ names ∧ cursor < name ∧ name ∉ seen := by
  induction names generalizing seen with
  | nil => simp [fresh]
  | cons first later ih =>
    by_cases hskip : first ≤ cursor ∨ first ∈ seen
    · rw [fresh_skip hskip, ih]
      constructor
      · rintro ⟨hmem, hname⟩
        exact ⟨mem_cons_of_mem first hmem, hname⟩
      · rintro ⟨hmem, hcursor, hseen⟩
        rcases mem_cons.mp hmem with rfl | hmem
        · rcases hskip with hle | hshown
          · exact absurd hcursor (not_lt.mpr hle)
          · exact absurd hshown hseen
        · exact ⟨hmem, hcursor, hseen⟩
    · rw [fresh_show hskip, mem_cons, ih]
      rw [not_or, not_le] at hskip
      constructor
      · rintro (rfl | ⟨hmem, hcursor, hseen⟩)
        · exact ⟨mem_cons_self, hskip⟩
        · refine ⟨mem_cons_of_mem first hmem, hcursor, ?_⟩
          exact fun hname => hseen (mem_append_left [first] hname)
      · rintro ⟨hmem, hcursor, hseen⟩
        by_cases heq : name = first
        · exact .inl heq
        · rcases mem_cons.mp hmem with rfl | hmem
          · exact absurd rfl heq
          · refine .inr ⟨hmem, hcursor, ?_⟩
            rw [mem_append, mem_singleton]
            rintro (hname | hname)
            · exact hseen hname
            · exact heq hname

theorem length_fresh (cursor : α) (seen names : List α) :
    (fresh cursor seen names).length ≤ names.length := by
  induction names generalizing seen with
  | nil => exact le_rfl
  | cons first later ih =>
    by_cases hskip : first ≤ cursor ∨ first ∈ seen
    · rw [fresh_skip hskip]
      exact (ih seen).trans (Nat.le_succ _)
    · rw [fresh_show hskip]
      exact Nat.succ_le_succ (ih (seen ++ [first]))

/-- What is shown ascends. -/
theorem pairwise_fresh (h : names.Pairwise (· ≤ ·)) :
    (fresh cursor seen names).Pairwise (· < ·) := by
  induction names generalizing seen with
  | nil => exact List.Pairwise.nil
  | cons first later ih =>
    obtain ⟨hfirst, hlater⟩ := pairwise_cons.mp h
    by_cases hskip : first ≤ cursor ∨ first ∈ seen
    · rw [fresh_skip hskip]
      exact ih hlater
    · rw [fresh_show hskip]
      refine pairwise_cons.mpr ⟨?_, ih hlater⟩
      intro name hname
      obtain ⟨hmem, -, hseen⟩ := mem_fresh.mp hname
      refine lt_of_le_of_ne (hfirst name hmem) ?_
      rintro rfl
      exact hseen (mem_append_right seen (mem_singleton.mpr rfl))

/-- Names not past the cursor may be left out of the walk. -/
theorem fresh_filter {β : Type*} (name : β → α) (test : β → Bool)
    {entries : List β} (h : ∀ entry ∈ entries, test entry = false → name entry ≤ cursor) :
    fresh cursor seen ((entries.filter test).map name) = fresh cursor seen (entries.map name) := by
  induction entries generalizing seen with
  | nil => rfl
  | cons entry later ih =>
    have hlater : ∀ e ∈ later, test e = false → name e ≤ cursor :=
      fun e he => h e (mem_cons_of_mem entry he)
    rw [map_cons]
    cases htest : test entry with
    | false =>
      rw [filter_cons_of_neg (by rw [htest]; decide), ih hlater,
        fresh_skip (.inl (h entry mem_cons_self htest))]
    | true =>
      rw [filter_cons_of_pos htest, map_cons]
      by_cases hskip : name entry ≤ cursor ∨ name entry ∈ seen
      · rw [fresh_skip hskip, fresh_skip hskip, ih hlater]
      · rw [fresh_show hskip, fresh_show hskip, ih hlater]

/-- Past a later cursor a walk shows what it showed of the names past it. -/
theorem fresh_later {resumed : α} (h : names.Pairwise (· ≤ ·)) (hcursor : cursor ≤ resumed) :
    fresh resumed [] names = (fresh cursor [] names).filter (resumed < ·) := by
  refine (pairwise_fresh h).eq_of_mem_iff ((pairwise_fresh h).filter _) ?_
  intro name
  simp only [mem_fresh, mem_filter, decide_eq_true_eq, not_mem_nil, not_false_eq_true, and_true]
  constructor
  · rintro ⟨hmem, hlt⟩
    exact ⟨⟨hmem, lt_of_le_of_lt hcursor hlt⟩, hlt⟩
  · rintro ⟨⟨hmem, -⟩, hlt⟩
    exact ⟨hmem, hlt⟩

theorem filter_past_page (h : names.Pairwise (· < ·)) {n : ℕ} {last : α}
    (hlast : (names.take n).getLast? = some last) : names.filter (last < ·) = names.drop n := by
  obtain ⟨front, hfront⟩ := List.getLast?_eq_some_iff.mp hlast
  have hsplit : names = (front ++ [last]) ++ names.drop n := by
    rw [← hfront, take_append_drop]
  have hsorted := h
  rw [hsplit, pairwise_append] at hsorted
  obtain ⟨hpage, -, hacross⟩ := hsorted
  have hearlier : (front ++ [last]).filter (last < ·) = [] := by
    refine filter_eq_nil_iff.mpr ?_
    intro name hname
    rw [decide_eq_true_eq, not_lt]
    rcases mem_append.mp hname with hname | hname
    · exact ((pairwise_append.mp hpage).2.2 name hname last (mem_singleton.mpr rfl)).le
    · exact (mem_singleton.mp hname).le
  have hlater : (names.drop n).filter (last < ·) = names.drop n := by
    refine filter_eq_self.mpr ?_
    intro name hname
    rw [decide_eq_true_eq]
    exact hacross last (by simp) name hname
  calc names.filter (last < ·)
      = ((front ++ [last]) ++ names.drop n).filter (last < ·) := by rw [← hsplit]
    _ = names.drop n := by rw [filter_append, hearlier, hlater, nil_append]

theorem fresh_resumed {last : α} (h : names.Pairwise (· ≤ ·)) {n : ℕ}
    (hlast : ((fresh cursor [] names).take n).getLast? = some last) :
    fresh last [] names = (fresh cursor [] names).drop n := by
  have hmem : last ∈ fresh cursor [] names := mem_of_mem_take (mem_of_getLast? hlast)
  rw [fresh_later h (mem_fresh.mp hmem).2.1.le, filter_past_page (pairwise_fresh h) hlast]

variable {stem text between : List α}

theorem cons_le_cons_iff {a b : α} {left right : List α} :
    a :: left ≤ b :: right ↔ a < b ∨ a = b ∧ left ≤ right := by
  rw [le_iff_lt_or_eq, cons_lt_cons_iff, List.cons.injEq, le_iff_lt_or_eq, or_assoc, ← and_or_left]

theorem le_of_prefix (h : stem <+: text) : stem ≤ text := by
  obtain ⟨later, rfl⟩ := h
  induction stem with
  | nil =>
    rw [← not_lt]
    exact not_lt_nil _
  | cons a stem ih => exact cons_le_cons a ih

theorem prefix_of_between (h : stem <+: text) (hstem : stem ≤ between) (htext : between ≤ text) :
    stem <+: between := by
  induction stem generalizing text between with
  | nil => exact nil_prefix
  | cons a stem ih =>
    obtain ⟨later, rfl⟩ := h
    cases between with
    | nil => exact absurd hstem (not_le.mpr (nil_lt_cons a stem))
    | cons b between =>
      rcases cons_le_cons_iff.mp hstem with hlt | ⟨rfl, hle⟩
      · rcases cons_le_cons_iff.mp htext with hgt | ⟨heq, -⟩
        · exact absurd hlt (not_lt.mpr hgt.le)
        · exact absurd hlt (by rw [heq]; exact lt_irrefl _)
      · rcases cons_le_cons_iff.mp htext with hgt | ⟨-, hrest⟩
        · exact absurd hgt (lt_irrefl _)
        · rw [cons_prefix_cons]
          exact ⟨rfl, ih (prefix_append stem later) hle hrest⟩

end Paging
