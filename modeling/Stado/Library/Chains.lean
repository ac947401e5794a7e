import Mathlib.Data.List.Induction

/-!
# Chains of marks

Each item of a chain is marked over the mark before it, from a seed on. Where a
mark tells what it is of, and no seed is a mark, a chain made of links of other
chains is a stretch of one of them from its seed.
-/

namespace Chains

open List

variable {σ α : Type*} {seed : σ} {items : List α}

def marks (sign : σ → α → σ) (seed : σ) : List α → List σ
  | [] => []
  | a :: later => sign seed a :: marks sign (sign seed a) later

def mark (sign : σ → α → σ) (seed : σ) (items : List α) : σ := items.foldl sign seed

def links (sign : σ → α → σ) (seed : σ) (items : List α) : List (α × σ) :=
  items.zip (marks sign seed items)

theorem marks_length (sign : σ → α → σ) (seed : σ) (items : List α) :
    (marks sign seed items).length = items.length := by
  induction items generalizing seed with
  | nil => rfl
  | cons a later ih => exact congrArg (· + 1) (ih (sign seed a))

theorem marks_append (sign : σ → α → σ) (seed : σ) (items later : List α) :
    marks sign seed (items ++ later) =
      marks sign seed items ++ marks sign (mark sign seed items) later := by
  induction items generalizing seed with
  | nil => rfl
  | cons a items ih => exact congrArg (sign seed a :: ·) (ih (sign seed a))

theorem links_snoc (sign : σ → α → σ) (seed : σ) (items : List α) (a : α) :
    links sign seed (items ++ [a]) =
      links sign seed items ++ [(a, sign (mark sign seed items) a)] := by
  rw [links, marks_append, zip_append (marks_length sign seed items).symm]
  rfl

theorem links_split {sign : σ → α → σ} {link : α × σ} (h : link ∈ links sign seed items) :
    ∃ before after, items = before ++ link.1 :: after ∧
      link.2 = sign (mark sign seed before) link.1 := by
  induction items using List.reverseRecOn with
  | nil => cases h
  | append_singleton items a ih =>
    rw [links_snoc] at h
    rcases mem_append.mp h with hearlier | hlast
    · obtain ⟨before, after, rfl, hmark⟩ := ih hearlier
      exact ⟨before, after ++ [a], by rw [append_assoc]; rfl, hmark⟩
    · obtain rfl := mem_singleton.mp hlast
      exact ⟨items, [], rfl, rfl⟩

/-! ## Marks that tell what they are of -/

variable {κ : Type*} {sign : κ → σ → α → σ} {fresh : σ → Prop}

inductive Stands (sign : κ → σ → α → σ) (fresh : σ → Prop) : σ → Prop
  | seed {s : σ} (h : fresh s) : Stands sign fresh s
  | mark (k : κ) (s : σ) (a : α) : Stands sign fresh (sign k s a)

/-- A mark tells the mark before it and its item, and no seed is a mark. -/
structure Telling (sign : κ → σ → α → σ) (fresh : σ → Prop) : Prop where
  tells : ∀ k k' s s' a a', Stands sign fresh s → Stands sign fresh s' →
    sign k s a = sign k' s' a' → s = s' ∧ a = a'
  seeds : ∀ k s a, ¬fresh (sign k s a)

theorem Stands.of_mark {k : κ} (hseed : fresh seed) (items : List α) :
    Stands sign fresh (Chains.mark (sign k) seed items) := by
  rcases eq_nil_or_concat items with rfl | ⟨before, a, rfl⟩
  · exact .seed hseed
  · rw [concat_eq_append, Chains.mark, foldl_append]
    exact .mark k _ a

theorem eq_of_mark_eq (h : Telling sign fresh) {k k' : κ} {seed seed' : σ} (hseed : fresh seed)
    (hseed' : fresh seed') {items items' : List α}
    (hmark : mark (sign k) seed items = mark (sign k') seed' items') :
    seed = seed' ∧ items = items' ∧ links (sign k) seed items = links (sign k') seed' items' := by
  induction items using List.reverseRecOn generalizing items' with
  | nil =>
    rcases eq_nil_or_concat items' with rfl | ⟨before, a, rfl⟩
    · exact ⟨hmark, rfl, rfl⟩
    · rw [concat_eq_append, mark, mark, foldl_append] at hmark
      have hfresh : fresh (sign k' (before.foldl (sign k') seed') a) := by
        rw [show sign k' (before.foldl (sign k') seed') a = seed from hmark.symm]
        exact hseed
      exact absurd hfresh (h.seeds _ _ _)
  | append_singleton items a ih =>
    rcases eq_nil_or_concat items' with rfl | ⟨before, a', rfl⟩
    · rw [mark, mark, foldl_append] at hmark
      have hfresh : fresh (sign k (items.foldl (sign k) seed) a) := by
        rw [show sign k (items.foldl (sign k) seed) a = seed' from hmark]
        exact hseed'
      exact absurd hfresh (h.seeds _ _ _)
    · rw [concat_eq_append] at hmark ⊢
      rw [mark, mark, foldl_append, foldl_append] at hmark
      obtain ⟨hbefore, rfl⟩ := h.tells _ _ _ _ _ _ (Stands.of_mark hseed items)
        (Stands.of_mark hseed' before) hmark
      obtain ⟨rfl, rfl, hlinks⟩ := ih hbefore
      refine ⟨rfl, rfl, ?_⟩
      rw [links_snoc, links_snoc, hlinks]
      exact congrArg (fun last => links (sign k') seed items ++ [(a, last)]) hmark

theorem prefix_of_pool (h : Telling sign fresh) {k : κ} (hseed : fresh seed)
    {pool : Set (κ × σ × List α)} (hpool : ∀ chain ∈ pool, fresh chain.2.1)
    (hne : items ≠ []) (hlinks : ∀ link ∈ links (sign k) seed items,
      ∃ chain ∈ pool, link ∈ links (sign chain.1) chain.2.1 chain.2.2) :
    ∃ chain ∈ pool, chain.2.1 = seed ∧ items <+: chain.2.2 ∧
      links (sign k) seed items = links (sign chain.1) chain.2.1 items := by
  obtain ⟨before, a, hitems⟩ := (eq_nil_or_concat items).resolve_left hne
  rw [concat_eq_append] at hitems
  subst hitems
  have hlast : (a, sign k (mark (sign k) seed before) a) ∈ links (sign k) seed (before ++ [a]) := by
    rw [links_snoc]
    exact mem_append_right _ (mem_singleton_self _)
  obtain ⟨chain, hchain, hmem⟩ := hlinks _ hlast
  obtain ⟨before', after, hsplit, hmark⟩ := links_split hmem
  obtain ⟨hbefore, -⟩ := h.tells _ _ _ _ _ _ (Stands.of_mark hseed before)
    (Stands.of_mark (hpool chain hchain) before') hmark
  obtain ⟨rfl, rfl, hlinks'⟩ := eq_of_mark_eq h hseed (hpool chain hchain) hbefore
  refine ⟨chain, hchain, rfl, ⟨after, ?_⟩, ?_⟩
  · rw [hsplit, append_assoc]
    rfl
  · rw [links_snoc, links_snoc, hlinks']
    exact congrArg (fun last => links (sign chain.1) chain.2.1 before ++ [(a, last)]) hmark

end Chains
