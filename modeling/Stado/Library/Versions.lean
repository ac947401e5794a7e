import Mathlib.Data.List.SplitOn
import Mathlib.Data.List.TakeWhile
import Mathlib.Data.Prod.Lex
import Mathlib.Data.Sum.Order
import Stado.Library.Decimals

/-!
# Semantic versions

A version text in the parts Semantic Versioning 2.0.0 gives it, which texts are
versions, and their precedence as one linear order.
-/

namespace SemVer

open Decimals List

abbrev Text := List Char

/-! ## The parts of a version -/

structure Version where
  major : Text
  minor : Text
  patch : Text
  prerelease : Option (List Text)
  build : Option (List Text)
deriving DecidableEq

def dotted (parts : List Text) : Text := ['.'].intercalate parts

def announced (mark : Char) : Option (List Text) → Text
  | none => []
  | some parts => mark :: dotted parts

namespace Version

/-- The version without its build metadata. -/
def ranked (v : Version) : Text :=
  v.major ++ '.' :: v.minor ++ '.' :: v.patch ++ announced '-' v.prerelease

def text (v : Version) : Text := v.ranked ++ announced '+' v.build

/-- No part holds a character that would end it. -/
structure Separable (v : Version) : Prop where
  core : ∀ number ∈ [v.major, v.minor, v.patch], '.' ∉ number ∧ '-' ∉ number ∧ '+' ∉ number
  prerelease : ∀ parts, v.prerelease = some parts →
    parts ≠ [] ∧ ∀ part ∈ parts, '.' ∉ part ∧ '+' ∉ part
  build : ∀ parts, v.build = some parts → parts ≠ [] ∧ ∀ part ∈ parts, '.' ∉ part

end Version

/-! ## Reading the parts -/

def cut (mark : Char) (text : Text) : Text × Option Text :=
  match text.dropWhile (· ≠ mark) with
  | [] => (text, none)
  | _ :: rest => (text.takeWhile (· ≠ mark), some rest)

def numbered (core : List Text) (prerelease build : Option Text) : Option Version :=
  match core with
  | [major, minor, patch] =>
    some ⟨major, minor, patch, prerelease.map (List.splitOn '.'), build.map (List.splitOn '.')⟩
  | _ => none

def read (text : Text) : Option Version :=
  let (ranked, build) := cut '+' text
  let (core, prerelease) := cut '-' ranked
  numbered (core.splitOn '.') prerelease build

variable {mark c : Char} {v : Version} {text : Text} {first second : Ordering} {text part : Text}
  {parts : List Text}

theorem cut_append {left : Text} (h : mark ∉ left) (right : Text) :
    cut mark (left ++ mark :: right) = (left, some right) := by
  have hall : ∀ c ∈ left, decide (c ≠ mark) = true := by
    intro c hc
    exact decide_eq_true fun heq => h (heq ▸ hc)
  have hdrop : (left ++ mark :: right).dropWhile (· ≠ mark) = mark :: right := by
    rw [dropWhile_append_of_pos hall]
    exact dropWhile_cons_of_neg (by simp)
  have htake : (left ++ mark :: right).takeWhile (· ≠ mark) = left := by
    rw [takeWhile_append_of_pos hall, takeWhile_cons_of_neg (by simp), append_nil]
  rw [cut, hdrop, htake]

theorem cut_none (h : mark ∉ text) : cut mark text = (text, none) := by
  have hdrop : text.dropWhile (· ≠ mark) = [] := by
    rw [dropWhile_eq_nil_iff]
    intro c hc
    exact decide_eq_true fun heq => h (heq ▸ hc)
  rw [cut, hdrop]

/-- Every text is cut in one of two ways. -/
theorem cut_cases (mark : Char) (text : Text) :
    (mark ∉ text ∧ cut mark text = (text, none)) ∨
      ∃ left right, mark ∉ left ∧ text = left ++ mark :: right ∧
        cut mark text = (left, some right) := by
  by_cases h : mark ∈ text
  · obtain ⟨left, right, htext, hleft⟩ := eq_append_cons_of_mem h
    refine .inr ⟨left, right, hleft, htext, ?_⟩
    rw [htext]
    exact cut_append hleft right
  · exact .inl ⟨h, cut_none h⟩

theorem notMem_dotted (hmark : mark ≠ '.')
    (h : ∀ part ∈ parts, mark ∉ part) : mark ∉ dotted parts := by
  induction parts with
  | nil => exact not_mem_nil
  | cons first rest ih =>
    have hrest := ih fun part hpart => h part (mem_cons_of_mem _ hpart)
    have hfirst := h first (mem_cons_self ..)
    rcases rest with _ | ⟨second, rest⟩
    · simpa [dotted, List.intercalate] using hfirst
    · intro hmem
      have hcons : dotted (first :: second :: rest) = first ++ '.' :: dotted (second :: rest) := by
        simp [dotted, List.intercalate, List.intersperse]
      rw [hcons, mem_append, mem_cons] at hmem
      rcases hmem with hmem | hmem | hmem
      · exact hfirst hmem
      · exact hmark hmem
      · exact hrest hmem

theorem notMem_part (h : part ∈ text.splitOn '.') : '.' ∉ part := by
  induction text generalizing part with
  | nil =>
    obtain rfl := mem_singleton.mp h
    exact not_mem_nil
  | cons c text ih =>
    rw [splitOn_cons_eq_if_modifyHead] at h
    split at h
    · rcases mem_cons.mp h with rfl | h
      · exact not_mem_nil
      · exact ih h
    · rename_i hc
      rcases hsplit : text.splitOn '.' with _ | ⟨first, rest⟩
      · exact absurd hsplit (splitOn_ne_nil _ _)
      · rw [hsplit, modifyHead_cons] at h
        rcases mem_cons.mp h with rfl | h
        · intro hmem
          rcases mem_cons.mp hmem with heq | hmem
          · exact hc (beq_iff_eq.mpr heq.symm)
          · exact ih (hsplit ▸ mem_cons_self ..) hmem
        · exact ih (hsplit ▸ mem_cons_of_mem _ h)

theorem mem_of_mem_part (h : part ∈ text.splitOn '.') (hc : c ∈ part) : c ∈ text := by
  induction text generalizing part with
  | nil =>
    obtain rfl := mem_singleton.mp h
    exact hc
  | cons d text ih =>
    rw [splitOn_cons_eq_if_modifyHead] at h
    split at h
    · rcases mem_cons.mp h with rfl | h
      · cases hc
      · exact mem_cons_of_mem _ (ih h hc)
    · rcases hsplit : text.splitOn '.' with _ | ⟨first, rest⟩
      · exact absurd hsplit (splitOn_ne_nil _ _)
      · rw [hsplit, modifyHead_cons] at h
        rcases mem_cons.mp h with rfl | h
        · rcases mem_cons.mp hc with rfl | hc
          · exact mem_cons_self ..
          · exact mem_cons_of_mem _ (ih (hsplit ▸ mem_cons_self ..) hc)
        · exact mem_cons_of_mem _ (ih (hsplit ▸ mem_cons_of_mem _ h) hc)

theorem dotted_splitOn (text : Text) : dotted (text.splitOn '.') = text :=
  intercalate_splitOn '.'

theorem splitOn_dotted (hne : parts ≠ []) (h : ∀ part ∈ parts, '.' ∉ part) :
    (dotted parts).splitOn '.' = parts :=
  splitOn_intercalate '.' h hne

theorem dotted_core (v : Version) :
    v.major ++ '.' :: v.minor ++ '.' :: v.patch = dotted [v.major, v.minor, v.patch] := by
  simp [dotted, List.intercalate, List.intersperse]

theorem map_splitOn_dotted {parts : Option (List Text)} {rest : Option Text}
    (h : ∀ list, parts = some list → list ≠ [] ∧ ∀ part ∈ list, '.' ∉ part)
    (hrest : rest = parts.map dotted) : rest.map (List.splitOn '.') = parts := by
  rw [hrest]
  rcases parts with _ | list
  · rfl
  · have hlist := h list rfl
    show some ((dotted list).splitOn '.') = some list
    rw [splitOn_dotted hlist.1 hlist.2]

theorem cut_announced {left : Text} (h : mark ∉ left) (parts : Option (List Text)) :
    cut mark (left ++ announced mark parts) = (left, parts.map dotted) := by
  rcases parts with _ | list
  · rw [announced, append_nil]
    exact cut_none h
  · exact cut_append h _

theorem plus_notMem_ranked (h : v.Separable) : '+' ∉ v.ranked := by
  rw [Version.ranked, dotted_core, mem_append, not_or]
  refine ⟨notMem_dotted (by decide) fun n hn => (h.core n hn).2.2, ?_⟩
  rcases hpre : v.prerelease with _ | parts
  · exact not_mem_nil
  · intro hmem
    rcases mem_cons.mp hmem with heq | hmem
    · exact absurd heq (by decide)
    · exact notMem_dotted (by decide) (fun p hp => ((h.prerelease parts hpre).2 p hp).2) hmem

/-- **Writing a version and reading it back** gives its parts. -/
theorem read_text (h : v.Separable) : read v.text = some v := by
  have hcore : ∀ number ∈ [v.major, v.minor, v.patch], '.' ∉ number := fun n hn => (h.core n hn).1
  have hdash : '-' ∉ dotted [v.major, v.minor, v.patch] :=
    notMem_dotted (by decide) fun n hn => (h.core n hn).2.1
  have hranked : cut '-' v.ranked =
      (dotted [v.major, v.minor, v.patch], v.prerelease.map dotted) := by
    rw [Version.ranked, dotted_core]
    exact cut_announced hdash _
  have hpre := @map_splitOn_dotted v.prerelease _
    (fun list hlist => ⟨(h.prerelease list hlist).1,
      fun part hpart => ((h.prerelease list hlist).2 part hpart).1⟩) rfl
  have hbuild := @map_splitOn_dotted v.build _ h.build rfl
  rw [read, Version.text, cut_announced (plus_notMem_ranked h)]
  show (match cut '-' v.ranked with
    | (core, prerelease) => numbered (core.splitOn '.') prerelease (v.build.map dotted)) = some v
  rw [hranked]
  show numbered ((dotted [v.major, v.minor, v.patch]).splitOn '.') _ _ = some v
  rw [splitOn_dotted (by simp) hcore, numbered, hpre, hbuild]

/-- What a text was cut into, put together again. -/
theorem text_of_cut {text left : Text} {rest : Option Text} (h : cut mark text = (left, rest)) :
    mark ∉ left ∧ text = left ++ announced mark (rest.map (List.splitOn '.')) := by
  rcases cut_cases mark text with ⟨hmark, hcut⟩ | ⟨before, after, hmark, htext, hcut⟩
  · obtain ⟨rfl, rfl⟩ := Prod.mk.inj (hcut.symm.trans h)
    exact ⟨hmark, (append_nil _).symm⟩
  · obtain ⟨rfl, rfl⟩ := Prod.mk.inj (hcut.symm.trans h)
    refine ⟨hmark, ?_⟩
    show text = before ++ mark :: dotted (after.splitOn '.')
    rw [dotted_splitOn]
    exact htext

/-- **Reading a text and writing it back** gives the text. -/
theorem text_of_read (h : read text = some v) : v.text = text ∧ v.Separable := by
  rcases hplus : cut '+' text with ⟨ranked, build⟩
  rcases hdash : cut '-' ranked with ⟨core, prerelease⟩
  have hread : numbered (core.splitOn '.') prerelease build = some v := by
    rw [read, hplus] at h
    show _ = _
    simp only [hdash] at h
    exact h
  obtain ⟨hplusLeft, htext⟩ := text_of_cut hplus
  obtain ⟨hdashLeft, hranked⟩ := text_of_cut hdash
  rcases hsplit : core.splitOn '.' with _ | ⟨major, _ | ⟨minor, _ | ⟨patch, _ | ⟨more, rest⟩⟩⟩⟩
  · rw [hsplit] at hread
    cases hread
  · rw [hsplit] at hread
    cases hread
  · rw [hsplit] at hread
    cases hread
  · rw [hsplit] at hread
    obtain rfl := Option.some.inj hread
    have hcore : core = dotted [major, minor, patch] := by
      rw [← hsplit, dotted_splitOn]
    have hcoreText : core = major ++ '.' :: minor ++ '.' :: patch := by
      rw [hcore]
      simp [dotted, List.intercalate, List.intersperse]
    constructor
    · show (major ++ '.' :: minor ++ '.' :: patch ++ announced '-' _) ++ announced '+' _ = text
      rw [← hcoreText, ← hranked, ← htext]
    · have hmember : ∀ number ∈ [major, minor, patch], number ∈ core.splitOn '.' := by
        intro number hnumber
        rw [hsplit]
        exact hnumber
      refine ⟨?_, ?_, ?_⟩
      · intro number hnumber
        refine ⟨notMem_part (hmember number hnumber), ?_, ?_⟩
        · intro hmem
          exact hdashLeft (mem_of_mem_part (hmember number hnumber) hmem)
        · intro hmem
          refine hplusLeft ?_
          rw [hranked]
          exact mem_append_left _ (mem_of_mem_part (hmember number hnumber) hmem)
      · intro parts hparts
        obtain ⟨written, rfl, rfl⟩ := Option.map_eq_some_iff.mp hparts
        refine ⟨splitOn_ne_nil _ _, ?_⟩
        intro part hpart
        refine ⟨notMem_part hpart, ?_⟩
        intro hmem
        refine hplusLeft ?_
        rw [hranked]
        refine mem_append_right _ (mem_cons_of_mem _ ?_)
        rw [dotted_splitOn]
        exact mem_of_mem_part hpart hmem
      · intro parts hparts
        obtain ⟨written, rfl, rfl⟩ := Option.map_eq_some_iff.mp hparts
        exact ⟨splitOn_ne_nil _ _, fun part hpart => notMem_part hpart⟩
  · rw [hsplit] at hread
    cases hread

/-! ## Which texts are versions -/

def identifierChar (c : Char) : Bool := c.isDigit || c.isAlpha || c == '-'

/-- Nonempty, of letters, digits and hyphens. -/
def Identifier (text : Text) : Prop := text ≠ [] ∧ text.all identifierChar = true

/-- An identifier that has no leading zero where it is a number. -/
def PrereleaseIdentifier (text : Text) : Prop := Identifier text ∧ (Digits text → Canonical text)

/-- A version by the specification's grammar. -/
structure Version.Valid (v : Version) : Prop where
  major : Canonical v.major
  minor : Canonical v.minor
  patch : Canonical v.patch
  prerelease : ∀ parts, v.prerelease = some parts →
    parts ≠ [] ∧ ∀ part ∈ parts, PrereleaseIdentifier part
  build : ∀ parts, v.build = some parts → parts ≠ [] ∧ ∀ part ∈ parts, Identifier part

def Spells (text : Text) (v : Version) : Prop := v.Valid ∧ v.text = text

def Valid (text : Text) : Prop := ∃ v, Spells text v

theorem notMem_of_digits {numeral : Text} (h : Digits numeral) (hc : c.isDigit = false) :
    c ∉ numeral := by
  intro hmem
  rw [h c hmem] at hc
  cases hc

theorem notMem_of_identifier (h : Identifier text) (hc : identifierChar c = false) : c ∉ text := by
  intro hmem
  rw [List.all_eq_true.mp h.2 c hmem] at hc
  cases hc

theorem Version.Valid.separable (h : v.Valid) : v.Separable := by
  refine ⟨?_, ?_, ?_⟩
  · intro number hnumber
    have hdigits : Digits number := by
      rcases mem_cons.mp hnumber with rfl | hnumber
      · exact h.major.digits
      · rcases mem_cons.mp hnumber with rfl | hnumber
        · exact h.minor.digits
        · obtain rfl := mem_singleton.mp hnumber
          exact h.patch.digits
    exact ⟨notMem_of_digits hdigits (by decide), notMem_of_digits hdigits (by decide),
      notMem_of_digits hdigits (by decide)⟩
  · intro parts hparts
    refine ⟨(h.prerelease parts hparts).1, ?_⟩
    intro part hpart
    have hidentifier := ((h.prerelease parts hparts).2 part hpart).1
    exact ⟨notMem_of_identifier hidentifier (by decide),
      notMem_of_identifier hidentifier (by decide)⟩
  · intro parts hparts
    refine ⟨(h.build parts hparts).1, ?_⟩
    intro part hpart
    exact notMem_of_identifier ((h.build parts hparts).2 part hpart) (by decide)

theorem spells_iff : Spells text v ↔ read text = some v ∧ v.Valid := by
  constructor
  · rintro ⟨hvalid, rfl⟩
    exact ⟨read_text hvalid.separable, hvalid⟩
  · rintro ⟨hread, hvalid⟩
    exact ⟨hvalid, (text_of_read hread).1⟩

/-! ## Precedence -/

abbrev IdentifierKey := ℕ ⊕ₗ Text

/-- Numbers rank below other identifiers. -/
def identifierKey (text : Text) : IdentifierKey :=
  if text.all Char.isDigit then toLex (.inl (value text)) else toLex (.inr text)

abbrev Precedence := (ℕ ×ₗ ℕ ×ₗ ℕ) ×ₗ WithTop (List IdentifierKey)

/-- A release outranks any pre-release of the same core. -/
def prereleaseKey : Option (List Text) → WithTop (List IdentifierKey)
  | none => ⊤
  | some parts => (parts.map identifierKey : List IdentifierKey)

def Version.precedence (v : Version) : Precedence :=
  toLex (toLex (value v.major, toLex (value v.minor, value v.patch)), prereleaseKey v.prerelease)

theorem compares_prod {α β : Type} [LinearOrder α] [LinearOrder β]
    {a a' : α} {b b' : β} (hfirst : first.Compares a a') (hsecond : second.Compares b b') :
    (first.then second).Compares (toLex (a, b)) (toLex (a', b')) := by
  refine compares_then ?_ ?_ ?_
  · rintro rfl
    exact Prod.Lex.toLex_lt_toLex.mpr (.inl hfirst)
  · rintro rfl
    exact Prod.Lex.toLex_lt_toLex.mpr (.inl hfirst)
  · rintro rfl
    obtain rfl : a = a' := hfirst
    cases second with
    | lt => exact Prod.Lex.toLex_lt_toLex.mpr (.inr ⟨rfl, hsecond⟩)
    | eq => exact congrArg (fun x => toLex (a, x)) hsecond
    | gt => exact Prod.Lex.toLex_lt_toLex.mpr (.inr ⟨rfl, hsecond⟩)

theorem compares_cons {α : Type} [LinearOrder α] {a b : α}
    {as bs : List α} (hfirst : first.Compares a b) (hsecond : second.Compares as bs) :
    (first.then second).Compares (a :: as) (b :: bs) := by
  refine compares_then ?_ ?_ ?_
  · rintro rfl
    exact cons_lt_cons_iff.mpr (.inl hfirst)
  · rintro rfl
    exact cons_lt_cons_iff.mpr (.inl hfirst)
  · rintro rfl
    obtain rfl : a = b := hfirst
    cases second with
    | lt => exact cons_lt_cons_iff.mpr (.inr ⟨rfl, hsecond⟩)
    | eq => exact congrArg (List.cons a) hsecond
    | gt => exact cons_lt_cons_iff.mpr (.inr ⟨rfl, hsecond⟩)

/-- Two pre-release identifiers of one rank are the same text. -/
theorem identifierKey_injective {left right : Text} (hl : PrereleaseIdentifier left)
    (hr : PrereleaseIdentifier right) (h : identifierKey left = identifierKey right) :
    left = right := by
  unfold identifierKey at h
  split at h
  · rename_i hleft
    split at h
    · rename_i hright
      have hvalue : value left = value right := Sum.inl.inj (toLex.injective h)
      exact value_injective (hl.2 (List.all_eq_true.mp hleft)) (hr.2 (List.all_eq_true.mp hright))
        hvalue
    · exact absurd (toLex.injective h) Sum.inl_ne_inr
  · split at h
    · exact absurd (toLex.injective h) Sum.inr_ne_inl
    · exact Sum.inr.inj (toLex.injective h)

theorem identifierKeys_injective {left right : List Text}
    (hl : ∀ part ∈ left, PrereleaseIdentifier part) (hr : ∀ part ∈ right, PrereleaseIdentifier part)
    (h : left.map identifierKey = right.map identifierKey) : left = right := by
  induction left generalizing right with
  | nil => exact (map_eq_nil_iff.mp h.symm).symm
  | cons a left ih =>
    rcases right with _ | ⟨b, right⟩
    · cases h
    · obtain ⟨hhead, htail⟩ := List.cons.inj h
      rw [identifierKey_injective (hl a (mem_cons_self ..)) (hr b (mem_cons_self ..)) hhead,
        ih (fun part hpart => hl part (mem_cons_of_mem _ hpart))
          (fun part hpart => hr part (mem_cons_of_mem _ hpart)) htail]

/-- Versions of one rank differ in nothing but build metadata. -/
theorem ranked_eq_of_precedence_eq {v w : Version} (hv : v.Valid) (hw : w.Valid)
    (h : v.precedence = w.precedence) : v.ranked = w.ranked := by
  obtain ⟨hcore, hpre⟩ := Prod.mk.inj (toLex.injective h)
  obtain ⟨hmajor, hrest⟩ := Prod.mk.inj (toLex.injective hcore)
  obtain ⟨hminor, hpatch⟩ := Prod.mk.inj (toLex.injective hrest)
  have hprerelease : v.prerelease = w.prerelease := by
    rcases hvpre : v.prerelease with _ | left <;> rcases hwpre : w.prerelease with _ | right
    · rfl
    · rw [hvpre, hwpre] at hpre
      exact absurd hpre.symm (WithTop.coe_ne_top)
    · rw [hvpre, hwpre] at hpre
      exact absurd hpre (WithTop.coe_ne_top)
    · rw [hvpre, hwpre] at hpre
      exact congrArg some (identifierKeys_injective (hv.prerelease left hvpre).2
        (hw.prerelease right hwpre).2 (WithTop.coe_injective hpre))
  rw [Version.ranked, Version.ranked, value_injective hv.major hw.major hmajor,
    value_injective hv.minor hw.minor hminor, value_injective hv.patch hw.patch hpatch, hprerelease]

end SemVer
