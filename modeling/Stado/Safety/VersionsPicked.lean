import Mathlib.Data.List.TakeWhile
import Stado.Kompilator.Lock
import Stado.Library.Requirements

/-!
# Which locked version a requirement picks

The resolver compares the first number of a requirement (the first two after a
zero) with those of the locked versions. The picks are right exactly when the
first version that agrees with the requirement in these numbers is one it
accepts, and a lone candidate is one too.
-/

namespace Stado.Kompilator

open Directory (isDigit)
open Requirements List Option Written

/-! ## The line in numbers -/

/-- What `lineOf` keeps of a version: its major, or the minor of a `0.minor`. -/
inductive VersionLine where
  | major (major : ℕ)
  | minor (minor : ℕ)
deriving DecidableEq

def VersionLine.text : VersionLine → Text
  | major m => numeral m
  | minor n => '0' :: '.' :: numeral n

def lineOfTriple (v : Triple) : VersionLine :=
  if v.major = 0 then .minor v.minor else .major v.major

def lineOfComparator (c : Comparator) : Option VersionLine :=
  if c.written.first = 0 then
    (c.written.second.or (if c.stars = [] then some 0 else none)).map .minor
  else some (.major c.written.first)

def lineOfRequirement : Requirement → Option VersionLine
  | .any => none
  | .all first _ => lineOfComparator first

variable {c : Char} {n : ℕ}

theorem isDigit_numeral (h : c ∈ numeral n) : isDigit c = true := by
  have hdigit := Nat.isDigit_of_mem_toDigits (by decide) (by decide) h
  simp only [Char.isDigit, Bool.and_eq_true, decide_eq_true_eq] at hdigit
  simp only [isDigit, Bool.and_eq_true, decide_eq_true_eq]
  exact hdigit

theorem numeral_eq_zero : numeral n = ['0'] ↔ n = 0 := by
  constructor
  · intro h
    exact numeral_inj (h.trans (by decide))
  · rintro rfl
    decide

theorem VersionLine.text_inj {l l' : VersionLine} (h : l.text = l'.text) : l = l' := by
  have hdot : ∀ m n, numeral m ≠ '0' :: '.' :: numeral n := by
    intro m n heq
    exact dot_notMem_numeral m (heq ▸ mem_cons_of_mem _ mem_cons_self)
  cases l with
  | major m =>
    cases l' with
    | major m' => rw [numeral_inj h]
    | minor n => exact absurd h (hdot m n)
  | minor n =>
    cases l' with
    | major m => exact absurd h.symm (hdot m n)
    | minor n' =>
      have htail : numeral n = numeral n' := (List.cons.inj (List.cons.inj h).2).2
      rw [numeral_inj htail]

/-! ## The line of a text -/

/-- The line of the numbers between the dots. -/
def lineOfParts (parts : List Text) : Text :=
  let major := parts.head?.getD ['0']
  if major = ['0'] then '0' :: '.' :: parts[1]?.getD ['0'] else major

theorem lineOf_core {lead core rest : Text} (hlead : ∀ c ∈ lead, isDigit c = false)
    (hfirst : ∀ c ∈ core.head?, isDigit c = true) (hne : core ≠ [])
    (hcore : ∀ c ∈ core, (isDigit c || decide (c = '.')) = true)
    (hrest : ∀ c ∈ rest.head?, (isDigit c || decide (c = '.')) = false) :
    lineOf (lead ++ (core ++ rest)) = lineOfParts (core.splitOn '.') := by
  have hdrop : (lead ++ (core ++ rest)).dropWhile (fun c => !isDigit c) = core ++ rest := by
    have hskip : ∀ c ∈ lead, (!isDigit c) = true := by
      intro c hc
      rw [hlead c hc]
      rfl
    rw [dropWhile_append_of_pos hskip]
    obtain ⟨c, core', rfl⟩ := exists_cons_of_ne_nil hne
    have hc : isDigit c = true := hfirst c rfl
    rw [cons_append, dropWhile_cons_of_neg (by simp [hc])]
  have htake : (core ++ rest).takeWhile (fun c => isDigit c || decide (c = '.')) = core := by
    rw [takeWhile_append_of_pos hcore]
    cases rest with
    | nil => simp
    | cons c rest =>
      have hc : (isDigit c || decide (c = '.')) = false := hrest c rfl
      rw [takeWhile_cons_of_neg (by simp [hc]), append_nil]
  show lineOfParts ((((lead ++ (core ++ rest)).dropWhile fun c => !isDigit c).takeWhile
    fun c => isDigit c || decide (c = '.')).splitOn '.') = _
  rw [hdrop, htake]

/-- After a major the line asks only for the part that follows it. -/
theorem lineOfParts_cons (m : ℕ) (later : List Text) :
    lineOfParts (numeral m :: later) =
      if m = 0 then '0' :: '.' :: later.head?.getD ['0'] else numeral m := by
  show (if numeral m = ['0'] then _ else _) = _
  by_cases hzero : m = 0
  · rw [if_pos hzero, if_pos (numeral_eq_zero.mpr hzero)]
    cases later <;> rfl
  · rw [if_neg hzero, if_neg (fun h => hzero (numeral_eq_zero.mp h))]
    rfl

theorem core_numeral (n : ℕ) : ∀ c ∈ numeral n, (isDigit c || decide (c = '.')) = true := by
  intro c hc
  rw [isDigit_numeral hc]
  rfl

theorem lineOf_version (v : Triple) : lineOf v.text = (lineOfTriple v).text := by
  have hcore : ∀ c ∈ v.text, (isDigit c || decide (c = '.')) = true := by
    intro c hc
    simp only [Triple.text, append_assoc, cons_append, mem_append, mem_cons] at hc
    rcases hc with hc | rfl | hc | rfl | hc
    · exact core_numeral _ c hc
    · decide
    · exact core_numeral _ c hc
    · decide
    · exact core_numeral _ c hc
  obtain ⟨d, digits, hdigits⟩ := exists_cons_of_ne_nil (numeral_ne_nil v.major)
  have hhead : v.text.head? = some d := by
    simp [Triple.text, hdigits]
  have hread : lineOf ([] ++ (v.text ++ [])) = lineOfParts (v.text.splitOn '.') := by
    refine lineOf_core (by simp) ?_ ?_ hcore (by simp)
    · intro c hc
      rw [hhead, mem_some_iff] at hc
      exact isDigit_numeral (hc ▸ hdigits ▸ mem_cons_self)
    · intro h
      rw [h] at hhead
      cases hhead
  rw [nil_append, append_nil, v.splitOn_text, lineOfParts_cons] at hread
  rw [hread, lineOfTriple]
  by_cases hzero : v.major = 0
  · rw [if_pos hzero, if_pos hzero]
    rfl
  · rw [if_neg hzero, if_neg hzero]
    rfl

/-- The parts of a comparator's numbers, with the dot of a star or without. -/
theorem parts_written (w : Written) {tail : Text} (h : tail = [] ∨ tail = ['.']) :
    ∃ later, (w.text ++ tail).splitOn '.' = numeral w.first :: later ∧ later.head? =
        (w.second.map numeral).or (if tail = [] then none else some []) := by
  have htail : ∀ n, ∃ later, (numeral n ++ tail).splitOn '.' = numeral n :: later ∧
      later.head? = if tail = [] then none else some [] := by
    intro n
    rcases h with rfl | rfl
    · refine ⟨[], ?_, rfl⟩
      rw [append_nil, splitOn_word (dot_notMem_numeral n)]
    · refine ⟨[[]], ?_, rfl⟩
      rw [splitOn_dot (dot_notMem_numeral n)]
      rfl
  cases w with
  | major m => exact htail m
  | minor m n =>
    obtain ⟨later, hlater, -⟩ := htail n
    refine ⟨numeral n :: later, ?_, rfl⟩
    have htext : (minor m n).text ++ tail = numeral m ++ '.' :: (numeral n ++ tail) := by
      simp [text]
    rw [htext, splitOn_dot (dot_notMem_numeral m), hlater]
    rfl
  | patch m n p =>
    obtain ⟨later, hlater, -⟩ := htail p
    refine ⟨numeral n :: numeral p :: later, ?_, rfl⟩
    have htext : (patch m n p).text ++ tail =
        numeral m ++ '.' :: (numeral n ++ '.' :: (numeral p ++ tail)) := by
      simp [text]
    rw [htext, splitOn_dot (dot_notMem_numeral m), splitOn_dot (dot_notMem_numeral n), hlater]
    rfl

theorem core_written (w : Written) {tail : Text} (h : tail = [] ∨ tail = ['.']) :
    ∀ c ∈ w.text ++ tail, (isDigit c || decide (c = '.')) = true := by
  intro c hc
  have htail : c ∈ tail → (isDigit c || decide (c = '.')) = true := by
    intro hmem
    rcases h with rfl | rfl
    · cases hmem
    · rw [mem_singleton.mp hmem]
      decide
  have hdot : c = '.' → (isDigit c || decide (c = '.')) = true := by
    rintro rfl
    decide
  rcases mem_append.mp hc with hc | hc
  · cases w with
    | major m => exact core_numeral _ c hc
    | minor m n =>
      simp only [text, mem_append, mem_cons] at hc
      rcases hc with hc | hc | hc
      · exact core_numeral _ c hc
      · exact hdot hc
      · exact core_numeral _ c hc
    | patch m n p =>
      simp only [text, append_assoc, cons_append, mem_append, mem_cons] at hc
      rcases hc with hc | hc | hc | hc | hc
      · exact core_numeral _ c hc
      · exact hdot hc
      · exact core_numeral _ c hc
      · exact hdot hc
      · exact core_numeral _ c hc
  · exact htail hc

theorem head_written (w : Written) (tail : Text) :
    ∃ d, (w.text ++ tail).head? = some d ∧ isDigit d = true := by
  obtain ⟨d, digits, hdigits⟩ := exists_cons_of_ne_nil (numeral_ne_nil w.first)
  refine ⟨d, ?_, isDigit_numeral (hdigits ▸ mem_cons_self)⟩
  cases w <;> simp_all [text, first]

/-- The line read from a comparator is the one its numbers give. -/
theorem lineOf_comparator (c : Comparator) {lead rest : Text}
    (hlead : ∀ d ∈ lead, isDigit d = false)
    (hrest : ∀ d ∈ rest.head?, (isDigit d || decide (d = '.')) = false) (l : VersionLine) :
    lineOf (lead ++ (c.written.text ++ (starText c.stars ++ rest))) = l.text ↔
      lineOfComparator c = some l := by
  obtain ⟨tail, rest', htail, hnil, hsplit, hhead⟩ : ∃ tail rest' : Text,
      (tail = [] ∨ tail = ['.']) ∧ (tail = [] ↔ c.stars = []) ∧
        starText c.stars ++ rest = tail ++ rest' ∧
        ∀ d ∈ rest'.head?, (isDigit d || decide (d = '.')) = false := by
    cases hstars : c.stars with
    | nil => exact ⟨[], rest, .inl rfl, by simp, rfl, hrest⟩
    | cons star stars =>
      refine ⟨['.'], star :: (starText stars ++ rest), .inr rfl, by simp, by simp [starText], ?_⟩
      intro d hd
      have hstar : star = d := by simpa using hd
      rcases hstar ▸ c.starred star (hstars ▸ mem_cons_self) with rfl | rfl | rfl <;> decide
  obtain ⟨later, hlater, hsecond⟩ := parts_written c.written htail
  obtain ⟨d, hd, hdigit⟩ := head_written c.written tail
  have hread : lineOf (lead ++ (c.written.text ++ (starText c.stars ++ rest))) =
      lineOfParts ((c.written.text ++ tail).splitOn '.') := by
    rw [hsplit, ← append_assoc c.written.text]
    refine lineOf_core hlead ?_ ?_ (core_written c.written htail) hhead
    · intro d' hd'
      rw [hd, mem_some_iff] at hd'
      rw [← hd', hdigit]
    · intro h
      rw [h] at hd
      cases hd
  rw [hread, hlater, lineOfParts_cons, hsecond, lineOfComparator]
  by_cases hzero : c.written.first = 0
  · rw [if_pos hzero, if_pos hzero]
    cases hwritten : c.written.second with
    | some n =>
      show VersionLine.text (.minor n) = l.text ↔ some (VersionLine.minor n) = some l
      exact ⟨fun h => congrArg some (VersionLine.text_inj h), fun h => congrArg VersionLine.text
        (Option.some.inj h)⟩
    | none =>
      by_cases hstars : c.stars = []
      · rw [if_pos (hnil.mpr hstars), if_pos hstars]
        show VersionLine.text (.minor 0) = l.text ↔ some (VersionLine.minor 0) = some l
        exact ⟨fun h => congrArg some (VersionLine.text_inj h), fun h => congrArg VersionLine.text
          (Option.some.inj h)⟩
      · rw [if_neg (fun h => hstars (hnil.mp h)), if_neg hstars]
        show ['0', '.'] = l.text ↔ none = some l
        refine ⟨fun h => ?_, fun h => nomatch h⟩
        cases l with
        | major m =>
          have hdot : '.' ∈ numeral m := by
            rw [show numeral m = ['0', '.'] from h.symm]
            decide
          exact absurd hdot (dot_notMem_numeral m)
        | minor n => exact absurd (List.cons.inj (List.cons.inj h).2).2.symm (numeral_ne_nil n)
  · rw [if_neg hzero, if_neg hzero]
    show VersionLine.text (.major c.written.first) = l.text ↔ _
    exact ⟨fun h => congrArg some (VersionLine.text_inj h), fun h => congrArg VersionLine.text
      (Option.some.inj h)⟩

theorem isDigit_blanks (h : c ∈ blanks n) : isDigit c = false := by
  rw [eq_of_mem_replicate h]
  decide

theorem isDigit_op {op : Op} (h : c ∈ op.text) : isDigit c = false := by
  have hall : (op.text.all fun d => !isDigit d) = true := by
    cases op <;> decide
  simpa using List.all_eq_true.mp hall c h

/-- What follows the numbers and the stars of a comparator reads as no number. -/
theorem head_after (after : ℕ) {more : Text} (h : more = [] ∨ ∃ text, more = ',' :: text) :
    ∀ d ∈ (blanks after ++ more).head?, (isDigit d || decide (d = '.')) = false := by
  intro d hd
  cases after with
  | zero =>
    rcases h with rfl | ⟨text, rfl⟩
    · cases hd
    · have hcomma : ',' = d := by simpa [blanks] using hd
      rw [← hcomma]
      decide
  | succ n =>
    have hblank : ' ' = d := by simpa [blanks, replicate_succ] using hd
    rw [← hblank]
    decide

variable {r : Requirement} {text : Text}

theorem lineOf_requirement (h : r.Prints text) (l : VersionLine) :
    lineOf text = l.text ↔ lineOfRequirement r = some l := by
  cases h with
  | any before after star hstar =>
    have hnone : ∀ c ∈ blanks before ++ star :: blanks after, isDigit c = false := by
      intro c hc
      simp only [mem_append, mem_cons] at hc
      rcases hc with hc | rfl | hc
      · exact isDigit_blanks hc
      · rcases hstar with rfl | rfl | rfl <;> decide
      · exact isDigit_blanks hc
    have hempty : lineOf (blanks before ++ star :: blanks after) = [] := by
      have hdrop : (blanks before ++ star :: blanks after).dropWhile (fun c => !isDigit c) = [] :=
        dropWhile_eq_nil_iff.mpr fun c hc => by
          rw [hnone c hc]
          rfl
      rw [lineOf, hdrop]
      rfl
    rw [hempty]
    refine ⟨fun hl => ?_, fun hl => nomatch hl⟩
    cases l with
    | major m => exact absurd hl.symm (numeral_ne_nil m)
    | minor n => cases hl
  | @all first later text texts hfirst hlater =>
    obtain ⟨before, gap, after, rfl⟩ := hfirst
    obtain ⟨more, hmore, hjoin⟩ : ∃ more : Text, (more = [] ∨ ∃ text, more = ',' :: text) ∧
        ∀ text : Text, [','].intercalate (text :: texts) = text ++ more := by
      cases texts with
      | nil => exact ⟨[], .inl rfl, fun text => by simp⟩
      | cons second texts =>
        exact ⟨',' :: [','].intercalate (second :: texts), .inr ⟨_, rfl⟩, fun text => by simp⟩
    have hlead : ∀ d ∈ blanks before ++ first.op.text ++ blanks gap, isDigit d = false := by
      intro d hd
      simp only [mem_append] at hd
      rcases hd with (hd | hd) | hd
      · exact isDigit_blanks hd
      · exact isDigit_op hd
      · exact isDigit_blanks hd
    have hread := lineOf_comparator first hlead (head_after after hmore) l
    rw [hjoin, append_assoc (blanks before ++ first.op.text ++ blanks gap),
      append_assoc (first.written.text ++ starText first.stars),
      append_assoc first.written.text]
    exact hread

/-! ## The pick -/

structure Numbered where
  package : Package
  triple : Triple
  written : package.version = triple.text

theorem lineOf_candidate (h : r.Prints text) (c : Numbered) :
    some (lineOf c.package.version) = some (lineOf text) ↔
      lineOfRequirement r = some (lineOfTriple c.triple) := by
  rw [c.written, lineOf_version, ← lineOf_requirement h]
  exact ⟨fun heq => (Option.some.inj heq).symm, fun heq => congrArg some heq.symm⟩

/-- A candidate the requirement accepts is picked where it is the only one, and
nothing it does not accept is picked. -/
structure PicksRight (package : Package) (dependency : Wanted) (r : Requirement)
    (candidates : List Numbered) : Prop where
  sole : ∀ c ∈ candidates, r.Accepts c.triple →
    (∀ c' ∈ candidates, r.Accepts c'.triple → c'.package = c.package) →
      choose package dependency (candidates.map Numbered.package) = .ok (some c.package)
  accepted : ∀ p, choose package dependency (candidates.map Numbered.package) = .ok (some p) →
    ∃ c ∈ candidates, c.package = p ∧ r.Accepts c.triple

structure Decided (r : Requirement) (candidates : List Numbered) : Prop where
  lone : ∀ c, candidates = [c] → r.Accepts c.triple
  first : ∀ earlier c later, candidates = earlier ++ c :: later → 2 ≤ candidates.length →
    lineOfRequirement r = some (lineOfTriple c.triple) →
    (∀ e ∈ earlier, lineOfRequirement r ≠ some (lineOfTriple e.triple)) → r.Accepts c.triple
  off : 2 ≤ candidates.length →
    (∀ c ∈ candidates, lineOfRequirement r ≠ some (lineOfTriple c.triple)) →
      ∀ c ∈ candidates, r.Accepts c.triple →
        ∃ c' ∈ candidates, r.Accepts c'.triple ∧ c'.package ≠ c.package

theorem choose_several (package : Package) (dependency : Wanted) {candidates : List Package}
    (h : 2 ≤ candidates.length) :
    ((∃ c, candidates.find? (fun c => some (lineOf c.version) = dependency.requirement.map lineOf)
        = some c ∧ choose package dependency candidates = .ok (some c)) ∨
      candidates.find? (fun c => some (lineOf c.version) = dependency.requirement.map lineOf) = none
        ∧ ∃ e, choose package dependency candidates = .error e) := by
  match candidates, h with
  | first :: second :: rest, _ =>
    cases hfind : (first :: second :: rest).find?
        (fun c => some (lineOf c.version) = dependency.requirement.map lineOf) with
    | none =>
      refine .inr ⟨rfl, ?_⟩
      simp only [choose, hfind]
      exact ⟨_, rfl⟩
    | some c =>
      refine .inl ⟨c, rfl, ?_⟩
      simp only [choose, hfind]

theorem choose_eq (package : Package) (dependency : Wanted)
    (hprints : r.Prints text) (hwanted : dependency.requirement = some text)
    {candidates : List Numbered} (h : 2 ≤ candidates.length) :
    (∃ earlier c later, candidates = earlier ++ c :: later ∧
        lineOfRequirement r = some (lineOfTriple c.triple) ∧
        (∀ e ∈ earlier, lineOfRequirement r ≠ some (lineOfTriple e.triple)) ∧
        choose package dependency (candidates.map Numbered.package) = .ok (some c.package)) ∨
      (∀ c ∈ candidates, lineOfRequirement r ≠ some (lineOfTriple c.triple)) ∧
        ∃ e, choose package dependency (candidates.map Numbered.package) = .error e := by
  have hlength : 2 ≤ (candidates.map Numbered.package).length := by
    rw [length_map]
    exact h
  have hon : ∀ c : Numbered,
      some (lineOf c.package.version) = dependency.requirement.map lineOf ↔
        lineOfRequirement r = some (lineOfTriple c.triple) := by
    intro c
    rw [hwanted]
    exact lineOf_candidate hprints c
  rcases choose_several package dependency hlength with ⟨p, hfind, hchoose⟩ | ⟨hfind, e, hchoose⟩
  · rw [List.find?_map, map_eq_some_iff] at hfind
    obtain ⟨c, hfind, rfl⟩ := hfind
    obtain ⟨hline, earlier, later, heq, hearlier⟩ := List.find?_eq_some_iff_append.mp hfind
    refine .inl ⟨earlier, c, later, heq, (hon c).mp (by simpa using hline), ?_, hchoose⟩
    intro e he hline'
    have hnot := hearlier e he
    rw [Bool.not_eq_true'] at hnot
    exact of_decide_eq_false hnot ((hon e).mpr hline')
  · refine .inr ⟨?_, e, hchoose⟩
    intro c hc hline
    rw [List.find?_eq_none] at hfind
    exact hfind c.package (List.mem_map_of_mem hc) (decide_eq_true ((hon c).mpr hline))

/-- The picks are right exactly when the first numbers decide as the
requirement does. -/
theorem versions_picked (package : Package) (dependency : Wanted) (r : Requirement) (text : Text)
    (candidates : List Numbered) (hprints : r.Prints text)
    (hwanted : dependency.requirement = some text) :
    PicksRight package dependency r candidates ↔ Decided r candidates := by
  constructor
  · intro h
    refine ⟨?_, ?_, ?_⟩
    · rintro c rfl
      obtain ⟨c', hc', -, haccepts⟩ := h.accepted c.package rfl
      rw [mem_singleton.mp hc'] at haccepts
      exact haccepts
    · intro earlier c later heq hlength hline hearlier
      rcases choose_eq package dependency hprints hwanted hlength with
        ⟨earlier', c', later', heq', hline', hearlier', hchoose⟩ | ⟨hoff, -⟩
      · have hsame : c' = c := by
          have hfind : ∀ (e : List Numbered) (x : Numbered) (l : List Numbered),
              candidates = e ++ x :: l → lineOfRequirement r = some (lineOfTriple x.triple) →
              (∀ y ∈ e, lineOfRequirement r ≠ some (lineOfTriple y.triple)) →
              candidates.find? (fun y => lineOfRequirement r = some (lineOfTriple y.triple))
                = some x := by
            intro e x l hsplit hx he
            refine List.find?_eq_some_iff_append.mpr ⟨decide_eq_true hx, e, l, hsplit, ?_⟩
            intro y hy
            simp [he y hy]
          have hfirst := hfind earlier c later heq hline hearlier
          rw [hfind earlier' c' later' heq' hline' hearlier'] at hfirst
          exact Option.some.inj hfirst
        obtain ⟨c'', -, hpackage, haccepts⟩ := h.accepted c'.package hchoose
        have htriple : c''.triple = c.triple := by
          have htext : c''.triple.text = c.triple.text := by
            rw [← c''.written, ← c.written, hpackage, hsame]
          exact Triple.text_inj htext
        rw [← htriple]
        exact haccepts
      · exact absurd hline (hoff c (heq ▸ by simp))
    · intro hlength hoff c hc haccepts
      by_contra hnone
      have hsole := h.sole c hc haccepts fun c' hc' haccepts' => by
        by_contra hne
        exact hnone ⟨c', hc', haccepts', hne⟩
      rcases choose_eq package dependency hprints hwanted hlength with
        ⟨earlier, c', later, heq, hline, -, -⟩ | ⟨-, e, hchoose⟩
      · exact hoff c' (heq ▸ by simp) hline
      · rw [hsole] at hchoose
        cases hchoose
  · intro h
    rcases candidates with _ | ⟨first, _ | ⟨second, rest⟩⟩
    · refine ⟨(fun c hc => nomatch hc), ?_⟩
      intro p hp
      by_cases hoptional : dependency.optional = true
      · simp [choose, hoptional] at hp
      · simp [choose, hoptional] at hp
    · refine ⟨?_, ?_⟩
      · intro c hc haccepts hsole
        rw [mem_singleton.mp hc]
        rfl
      · intro p hp
        exact ⟨first, mem_singleton.mpr rfl, Option.some.inj (Except.ok.inj hp), h.lone first rfl⟩
    · have hlength : 2 ≤ (first :: second :: rest).length := Nat.le_add_left 2 _
      rcases choose_eq package dependency hprints hwanted hlength with
        ⟨earlier, c, later, heq, hline, hearlier, hchoose⟩ | ⟨hoff, e, hchoose⟩
      · have haccepts : r.Accepts c.triple := h.first earlier c later heq hlength hline hearlier
        have hmem : c ∈ first :: second :: rest := heq ▸ by simp
        refine ⟨?_, ?_⟩
        · intro c' hc' haccepts' hsole
          rw [hchoose, hsole c hmem haccepts]
        · intro p hp
          rw [hchoose] at hp
          exact ⟨c, hmem, Option.some.inj (Except.ok.inj hp), haccepts⟩
      · refine ⟨?_, ?_⟩
        · intro c hc haccepts hsole
          obtain ⟨c', hc', haccepts', hne⟩ := h.off hlength hoff c hc haccepts
          exact absurd (hsole c' hc' haccepts') hne
        · intro p hp
          rw [hchoose] at hp
          cases hp

/-! ## Where the first numbers decide -/

def zeroMajor : Comparator :=
  ⟨.bare, .major 0, [], forall_mem_nil _, by decide⟩

def serdeOne : Numbered := ⟨⟨"serde".toList, "1.2.0".toList, none, []⟩, ⟨1, 2, 0⟩, by decide⟩

def serdeZero : Numbered := ⟨⟨"serde".toList, "0.3.1".toList, none, []⟩, ⟨0, 3, 1⟩, by decide⟩

def application : Package :=
  ⟨"app".toList, "0.1.0".toList, none, ["serde 0.3.1".toList, "serde 1.2.0".toList]⟩

def anyZero : Wanted := ⟨"serde".toList, some ['0'], false⟩

theorem prints_zero : (Requirement.all zeroMajor []).Prints ['0'] := by
  have hzero : zeroMajor.Prints ['0'] := ⟨0, 0, 0, by decide⟩
  exact Requirement.Prints.all hzero List.Forall₂.nil

/-- `serde = "0"` picks nothing of 0.3.1 and 1.2.0. -/
theorem zeroMajor_unpicked :
    (Requirement.all zeroMajor []).Prints ['0'] ∧
      ¬PicksRight application anyZero (.all zeroMajor []) [serdeZero, serdeOne] := by
  refine ⟨prints_zero, fun h => ?_⟩
  have haccepts : ∀ c ∈ [serdeZero, serdeOne],
      (Requirement.all zeroMajor []).Accepts c.triple ↔ c = serdeZero := by
    intro c hc
    have hwithin : (Requirement.all zeroMajor []).Accepts c.triple ↔
        c.triple.Within ⟨0, 0, 0⟩ ⟨1, 0, 0⟩ := by
      constructor
      · intro hall
        exact hall zeroMajor mem_cons_self
      · intro hzero c' hc'
        rw [mem_singleton.mp hc']
        exact hzero
    rw [hwithin]
    rcases mem_cons.mp hc with rfl | hc
    · exact ⟨fun _ => rfl, fun _ => by decide⟩
    · rw [mem_singleton.mp hc]
      refine ⟨fun hone => absurd hone (by decide), fun heq => ?_⟩
      exact absurd (congrArg Numbered.triple heq) (by decide)
  have hsole := h.sole serdeZero mem_cons_self
    ((haccepts serdeZero mem_cons_self).mpr rfl) fun c' hc' haccepts' => by
      rw [(haccepts c' hc').mp haccepts']
  have hlength : 2 ≤ [serdeZero, serdeOne].length := by decide
  rcases choose_eq application anyZero prints_zero rfl hlength with
    ⟨earlier, c, later, heq, hline, -, -⟩ | ⟨-, e, hchoose⟩
  · have hmem : c ∈ [serdeZero, serdeOne] := heq ▸ by simp
    rcases mem_cons.mp hmem with rfl | hmem
    · exact absurd hline (by decide)
    · rw [mem_singleton.mp hmem] at hline
      exact absurd hline (by decide)
  · rw [hsole] at hchoose
    cases hchoose

theorem one_picked :
    PicksRight application anyZero (.all zeroMajor []) [serdeZero] ↔
      Decided (.all zeroMajor []) [serdeZero] :=
  versions_picked application anyZero (.all zeroMajor []) ['0'] [serdeZero] prints_zero rfl

end Stado.Kompilator
