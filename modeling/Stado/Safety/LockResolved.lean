import Mathlib.Data.List.Nodup
import Stado.Kompilator.Lock

/-!
# Which package a line means

A dependency line names one package of the lock. The lookup reads its name and
its version and passes over its source, and the index is by name and version
too: both are right exactly on the locks no two packages of which share both.
-/

namespace Stado.Kompilator

open List

/-! ## Lines -/

/-- A dependency line, as specific as the lock needs it to be. -/
inductive Line where
  | name (name : Text)
  | version (name version : Text)
  | source (name version source : Text)
deriving DecidableEq

namespace Line

def render : Line → Text
  | name n => n
  | version n v => n ++ ' ' :: v
  | source n v s => n ++ ' ' :: (v ++ ' ' :: '(' :: (s ++ [')']))

def Says : Line → Package → Prop
  | name n, package => package.name = n
  | version n v, package => package.name = n ∧ package.version = v
  | source n v s, package => package.name = n ∧ package.version = v ∧ package.source = some s

def Designates (packages : List Package) (line : Line) (package : Package) : Prop :=
  package ∈ packages ∧ line.Says package ∧ ∀ other ∈ packages, line.Says other → other = package

end Line

/-- What a lock may list: names and versions are words, and no package is listed
twice. -/
structure Listed (packages : List Package) : Prop where
  word : ∀ package ∈ packages, OneWord package.name ∧ OneWord package.version
  nodup : packages.Nodup
  single : ∀ package ∈ packages, ∀ other ∈ packages, package.name = other.name →
    package.version = other.version → package.source = other.source → package = other

def LooksUp (packages : List Package) : Prop :=
  ∀ line package, Line.Designates packages line package →
    Lock.resolve packages line.render = .ok package

def Indexed (packages : List Package) : Prop :=
  ∀ package ∈ packages, ∀ other ∈ packages, package.id = other.id → package = other

def Apart (packages : List Package) : Prop :=
  ∀ package ∈ packages, ∀ other ∈ packages, package.name = other.name →
    package.version = other.version → package = other

variable {packages : List Package}

/-! ## The lookup -/

theorem filter_eq_singleton {α : Type} {xs : List α} {p : α → Bool} {a : α} (hnodup : xs.Nodup)
    (hmem : a ∈ xs) (hp : ∀ b ∈ xs, p b = true ↔ b = a) : xs.filter p = [a] := by
  have hperm : (xs.filter p).Perm [a] := by
    rw [perm_ext_iff_of_nodup (hnodup.filter p) (nodup_singleton a)]
    intro b
    rw [mem_filter, mem_singleton]
    constructor
    · rintro ⟨hb, hpb⟩
      exact (hp b hb).mp hpb
    · rintro rfl
      exact ⟨hmem, (hp b hmem).mpr rfl⟩
  exact perm_singleton.mp hperm

/-- What the lookup keeps of a name and of the version that follows it. -/
theorem resolve_eq_ok (hnodup : packages.Nodup) {line name : Text} {later : List Text}
    (hwords : splitWhitespace line = name :: later) {package : Package} (hmem : package ∈ packages)
    (hkept : ∀ other ∈ packages,
      (other.name = name ∧ ∀ wanted, later.head? = some wanted → other.version = wanted) ↔
        other = package) : Lock.resolve packages line = .ok package := by
  have hfilter : (packages.filter fun other =>
      other.name = name ∧ later.head?.all fun wanted => other.version = wanted) = [package] := by
    refine filter_eq_singleton hnodup hmem ?_
    intro other hother
    rw [decide_eq_true_iff, ← hkept other hother]
    refine and_congr_right fun _ => ?_
    cases later.head? with
    | _ => simp
  rw [Lock.resolve, hwords]
  dsimp only
  rw [hfilter]

section

variable (hlisted : Listed packages)

include hlisted

theorem Apart.looksUp (hapart : Apart packages) : LooksUp packages := by
  rintro line package ⟨hmem, hsays, honly⟩
  obtain ⟨hname, hversion⟩ := hlisted.word package hmem
  cases line with
  | name n =>
    obtain rfl : package.name = n := hsays
    refine resolve_eq_ok hlisted.nodup (splitWhitespace_word hname) hmem ?_
    intro other hother
    constructor
    · rintro ⟨hsame, -⟩
      exact honly other hother hsame
    · rintro rfl
      exact ⟨rfl, nofun⟩
  | version n v =>
    obtain ⟨rfl, rfl⟩ : package.name = n ∧ package.version = v := hsays
    have hwords := splitWhitespace_cons hname package.version
    rw [splitWhitespace_word hversion] at hwords
    refine resolve_eq_ok hlisted.nodup hwords hmem ?_
    intro other hother
    constructor
    · rintro ⟨hsame, hwanted⟩
      exact hapart other hother package hmem hsame (hwanted _ rfl)
    · rintro rfl
      exact ⟨rfl, fun wanted hwanted => Option.some.inj hwanted⟩
  | source n v s =>
    obtain ⟨rfl, rfl, -⟩ : package.name = n ∧ package.version = v ∧ _ := hsays
    have hwords := splitWhitespace_cons hname (package.version ++ ' ' :: '(' :: (s ++ [')']))
    rw [splitWhitespace_cons hversion] at hwords
    refine resolve_eq_ok hlisted.nodup hwords hmem ?_
    intro other hother
    constructor
    · rintro ⟨hsame, hwanted⟩
      exact hapart other hother package hmem hsame (hwanted _ rfl)
    · rintro rfl
      exact ⟨rfl, fun wanted hwanted => Option.some.inj hwanted⟩

/-- Two packages that share name and version are told apart by a source, and the
line that names it is refused. -/
theorem resolve_twice {package other : Package}
    (hmem : package ∈ packages) (hother : other ∈ packages) (hne : package ≠ other)
    (hname : package.name = other.name) (hversion : package.version = other.version) (source : Text) :
    Lock.resolve packages (Line.source package.name package.version source).render ≠ .ok package := by
  obtain ⟨hword, hversionWord⟩ := hlisted.word package hmem
  have hwords := splitWhitespace_cons hword (package.version ++ ' ' :: '(' :: (source ++ [')']))
  rw [splitWhitespace_cons hversionWord] at hwords
  intro hresolved
  rw [Lock.resolve, Line.render, hwords] at hresolved
  dsimp only at hresolved
  have hboth : ∀ found ∈ [package, other], found ∈ packages.filter fun found =>
      found.name = package.name ∧ (some package.version).all fun wanted => found.version = wanted := by
    intro found hfound
    rw [mem_filter]
    rcases mem_cons.mp hfound with rfl | hfound
    · exact ⟨hmem, by simp⟩
    · rw [mem_singleton.mp hfound]
      exact ⟨hother, by simp [hname, hversion]⟩
  rw [List.head?_cons] at hresolved
  split at hresolved
  · rename_i only hfilter
    rw [hfilter] at hboth
    have hfirst := mem_singleton.mp (hboth package mem_cons_self)
    have hsecond := mem_singleton.mp (hboth other (mem_cons_of_mem _ mem_cons_self))
    exact hne (hfirst.trans hsecond.symm)
  · cases hresolved
  · cases hresolved

theorem LooksUp.apart (h : LooksUp packages) : Apart packages := by
  intro package hmem other hother hname hversion
  by_contra hne
  have hsource : package.source ≠ other.source :=
    fun hsource => hne (hlisted.single package hmem other hother hname hversion hsource)
  have hdesignates : ∀ (first : Package) (source : Text), first ∈ packages →
      first.source = some source →
      Line.Designates packages (.source first.name first.version source) first := by
    intro first source hfirst hsome
    refine ⟨hfirst, ⟨rfl, rfl, hsome⟩, ?_⟩
    rintro found hfound ⟨hfoundName, hfoundVersion, hfoundSource⟩
    exact hlisted.single found hfound first hfirst hfoundName hfoundVersion
      (hfoundSource.trans hsome.symm)
  cases hfirst : package.source with
  | some source =>
    exact resolve_twice hlisted hmem hother hne hname hversion source
      (h _ _ (hdesignates package source hmem hfirst))
  | none =>
    cases hsecond : other.source with
    | none => exact hsource (hfirst.trans hsecond.symm)
    | some source =>
      exact resolve_twice hlisted hother hmem (Ne.symm hne) hname.symm hversion.symm source
        (h _ _ (hdesignates other source hother hsecond))

theorem indexed_iff : Indexed packages ↔ Apart packages := by
  constructor
  · intro h package hmem other hother hname hversion
    refine h package hmem other hother ?_
    rw [Package.id, Package.id, hname, hversion]
  · intro h package hmem other hother hid
    obtain ⟨hname, hversion⟩ :=
      append_space_inj (hlisted.word package hmem).1 (hlisted.word other hother).1 hid
    exact h package hmem other hother hname hversion

/-- The lookup and the index are right exactly where no two packages share name
and version, and each of them by itself. -/
theorem lock_resolved :
    (LooksUp packages ∧ Indexed packages ↔ Apart packages) ∧
      (LooksUp packages ↔ Apart packages) ∧ (Indexed packages ↔ Apart packages) := by
  have hlooks : LooksUp packages ↔ Apart packages := ⟨LooksUp.apart hlisted, Apart.looksUp hlisted⟩
  have hindexed := indexed_iff hlisted
  refine ⟨?_, hlooks, hindexed⟩
  rw [hlooks, hindexed, and_self]

end

/-! ## One version from two sources -/

def fromRegistry : Package :=
  ⟨"serde".toList, "1.0.0".toList, some "registry+crates".toList, []⟩

def fromGit : Package := ⟨"serde".toList, "1.0.0".toList, some "git+fork".toList, []⟩

theorem twoSources_listed : Listed [fromRegistry, fromGit] where
  word package hpackage := by
    simp only [mem_cons, not_mem_nil, or_false] at hpackage
    rcases hpackage with rfl | rfl
    · exact ⟨oneWord_iff.mpr (by decide), oneWord_iff.mpr (by decide)⟩
    · exact ⟨oneWord_iff.mpr (by decide), oneWord_iff.mpr (by decide)⟩
  nodup := by decide
  single := by decide

/-- The line that names the registry is refused, and both have one place. -/
theorem twoSources_conflated :
    Line.Designates [fromRegistry, fromGit]
        (.source "serde".toList "1.0.0".toList "registry+crates".toList) fromRegistry ∧
      ¬LooksUp [fromRegistry, fromGit] ∧ ¬Indexed [fromRegistry, fromGit] := by
  have hapart : ¬Apart [fromRegistry, fromGit] := by
    intro h
    exact absurd (h fromRegistry mem_cons_self fromGit
      (mem_cons_of_mem _ mem_cons_self) rfl rfl) (by decide)
  refine ⟨⟨mem_cons_self, ⟨rfl, rfl, rfl⟩, ?_⟩, ?_, ?_⟩
  · rintro other hother ⟨-, -, hsource⟩
    rcases mem_cons.mp hother with rfl | hother
    · rfl
    · rw [mem_singleton.mp hother] at hsource
      exact absurd hsource (by decide)
  · exact fun h => hapart (h.apart twoSources_listed)
  · exact fun h => hapart ((indexed_iff twoSources_listed).mp h)

/-- A lock with two versions of one name is read as it is written. -/
theorem twoVersions_looked_up :
    LooksUp [fromRegistry, { fromRegistry with version := "2.0.0".toList }] ∧
      Indexed [fromRegistry, { fromRegistry with version := "2.0.0".toList }] := by
  refine (lock_resolved ⟨?_, by decide, by decide⟩).1.mpr (by unfold Apart; decide)
  intro package hpackage
  simp only [mem_cons, not_mem_nil, or_false] at hpackage
  rcases hpackage with rfl | rfl
  · exact ⟨oneWord_iff.mpr (by decide), oneWord_iff.mpr (by decide)⟩
  · exact ⟨oneWord_iff.mpr (by decide), oneWord_iff.mpr (by decide)⟩

end Stado.Kompilator
