import Mathlib.Data.List.SplitOn
import Stado.Directory.Texts

/-!
# The lock

What `Cargo.lock` lists, which of its packages a dependency line names, and
which locked package a manifest's dependency is when the lines of a package
name several of one name.
-/

namespace Stado.Kompilator

open List

open Directory (isWhitespace isDigit debug)

abbrev Text := List Char

/-! ## Packages -/

/-- A locked package; `dependencies` are its lines as the lock writes them. -/
structure Package where
  name : Text
  version : Text
  source : Option Text
  dependencies : List Text
deriving DecidableEq

def Package.id (package : Package) : Text := package.name ++ ' ' :: package.version

def splitWhitespace (text : Text) : List Text :=
  (text.splitOnP isWhitespace).filter fun word => word ≠ []

namespace Lock

def resolve (packages : List Package) (line : Text) : Except String Package :=
  let lineText := String.ofList line
  match splitWhitespace line with
  | [] => .error "an empty dependency line"
  | name :: later =>
    let version := later.head?
    let candidates := packages.filter fun package =>
      package.name = name ∧ version.all fun wanted => package.version = wanted
    match candidates with
    | [only] => .ok only
    | [] => .error s!"the lock names {lineText}, and no locked package is it"
    | _ => .error s!"the lock names {lineText}, and several locked packages are it"

/-- The packages of one name among those the lines of `package` name. -/
def candidates (packages : List Package) (package : Package) (name : Text) : List Package :=
  (package.dependencies.filterMap fun line => (resolve packages line).toOption).filter
    fun candidate => candidate.name = name

end Lock

/-- The semver major (or `0.minor`) a requirement or version names. -/
def lineOf (version : Text) : Text :=
  let digits := (version.dropWhile fun c => !isDigit c).takeWhile fun c => isDigit c || c = '.'
  let parts := digits.splitOn '.'
  let major := parts.head?.getD ['0']
  if major = ['0'] then '0' :: '.' :: parts[1]?.getD ['0'] else major

/-- What a manifest's dependency says of the package it means. -/
structure Wanted where
  package : Text
  requirement : Option Text
  optional : Bool

/-- `{:?}` of an optional text. -/
def debugOption : Option Text → String
  | some text =>
    let shown := debug (String.ofList text)
    s!"Some({shown})"
  | none => "None"

/-- The candidate a dependency of `package` is, none where it is optional and
the lock leaves it out. -/
def choose (package : Package) (dependency : Wanted) (candidates : List Package) :
    Except String (Option Package) :=
  let idText := String.ofList package.id
  let packageText := String.ofList dependency.package
  let requirementText := debugOption dependency.requirement
  match candidates with
  | [] =>
    if dependency.optional then .ok none
    else .error s!"{idText} depends on {packageText}, and its lock entry names no such package"
  | [only] => .ok (some only)
  | several =>
    let wanted := dependency.requirement.map lineOf
    match several.find? fun candidate => some (lineOf candidate.version) = wanted with
    | some candidate => .ok (some candidate)
    | none => .error (s!"{idText} depends on {packageText} {requirementText}, and none of its " ++
        "locked versions matches")

/-! ## Words of a line -/

def OneWord (text : Text) : Prop := text ≠ [] ∧ ∀ c ∈ text, isWhitespace c = false

theorem oneWord_iff {text : Text} :
    OneWord text ↔ text ≠ [] ∧ (text.all fun c => !isWhitespace c) = true := by
  simp [OneWord]

theorem splitWhitespace_word {word : Text} (h : OneWord word) : splitWhitespace word = [word] := by
  rw [splitWhitespace, splitOnP_eq_singleton h.2]
  exact filter_eq_self.mpr (by simpa using h.1)

theorem splitWhitespace_cons {word : Text} (h : OneWord word) (later : Text) :
    splitWhitespace (word ++ ' ' :: later) = word :: splitWhitespace later := by
  rw [splitWhitespace, splitOnP_append_cons_of_forall_mem h.2 ' ' (by decide),
    filter_cons_of_pos (by simpa using h.1)]
  rfl

/-- A name and a version are read back from the text they are written in. -/
theorem append_space_inj {first first' second second' : Text} (h : OneWord first)
    (h' : OneWord first') (heq : first ++ ' ' :: second = first' ++ ' ' :: second') :
    first = first' ∧ second = second' := by
  have hspace : ∀ word, OneWord word → ' ' ∉ word := by
    intro word hword hmem
    exact absurd (hword.2 ' ' hmem) (by decide)
  have hfirst : first = first' := by
    have htake := congrArg (List.takeWhile fun c => !decide (c = ' ')) heq
    have hone : ∀ word later, OneWord word →
        (word ++ ' ' :: later).takeWhile (fun c => !decide (c = ' ')) = word := by
      intro word later hword
      have hall : ∀ c ∈ word, (!decide (c = ' ')) = true := by
        intro c hc
        have hne : c ≠ ' ' := fun heq => hspace word hword (heq ▸ hc)
        simp [hne]
      rw [takeWhile_append_of_pos hall]
      simp
    rw [hone first _ h, hone first' _ h'] at htake
    exact htake
  subst hfirst
  have htail := append_cancel_left heq
  exact ⟨rfl, (List.cons.inj htail).2⟩

end Stado.Kompilator
