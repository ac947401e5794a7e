import Stado.Library.Versions

/-!
# Whether a version is at least the one a change requires

The reading of a version by the rule's pattern, and the order of two versions
on the captured digit strings.
-/

namespace Stado.VersionGate

open Decimals (order trimmed)
open SemVer (Text Version identifierChar)

section Pattern

-- the characters the pattern's `\d` stands for
variable (digit : Char → Bool)

/-- `0|[1-9]\d*` -/
def patternNumber : Text → Bool
  | [] => false
  | c :: rest => (c = '0' && rest.isEmpty) || ('1' ≤ c && c ≤ '9' && rest.all digit)

/-- `[0-9A-Za-z-]+` -/
def patternField (text : Text) : Bool := text ≠ [] && text.all identifierChar

def pattern (v : Version) : Bool :=
  patternNumber digit v.major && patternNumber digit v.minor && patternNumber digit v.patch &&
    v.prerelease.all (fun fields => fields.all patternField) &&
    v.build.all (fun fields => fields.all patternField)

def captures (value : Text) : Option Version := (SemVer.read value).filter (pattern digit)

end Pattern

/-! ## The order -/

abbrev Semver := (Text × Text × Text) × Option (List Text)

def semver (digit : Char → Bool) (value : Text) : Except Text Semver :=
  match captures digit value with
  | none => .error ("invalid semantic version: ".toList ++ value)
  | some v => .ok ((v.major, v.minor, v.patch), v.prerelease)

def byteLength (text : Text) : ℕ := (text.map Char.utf8Size).sum

/-- Two unsigned decimal strings compared as numbers, of any length. -/
def numericOrder (left right : Text) : Ordering :=
  let left := trimmed left
  let right := trimmed right
  (order (byteLength left) (byteLength right)).then (order left right)

def digits (text : Text) : Bool := text.all Char.isDigit

def fieldOrder (a b : Text) : Ordering :=
  match digits a, digits b with
  | true, true => numericOrder a b
  | true, false => .lt
  | false, true => .gt
  | false, false => order a b

/-- The first pair of fields that differ decides. -/
def firstOrder : List (Text × Text) → Option Ordering
  | [] => none
  | (a, b) :: rest => if a = b then firstOrder rest else some (fieldOrder a b)

def prereleaseOrder (left right : Option (List Text)) : Ordering :=
  match left, right with
  | some left, some right =>
    (firstOrder (left.zip right)).getD (order left.length right.length)
  | left, right => order right.isSome left.isSome

/-- How two versions order, by core numbers and then pre-release. -/
def semverOrder (digit : Char → Bool) (left right : Text) : Except Text Ordering := do
  let ((leftMajor, leftMinor, leftPatch), leftPre) ← semver digit left
  let ((rightMajor, rightMinor, rightPatch), rightPre) ← semver digit right
  let orders := [numericOrder leftMajor rightMajor, numericOrder leftMinor rightMinor,
    numericOrder leftPatch rightPatch]
  return (orders.find? (· ≠ .eq)).getD (prereleaseOrder leftPre rightPre)

def semverAtLeast (digit : Char → Bool) (actual minimum : Text) : Except Text Bool := do
  let found ← semverOrder digit actual minimum
  return found ≠ .lt

end Stado.VersionGate
