import Mathlib.Data.List.DropRight
import Stado.Kompilator.Lock

/-!
# The configuration of a target

Which `[target.…]` tables apply: a `cfg(…)` expression or a target triple
judged against the configuration of the target. The loops of the source are
counted by fuel; a run without any left answers nothing.
-/

namespace Stado.Kompilator

open Directory (isWhitespace)

structure Target where
  triple : Text
  /-- Each line of `rustc --print cfg`: `unix`, `target_os="macos"`. -/
  cfg : List (Text × Option Text)

inductive Token where
  | word (word : Text)
  | text (value : Text)
  | «open»
  | close
  | comma
  | equals
deriving DecidableEq

namespace Cfg

section Tokens

-- `char::is_alphanumeric`
variable (alphanumeric : Char → Bool)

def wordChar (c : Char) : Bool := alphanumeric c || decide (c = '_')

/-- The blanks the tokens may stand between. -/
def isBlank (c : Char) : Bool := decide (c = ' ') || decide (c = '\t') || decide (c = '\n')

def tokenize (expression : Text) (chars : Text) : Except String (List Token) :=
  match chars with
  | [] => .ok []
  | next :: later =>
    if isBlank next then tokenize expression later
    else if next = '(' then (tokenize expression later).map (Token.open :: ·)
    else if next = ')' then (tokenize expression later).map (Token.close :: ·)
    else if next = ',' then (tokenize expression later).map (Token.comma :: ·)
    else if next = '=' then (tokenize expression later).map (Token.equals :: ·)
    else if next = '"' then
      let value := later.takeWhile (· ≠ '"')
      let rest := later.dropWhile (· ≠ '"')
      let expressionText := String.ofList expression
      if rest = [] then .error s!"a quoted cfg value never closed in {expressionText}"
      else (tokenize expression rest.tail).map (Token.text value :: ·)
    else if wordChar alphanumeric next then
      let word := later.takeWhile (wordChar alphanumeric)
      let rest := later.dropWhile (wordChar alphanumeric)
      (tokenize expression rest).map (Token.word (next :: word) :: ·)
    else
      let expressionText := String.ofList expression
      .error s!"the cfg expression {expressionText} holds {next}"
termination_by chars.length
decreasing_by
  all_goals simp only [List.length_cons, List.length_tail]
  all_goals first
    | omega
    | exact Nat.lt_succ_of_le ((Nat.sub_le _ _).trans (List.length_dropWhile_le _ _))
    | exact Nat.lt_succ_of_le (List.length_dropWhile_le _ _)

end Tokens

/-! ## Expressions -/

/-- What an expression answers, and the tokens after it. -/
abbrev Parsed (α : Type) := Option (Except String (α × List Token))

def Parsed.andThen {α β : Type} (first : Parsed α) (next : α → List Token → Parsed β) :
    Parsed β :=
  match first with
  | none => none
  | some (.error e) => some (.error e)
  | some (.ok (value, rest)) => next value rest

def groups : List Text := ["all".toList, "any".toList, "not".toList]

/-- What `all`, `any` and `not` make of the values between their parentheses. -/
def combine (word : Text) (values : List Bool) : Except String Bool :=
  if word = "all".toList then .ok (values.all id)
  else if word = "any".toList then .ok (values.any id)
  else
    match values with
    | [only] => .ok !only
    | _ => .error "not() takes one expression"

mutual

def expression (cfg : List (Text × Option Text)) : ℕ → List Token → Parsed Bool
  | 0, _ => none
  | fuel + 1, .word word :: rest =>
    if word ∈ groups ∧ rest.head? = some .open then
      (arguments cfg fuel word rest.tail).andThen fun values rest =>
        some ((combine word values).map fun value => (value, rest))
    else if rest.head? = some .equals then
      match rest.tail with
      | .text value :: rest => some (.ok (decide ((word, some value) ∈ cfg), rest))
      | _ =>
        let wordText := String.ofList word
        some (.error s!"cfg {wordText} = has no quoted value")
    else some (.ok (decide ((word, none) ∈ cfg), rest))
  | _ + 1, _ => some (.error "a cfg name was expected")

/-- The values up to the parenthesis that closes `word(`. -/
def arguments (cfg : List (Text × Option Text)) :
    ℕ → Text → List Token → Parsed (List Bool)
  | 0, _, _ => none
  | fuel + 1, word, tokens =>
    if tokens.head? = some .close then some (.ok ([], tokens.tail))
    else
      (expression cfg fuel tokens).andThen fun value rest =>
        let rest := if rest.head? = some .comma then rest.tail else rest
        let wordText := String.ofList word
        if rest = [] then some (.error s!"{wordText}( never closed")
        else
          (arguments cfg fuel word rest).andThen fun values rest =>
            some (.ok (value :: values, rest))

end

end Cfg

def trim (text : Text) : Text := (text.dropWhile isWhitespace).rdropWhile isWhitespace

def cfgExpression (platform : Text) : Option Text :=
  if "cfg(".toList <+: platform then
    let rest := platform.drop 4
    if rest.getLast? = some ')' then some rest.dropLast else none
  else none

/-- Whether a `[target.<platform>]` table applies. -/
def Target.matches (alphanumeric : Char → Bool) (fuel : ℕ) (target : Target) (platform : Text) :
    Option (Except String Bool) :=
  let platform := trim platform
  match cfgExpression platform with
  | some expression =>
    match Cfg.tokenize alphanumeric expression expression with
    | .error e => some (.error e)
    | .ok tokens =>
      match Cfg.expression target.cfg fuel tokens with
      | none => none
      | some (.error e) => some (.error e)
      | some (.ok (value, rest)) =>
        let expressionText := String.ofList expression
        if rest ≠ [] then
          some (.error s!"cfg({expressionText}) has words after its expression")
        else some (.ok value)
  | none => some (.ok (decide (platform = target.triple)))

end Stado.Kompilator
