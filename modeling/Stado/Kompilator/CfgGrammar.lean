import Stado.Kompilator.Cfg
import Stado.Library.Brackets

/-!
# The grammar of cfg expressions

The trees of a `cfg(…)`, their values, the tokens and the texts that spell
them, and the reader on each of these: what is spelled is read to its value,
and what is read closes every parenthesis it opens.
-/

namespace Stado.Kompilator

open Brackets List

/-! ## Trees -/

inductive CfgTree where
  | name (name : Text)
  | pair (key value : Text)
  | not (tree : CfgTree)
  | all (trees : List CfgTree)
  | any (trees : List CfgTree)

namespace CfgTree

mutual

def value (cfg : List (Text × Option Text)) : CfgTree → Bool
  | name n => decide ((n, none) ∈ cfg)
  | pair key v => decide ((key, some v) ∈ cfg)
  | not tree => !tree.value cfg
  | all trees => (values cfg trees).all id
  | any trees => (values cfg trees).any id

def values (cfg : List (Text × Option Text)) : List CfgTree → List Bool
  | [] => []
  | tree :: trees => tree.value cfg :: values cfg trees

end

end CfgTree

mutual

/-- The tokens of a tree; a comma may follow the last of the expressions
between parentheses. -/
inductive Spells : CfgTree → List Token → Prop
  | name (n : Text) : Spells (.name n) [.word n]
  | pair (key v : Text) : Spells (.pair key v) [.word key, .equals, .text v]
  | not {tree : CfgTree} {tokens : List Token} :
      SpellsAll [tree] tokens →
        Spells (.not tree) (.word "not".toList :: .open :: (tokens ++ [.close]))
  | all {trees : List CfgTree} {tokens : List Token} :
      SpellsAll trees tokens →
        Spells (.all trees) (.word "all".toList :: .open :: (tokens ++ [.close]))
  | any {trees : List CfgTree} {tokens : List Token} :
      SpellsAll trees tokens →
        Spells (.any trees) (.word "any".toList :: .open :: (tokens ++ [.close]))

inductive SpellsAll : List CfgTree → List Token → Prop
  | nil : SpellsAll [] []
  | last {tree : CfgTree} {tokens tail : List Token} :
      Spells tree tokens → (tail = [] ∨ tail = [.comma]) → SpellsAll [tree] (tokens ++ tail)
  | cons {tree next : CfgTree} {trees : List CfgTree} {tokens later : List Token} :
      Spells tree tokens → SpellsAll (next :: trees) later →
        SpellsAll (tree :: next :: trees) (tokens ++ .comma :: later)

end

/-- What may follow a tree without being read as more of it. -/
def Ends : CfgTree → Option Token → Prop
  | .name n, next => next ≠ some .equals ∧ (n ∈ Cfg.groups → next ≠ some .open)
  | _, _ => True

theorem ends_of_ne (tree : CfgTree) {next : Option Token} (hequals : next ≠ some .equals)
    (hopen : next ≠ some .open) : Ends tree next := by
  cases tree with
  | name n => exact ⟨hequals, fun _ => hopen⟩
  | _ => trivial

variable {tokens : List Token} {tree : CfgTree}

theorem Spells.head (h : Spells tree tokens) : ∃ word later, tokens = .word word :: later := by
  cases h with
  | name n => exact ⟨n, [], rfl⟩
  | pair key v => exact ⟨key, [.equals, .text v], rfl⟩
  | _ => exact ⟨_, _, rfl⟩

theorem Spells.length_pos (h : Spells tree tokens) : 0 < tokens.length := by
  obtain ⟨word, later, rfl⟩ := h.head
  exact Nat.succ_pos _

/-! ## What is spelled is read -/

namespace Cfg

variable {cfg : List (Text × Option Text)} {values : List Bool} {tokens rest : List Token}
  {fuel : ℕ} {word : Text} {value : Bool}

theorem combine_all (values : List Bool) : combine "all".toList values = .ok (values.all id) :=
  if_pos rfl

theorem combine_any (values : List Bool) : combine "any".toList values = .ok (values.any id) := by
  show (if "any".toList = "all".toList then _ else if "any".toList = "any".toList then _
    else _) = _
  rw [if_neg (by decide), if_pos rfl]

theorem combine_not (value : Bool) : combine "not".toList [value] = .ok !value := by
  rw [combine, if_neg (by decide), if_neg (by decide)]

theorem expression_group {rest later : List Token} (hword : word ∈ groups)
    (h : arguments cfg fuel word rest = some (.ok (values, later))) :
    expression cfg (fuel + 1) (.word word :: .open :: rest) =
      some ((combine word values).map fun value => (value, later)) := by
  rw [expression, if_pos ⟨hword, rfl⟩]
  show (arguments cfg fuel word rest).andThen _ = _
  rw [h]
  rfl

theorem arguments_close (fuel : ℕ) (word : Text) (more : List Token) :
    arguments cfg (fuel + 1) word (.close :: more) = some (.ok ([], more)) := by
  rw [arguments]
  rfl

theorem arguments_step {tokens rest later : List Token} (hhead : tokens.head? ≠ some .close)
    (hvalue : expression cfg fuel tokens = some (.ok (value, rest))) {next : List Token}
    (hnext : next = if rest.head? = some .comma then rest.tail else rest) (hne : next ≠ [])
    (h : arguments cfg fuel word next = some (.ok (values, later))) :
    arguments cfg (fuel + 1) word tokens = some (.ok (value :: values, later)) := by
  rw [arguments, if_neg hhead, hvalue]
  show (if (if rest.head? = some .comma then rest.tail else rest) = [] then _
    else (arguments cfg fuel word (if rest.head? = some .comma then rest.tail else rest)).andThen
      fun values rest => some (.ok (value :: values, rest))) = _
  rw [← hnext, if_neg hne, h]
  rfl

theorem spells_read (fuel : ℕ) :
    (∀ tree tokens more, Spells tree tokens → Ends tree more.head? → 2 * tokens.length ≤ fuel →
        expression cfg fuel (tokens ++ more) = some (.ok (tree.value cfg, more))) ∧
      ∀ trees tokens word more, SpellsAll trees tokens → 2 * tokens.length + 1 ≤ fuel →
        arguments cfg fuel word (tokens ++ .close :: more) =
          some (.ok (CfgTree.values cfg trees, more)) := by
  induction fuel with
  | zero =>
    refine ⟨?_, ?_⟩
    · intro tree tokens more h _ hfuel
      have hlength := h.length_pos
      omega
    · intro trees tokens word more _ hfuel
      omega
  | succ fuel ih =>
    refine ⟨?_, ?_⟩
    · intro tree tokens more h hends hfuel
      have hgroup : ∀ (word : Text) (trees : List CfgTree) (inner : List Token),
          SpellsAll trees inner → word ∈ groups →
          2 * (.word word :: .open :: (inner ++ [.close]) : List Token).length ≤ fuel + 1 →
            expression cfg (fuel + 1) ((.word word :: .open :: (inner ++ [.close])) ++ more) =
              some ((combine word (CfgTree.values cfg trees)).map fun value => (value, more)) := by
        intro word trees inner hall hword hlength
        simp only [length_cons, length_append, length_nil] at hlength
        have harguments := ih.2 trees inner word more hall (by omega)
        rw [cons_append, cons_append, append_assoc]
        exact expression_group hword harguments
      cases h with
      | name n =>
        show expression cfg (fuel + 1) (.word n :: more) = _
        rw [expression, if_neg (fun h => hends.2 h.1 h.2), if_neg hends.1]
        rfl
      | pair key v =>
        show expression cfg (fuel + 1) (.word key :: .equals :: .text v :: more) = _
        rw [expression, if_neg (fun h => nomatch h.2)]
        rfl
      | @not tree inner hall =>
        have hvalues : CfgTree.values cfg [tree] = [tree.value cfg] := rfl
        rw [hgroup _ _ _ hall (by decide) hfuel, hvalues, combine_not]
        rfl
      | all hall =>
        rw [hgroup _ _ _ hall (by decide) hfuel, combine_all]
        rfl
      | any hall =>
        rw [hgroup _ _ _ hall (by decide) hfuel, combine_any]
        rfl
    · intro trees tokens word more h hfuel
      cases h with
      | nil => exact arguments_close fuel word more
      | @last tree tokens tail h htail =>
        have hhead : (tokens ++ (tail ++ .close :: more)).head? ≠ some .close := by
          obtain ⟨n, later, rfl⟩ := h.head
          exact nofun
        have hends : Ends tree (tail ++ .close :: more).head? := by
          rcases htail with rfl | rfl
          · exact ends_of_ne tree nofun nofun
          · exact ends_of_ne tree nofun nofun
        have hlength := h.length_pos
        rw [length_append] at hfuel
        have hvalue := ih.1 tree tokens (tail ++ .close :: more) h hends (by omega)
        have hnext : Token.close :: more = if (tail ++ Token.close :: more).head? = some .comma
            then (tail ++ .close :: more).tail else tail ++ .close :: more := by
          rcases htail with rfl | rfl
          · rfl
          · rfl
        rw [append_assoc]
        exact arguments_step hhead hvalue hnext nofun (ih.2 [] [] word more .nil (by simp; omega))
      | @cons tree next trees tokens later h hlater =>
        have hhead : (tokens ++ ((.comma :: later) ++ .close :: more)).head? ≠ some .close := by
          obtain ⟨n, later, rfl⟩ := h.head
          exact nofun
        have hlength := h.length_pos
        rw [length_append, length_cons] at hfuel
        have hvalue := ih.1 tree tokens (.comma :: later ++ .close :: more) h
          (ends_of_ne tree nofun nofun) (by omega)
        rw [append_assoc]
        exact arguments_step hhead hvalue rfl (by simp)
          (ih.2 (next :: trees) later word more hlater (by omega))

/-! ## What is read closes its parentheses -/

theorem andThen_eq_ok {α β : Type} {first : Parsed α} {next : α → List Token → Parsed β} {b : β}
    {later : List Token} (h : first.andThen next = some (.ok (b, later))) :
    ∃ a rest, first = some (.ok (a, rest)) ∧ next a rest = some (.ok (b, later)) := by
  rcases first with _ | (e | ⟨a, rest⟩)
  · cases h
  · cases h
  · exact ⟨a, rest, rfl, h⟩

theorem expression_ok (h : expression cfg (fuel + 1) tokens = some (.ok (value, rest))) :
    (∃ word inner values, tokens = .word word :: .open :: inner ∧
        arguments cfg fuel word inner = some (.ok (values, rest))) ∨
      (∃ word v, tokens = .word word :: .equals :: .text v :: rest) ∨
      ∃ word, tokens = .word word :: rest := by
  rcases tokens with _ | ⟨_ | _ | _ | _ | _ | _, later⟩
  case cons.word word =>
    rw [expression] at h
    by_cases hgroup : word ∈ groups ∧ later.head? = some .open
    · rw [if_pos hgroup] at h
      obtain ⟨inner, rfl⟩ := List.head?_eq_some_iff.mp hgroup.2
      obtain ⟨values, later, harguments, hvalue⟩ := andThen_eq_ok h
      refine .inl ⟨word, inner, values, rfl, ?_⟩
      have hok := Option.some.inj hvalue
      cases hcombine : combine word values with
      | error e =>
        rw [hcombine] at hok
        cases hok
      | ok v =>
        rw [hcombine] at hok
        cases hok
        exact harguments
    · rw [if_neg hgroup] at h
      by_cases hequals : later.head? = some .equals
      · rw [if_pos hequals] at h
        obtain ⟨after, rfl⟩ := List.head?_eq_some_iff.mp hequals
        rcases after with _ | ⟨_ | v | _ | _ | _ | _, after⟩ <;> cases h
        exact .inr (.inl ⟨word, v, rfl⟩)
      · rw [if_neg hequals] at h
        cases h
        exact .inr (.inr ⟨word, rfl⟩)
  all_goals cases h

theorem arguments_ok (h : arguments cfg (fuel + 1) word tokens = some (.ok (values, rest))) :
    tokens = .close :: rest ∨
      ∃ value later more, expression cfg fuel tokens = some (.ok (value, later)) ∧
        arguments cfg fuel word (if later.head? = some .comma then later.tail else later) =
          some (.ok (more, rest)) := by
  rw [arguments] at h
  by_cases hclose : tokens.head? = some .close
  · rw [if_pos hclose] at h
    obtain ⟨later, rfl⟩ := List.head?_eq_some_iff.mp hclose
    cases h
    exact .inl rfl
  · rw [if_neg hclose] at h
    obtain ⟨value, later, hvalue, hrest⟩ := andThen_eq_ok h
    refine .inr ⟨value, later, ?_⟩
    by_cases hnil : (if later.head? = some .comma then later.tail else later) = []
    · rw [if_pos hnil] at hrest
      cases hrest
    · rw [if_neg hnil] at hrest
      obtain ⟨more, after, harguments, heq⟩ := andThen_eq_ok hrest
      cases heq
      exact ⟨more, hvalue, harguments⟩

end Cfg

def Token.bracket : Token → Option Bracket
  | .open => some .opening
  | .close => some .closing
  | _ => none

/-- The parentheses among tokens. -/
def brackets (tokens : List Token) : List Bracket := tokens.filterMap Token.bracket

theorem depth_dropComma (d : ℕ) (tokens : List Token) :
    depth d (brackets (if tokens.head? = some .comma then tokens.tail else tokens)) =
      depth d (brackets tokens) := by
  by_cases hcomma : tokens.head? = some .comma
  · rw [if_pos hcomma]
    obtain ⟨later, rfl⟩ := List.head?_eq_some_iff.mp hcomma
    rfl
  · rw [if_neg hcomma]

theorem length_dropComma (tokens : List Token) :
    (if tokens.head? = some .comma then tokens.tail else tokens).length ≤ tokens.length := by
  by_cases hcomma : tokens.head? = some .comma
  · rw [if_pos hcomma, length_tail]
    exact Nat.sub_le _ _
  · rw [if_neg hcomma]

namespace Cfg

variable {cfg : List (Text × Option Text)}

/-- An expression closes what it opens, and the arguments of a group close the
parenthesis they stand in. -/
theorem depth_read (fuel : ℕ) :
    (∀ tokens value rest, expression cfg fuel tokens = some (.ok (value, rest)) →
        rest.length < tokens.length ∧ ∀ d, depth d (brackets tokens) = depth d (brackets rest)) ∧
      ∀ word tokens values rest, arguments cfg fuel word tokens = some (.ok (values, rest)) →
        rest.length < tokens.length ∧
          ∀ d, depth (d + 1) (brackets tokens) = depth d (brackets rest) := by
  induction fuel with
  | zero =>
    refine ⟨?_, ?_⟩
    · intro tokens value rest h
      cases h
    · intro word tokens values rest h
      cases h
  | succ fuel ih =>
    refine ⟨?_, ?_⟩
    · intro tokens value rest h
      rcases expression_ok h with ⟨word, inner, values, rfl, harguments⟩ | ⟨word, v, rfl⟩ |
        ⟨word, rfl⟩
      · obtain ⟨hlength, hdepth⟩ := ih.2 word inner values rest harguments
        refine ⟨by simp; omega, ?_⟩
        intro d
        exact (depth_opening d (brackets inner)).trans (hdepth d)
      · exact ⟨by simp; omega, fun d => rfl⟩
      · exact ⟨by simp, fun d => rfl⟩
    · intro word tokens values rest h
      rcases arguments_ok h with rfl | ⟨value, later, more, hvalue, harguments⟩
      · exact ⟨by simp, fun d => rfl⟩
      · obtain ⟨hlength, hdepth⟩ := ih.1 tokens value later hvalue
        obtain ⟨hlength', hdepth'⟩ := ih.2 word _ more rest harguments
        have hcomma := length_dropComma later
        refine ⟨by omega, ?_⟩
        intro d
        rw [hdepth (d + 1), ← depth_dropComma (d + 1) later, hdepth' d]

theorem isSome_andThen {α β : Type} {first : Parsed α} {next : α → List Token → Parsed β}
    (hfirst : first.isSome = true)
    (hnext : ∀ a rest, first = some (.ok (a, rest)) → (next a rest).isSome = true) :
    (first.andThen next).isSome = true := by
  rcases first with _ | (e | ⟨a, rest⟩)
  · cases hfirst
  · rfl
  · exact hnext a rest rfl

/-- The reader comes to an end within twice the tokens. -/
theorem read_ends (fuel : ℕ) :
    (∀ tokens : List Token, 2 * tokens.length + 1 ≤ fuel →
        (expression cfg fuel tokens).isSome = true) ∧
      ∀ (word : Text) (tokens : List Token), 2 * tokens.length + 2 ≤ fuel →
        (arguments cfg fuel word tokens).isSome = true := by
  induction fuel with
  | zero =>
    refine ⟨?_, ?_⟩
    · intro tokens hfuel
      omega
    · intro word tokens hfuel
      omega
  | succ fuel ih =>
    refine ⟨?_, ?_⟩
    · intro tokens hfuel
      rcases tokens with _ | ⟨_ | _ | _ | _ | _ | _, later⟩
      case cons.word word =>
        rw [expression]
        rw [length_cons] at hfuel
        split_ifs
        · refine isSome_andThen (ih.2 word later.tail ?_) fun values rest _ => rfl
          rw [length_tail]
          omega
        · rcases later.tail with _ | ⟨_ | _ | _ | _ | _ | _, after⟩ <;> rfl
        · rfl
      all_goals rfl
    · intro word tokens hfuel
      rw [arguments]
      split_ifs with hclose
      · rfl
      · refine isSome_andThen (ih.1 tokens (by omega)) ?_
        intro value rest hvalue
        have hlength := ((depth_read fuel).1 tokens value rest hvalue).1
        have hcomma := length_dropComma rest
        by_cases hnil : (if rest.head? = some .comma then rest.tail else rest) = []
        · rw [if_pos hnil]
          rfl
        · rw [if_neg hnil]
          exact isSome_andThen (ih.2 word _ (by omega)) fun values rest _ => rfl

end Cfg

end Stado.Kompilator
