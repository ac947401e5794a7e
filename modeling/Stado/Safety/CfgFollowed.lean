import Stado.Kompilator.CfgGrammar

/-!
# A cfg text is evaluated as the grammar says

Every tree, printed with any blanks, is evaluated to its value. A text with
words left over or with parentheses that do not match is refused when it begins
with `cfg(` and ends with `)`; any other text is taken for a target triple.
-/

namespace Stado.Kompilator

open Directory (isWhitespace isAlphanumeric)
open Brackets Cfg List

/-! ## Texts of tokens -/

def Token.chars : Token → Text
  | .word w => w
  | .text v => '"' :: (v ++ ['"'])
  | .open => ['(']
  | .close => [')']
  | .comma => [',']
  | .equals => ['=']

section Lexing

variable {alphanumeric : Char → Bool}

variable (alphanumeric) in
def Token.Legal : Token → Prop
  | .word w => w ≠ [] ∧ ∀ c ∈ w, wordChar alphanumeric c = true
  | .text v => '"' ∉ v
  | _ => True

def Token.isWord : Token → Prop
  | .word _ => True
  | _ => False

variable (alphanumeric) in
/-- The texts of tokens in front of `after`: blanks may stand between tokens, and
a word goes on as far as its characters do. -/
inductive Lexes (after : Text) : List Token → Text → Prop
  | nil {blanks : Text} : (∀ c ∈ blanks, isBlank c = true) → Lexes after [] blanks
  | cons {blanks text : Text} {token : Token} {tokens : List Token} :
      (∀ c ∈ blanks, isBlank c = true) → token.Legal alphanumeric →
        (token.isWord → ∀ c ∈ (text ++ after).head?, wordChar alphanumeric c = false) →
          Lexes after tokens text → Lexes after (token :: tokens) (blanks ++ (token.chars ++ text))

variable (hascii : ∀ c : Char, c.toNat < 128 → alphanumeric c = isAlphanumeric c)

include hascii

variable {c : Char}

theorem wordChar_mark (h : wordChar alphanumeric c = true) :
    isBlank c = false ∧ c ≠ '(' ∧ c ≠ ')' ∧ c ≠ ',' ∧ c ≠ '=' ∧ c ≠ '"' := by
  have hnot : ∀ d ∈ [' ', '\t', '\n', '(', ')', ',', '=', '"'], c ≠ d := by
    rintro d hd rfl
    have hmarks : ([' ', '\t', '\n', '(', ')', ',', '=', '"'].all fun d =>
        decide (d.toNat < 128) && !isAlphanumeric d && decide (d ≠ '_')) = true := by decide
    have hmark := List.all_eq_true.mp hmarks c hd
    simp only [Bool.and_eq_true, decide_eq_true_eq, Bool.not_eq_true'] at hmark
    obtain ⟨⟨hlt, halpha⟩, hline⟩ := hmark
    simp [wordChar, hascii c hlt, halpha, hline] at h
  refine ⟨?_, hnot _ (by decide), hnot _ (by decide), hnot _ (by decide), hnot _ (by decide),
    hnot _ (by decide)⟩
  simp [isBlank, hnot ' ' (by decide), hnot '\t' (by decide), hnot '\n' (by decide)]

variable {expression : Text} {tokens : List Token} {text : Text} {token : Token}

omit hascii in
theorem tokenize_blanks {blanks : Text} (h : ∀ c ∈ blanks, isBlank c = true) (later : Text) :
    tokenize alphanumeric expression (blanks ++ later) =
      tokenize alphanumeric expression later := by
  induction blanks with
  | nil => rfl
  | cons c blanks ih =>
    obtain ⟨hc, hblanks⟩ := forall_mem_cons.mp h
    rw [cons_append, tokenize, if_pos hc, ih hblanks]

theorem tokenize_token (hlegal : token.Legal alphanumeric) {later : Text}
    (happart : token.isWord → ∀ c ∈ later.head?, wordChar alphanumeric c = false) :
    tokenize alphanumeric expression (token.chars ++ later) =
      (tokenize alphanumeric expression later).map (token :: ·) := by
  cases token with
  | word w =>
    obtain ⟨c, word, rfl⟩ := exists_cons_of_ne_nil hlegal.1
    obtain ⟨hc, hword⟩ := forall_mem_cons.mp hlegal.2
    obtain ⟨hblank, hopen, hclose, hcomma, hequals, hquote⟩ := wordChar_mark hascii hc
    have htake : (word ++ later).takeWhile (wordChar alphanumeric) = word ∧
        (word ++ later).dropWhile (wordChar alphanumeric) = later := by
      rw [takeWhile_append_of_pos hword, dropWhile_append_of_pos hword]
      cases later with
      | nil => simp
      | cons d later =>
        have hd : wordChar alphanumeric d = false := happart trivial d rfl
        simp [hd]
    show tokenize alphanumeric expression (c :: (word ++ later)) = _
    rw [tokenize, if_neg (by simp [hblank]), if_neg hopen, if_neg hclose, if_neg hcomma,
      if_neg hequals, if_neg hquote, if_pos hc]
    simp only [htake]
  | text v =>
    have hall : ∀ c ∈ v, decide (c ≠ '"') = true := by
      intro c hc
      exact decide_eq_true fun heq => hlegal (heq ▸ hc)
    have hdrop : (v ++ '"' :: later).dropWhile (· ≠ '"') = '"' :: later := by
      rw [dropWhile_append_of_pos hall]
      simp
    have htake : (v ++ '"' :: later).takeWhile (· ≠ '"') = v := by
      rw [takeWhile_append_of_pos hall]
      simp
    have htext : (Token.text v).chars ++ later = '"' :: (v ++ '"' :: later) := by
      simp [Token.chars]
    rw [htext, tokenize, if_neg (by decide), if_neg (by decide), if_neg (by decide),
      if_neg (by decide), if_neg (by decide), if_pos rfl]
    simp only [hdrop, htake, reduceCtorEq, if_false, tail_cons]
  | _ => exact (tokenize.eq_def ..).trans rfl

theorem tokenize_lexes {after text : Text} (h : Lexes alphanumeric after tokens text) :
    tokenize alphanumeric expression (text ++ after) =
      (tokenize alphanumeric expression after).map (tokens ++ ·) := by
  induction h with
  | nil hblanks =>
    rw [tokenize_blanks hblanks]
    cases tokenize alphanumeric expression after <;> rfl
  | cons hblanks hlegal happart _ ih =>
    rw [append_assoc, tokenize_blanks hblanks, append_assoc,
      tokenize_token hascii hlegal happart, ih]
    cases tokenize alphanumeric expression after <;> rfl

/-! ## Parentheses of a text -/

/-- The parentheses of a text outside of its quotes. -/
def sides : Bool → Text → List Bracket
  | _, [] => []
  | true, c :: rest => sides (decide (c ≠ '"')) rest
  | false, c :: rest =>
    if c = '(' then .opening :: sides false rest
    else if c = ')' then .closing :: sides false rest
    else sides (decide (c = '"')) rest

omit hascii in
theorem sides_plain (h : ∀ c ∈ text, c ≠ '(' ∧ c ≠ ')' ∧ c ≠ '"') (after : Text) :
    sides false (text ++ after) = sides false after := by
  induction text with
  | nil => rfl
  | cons c text ih =>
    obtain ⟨⟨hopen, hclose, hquote⟩, htext⟩ := List.forall_mem_cons.mp h
    rw [List.cons_append, sides, if_neg hopen, if_neg hclose, decide_eq_false hquote, ih htext]

omit hascii in
theorem sides_quoted (h : '"' ∉ text) (after : Text) :
    sides true (text ++ '"' :: after) = sides false after := by
  induction text with
  | nil => rfl
  | cons c text ih =>
    rw [List.mem_cons, not_or] at h
    rw [List.cons_append, sides, decide_eq_true (Ne.symm h.1), ih h.2]

omit hascii in
theorem map_cons_eq_ok {x : Except String (List Token)}
    (h : x.map (token :: ·) = .ok tokens) : ∃ later, x = .ok later ∧ tokens = token :: later := by
  cases x with
  | error e => cases h
  | ok later => exact ⟨later, rfl, (Except.ok.inj h).symm⟩

theorem sides_tokenize (h : tokenize alphanumeric expression text = .ok tokens) (after : Text) :
    sides false (text ++ after) = brackets tokens ++ sides false after := by
  fun_induction tokenize alphanumeric expression text generalizing tokens with
  | case1 =>
    cases h
    rfl
  | case2 next later hblank ih =>
    have hplain : next ≠ '(' ∧ next ≠ ')' ∧ next ≠ '"' := by
      refine ⟨?_, ?_, ?_⟩ <;> rintro rfl <;> exact absurd hblank (by decide)
    exact (sides_plain (forall_mem_singleton.mpr hplain) _).trans (ih h)
  | case3 later hblank ih =>
    obtain ⟨rest, hrest, rfl⟩ := map_cons_eq_ok h
    exact congrArg (Bracket.opening :: ·) (ih hrest)
  | case4 later hblank hopen ih =>
    obtain ⟨rest, hrest, rfl⟩ := map_cons_eq_ok h
    exact congrArg (Bracket.closing :: ·) (ih hrest)
  | case5 later hblank hopen hclose ih =>
    obtain ⟨rest, hrest, rfl⟩ := map_cons_eq_ok h
    have hsides := ih hrest
    exact hsides
  | case6 later hblank hopen hclose hcomma ih =>
    obtain ⟨rest, hrest, rfl⟩ := map_cons_eq_ok h
    have hsides := ih hrest
    exact hsides
  | case7 => cases h
  | case8 later value rest hne =>
    rename_i ih
    obtain ⟨tokens, htokens, rfl⟩ := map_cons_eq_ok h
    have hquote : rest.head hne = '"' := by
      have hnot := List.head_dropWhile_not (fun c : Char => decide (c ≠ '"')) hne
      exact not_not.mp (of_decide_eq_false hnot)
    have hlater : later = value ++ '"' :: rest.tail := by
      rw [← hquote, List.cons_head_tail hne]
      exact List.takeWhile_append_dropWhile.symm
    have hvalue : '"' ∉ value := by
      intro hmem
      simpa using mem_takeWhile_imp hmem
    have hinside : sides false ('"' :: later ++ after) =
        sides true (value ++ '"' :: (rest.tail ++ after)) := by
      rw [hlater, cons_append, append_assoc]
      rfl
    have hsides := ih htokens
    rw [hinside, sides_quoted hvalue]
    exact hsides
  | case9 next later hblank hopen hclose _ _ hquote hword word rest =>
    rename_i ih
    obtain ⟨tokens, htokens, rfl⟩ := map_cons_eq_ok h
    have hplain : ∀ c ∈ next :: word, c ≠ '(' ∧ c ≠ ')' ∧ c ≠ '"' := by
      intro c hc
      have hchar : wordChar alphanumeric c = true := by
        rcases List.mem_cons.mp hc with rfl | hc
        · exact hword
        · exact List.mem_takeWhile_imp hc
      obtain ⟨-, hno, hno', -, -, hno''⟩ := wordChar_mark hascii hchar
      exact ⟨hno, hno', hno''⟩
    have htext : next :: later ++ after = (next :: word) ++ (rest ++ after) := by
      show next :: (later ++ after) = next :: (word ++ (rest ++ after))
      rw [← List.append_assoc]
      exact congrArg (next :: · ++ after) List.takeWhile_append_dropWhile.symm
    have hsides := ih htokens
    rw [htext, sides_plain hplain]
    exact hsides
  | case10 => cases h

omit hascii in
theorem Lexes.congr {after after' text : Text} (h : Lexes alphanumeric after tokens text)
    (hsame : ∀ c ∈ after'.head?, c ∈ after.head?) : Lexes alphanumeric after' tokens text := by
  induction h with
  | nil hblanks => exact .nil hblanks
  | @cons blanks text token tokens hblanks hlegal happart _ ih =>
    refine .cons hblanks hlegal (fun hword c hc => happart hword c ?_) ih
    cases text with
    | nil => exact hsame c hc
    | cons d text => exact hc

omit hascii in
/-- What the first token of a text says of its first character. -/
theorem head_tokenize (hc : isBlank c = false)
    (h : tokenize alphanumeric expression (c :: text) = .ok tokens) :
    tokens ≠ [] ∧ (tokens.head? = some .equals → c = '=') ∧
      (tokens.head? = some .open → c = '(') := by
  have hcons : ∀ {x : Except String (List Token)} {token : Token}, x.map (token :: ·) = .ok tokens →
      (token = .equals → c = '=') → (token = .open → c = '(') → tokens ≠ [] ∧
        (tokens.head? = some .equals → c = '=') ∧ (tokens.head? = some .open → c = '(') := by
    intro x token hx hequals hopen
    obtain ⟨later, -, rfl⟩ := map_cons_eq_ok hx
    exact ⟨List.cons_ne_nil _ _, fun heq => hequals (Option.some.inj heq),
      fun heq => hopen (Option.some.inj heq)⟩
  rw [tokenize, if_neg (by simp [hc])] at h
  split_ifs at h with hopen hclose hcomma hequals hquote hword
  · exact hcons h (by simp) fun _ => hopen
  · exact hcons h (by simp) (by simp)
  · exact hcons h (by simp) (by simp)
  · exact hcons h (fun _ => hequals) (by simp)
  · dsimp only at h
    split_ifs at h
    exact hcons h (by simp) (by simp)
  · exact hcons h (by simp) (by simp)

end Lexing

/-! ## Platforms -/

theorem trim_between {before middle after : Text} (hbefore : ∀ c ∈ before, isWhitespace c = true)
    (hafter : ∀ c ∈ after, isWhitespace c = true)
    (hfirst : ∀ c ∈ middle.head?, isWhitespace c = false)
    (hlast : ∀ c ∈ middle.getLast?, isWhitespace c = false) (hne : middle ≠ []) :
    trim (before ++ middle ++ after) = middle := by
  have hdrop : (before ++ middle ++ after).dropWhile isWhitespace = middle ++ after := by
    rw [List.append_assoc, List.dropWhile_append_of_pos hbefore]
    obtain ⟨c, later, rfl⟩ := List.exists_cons_of_ne_nil hne
    rw [List.cons_append, List.dropWhile_cons_of_neg (by simp [hfirst c rfl])]
  rw [trim, hdrop, List.rdropWhile, List.reverse_append,
    List.dropWhile_append_of_pos fun c hc => hafter c (List.mem_reverse.mp hc)]
  show middle.rdropWhile isWhitespace = middle
  rw [List.rdropWhile_eq_self_iff]
  intro hne'
  rw [hlast _ (List.getLast?_eq_getLast_of_ne_nil hne')]
  decide

theorem getLast?_eq_some_append : text.getLast? = some c ↔ text = text.dropLast ++ [c] := by
  constructor
  · intro h
    exact (List.dropLast_append_getLast? c h).symm
  · intro h
    rw [h, List.getLast?_append]
    rfl

theorem cfgExpression_eq_some {platform body : Text} :
    cfgExpression platform = some body ↔ platform = "cfg(".toList ++ (body ++ [')']) := by
  constructor
  · intro h
    rw [cfgExpression] at h
    split_ifs at h with hbegins
    obtain ⟨rest, rfl⟩ := hbegins
    have hdrop : ("cfg(".toList ++ rest).drop 4 = rest := rfl
    simp only [hdrop] at h
    split_ifs at h with hends
    cases h
    exact congrArg ("cfg(".toList ++ ·) (getLast?_eq_some_append.mp hends)
  · rintro rfl
    have hends : (body ++ [')']).getLast? = some ')' := by simp
    rw [cfgExpression, if_pos (List.prefix_append _ _)]
    show (if (body ++ [')']).getLast? = some ')' then some (body ++ [')']).dropLast else none) = _
    rw [if_pos hends, List.dropLast_concat]

section Followed

variable (alphanumeric : Char → Bool)

/-- The platform is a `cfg(…)` around the texts of the tree. -/
def Prints (tree : CfgTree) (platform : Text) : Prop :=
  ∃ before after tokens text, (∀ c ∈ before, isWhitespace c = true) ∧
    (∀ c ∈ after, isWhitespace c = true) ∧ Spells tree tokens ∧
    Lexes alphanumeric [')'] tokens text ∧
    platform = before ++ ("cfg(".toList ++ (text ++ [')'])) ++ after

def Stops (tree : CfgTree) (rest : Text) : Prop :=
  ∀ c ∈ rest.head?, isBlank c = false ∧ ∀ n, tree = .name n → c ≠ '=' ∧ (n ∈ groups → c ≠ '(')

/-- A complete expression, and words after it. -/
def LeftOver (platform : Text) : Prop :=
  ∃ tree tokens text rest, Spells tree tokens ∧ Lexes alphanumeric rest tokens text ∧
    trim platform = "cfg(".toList ++ (text ++ rest) ∧ rest ≠ [] ∧ rest ≠ [')'] ∧ Stops tree rest

/-- The parentheses outside of quotes do not match. -/
def Unbalanced (platform : Text) : Prop := ¬Brackets.Balanced (sides false (trim platform))

/-- The text begins with `cfg(` and ends with `)`. -/
def Wrapped (platform : Text) : Prop :=
  ∃ body : Text, trim platform = "cfg(".toList ++ (body ++ [')'])

/-- The evaluation ends, with an answer of a property. -/
def Comes (target : Target) (platform : Text) (P : Except String Bool → Prop) : Prop :=
  ∃ enough, ∀ fuel, enough ≤ fuel →
    ∃ answer, target.matches alphanumeric fuel platform = some answer ∧ P answer

structure Follows (target : Target) (platform : Text) : Prop where
  ends : Comes alphanumeric target platform fun _ => True
  value : ∀ tree, Prints alphanumeric tree platform →
    Comes alphanumeric target platform fun answer => answer = .ok (tree.value target.cfg)
  refused : LeftOver alphanumeric platform ∨ Unbalanced platform →
    Comes alphanumeric target platform fun answer => ∃ e, answer = .error e

variable {alphanumeric} {target : Target} {platform body : Text} {tokens : List Token}

theorem matches_error {e : String} (hbody : trim platform = "cfg(".toList ++ (body ++ [')']))
    (herror : tokenize alphanumeric body body = .error e) (fuel : ℕ) :
    target.matches alphanumeric fuel platform = some (.error e) := by
  simp only [Target.matches, cfgExpression_eq_some.mpr hbody, herror]

theorem matches_bare (h : ¬Wrapped platform) (fuel : ℕ) :
    target.matches alphanumeric fuel platform =
      some (.ok (decide (trim platform = target.triple))) := by
  have hnone : cfgExpression (trim platform) = none := by
    cases hbody : cfgExpression (trim platform) with
    | none => rfl
    | some body => exact absurd ⟨body, cfgExpression_eq_some.mp hbody⟩ h
  simp only [Target.matches, hnone]

/-- What the reader makes of a text it can cut into tokens. -/
theorem matches_tokens (hbody : trim platform = "cfg(".toList ++ (body ++ [')']))
    (htokens : tokenize alphanumeric body body = .ok tokens) (fuel : ℕ) :
    (∀ value, Cfg.expression target.cfg fuel tokens = some (.ok (value, [])) →
        target.matches alphanumeric fuel platform = some (.ok value)) ∧
      ((∀ value, Cfg.expression target.cfg fuel tokens ≠ some (.ok (value, []))) →
        2 * tokens.length + 1 ≤ fuel →
          ∃ e, target.matches alphanumeric fuel platform = some (.error e)) := by
  simp only [Target.matches, cfgExpression_eq_some.mpr hbody, htokens]
  constructor
  · intro value hvalue
    simp only [hvalue]
    rfl
  · intro hno hfuel
    have hends : (Cfg.expression target.cfg fuel tokens).isSome = true :=
      (read_ends fuel).1 tokens hfuel
    rcases hread : Cfg.expression target.cfg fuel tokens with _ | (e | ⟨value, rest⟩)
    · rw [hread] at hends
      cases hends
    · exact ⟨e, by simp only [hread]⟩
    · have hrest : rest ≠ [] := by
        rintro rfl
        exact hno value hread
      simp only [hread]
      exact ⟨_, if_pos hrest⟩

variable (hascii : ∀ c : Char, c.toNat < 128 → alphanumeric c = isAlphanumeric c)

include hascii

theorem value_of_prints {tree : CfgTree} (h : Prints alphanumeric tree platform) :
    Comes alphanumeric target platform fun answer => answer = .ok (tree.value target.cfg) := by
  obtain ⟨before, after, tokens, text, hbefore, hafter, hspells, hlexes, rfl⟩ := h
  have htrim : trim (before ++ ("cfg(".toList ++ (text ++ [')'])) ++ after) =
      "cfg(".toList ++ (text ++ [')']) := by
    refine trim_between hbefore hafter ?_ ?_ (by simp)
    · intro c hc
      obtain rfl : 'c' = c := Option.some.inj hc
      decide
    · intro c hc
      rw [← List.append_assoc, List.getLast?_concat] at hc
      obtain rfl : ')' = c := Option.some.inj hc
      decide
  have htokens : tokenize alphanumeric text text = .ok tokens := by
    have halone : Lexes alphanumeric [] tokens text := hlexes.congr (by simp)
    have hcut : tokenize alphanumeric text (text ++ []) = _ := tokenize_lexes hascii halone
    rw [List.append_nil, tokenize] at hcut
    simpa [Except.map] using hcut
  refine ⟨2 * tokens.length, fun fuel hfuel => ⟨_, ?_, rfl⟩⟩
  have hread : Cfg.expression target.cfg fuel (tokens ++ []) = _ :=
    (spells_read fuel).1 tree tokens [] hspells (ends_of_ne tree (by simp) (by simp)) hfuel
  rw [List.append_nil] at hread
  exact (matches_tokens htrim htokens fuel).1 _ hread

theorem refused_of_leftOver (hbody : trim platform = "cfg(".toList ++ (body ++ [')']))
    (h : LeftOver alphanumeric platform) (htokens : tokenize alphanumeric body body = .ok tokens)
    (fuel : ℕ) (hfuel : 2 * tokens.length + 1 ≤ fuel) (value : Bool) :
    Cfg.expression target.cfg fuel tokens ≠ some (.ok (value, [])) := by
  obtain ⟨tree, front, text, rest, hspells, hlexes, htrim, hne, hclose, hstops⟩ := h
  have hsame : body ++ [')'] = text ++ rest := List.append_cancel_left (hbody.symm.trans htrim)
  -- the closing parenthesis is the last of the words left over
  have hlast : rest = rest.dropLast ++ [')'] := by
    refine getLast?_eq_some_append.mp ?_
    have hwhole := congrArg List.getLast? hsame
    rw [List.getLast?_concat, List.getLast?_append_of_ne_nil _ hne] at hwhole
    exact hwhole.symm
  have htext : body = text ++ rest.dropLast := by
    have hwhole : body ++ [')'] = text ++ rest.dropLast ++ [')'] := by
      rw [hsame, List.append_assoc, ← hlast]
    exact List.append_cancel_right hwhole
  obtain ⟨c, junk, hjunk⟩ : ∃ c junk, rest.dropLast = c :: junk := by
    refine List.exists_cons_of_ne_nil fun hnil => hclose ?_
    rw [hlast, hnil]
    rfl
  have hhead : rest.head? = some c := by
    rw [hlast, hjunk]
    rfl
  obtain ⟨hblank, hgoes⟩ := hstops c hhead
  have hlexes' : Lexes alphanumeric (c :: junk) front text :=
    hlexes.congr fun d hd => hhead.trans hd
  rw [htext, hjunk, tokenize_lexes hascii hlexes'] at htokens
  cases hlater : tokenize alphanumeric (text ++ c :: junk) (c :: junk) with
  | error e =>
    rw [hlater] at htokens
    cases htokens
  | ok later =>
    rw [hlater] at htokens
    cases htokens
    obtain ⟨hlaterne, hequals, hopen⟩ := head_tokenize hblank hlater
    have hends : Ends tree later.head? := by
      cases tree with
      | name n =>
        obtain ⟨hnot, hgroup⟩ := hgoes n rfl
        exact ⟨fun heq => hnot (hequals heq), fun hn heq => hgroup hn (hopen heq)⟩
      | _ => trivial
    rw [List.length_append] at hfuel
    rw [(spells_read fuel).1 tree front later hspells hends (by omega)]
    intro heq
    cases heq
    exact hlaterne rfl

theorem refused_of_unbalanced (hbody : trim platform = "cfg(".toList ++ (body ++ [')']))
    (h : Unbalanced platform) (htokens : tokenize alphanumeric body body = .ok tokens)
    (fuel : ℕ) (value : Bool) : Cfg.expression target.cfg fuel tokens ≠ some (.ok (value, [])) := by
  intro hread
  have hdepth := ((depth_read fuel).1 tokens value [] hread).2 1
  refine h ?_
  have hsides : sides false (trim platform) = .opening :: (brackets tokens ++ [.closing]) := by
    rw [hbody]
    exact congrArg (Bracket.opening :: ·) (sides_tokenize hascii htokens [')'])
  rw [Brackets.Balanced, hsides, depth_opening, depth_append, hdepth]
  rfl

/-- A platform is judged as the grammar says exactly when it is a `cfg(…)` or
has nothing to refuse. -/
theorem cfg_followed (target : Target) (platform : Text) :
    Follows alphanumeric target platform ↔
      Wrapped platform ∨ ¬(LeftOver alphanumeric platform ∨ Unbalanced platform) := by
  constructor
  · intro h
    by_contra hneither
    rw [not_or, not_not] at hneither
    obtain ⟨enough, hrefused⟩ := h.refused hneither.2
    obtain ⟨answer, hmatches, e, rfl⟩ := hrefused enough le_rfl
    rw [matches_bare hneither.1] at hmatches
    cases hmatches
  · intro h
    by_cases hwrapped : Wrapped platform
    · obtain ⟨body, hbody⟩ := hwrapped
      cases htokens : tokenize alphanumeric body body with
      | error e =>
        have herror : ∀ fuel, target.matches alphanumeric fuel platform = some (.error e) :=
          matches_error hbody htokens
        refine ⟨⟨0, fun fuel _ => ⟨_, herror fuel, trivial⟩⟩, ?_,
          fun _ => ⟨0, fun fuel _ => ⟨_, herror fuel, e, rfl⟩⟩⟩
        intro tree hprints
        exact value_of_prints hascii hprints
      | ok tokens =>
        refine ⟨⟨2 * tokens.length + 1, fun fuel hfuel => ?_⟩, ?_, fun hwrong =>
          ⟨2 * tokens.length + 1, fun fuel hfuel => ?_⟩⟩
        · by_cases hread : ∃ value, Cfg.expression target.cfg fuel tokens = some (.ok (value, []))
          · obtain ⟨value, hread⟩ := hread
            exact ⟨_, (matches_tokens hbody htokens fuel).1 value hread, trivial⟩
          · obtain ⟨e, he⟩ := (matches_tokens hbody htokens fuel).2
              (fun value hok => hread ⟨value, hok⟩) hfuel
            exact ⟨_, he, trivial⟩
        · intro tree hprints
          exact value_of_prints hascii hprints
        · obtain ⟨e, he⟩ := (matches_tokens hbody htokens fuel).2 (fun value => by
            rcases hwrong with hleft | hunbalanced
            · exact refused_of_leftOver hascii hbody hleft htokens fuel hfuel value
            · exact refused_of_unbalanced hascii hbody hunbalanced htokens fuel value) hfuel
          exact ⟨_, he, e, rfl⟩
    · refine ⟨⟨0, fun fuel _ => ⟨_, matches_bare hwrapped fuel, trivial⟩⟩, ?_,
        fun hwrong => absurd hwrong (h.resolve_left hwrapped)⟩
      intro tree hprints
      exact value_of_prints hascii hprints

end Followed

/-- `cfg(unix` is no error, and applies to no target. -/
theorem unclosed_unrefused : ¬Follows isAlphanumeric ⟨"host".toList, []⟩ "cfg(unix".toList := by
  intro h
  have hbare : ¬Wrapped "cfg(unix".toList := by
    rintro ⟨body, hbody⟩
    have hlast := congrArg List.getLast? hbody
    rw [← List.append_assoc, List.getLast?_concat] at hlast
    exact absurd hlast (by decide)
  have hunbalanced : Unbalanced "cfg(unix".toList := by
    rw [Unbalanced, Brackets.Balanced]
    decide
  obtain ⟨enough, hrefused⟩ := h.refused (.inr hunbalanced)
  obtain ⟨answer, hmatches, e, rfl⟩ := hrefused enough le_rfl
  rw [matches_bare hbare] at hmatches
  cases hmatches

theorem unclosed_followed :
    Follows isAlphanumeric ⟨"host".toList, []⟩ "cfg(unix".toList ↔ Wrapped "cfg(unix".toList ∨
        ¬(LeftOver isAlphanumeric "cfg(unix".toList ∨ Unbalanced "cfg(unix".toList) :=
  cfg_followed (fun _ _ => rfl) ⟨"host".toList, []⟩ "cfg(unix".toList

end Stado.Kompilator
