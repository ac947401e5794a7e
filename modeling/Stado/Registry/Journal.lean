import Mathlib.Data.List.Dedup
import Stado.Library.Decimals
import Stado.Library.Json

/-!
# What a registry write changed

The dotted paths a write is recorded with, the reading of a dotted path, and the
records a path selects. The walk lists one path for every difference it stops
at; a path is compared with another segment by segment, as it is spelled.
-/

namespace Stado.Registry

open Json Option
open Json.Value (get keys)
open Decimals (value)

/-! ## The dotted paths of a change -/

def nameOf : Value → Option Text
  | .object fields =>
    match get fields "name".toList with
    | some (.string name) => some name
    | _ => none
  | _ => none

/-- An array's elements by their `name`, when every element carries one. -/
def named : List Value → Option (List (Text × Value))
  | [] => some []
  | item :: items =>
    match nameOf item, named items with
    | some name, some rest => some ((name, item) :: rest)
    | _, _ => none

def distinct (names : List Text) : List Text := (names.dedup).insertionSort (· ≤ ·)

def beside (old new : Fields) : List (Text × Option Value × Option Value) :=
  (distinct (keys old ++ keys new)).map fun key => (key, get old key, get new key)

def parts : Value → Value → Option (List (Text × Option Value × Option Value))
  | .object old, .object new => some (beside old new)
  | .array old, .array new =>
    match named old, named new with
    | some old, some new => some (beside old new)
    | _, _ => none
  | _, _ => none

def join (place segment : Text) : Text := if place = [] then segment else place ++ '.' :: segment

theorem mem_named {items : List Value} {found : Fields} (h : named items = some found) {name : Text}
    {item : Value} (hmem : (name, item) ∈ found) : item ∈ items ∧ nameOf item = some name := by
  induction items generalizing found with
  | nil =>
    obtain rfl := Option.some.inj h
    cases hmem
  | cons first rest ih =>
    rw [named] at h
    rcases hname : nameOf first with _ | firstName
    · rw [hname] at h
      cases h
    · rcases hrest : named rest with _ | later
      · rw [hname, hrest] at h
        cases h
      · rw [hname, hrest] at h
        obtain rfl := Option.some.inj h
        rcases List.mem_cons.mp hmem with heq | hmem
        · obtain ⟨rfl, rfl⟩ := Prod.mk.inj heq
          exact ⟨List.mem_cons_self .., hname⟩
        · exact ⟨List.mem_cons_of_mem _ (ih hrest hmem).1, (ih hrest hmem).2⟩

variable {old new : Fields} {found : List (Text × Option Value × Option Value)} {key : Text}

theorem mem_beside {x y : Option Value}
    (h : (key, x, y) ∈ beside old new) : x = get old key ∧ y = get new key := by
  obtain ⟨found, -, heq⟩ := List.mem_map.mp h
  obtain ⟨rfl, hxy⟩ := Prod.mk.inj heq
  obtain ⟨rfl, rfl⟩ := Prod.mk.inj hxy
  exact ⟨rfl, rfl⟩

theorem sizeOf_part {before after : Value} (h : parts before after = some found) {x : Value}
    {y : Option Value} (hmem : (key, some x, y) ∈ found) : sizeOf x < sizeOf before := by
  unfold parts at h
  split at h
  · obtain rfl := Option.some.inj h
    exact Value.sizeOf_get (mem_beside hmem).1.symm
  · split at h
    · rename_i hold hnew
      obtain rfl := Option.some.inj h
      have hget := (mem_beside hmem).1.symm
      exact Value.sizeOf_item (mem_named hold (Value.mem_of_get hget)).1
    · cases h
  · cases h

def walk (before after : Value) (place : Text) : List Text :=
  if before = after then []
  else
    match h : parts before after with
    | none => [place]
    | some found => found.attach.flatMap fun part =>
      match hpart : part.1 with
      | (segment, some old, some new) => walk old new (join place segment)
      | (_, none, none) => []
      | (segment, _, _) => [join place segment]
termination_by sizeOf before
decreasing_by exact sizeOf_part h (hpart ▸ part.2)

def changedPaths (before after : Value) : List Text := walk before after []

/-- `str::parse::<usize>` -/
def parseIndex (segment : Text) : Option ℕ :=
  let numeral := if segment.head? = some '+' then segment.tail else segment
  if numeral ≠ [] ∧ numeral.all Char.isDigit ∧ value numeral < 2 ^ 64 then some (value numeral)
  else none

/-- A key of an object, an index or a `name` of an array. -/
def step (v : Value) (segment : Text) : Option Value :=
  match v with
  | .object fields => get fields segment
  | .array items =>
    match parseIndex segment with
    | some index => items[index]?
    | none => items.find? fun item => nameOf item = some segment
  | _ => none

def selectFrom (v : Value) (segments : List Text) : Option Value := segments.foldlM step v

/-- The subtree a dotted path names. -/
def select (document : Value) (path : Text) : Option Value :=
  selectFrom document ((path.splitOn '.').filter (· ≠ []))

def within (inner outer : Text) : Bool :=
  outer = [] || inner = outer || (outer ++ ['.']).isPrefixOf inner

/-- One path names the other or a part of it. -/
def touches (changed query : Text) : Bool := within changed query || within query changed

def listed (path : Option Text) (changed : Option (List Text)) : Bool :=
  match path, changed with
  | some query, some changed => changed.any fun path => touches path query
  | _, _ => true

/-! ## Paths as they are spelled -/

/-- The segments of a dotted path; the empty path has none. -/
def spelled (path : Text) : List Text := if path = [] then [] else path.splitOn '.'

/-- A segment that a dotted path can spell. -/
def Plain (segment : Text) : Prop := segment ≠ [] ∧ '.' ∉ segment

def dotted (route : List Text) : Text := route.foldl join []

theorem spelled_of_ne {path : Text} (h : path ≠ []) : spelled path = path.splitOn '.' := if_neg h

theorem spelled_ne_nil {path : Text} (h : path ≠ []) : spelled path ≠ [] := by
  rw [spelled_of_ne h]
  exact List.splitOn_ne_nil '.' path

variable {segment place : Text} {before after : Value} {route : List Text}

theorem splitOn_plain (h : Plain segment) : segment.splitOn '.' = [segment] :=
  List.splitOn_eq_singleton h.2

theorem intercalate_append (separator : Text) {first later : List Text} (hfirst : first ≠ [])
    (hlater : later ≠ []) : List.intercalate separator (first ++ later) =
      List.intercalate separator first ++ (separator ++ List.intercalate separator later) := by
  induction first with
  | nil => exact absurd rfl hfirst
  | cons text rest ih =>
    rcases rest with _ | ⟨next, rest⟩
    · rw [List.singleton_append, List.intercalate_cons_of_ne_nil hlater,
        List.intercalate_singleton, List.append_assoc]
    · rw [List.cons_append, List.intercalate_cons_of_ne_nil (by simp),
        ih (List.cons_ne_nil _ _), List.intercalate_cons_cons, List.append_assoc,
        List.append_assoc, List.append_assoc]

theorem within_iff (inner outer : Text) :
    within inner outer = true ↔ spelled outer <+: spelled inner := by
  unfold within
  rw [Bool.or_eq_true, Bool.or_eq_true, decide_eq_true_eq, decide_eq_true_eq,
    List.isPrefixOf_iff_prefix]
  constructor
  · rintro ((rfl | rfl) | hprefix)
    · exact List.nil_prefix
    · exact List.prefix_rfl
    · obtain ⟨rest, hrest⟩ := hprefix
      by_cases houter : outer = []
      · rw [houter]
        exact List.nil_prefix
      · have hinner : inner = outer ++ '.' :: rest := by
          rw [← hrest, List.append_assoc]
          rfl
        rw [hinner, spelled_of_ne houter, spelled_of_ne (by simp),
          List.splitOn_append_cons_self]
        exact List.prefix_append ..
  · intro hprefix
    by_cases houter : outer = []
    · exact .inl (.inl houter)
    · have hinner : inner ≠ [] := by
        rintro rfl
        exact spelled_ne_nil houter (List.prefix_nil.mp hprefix)
      obtain ⟨rest, hrest⟩ := hprefix
      rw [spelled_of_ne houter, spelled_of_ne hinner] at hrest
      have hback := congrArg (List.intercalate ['.']) hrest
      rw [List.intercalate_splitOn] at hback
      rcases rest with _ | ⟨first, rest⟩
      · rw [List.append_nil, List.intercalate_splitOn] at hback
        exact .inl (.inr hback.symm)
      · refine .inr ⟨List.intercalate ['.'] (first :: rest), ?_⟩
        rw [← hback, intercalate_append _ (List.splitOn_ne_nil '.' outer) (List.cons_ne_nil _ _),
          List.intercalate_splitOn, List.append_assoc]

theorem touches_iff (changed query : Text) : touches changed query = true ↔
    spelled query <+: spelled changed ∨ spelled changed <+: spelled query := by
  unfold touches
  rw [Bool.or_eq_true, within_iff, within_iff]

theorem join_ne_nil (h : place ≠ []) (segment : Text) : join place segment ≠ [] := by
  rw [join, if_neg h]
  simp

theorem spelled_join (h : place ≠ []) (segment : Text) :
    spelled (join place segment) = spelled place ++ segment.splitOn '.' := by
  rw [spelled_of_ne (join_ne_nil h segment), spelled_of_ne h, join, if_neg h,
    List.splitOn_append_cons_self]

theorem spelled_foldl (h : place ≠ []) (route : List Text) :
    spelled (route.foldl join place) = spelled place ++ route.flatMap (List.splitOn '.') := by
  induction route generalizing place with
  | nil => rw [List.foldl_nil, List.flatMap_nil, List.append_nil]
  | cons segment route ih =>
    rw [List.foldl_cons, ih (join_ne_nil h segment), spelled_join h, List.flatMap_cons,
      List.append_assoc]

theorem spelled_dotted_cons (h : segment ≠ []) (route : List Text) :
    spelled (dotted (segment :: route)) = (segment :: route).flatMap (List.splitOn '.') := by
  have hfirst : join [] segment = segment := if_pos rfl
  rw [dotted, List.foldl_cons, hfirst, spelled_foldl h, spelled_of_ne h, List.flatMap_cons]

theorem flatMap_plain (h : ∀ segment ∈ route, Plain segment) :
    route.flatMap (List.splitOn '.') = route := by
  induction route with
  | nil => rfl
  | cons segment route ih =>
    rw [List.flatMap_cons, splitOn_plain (h segment (List.mem_cons_self ..)),
      ih fun later hlater => h later (List.mem_cons_of_mem _ hlater)]
    rfl

theorem spelled_dotted (h : ∀ segment ∈ route, Plain segment) : spelled (dotted route) = route := by
  rcases route with _ | ⟨segment, route⟩
  · rfl
  · rw [spelled_dotted_cons (h segment (List.mem_cons_self ..)).1, flatMap_plain h]

/-! ## Reading -/

theorem selectFrom_cons (v : Value) (segment : Text) (route : List Text) :
    selectFrom v (segment :: route) = (step v segment).bind (selectFrom · route) :=
  List.foldlM_cons ..

theorem selectFrom_single (v : Value) (segment : Text) :
    selectFrom v [segment] = step v segment := by
  rw [selectFrom_cons]
  exact bind_fun_some (step v segment)

theorem select_spelled (document : Value) (path : Text) :
    select document path = selectFrom document ((spelled path).filter (· ≠ [])) := by
  unfold select spelled
  split_ifs with h
  · rw [h]
    rfl
  · rfl

theorem filter_plain (h : ∀ segment ∈ route, Plain segment) : route.filter (· ≠ []) = route :=
  List.filter_eq_self.mpr fun segment hsegment => decide_eq_true (h segment hsegment).1

theorem select_dotted (document : Value) (h : ∀ segment ∈ route, Plain segment) :
    select document (dotted route) = selectFrom document route := by
  rw [select_spelled, spelled_dotted h, filter_plain h]

/-! ## Where the walk stops -/

/-- A difference at which the comparison of two values stops, and the keys and names to it. -/
inductive Stops : Value → Value → List Text → Prop
  | whole {before after : Value} (hne : before ≠ after) (hparts : parts before after = none) :
      Stops before after []
  | alone {before after : Value} {found : List (Text × Option Value × Option Value)}
      {segment : Text} {old new : Option Value} (hparts : parts before after = some found)
      (hmem : (segment, old, new) ∈ found) (hne : old ≠ new) (halone : old = none ∨ new = none) :
      Stops before after [segment]
  | inside {before after : Value} {found : List (Text × Option Value × Option Value)}
      {segment : Text} {old new : Value} {route : List Text}
      (hparts : parts before after = some found)
      (hmem : (segment, some old, some new) ∈ found) (hrest : Stops old new route) :
      Stops before after (segment :: route)

theorem beside_of_ne (h : get old key ≠ get new key) :
    (key, get old key, get new key) ∈ beside old new := by
  have hkey : key ∈ keys old ++ keys new := by
    by_contra hout
    rw [List.mem_append, not_or] at hout
    exact h ((Value.get_eq_none hout.1).trans (Value.get_eq_none hout.2).symm)
  have hdistinct : key ∈ distinct (keys old ++ keys new) :=
    (List.mem_insertionSort _).mpr (List.mem_dedup.mpr hkey)
  exact List.mem_map_of_mem (f := fun key => (key, get old key, get new key)) hdistinct

theorem parts_same {v : Value} (h : parts v v = some found) {old new : Option Value}
    (hmem : (segment, old, new) ∈ found) : old = new := by
  cases v with
  | object fields =>
    obtain rfl := Option.some.inj h
    obtain ⟨rfl, rfl⟩ := mem_beside hmem
    rfl
  | array items =>
    rw [parts] at h
    rcases hnamed : named items with _ | families
    · rw [hnamed] at h
      cases h
    · rw [hnamed] at h
      obtain rfl := Option.some.inj h
      obtain ⟨rfl, rfl⟩ := mem_beside hmem
      rfl
  | _ => cases h

theorem Stops.ne (h : Stops before after route) : before ≠ after := by
  induction h with
  | whole hne _ => exact hne
  | alone hparts hmem hne _ =>
    rintro rfl
    exact hne (parts_same hparts hmem)
  | inside hparts hmem _ ih =>
    rintro rfl
    exact ih (Option.some.inj (parts_same hparts hmem))

theorem walk_same (v : Value) (place : Text) : walk v v place = [] := by
  rw [walk, if_pos rfl]

theorem walk_whole (hne : before ≠ after)
    (hparts : parts before after = none) (place : Text) : walk before after place = [place] := by
  rw [walk, if_neg hne]
  split
  · rfl
  · rename_i hsome
    rw [hparts] at hsome
    cases hsome

theorem mem_walk_parts (hne : before ≠ after) (hparts : parts before after = some found)
    (place path : Text) : path ∈ walk before after place ↔
      (∃ segment old new, (segment, some old, some new) ∈ found ∧
        path ∈ walk old new (join place segment)) ∨
      ∃ segment old new, (segment, old, new) ∈ found ∧ old ≠ new ∧
        (old = none ∨ new = none) ∧ path = join place segment := by
  rw [walk, if_neg hne]
  split
  · rename_i hnone
    rw [hparts] at hnone
    cases hnone
  · rename_i other hother
    obtain rfl := Option.some.inj (hparts.symm.trans hother)
    rw [List.mem_flatMap]
    constructor
    · rintro ⟨⟨⟨segment, old, new⟩, hmem⟩, -, hin⟩
      rcases old with _ | old <;> rcases new with _ | new
      · cases hin
      · exact .inr ⟨segment, none, some new, hmem, (some_ne_none new).symm, .inl rfl,
          List.mem_singleton.mp hin⟩
      · exact .inr ⟨segment, some old, none, hmem, some_ne_none old, .inr rfl,
          List.mem_singleton.mp hin⟩
      · exact .inl ⟨segment, old, new, hmem, hin⟩
    · rintro (⟨segment, old, new, hmem, hin⟩ | ⟨segment, old, new, hmem, hne, halone, rfl⟩)
      · exact ⟨⟨_, hmem⟩, List.mem_attach .., hin⟩
      · refine ⟨⟨_, hmem⟩, List.mem_attach .., ?_⟩
        rcases old with _ | old <;> rcases new with _ | new
        · exact absurd rfl hne
        · exact List.mem_singleton_self _
        · exact List.mem_singleton_self _
        · rcases halone with halone | halone <;> cases halone

theorem mem_walk (before after : Value) (place path : Text) :
    path ∈ walk before after place ↔
      ∃ route, Stops before after route ∧ path = route.foldl join place := by
  induction hsize : sizeOf before using Nat.strong_induction_on generalizing before after place with
  | _ size ih =>
    by_cases heq : before = after
    · rw [heq, walk_same]
      constructor
      · intro hmem
        cases hmem
      · rintro ⟨route, hstops, -⟩
        exact absurd rfl hstops.ne
    · rcases hparts : parts before after with _ | found
      · rw [walk_whole heq hparts, List.mem_singleton]
        constructor
        · rintro rfl
          exact ⟨[], Stops.whole heq hparts, rfl⟩
        · rintro ⟨route, hstops, rfl⟩
          cases hstops with
          | whole _ _ => rfl
          | alone hsome _ _ _ => cases hparts.symm.trans hsome
          | inside hsome _ _ => cases hparts.symm.trans hsome
      · rw [mem_walk_parts heq hparts]
        have hchild : ∀ {segment : Text} {old new : Value},
            (segment, some old, some new) ∈ found → (path ∈ walk old new (join place segment) ↔
              ∃ route, Stops old new route ∧ path = route.foldl join (join place segment)) := by
          intro segment old new hmem
          exact ih _ (hsize ▸ sizeOf_part hparts hmem) old new (join place segment) rfl
        constructor
        · rintro (⟨segment, old, new, hmem, hin⟩ | ⟨segment, old, new, hmem, hne, halone, rfl⟩)
          · obtain ⟨route, hstops, hpath⟩ := (hchild hmem).mp hin
            exact ⟨segment :: route, Stops.inside hparts hmem hstops, hpath⟩
          · exact ⟨[segment], Stops.alone hparts hmem hne halone, rfl⟩
        · rintro ⟨route, hstops, hpath⟩
          cases hstops with
          | whole _ hnone => cases hparts.symm.trans hnone
          | alone hsome hmem hne halone =>
            obtain rfl := Option.some.inj (hparts.symm.trans hsome)
            exact .inr ⟨_, _, _, hmem, hne, halone, hpath⟩
          | inside hsome hmem hrest =>
            obtain rfl := Option.some.inj (hparts.symm.trans hsome)
            exact .inl ⟨_, _, _, hmem, (hchild hmem).mpr ⟨_, hrest, hpath⟩⟩

theorem mem_changedPaths (before after : Value) (path : Text) :
    path ∈ changedPaths before after ↔ ∃ route, Stops before after route ∧ path = dotted route :=
  mem_walk before after [] path

theorem changedPaths_eq_nil (before after : Value) :
    changedPaths before after = [] ↔ ∀ route, ¬ Stops before after route := by
  rw [List.eq_nil_iff_forall_not_mem]
  constructor
  · intro h route hstops
    exact h (dotted route) ((mem_changedPaths ..).mpr ⟨route, hstops, rfl⟩)
  · intro h path hmem
    obtain ⟨route, hstops, -⟩ := (mem_changedPaths ..).mp hmem
    exact h route hstops

theorem listed_iff (before after : Value) (query : Text) :
    listed (some query) (some (changedPaths before after)) = true ↔
      ∃ route, Stops before after route ∧
        (spelled query <+: spelled (dotted route) ∨ spelled (dotted route) <+: spelled query) := by
  rw [listed, List.any_eq_true]
  constructor
  · rintro ⟨path, hmem, htouches⟩
    obtain ⟨route, hstops, rfl⟩ := (mem_changedPaths ..).mp hmem
    exact ⟨route, hstops, (touches_iff ..).mp htouches⟩
  · rintro ⟨route, hstops, htouches⟩
    exact ⟨dotted route, (mem_changedPaths ..).mpr ⟨route, hstops, rfl⟩,
      (touches_iff ..).mpr htouches⟩

end Stado.Registry
