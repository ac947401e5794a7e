import Stado.Registry.Journal

/-!
# A registry history that misses no change

Keys are told apart by themselves, the elements of an array by their `name`
alone: their order, an element behind another of its name, and the position
`pull` also reads them by leave no path.
-/

namespace Stado.Registry

open Json Decimals
open Json.Value (get keys)

def Dotted (path : Text) : Prop := ∀ segment ∈ spelled path, segment ≠ []

/-- The changed paths of a write say all that it changed, to whoever asks for such a path. -/
structure Faithful (asked : Text → Prop) (before after : Value) : Prop where
  empty_iff : changedPaths before after = [] ↔ before = after
  differs : ∀ path ∈ changedPaths before after, select before path ≠ select after path
  touched : ∀ query, asked query → select before query ≠ select after query →
    listed (some query) (some (changedPaths before after)) = true

/-- Two documents that differ only under keys a path can spell: where two values differ,
both are objects, or they are not told apart by keys or names at all. -/
inductive Tracked : Value → Value → Prop
  | same {v : Value} : Tracked v v
  | whole {before after : Value} (hparts : parts before after = none) : Tracked before after
  | fields {old new : Fields} (hplain : ∀ key, get old key ≠ get new key → Plain key)
      (hboth : ∀ key x y, get old key = some x → get new key = some y → Tracked x y) :
      Tracked (.object old) (.object new)

/-- As `Tracked`, but arrays of named elements may differ too. -/
inductive Spelt : Value → Value → Prop
  | same {v : Value} : Spelt v v
  | whole {before after : Value} (hparts : parts before after = none) : Spelt before after
  | fields {old new : Fields} (hplain : ∀ key, get old key ≠ get new key → Plain key)
      (hboth : ∀ key x y, get old key = some x → get new key = some y → Spelt x y) :
      Spelt (.object old) (.object new)
  | elements {old new : List Value} {before after : Fields} (hold : named old = some before)
      (hnew : named new = some after) (hnames : [] ∉ keys before ++ keys after) :
      Spelt (.array old) (.array new)

/-! ## Changes under plain keys -/

variable {before after : Value} {route : List Text}

/-- Every difference the comparison of tracked documents stops at is read where it is listed. -/
theorem Tracked.stops (h : Tracked before after) (hstops : Stops before after route) :
    (∀ segment ∈ route, Plain segment) ∧ selectFrom before route ≠ selectFrom after route := by
  induction h generalizing route with
  | same => exact absurd rfl hstops.ne
  | whole hparts =>
    cases hstops with
    | whole hne _ => exact ⟨nofun, fun heq => hne (Option.some.inj heq)⟩
    | alone hsome _ _ _ => cases hparts.symm.trans hsome
    | inside hsome _ _ => cases hparts.symm.trans hsome
  | @fields old new hplain hboth ih =>
    cases hstops with
    | whole _ hparts => cases hparts
    | alone hsome hmem hne halone =>
      obtain rfl := Option.some.inj hsome
      obtain ⟨rfl, rfl⟩ := mem_beside hmem
      rename_i segment
      have hkey := hplain segment hne
      refine ⟨fun other hother => List.mem_singleton.mp hother ▸ hkey, ?_⟩
      rw [selectFrom_single, selectFrom_single]
      exact hne
    | inside hsome hmem hrest =>
      obtain rfl := Option.some.inj hsome
      rename_i segment x y rest
      obtain ⟨hx, hy⟩ := mem_beside hmem
      obtain ⟨hrestPlain, hreads⟩ := ih segment x y hx.symm hy.symm hrest
      have hkey : Plain segment := by
        apply hplain
        rw [← hx, ← hy]
        exact fun heq => hrest.ne (Option.some.inj heq)
      refine ⟨List.forall_mem_cons.mpr ⟨hkey, hrestPlain⟩, ?_⟩
      rw [selectFrom_cons, selectFrom_cons, step, step, ← hx, ← hy]
      exact hreads

theorem exists_ne_get {old new : Fields} (hold : Value.Ascending old) (hnew : Value.Ascending new)
    (h : old ≠ new) : ∃ key, get old key ≠ get new key := by
  by_contra hall
  rw [not_exists] at hall
  exact h (Value.fields_ext hold hnew fun key => not_not.mp (hall key))

theorem Tracked.exists_stops (h : Tracked before after) (hbefore : before.Proper)
    (hafter : after.Proper) (hne : before ≠ after) : ∃ route, Stops before after route := by
  induction h with
  | same => exact absurd rfl hne
  | whole hparts => exact ⟨[], Stops.whole hne hparts⟩
  | @fields old new hplain hboth ih =>
    obtain ⟨key, hkey⟩ := exists_ne_get hbefore.1 hafter.1 fun heq => hne (congrArg _ heq)
    have hmem := beside_of_ne hkey
    rcases hx : get old key with _ | x
    · exact ⟨[key], Stops.alone rfl hmem hkey (.inl hx)⟩
    · rcases hy : get new key with _ | y
      · exact ⟨[key], Stops.alone rfl hmem hkey (.inr hy)⟩
      · have hxy : x ≠ y := by
          rintro rfl
          exact hkey (hx.trans hy.symm)
        obtain ⟨route, hroute⟩ := ih key x y hx hy (hbefore.2.of_get hx) (hafter.2.of_get hy) hxy
        rw [hx, hy] at hmem
        exact ⟨key :: route, Stops.inside rfl hmem hroute⟩

/-- What reads differently lies at, above or below a difference the comparison stops at. -/
theorem Tracked.touched (h : Tracked before after) (hbefore : before.Proper) (hafter : after.Proper)
    {query : List Text} (hne : selectFrom before query ≠ selectFrom after query) :
    ∃ route, Stops before after route ∧ (query <+: route ∨ route <+: query) := by
  induction h generalizing query with
  | same => exact absurd rfl hne
  | @whole before after hparts =>
    refine ⟨[], Stops.whole ?_ hparts, .inr List.nil_prefix⟩
    rintro rfl
    exact hne rfl
  | @fields old new hplain hboth ih =>
    rcases query with _ | ⟨key, query⟩
    · have hvalues : Value.object old ≠ .object new := fun heq => hne (congrArg some heq)
      obtain ⟨route, hroute⟩ := (Tracked.fields hplain hboth).exists_stops hbefore hafter hvalues
      exact ⟨route, hroute, .inl List.nil_prefix⟩
    · rw [selectFrom_cons, selectFrom_cons, step, step] at hne
      have hkey : get old key ≠ get new key := by
        intro heq
        rw [heq] at hne
        exact hne rfl
      have hmem := beside_of_ne hkey
      have hone : [key] <+: key :: query := by
        rw [List.cons_prefix_cons]
        exact ⟨rfl, List.nil_prefix⟩
      rcases hx : get old key with _ | x
      · exact ⟨[key], Stops.alone rfl hmem hkey (.inl hx), .inr hone⟩
      · rcases hy : get new key with _ | y
        · exact ⟨[key], Stops.alone rfl hmem hkey (.inr hy), .inr hone⟩
        · rw [hx, hy] at hne hmem
          obtain ⟨route, hroute, hprefix⟩ :=
            ih key x y hx hy (hbefore.2.of_get hx) (hafter.2.of_get hy) hne
          refine ⟨key :: route, Stops.inside rfl hmem hroute, ?_⟩
          rw [List.cons_prefix_cons, List.cons_prefix_cons]
          exact hprefix.imp (fun h => ⟨rfl, h⟩) fun h => ⟨rfl, h⟩

theorem faithful_of_tracked (h : Tracked before after)
    (hbefore : before.Proper) (hafter : after.Proper) : Faithful Dotted before after := by
  constructor
  · rw [changedPaths_eq_nil]
    constructor
    · intro hnone
      by_contra hne
      obtain ⟨route, hroute⟩ := h.exists_stops hbefore hafter hne
      exact hnone route hroute
    · rintro rfl route hroute
      exact hroute.ne rfl
  · intro path hmem
    obtain ⟨route, hstops, rfl⟩ := (mem_changedPaths ..).mp hmem
    obtain ⟨hplain, hreads⟩ := h.stops hstops
    rw [select_dotted _ hplain, select_dotted _ hplain]
    exact hreads
  · intro query hdotted hreads
    have hall : (spelled query).filter (· ≠ []) = spelled query :=
      List.filter_eq_self.mpr fun segment hsegment => decide_eq_true (hdotted segment hsegment)
    rw [select_spelled, select_spelled, hall] at hreads
    obtain ⟨route, hstops, hprefix⟩ := h.touched hbefore hafter hreads
    rw [listed_iff]
    refine ⟨route, hstops, ?_⟩
    rw [spelled_dotted (h.stops hstops).1]
    exact hprefix

/-! ## Lists of named elements that differ -/

/-- The keys to two lists of named elements that differ. -/
inductive Confused : Value → Value → List Text → Prop
  | here {old new : List Value} {before after : Fields} (hold : named old = some before)
      (hnew : named new = some after) (hnames : [] ∉ keys before ++ keys after)
      (hne : old ≠ new) : Confused (.array old) (.array new) []
  | field {old new : Fields} {key : Text} {x y : Value} {route : List Text} (hplain : Plain key)
      (hx : get old key = some x) (hy : get new key = some y) (hrest : Confused x y route) :
      Confused (.object old) (.object new) (key :: route)

theorem Confused.plain (h : Confused before after route) : ∀ segment ∈ route, Plain segment := by
  induction h with
  | here _ _ _ _ => exact nofun
  | field hplain _ _ _ ih => exact List.forall_mem_cons.mpr ⟨hplain, ih⟩

theorem Spelt.tracked_or (h : Spelt before after) :
    Tracked before after ∨ ∃ route, Confused before after route := by
  induction h with
  | same => exact .inl Tracked.same
  | whole hparts => exact .inl (Tracked.whole hparts)
  | @elements old new before after hold hnew hnames =>
    by_cases heq : old = new
    · rw [heq]
      exact .inl Tracked.same
    · exact .inr ⟨[], Confused.here hold hnew hnames heq⟩
  | @fields old new hplain hboth ih =>
    by_cases hall : ∀ key x y, get old key = some x → get new key = some y → Tracked x y
    · exact .inl (Tracked.fields hplain hall)
    · simp only [not_forall] at hall
      obtain ⟨key, x, y, hx, hy, hnot⟩ := hall
      obtain ⟨route, hroute⟩ := (ih key x y hx hy).resolve_left hnot
      have hkey : Plain key := by
        apply hplain
        rw [hx, hy]
        intro heq
        rw [Option.some.inj heq] at hnot
        exact hnot Tracked.same
      exact .inr ⟨key :: route, Confused.field hkey hx hy hroute⟩

/-- The elements at one position differ, and every spelling of the position reads them. -/
theorem Confused.reads
    (h : Confused before after route) (hbefore : before.Proper) (hafter : after.Proper) :
    ∃ index < 2 ^ 64, ∀ numeral, parseIndex numeral = some index →
      selectFrom before (route ++ [numeral]) ≠ selectFrom after (route ++ [numeral]) := by
  induction h with
  | @here old new _ _ _ _ _ hne =>
    obtain ⟨index, hindex⟩ : ∃ index : ℕ, old[index]? ≠ new[index]? := by
      by_contra hall
      rw [not_exists] at hall
      exact hne (List.ext_getElem? fun index => not_not.mp (hall index))
    have hlt : index < 2 ^ 64 := by
      by_contra hge
      have hold := hbefore.1
      have hnew := hafter.1
      apply hindex
      rw [List.getElem?_eq_none (by omega), List.getElem?_eq_none (by omega)]
    refine ⟨index, hlt, fun numeral hparse => ?_⟩
    rw [List.nil_append, selectFrom_single, selectFrom_single, step, step, hparse]
    exact hindex
  | @field old new key x y route hplain hx hy _ ih =>
    obtain ⟨index, hlt, hreads⟩ := ih (hbefore.2.of_get hx) (hafter.2.of_get hy)
    refine ⟨index, hlt, fun numeral hparse => ?_⟩
    rw [List.cons_append, selectFrom_cons, selectFrom_cons, step, step, hx, hy]
    exact hreads numeral hparse

/-- No path that is listed lies at such lists or above them. -/
theorem Confused.avoids {route other : List Text} (h : Confused before after route)
    (hspelt : Spelt before after) (hstops : Stops before after other) :
    (∃ segment rest, other = segment :: rest ∧ segment ≠ []) ∧
      ¬ other.flatMap (List.splitOn '.') <+: route := by
  induction h generalizing other with
  | @here old new before after hold hnew hnames hne =>
    have hparts : parts (.array old) (.array new) = some (beside before after) := by
      rw [parts, hold, hnew]
    have hname : ∀ {segment : Text} {x y : Option Value},
        (segment, x, y) ∈ beside before after → segment ≠ [] := by
      rintro segment x y hmem rfl
      obtain ⟨key, hkey, heq⟩ := List.mem_map.mp hmem
      obtain ⟨rfl, -⟩ := Prod.mk.inj heq
      exact hnames (List.mem_dedup.mp ((List.mem_insertionSort _).mp hkey))
    have hlong : ∀ {segment : Text} {rest : List Text},
        ¬ (segment :: rest).flatMap (List.splitOn '.') <+: [] := by
      intro segment rest hprefix
      rw [List.flatMap_cons, List.prefix_nil, List.append_eq_nil_iff] at hprefix
      exact List.splitOn_ne_nil '.' segment hprefix.1
    cases hstops with
    | whole _ hnone => cases hparts.symm.trans hnone
    | alone hsome hmem _ _ =>
      obtain rfl := Option.some.inj (hparts.symm.trans hsome)
      exact ⟨⟨_, _, rfl, hname hmem⟩, hlong⟩
    | inside hsome hmem _ =>
      obtain rfl := Option.some.inj (hparts.symm.trans hsome)
      exact ⟨⟨_, _, rfl, hname hmem⟩, hlong⟩
  | @field old new key x y route hplain hx hy hrest ih =>
    have hkeys : ∀ other, get old other ≠ get new other → Plain other := by
      intro other hother
      cases hspelt with
      | same => exact absurd rfl hother
      | whole hparts => cases hparts
      | fields hall _ => exact hall other hother
    have hchild : Spelt x y := by
      cases hspelt with
      | same =>
        obtain rfl := Option.some.inj (hx.symm.trans hy)
        exact Spelt.same
      | whole hparts => cases hparts
      | fields _ hboth => exact hboth key x y hx hy
    cases hstops with
    | whole _ hnone => cases hnone
    | alone hsome hmem hne halone =>
      obtain rfl := Option.some.inj hsome
      obtain ⟨rfl, rfl⟩ := mem_beside hmem
      rename_i segment
      have hsegment := hkeys segment hne
      refine ⟨⟨_, _, rfl, hsegment.1⟩, fun hprefix => ?_⟩
      rw [List.flatMap_cons, splitOn_plain hsegment, List.singleton_append,
        List.cons_prefix_cons] at hprefix
      rw [ hprefix.1, hx, hy] at halone
      rcases halone with halone | halone <;> cases halone
    | inside hsome hmem hinner =>
      obtain rfl := Option.some.inj hsome
      obtain ⟨hold, hnew⟩ := mem_beside hmem
      rename_i segment oldValue newValue rest
      have hsegment : Plain segment := by
        apply hkeys
        rw [← hold, ← hnew]
        exact fun heq => hinner.ne (Option.some.inj heq)
      refine ⟨⟨_, _, rfl, hsegment.1⟩, fun hprefix => ?_⟩
      rw [List.flatMap_cons, splitOn_plain hsegment, List.singleton_append,
        List.cons_prefix_cons] at hprefix
      obtain ⟨rfl, hprefix⟩ := hprefix
      obtain rfl := Option.some.inj (hold.trans hx)
      obtain rfl := Option.some.inj (hnew.trans hy)
      exact (ih hchild hinner).2 hprefix

theorem exists_longer (least : ℕ) (texts : List Text) :
    ∃ width, least ≤ width ∧ ∀ text ∈ texts, text.length < width := by
  induction texts with
  | nil => exact ⟨least, le_rfl, nofun⟩
  | cons text texts ih =>
    obtain ⟨width, hwidth, hall⟩ := ih
    refine ⟨width + text.length + 1, by omega, ?_⟩
    intro other hother
    rcases List.mem_cons.mp hother with rfl | hother
    · omega
    · have hlt := hall other hother
      omega

theorem parseIndex_numeral {numeral : Text} (hdigits : Digits numeral)
    (hne : numeral ≠ []) (hlt : value numeral < 2 ^ 64) :
    parseIndex numeral = some (value numeral) := by
  have hhead : numeral.head? ≠ some '+' := by
    intro hplus
    obtain ⟨rest, rfl⟩ : ∃ rest, numeral = '+' :: rest := by
      rcases numeral with _ | ⟨c, rest⟩
      · cases hplus
      · obtain rfl := Option.some.inj hplus
        exact ⟨rest, rfl⟩
    exact absurd (hdigits '+' (List.mem_cons_self ..)) (by decide)
  rw [parseIndex, if_neg hhead, if_pos ⟨hne, List.all_eq_true.mpr hdigits, hlt⟩]

theorem plain_numeral {numeral : Text} (hdigits : Digits numeral) (hne : numeral ≠ []) :
    Plain numeral :=
  ⟨hne, fun hdot => absurd (hdigits '.' hdot) (by decide)⟩

theorem tracked_of_faithful (hspelt : Spelt before after) (hbefore : before.Proper)
    (hafter : after.Proper) (h : Faithful Dotted before after) : Tracked before after := by
  rcases hspelt.tracked_or with htracked | ⟨route, hconfused⟩
  · exact htracked
  · exfalso
    obtain ⟨index, hlt, hreads⟩ := hconfused.reads hbefore hafter
    -- a spelling of the position longer than every segment of a listed path
    obtain ⟨width, hwidth, hlonger⟩ :=
      exists_longer 20 ((changedPaths before after).flatMap spelled)
    have hfits : index < 10 ^ width := by
      have hpow : 10 ^ 20 ≤ 10 ^ width := Nat.pow_le_pow_right (by omega) hwidth
      omega
    obtain ⟨numeral, hdigits, hlength, hvalue⟩ := exists_numeral width hfits
    have hne : numeral ≠ [] := by
      rintro rfl
      rw [List.length_nil] at hlength
      omega
    have hparse : parseIndex numeral = some index := by
      rw [← hvalue]
      exact parseIndex_numeral hdigits hne (hvalue ▸ hlt)
    have hplain : ∀ segment ∈ route ++ [numeral], Plain segment := by
      intro segment hsegment
      rcases List.mem_append.mp hsegment with hsegment | hsegment
      · exact hconfused.plain segment hsegment
      · rw [List.mem_singleton.mp hsegment]
        exact plain_numeral hdigits hne
    have hdotted : Dotted (dotted (route ++ [numeral])) := by
      intro segment hsegment
      rw [spelled_dotted hplain] at hsegment
      exact (hplain segment hsegment).1
    have hlisted := h.touched _ hdotted (by
      rw [select_dotted _ hplain, select_dotted _ hplain]
      exact hreads numeral hparse)
    obtain ⟨other, hstops, htouches⟩ := (listed_iff ..).mp hlisted
    have hout : numeral ∉ spelled (dotted other) := by
      intro hin
      have hpath := (mem_changedPaths ..).mpr ⟨other, hstops, rfl⟩
      have hshort := hlonger numeral (List.mem_flatMap.mpr ⟨_, hpath, hin⟩)
      omega
    rw [spelled_dotted hplain] at htouches
    obtain ⟨⟨first, rest, rfl, hfirst⟩, havoids⟩ := hconfused.avoids hspelt hstops
    rcases htouches with hbelow | habove
    · exact hout (hbelow.subset (List.mem_append_right _ (List.mem_singleton_self _)))
    · rw [spelled_dotted_cons hfirst] at habove hout
      rcases List.prefix_concat_iff.mp habove with heq | habove
      · apply hout
        rw [heq]
        exact List.mem_append_right _ (List.mem_singleton_self _)
      · exact havoids habove

/-! ## The law -/

/-- For whoever may spell a path with empty segments, which reading drops, only a change of
the whole document is told. -/
theorem whole_of_faithful (htracked : Tracked before after)
    (hbefore : before.Proper) (hafter : after.Proper)
    (h : Faithful (fun _ => True) before after) : before = after ∨ parts before after = none := by
  by_contra hneither
  rw [not_or] at hneither
  obtain ⟨hne, hparts⟩ := hneither
  obtain ⟨route, hstops⟩ := htracked.exists_stops hbefore hafter hne
  have hfirst : ∀ {other : List Text}, Stops before after other →
      ∃ segment rest, other = segment :: rest ∧ Plain segment := by
    intro other hother
    rcases other with _ | ⟨segment, rest⟩
    · cases hother with
      | whole _ hnone => exact absurd hnone hparts
    · exact ⟨segment, rest, rfl, (htracked.stops hother).1 segment (List.mem_cons_self ..)⟩
  have hplain := (htracked.stops hstops).1
  have hquery : spelled ('.' :: dotted route) = [] :: route := by
    obtain ⟨segment, rest, rfl, hsegment⟩ := hfirst hstops
    have hne : dotted (segment :: rest) ≠ [] := by
      intro heq
      have hspelled := spelled_dotted hplain
      rw [heq] at hspelled
      cases hspelled
    have hsplit := List.splitOn_append_cons_self [] (dotted (segment :: rest)) (a := '.')
    rw [spelled_of_ne (List.cons_ne_nil _ _), ← List.nil_append ('.' :: _), hsplit,
      ← spelled_of_ne hne, spelled_dotted hplain]
    rfl
  have hlisted := h.touched ('.' :: dotted route) trivial (by
    rw [select_spelled, select_spelled, hquery]
    have hdrop : ([] :: route).filter (· ≠ []) = route := filter_plain hplain
    rw [hdrop]
    exact (htracked.stops hstops).2)
  obtain ⟨other, hother, htouches⟩ := (listed_iff ..).mp hlisted
  obtain ⟨segment, rest, rfl, hsegment⟩ := hfirst hother
  rw [hquery, spelled_dotted (htracked.stops hother).1, List.cons_prefix_cons,
    List.cons_prefix_cons] at htouches
  rcases htouches with ⟨hempty, -⟩ | ⟨hempty, -⟩
  · exact hsegment.1 hempty.symm
  · exact hsegment.1 hempty

theorem faithful_of_whole
    (h : before = after ∨ parts before after = none) : Faithful (fun _ => True) before after := by
  by_cases heq : before = after
  · subst heq
    have hnone : changedPaths before before = [] := walk_same before []
    refine ⟨⟨fun _ => rfl, fun _ => hnone⟩, ?_, fun _ _ hne => absurd rfl hne⟩
    rw [hnone]
    exact nofun
  · have hone : changedPaths before after = [[]] := walk_whole heq (h.resolve_left heq) []
    refine ⟨⟨fun hnil => ?_, fun hsame => absurd hsame heq⟩, ?_, fun query _ _ => ?_⟩
    · rw [hone] at hnil
      cases hnil
    · rw [hone]
      intro path hpath
      rw [List.mem_singleton.mp hpath]
      exact fun hsame => heq (Option.some.inj hsame)
    · rw [hone]
      show ([[]].any fun path => touches path query) = true
      rw [List.any_cons, Bool.or_eq_true]
      exact .inl ((touches_iff ..).mpr (.inr List.nil_prefix))

/-- A write is told by its changed paths when it changed the whole document, or differs from
what it replaced only under keys a path can spell and in no list of named elements. Where the
keys of a difference can be spelled, it is told in no other case. -/
theorem history_complete (before after : Document) :
    (Tracked before.value after.value → Faithful Dotted before.value after.value) ∧
    (before.value = after.value ∨ parts before.value after.value = none →
      Faithful (fun _ => True) before.value after.value) ∧
    (Spelt before.value after.value →
      (Faithful Dotted before.value after.value → Tracked before.value after.value) ∧
      (Faithful (fun _ => True) before.value after.value →
        before.value = after.value ∨ parts before.value after.value = none)) := by
  refine ⟨fun h => faithful_of_tracked h before.proper after.proper, faithful_of_whole,
    fun hspelt => ⟨tracked_of_faithful hspelt before.proper after.proper, fun h => ?_⟩⟩
  have hdotted : Faithful Dotted before.value after.value :=
    ⟨h.empty_iff, h.differs, fun query _ => h.touched query trivial⟩
  exact whole_of_faithful (tracked_of_faithful hspelt before.proper after.proper hdotted)
    before.proper after.proper h

def coordinators (slots : Text) : Value :=
  .object [("coordinators".toList,
    .array [.object [("name".toList, .string "a".toList), ("slots".toList, .number slots)]])]

/-- The only coordinator's slots are set: `coordinators.0.slots` reads another number, but the
record of the write names `coordinators.a.slots` and is not listed for it. -/
theorem position_missed : ¬ Faithful Dotted (coordinators ['1']) (coordinators ['2']) := by
  intro h
  have hspelt : Spelt (coordinators ['1']) (coordinators ['2']) := by
    refine Spelt.fields ?_ ?_
    · intro key hkey
      rw [Value.get_cons, Value.get_cons] at hkey
      split_ifs at hkey with heq
      · rw [heq]
        exact ⟨by decide, by decide⟩
      · exact absurd rfl hkey
    · intro key x y hx hy
      rw [Value.get_cons] at hx hy
      split_ifs at hx hy with heq
      · obtain rfl := Option.some.inj hx
        obtain rfl := Option.some.inj hy
        exact Spelt.elements rfl rfl (by decide)
      · cases hx
  have hproper : ∀ slots, (coordinators slots).Proper := by
    intro slots
    have hkeys : List.Pairwise (· < ·) ["name".toList, "slots".toList] := by decide
    exact ⟨List.pairwise_singleton .., ⟨by rw [List.length_singleton]; decide,
      ⟨hkeys, trivial, trivial, trivial⟩, trivial⟩, trivial⟩
  have htracked := tracked_of_faithful hspelt (hproper _) (hproper _) h
  cases htracked with
  | whole hparts => cases hparts
  | fields hplain hboth =>
    cases hboth "coordinators".toList _ _ rfl rfl with
    | whole hparts => cases hparts

end Stado.Registry
