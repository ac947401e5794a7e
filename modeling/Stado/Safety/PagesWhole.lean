import Stado.S3.Listing

/-!
# Paged listings

What a page shows is the names past its cursor up to its bound: a key, or the
group the delimiter makes of it. Names ascend with keys, a cursor inside a group
is past the group, and so following a listing's pages shows what one unbounded
page shows. A bound of zero is the one whose truncated page names no way on.
-/

namespace Stado.S3.Listener

open Sigv4 List Option Paging

/-! ## Names -/

def shownName (stem : Text) (delimiter : Option Text) (key : Text) : Text :=
  (common stem delimiter key).getD key

def isGroup (stem : Text) (delimiter : Option Text) (name : Text) : Bool :=
  (common stem delimiter name).isSome

def names (stem : Text) (delimiter : Option Text) (cursor : Text) (entries : List Entry) :
    List Text :=
  fresh cursor [] (entries.map fun entry => shownName stem delimiter entry.key)

variable {stem cursor key group : Text} {delimiter : Option Text}

theorem shownName_group (h : common stem delimiter key = some group) :
    shownName stem delimiter key = group := by
  rw [shownName, h, getD_some]

theorem shownName_key (h : common stem delimiter key = none) :
    shownName stem delimiter key = key := by
  rw [shownName, h, getD_none]

theorem shownName_le (stem : Text) (delimiter : Option Text) (key : Text) :
    shownName stem delimiter key ≤ key := by
  cases hcommon : common stem delimiter key with
  | none => exact (shownName_key hcommon).le
  | some group =>
    rw [shownName_group hcommon]
    exact le_of_prefix ( common_prefix hcommon)

theorem isGroup_shownName (hkey : stem <+: key) :
    isGroup stem delimiter (shownName stem delimiter key) = (common stem delimiter key).isSome := by
  cases hcommon : common stem delimiter key with
  | none => rw [shownName_key hcommon, isGroup, hcommon]
  | some group =>
    rw [shownName_group hcommon, isGroup, common_extend hkey hcommon prefix_rfl]

theorem shownName_mono {later : Text} (hlater : stem <+: later) (h : key < later) :
    shownName stem delimiter key ≤ shownName stem delimiter later := by
  by_contra hnot
  rw [not_le] at hnot
  have hle := shownName_le stem delimiter key
  cases hcommon : common stem delimiter later with
  | none =>
    rw [shownName_key hcommon] at hnot
    exact absurd (hnot.trans_le hle) (not_lt.mpr h.le)
  | some group =>
    rw [shownName_group hcommon] at hnot
    -- the later group stands between itself and the earlier key, so it is that key's
    have hgroup : group <+: key :=
      prefix_of_between ( common_prefix hcommon) (hnot.le.trans hle) h.le
    rw [shownName_group (common_extend hlater hcommon hgroup)] at hnot
    exact lt_irrefl _ hnot

theorem group_past_cursor (h : common stem delimiter key = some group) (hcursor : cursor < key) :
    group <+: cursor ↔ shownName stem delimiter key ≤ cursor := by
  rw [shownName_group h]
  constructor
  · exact le_of_prefix
  · intro hle
    exact prefix_of_between ( common_prefix h) hle hcursor.le

/-! ## Filling a page -/

/-- A page shows names: keys apart from common prefixes. -/
structure Shows (stem : Text) (delimiter : Option Text) (contents : List Entry)
    (prefixes names : List Text) : Prop where
  keys : contents.map Entry.key = names.filter fun name => !isGroup stem delimiter name
  groups : prefixes = names.filter fun name => isGroup stem delimiter name

variable {contents entries : List Entry} {prefixes : List Text} {maxKeys : ℕ} {filled : Filled}
  {entry : Entry} {objects : Listable stem}

theorem Shows.length {names : List Text} (h : Shows stem delimiter contents prefixes names) :
    contents.length + prefixes.length = names.length := by
  have hkeys := congrArg List.length h.keys
  rw [length_map] at hkeys
  rw [hkeys, h.groups]
  have hsplit := length_eq_length_filter_add (l := names) fun name =>
    isGroup stem delimiter name
  omega

theorem Shows.append {more : List Entry} {others names later : List Text}
    (h : Shows stem delimiter contents prefixes names)
    (hlater : Shows stem delimiter more others later) :
    Shows stem delimiter (contents ++ more) (prefixes ++ others) (names ++ later) := by
  constructor
  · rw [map_append, h.keys, hlater.keys, filter_append]
  · rw [h.groups, hlater.groups, filter_append]

theorem Shows.mem {names : List Text} {name : Text}
    (h : Shows stem delimiter contents prefixes names)
    (hname : name ∈ contents.map Entry.key ++ prefixes) : name ∈ names := by
  rw [h.keys, h.groups] at hname
  rcases mem_append.mp hname with hname | hname
  · exact (mem_filter.mp hname).1
  · exact (mem_filter.mp hname).1

/-- A page's fill shows names, the last of which it resumes after. -/
structure Filling (stem : Text) (delimiter : Option Text) (filled : Filled) (names : List Text) :
    Prop where
  shows : Shows stem delimiter filled.contents filled.prefixes names
  last : filled.last = names.getLast?

open Filled

theorem Filling.count {names : List Text}
    (h : Filling stem delimiter filled names) : filled.count = names.length := h.shows.length

theorem Filling.grouped {names : List Text}
    (h : Filling stem delimiter filled names) (hgroup : isGroup stem delimiter group = true) :
    Filling stem delimiter (filled.grouped group) (names ++ [group]) := by
  constructor
  · constructor
    · rw [filter_append, ← h.shows.keys]
      simp [hgroup, Filled.grouped]
    · rw [filter_append, ← h.shows.groups]
      simp [hgroup, Filled.grouped]
  · simp [Filled.grouped]

theorem Filling.shownKey {names : List Text}
    (h : Filling stem delimiter filled names) (hkey : isGroup stem delimiter entry.key = false) :
    Filling stem delimiter (filled.shownKey entry) (names ++ [entry.key]) := by
  constructor
  · constructor
    · rw [filter_append, ← h.shows.keys]
      simp [hkey, Filled.shownKey]
    · rw [filter_append, ← h.shows.groups]
      simp [hkey, Filled.shownKey]
  · simp [Filled.shownKey]

theorem Filling.cut {names : List Text}
    (h : Filling stem delimiter filled names) : Filling stem delimiter filled.cut names :=
  ⟨h.shows, h.last⟩

theorem fill_shows (hascending : entries.Pairwise fun left right => left.key < right.key)
    (hunder : ∀ entry ∈ entries, stem <+: entry.key) (hpast : ∀ entry ∈ entries, cursor < entry.key) :
    ∀ {filled : Filled} {seen total : List Text},
      Filling stem delimiter filled seen → filled.truncated = false → seen.length ≤ maxKeys →
      (∀ name ∈ seen, ∀ entry ∈ entries, name < entry.key) →
      total = seen ++ fresh cursor seen
        (entries.map fun entry => shownName stem delimiter entry.key) →
      Filling stem delimiter (fill stem delimiter cursor maxKeys entries filled)
          (total.take maxKeys) ∧
        (fill stem delimiter cursor maxKeys entries filled).truncated =
          decide (maxKeys < total.length) := by
  induction entries with
  | nil =>
    rintro filled seen total hfilling hwhole hlength - rfl
    rw [map_nil, fresh, append_nil, take_of_length_le hlength, fill, hwhole]
    exact ⟨hfilling, (decide_eq_false (not_lt.mpr hlength)).symm⟩
  | cons entry later ih =>
    intro filled seen total hfilling hwhole hlength hseen htotal
    obtain ⟨hentry, hlater⟩ := pairwise_cons.mp hascending
    have hkey := hunder entry mem_cons_self
    have hcursor := hpast entry mem_cons_self
    have ih := @ih hlater (fun e he => hunder e (mem_cons_of_mem entry he))
      (fun e he => hpast e (mem_cons_of_mem entry he))
    have hrest : ∀ name ∈ seen, ∀ e ∈ later, name < e.key :=
      fun name hname e he => hseen name hname e (mem_cons_of_mem entry he)
    have hname := shownName_le stem delimiter entry.key
    have hshown : ∀ name ∈ seen ++ [shownName stem delimiter entry.key], ∀ e ∈ later,
        name < e.key := by
      intro name hmem e he
      rcases mem_append.mp hmem with hmem | hmem
      · exact hrest name hmem e he
      · rw [mem_singleton.mp hmem]
        exact lt_of_le_of_lt hname (hentry e he)
    -- a full page is cut at the first name it does not hold
    have hcut (hnew : ¬(shownName stem delimiter entry.key ≤ cursor ∨
        shownName stem delimiter entry.key ∈ seen)) (hfull : filled.count = maxKeys) :
        Filling stem delimiter filled.cut (total.take maxKeys) ∧
          filled.cut.truncated = decide (maxKeys < total.length) := by
      have hseenFull : seen.length = maxKeys := by rw [← hfilling.count, hfull]
      rw [map_cons, fresh_show hnew] at htotal
      constructor
      · rw [htotal, ← hseenFull, take_left]
        exact hfilling.cut
      · refine (decide_eq_true ?_).symm
        rw [htotal, length_append, length_cons]
        omega
    rw [fill]
    cases hcommon : common stem delimiter entry.key with
    | some group =>
      have hgroup := shownName_group hcommon
      have hisGroup : isGroup stem delimiter group = true := by
        rw [isGroup, common_extend hkey hcommon prefix_rfl]
        rfl
      have hskip : group <+: cursor ∨ group ∈ filled.prefixes ↔
          shownName stem delimiter entry.key ≤ cursor ∨
            shownName stem delimiter entry.key ∈ seen := by
        rw [group_past_cursor hcommon hcursor, hfilling.shows.groups, mem_filter, hgroup]
        simp [hisGroup]
      dsimp only
      by_cases hnew : group <+: cursor ∨ group ∈ filled.prefixes
      · rw [if_pos hnew]
        rw [map_cons, fresh_skip (hskip.mp hnew)] at htotal
        exact ih hfilling hwhole hlength hrest htotal
      · rw [if_neg hnew]
        rw [hskip] at hnew
        by_cases hfull : filled.count = maxKeys
        · rw [if_pos hfull]
          exact hcut hnew hfull
        · rw [if_neg hfull]
          rw [hfilling.count] at hfull
          rw [map_cons, fresh_show hnew] at htotal
          rw [hgroup] at hshown htotal
          refine ih (hfilling.grouped hisGroup) hwhole ?_ hshown ?_
          · rw [length_append, length_singleton]
            omega
          · rw [htotal, append_assoc, singleton_append]
    | none =>
      have hself := shownName_key hcommon
      have hisKey : isGroup stem delimiter entry.key = false := by
        rw [isGroup, hcommon]
        rfl
      have hnew : ¬(shownName stem delimiter entry.key ≤ cursor ∨
          shownName stem delimiter entry.key ∈ seen) := by
        rw [hself]
        rintro (hle | hmem)
        · exact absurd hcursor (not_lt.mpr hle)
        · exact lt_irrefl _ (hseen _ hmem entry mem_cons_self)
      dsimp only
      by_cases hfull : filled.count = maxKeys
      · rw [if_pos hfull]
        exact hcut hnew hfull
      · rw [if_neg hfull]
        rw [hfilling.count] at hfull
        rw [map_cons, fresh_show hnew] at htotal
        rw [hself] at hshown htotal
        refine ih (hfilling.shownKey hisKey) hwhole ?_ hshown ?_
        · rw [length_append, length_singleton]
          omega
        · rw [htotal, append_assoc, singleton_append]

theorem mem_fill (h : entry ∈ (fill stem delimiter cursor maxKeys entries filled).contents) :
    entry ∈ filled.contents ∨ entry ∈ entries := by
  induction entries generalizing filled with
  | nil => exact .inl h
  | cons first later ih =>
    rw [fill] at h
    cases hcommon : common stem delimiter first.key with
    | some group =>
      rw [hcommon] at h
      dsimp only at h
      split_ifs at h with hskip hfull
      · exact (ih h).imp_right (mem_cons_of_mem first)
      · exact .inl h
      · exact (ih h).imp_right (mem_cons_of_mem first)
    | none =>
      rw [hcommon] at h
      dsimp only at h
      split_ifs at h with hfull
      · exact .inl h
      · rcases ih h with hshown | hlater
        · rcases mem_append.mp hshown with hmem | hfirst
          · exact .inl hmem
          · exact .inr (by rw [mem_singleton.mp hfirst]; exact mem_cons_self)
        · exact .inr (mem_cons_of_mem first hlater)

theorem names_ascending (delimiter : Option Text) (objects : Listable stem) :
    (objects.entries.map fun entry => shownName stem delimiter entry.key).Pairwise (· ≤ ·) := by
  rw [pairwise_map]
  refine (List.Pairwise.and_mem.mp objects.ascending).imp ?_
  rintro left right ⟨-, hright, hlt⟩
  exact shownName_mono (objects.under right hright) hlt

theorem pairwise_names (delimiter : Option Text) (cursor : Text) (objects : Listable stem) :
    (names stem delimiter cursor objects.entries).Pairwise (· < ·) :=
  pairwise_fresh (names_ascending delimiter objects)

theorem page_shows (delimiter : Option Text) (cursor : Text) (objects : Listable stem) (maxKeys : ℕ) :
    Filling stem delimiter (page stem delimiter cursor maxKeys objects.entries)
        ((names stem delimiter cursor objects.entries).take maxKeys) ∧
      (page stem delimiter cursor maxKeys objects.entries).truncated =
        decide (maxKeys < (names stem delimiter cursor objects.entries).length) := by
  have hsublist := filter_sublist (p := fun entry : Entry => decide (cursor < entry.key))
    (l := objects.entries)
  have hempty : Filling stem delimiter ⟨[], [], none, false⟩ [] := ⟨⟨rfl, rfl⟩, rfl⟩
  refine fill_shows (objects.ascending.sublist hsublist) ?_ ?_ hempty rfl (Nat.zero_le _) ?_ ?_
  · exact fun entry hentry => objects.under entry (hsublist.subset hentry)
  · intro entry hentry
    exact of_decide_eq_true (mem_filter.mp hentry).2
  · exact fun name hname => absurd hname not_mem_nil
  · rw [nil_append, names, fresh_filter]
    intro entry _ htest
    have hle : entry.key ≤ cursor := not_lt.mp (of_decide_eq_false htest)
    exact (shownName_le stem delimiter entry.key).trans hle

/-! ## Following pages -/

theorem mem_page
    (h : entry ∈ (page stem delimiter cursor maxKeys entries).contents) : entry ∈ entries := by
  rcases mem_fill h with hnone | hmem
  · exact absurd hnone not_mem_nil
  · exact (mem_filter.mp hmem).1

/-- An answered page shows some names, no more than its bound. -/
structure PageOf (stem : Text) (delimiter : Option Text) (bound : ℕ) (entries : List Entry)
    (listing : Listing) (names : List Text) : Prop where
  shows : Shows stem delimiter listing.contents listing.commonPrefixes names
  listed : ∀ entry ∈ listing.contents, entry ∈ entries
  bounded : names.length ≤ bound

section

variable {nameSpace : Text} {listable : (stem : Text) → Except S3Error (Listable stem)}
  {query : Query} {two url : Bool} {bound : ℕ}

theorem listingPage_shows (objects : Listable stem) (hstem : listingStem query = stem)
    (hdelimiter : listingDelimiter query = delimiter) :
    PageOf stem delimiter bound objects.entries
      (listingPage nameSpace query two url bound cursor objects.entries)
      ((names stem delimiter cursor objects.entries).take bound) := by
  subst hstem hdelimiter
  obtain ⟨hfilling, -⟩ := page_shows (listingDelimiter query) cursor objects bound
  refine ⟨⟨hfilling.shows.keys, ?_⟩, fun entry => mem_page, length_take_le _ _⟩
  have hsorted : ((page (listingStem query) (listingDelimiter query) cursor bound
      objects.entries).prefixes).Pairwise (· ≤ ·) := by
    rw [hfilling.shows.groups]
    have hnames := (pairwise_names (listingDelimiter query) cursor objects).sublist
      (take_sublist bound _)
    exact (hnames.filter _).imp le_of_lt
  show List.insertionSort (· ≤ ·) _ = _
  rw [hsorted.insertionSort_eq]
  exact hfilling.shows.groups

theorem listingPage_truncated (objects : Listable stem) (hstem : listingStem query = stem)
    (hdelimiter : listingDelimiter query = delimiter) :
    (listingPage nameSpace query two url bound cursor objects.entries).truncated =
      decide (bound < (names stem delimiter cursor objects.entries).length) := by
  subst hstem hdelimiter
  exact (page_shows (listingDelimiter query) cursor objects bound).2

theorem listingPage_next (objects : Listable stem) (hstem : listingStem query = stem)
    (hdelimiter : listingDelimiter query = delimiter)
    (htruncated : bound < (names stem delimiter cursor objects.entries).length) :
    (listingPage nameSpace query two url bound cursor objects.entries).next =
      ((names stem delimiter cursor objects.entries).take bound).getLast?.map fun last =>
        if two then token last else last := by
  subst hstem hdelimiter
  obtain ⟨hfilling, htrue⟩ := page_shows (listingDelimiter query) cursor objects bound
  rw [decide_eq_true htruncated] at htrue
  rw [← hfilling.last]
  dsimp only [listingPage]
  rw [htrue]
  cases hlast : (page (listingStem query) (listingDelimiter query) cursor bound
      objects.entries).last with
  | none => cases two <;> rfl
  | some last => cases two <;> rfl

theorem followed_names (hbound : 0 < bound) (objects : Listable stem)
    (hobjects : listable stem = .ok objects) :
    ∀ (left : ℕ) (query : Query) (cursor : Text),
      listingStem query = stem → listingDelimiter query = delimiter →
      versionTwo query = .ok two → urlEncoded query = .ok url →
      pageBound query "max-keys".toList = .ok bound → Listener.cursor query two = .ok cursor →
      (names stem delimiter cursor objects.entries).length = left →
      ∃ pages segments, Followed nameSpace listable query pages ∧
        List.Forall₂ (PageOf stem delimiter bound objects.entries) pages segments ∧
        segments.flatten = names stem delimiter cursor objects.entries := by
  intro left
  induction left using Nat.strong_induction_on with
  | _ left ih =>
    intro query cursor hstem hdelimiter htwo hurl hpage hcursor hleft
    have hanswer : s3ListObjects nameSpace listable query =
        .ok (listingPage nameSpace query two url bound cursor objects.entries) := by
      subst hstem
      exact s3ListObjects_eq_ok.mpr
        ⟨two, url, bound, cursor, objects, htwo, hurl, hpage, hcursor, hobjects, rfl⟩
    have hshows : PageOf stem delimiter bound objects.entries
        (listingPage nameSpace query two url bound cursor objects.entries) _ :=
      listingPage_shows objects hstem hdelimiter
    have htruncated : (listingPage nameSpace query two url bound cursor
        objects.entries).truncated = _ := listingPage_truncated objects hstem hdelimiter
    by_cases hlast : (names stem delimiter cursor objects.entries).length ≤ bound
    · rw [decide_eq_false (not_lt.mpr hlast)] at htruncated
      rw [take_of_length_le hlast] at hshows
      refine ⟨[_], [_], .last hanswer htruncated, .cons hshows .nil, ?_⟩
      rw [flatten_singleton]
    · rw [not_le] at hlast
      rw [decide_eq_true hlast] at htruncated
      have hnext : (listingPage nameSpace query two url bound cursor objects.entries).next = _ :=
        listingPage_next objects hstem hdelimiter hlast
      -- the page is full, so it has a last name, after which the next one resumes
      have hfull : (names stem delimiter cursor objects.entries).take bound ≠ [] := by
        intro hempty
        have hlength := congrArg List.length hempty
        rw [length_take, length_nil] at hlength
        omega
      obtain ⟨last, hname⟩ := ne_none_iff_exists'.mp (List.getLast?_eq_none_iff.not.mpr hfull)
      rw [hname, map_some] at hnext
      have hresumed := fresh_resumed (names_ascending delimiter objects) hname
      have hrest : names stem delimiter last objects.entries =
          (names stem delimiter cursor objects.entries).drop bound := hresumed
      obtain ⟨pages, segments, hpages, hsegments, hflatten⟩ :=
        ih (names stem delimiter last objects.entries).length
          (by rw [hrest, length_drop]; omega)
          (resume query (if two then token last else last)) last
          (by rw [listingStem_resume, hstem]) (by rw [listingDelimiter_resume, hdelimiter])
          (by rw [versionTwo_resume, htwo]) (by rw [urlEncoded_resume, hurl])
          (by rw [pageBound_resume, hpage]) (cursor_resume htwo last) rfl
      refine ⟨_ :: pages, _ :: segments, .more hanswer htruncated hnext hpages,
        .cons hshows hsegments, ?_⟩
      rw [flatten_cons, hflatten, hrest, take_append_drop]

end

/-! ## The whole listing -/

/-- The keys a listing shows themselves: those past the cursor with no delimiter
after the prefix. -/
def plainEntries (stem : Text) (delimiter : Option Text) (cursor : Text) (entries : List Entry) :
    List Entry :=
  entries.filter fun entry => cursor < entry.key ∧ common stem delimiter entry.key = none

/-- What pages show together: each plain key and each common prefix past the
cursor once, in ascending order, at most a bound of them on a page. -/
structure Whole (stem : Text) (delimiter : Option Text) (cursor : Text) (bound : ℕ)
    (entries : List Entry) (pages : List Listing) : Prop where
  bounded : ∀ page ∈ pages, page.contents.length + page.commonPrefixes.length ≤ bound
  ascending : pages.Pairwise fun earlier later =>
    ∀ name ∈ earlier.contents.map Entry.key ++ earlier.commonPrefixes,
      ∀ other ∈ later.contents.map Entry.key ++ later.commonPrefixes, name < other
  keys : pages.flatMap Listing.contents = plainEntries stem delimiter cursor entries
  groups : (pages.flatMap Listing.commonPrefixes).Pairwise (· < ·) ∧
    ∀ group, group ∈ pages.flatMap Listing.commonPrefixes ↔
      cursor < group ∧ ∃ entry ∈ entries, common stem delimiter entry.key = some group
  unbounded : ∀ maxKeys, entries.length ≤ maxKeys →
    (page stem delimiter cursor maxKeys entries).truncated = false ∧
    (page stem delimiter cursor maxKeys entries).contents = pages.flatMap Listing.contents ∧
    (page stem delimiter cursor maxKeys entries).prefixes = pages.flatMap Listing.commonPrefixes

theorem eq_of_keys (objects : Listable stem) {left right : List Entry}
    (hleft : ∀ entry ∈ left, entry ∈ objects.entries)
    (hright : ∀ entry ∈ right, entry ∈ objects.entries)
    (h : left.map Entry.key = right.map Entry.key) : left = right := by
  have hinjective : ∀ a ∈ objects.entries, ∀ b ∈ objects.entries, a.key = b.key → a = b := by
    have hnodup : (objects.entries.map Entry.key).Nodup :=
      pairwise_map.mpr (objects.ascending.imp ne_of_lt)
    exact fun a ha b hb heq => inj_on_of_nodup_map hnodup ha hb heq
  induction left generalizing right with
  | nil => exact (map_eq_nil_iff.mp h.symm).symm
  | cons a left ih =>
    cases right with
    | nil => cases h
    | cons b right =>
      rw [map_cons, map_cons] at h
      obtain ⟨hkey, hrest⟩ := List.cons.inj h
      rw [hinjective a (hleft a mem_cons_self) b (hright b mem_cons_self) hkey]
      rw [ih (fun e he => hleft e (mem_cons_of_mem a he))
        (fun e he => hright e (mem_cons_of_mem b he)) hrest]

theorem mem_names {name : Text} :
    name ∈ names stem delimiter cursor objects.entries ↔
      cursor < name ∧ ∃ entry ∈ objects.entries, shownName stem delimiter entry.key = name := by
  rw [names, mem_fresh, List.mem_map]
  constructor
  · rintro ⟨hentry, hcursor, -⟩
    exact ⟨hcursor, hentry⟩
  · rintro ⟨hcursor, hentry⟩
    exact ⟨hentry, hcursor, not_mem_nil⟩

theorem plainEntries_keys (objects : Listable stem) :
    (plainEntries stem delimiter cursor objects.entries).map Entry.key =
      (names stem delimiter cursor objects.entries).filter fun name =>
        !isGroup stem delimiter name := by
  have hplain : ((plainEntries stem delimiter cursor objects.entries).map Entry.key).Pairwise
      (· < ·) := pairwise_map.mpr (objects.ascending.sublist filter_sublist)
  refine hplain.eq_of_mem_iff ((pairwise_names delimiter cursor objects).filter _) ?_
  intro name
  simp only [plainEntries, List.mem_map, mem_filter, decide_eq_true_eq, mem_names,
    Bool.not_eq_true']
  constructor
  · rintro ⟨entry, ⟨hentry, hcursor, hcommon⟩, rfl⟩
    have hname := shownName_key hcommon
    refine ⟨⟨hcursor, entry, hentry, hname⟩, ?_⟩
    rw [isGroup, hcommon]
    rfl
  · rintro ⟨⟨hcursor, entry, hentry, rfl⟩, hkey⟩
    rw [isGroup_shownName (objects.under entry hentry), isSome_eq_false_iff,
      isNone_iff_eq_none] at hkey
    rw [shownName_key hkey] at hcursor ⊢
    exact ⟨entry, ⟨hentry, hcursor, hkey⟩, rfl⟩

theorem mem_groups :
    group ∈ (names stem delimiter cursor objects.entries).filter (isGroup stem delimiter ·) ↔
      cursor < group ∧ ∃ entry ∈ objects.entries, common stem delimiter entry.key = some group := by
  rw [mem_filter, mem_names]
  constructor
  · rintro ⟨⟨hcursor, entry, hentry, rfl⟩, hgroup⟩
    refine ⟨hcursor, entry, hentry, ?_⟩
    rw [isGroup_shownName (objects.under entry hentry), isSome_iff_exists] at hgroup
    obtain ⟨group, hcommon⟩ := hgroup
    rw [hcommon, shownName_group hcommon]
  · rintro ⟨hcursor, entry, hentry, hcommon⟩
    have hname := shownName_group hcommon
    refine ⟨⟨hcursor, entry, hentry, hname⟩, ?_⟩
    rw [← hname, isGroup_shownName (objects.under entry hentry), hcommon]
    rfl

section

variable {bound : ℕ} {objects : Listable stem} {pages : List Listing}
  {segments : List (List Text)}

section

variable (hpages : List.Forall₂ (PageOf stem delimiter bound objects.entries) pages segments)

include hpages

theorem pages_show :
    Shows stem delimiter (pages.flatMap Listing.contents) (pages.flatMap Listing.commonPrefixes)
      segments.flatten := by
  induction hpages with
  | nil => exact ⟨rfl, rfl⟩
  | cons hpage _ ih => exact hpage.shows.append ih

theorem page_of_mem {page : Listing} (hpage : page ∈ pages) :
    ∃ segment ∈ segments, PageOf stem delimiter bound objects.entries page segment := by
  induction hpages with
  | nil => exact absurd hpage not_mem_nil
  | cons hfirst _ ih =>
    rcases mem_cons.mp hpage with rfl | hpage
    · exact ⟨_, mem_cons_self, hfirst⟩
    · obtain ⟨segment, hmem, hof⟩ := ih hpage
      exact ⟨segment, mem_cons_of_mem _ hmem, hof⟩

theorem pages_ascending (hsorted : segments.flatten.Pairwise (· < ·)) :
    pages.Pairwise fun earlier later =>
      ∀ name ∈ earlier.contents.map Entry.key ++ earlier.commonPrefixes,
        ∀ other ∈ later.contents.map Entry.key ++ later.commonPrefixes, name < other := by
  induction hpages with
  | nil => exact .nil
  | cons hpage hrest ih =>
    rw [flatten_cons, pairwise_append] at hsorted
    obtain ⟨-, hlater, hacross⟩ := hsorted
    refine .cons ?_ (ih hlater)
    intro later hmem name hname other hother
    obtain ⟨segment, hsegment, hof⟩ := page_of_mem hrest hmem
    refine hacross name (hpage.shows.mem hname) other ?_
    exact mem_flatten.mpr ⟨segment, hsegment, hof.shows.mem hother⟩

theorem whole_of_segments
    (hsegments : segments.flatten = names stem delimiter cursor objects.entries) :
    Whole stem delimiter cursor bound objects.entries pages := by
  have hshows := pages_show hpages
  rw [hsegments] at hshows
  have hlisted : ∀ entry ∈ pages.flatMap Listing.contents, entry ∈ objects.entries := by
    intro entry hentry
    obtain ⟨page, hpage, hmem⟩ := mem_flatMap.mp hentry
    obtain ⟨segment, -, hof⟩ := page_of_mem hpages hpage
    exact hof.listed entry hmem
  constructor
  · intro page hpage
    obtain ⟨segment, -, hof⟩ := page_of_mem hpages hpage
    rw [hof.shows.length]
    exact hof.bounded
  · refine pages_ascending hpages ?_
    rw [hsegments]
    exact pairwise_names delimiter cursor objects
  · refine eq_of_keys objects hlisted (fun entry he => (mem_filter.mp he).1) ?_
    rw [hshows.keys, plainEntries_keys]
  · rw [hshows.groups]
    exact ⟨(pairwise_names delimiter cursor objects).filter _, fun group => mem_groups⟩
  · intro maxKeys hmax
    obtain ⟨hfilling, htruncated⟩ := page_shows delimiter cursor objects maxKeys
    have hlength : (names stem delimiter cursor objects.entries).length ≤ maxKeys := by
      refine (length_fresh _ _ _).trans ?_
      rw [length_map]
      exact hmax
    rw [take_of_length_le hlength] at hfilling
    rw [decide_eq_false (not_lt.mpr hlength)] at htruncated
    refine ⟨htruncated, ?_, ?_⟩
    · refine eq_of_keys objects (fun entry => mem_page) hlisted ?_
      rw [hfilling.shows.keys, hshows.keys]
    · rw [hfilling.shows.groups, hshows.groups]

end

end

/-- Following a listing's pages ends and shows the whole listing, for every
bound of at least one; and a truncated page says where it continues, unless the
bound is zero and a name is left past the cursor. -/
theorem pages_whole {nameSpace : Text} {listable : (stem : Text) → Except S3Error (Listable stem)}
    {query : Query} {listing : Listing}
    (h : s3ListObjects nameSpace listable query = .ok listing) :
    ∃ two cursor objects, versionTwo query = .ok two ∧ Listener.cursor query two = .ok cursor ∧
      listable (listingStem query) = .ok objects ∧
      (0 < listing.maxKeys → ∃ pages, Followed nameSpace listable query pages ∧
        Whole (listingStem query) (listingDelimiter query) cursor listing.maxKeys
          objects.entries pages) ∧
      ((listing.truncated = true → listing.next.isSome = true) ↔
        ¬(listing.maxKeys = 0 ∧ ∃ entry ∈ objects.entries,
          cursor < shownName (listingStem query) (listingDelimiter query) entry.key)) := by
  obtain ⟨two, url, bound, cursor, objects, htwo, hurl, hbound, hcursor, hobjects, rfl⟩ :=
    s3ListObjects_eq_ok.mp h
  refine ⟨two, cursor, objects, htwo, hcursor, hobjects, ?_, ?_⟩
  · intro hpositive
    obtain ⟨pages, segments, hpages, hsegments, hflatten⟩ := followed_names hpositive objects
      hobjects _ query cursor rfl rfl htwo hurl hbound hcursor rfl
    exact ⟨pages, hpages, whole_of_segments hsegments hflatten⟩
  · have htruncated : (listingPage nameSpace query two url bound cursor objects.entries).truncated =
        _ := listingPage_truncated objects rfl rfl
    have hleft : (∃ entry ∈ objects.entries,
        cursor < shownName (listingStem query) (listingDelimiter query) entry.key) ↔
        names (listingStem query) (listingDelimiter query) cursor objects.entries ≠ [] := by
      constructor
      · rintro ⟨entry, hentry, hcursor⟩
        exact ne_nil_of_mem (mem_names.mpr ⟨hcursor, entry, hentry, rfl⟩)
      · intro hne
        obtain ⟨name, hname⟩ := exists_mem_of_ne_nil _ hne
        obtain ⟨hcursor, entry, hentry, rfl⟩ := mem_names.mp hname
        exact ⟨entry, hentry, hcursor⟩
    rw [htruncated, hleft, decide_eq_true_eq, ← length_pos_iff]
    show _ ↔ ¬(bound = 0 ∧ _)
    constructor
    · rintro hnext ⟨rfl, hname⟩
      have hnone : (listingPage nameSpace query two url 0 cursor objects.entries).next = _ :=
        listingPage_next objects rfl rfl hname
      have hsome := hnext hname
      rw [hnone, take_zero] at hsome
      cases hsome
    · intro hbound hlonger
      have hnext : (listingPage nameSpace query two url bound cursor objects.entries).next = _ :=
        listingPage_next objects rfl rfl hlonger
      rw [hnext, isSome_map, List.getLast?_isSome]
      have hpositive : bound ≠ 0 := fun hzero => hbound ⟨hzero, by omega⟩
      intro hempty
      have hlength := congrArg List.length hempty
      rw [length_take, length_nil] at hlength
      omega

/-! ## A bucket with one directory -/

def bucketEntries : List Entry :=
  [⟨"queue/a".toList, 1, none⟩, ⟨"queue/b".toList, 2, none⟩, ⟨"report".toList, 3, none⟩]

def bucket (stem : Text) : Except S3Error (Listable stem) :=
  .ok {
    entries := bucketEntries.filter fun entry => stem <+: entry.key
    ascending := List.Pairwise.sublist filter_sublist (by decide)
    under := fun _ hentry => of_decide_eq_true (mem_filter.mp hentry).2 }

/-- A listing by directories, so many names a page. -/
def byDirectory (bound : Text) : Query :=
  ⟨[("list-type".toList, ['2']), ("delimiter".toList, ['/']), ("max-keys".toList, bound)], []⟩

theorem directory_pages :
    ∃ pages, Followed "probierz".toList bucket (byDirectory ['1']) pages ∧
      ∀ page ∈ pages, page.contents.length + page.commonPrefixes.length ≤ 1 := by
  obtain ⟨listing, hlisting, hbound⟩ : ∃ listing,
      s3ListObjects "probierz".toList bucket (byDirectory ['1']) = .ok listing ∧
        listing.maxKeys = 1 := ⟨_, rfl, by decide +kernel⟩
  obtain ⟨two, cursor, objects, -, -, -, hpages, -⟩ := pages_whole hlisting
  obtain ⟨pages, hfollowed, hwhole⟩ := hpages (by omega)
  rw [hbound] at hwhole
  exact ⟨pages, hfollowed, hwhole.bounded⟩

/-- A page bound of zero is admitted, and its page says it is truncated without
saying where it continues. -/
theorem empty_page_stuck :
    (s3ListObjects "probierz".toList bucket (byDirectory ['0'])).toOption.map (fun listing =>
      (listing.truncated, listing.next)) = some (true, none) := by
  decide +kernel

end Stado.S3.Listener
