import Stado.S3.Scans

/-!
# The keys a listing reads

For a prefix that keys can start with: which grant opens it, which objects are
scanned, and what is shown of them.
-/

namespace Stado.S3.Listener

open Sigv4 List ObjectRef
open ObjectRef (boundary namespacePrefix fromStoragePath)

/-! ## Prefixes that keys start with -/

/-- A prefix that some key starts with. -/
def Clean (stem : Text) : Prop := ∃ key, ValidKey key ∧ stem <+: key

def lastPart (stem : Text) : Text := stem.rtakeWhile fun c => c ≠ '/'

/-- A prefix whose last part is `.` or `..`. -/
def Dots (stem : Text) : Prop := lastPart stem = ['.'] ∨ lastPart stem = ['.', '.']

/-- A prefix that a listing may ask the store for. -/
def Named (stem : Text) : Prop :=
  let rest := stem.dropWhile isSlash
  let inner := rest.rdropWhile isSlash
  ((inner = [] ∨ (inner.splitOn '/').all properPart = true) ∧ plainPath rest = true)

theorem namespacePrefix_named (object : ObjectRef) (stem : Text) :
    (∃ path, namespacePrefix object.nameSpace stem = .ok path) ↔ Named stem := by
  have hsentinel := new_self ⟨object.nameSpace, "sentinel".toList, object.named, by decide⟩
  unfold namespacePrefix
  rw [hsentinel]
  simp only [bind, Except.bind]
  unfold Named
  dsimp only
  split_ifs with hrefused hinner hlast
  · refine iff_of_false nofun ?_
    rintro ⟨hproper, hplain⟩
    rcases hrefused with ⟨hne, himproper⟩ | hescape
    · rcases hproper with hempty | hproper
      · exact hne hempty
      · rw [himproper] at hproper
        cases hproper
    · rw [hescape] at hplain
      cases hplain
  all_goals
    obtain ⟨hproper, hplain⟩ := not_or.mp hrefused
    refine iff_of_true ⟨_, rfl⟩ ⟨?_, Bool.eq_true_of_not_eq_false hplain⟩
    by_cases hempty : (stem.dropWhile isSlash).rdropWhile isSlash = []
    · exact .inl hempty
    · exact .inr (Bool.eq_true_of_not_eq_false fun hfalse => hproper ⟨hempty, hfalse⟩)

variable {stem : Text}

theorem isSubtree_iff : isSubtree stem = true ↔ ∃ inner, stem = inner ++ ['/'] := by
  unfold isSubtree
  rw [decide_eq_true_eq, List.getLast?_eq_some_iff]

theorem Clean.path (h : Clean stem) :
    stem.dropWhile isSlash = stem ∧ (isSubtree stem = false → stem.rdropWhile isSlash = stem) ∧
      (∀ inner, stem = inner ++ ['/'] → inner ≠ [] ∧ stem.rdropWhile isSlash = inner) := by
  obtain ⟨key, hkey, rest, rfl⟩ := h
  refine ⟨?_, ?_, ?_⟩
  · cases stem with
    | nil => rfl
    | cons c later =>
      refine dropWhile_cons_of_neg ?_
      intro hslash
      obtain rfl : c = '/' := beq_iff_eq.mp hslash
      exact (@key_slash [] (later ++ rest) hkey).1 rfl
  · intro hplain
    rw [rdropWhile_eq_self_iff]
    intro hne hslash
    have hlast : stem.getLast hne = '/' := beq_iff_eq.mp hslash
    rw [isSubtree, List.getLast?_eq_some_getLast hne, hlast] at hplain
    revert hplain
    decide
  · rintro inner rfl
    rw [append_assoc] at hkey
    have hinner := (key_slash hkey).1
    refine ⟨hinner, ?_⟩
    rw [rdropWhile_concat_pos _ _ _ rfl, rdropWhile_eq_self_iff]
    intro hne hslash
    have hlast : inner.getLast hne = '/' := beq_iff_eq.mp hslash
    have hsplit := dropLast_append_getLast hne
    rw [hlast] at hsplit
    rw [← hsplit, append_assoc] at hkey
    exact (key_slash hkey).2.2 rfl

theorem Clean.boundary_eq (h : Clean stem) : boundary stem = stem := by
  obtain ⟨hhead, hplain, hsubtree⟩ := h.path
  unfold boundary
  rw [hhead]
  dsimp only
  cases hlast : isSubtree stem with
  | false =>
    have hnot : stem.getLast? ≠ some '/' := of_decide_eq_false hlast
    rw [hplain hlast, if_neg hnot]
    split_ifs with hempty
    · exact hempty.symm
    · rfl
  | true =>
    obtain ⟨inner, rfl⟩ := isSubtree_iff.mp hlast
    obtain ⟨hinner, hpath⟩ := hsubtree inner rfl
    rw [hpath, if_neg hinner, if_pos (of_decide_eq_true hlast)]

theorem lastPart_split (stem : Text) : ∃ front, stem = front ++ lastPart stem ∧
    '/' ∉ lastPart stem ∧ (front = [] ∨ ∃ before, front = before ++ ['/']) := by
  refine ⟨stem.rdropWhile fun c => c ≠ '/', (rdropWhile_append_rtakeWhile).symm, ?_, ?_⟩
  · intro hmem
    have hne := mem_rtakeWhile_imp hmem
    revert hne
    decide
  · by_cases hempty : (stem.rdropWhile fun c => decide (c ≠ '/')) = []
    · exact .inl hempty
    · right
      have hlast := rdropWhile_last_not (fun c => decide (c ≠ '/')) stem hempty
      have hslash : (stem.rdropWhile fun c => decide (c ≠ '/')).getLast hempty = '/' := by
        by_contra hne
        exact hlast (decide_eq_true hne)
      refine ⟨(stem.rdropWhile fun c => decide (c ≠ '/')).dropLast, ?_⟩
      conv_lhs => rw [← dropLast_append_getLast hempty, hslash]

theorem splitOn_plain {part : Text} (h : '/' ∉ part) : part.splitOn '/' = [part] := by
  obtain ⟨first, pieces, hsplit, htext, hfirst, hpieces⟩ := splitOn_pieces '/' part
  cases pieces with
  | nil =>
    rw [flatMap_nil, append_nil] at htext
    rw [hsplit, htext]
  | cons piece later =>
    rw [htext, flatMap_cons] at h
    exact absurd (mem_append_right _ (mem_append_left _ mem_cons_self)) h

theorem plainPath_append {left right : Text} (h : plainPath (left ++ right) = true) :
    plainPath left = true := by
  rw [plainPath, all_append, Bool.and_eq_true] at h
  exact h.1

/-- The store is asked for a prefix that keys start with, unless its last part is `.`
or `..`. -/
theorem Clean.named_iff (h : Clean stem) : Named stem ↔ ¬Dots stem := by
  obtain ⟨hhead, hplain, hsubtree⟩ := h.path
  obtain ⟨key, hkey, rest, rfl⟩ := h
  have hescape := plainPath_append hkey.2.2
  obtain ⟨front, hstem, hpart, hfront⟩ := lastPart_split stem
  unfold Named Dots
  rw [hhead]
  dsimp only
  -- the parts before the last one are parts of a key
  have hproper : ∀ before, front = before ++ ['/'] → (before.splitOn '/').all properPart = true := by
    rintro before rfl
    have hkey' := hkey
    rw [hstem, append_assoc, append_assoc] at hkey'
    exact (proper_around hkey').1
  have hparts : lastPart stem ≠ [] → (stem.splitOn '/').all properPart =
      properPart (lastPart stem) := by
    intro hne
    rcases hfront with rfl | ⟨before, rfl⟩
    · rw [nil_append] at hstem
      conv_lhs => rw [hstem, splitOn_plain hpart]
      exact Bool.and_true _
    · conv_lhs => rw [hstem, append_assoc]
      rw [singleton_append, splitOn_append_cons_self, all_append,
        hproper before rfl, splitOn_plain hpart]
      exact Bool.and_true _
  by_cases hempty : lastPart stem = []
  · refine iff_of_true ⟨?_, hescape⟩ ?_
    · rw [hempty, append_nil] at hstem
      rcases hfront with rfl | ⟨before, rfl⟩
      · rw [hstem]
        exact .inl rfl
      · rw [(hsubtree before hstem).2]
        exact .inr (hproper before rfl)
    · rw [hempty]
      rintro (hno | hno) <;> cases hno
  · have hnot : isSubtree stem = false := by
      rw [isSubtree, decide_eq_false_iff_not]
      intro hlast
      rw [hstem, List.getLast?_append_of_ne_nil _ hempty] at hlast
      exact hpart (mem_of_getLast? hlast)
    have hne : stem ≠ [] := by
      intro hnil
      rw [hnil] at hempty
      exact hempty rfl
    rw [hplain hnot, hparts hempty, properPart]
    simp only [ne_eq, hne, false_or, hescape, and_true, Bool.and_eq_true, decide_eq_true_eq,
      decide_not, Bool.not_eq_true', decide_eq_false_iff_not, hempty, not_false_eq_true, true_and,
      not_or]

/-! ## Directories -/

/-- A directory that the namespace may list: the whole of it, or one that ends in `/`. -/
def ObjectApiNamespace.Directory (entry : ObjectApiNamespace) (stem : Text) : Prop :=
  ∃ policy ∈ entry.prefixPolicies, policy.allowsAction .list = true ∧ policy.boundary = stem ∧
    (stem = [] ∨ isSubtree stem = true)

variable {entry : ObjectApiNamespace} {stem : Text} {nameSpace : Text} {directory : Text}

/-- No directory is inside another one. -/
theorem Bounded.eq_of_nested (h : Bounded (entry.prefixPolicies.map ObjectPrefixPolicy.boundary))
    {left right : Text} (hleft : entry.Directory left) (hright : entry.Directory right)
    ( hprefix : left <+: right) : left = right := by
  obtain ⟨policy, hpolicy, -, hboundary, hsubtree⟩ := hleft
  obtain ⟨policy', hpolicy', -, hboundary', -⟩ := hright
  have hmem : left ∈ entry.prefixPolicies.map ObjectPrefixPolicy.boundary :=
    hboundary ▸ List.mem_map_of_mem hpolicy
  have hmem' : right ∈ entry.prefixPolicies.map ObjectPrefixPolicy.boundary :=
    hboundary' ▸ List.mem_map_of_mem hpolicy'
  have hoverlap : objectPrefixesOverlap left right = true := by
    unfold objectPrefixesOverlap
    simp only [Bool.or_eq_true, decide_eq_true_eq, Bool.and_eq_true, isPrefixOf_iff_prefix]
    rcases hsubtree with hempty | hsubtree
    · exact .inl (.inl (.inl (.inr hempty)))
    · exact .inl (.inr ⟨hsubtree, hprefix⟩)
  have hoverlap' : objectPrefixesOverlap right left = true := by
    unfold objectPrefixesOverlap
    simp only [Bool.or_eq_true, decide_eq_true_eq, Bool.and_eq_true, isPrefixOf_iff_prefix]
    rcases hsubtree with hempty | hsubtree
    · exact .inl (.inl (.inr hempty))
    · exact .inr ⟨hsubtree, hprefix⟩
  by_contra hne
  have hsymm : ∀ a ∈ entry.prefixPolicies.map ObjectPrefixPolicy.boundary,
      ∀ b ∈ entry.prefixPolicies.map ObjectPrefixPolicy.boundary, a ≠ b →
        objectPrefixesOverlap a b = false ∨ objectPrefixesOverlap b a = false :=
    List.Pairwise.forall_of_forall_of_flip (fun _ _ hself => absurd rfl hself)
      (h.2.imp fun hfalse _ => .inl hfalse) (h.2.imp fun hfalse _ => .inr hfalse)
  rcases hsymm left hmem right hmem' hne with hfalse | hfalse
  · rw [hoverlap] at hfalse
    cases hfalse
  · rw [hoverlap'] at hfalse
    cases hfalse

/-- A prefix that names a directory without its slash. -/
def ObjectApiNamespace.Root (entry : ObjectApiNamespace) (stem : Text) : Prop :=
  isSubtree stem = false ∧ entry.Directory (stem ++ ['/'])

theorem opens_iff (h : Clean stem) {policy : ObjectPrefixPolicy} {out : Text} :
    policy.opens .list stem (stem.rdropWhile isSlash) = some out ↔
      policy.allowsAction .list = true ∧ (policy.boundary = [] ∨ isSubtree policy.boundary = true) ∧
        ((policy.boundary <+: stem ∧ out = stem) ∨
          (isSubtree stem = false ∧ policy.boundary = stem ++ ['/'] ∧ out = policy.boundary)) := by
  obtain ⟨-, hplain, hsubtree⟩ := h.path
  unfold ObjectPrefixPolicy.opens
  dsimp only
  by_cases hallows : policy.allowsAction .list = false
  · rw [if_pos hallows, hallows]
    exact iff_of_false nofun fun hno => Bool.false_ne_true hno.1
  rw [if_neg hallows, Bool.eq_true_of_not_eq_false hallows]
  by_cases hempty : policy.boundary = []
  · rw [if_pos hempty, hempty]
    constructor
    · intro hout
      exact ⟨rfl, .inl rfl, .inl ⟨ nil_prefix, (Option.some.inj hout).symm⟩⟩
    · rintro ⟨-, -, ⟨-, rfl⟩ | ⟨-, hno, -⟩⟩
      · rfl
      · exact absurd hno.symm (append_ne_nil_of_right_ne_nil _ (cons_ne_nil _ _))
  rw [if_neg hempty]
  by_cases hdirectory : isSubtree policy.boundary = false
  · rw [if_pos hdirectory, hdirectory]
    refine iff_of_false nofun ?_
    rintro ⟨-, hno | hno, -⟩
    · exact hempty hno
    · cases hno
  rw [if_neg hdirectory]
  have hends := Bool.eq_true_of_not_eq_false hdirectory
  obtain ⟨root, hroot⟩ := isSubtree_iff.mp hends
  rw [hroot, dropLast_concat]
  have hlong : ¬root ++ ['/'] <+: root := by
    intro hprefix
    have hle := hprefix.length_le
    rw [length_append, length_singleton] at hle
    omega
  -- the prefix is its path, or that and one slash
  cases hlast : isSubtree stem with
  | false =>
    rw [hplain hlast]
    split_ifs with hsame hinside
    · subst hsame
      constructor
      · intro hout
        exact ⟨rfl, .inr (hroot ▸ hends), .inr ⟨rfl, rfl, (Option.some.inj hout).symm⟩⟩
      · rintro ⟨-, -, ⟨hno, -⟩ | ⟨-, -, rfl⟩⟩
        · exact absurd hno hlong
        · rfl
    · constructor
      · intro hout
        exact ⟨rfl, .inr (hroot ▸ hends), .inl ⟨hinside, (Option.some.inj hout).symm⟩⟩
      · rintro ⟨-, -, ⟨-, rfl⟩ | ⟨-, hno, -⟩⟩
        · rfl
        · exact absurd (append_cancel_right hno).symm hsame
    · refine iff_of_false nofun ?_
      rintro ⟨-, -, ⟨hno, -⟩ | ⟨-, hno, -⟩⟩
      · exact hinside hno
      · exact hsame (append_cancel_right hno).symm
  | true =>
    obtain ⟨inner, hinner⟩ := isSubtree_iff.mp hlast
    rw [(hsubtree inner hinner).2]
    split_ifs with hsame hinside
    · subst hsame
      rw [hinner]
      constructor
      · intro hout
        exact ⟨rfl, .inr (hroot ▸ hends), .inl ⟨prefix_rfl, (Option.some.inj hout).symm⟩⟩
      · rintro ⟨-, -, ⟨-, rfl⟩ | ⟨hno, -⟩⟩
        · rfl
        · cases hno
    · constructor
      · intro hout
        refine ⟨rfl, .inr (hroot ▸ hends), .inl ⟨?_, (Option.some.inj hout).symm⟩⟩
        rw [hinner]
        exact hinside.trans (prefix_append _ _)
      · rintro ⟨-, -, ⟨-, rfl⟩ | ⟨hno, -⟩⟩
        · rfl
        · cases hno
    · refine iff_of_false nofun ?_
      rintro ⟨-, -, ⟨hno, -⟩ | ⟨hno, -⟩⟩
      · rw [hinner] at hno
        rcases prefix_concat_iff.mp hno with hno | hno
        · exact hsame (append_cancel_right hno).symm
        · exact hinside hno
      · cases hno

/-- The grant that opens a prefix: the prefix itself where it is inside a directory, and
the whole directory where it is its root. -/
theorem authorized_iff (h : Clean stem)
    (hbounded : Bounded (entry.prefixPolicies.map ObjectPrefixPolicy.boundary)) {out : Text} :
    entry.authorizedListPrefix stem .list = some out ↔
      ((∃ directory, entry.Directory directory ∧ directory <+: stem) ∧ out = stem) ∨
        (entry.Root stem ∧ out = stem ++ ['/']) := by
  obtain ⟨hhead, -, -⟩ := h.path
  unfold ObjectApiNamespace.authorizedListPrefix
  rw [hhead]
  dsimp only
  have hsound : ∀ {out}, entry.prefixPolicies.findSome? (fun policy =>
      policy.opens .list stem (stem.rdropWhile isSlash)) = some out →
        ((∃ directory, entry.Directory directory ∧ directory <+: stem) ∧ out = stem) ∨
          (entry.Root stem ∧ out = stem ++ ['/']) := by
    intro out hfound
    obtain ⟨policy, hpolicy, hopens⟩ := exists_of_findSome?_eq_some hfound
    obtain ⟨hallows, hends, ⟨ hprefix, rfl⟩ | ⟨hplain, hboundary, rfl⟩⟩ := (opens_iff h).mp hopens
    · exact .inl ⟨⟨_, ⟨policy, hpolicy, hallows, rfl, hends⟩, hprefix⟩, rfl⟩
    · rw [hboundary] at hends
      exact .inr ⟨⟨hplain, policy, hpolicy, hallows, hboundary, hends⟩, hboundary⟩
  -- a directory is opened from one prefix only
  have hexclusive : ∀ directory, entry.Directory directory → directory <+: stem →
      ¬entry.Root stem := by
    rintro directory hdirectory hprefix ⟨-, hroot⟩
    have hsame := hbounded.eq_of_nested hdirectory hroot ( hprefix.trans (prefix_append _ _))
    rw [hsame] at hprefix
    have hle := hprefix.length_le
    rw [length_append, length_singleton] at hle
    omega
  refine ⟨hsound, ?_⟩
  intro hout
  have hsome : ∃ policy ∈ entry.prefixPolicies,
      policy.opens .list stem (stem.rdropWhile isSlash) = some out := by
    rcases hout with ⟨⟨directory, ⟨policy, hpolicy, hallows, rfl, hends⟩, hprefix⟩, rfl⟩ |
      ⟨⟨hplain, policy, hpolicy, hallows, hboundary, hends⟩, rfl⟩
    · exact ⟨policy, hpolicy, (opens_iff h).mpr ⟨hallows, hends, .inl ⟨ hprefix, rfl⟩⟩⟩
    · rw [← hboundary] at hends
      exact ⟨policy, hpolicy, (opens_iff h).mpr ⟨hallows, hends,
        .inr ⟨hplain, hboundary, hboundary.symm⟩⟩⟩
  cases hfound : entry.prefixPolicies.findSome? fun policy =>
      policy.opens .list stem (stem.rdropWhile isSlash) with
  | none =>
    obtain ⟨policy, hpolicy, hopens⟩ := hsome
    rw [List.findSome?_eq_none_iff.mp hfound policy hpolicy] at hopens
    cases hopens
  | some found =>
    rcases hsound hfound with ⟨⟨directory, hdirectory, hprefix⟩, rfl⟩ | ⟨hroot, rfl⟩
    · rcases hout with ⟨-, rfl⟩ | ⟨hroot, -⟩
      · rfl
      · exact absurd hroot (hexclusive directory hdirectory hprefix)
    · rcases hout with ⟨⟨directory, hdirectory, hprefix⟩, -⟩ | ⟨-, rfl⟩
      · exact absurd hroot (hexclusive directory hdirectory hprefix)
      · rfl

theorem mem_directoriesUnder (hplain : ¬∃ inside, entry.Directory inside ∧ inside <+: stem) :
    directory ∈ entry.directoriesUnder stem ↔ entry.Directory directory ∧ stem <+: directory := by
  unfold ObjectApiNamespace.directoriesUnder
  rw [List.mem_map]
  constructor
  · rintro ⟨policy, hpolicy, rfl⟩
    obtain ⟨hmem, hfilter⟩ := mem_filter.mp hpolicy
    rw [Bool.and_eq_true, Bool.and_eq_true, isPrefixOf_iff_prefix] at hfilter
    exact ⟨⟨policy, hmem, hfilter.1.1, rfl, .inr hfilter.1.2⟩, hfilter.2⟩
  · rintro ⟨⟨policy, hpolicy, hallows, rfl, hends⟩, hprefix⟩
    have hsubtree : isSubtree policy.boundary = true := by
      rcases hends with hempty | hsubtree
      · exact absurd ⟨_, ⟨policy, hpolicy, hallows, rfl, .inl hempty⟩, hempty ▸ nil_prefix⟩ hplain
      · exact hsubtree
    refine ⟨policy, mem_filter.mpr ⟨hpolicy, ?_⟩, rfl⟩
    rw [Bool.and_eq_true, Bool.and_eq_true, isPrefixOf_iff_prefix]
    exact ⟨⟨hallows, hsubtree⟩, hprefix⟩

theorem validObjectPrefix_spec (h : validObjectPrefix directory = true) (hne : directory ≠ []) :
    directory.dropWhile isSlash = directory ∧ directory.rdropWhile isSlash ≠ [] ∧
      ((directory.rdropWhile isSlash).splitOn '/').all properPart = true ∧
      plainPath (directory.rdropWhile isSlash) = true := by
  unfold validObjectPrefix at h
  rw [if_neg hne] at h
  split_ifs at h with hrefused
  simp only [Bool.and_eq_true, decide_eq_true_eq] at h
  obtain ⟨⟨⟨hpath, -⟩, hproper⟩, hplain⟩ := h
  refine ⟨?_, hpath, hproper, hplain⟩
  cases directory with
  | nil => rfl
  | cons c later =>
    refine dropWhile_cons_of_neg ?_
    intro hslash
    obtain rfl : c = '/' := beq_iff_eq.mp hslash
    exact hrefused (.inr rfl)

theorem Bounded.named (h : Bounded (entry.prefixPolicies.map ObjectPrefixPolicy.boundary))
    (hdirectory : entry.Directory directory) : Named directory := by
  by_cases hne : directory = []
  · subst hne
    exact ⟨.inl rfl, rfl⟩
  · obtain ⟨policy, hpolicy, -, rfl, -⟩ := hdirectory
    obtain ⟨hhead, -, hproper, hplain⟩ :=
      validObjectPrefix_spec (h.1 _ (List.mem_map_of_mem hpolicy)) hne
    unfold Named
    rw [hhead]
    refine ⟨.inr hproper, ?_⟩
    have hsplit : policy.boundary.rdropWhile isSlash ++ policy.boundary.rtakeWhile isSlash =
        policy.boundary := rdropWhile_append_rtakeWhile
    rw [← hsplit, plainPath, all_append, Bool.and_eq_true]
    refine ⟨hplain, List.all_eq_true.mpr ?_⟩
    intro c hc
    have hslash : isSlash c = true := mem_rtakeWhile_imp hc
    rw [beq_iff_eq.mp hslash]
    decide

/-! ## Scans -/

theorem nameSpace_of_prefix (hnamed : ValidNamespace nameSpace) {object : ObjectRef} {rest : Text}
    (h : rootPrefix ++ nameSpace ++ '/' :: rest <+: object.storagePath) :
    object.nameSpace = nameSpace := by
  obtain ⟨later, hpath⟩ := h
  rw [storagePath, append_assoc, append_assoc, append_assoc] at hpath
  have hparts := congrArg (splitOnce '/') (append_cancel_left hpath)
  have hslash := slash_notMem_nameSpace ⟨nameSpace, "k".toList, hnamed, by decide⟩
  rw [cons_append, splitOnce_append hslash,
    splitOnce_append (slash_notMem_nameSpace object)] at hparts
  exact (Prod.mk.inj (Option.some.inj hparts)).1.symm

/-- The store prefixes of some scans, where each may be asked for, and the objects
below them. -/
theorem scanned_ok (hnamed : ValidNamespace nameSpace) {scans : List Text}
    (h : ∀ scan ∈ scans, Named scan) :
    ∃ paths, scanned nameSpace scans = .ok paths ∧ ∀ object : ObjectRef,
      (∃ path ∈ paths, path <+: object.storagePath) ↔
        object.nameSpace = nameSpace ∧ ∃ scan ∈ scans, boundary scan <+: object.key := by
  induction scans with
  | nil =>
    refine ⟨[], rfl, ?_⟩
    intro object
    exact iff_of_false (fun ⟨_, hno, _⟩ => nomatch hno) (fun ⟨_, _, hno, _⟩ => nomatch hno)
  | cons scan later ih =>
    obtain ⟨hscan, hlater⟩ := forall_mem_cons.mp h
    obtain ⟨path, hpath⟩ :=
      (namespacePrefix_named ⟨nameSpace, "k".toList, hnamed, by decide⟩ scan).mpr hscan
    change namespacePrefix nameSpace scan = .ok path at hpath
    obtain ⟨paths, hpaths, hspec⟩ := ih hlater
    refine ⟨path :: paths, ?_, ?_⟩
    · rw [scanned, hpath, hpaths]
      rfl
    · intro object
      have hfirst : path <+: object.storagePath ↔
          object.nameSpace = nameSpace ∧ boundary scan <+: object.key := by
        constructor
        · intro hprefix
          have hstarts : path = rootPrefix ++ nameSpace ++ '/' :: boundary scan :=
            @namespacePrefix_eq scan path ⟨nameSpace, "k".toList, hnamed, by decide⟩ hpath
          have hprefix' := hprefix
          rw [hstarts] at hprefix'
          have hsame := nameSpace_of_prefix hnamed hprefix'
          refine ⟨hsame, ?_⟩
          rw [← hsame] at hpath
          exact ( namespacePrefix_prefix hpath).mp hprefix
        · rintro ⟨hsame, hprefix⟩
          rw [← hsame] at hpath
          exact ( namespacePrefix_prefix hpath).mpr hprefix
      rw [exists_mem_cons_iff, exists_mem_cons_iff, hfirst, hspec object]
      exact and_or_left.symm

theorem scanned_refused (hnamed : ValidNamespace nameSpace) {scan : Text}
    (h : ¬Named scan) : ∃ error, scanned nameSpace [scan] = .error error := by
  cases hpath : namespacePrefix nameSpace scan with
  | error error =>
    refine ⟨.invalid error.text, ?_⟩
    rw [scanned, hpath]
    rfl
  | ok path =>
    exact absurd ((namespacePrefix_named ⟨nameSpace, "k".toList, hnamed, by decide⟩ scan).mp
      ⟨path, hpath⟩) h

/-- What a listing of a prefix scans: the keys that start with it inside a directory, the
whole of the directory whose root it is, and else every directory under it. -/
def ObjectApiNamespace.Reaches (entry : ObjectApiNamespace) (stem key : Text) : Prop :=
  ((∃ directory, entry.Directory directory ∧ directory <+: stem) ∧ stem <+: key) ∨
    (entry.Root stem ∧ stem ++ ['/'] <+: key) ∨
    ((¬∃ directory, entry.Directory directory ∧ directory <+: stem) ∧ ¬entry.Root stem ∧
      ∃ directory, entry.Directory directory ∧ stem <+: directory ∧ boundary directory <+: key)

/-- A prefix inside a directory whose last part is `.` or `..`. -/
def ObjectApiNamespace.Refuses (entry : ObjectApiNamespace) (stem : Text) : Prop :=
  Dots stem ∧ ∃ directory, entry.Directory directory ∧ directory <+: stem

def ObjectApiNamespace.Meets (entry : ObjectApiNamespace) (stem : Text) : Prop :=
  ∃ directory, entry.Directory directory ∧ (directory <+: stem ∨ stem <+: directory)

variable {signer : Signer}

theorem Clean.boundary_root (h : Clean stem) (hroot : entry.Root stem)
    (hbounded : Bounded (entry.prefixPolicies.map ObjectPrefixPolicy.boundary)) :
    boundary (stem ++ ['/']) = stem ++ ['/'] := by
  obtain ⟨hhead, hplain, -⟩ := h.path
  obtain ⟨hlast, policy, hpolicy, -, hboundary, -⟩ := hroot
  have hvalid := hbounded.1 _ (List.mem_map_of_mem hpolicy)
  rw [hboundary] at hvalid
  obtain ⟨hhead', hne, -⟩ := validObjectPrefix_spec hvalid
    (append_ne_nil_of_right_ne_nil _ (cons_ne_nil _ _))
  unfold boundary
  rw [hhead']
  dsimp only
  rw [rdropWhile_concat_pos _ _ _ rfl, hplain hlast] at hne ⊢
  rw [if_neg hne, if_pos (List.getLast?_concat)]

theorem grantedScans_ok (h : Clean stem) (hnamed : ValidNamespace signer.nameSpace)
    (hbounded : Bounded (signer.policy.prefixPolicies.map ObjectPrefixPolicy.boundary))
    (hmeets : signer.policy.Meets stem) (hopen : ¬signer.policy.Refuses stem) :
    ∃ paths, grantedScans signer stem = .ok paths ∧ ∀ object : ObjectRef,
      (∃ path ∈ paths, path <+: object.storagePath) ↔
        object.nameSpace = signer.nameSpace ∧ signer.policy.Reaches stem object.key := by
  unfold grantedScans
  dsimp only
  by_cases hinside : ∃ directory, signer.policy.Directory directory ∧ directory <+: stem
  · have hauthorized := (authorized_iff h hbounded).mpr (.inl ⟨hinside, rfl⟩)
    rw [hauthorized]
    dsimp only
    rw [if_neg (cons_ne_nil _ _)]
    have hdots : Named stem := h.named_iff.mpr fun hdots => hopen ⟨hdots, hinside⟩
    obtain ⟨paths, hpaths, hspec⟩ := @scanned_ok signer.nameSpace hnamed [stem]
      (fun scan hscan => by rwa [mem_singleton.mp hscan])
    refine ⟨paths, hpaths, ?_⟩
    intro object
    rw [hspec object]
    refine and_congr_right fun _ => ?_
    have hroot : ¬signer.policy.Root stem := by
      intro hroot
      have hother := (authorized_iff h hbounded).mpr (.inr ⟨hroot, rfl⟩)
      rw [hauthorized] at hother
      have hlength := congrArg List.length (Option.some.inj hother)
      rw [length_append, length_singleton] at hlength
      omega
    constructor
    · rintro ⟨scan, hscan, hprefix⟩
      rw [mem_singleton.mp hscan, h.boundary_eq] at hprefix
      exact .inl ⟨hinside, hprefix⟩
    · rintro (⟨-, hprefix⟩ | ⟨hno, -⟩ | ⟨hno, -⟩)
      · refine ⟨stem, mem_singleton_self _, ?_⟩
        rwa [h.boundary_eq]
      · exact absurd hno hroot
      · exact absurd hinside hno
  · by_cases hroot : signer.policy.Root stem
    · have hauthorized := (authorized_iff h hbounded).mpr (.inr ⟨hroot, rfl⟩)
      rw [hauthorized]
      dsimp only
      rw [if_neg (cons_ne_nil _ _)]
      obtain ⟨paths, hpaths, hspec⟩ := @scanned_ok signer.nameSpace hnamed [stem ++ ['/']]
        (fun scan hscan => by
          rw [mem_singleton.mp hscan]
          exact hbounded.named hroot.2)
      refine ⟨paths, hpaths, ?_⟩
      intro object
      rw [hspec object]
      refine and_congr_right fun _ => ?_
      constructor
      · rintro ⟨scan, hscan, hprefix⟩
        rw [mem_singleton.mp hscan, h.boundary_root hroot hbounded] at hprefix
        exact .inr (.inl ⟨hroot, hprefix⟩)
      · rintro (⟨hno, -⟩ | ⟨-, hprefix⟩ | ⟨-, hno, -⟩)
        · exact absurd hno hinside
        · refine ⟨_, mem_singleton_self _, ?_⟩
          rwa [h.boundary_root hroot hbounded]
        · exact absurd hroot hno
    · have hnone : signer.policy.authorizedListPrefix stem .list = none := by
        rw [Option.eq_none_iff_forall_ne_some]
        intro out hout
        rcases (authorized_iff h hbounded).mp hout with ⟨hno, -⟩ | ⟨hno, -⟩
        · exact hinside hno
        · exact hroot hno
      rw [hnone]
      dsimp only
      obtain ⟨directory, hdirectory, hprefix | hprefix⟩ := hmeets
      · exact absurd ⟨directory, hdirectory, hprefix⟩ hinside
      have hmem := (mem_directoriesUnder hinside).mpr ⟨hdirectory, hprefix⟩
      rw [if_neg (ne_nil_of_mem hmem)]
      obtain ⟨paths, hpaths, hspec⟩ := @scanned_ok signer.nameSpace hnamed
        (signer.policy.directoriesUnder stem)
        (fun scan hscan => hbounded.named ((mem_directoriesUnder hinside).mp hscan).1)
      refine ⟨paths, hpaths, ?_⟩
      intro object
      rw [hspec object]
      refine and_congr_right fun _ => ?_
      constructor
      · rintro ⟨scan, hscan, hkey⟩
        obtain ⟨hscan, hunder⟩ := (mem_directoriesUnder hinside).mp hscan
        exact .inr (.inr ⟨hinside, hroot, scan, hscan, hunder, hkey⟩)
      · rintro (⟨hno, -⟩ | ⟨hno, -⟩ | ⟨-, -, scan, hscan, hunder, hkey⟩)
        · exact absurd hno hinside
        · exact absurd hno hroot
        · exact ⟨scan, (mem_directoriesUnder hinside).mpr ⟨hscan, hunder⟩, hkey⟩

theorem grantedScans_refused (h : Clean stem) (hnamed : ValidNamespace signer.nameSpace)
    (hbounded : Bounded (signer.policy.prefixPolicies.map ObjectPrefixPolicy.boundary))
    (hrefuses : ¬signer.policy.Meets stem ∨ signer.policy.Refuses stem) :
    ∃ error, grantedScans signer stem = .error error := by
  unfold grantedScans
  dsimp only
  rcases hrefuses with hmeets | ⟨hdots, hinside⟩
  · have hinside : ¬∃ directory, signer.policy.Directory directory ∧ directory <+: stem :=
      fun ⟨directory, hdirectory, hprefix⟩ => hmeets ⟨directory, hdirectory, .inl hprefix⟩
    have hnone : signer.policy.authorizedListPrefix stem .list = none := by
      rw [Option.eq_none_iff_forall_ne_some]
      intro out hout
      rcases (authorized_iff h hbounded).mp hout with ⟨hno, -⟩ | ⟨⟨-, hroot⟩, -⟩
      · exact hinside hno
      · exact hmeets ⟨_, hroot, .inr (prefix_append _ _)⟩
    have hempty : signer.policy.directoriesUnder stem = [] := by
      rw [eq_nil_iff_forall_not_mem]
      intro directory hmem
      obtain ⟨hdirectory, hprefix⟩ := (mem_directoriesUnder hinside).mp hmem
      exact hmeets ⟨directory, hdirectory, .inr hprefix⟩
    rw [hnone, hempty]
    exact ⟨_, if_pos rfl⟩
  · rw [(authorized_iff h hbounded).mpr (.inl ⟨hinside, rfl⟩)]
    dsimp only
    rw [if_neg (cons_ne_nil _ _)]
    exact scanned_refused hnamed fun hproper => h.named_iff.mp hproper hdots

def ShownAs (stem : Text) (blob : Blob) (key : Text) : Prop :=
  ∃ object, fromStoragePath blob.name = .ok object ∧ blob.size.isSome = true ∧
    ¬Staged object.key ∧ stem <+: object.key ∧ object.key = key

/-- A blob whose name is read as no object's. -/
def Unreadable (blob : Blob) : Prop := ∃ error, fromStoragePath blob.name = .error error

theorem collect_spec (found : Collected stem) (blob : Blob) :
    (Unreadable blob ∧ ∃ error, collect found blob = .error error) ∨
      ∃ more, collect found blob = .ok more ∧ ¬Unreadable blob ∧ ∀ key,
        key ∈ more.entries.map Entry.key ↔ key ∈ found.entries.map Entry.key ∨ ShownAs stem blob key := by
  unfold collect Unreadable ShownAs
  cases hread : fromStoragePath blob.name with
  | error error => exact .inl ⟨⟨error, rfl⟩, _, rfl⟩
  | ok object =>
    right
    dsimp only [Except.mapError]
    cases hsize : blob.size with
    | none =>
      refine ⟨found, rfl, nofun, ?_⟩
      intro key
      refine (or_iff_left ?_).symm
      rintro ⟨_, -, hno, -⟩
      cases hno
    | some size =>
      dsimp only
      by_cases hlisted : ¬Staged object.key ∧ stem <+: object.key ∧
          object.key ∉ found.entries.map Entry.key
      · rw [dif_pos hlisted]
        refine ⟨_, rfl, nofun, ?_⟩
        intro key
        unfold Collected.add
        rw [map_append, mem_append, map_singleton, mem_singleton]
        refine or_congr_right ?_
        constructor
        · rintro rfl
          exact ⟨object, rfl, rfl, hlisted.1, hlisted.2.1, rfl⟩
        · rintro ⟨_, hsame, -, -, -, rfl⟩
          rw [Except.ok.inj hsame]
      · rw [dif_neg hlisted]
        refine ⟨found, rfl, nofun, ?_⟩
        intro key
        refine (or_iff_left_of_imp ?_).symm
        rintro ⟨_, hsame, -, hunstaged, hprefix, rfl⟩
        obtain rfl := Except.ok.inj hsame
        by_contra hnew
        exact hlisted ⟨hunstaged, hprefix, hnew⟩

theorem collectAll_spec (blobs : List Blob) (found : Collected stem) :
    ((∃ blob ∈ blobs, Unreadable blob) ∧ ∃ error, collectAll blobs found = .error error) ∨
      ∃ more, collectAll blobs found = .ok more ∧ (¬∃ blob ∈ blobs, Unreadable blob) ∧ ∀ key,
        key ∈ more.entries.map Entry.key ↔
          key ∈ found.entries.map Entry.key ∨ ∃ blob ∈ blobs, ShownAs stem blob key := by
  induction blobs generalizing found with
  | nil =>
    refine .inr ⟨found, rfl, ?_, ?_⟩
    · rintro ⟨_, hno, -⟩
      cases hno
    · intro key
      refine (or_iff_left ?_).symm
      rintro ⟨_, hno, -⟩
      cases hno
  | cons blob later ih =>
    rw [collectAll]
    rcases collect_spec found blob with ⟨hunread, error, hcollect⟩ | ⟨more, hcollect, hread, hkeys⟩
    · rw [hcollect]
      exact .inl ⟨⟨blob, mem_cons_self, hunread⟩, error, rfl⟩
    · rw [hcollect]
      rcases ih more with ⟨⟨other, hother, hunread⟩, error, hrest⟩ | ⟨all, hrest, hreads, hall⟩
      · exact .inl ⟨⟨other, mem_cons_of_mem _ hother, hunread⟩, error, hrest⟩
      · refine .inr ⟨all, hrest, ?_, ?_⟩
        · rw [exists_mem_cons_iff]
          exact not_or.mpr ⟨hread, hreads⟩
        · intro key
          rw [hall key, hkeys key, exists_mem_cons_iff, or_assoc]

end Stado.S3.Listener
