import Mathlib.Algebra.Order.BigOperators.Group.List
import Mathlib.Algebra.Order.Group.Nat
import Stado.S3.ScanSpecs
import Stado.Safety.NamesSurvive

/-!
# A listing shows what the grants allow

The keys a listing of a prefix ranges over are the stored, unstaged keys that
start with it inside a granted directory, but for five kinds of prefixes, grants
and stores.
-/

namespace Stado.S3.Listener

open Sigv4 List ObjectRef
open ObjectRef (boundary fromStoragePath EndsInSpace)
open Directory (isWhitespace)

/-- A key that the listing of a prefix ranges over: none, where it is refused. -/
def Lists (store : List Blob) (signer : Signer) (stem key : Text) : Prop :=
  ∃ listing, s3Listable store signer stem = .ok listing ∧ key ∈ listing.entries.map Entry.key

def Holds (store : List Blob) (signer : Signer) (blob : Blob) : Prop :=
  blob ∈ store ∧ blob.object.nameSpace = signer.nameSpace

def Granted (store : List Blob) (signer : Signer) (stem key : Text) : Prop :=
  (∃ blob, Holds store signer blob ∧ blob.size.isSome = true ∧ blob.object.key = key) ∧
    ¬Staged key ∧ stem <+: key ∧ ∃ directory, signer.policy.Directory directory ∧ directory <+: key

/-! ## Where the two differ -/

/-- The prefix is a directory's name without its slash, and granted keys that start with
it are outside the directory. -/
def Shadowed (store : List Blob) (signer : Signer) (stem : Text) : Prop :=
  signer.policy.Root stem ∧ ∃ key, Granted store signer stem key ∧ ¬stem ++ ['/'] <+: key

/-- The prefix stops after `.` or `..` inside a directory, and granted keys start with it. -/
def Dotted (store : List Blob) (signer : Signer) (stem : Text) : Prop :=
  signer.policy.Refuses stem ∧ ∃ key, Granted store signer stem key

def Spaced (store : List Blob) (signer : Signer) (stem : Text) : Prop :=
  ∃ key, Granted store signer stem key ∧ EndsInSpace key

/-- Beside granted keys stands an object whose name is read as no object's. -/
def Blocked (store : List Blob) (signer : Signer) (stem : Text) : Prop :=
  (∃ key, Granted store signer stem key) ∧ ∃ blob, Holds store signer blob ∧
    signer.policy.Reaches stem blob.object.key ∧ Unreadable blob

/-- A staged part, or an object outside every directory, is read under a key that is not
granted. -/
def Strayed (store : List Blob) (signer : Signer) (stem : Text) : Prop :=
  ¬signer.policy.Refuses stem ∧
    (∀ blob, Holds store signer blob → signer.policy.Reaches stem blob.object.key →
      ¬Unreadable blob) ∧
    ∃ blob key, Holds store signer blob ∧ signer.policy.Reaches stem blob.object.key ∧
      (Staged blob.object.key ∨
        ¬∃ directory, signer.policy.Directory directory ∧ directory <+: blob.object.key) ∧
      ShownAs stem blob key ∧ ¬Granted store signer stem key

/-! ## Names as they are read -/

variable {key : Text} {blob : Blob}

/-- A key that is not empty starts with no slash, whatever is trimmed from its end. -/
theorem head_trimmed (h : ValidKey key) (test : Char → Bool) :
    (key.rdropWhile test).dropWhile isSlash = key.rdropWhile test := by
  obtain ⟨rest, hrest⟩ := rdropWhile_prefix test key
  cases htrimmed : key.rdropWhile test with
  | nil => rfl
  | cons c later =>
    refine dropWhile_cons_of_neg ?_
    intro hslash
    obtain rfl : c = '/' := beq_iff_eq.mp hslash
    rw [htrimmed] at hrest
    rw [← hrest] at h
    exact (@key_slash [] (later ++ rest) h).1 rfl

theorem read_key {object read : ObjectRef} (h : fromStoragePath object.storagePath = .ok read) :
    (∃ rest, object.key = read.key ++ rest ∧ ∀ c ∈ rest, isSlash c = true ∨ isWhitespace c = true) ∧
    (read.key = object.key ↔ ¬EndsInSpace object.key) := by
  rw [fromStoragePath_eq] at h
  have hkey : read.key = (object.key.rdropWhile isWhitespace).rdropWhile isSlash := by
    rw [new_key h]
    show ((object.key.rdropWhile isWhitespace).dropWhile isSlash).rdropWhile isSlash = _
    rw [head_trimmed object.keyed]
  have hspace : object.key.rdropWhile isWhitespace ++ object.key.rtakeWhile isWhitespace =
      object.key := rdropWhile_append_rtakeWhile
  have hslash : (object.key.rdropWhile isWhitespace).rdropWhile isSlash ++
      (object.key.rdropWhile isWhitespace).rtakeWhile isSlash =
        object.key.rdropWhile isWhitespace := rdropWhile_append_rtakeWhile
  constructor
  · refine ⟨(object.key.rdropWhile isWhitespace).rtakeWhile isSlash ++
      object.key.rtakeWhile isWhitespace, ?_, ?_⟩
    · rw [hkey, ← append_assoc, hslash, hspace]
    · intro c hc
      rcases mem_append.mp hc with hc | hc
      · exact .inl (mem_rtakeWhile_imp hc)
      · exact .inr (mem_rtakeWhile_imp hc)
  · rw [endsInSpace_iff, not_not]
    constructor
    · intro hsame
      have hfront := rdropWhile_prefix isWhitespace object.key
      have hshort := ( rdropWhile_prefix isSlash
        (object.key.rdropWhile isWhitespace)).length_le
      rw [← hkey, hsame] at hshort
      exact hfront.eq_of_length (le_antisymm hfront.length_le hshort)
    · intro hkept
      rw [hkey, hkept, last_key object.keyed]

theorem ShownAs.read {stem key : Text} (h : ShownAs stem blob key) :
    (∃ rest, blob.object.key = key ++ rest ∧ ∀ c ∈ rest, isSlash c = true ∨ isWhitespace c = true) ∧
    (key = blob.object.key ↔ ¬EndsInSpace blob.object.key) ∧ ValidKey key ∧ stem <+: key ∧
      ¬Staged key ∧ blob.size.isSome = true := by
  obtain ⟨object, hread, hsize, hunstaged, hprefix, rfl⟩ := h
  obtain ⟨hrest, hsame⟩ := read_key hread
  exact ⟨hrest, hsame, object.keyed, hprefix, hunstaged, hsize⟩

theorem shown_self {stem : Text} (hspace : ¬EndsInSpace blob.object.key)
    (hsize : blob.size.isSome = true) (hunstaged : ¬Staged blob.object.key)
    ( hprefix : stem <+: blob.object.key) : ShownAs stem blob blob.object.key := by
  have hread : fromStoragePath blob.name = .ok blob.object := by
    rw [Blob.name, fromStoragePath_eq]
    exact (new_trimmed blob.object).mpr hspace
  exact ⟨blob.object, hread, hsize, hunstaged, hprefix, rfl⟩

theorem staged_of_append {key rest : Text} (hspace : EndsInSpace key)
    (hrest : ∀ c ∈ rest, isSlash c = true ∨ isWhitespace c = true)
    (h : Staged (key ++ rest)) : Staged key := by
  obtain ⟨before, after, hmarked⟩ := h
  have hmarker : uploadPartMarker = ".__stado_uploa".toList ++ ['d'] ++ ['/'] := by decide
  have hfront : ∃ front, before ++ uploadPartMarker ++ after = (front ++ ['d']) ++ '/' :: after ∧
      front ++ ['d'] ++ ['/'] = before ++ uploadPartMarker :=
    ⟨before ++ ".__stado_uploa".toList, by rw [hmarker]; simp, by rw [hmarker]; simp⟩
  obtain ⟨front, hsplit, hwhole⟩ := hfront
  -- the marker's last letter does not end the key, and is not in what follows it
  have hends : ¬EndsInSpace (front ++ ['d']) := by
    rintro ⟨c, hlast, hc⟩
    rw [List.getLast?_concat] at hlast
    rw [← Option.some.inj hlast] at hc
    revert hc
    decide
  rw [hsplit] at hmarked
  rcases append_eq_append_iff.mp hmarked with ⟨inside, hkey, htail⟩ | ⟨inside, hbefore, htail⟩
  · cases inside with
    | nil =>
      rw [append_nil] at hkey
      exact absurd (hkey ▸ hspace) hends
    | cons c later =>
      obtain ⟨rfl, -⟩ := List.cons.inj htail
      refine ⟨before, later, ?_⟩
      rw [← hwhole, hkey, append_assoc (front ++ ['d'])]
      rfl
  · rcases eq_nil_or_concat inside with rfl | ⟨later, c, rfl⟩
    · rw [append_nil] at hbefore
      exact absurd (hbefore ▸ hspace) hends
    · rw [concat_eq_append, ← append_assoc] at hbefore
      obtain ⟨-, hletter⟩ := append_inj' hbefore rfl
      obtain rfl : 'd' = c := (List.cons.inj hletter).1
      have hmem : 'd' ∈ rest := by
        rw [htail, concat_eq_append]
        exact mem_append_left _ (mem_append_right _ mem_cons_self)
      exact absurd (hrest 'd' hmem) (by decide)

/-! ## Listings -/

section

variable {store : List Blob} {signer : Signer} {stem : Text}

theorem sorted_keys (found : Collected stem) :
    key ∈ found.sorted.entries.map Entry.key ↔ key ∈ found.entries.map Entry.key :=
  ((perm_insertionSort _ _).map _).mem_iff

theorem Lists.clean (h : Lists store signer stem key) : Clean stem := by
  obtain ⟨listing, hlisting, hkey⟩ := h
  unfold s3Listable at hlisting
  cases hscans : grantedScans signer stem with
  | error error =>
    rw [hscans] at hlisting
    cases hlisting
  | ok paths =>
    rw [hscans] at hlisting
    dsimp only [bind, Except.bind] at hlisting
    rcases collectAll_spec (paths.flatMap (listBlobsSized store)) (Collected.empty stem) with
      ⟨-, error, hcollect⟩ | ⟨found, hcollect, -, hfound⟩
    · rw [hcollect] at hlisting
      cases hlisting
    · rw [hcollect] at hlisting
      obtain rfl := Except.ok.inj hlisting
      rw [sorted_keys, hfound] at hkey
      obtain ⟨blob, -, hshows⟩ := hkey.resolve_left nofun
      obtain ⟨-, -, hkeyed, hprefix, -⟩ := hshows.read
      exact ⟨key, hkeyed, hprefix⟩

theorem lists_iff (h : Clean stem) (hdeclared : Declared signer.nameSpace signer.policy) :
    Lists store signer stem key ↔ signer.policy.Meets stem ∧ ¬signer.policy.Refuses stem ∧
      (∀ blob, Holds store signer blob → signer.policy.Reaches stem blob.object.key →
        ¬Unreadable blob) ∧
      ∃ blob, Holds store signer blob ∧ signer.policy.Reaches stem blob.object.key ∧
        ShownAs stem blob key := by
  obtain ⟨hnamed, hbounded⟩ := hdeclared
  unfold Lists s3Listable
  by_cases hrefused : ¬signer.policy.Meets stem ∨ signer.policy.Refuses stem
  · obtain ⟨error, herror⟩ := grantedScans_refused h hnamed hbounded hrefused
    rw [herror]
    refine iff_of_false ?_ ?_
    · rintro ⟨_, hno, -⟩
      cases hno
    · rintro ⟨hmeets, hopen, -⟩
      rcases hrefused with hno | hno
      · exact hno hmeets
      · exact hopen hno
  · obtain ⟨hmeets, hopen⟩ := not_or.mp hrefused
    rw [not_not] at hmeets
    obtain ⟨paths, hpaths, hspec⟩ := grantedScans_ok h hnamed hbounded hmeets hopen
    rw [hpaths]
    have hmem : ∀ blob, blob ∈ paths.flatMap (listBlobsSized store) ↔
        Holds store signer blob ∧ signer.policy.Reaches stem blob.object.key := by
      intro blob
      rw [mem_flatMap]
      constructor
      · rintro ⟨path, hpath, hblob⟩
        obtain ⟨hstored, hprefix⟩ := mem_filter.mp hblob
        obtain ⟨hspace, hreached⟩ :=
          (hspec blob.object).mp ⟨path, hpath, isPrefixOf_iff_prefix.mp hprefix⟩
        exact ⟨⟨hstored, hspace⟩, hreached⟩
      · rintro ⟨⟨hstored, hspace⟩, hreached⟩
        obtain ⟨path, hpath, hprefix⟩ := (hspec blob.object).mpr ⟨hspace, hreached⟩
        exact ⟨path, hpath, mem_filter.mpr ⟨hstored, isPrefixOf_iff_prefix.mpr hprefix⟩⟩
    dsimp only [bind, Except.bind]
    rcases collectAll_spec (paths.flatMap (listBlobsSized store)) (Collected.empty stem) with
      ⟨⟨blob, hblob, hunread⟩, error, hcollect⟩ | ⟨found, hcollect, hreads, hfound⟩
    · rw [hcollect]
      refine iff_of_false ?_ ?_
      · rintro ⟨_, hno, -⟩
        cases hno
      · rintro ⟨-, -, hreadable, -⟩
        obtain ⟨hholds, hreached⟩ := (hmem blob).mp hblob
        exact hreadable blob hholds hreached hunread
    · rw [hcollect]
      constructor
      · rintro ⟨listing, hlisting, hkey⟩
        obtain rfl := Except.ok.inj hlisting
        rw [sorted_keys, hfound] at hkey
        obtain ⟨blob, hblob, hshows⟩ := hkey.resolve_left nofun
        obtain ⟨hholds, hreached⟩ := (hmem blob).mp hblob
        refine ⟨hmeets, hopen, ?_, blob, hholds, hreached, hshows⟩
        intro other hother hreached' hunread
        exact hreads ⟨other, (hmem other).mpr ⟨hother, hreached'⟩, hunread⟩
      · rintro ⟨-, -, -, blob, hholds, hreached, hshows⟩
        refine ⟨_, rfl, ?_⟩
        rw [sorted_keys, hfound]
        exact .inr ⟨blob, (hmem blob).mpr ⟨hholds, hreached⟩, hshows⟩

theorem Granted.clean (h : Granted store signer stem key) : Clean stem := by
  obtain ⟨⟨blob, -, -, rfl⟩, -, hprefix, -⟩ := h
  exact ⟨_, blob.object.keyed, hprefix⟩

theorem Granted.meets (h : Granted store signer stem key) : signer.policy.Meets stem := by
  obtain ⟨-, -, hprefix, directory, hdirectory, hinside⟩ := h
  exact ⟨directory, hdirectory, prefix_or_prefix_of_prefix hinside hprefix⟩

theorem boundary_of_prefix {directory key : Text} (hkey : ValidKey key)
    (h : directory <+: key) : boundary directory = directory :=
  Clean.boundary_eq ⟨key, hkey, h⟩

/-- A granted key is scanned, unless it is shadowed. -/
theorem Granted.reached (h : Granted store signer stem key)
    (hplain : signer.policy.Root stem → stem ++ ['/'] <+: key) :
    signer.policy.Reaches stem key := by
  obtain ⟨⟨blob, -, -, rfl⟩, -, hprefix, directory, hdirectory, hinside⟩ := h
  by_cases hcovers : ∃ directory, signer.policy.Directory directory ∧ directory <+: stem
  · exact .inl ⟨hcovers, hprefix⟩
  · by_cases hroot : signer.policy.Root stem
    · exact .inr (.inl ⟨hroot, hplain hroot⟩)
    · refine .inr (.inr ⟨hcovers, hroot, directory, hdirectory, ?_, ?_⟩)
      · rcases prefix_or_prefix_of_prefix hinside hprefix with hno | hunder
        · exact absurd ⟨directory, hdirectory, hno⟩ hcovers
        · exact hunder
      · rwa [ boundary_of_prefix blob.object.keyed hinside]

section

variable (hdeclared : Declared signer.nameSpace signer.policy)

include hdeclared

/-- Where every granted key is listed, none ends in white space: the longest one would be
shown of a longer one. -/
theorem not_spaced (hall : ∀ key, Granted store signer stem key → Lists store signer stem key) :
    ¬Spaced store signer stem := by
  have hlonger : ∀ key, Granted store signer stem key → EndsInSpace key →
      ∃ longer, Granted store signer stem longer ∧ EndsInSpace longer ∧
        key.length < longer.length := by
    intro key hgranted hspace
    obtain ⟨-, -, -, blob, hholds, -, hshows⟩ :=
      (lists_iff hgranted.clean hdeclared).mp (hall key hgranted)
    obtain ⟨⟨rest, hkey, hrest⟩, hsame, -, -, -, hsize⟩ := hshows.read
    have hblob : EndsInSpace blob.object.key := by
      by_contra hno
      exact hno (hsame.mpr hno ▸ hspace)
    have hne : rest ≠ [] := by
      rintro rfl
      rw [append_nil] at hkey
      exact hsame.mp hkey.symm hblob
    obtain ⟨-, hunstaged, hprefix, directory, hdirectory, hinside⟩ := hgranted
    refine ⟨blob.object.key, ⟨⟨blob, hholds, hsize, rfl⟩, ?_, ?_, directory, hdirectory, ?_⟩,
      hblob, ?_⟩
    · intro hstaged
      rw [hkey] at hstaged
      exact hunstaged (staged_of_append hspace hrest hstaged)
    · rw [hkey]
      exact hprefix.trans (prefix_append _ _)
    · rw [hkey]
      exact hinside.trans (prefix_append _ _)
    · rw [hkey, length_append]
      have hpos := length_pos_iff.mpr hne
      omega
  -- keys of the store are no longer than all of them together
  have hbound : ∀ key, Granted store signer stem key →
      key.length ≤ (store.map fun blob => blob.object.key.length).sum := by
    rintro key ⟨⟨blob, ⟨hstored, -⟩, -, rfl⟩, -⟩
    have hmem : blob.object.key.length ∈ store.map fun blob => blob.object.key.length :=
      List.mem_map_of_mem hstored
    exact single_le_sum (fun _ _ => Nat.zero_le _) _ hmem
  have hlong : ∀ n key, Granted store signer stem key → EndsInSpace key →
      ∃ longer, Granted store signer stem longer ∧ key.length + n ≤ longer.length := by
    intro n
    induction n with
    | zero => exact fun key hgranted _ => ⟨key, hgranted, le_rfl⟩
    | succ n ih =>
      intro key hgranted hspace
      obtain ⟨longer, hlonger, hspace', hlt⟩ := hlonger key hgranted hspace
      obtain ⟨longest, hlongest, hle⟩ := ih longer hlonger hspace'
      exact ⟨longest, hlongest, by omega⟩
  rintro ⟨key, hgranted, hspace⟩
  obtain ⟨longest, hlongest, hle⟩ :=
    hlong ((store.map fun blob => blob.object.key.length).sum + 1) key hgranted hspace
  have hshort := hbound longest hlongest
  omega

theorem strayed_of_listed (hspaced : ¬Spaced store signer stem)
    (hlists : Lists store signer stem key) (hclean : Clean stem)
    (hgranted : ¬Granted store signer stem key) : Strayed store signer stem := by
  obtain ⟨-, hopen, hreads, blob, hholds, hreached, hshows⟩ := (lists_iff hclean hdeclared).mp hlists
  refine ⟨hopen, hreads, blob, key, hholds, hreached, ?_, hshows, hgranted⟩
  by_contra hno
  obtain ⟨hunstaged, hinside⟩ := not_or.mp hno
  obtain ⟨⟨rest, hkey, -⟩, hsame, -, hprefix, -, hsize⟩ := hshows.read
  have hblob : Granted store signer stem blob.object.key := by
    refine ⟨⟨blob, hholds, hsize, rfl⟩, hunstaged, ?_, not_not.mp hinside⟩
    rw [hkey]
    exact hprefix.trans (prefix_append _ _)
  by_cases hspace : EndsInSpace blob.object.key
  · exact hspaced ⟨_, hblob, hspace⟩
  · rw [hsame.mpr hspace] at hgranted
    exact hgranted hblob

theorem not_shadowed (hall : ∀ key, Granted store signer stem key → Lists store signer stem key) :
    ¬Shadowed store signer stem := by
  rintro ⟨hroot, key, hgranted, houtside⟩
  obtain ⟨-, -, -, blob, hholds, hreached, hshows⟩ :=
    (lists_iff hgranted.clean hdeclared).mp (hall key hgranted)
  obtain ⟨-, -, hprefix, directory, hdirectory, hinside⟩ := hgranted
  -- the root's own directory is the only one that meets it from inside
  have hcovers : ¬directory <+: stem := by
    intro hcovers
    have hsame := hdeclared.2.eq_of_nested hdirectory hroot.2
      (hcovers.trans (prefix_append _ _))
    rw [hsame] at hcovers
    have hle := hcovers.length_le
    rw [length_append, length_singleton] at hle
    omega
  have hscanned : stem ++ ['/'] <+: blob.object.key := by
    rcases hreached with ⟨⟨other, hother, hcovered⟩, -⟩ | ⟨-, hscanned⟩ | ⟨-, hno, -⟩
    · have hsame := hdeclared.2.eq_of_nested hother hroot.2
        (hcovered.trans (prefix_append _ _))
      rw [hsame] at hcovered
      have hle := hcovered.length_le
      rw [length_append, length_singleton] at hle
      omega
    · exact hscanned
    · exact absurd hroot hno
  obtain ⟨⟨rest, hkey, -⟩, -⟩ := hshows.read
  have hkeyed : key <+: blob.object.key := by
    rw [hkey]
    exact prefix_append _ _
  rcases prefix_or_prefix_of_prefix hscanned hkeyed with hno | hshort
  · exact houtside hno
  · rcases prefix_concat_iff.mp hshort with hno | hwithin
    · exact houtside (hno ▸ prefix_rfl)
    · exact hcovers (hinside.trans hwithin)

theorem lists_granted :
    (∀ key, Lists store signer stem key ↔ Granted store signer stem key) ↔
      ¬Shadowed store signer stem ∧ ¬Dotted store signer stem ∧ ¬Spaced store signer stem ∧
        ¬Blocked store signer stem ∧ ¬Strayed store signer stem := by
  constructor
  · intro hall
    refine ⟨?_, ?_, ?_, ?_, ?_⟩
    · exact not_shadowed hdeclared fun key hgranted => (hall key).mpr hgranted
    · rintro ⟨hrefuses, key, hgranted⟩
      have hlists := (lists_iff hgranted.clean hdeclared).mp ((hall key).mpr hgranted)
      exact hlists.2.1 hrefuses
    · exact not_spaced hdeclared fun key hgranted => (hall key).mpr hgranted
    · rintro ⟨⟨key, hgranted⟩, blob, hholds, hreached, hunread⟩
      have hlists := (lists_iff hgranted.clean hdeclared).mp ((hall key).mpr hgranted)
      exact hlists.2.2.1 blob hholds hreached hunread
    · rintro ⟨hopen, hreads, blob, key, hholds, hreached, -, hshows, hungranted⟩
      obtain ⟨-, -, hkeyed, hprefix, -⟩ := hshows.read
      have hclean : Clean stem := ⟨key, hkeyed, hprefix⟩
      have hmeets : signer.policy.Meets stem := by
        rcases hreached with ⟨⟨directory, hdirectory, hcovers⟩, -⟩ | ⟨⟨-, hroot⟩, -⟩ |
          ⟨-, -, directory, hdirectory, hunder, -⟩
        · exact ⟨directory, hdirectory, .inl hcovers⟩
        · exact ⟨_, hroot, .inr (prefix_append _ _)⟩
        · exact ⟨directory, hdirectory, .inr hunder⟩
      refine hungranted ((hall key).mp ((lists_iff hclean hdeclared).mpr ?_))
      exact ⟨hmeets, hopen, hreads, blob, hholds, hreached, hshows⟩
  · rintro ⟨hshadowed, hdotted, hspaced, hblocked, hstrayed⟩ key
    constructor
    · intro hlists
      by_contra hungranted
      exact hstrayed (strayed_of_listed hdeclared hspaced hlists hlists.clean hungranted)
    · intro hgranted
      rw [lists_iff hgranted.clean hdeclared]
      have hreached := hgranted.reached fun hroot => by
        by_contra houtside
        exact hshadowed ⟨hroot, key, hgranted, houtside⟩
      refine ⟨hgranted.meets, ?_, ?_, ?_⟩
      · exact fun hrefuses => hdotted ⟨hrefuses, key, hgranted⟩
      · exact fun blob hholds hscanned hunread =>
          hblocked ⟨⟨key, hgranted⟩, blob, hholds, hscanned, hunread⟩
      · have hspace : ¬EndsInSpace key := fun hspace => hspaced ⟨key, hgranted, hspace⟩
        obtain ⟨⟨blob, hholds, hsize, rfl⟩, hunstaged, hprefix, -⟩ := hgranted
        exact ⟨blob, hholds, hreached, shown_self hspace hsize hunstaged hprefix⟩

end

end

/-- For every namespace of a map the parser accepts, every store and every prefix. -/
theorem grants_listed {render : Json → String} {value : Option Json}
    {table : List (Text × ObjectApiNamespace)}
    (haccepted : parseObjectApiNamespaces render value = .ok table) {signer : Signer}
    (hsigner : (signer.nameSpace, signer.policy) ∈ table) (store : List Blob) (stem : Text) :
    (∀ key, Lists store signer stem key ↔ Granted store signer stem key) ↔
      ¬Shadowed store signer stem ∧ ¬Dotted store signer stem ∧ ¬Spaced store signer stem ∧
        ¬Blocked store signer stem ∧ ¬Strayed store signer stem :=
  lists_granted (parseObjectApiNamespaces_declared haccepted hsigner)

/-! ## A queue and its sibling -/

/-- Two directories with one stem, and a listing grant for each. -/
def queueMap : Json :=
  let policy (directory : String) : Json := .object
    [("prefix".toList, .string directory.toList),
      ("actions".toList, .array [.string "get".toList, .string "list".toList])]
  .object [("probierz".toList, .object
    [("item".toList, .string "probierz-object-api".toList),
      ("prefix_policies".toList, .array [policy "queue/", policy "queue_priority/"])])]

def queueNamespace : ObjectApiNamespace where
  item := "probierz-object-api".toList
  prefixPolicies := [⟨"queue/".toList, [.get, .list]⟩, ⟨"queue_priority/".toList, [.get, .list]⟩]

def queueSigner : Signer where
  nameSpace := "probierz".toList
  policy := queueNamespace
  key := []
  scope := ⟨"20200101".toList, "us-east-1".toList, service⟩
  amzDate := "20200101T000000Z".toList
  seed := []
  payload := .unsigned

theorem probierz_valid : ValidNamespace "probierz".toList := by decide

theorem queue_a_valid : ValidKey "queue/a".toList := by decide

theorem queue_b_valid : ValidKey "queue_priority/b".toList := by decide

def queueStore : List Blob :=
  [⟨⟨"probierz".toList, "queue/a".toList, probierz_valid, queue_a_valid⟩, some 1, none⟩,
    ⟨⟨"probierz".toList, "queue_priority/b".toList, probierz_valid, queue_b_valid⟩, some 1, none⟩]

theorem queueMap_accepted : parseObjectApiNamespaces (fun _ => "") (some queueMap) =
    .ok [("probierz".toList, queueNamespace)] := by
  rfl

theorem queue_directory {directory : Text} (h : queueNamespace.Directory directory) :
    directory = "queue/".toList ∨ directory = "queue_priority/".toList := by
  obtain ⟨policy, hpolicy, -, rfl, -⟩ := h
  rcases mem_cons.mp hpolicy with rfl | hpolicy
  · exact .inl rfl
  · rw [mem_singleton.mp hpolicy]
    exact .inr rfl

theorem queue_blob (h : Holds queueStore queueSigner blob) :
    blob.object.key = "queue/a".toList ∨ blob.object.key = "queue_priority/b".toList := by
  rcases mem_cons.mp h.1 with rfl | hblob
  · exact .inl rfl
  · rw [mem_singleton.mp hblob]
    exact .inr rfl

/-- A stem of both directories lists what is granted. -/
theorem queue_listed : Lists queueStore queueSigner "que".toList =
    Granted queueStore queueSigner "que".toList := by
  have hplain : ∀ blob, Holds queueStore queueSigner blob → ¬EndsInSpace blob.object.key := by
    intro blob hblob
    rw [endsInSpace_iff, not_not]
    rcases queue_blob hblob with hkey | hkey <;> rw [hkey] <;> decide
  suffices hlisted : ∀ key, Lists queueStore queueSigner "que".toList key ↔
      Granted queueStore queueSigner "que".toList key from
    funext fun key => propext (hlisted key)
  refine (grants_listed queueMap_accepted (mem_singleton_self _) queueStore
    "que".toList).mpr ⟨?_, ?_, ?_, ?_, ?_⟩
  · rintro ⟨⟨-, hroot⟩, -⟩
    rcases queue_directory hroot with hno | hno
    · revert hno
      decide
    · revert hno
      decide
  · rintro ⟨⟨hdots, -⟩, -⟩
    rcases hdots with hno | hno
    · revert hno
      decide
    · revert hno
      decide
  · rintro ⟨key, ⟨⟨blob, hblob, -, rfl⟩, -⟩, hspace⟩
    exact hplain blob hblob hspace
  · rintro ⟨-, blob, hblob, -, error, hunread⟩
    rw [Blob.name, fromStoragePath_eq, (new_trimmed blob.object).mpr (hplain blob hblob)] at hunread
    cases hunread
  · rintro ⟨-, -, blob, key, hblob, -, hstray, -⟩
    rcases hstray with hstaged | houtside
    · revert hstaged
      rcases queue_blob hblob with hkey | hkey <;> rw [hkey] <;> decide
    · refine houtside ?_
      rcases queue_blob hblob with hkey | hkey
      · refine ⟨"queue/".toList, ⟨_, mem_cons_self, rfl, rfl, .inr rfl⟩, ?_⟩
        rw [hkey]
        decide
      · refine ⟨"queue_priority/".toList,
          ⟨_, mem_cons_of_mem _ mem_cons_self, rfl, rfl, .inr rfl⟩, ?_⟩
        rw [hkey]
        decide

/-- A directory's name without its slash hides its sibling's keys. -/
theorem sibling_hidden :
    parseObjectApiNamespaces (fun _ => "") (some queueMap) =
        .ok [(queueSigner.nameSpace, queueSigner.policy)] ∧
      Granted queueStore queueSigner "queue".toList "queue_priority/b".toList ∧
      ¬Lists queueStore queueSigner "queue".toList "queue_priority/b".toList := by
  refine ⟨rfl, ?_, ?_⟩
  · refine ⟨⟨_, ⟨mem_cons_of_mem _ mem_cons_self, rfl⟩, rfl, rfl⟩, by decide, by decide,
      "queue_priority/".toList, ⟨_, mem_cons_of_mem _ mem_cons_self, rfl, rfl, .inr rfl⟩,
      by decide⟩
  · rintro ⟨listing, hlisting, hkey⟩
    have hkeys : (s3Listable queueStore queueSigner "queue".toList).toOption.map
        (fun listing => listing.entries.map Entry.key) = some ["queue/a".toList] := by
      decide +kernel
    rw [hlisting] at hkeys
    have hsame : listing.entries.map Entry.key = ["queue/a".toList] := Option.some.inj hkeys
    rw [hsame] at hkey
    revert hkey
    decide
end Stado.S3.Listener
