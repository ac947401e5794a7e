import Stado.S3.ObjectNames

/-!
# Object names through storage

An object is read back from its storage path, and from its `stado://` form, when
its key does not end in white space: both are trimmed as a whole before the key
is cut out of them. A listing's prefix finds the keys that start with it unless
it ends in two slashes, which no key can and which are asked for as one.
-/

namespace Stado.S3.ObjectRef

open List

open Sigv4 (Text trimMatches)
open Directory (isWhitespace)

def EndsInSpace (key : Text) : Prop := ∃ c, key.getLast? = some c ∧ isWhitespace c = true

/-- A prefix that ends in two slashes, of a directory the key is in. -/
def DoubledSlash (stem key : Text) : Prop :=
  ['/', '/'] <:+ stem.dropWhile isSlash ∧
    (stem.dropWhile isSlash).rdropWhile isSlash ++ ['/'] <+: key

theorem endsInSpace_iff (key : Text) : EndsInSpace key ↔ key.rdropWhile isWhitespace ≠ key := by
  rw [ne_eq, rdropWhile_eq_self_iff]
  constructor
  · rintro ⟨c, hlast, hc⟩ hnone
    obtain ⟨front, rfl⟩ := List.getLast?_eq_some_iff.mp hlast
    exact hnone (by simp) (by rw [getLast_append_singleton]; exact hc)
  · intro hsome
    rw [not_forall] at hsome
    obtain ⟨hne, hlast⟩ := hsome
    exact ⟨key.getLast hne, List.getLast?_eq_some_getLast hne, not_not.mp hlast⟩

theorem trimMatches_length (test : Char → Bool) (text : Text) :
    (trimMatches test text).length ≤ text.length := by
  have hleft : (text.dropWhile test).length ≤ text.length := (dropWhile_suffix test).length_le
  have hright : ((text.dropWhile test).rdropWhile test).length ≤ (text.dropWhile test).length :=
    ( rdropWhile_prefix test _).length_le
  exact hright.trans hleft

theorem new_key {nameSpace key : Text} {object : ObjectRef} (h : new nameSpace key = .ok object) :
    object.key = trimMatches isSlash key := by
  unfold new at h
  dsimp only at h
  split_ifs at h with hpublic hnamed hkeyed
  rw [← Except.ok.inj h]

/-- Reading a key without the white space after it gives the key back when there
is none: what is read is never longer. -/
theorem new_trimmed (object : ObjectRef) :
    new object.nameSpace (object.key.rdropWhile isWhitespace) = .ok object ↔
      ¬EndsInSpace object.key := by
  rw [endsInSpace_iff, not_not]
  constructor
  · intro hnew
    have hshort := trimMatches_length isSlash (object.key.rdropWhile isWhitespace)
    rw [← new_key hnew] at hshort
    have hfront := rdropWhile_prefix isWhitespace object.key
    exact hfront.eq_of_length (le_antisymm hfront.length_le hshort)
  · intro hkey
    rw [hkey, new_self]

theorem storagePath_injective {object other : ObjectRef}
    (h : other.storagePath = object.storagePath) : other = object := by
  rw [storagePath, storagePath, append_assoc, append_assoc] at h
  have hparts := congrArg (Sigv4.splitOnce '/') (append_cancel_left h)
  rw [Sigv4.splitOnce_append (slash_notMem_nameSpace other),
    Sigv4.splitOnce_append (slash_notMem_nameSpace object)] at hparts
  obtain ⟨hspace, hkey⟩ := Prod.mk.inj (Option.some.inj hparts)
  exact eq_of_parts hspace hkey

/-! ## Prefixes -/

/-- A prefix without its leading slashes: what is left of it and the slashes
that end it. -/
theorem stem_slashes (stem : Text) :
    ∃ n, stem.rdropWhile isSlash ++ List.replicate n '/' = stem := by
  refine ⟨(stem.rtakeWhile isSlash).length, ?_⟩
  have htail : stem.rtakeWhile isSlash = List.replicate (stem.rtakeWhile isSlash).length '/' := by
    refine eq_replicate_iff.mpr ⟨rfl, ?_⟩
    intro c hc
    have hslash : isSlash c = true := mem_rtakeWhile_imp hc
    exact beq_iff_eq.mp hslash
  rw [← htail, rdropWhile_append_rtakeWhile]

theorem inner_last {stem : Text} : (stem.rdropWhile isSlash).getLast? ≠ some '/' := by
  intro hlast
  obtain ⟨front, hfront⟩ := List.getLast?_eq_some_iff.mp hlast
  have hne : stem.rdropWhile isSlash ≠ [] := by simp [hfront]
  have hnot := rdropWhile_last_not isSlash stem hne
  simp only [hfront, getLast_append_singleton] at hnot
  exact hnot rfl

theorem doubled_notPrefix (object : ObjectRef) (before after : Text) :
    ¬before ++ '/' :: '/' :: after <+: object.key := by
  rintro ⟨later, hkey⟩
  rw [append_assoc] at hkey
  have hvalid := object.keyed
  rw [← hkey] at hvalid
  exact (key_slash hvalid).2.2 rfl

theorem boundary_prefix (stem : Text) (object : ObjectRef) :
    (boundary stem <+: object.key ↔ stem.dropWhile isSlash <+: object.key) ↔
      ¬DoubledSlash stem object.key := by
  have hhead : (stem.dropWhile isSlash).head? ≠ some '/' := by
    intro hhead
    have hnot := List.head?_dropWhile_not isSlash stem
    rw [hhead] at hnot
    exact absurd hnot (by decide)
  unfold boundary DoubledSlash
  dsimp only
  generalize stem.dropWhile isSlash = rest at hhead ⊢
  obtain ⟨n, hrest⟩ := stem_slashes rest
  have hinner := @inner_last rest
  generalize rest.rdropWhile isSlash = inner at hrest hinner ⊢
  subst hrest
  by_cases hempty : inner = []
  · subst hempty
    have hn : n = 0 := by
      cases n with
      | zero => rfl
      | succ n => exact absurd rfl hhead
    subst hn
    simp
  · rw [if_neg hempty]
    -- how many slashes end the prefix
    match n with
    | 0 =>
      have hsingle : ¬['/', '/'] <:+ inner := by
        rintro ⟨front, rfl⟩
        exact hinner (by simp)
      rw [replicate_zero, append_nil, if_neg hinner]
      simp [hsingle]
    | 1 =>
      have hsingle : ¬['/', '/'] <:+ inner ++ ['/'] := by
        rintro ⟨front, hfront⟩
        have hfront : front ++ ['/'] ++ ['/'] = inner ++ ['/'] := by simpa using hfront
        have hslash : front ++ ['/'] = inner := append_cancel_right hfront
        exact hinner (by rw [← hslash]; simp)
      rw [replicate_one, if_pos (by simp)]
      simp [hsingle]
    | n + 2 =>
      have hnot : ¬inner ++ List.replicate (n + 2) '/' <+: object.key :=
        doubled_notPrefix object inner (List.replicate n '/')
      have hdoubled : ['/', '/'] <:+ inner ++ List.replicate (n + 2) '/' := by
        refine ⟨inner ++ List.replicate n '/', ?_⟩
        rw [replicate_add, append_assoc]
        rfl
      have hlast : (inner ++ List.replicate (n + 2) '/').getLast? = some '/' := by
        rw [replicate_succ', ← append_assoc]
        simp
      rw [if_pos hlast]
      simp [hnot, hdoubled]

/-- An object survives its storage path and its `stado://` form exactly when its
key does not end in white space; storage paths are distinct; and a prefix finds
the object exactly when its key starts with it, but for a doubled slash. -/
theorem names_survive (object : ObjectRef) :
    (fromStoragePath object.storagePath = .ok object ↔ ¬EndsInSpace object.key) ∧
    (parse object.display = .ok object ↔ ¬EndsInSpace object.key) ∧
    (∀ other : ObjectRef, other.storagePath = object.storagePath → other = object) ∧
    ∀ stem path, namespacePrefix object.nameSpace stem = .ok path →
      ((path <+: object.storagePath ↔ stem.dropWhile isSlash <+: object.key) ↔
        ¬DoubledSlash stem object.key) := by
  refine ⟨?_, ?_, ?_, ?_⟩
  · rw [fromStoragePath_eq]
    exact new_trimmed object
  · rw [parse_display]
    exact new_trimmed object
  · intro other heq
    exact storagePath_injective heq
  · intro stem path hpath
    rw [ namespacePrefix_prefix hpath]
    exact boundary_prefix stem object

/-- A key with a directory and a space in it, and the two prefixes of its
directory. -/
def nightlyReport : ObjectRef :=
  ⟨"probierz".toList, "queue/nightly report".toList, by decide, by decide⟩

theorem nightly_survives :
    fromStoragePath nightlyReport.storagePath = .ok nightlyReport ∧
      ("ecosystem/probierz/queue/".toList <+: nightlyReport.storagePath ↔
        "queue/".toList <+: nightlyReport.key) := by
  obtain ⟨hstorage, -, -, hprefix⟩ := names_survive nightlyReport
  refine ⟨hstorage.mpr ?_, ?_⟩
  · rintro ⟨c, hlast, hspace⟩
    obtain rfl : 't' = c := Option.some.inj hlast
    revert hspace
    decide
  · have hlaw := ( hprefix "/queue/".toList "ecosystem/probierz/queue/".toList (by decide)).mpr
    refine hlaw ?_
    rintro ⟨hdoubled, -⟩
    revert hdoubled
    decide

/-- A key that ends in a space is read back without it, and a doubled slash
finds keys that do not start with it. -/
theorem spaced_key_lost :
    (∃ object, new "probierz".toList "report ".toList = .ok object ∧
      fromStoragePath object.storagePath ≠ .ok object ∧ parse object.display ≠ .ok object) ∧
    namespacePrefix nightlyReport.nameSpace "queue//".toList =
        .ok "ecosystem/probierz/queue/".toList ∧
      "ecosystem/probierz/queue/".toList <+: nightlyReport.storagePath ∧
      ¬"queue//".toList <+: nightlyReport.key := by
  refine ⟨⟨⟨"probierz".toList, "report ".toList, by decide, by decide⟩, ?_, ?_, ?_⟩, ?_, ?_, ?_⟩
  all_goals decide

end Stado.S3.ObjectRef
