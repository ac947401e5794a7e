import Mathlib.Data.List.DropRight
import Stado.S3.Sigv4

/-!
# Provider-neutral object names

`stado://<namespace>/<key>`, the storage path one object has below `ecosystem/`,
and the storage prefix one namespace listing walks.
-/

namespace Stado.S3

open List

open Sigv4 (Text splitOnce splitOnce_append stripPrefix stripPrefix_append trimMatches trim)
open Directory (isWhitespace isLower isDigit)

/-! ## Namespaces and keys -/

inductive NameError where
  | other (reason : String)
  | pathEscape (path : String)
deriving DecidableEq

def isSlash (c : Char) : Bool := c == '/'

def nameChar (c : Char) : Bool := isLower c || isDigit c || c == '-'

def properPart (part : Text) : Bool := part ≠ [] && part ≠ ['.'] && part ≠ ['.', '.']

/-- No character of a text is a NUL or a backslash. -/
def plainPath (text : Text) : Bool := text.all fun c => c ≠ '\x00' && c ≠ '\\'

def ValidNamespace (nameSpace : Text) : Prop :=
  nameSpace ≠ "public".toList ∧ nameSpace ≠ [] ∧ nameSpace.all nameChar = true

def ValidKey (key : Text) : Prop :=
  key ≠ [] ∧ (key.splitOn '/').all properPart = true ∧ plainPath key = true

instance instDecidableValidNamespace (nameSpace : Text) : Decidable (ValidNamespace nameSpace) :=
  inferInstanceAs (Decidable (_ ∧ _ ∧ _))

instance instDecidableValidKey (key : Text) : Decidable (ValidKey key) :=
  inferInstanceAs (Decidable (_ ∧ _ ∧ _))

structure ObjectRef where
  nameSpace : Text
  key : Text
  named : ValidNamespace nameSpace
  keyed : ValidKey key
deriving DecidableEq

def rootPrefix : Text := "ecosystem/".toList
def scheme : Text := "stado://".toList

namespace ObjectRef

def new (nameSpace key : Text) : Except NameError ObjectRef :=
  let nameSpace := trim nameSpace
  let key := trimMatches isSlash key
  if nameSpace = "public".toList then
    .error (.other ("the stado://public namespace is retired; use authenticated product " ++
      "namespaces or the dedicated stado://releases software channel"))
  else if named : ValidNamespace nameSpace then
    if keyed : ValidKey key then .ok ⟨nameSpace, key, named, keyed⟩
    else .error (.pathEscape (String.ofList (nameSpace ++ '/' :: key)))
  else .error (.other
    "Stado object namespace must contain only lowercase letters, digits, and '-'")

def parse (value : Text) : Except NameError ObjectRef :=
  let value := trim value
  let value := (stripPrefix scheme value).getD value
  match splitOnce '/' value with
  | some (nameSpace, key) => new nameSpace key
  | none => .error (.other
      "Stado object must be stado://<namespace>/<key> or <namespace>/<key>")

def storagePath (object : ObjectRef) : Text := rootPrefix ++ object.nameSpace ++ '/' :: object.key

def display (object : ObjectRef) : Text := scheme ++ object.nameSpace ++ '/' :: object.key

def namespacePrefix (nameSpace stem : Text) : Except NameError Text := do
  let sentinel ← new nameSpace "sentinel".toList
  let stem := stem.dropWhile isSlash
  let inner := stem.rdropWhile isSlash
  if (inner ≠ [] ∧ (inner.splitOn '/').all properPart = false) ∨ plainPath stem = false then
    .error (.pathEscape (String.ofList (nameSpace ++ '/' :: stem)))
  else if inner = [] then .ok (rootPrefix ++ sentinel.nameSpace ++ ['/'])
  else if stem.getLast? = some '/' then .ok (rootPrefix ++ sentinel.nameSpace ++ '/' :: inner ++ ['/'])
  else .ok (rootPrefix ++ sentinel.nameSpace ++ '/' :: inner)

def fromStoragePath (path : Text) : Except NameError ObjectRef :=
  match stripPrefix rootPrefix path with
  | some relative => parse relative
  | none =>
    let pathText := String.ofList path
    .error (.other s!"object is outside the Stado ecosystem namespace: {pathText}")

/-! ## What a valid name is made of -/

theorem eq_of_parts {object other : ObjectRef} (hspace : other.nameSpace = object.nameSpace)
    (hkey : other.key = object.key) : other = object := by
  cases object
  cases other
  dsimp only at hspace hkey
  subst hspace hkey
  rfl

theorem slash_notMem_nameSpace (object : ObjectRef) : '/' ∉ object.nameSpace := by
  intro hslash
  have hname := List.all_eq_true.mp object.named.2.2 '/' hslash
  revert hname
  decide

theorem isWhitespace_of_nameChar {c : Char} (h : nameChar c = true) : isWhitespace c = false := by
  simp only [nameChar, isLower, isDigit, Bool.or_eq_true, Bool.and_eq_true, decide_eq_true_eq,
    beq_iff_eq, Char.le_def, UInt32.le_iff_toNat_le] at h
  have hrange : c.toNat = 0x2d ∨ (0x30 ≤ c.toNat ∧ c.toNat ≤ 0x39) ∨
      (0x61 ≤ c.toNat ∧ c.toNat ≤ 0x7a) := by
    rcases h with (h | h) | h
    · exact .inr (.inr h)
    · exact .inr (.inl h)
    · exact .inl (congrArg Char.toNat h)
  simp only [isWhitespace, Bool.or_eq_false_iff, Bool.and_eq_false_iff, decide_eq_false_iff_not,
    beq_eq_false_iff_ne]
  omega

variable {before after : Text} {stem path : Text} {key : Text} {object : ObjectRef}

/-- Both sides of a slash are proper parts. -/
theorem proper_around (h : ValidKey (before ++ '/' :: after)) :
    (before.splitOn '/').all properPart = true ∧ (after.splitOn '/').all properPart = true := by
  have hparts := h.2.1
  rw [splitOn_append_cons_self, all_append, Bool.and_eq_true] at hparts
  exact hparts

/-- A key neither starts nor ends with a slash, and has no two in a row. -/
theorem key_slash (h : ValidKey (before ++ '/' :: after)) :
    before ≠ [] ∧ after ≠ [] ∧ after.head? ≠ some '/' := by
  obtain ⟨hbefore, hafter⟩ := proper_around h
  refine ⟨?_, ?_, ?_⟩
  · rintro rfl
    revert hbefore
    decide
  · rintro rfl
    revert hafter
    decide
  · intro hhead
    obtain ⟨later, rfl⟩ : ∃ later, after = '/' :: later := by
      cases after with
      | nil => cases hhead
      | cons c later => exact ⟨later, by rw [Option.some.inj hhead]⟩
    rw [← nil_append ('/' :: later), splitOn_append_cons_self, all_append,
      Bool.and_eq_true] at hafter
    have hempty := hafter.1
    revert hempty
    decide

theorem head_key (h : ValidKey key) : key.dropWhile isSlash = key := by
  cases key with
  | nil => rfl
  | cons c later =>
    have hc : c ≠ '/' := by
      rintro rfl
      exact (@key_slash [] later h).1 rfl
    exact dropWhile_cons_of_neg (by simpa [isSlash] using hc)

theorem last_key (h : ValidKey key) : key.rdropWhile isSlash = key := by
  rw [rdropWhile_eq_self_iff]
  intro hne hlast
  have hslash : key.getLast hne = '/' := by simpa [isSlash] using hlast
  have hkey := dropLast_append_getLast hne
  rw [hslash] at hkey
  rw [← hkey] at h
  exact (key_slash h).2.1 rfl

theorem trimMatches_key (h : ValidKey key) : trimMatches isSlash key = key := by
  show (key.dropWhile isSlash).rdropWhile isSlash = key
  rw [head_key h, last_key h]

theorem head_nameSpace (object : ObjectRef) :
    ∃ c later, object.nameSpace = c :: later ∧ isWhitespace c = false := by
  obtain ⟨-, hne, hall⟩ := object.named
  cases hspace : object.nameSpace with
  | nil => exact absurd hspace hne
  | cons c later =>
    have hc : nameChar c = true := List.all_eq_true.mp hall c (by rw [hspace]; simp)
    exact ⟨c, later, rfl, isWhitespace_of_nameChar hc⟩

theorem trim_nameSpace (object : ObjectRef) : trim object.nameSpace = object.nameSpace := by
  have hplain : ∀ c ∈ object.nameSpace, isWhitespace c = false := fun c hc =>
    isWhitespace_of_nameChar (List.all_eq_true.mp object.named.2.2 c hc)
  have hhead : object.nameSpace.dropWhile isWhitespace = object.nameSpace := by
    obtain ⟨c, later, hspace, hc⟩ := head_nameSpace object
    rw [hspace]
    exact dropWhile_cons_of_neg (by rw [hc]; decide)
  show (object.nameSpace.dropWhile isWhitespace).rdropWhile isWhitespace = object.nameSpace
  rw [hhead, rdropWhile_eq_self_iff]
  intro hne
  rw [hplain _ (getLast_mem hne)]
  decide

/-- Names are read back from their own two parts. -/
theorem new_self (object : ObjectRef) : new object.nameSpace object.key = .ok object := by
  unfold new
  rw [trim_nameSpace, trimMatches_key object.keyed]
  simp only [if_neg object.named.1, dif_pos object.named, dif_pos object.keyed]

/-! ## Storage paths -/

theorem rdropWhile_append_cons {test : Char → Bool} {c : Char} (h : test c = false)
    (front back : Text) :
    (front ++ c :: back).rdropWhile test = front ++ c :: back.rdropWhile test := by
  have hsplit : front ++ c :: back = front ++ [c] ++ back := by
    rw [append_assoc, singleton_append]
  rw [hsplit, List.rdropWhile, reverse_append, dropWhile_append]
  by_cases hback : (back.reverse.dropWhile test).isEmpty = true
  · have hnil : back.rdropWhile test = [] := by
      rw [List.rdropWhile, List.isEmpty_iff.mp hback, reverse_nil]
    have hkept : ([c].reverse ++ front.reverse).dropWhile test = [c].reverse ++ front.reverse :=
      dropWhile_cons_of_neg (by rw [h]; decide)
    rw [if_pos hback, hnil, reverse_append, hkept, ← reverse_append, reverse_reverse]
  · rw [if_neg hback, reverse_append, reverse_reverse, append_assoc]
    rfl

/-- What trimming leaves of a text whose last slash is followed by white space. -/
theorem trim_after_slash {front key : Text}
    (hfront : ∃ c later, front = c :: later ∧ isWhitespace c = false) :
    trim (front ++ '/' :: key) = front ++ '/' :: key.rdropWhile isWhitespace := by
  obtain ⟨c, later, rfl, hc⟩ := hfront
  have hhead : (c :: later ++ '/' :: key).dropWhile isWhitespace = c :: later ++ '/' :: key :=
    dropWhile_cons_of_neg (by rw [hc]; decide)
  show ((c :: later ++ '/' :: key).dropWhile isWhitespace).rdropWhile isWhitespace = _
  rw [hhead]
  exact rdropWhile_append_cons (by decide) (c :: later) key

theorem scheme_not_prefix (object : ObjectRef) (key : Text) :
    stripPrefix scheme (object.nameSpace ++ '/' :: key) = none := by
  refine if_neg ?_
  rintro ⟨rest, hrest⟩
  have hscheme : splitOnce '/' ("stado:".toList ++ '/' :: '/' :: rest) =
      splitOnce '/' (object.nameSpace ++ '/' :: key) := congrArg (splitOnce '/') hrest
  rw [splitOnce_append (by decide), splitOnce_append (slash_notMem_nameSpace object)] at hscheme
  have hspace : "stado:".toList = object.nameSpace := (Prod.mk.inj (Option.some.inj hscheme)).1
  have hcolon := List.all_eq_true.mp object.named.2.2 ':' (by rw [← hspace]; decide)
  revert hcolon
  decide

/-- Both spellings of an object are read as its key without what trails it. -/
theorem parse_relative (object : ObjectRef) :
    parse (object.nameSpace ++ '/' :: object.key) =
      new object.nameSpace (object.key.rdropWhile isWhitespace) := by
  unfold parse
  simp only [trim_after_slash (head_nameSpace object), scheme_not_prefix, Option.getD_none,
    splitOnce_append (slash_notMem_nameSpace object)]

theorem parse_display (object : ObjectRef) :
    parse object.display = new object.nameSpace (object.key.rdropWhile isWhitespace) := by
  have htrim := @trim_after_slash (scheme ++ object.nameSpace) object.key
    ⟨'s', _, rfl, by decide⟩
  unfold parse
  rw [display, htrim, append_assoc]
  simp only [stripPrefix_append, Option.getD_some, splitOnce_append (slash_notMem_nameSpace object)]

theorem fromStoragePath_eq (object : ObjectRef) :
    fromStoragePath object.storagePath =
      new object.nameSpace (object.key.rdropWhile isWhitespace) := by
  rw [fromStoragePath, storagePath, append_assoc, stripPrefix_append]
  exact parse_relative object

/-- What a listing's prefix asks of keys. -/
def boundary (stem : Text) : Text :=
  let stem := stem.dropWhile isSlash
  let inner := stem.rdropWhile isSlash
  if inner = [] then []
  else if stem.getLast? = some '/' then inner ++ ['/']
  else inner

theorem namespacePrefix_eq (h : namespacePrefix object.nameSpace stem = .ok path) :
    path = rootPrefix ++ object.nameSpace ++ '/' :: boundary stem := by
  have hsentinel := new_self ⟨object.nameSpace, "sentinel".toList, object.named, by decide⟩
  unfold namespacePrefix at h
  rw [hsentinel] at h
  simp only [bind, Except.bind] at h
  unfold boundary
  split_ifs at h with hrefused hinner hlast
  · rw [← Except.ok.inj h]
    simp only [if_pos hinner]
  · rw [← Except.ok.inj h]
    simp only [if_neg hinner, if_pos hlast, append_assoc, cons_append]
  · rw [← Except.ok.inj h]
    simp only [if_neg hinner, if_neg hlast]

theorem namespacePrefix_prefix (h : namespacePrefix object.nameSpace stem = .ok path) :
    path <+: object.storagePath ↔ boundary stem <+: object.key := by
  rw [namespacePrefix_eq h, storagePath, prefix_append_right_inj, cons_prefix_cons]
  exact and_iff_right rfl

end ObjectRef

end Stado.S3
