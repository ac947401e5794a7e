import Stado.Library.Base64
import Stado.Library.Checks
import Stado.Library.Paging
import Stado.S3.Decoding

/-!
# ListObjects and ListObjectsV2

One page of a bucket: the objects the signer may list under a prefix, ascending
by key, past a cursor, grouped by a delimiter, at most `max-keys` of both kinds.
-/

namespace Stado.S3.Listener

open Sigv4 List Option

/-- One listed object. -/
structure Entry where
  key : Text
  size : ℕ
  updated : Option ℤ
deriving DecidableEq

/-- Every object the signer may list under a prefix, ascending by key. -/
structure Listable (stem : Text) where
  entries : List Entry
  ascending : entries.Pairwise (fun left right => left.key < right.key)
  under : ∀ entry ∈ entries, stem <+: entry.key

/-! ## Bounds and cursors -/

/-- How many entries one page answers when the request names no bound, and the
most it answers when it names more. -/
def maxKeys : ℕ := 1000

/-- The digits of a `usize` after the value of those before them. -/
def readUsize (value : ℕ) : Text → Except String ℕ
  | [] => .ok value
  | c :: later =>
    if Directory.isDigit c then
      if value * 10 + (c.toNat - '0'.toNat) < 18446744073709551616 then
        readUsize (value * 10 + (c.toNat - '0'.toNat)) later
      else .error "number too large to fit in target type"
    else .error "invalid digit found in string"

def parseUsize (text : Text) : Except String ℕ :=
  let digits := if text.head? = some '+' then text.drop 1 else text
  if text = [] then .error "cannot parse integer from empty string"
  else if digits = [] then .error "invalid digit found in string"
  else readUsize 0 digits

def pageBound (query : Query) (name : Text) : Except S3Error ℕ :=
  match query.value name with
  | none => .ok maxKeys
  | some raw =>
    match parseUsize raw with
    | .ok count => .ok (min count maxKeys)
    | .error error =>
      let nameText := String.ofList name
      let rawText := shown raw
      .error (.invalid s!"{nameText} {rawText} is not a count: {error}")

def token (text : Text) : Text := Base64.encode (utf8 text)

/-- Where a listing resumes: after the continuation token's key, after
`start-after` or `marker`, or, with none of them, at the first key. -/
def cursor (query : Query) (versionTwo : Bool) : Except S3Error Text :=
  let foreign : Except S3Error Text :=
    .error (.invalid "the continuation token is not one this endpoint issued")
  if versionTwo then
    match query.value "continuation-token".toList with
    | some token =>
      match Base64.decode token with
      | none => foreign
      | some bytes =>
        match fromUtf8 bytes with
        | none => foreign
        | some text => .ok text
    | none => .ok ((query.value "start-after".toList).getD [])
  else .ok ((query.value "marker".toList).getD [])

/-! ## Grouping -/

/-- `text.find(pattern)`, counted in characters. -/
def find (pattern : Text) : Text → Option ℕ
  | [] => if pattern <+: [] then some 0 else none
  | c :: later => if pattern <+: c :: later then some 0 else (find pattern later).map (· + 1)

/-- The common prefix a key is shown as, where the delimiter stands after the
listing's prefix. -/
def common (stem : Text) (delimiter : Option Text) (key : Text) : Option Text :=
  delimiter.bind fun delimiter =>
    (find delimiter (key.drop stem.length)).map fun index =>
      key.take (stem.length + index + delimiter.length)

/-- What a page has been filled with. -/
structure Filled where
  contents : List Entry
  prefixes : List Text
  last : Option Text
  truncated : Bool
deriving DecidableEq

namespace Filled

def count (filled : Filled) : ℕ := filled.contents.length + filled.prefixes.length

def cut (filled : Filled) : Filled := { filled with truncated := true }

def grouped (filled : Filled) (group : Text) : Filled :=
  { filled with prefixes := filled.prefixes ++ [group], last := some group }

def shownKey (filled : Filled) (entry : Entry) : Filled :=
  { filled with contents := filled.contents ++ [entry], last := some entry.key }

def fill (stem : Text) (delimiter : Option Text) (cursor : Text) (maxKeys : ℕ) :
    List Entry → Filled → Filled
  | [], filled => filled
  | entry :: later, filled =>
    match common stem delimiter entry.key with
    | some group =>
      if group <+: cursor ∨ group ∈ filled.prefixes then
        fill stem delimiter cursor maxKeys later filled
      else if filled.count = maxKeys then filled.cut
      else fill stem delimiter cursor maxKeys later (filled.grouped group)
    | none =>
      if filled.count = maxKeys then filled.cut
      else fill stem delimiter cursor maxKeys later (filled.shownKey entry)

def page (stem : Text) (delimiter : Option Text) (cursor : Text) (maxKeys : ℕ)
    (entries : List Entry) : Filled :=
  fill stem delimiter cursor maxKeys (entries.filter fun entry => cursor < entry.key)
    ⟨[], [], none, false⟩

end Filled

/-! ## The answer -/

/-- One answered page; `next` is its `NextContinuationToken` or `NextMarker`. -/
structure Listing where
  name : Text
  stem : Text
  delimiter : Option Text
  maxKeys : ℕ
  truncated : Bool
  urlEncoded : Bool
  keyCount : Option ℕ
  continuationToken : Option Text
  startAfter : Option Text
  marker : Option Text
  next : Option Text
  contents : List Entry
  commonPrefixes : List Text
deriving DecidableEq

def versionTwo (query : Query) : Except S3Error Bool :=
  match query.value "list-type".toList with
  | none => .ok false
  | some other =>
    let otherText := shown other
    if other = ['2'] then .ok true
    else .error (.invalid s!"list-type {otherText} is neither 1 nor 2")

def urlEncoded (query : Query) : Except S3Error Bool :=
  match query.value "encoding-type".toList with
  | none => .ok false
  | some other =>
    let otherText := shown other
    if other = "url".toList then .ok true
    else .error (.invalid s!"encoding-type {otherText} is not url")

def listingStem (query : Query) : Text := (query.value "prefix".toList).getD []

def listingDelimiter (query : Query) : Option Text :=
  (query.value "delimiter".toList).filter fun delimiter => delimiter ≠ []

/-- The page a request is answered with, once its parameters are read. -/
def listingPage (nameSpace : Text) (query : Query) (two url : Bool) (bound : ℕ) (cursor : Text)
    (entries : List Entry) : Listing :=
  let stem := listingStem query
  let delimiter := listingDelimiter query
  let filled := Filled.page stem delimiter cursor bound entries
  let next := filled.last.filter fun _ => filled.truncated
  { name := nameSpace
    stem := stem
    delimiter := delimiter
    maxKeys := bound
    truncated := filled.truncated
    urlEncoded := url
    keyCount := if two then some filled.count else none
    continuationToken := if two then query.value "continuation-token".toList else none
    startAfter := if two then query.value "start-after".toList else none
    marker := if two then none else some cursor
    next := if two then next.map token else next
    contents := filled.contents
    commonPrefixes := filled.prefixes.insertionSort (· ≤ ·) }

/-- ListObjects (v1) and ListObjectsV2 (`list-type=2`). -/
def s3ListObjects (nameSpace : Text) (listable : (stem : Text) → Except S3Error (Listable stem))
    (query : Query) : Except S3Error Listing := do
  let two ← versionTwo query
  let url ← urlEncoded query
  let bound ← pageBound query "max-keys".toList
  let cursor ← cursor query two
  let objects ← listable (listingStem query)
  return listingPage nameSpace query two url bound cursor objects.entries

def Query.set (query : Query) (name value : Text) : Query :=
  { query with pairs := (name, value) :: query.pairs.filter fun pair => pair.1 ≠ name }

/-- The request for the page after one. -/
def resume (query : Query) (next : Text) : Query :=
  if query.value "list-type".toList = some ['2'] then
    query.set "continuation-token".toList next
  else query.set "marker".toList next

/-- The pages a client reads, following each to the next until one is not
truncated. -/
inductive Followed (nameSpace : Text)
    (listable : (stem : Text) → Except S3Error (Listable stem)) : Query → List Listing → Prop where
  | last {query : Query} {listing : Listing}
      (answer : s3ListObjects nameSpace listable query = .ok listing)
      (whole : listing.truncated = false) : Followed nameSpace listable query [listing]
  | more {query : Query} {listing : Listing} {next : Text} {later : List Listing}
      (answer : s3ListObjects nameSpace listable query = .ok listing)
      (truncated : listing.truncated = true) (continued : listing.next = some next)
      (rest : Followed nameSpace listable (resume query next) later) :
      Followed nameSpace listable query (listing :: later)

variable {query : Query}

theorem s3ListObjects_eq_ok {nameSpace : Text}
    {listable : (stem : Text) → Except S3Error (Listable stem)} {listing : Listing} :
    s3ListObjects nameSpace listable query = .ok listing ↔ ∃ two url bound resumed objects,
      versionTwo query = .ok two ∧ urlEncoded query = .ok url ∧
        pageBound query "max-keys".toList = .ok bound ∧ cursor query two = .ok resumed ∧
        listable (listingStem query) = .ok objects ∧
        listing = listingPage nameSpace query two url bound resumed objects.entries := by
  constructor
  · intro h
    obtain ⟨two, htwo, h⟩ := Checks.bind_eq_ok.mp h
    obtain ⟨url, hurl, h⟩ := Checks.bind_eq_ok.mp h
    obtain ⟨bound, hbound, h⟩ := Checks.bind_eq_ok.mp h
    obtain ⟨resumed, hcursor, h⟩ := Checks.bind_eq_ok.mp h
    obtain ⟨objects, hobjects, h⟩ := Checks.bind_eq_ok.mp h
    exact ⟨two, url, bound, resumed, objects, htwo, hurl, hbound, hcursor, hobjects,
      (Except.ok.inj h).symm⟩
  · rintro ⟨two, url, bound, resumed, objects, htwo, hurl, hbound, hcursor, hobjects, rfl⟩
    rw [s3ListObjects, htwo, hurl, hbound]
    show (cursor query two).bind _ = _
    rw [hcursor]
    show (listable (listingStem query)).bind _ = _
    rw [hobjects]
    rfl

/-! ## Requests for the next page -/

theorem value_set (query : Query) (name value : Text) :
    (query.set name value).value name = some value := by
  simp [Query.set, Query.value]

theorem value_set_of_ne (query : Query) {name other : Text} (h : other ≠ name) (value : Text) :
    (query.set name value).value other = query.value other := by
  have hfilter : (query.pairs.filter fun pair => pair.1 ≠ name).find? (fun pair => pair.1 = other) =
      query.pairs.find? fun pair => pair.1 = other := by
    rw [List.find?_filter]
    congr 1
    funext pair
    by_cases hpair : pair.1 = other
    · simp [hpair, h]
    · simp [hpair]
  simp only [Query.set, Query.value, List.find?_cons]
  rw [hfilter]
  simp [Ne.symm h]

/-- What a request for the next page keeps of the one before. -/
theorem value_resume (query : Query) (next : Text) {name : Text}
    (htoken : name ≠ "continuation-token".toList) (hmarker : name ≠ "marker".toList) :
    (resume query next).value name = query.value name := by
  unfold resume
  split_ifs
  · exact value_set_of_ne query htoken next
  · exact value_set_of_ne query hmarker next

theorem listingStem_resume (query : Query) (next : Text) :
    listingStem (resume query next) = listingStem query := by
  rw [listingStem, value_resume query next (by decide) (by decide)]
  rfl

theorem listingDelimiter_resume (query : Query) (next : Text) :
    listingDelimiter (resume query next) = listingDelimiter query := by
  rw [listingDelimiter, value_resume query next (by decide) (by decide)]
  rfl

theorem versionTwo_resume (query : Query) (next : Text) :
    versionTwo (resume query next) = versionTwo query := by
  rw [versionTwo, value_resume query next (by decide) (by decide)]
  rfl

theorem urlEncoded_resume (query : Query) (next : Text) :
    urlEncoded (resume query next) = urlEncoded query := by
  rw [urlEncoded, value_resume query next (by decide) (by decide)]
  rfl

theorem pageBound_resume (query : Query) (next : Text) :
    pageBound (resume query next) "max-keys".toList = pageBound query "max-keys".toList := by
  rw [pageBound, value_resume query next (by decide) (by decide)]
  rfl

theorem versionTwo_eq_ok {two : Bool} (h : versionTwo query = .ok two) :
    two = true ↔ query.value "list-type".toList = some ['2'] := by
  unfold versionTwo at h
  cases hvalue : query.value "list-type".toList with
  | none =>
    rw [hvalue] at h
    obtain rfl := Except.ok.inj h
    simp
  | some other =>
    rw [hvalue] at h
    dsimp only at h
    split_ifs at h with htwo
    · obtain rfl := Except.ok.inj h
      simp [htwo]

/-- A request for the next page resumes after the name the page ends with. -/
theorem cursor_resume {two : Bool} (h : versionTwo query = .ok two) (last : Text) :
    cursor (resume query (if two then token last else last)) two = .ok last := by
  have htwo := versionTwo_eq_ok h
  cases two with
  | true =>
    rw [if_pos rfl, resume, if_pos (htwo.mp rfl), cursor, if_pos rfl, value_set]
    simp only [token, Base64.decode_encode, fromUtf8_utf8]
  | false =>
    have hone : query.value "list-type".toList ≠ some ['2'] := fun heq => by cases htwo.mpr heq
    rw [if_neg (by decide), resume, if_neg hone, cursor, if_neg (by decide), value_set]
    rfl

theorem find_length {pattern text : Text} {index : ℕ} (h : find pattern text = some index) :
    index + pattern.length ≤ text.length := by
  induction text generalizing index with
  | nil =>
    rw [find] at h
    split_ifs at h with hstart
    rw [← Option.some.inj h, Nat.zero_add]
    exact hstart.length_le
  | cons c later ih =>
    rw [find] at h
    split_ifs at h with hstart
    · rw [← Option.some.inj h, Nat.zero_add]
      exact hstart.length_le
    · obtain ⟨index, hindex, rfl⟩ := map_eq_some_iff.mp h
      have := ih hindex
      rw [length_cons]
      omega

variable {pattern text other : Text}

theorem prefix_of_take {n : ℕ} (hn : pattern.length ≤ n)
    (htake : text.take n = other.take n) (h : pattern <+: text) : pattern <+: other := by
  have hstart : pattern <+: text.take n := prefix_take_iff.mpr ⟨h, hn⟩
  rw [htake] at hstart
  exact hstart.trans ( take_prefix n other)

/-- A delimiter is found where it is found in a text that starts alike. -/
theorem find_congr {index : ℕ} (h : find pattern text = some index)
    (htake : text.take (index + pattern.length) = other.take (index + pattern.length)) :
    find pattern other = some index := by
  induction text generalizing index other with
  | nil =>
    rw [find] at h
    split_ifs at h with hstart
    obtain rfl := Option.some.inj h
    have hother : pattern <+: other := prefix_of_take (by omega) htake hstart
    cases other with
    | _ => exact if_pos hother
  | cons c later ih =>
    rw [find] at h
    split_ifs at h with hstart
    · obtain rfl := Option.some.inj h
      have hother : pattern <+: other := prefix_of_take (by omega) htake hstart
      cases other with
      | _ => exact if_pos hother
    · obtain ⟨index, hindex, rfl⟩ := map_eq_some_iff.mp h
      have hlength : index + 1 + pattern.length = index + pattern.length + 1 := by omega
      cases other with
      | nil =>
        rw [hlength] at htake
        cases htake
      | cons d other =>
        have hnot : ¬pattern <+: d :: other :=
          fun hother => hstart (prefix_of_take (by omega) htake.symm hother)
        rw [hlength, take_succ_cons, take_succ_cons] at htake
        rw [find, if_neg hnot, ih hindex (List.cons.inj htake).2]
        rfl

variable {stem key other group : Text} {delimiter : Option Text}

theorem common_eq_some (h : common stem delimiter key = some group) : ∃ pattern index,
    delimiter = some pattern ∧ find pattern (key.drop stem.length) = some index ∧
      group = key.take (stem.length + index + pattern.length) := by
  obtain ⟨pattern, hdelimiter, hfind⟩ := bind_eq_some_iff.mp h
  obtain ⟨index, hindex, hgroup⟩ := map_eq_some_iff.mp hfind
  exact ⟨pattern, index, hdelimiter, hindex, hgroup.symm⟩

theorem common_prefix (h : common stem delimiter key = some group) : group <+: key := by
  obtain ⟨pattern, index, -, -, rfl⟩ := common_eq_some h
  exact take_prefix _ key

/-- What starts with a group is shown as it. -/
theorem common_extend (hkey : stem <+: key) (h : common stem delimiter key = some group)
    (hother : group <+: other) : common stem delimiter other = some group := by
  obtain ⟨pattern, index, rfl, hindex, hgroup⟩ := common_eq_some h
  have hbound := find_length hindex
  have hstem := hkey.length_le
  rw [length_drop] at hbound
  have hlength : group.length = stem.length + index + pattern.length := by
    rw [hgroup, length_take]
    omega
  have htake : other.take (stem.length + index + pattern.length) = group := by
    rw [← hlength]
    exact (prefix_iff_eq_take.mp hother).symm
  have halike : (key.drop stem.length).take (index + pattern.length) =
      (other.drop stem.length).take (index + pattern.length) := by
    rw [take_drop, take_drop, ← Nat.add_assoc, htake, hgroup]
  rw [common, bind_some, find_congr hindex halike, map_some, htake]

end Stado.S3.Listener
