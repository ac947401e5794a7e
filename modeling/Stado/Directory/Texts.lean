import Mathlib.Data.List.Infix
import Mathlib.Data.Vector.Defs

/-!
# The texts a registry document is made of

Names, paths and socket addresses are texts, and the validators read them with
the standard library: `SocketAddr` and `IpAddr` parse an address, `u16` a port,
`Path` a path, and `rsplit_once` cuts at the last separator. The parsers here
read what those read, leading zeros of a port and every spelling of an IPv6
address included.
-/

namespace Stado.Directory

open List Option

/-! ## Characters and words -/

/-- Unicode's `White_Space`. -/
def isWhitespace (c : Char) : Bool :=
  (0x9 ≤ c.toNat && c.toNat ≤ 0xd) || c.toNat == 0x20 || c.toNat == 0x85 || c.toNat == 0xa0 ||
    c.toNat == 0x1680 || (0x2000 ≤ c.toNat && c.toNat ≤ 0x200a) || c.toNat == 0x2028 ||
    c.toNat == 0x2029 || c.toNat == 0x202f || c.toNat == 0x205f || c.toNat == 0x3000

/-- Unicode's control characters. -/
def isControl (c : Char) : Bool :=
  c.toNat ≤ 0x1f || (0x7f ≤ c.toNat && c.toNat ≤ 0x9f)

def isLower (c : Char) : Bool := 'a' ≤ c && c ≤ 'z'

def isUpper (c : Char) : Bool := 'A' ≤ c && c ≤ 'Z'

def isDigit (c : Char) : Bool := '0' ≤ c && c ≤ '9'

def isAlphanumeric (c : Char) : Bool := isLower c || isUpper c || isDigit c

def isHexDigit (c : Char) : Bool :=
  isDigit c || ('a' ≤ c && c ≤ 'f') || ('A' ≤ c && c ≤ 'F')

def trim (text : String) : String :=
  String.ofList
    ((text.toList.dropWhile isWhitespace).reverse.dropWhile isWhitespace).reverse

def contains (part text : List Char) : Bool :=
  match text with
  | [] => part.isEmpty
  | _ :: later => part.isPrefixOf text || contains part later

/-- A text as `{:?}` writes it. -/
def debug (text : String) : String :=
  let escaped (c : Char) : List Char :=
    if c = '"' ∨ c = '\\' then ['\\', c]
    else if c = '\n' then ['\\', 'n']
    else if c = '\r' then ['\\', 'r']
    else if c = '\t' then ['\\', 't']
    else [c]
  String.ofList ('"' :: text.toList.flatMap escaped ++ ['"'])

def lowercaseIdentifier (value : String) : Bool :=
  let edge (c : Char) := isLower c || isDigit c
  match value.toList.head?, value.toList.getLast? with
  | some first, some last =>
    edge first && edge last &&
      value.toList.all fun c => edge c || c == '.' || c == '_' || c == '-'
  | _, _ => false

def canonicalCoordinate (value : String) : Bool :=
  !value.isEmpty && trim value == value &&
    value.toList.all fun c => isAlphanumeric c || c == '.' || c == '_' || c == '-'

def identifier (value : String) : Bool :=
  canonicalCoordinate value &&
    value.toList.all fun c => isAlphanumeric c || c == '.' || c == '_' || c == '-'

def envName (value : String) : Bool :=
  !value.isEmpty && value.toList.zipIdx.all fun (c, index) =>
    c == '_' || isUpper c || (index > 0 && isDigit c)

def sha256 (value : String) : Bool :=
  value.utf8ByteSize == 64 && value.toList.all isHexDigit

/-! ## Paths -/

inductive Component where
  | rootDir
  | curDir
  | parentDir
  | normal (part : String)
deriving DecidableEq

def isAbsolute (path : String) : Bool := "/".toList.isPrefixOf path.toList

/-- The components of a path: repeated slashes and inner dots are dropped. -/
def components (path : String) : List Component :=
  let part (index : ℕ) (text : List Char) : List Component :=
    if text = [] then []
    else if text = ['.'] then
      if index = 0 then [.curDir] else []
    else if text = ['.', '.'] then [.parentDir]
    else [.normal (String.ofList text)]
  let parts := (path.toList.splitOnP (· == '/')).zipIdx.flatMap fun (text, index) => part index text
  if isAbsolute path then .rootDir :: parts else parts

def safeRelative (value : String) : Bool :=
  !value.isEmpty && !isAbsolute value && (components value).all fun
    | .normal _ => true
    | _ => false

def safeAbsolute (value : String) : Bool :=
  isAbsolute value && !value.toList.any isControl && (components value).all (· != .parentDir)

def safeInstallRoot (value : String) : Bool :=
  let home := "\x7bhome\x7d".toList
  if value.toList = home then true
  else if (home ++ ['/']).isPrefixOf value.toList then
    safeRelative (String.ofList (value.toList.drop (home ++ ['/']).length))
  else !contains home value.toList && (safeAbsolute value || safeRelative value)

/-! ## Socket addresses -/

/-- An IP address: four octets or eight groups. -/
inductive IpAddr where
  | v4 (a b c d : ℕ)
  | v6 (groups : List ℕ)
deriving DecidableEq

def IpAddr.isLoopback : IpAddr → Bool
  | .v4 a _ _ _ => a == 127
  | .v6 groups => groups == [0, 0, 0, 0, 0, 0, 0, 1]

/-- A socket address; only one with an IPv6 address has a scope. -/
structure SocketAddr where
  ip : IpAddr
  port : ℕ
  scope : ℕ
deriving DecidableEq

def hexText (n : ℕ) : String := String.ofList (Nat.toDigits 16 n)

def longestZeros (index start run : ℕ) (best : ℕ × ℕ) : List ℕ → ℕ × ℕ
  | [] => best
  | group :: later =>
    if group = 0 then
      let start := if run = 0 then index else start
      let best := if best.2 < run + 1 then (start, run + 1) else best
      longestZeros (index + 1) start (run + 1) best later
    else longestZeros (index + 1) 0 0 best later

def IpAddr.display : IpAddr → String
  | .v4 a b c d => s!"{a}.{b}.{c}.{d}"
  | .v6 groups =>
    let colons (groups : List ℕ) := String.intercalate ":" (groups.map hexText)
    match groups with
    | [0, 0, 0, 0, 0, 65535, high, low] =>
      let octets := [high / 256, high % 256, low / 256, low % 256].map toString
      "::ffff:" ++ String.intercalate "." octets
    | _ =>
      let zeros := longestZeros 0 0 0 (0, 0) groups
      if zeros.2 > 1 then
        colons (groups.take zeros.1) ++ "::" ++ colons (groups.drop (zeros.1 + zeros.2))
      else colons groups

def SocketAddr.display (addr : SocketAddr) : String :=
  let ip := addr.ip.display
  let port := addr.port
  let scope := addr.scope
  match addr.ip with
  | .v4 .. => s!"{ip}:{port}"
  | .v6 _ => if scope = 0 then s!"[{ip}]:{port}" else s!"[{ip}%{scope}]:{port}"

namespace Parse

/-- What one read makes of a text: its value and the rest of the text. -/
abbrev Reader (α : Type) := List Char → Option (α × List Char)

def digitValue (c : Char) : Option ℕ :=
  if isDigit c then some (c.toNat - '0'.toNat)
  else if 'a' ≤ c ∧ c ≤ 'z' then some (c.toNat - 'a'.toNat + 10)
  else if 'A' ≤ c ∧ c ≤ 'Z' then some (c.toNat - 'A'.toNat + 10)
  else none

def toDigit (radix : ℕ) (c : Char) : Option ℕ :=
  (digitValue c).bind fun d => if d < radix then some d else none

def takeDigits (radix : ℕ) : List Char → List ℕ × List Char
  | [] => ([], [])
  | c :: text =>
    match toDigit radix c with
    | none => ([], c :: text)
    | some d => (d :: (takeDigits radix text).1, (takeDigits radix text).2)

def ofDigits (radix : ℕ) (digits : List ℕ) : ℕ := digits.foldl (fun n d => n * radix + d) 0

/-- `read_number`: a number below `bound`, of at most `maxDigits` digits. -/
def readNumber (radix : ℕ) (maxDigits : Option ℕ) (allowZeroPrefix : Bool) (bound : ℕ) :
    Reader ℕ := fun text =>
  let (digits, rest) := takeDigits radix text
  if digits = [] then none
  else if maxDigits.any (· < digits.length) then none
  else if !allowZeroPrefix && digits.head? == some 0 && digits.length > 1 then none
  else if ofDigits radix digits < bound then some (ofDigits radix digits, rest) else none

def readGivenChar (c : Char) : Reader Unit
  | [] => none
  | d :: text => if d = c then some ((), text) else none

/-- `read_separator`: the separator in front of every element but the first. -/
def readSeparator {α : Type} (separator : Char) (index : ℕ) (inner : Reader α) : Reader α :=
  fun text =>
    if index > 0 then (readGivenChar separator text).bind fun ((), rest) => inner rest
    else inner text

def readOctet (index : ℕ) : Reader ℕ :=
  readSeparator '.' index (readNumber 10 (some 3) false 256)

def readIpv4Addr : Reader (ℕ × ℕ × ℕ × ℕ) := fun text => do
  let (a, text) ← readOctet 0 text
  let (b, text) ← readOctet 1 text
  let (c, text) ← readOctet 2 text
  let (d, text) ← readOctet 3 text
  return ((a, b, c, d), text)

/-- `read_groups`: colon-separated groups, at most `left` more of them, the last
two of which may be written as an IPv4 address. -/
def readGroups (index left : ℕ) (text : List Char) : List ℕ × Bool × List Char :=
  match left with
  | 0 => ([], false, text)
  | left + 1 =>
    match (if left > 0 then readSeparator ':' index readIpv4Addr text else none) with
    | some ((a, b, c, d), rest) => ([a * 256 + b, c * 256 + d], true, rest)
    | none =>
      match readSeparator ':' index (readNumber 16 (some 4) true 65536) text with
      | none => ([], false, text)
      | some (group, rest) =>
        let (groups, embedded, rest) := readGroups (index + 1) left rest
        (group :: groups, embedded, rest)

def readIpv6Addr : Reader (List ℕ) := fun text =>
  let (head, embedded, rest) := readGroups 0 8 text
  if head.length = 8 then some (head, rest)
  else if embedded then none
  else do
    let ((), rest) ← readGivenChar ':' rest
    let ((), rest) ← readGivenChar ':' rest
    let (tail, _, rest) := readGroups 0 (8 - (head.length + 1)) rest
    return (head ++ List.replicate (8 - head.length - tail.length) 0 ++ tail, rest)

def readPort : Reader ℕ := fun text => do
  let ((), text) ← readGivenChar ':' text
  readNumber 10 none true 65536 text

def readScopeId : Reader ℕ := fun text => do
  let ((), text) ← readGivenChar '%' text
  readNumber 10 none true 4294967296 text

def readSocketAddrV4 : Reader SocketAddr := fun text => do
  let ((a, b, c, d), text) ← readIpv4Addr text
  let (port, text) ← readPort text
  return (⟨.v4 a b c d, port, 0⟩, text)

def readSocketAddrV6 : Reader SocketAddr := fun text => do
  let ((), text) ← readGivenChar '[' text
  let (groups, text) ← readIpv6Addr text
  let (scope, text) := (readScopeId text).getD (0, text)
  let ((), text) ← readGivenChar ']' text
  let (port, text) ← readPort text
  return (⟨.v6 groups, port, scope⟩, text)

def readSocketAddr : Reader SocketAddr := fun text =>
  (readSocketAddrV4 text).or (readSocketAddrV6 text)

def readIpAddr : Reader IpAddr := fun text =>
  ((readIpv4Addr text).map fun ((a, b, c, d), rest) => (.v4 a b c d, rest)).or
    ((readIpv6Addr text).map fun (groups, rest) => (.v6 groups, rest))

/-- `parse_with`: a read of the whole text. -/
def parseWith {α : Type} (inner : Reader α) (text : List Char) : Option α :=
  match inner text with
  | some (a, []) => some a
  | _ => none

end Parse

def parseSocketAddr (text : String) : Option SocketAddr :=
  Parse.parseWith Parse.readSocketAddr text.toList

def parseIpAddr (text : String) : Option IpAddr := Parse.parseWith Parse.readIpAddr text.toList

/-- `text.parse::<u16>()`: a sign, and digits of a number below 2¹⁶. -/
def parsePort (text : List Char) : Option ℕ :=
  let digits := if text.head? = some '+' then text.drop 1 else text
  match Parse.readNumber 10 none true 65536 digits with
  | some (port, []) => some port
  | _ => none

/-- `text.rsplit_once(separator)`: what stands before and after its last
occurrence. -/
def rsplitOnce (separator : Char) (text : List Char) : Option (List Char × List Char) :=
  match text.reverse.dropWhile (· != separator) with
  | [] => none
  | _ :: before => some (before.reverse, (text.reverse.takeWhile (· != separator)).reverse)

/-- The port of a `host:port` declaration, when it names one. -/
def socketPort (bind : String) : Option ℕ :=
  (rsplitOnce ':' bind.toList).bind fun (_, port) => parsePort port

/-- The socket a listener at `host:port` is: `localhost` is the loopback
address, and no other name is resolved. -/
def listenerAddress (host : String) (port : ℕ) : Option SocketAddr :=
  let host := ((host.toList.dropWhile (· == '[')).reverse.dropWhile (· == ']')).reverse
  let lower (c : Char) := if isUpper c then Char.ofNat (c.toNat + 32) else c
  if host.map lower = "localhost".toList then some ⟨.v4 127 0 0 1, port, 0⟩
  else (parseIpAddr (String.ofList host)).map fun ip => ⟨ip, port, 0⟩

/-! ## A bind and its port -/

namespace Parse

theorem takeDigits_append (radix : ℕ) (text : List Char) :
    ∃ digits, text = digits ++ (takeDigits radix text).2 ∧
      ∀ c ∈ digits, (toDigit radix c).isSome := by
  induction text with
  | nil => exact ⟨[], rfl, by simp⟩
  | cons c text ih =>
    cases hdigit : toDigit radix c with
    | none => exact ⟨[], by simp [takeDigits, hdigit], by simp⟩
    | some d =>
      obtain ⟨digits, htext, hall⟩ := ih
      refine ⟨c :: digits, ?_, ?_⟩
      · simp only [takeDigits, hdigit, cons_append, List.cons.injEq, true_and]
        exact htext
      · intro e he
        rcases mem_cons.mp he with rfl | he
        · simp [hdigit]
        · exact hall e he

variable {text rest : List Char} {addr : SocketAddr}

theorem readNumber_append {radix bound n : ℕ} {maxDigits : Option ℕ} {allow : Bool}
    (h : readNumber radix maxDigits allow bound text = some (n, rest)) :
    ∃ digits, text = digits ++ rest ∧ ∀ c ∈ digits, (toDigit radix c).isSome := by
  obtain ⟨digits, htext, hall⟩ := takeDigits_append radix text
  refine ⟨digits, ?_, hall⟩
  have hrest : (takeDigits radix text).2 = rest := by
    simp only [readNumber] at h
    split_ifs at h
    exact (Prod.mk.inj (Option.some.inj h)).2
  rw [← hrest]
  exact htext

def FromFront {α : Type} (read : Reader α) : Prop :=
  ∀ {text : List Char} {a : α} {rest : List Char}, read text = some (a, rest) → rest <:+ text

theorem fromFront_readNumber (radix : ℕ) (maxDigits : Option ℕ) (allow : Bool) (bound : ℕ) :
    FromFront (readNumber radix maxDigits allow bound) := by
  intro text n rest h
  obtain ⟨digits, htext, -⟩ := readNumber_append h
  exact ⟨digits, htext.symm⟩

theorem readGivenChar_eq_some {c : Char} {u : Unit} :
    readGivenChar c text = some (u, rest) ↔ text = c :: rest := by
  cases text with
  | nil => simp [readGivenChar]
  | cons d text =>
    by_cases hd : d = c
    · simp [readGivenChar, hd]
    · simp [readGivenChar, hd]

theorem fromFront_readSeparator {α : Type} (separator : Char) (index : ℕ) {inner : Reader α}
    (hinner : FromFront inner) : FromFront (readSeparator separator index inner) := by
  intro text a rest h
  unfold readSeparator at h
  split_ifs at h with hindex
  · obtain ⟨⟨u, later⟩, hseparator, hread⟩ := bind_eq_some_iff.mp h
    have htext := readGivenChar_eq_some.mp hseparator
    rw [htext]
    exact (hinner hread).trans (suffix_cons separator later)
  · exact hinner h

theorem fromFront_readIpv4Addr : FromFront readIpv4Addr := by
  have hoctet (index : ℕ) : FromFront (readOctet index) :=
    fromFront_readSeparator '.' index (fromFront_readNumber 10 (some 3) false 256)
  intro text ip rest h
  simp only [readIpv4Addr, bind_eq_bind, bind_eq_some_iff] at h
  obtain ⟨⟨a, ta⟩, ha, ⟨b, tb⟩, hb, ⟨c, tc⟩, hc, ⟨d, td⟩, hd, heq⟩ := h
  cases heq
  exact (((hoctet 3 hd).trans (hoctet 2 hc)).trans (hoctet 1 hb)).trans (hoctet 0 ha)

theorem readGroups_suffix (index left : ℕ) (text : List Char) :
    (readGroups index left text).2.2 <:+ text := by
  induction left generalizing index text with
  | zero => exact suffix_rfl
  | succ left ih =>
    have hgroup := @fromFront_readSeparator ℕ ':' index _
      (fromFront_readNumber 16 (some 4) true 65536)
    have hembedded := @fromFront_readSeparator _ ':' index _ fromFront_readIpv4Addr
    rw [readGroups]
    split
    · next a b c d rest hread =>
      split_ifs at hread
      exact hembedded hread
    · split
      · exact suffix_rfl
      · next group rest hread => exact (ih (index + 1) rest).trans (hgroup hread)

theorem fromFront_readIpv6Addr : FromFront readIpv6Addr := by
  intro text groups rest h
  have hhead := readGroups_suffix 0 8 text
  simp only [readIpv6Addr] at h
  split_ifs at h with hwhole hembedded
  · obtain ⟨-, rfl⟩ := Prod.mk.inj (Option.some.inj h)
    exact hhead
  · simp only [bind_eq_bind, bind_eq_some_iff] at h
    obtain ⟨⟨_, first⟩, hfirst, ⟨_, second⟩, hsecond, heq⟩ := h
    obtain ⟨-, rfl⟩ := Prod.mk.inj (Option.some.inj heq)
    have hsecond := readGivenChar_eq_some.mp hsecond
    rw [readGivenChar_eq_some.mp hfirst] at hhead
    dsimp only at hsecond
    rw [hsecond] at hhead
    have htail := readGroups_suffix 0 (8 - ((readGroups 0 8 text).1.length + 1)) second
    exact (htail.trans ((suffix_cons ':' second).trans (suffix_cons ':' _))).trans hhead

theorem readPort_whole {port : ℕ} (h : readPort text = some (port, [])) :
    ∃ digits, text = ':' :: digits ∧ readNumber 10 none true 65536 digits = some (port, []) := by
  simp only [readPort, bind_eq_bind, bind_eq_some_iff] at h
  obtain ⟨⟨_, digits⟩, hcolon, hport⟩ := h
  exact ⟨digits, readGivenChar_eq_some.mp hcolon, hport⟩

/-- A socket address ends with a colon and its port. -/
theorem readSocketAddr_port
    (h : readSocketAddr text = some (addr, [])) : ∃ before digits, text = before ++ ':' :: digits ∧
      readNumber 10 none true 65536 digits = some (addr.port, []) := by
  have hport {rest : List Char} {port : ℕ} (hsuffix : rest <:+ text)
      (hread : readPort rest = some (port, [])) : ∃ before digits,
        text = before ++ ':' :: digits ∧ readNumber 10 none true 65536 digits = some (port, []) := by
    obtain ⟨before, htext⟩ := hsuffix
    obtain ⟨digits, hrest, hnumber⟩ := readPort_whole hread
    exact ⟨before, digits, by rw [← htext, hrest], hnumber⟩
  rcases or_eq_some_iff.mp h with hv4 | ⟨-, hv6⟩
  · simp only [readSocketAddrV4, bind_eq_bind, bind_eq_some_iff] at hv4
    obtain ⟨⟨ip, later⟩, hip, ⟨port, rest⟩, hread, heq⟩ := hv4
    cases heq
    exact hport (fromFront_readIpv4Addr hip) hread
  · simp only [readSocketAddrV6, bind_eq_bind, bind_eq_some_iff] at hv6
    obtain ⟨⟨_, opened⟩, hopen, ⟨groups, grouped⟩, hip, ⟨_, closed⟩, hclose, ⟨port, rest⟩, hread,
      heq⟩ := hv6
    cases heq
    have hscope : ((readScopeId grouped).getD (0, grouped)).2 <:+ grouped := by
      cases hread : readScopeId grouped with
      | none => exact suffix_rfl
      | some read =>
        simp only [readScopeId, bind_eq_bind, bind_eq_some_iff] at hread
        obtain ⟨⟨_, later⟩, hpercent, hnumber⟩ := hread
        rw [readGivenChar_eq_some.mp hpercent]
        exact (fromFront_readNumber 10 none true 4294967296 hnumber).trans
          (suffix_cons '%' later)
    have htext := readGivenChar_eq_some.mp hopen
    have hclosed := readGivenChar_eq_some.mp hclose
    refine hport ?_ hread
    rw [hclosed] at hscope
    have hgrouped : closed <:+ grouped := (suffix_cons ']' closed).trans hscope
    rw [htext]
    exact (hgrouped.trans (fromFront_readIpv6Addr hip)).trans (suffix_cons '[' opened)

end Parse

theorem rsplitOnce_append {separator : Char} {before after : List Char} (h : separator ∉ after) :
    rsplitOnce separator (before ++ separator :: after) = some (before, after) := by
  have hall : ∀ c ∈ after.reverse, (c != separator) = true := by
    intro c hc
    rw [bne_iff_ne]
    rintro rfl
    exact h (mem_reverse.mp hc)
  simp [rsplitOnce, dropWhile_append_of_pos hall, takeWhile_append_of_pos hall]

theorem socketPort_of_parse {bind : String}
    (h : parseSocketAddr bind = some addr) : socketPort bind = some addr.port := by
  have hread : Parse.readSocketAddr bind.toList = some (addr, []) := by
    simp only [parseSocketAddr, Parse.parseWith] at h
    split at h
    · next a hread =>
      cases h
      exact hread
    · cases h
  obtain ⟨before, digits, htext, hnumber⟩ := Parse.readSocketAddr_port hread
  obtain ⟨number, hdigits, hall⟩ := Parse.readNumber_append hnumber
  rw [append_nil] at hdigits
  subst hdigits
  have hcolon : ':' ∉ digits := by
    intro hmem
    have := hall _ hmem
    revert this
    decide
  have hplus : digits.head? ≠ some '+' := by
    intro hhead
    have := hall _ (mem_of_mem_head? hhead)
    revert this
    decide
  simp [socketPort, htext, rsplitOnce_append hcolon, parsePort, hplus, hnumber]

end Stado.Directory
