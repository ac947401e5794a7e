import Mathlib.Data.List.DropRight
import Stado.Kompilator.Lock

/-!
# The record of a compiled unit

What a compiled unit leaves for the units above it, the lines it is written as,
and what is read from such lines.
-/

namespace Stado.Kompilator

open List

/-- A path: a text, or bytes that are none, shown as a text of their own. -/
inductive PathBuf where
  | text (text : Text)
  | bytes (bytes : List ℕ) (shown : Text)
deriving DecidableEq

def PathBuf.display : PathBuf → Text
  | .text t => t
  | .bytes _ shown => shown

structure Built where
  lib : Option (Text × PathBuf)
  /-- The library's interface, `meta` in the source. -/
  rmeta : Option PathBuf
  searches : List Text
  metadata : List (Text × Text)
  files : List (Text × PathBuf)
  env : List (Text × Text)
  reused : Bool
deriving DecidableEq

/-! ## Lines -/

def stripReturn (line : Text) : Text := if line.getLast? = some '\r' then line.dropLast else line

/-- The lines of a text whose first line begins with `line`. -/
def linesFrom (line : Text) : Text → List Text
  | [] => if line = [] then [] else [line]
  | c :: rest =>
    if c = '\n' then stripReturn line :: linesFrom [] rest else linesFrom (line ++ [c]) rest

def splitn (separator : Char) : ℕ → Text → List Text
  | 0, _ => []
  | 1, text => [text]
  | n + 2, text =>
    match text.dropWhile (· ≠ separator) with
    | [] => [text]
    | _ :: rest => text.takeWhile (· ≠ separator) :: splitn separator (n + 1) rest

variable {c : Char} {before : Text}

theorem stripReturn_append {before line : Text} (hc : c ≠ '\r') :
    stripReturn (before ++ c :: line) = before ++ c :: stripReturn line := by
  cases line using List.reverseRecOn with
  | nil => simp [stripReturn, hc]
  | append_singleton line d =>
    have hlast : (before ++ c :: (line ++ [d])).getLast? = some d := by
      rw [← cons_append, ← append_assoc, List.getLast?_concat]
    have hdrop : (before ++ c :: (line ++ [d])).dropLast = before ++ c :: line := by
      rw [← cons_append, ← append_assoc, dropLast_concat]
    rw [stripReturn, stripReturn, hlast, hdrop, List.getLast?_concat, dropLast_concat]
    split_ifs <;> rfl

theorem stripReturn_eq_self {line : Text} :
    stripReturn line = line ↔ line.getLast? ≠ some '\r' := by
  unfold stripReturn
  split_ifs with h
  · refine iff_of_false (fun heq => ?_) (fun hne => hne h)
    have hlength := congrArg List.length heq
    have hne : line ≠ [] := by
      rintro rfl
      cases h
    rw [length_dropLast] at hlength
    exact absurd (length_pos_iff.mpr hne) (by omega)
  · exact iff_of_true rfl h

theorem mem_stripReturn {line : Text} (h : c ∈ stripReturn line) : c ∈ line := by
  unfold stripReturn at h
  split_ifs at h
  · exact mem_of_mem_dropLast h
  · exact h

theorem linesFrom_append (h : '\n' ∉ before) (line rest : Text) :
    linesFrom line (before ++ '\n' :: rest) = stripReturn (line ++ before) :: linesFrom [] rest := by
  induction before generalizing line with
  | nil => simp [linesFrom]
  | cons c before ih =>
    rw [mem_cons, not_or] at h
    rw [cons_append, linesFrom, if_neg (Ne.symm h.1), ih h.2]
    simp

theorem linesFrom_flatten {lines : List Text} (h : ∀ line ∈ lines, '\n' ∉ line) :
    linesFrom [] (lines.map (· ++ ['\n'])).flatten = lines.map stripReturn := by
  induction lines with
  | nil => rfl
  | cons line lines ih =>
    obtain ⟨hline, hlines⟩ := forall_mem_cons.mp h
    rw [map_cons, flatten_cons, append_assoc, singleton_append, linesFrom_append hline, ih hlines]
    rfl

theorem notMem_line {line text found : Text} (hline : '\n' ∉ line)
    (h : found ∈ linesFrom line text) : '\n' ∉ found := by
  induction text generalizing line with
  | nil =>
    rw [linesFrom] at h
    split_ifs at h
    · cases h
    · rwa [mem_singleton.mp h]
  | cons c rest ih =>
    rw [linesFrom] at h
    split_ifs at h with hc
    · rcases mem_cons.mp h with rfl | h
      · exact fun hmem => hline (mem_stripReturn hmem)
      · exact ih not_mem_nil h
    · exact ih (by simp [hline, Ne.symm hc]) h

section Splitn

variable {separator : Char}

theorem splitn_whole {text : Text} (h : separator ∉ text) (n : ℕ) :
    splitn separator (n + 1) text = [text] := by
  cases n with
  | zero => rfl
  | succ n =>
    have hnil : text.dropWhile (· ≠ separator) = [] := by
      rw [dropWhile_eq_nil_iff]
      intro c hc
      exact decide_eq_true fun heq => h (heq ▸ hc)
    rw [splitn, hnil]

theorem splitn_append (h : separator ∉ before) (rest : Text) (n : ℕ) :
    splitn separator (n + 2) (before ++ separator :: rest) =
      before :: splitn separator (n + 1) rest := by
  have hall : ∀ c ∈ before, decide (c ≠ separator) = true := by
    intro c hc
    exact decide_eq_true fun heq => h (heq ▸ hc)
  rw [splitn, dropWhile_append_of_pos hall, takeWhile_append_of_pos hall]
  simp

theorem splitn_cons {text first : Text} {later : List Text} {n : ℕ}
    (h : splitn separator (n + 2) text = first :: later) :
    separator ∉ first ∧ (later = [] ∨ ∃ rest, later = splitn separator (n + 1) rest) := by
  rw [splitn] at h
  split at h
  · next hnil =>
    obtain ⟨rfl, rfl⟩ := List.cons.inj h
    refine ⟨fun hmem => ?_, .inl rfl⟩
    simpa using dropWhile_eq_nil_iff.mp hnil _ hmem
  · obtain ⟨rfl, rfl⟩ := List.cons.inj h
    refine ⟨fun hmem => ?_, .inr ⟨_, rfl⟩⟩
    simpa using mem_takeWhile_imp hmem

theorem mem_of_mem_splitn {text part : Text} {n : ℕ} (h : part ∈ splitn separator n text)
    (hc : c ∈ part) : c ∈ text := by
  fun_induction splitn separator n text with
  | case1 => cases h
  | case2 text => rwa [mem_singleton.mp h] at hc
  | case3 n text hnil => rwa [mem_singleton.mp h] at hc
  | case4 n text d rest hdrop ih =>
    rcases mem_cons.mp h with rfl | h
    · exact ( takeWhile_prefix _).subset hc
    · have hrest : c ∈ text.dropWhile (· ≠ separator) := hdrop ▸ mem_cons_of_mem _ (ih h)
      exact (dropWhile_suffix _).subset hrest

end Splitn

/-! ## The record -/

/-- What one line of a record says. -/
inductive BuiltEntry where
  | lib (name : Text) (file : PathBuf)
  | rmeta (file : PathBuf)
  | search (directory : Text)
  | metadata (key value : Text)
  | digested (digest : Text) (file : PathBuf)
  | env (name value : Text)
deriving DecidableEq

namespace BuiltEntry

def kind : BuiltEntry → String
  | lib .. => "lib"
  | rmeta .. => "rmeta"
  | search .. => "search"
  | metadata .. => "meta"
  | digested .. => "file"
  | env .. => "env"

/-- The field before the last one. -/
def key : BuiltEntry → Option Text
  | lib name _ => some name
  | rmeta _ | search _ => none
  | metadata key _ => some key
  | digested digest _ => some digest
  | env name _ => some name

def value : BuiltEntry → Text
  | lib _ file | rmeta file | digested _ file => file.display
  | search directory => directory
  | metadata _ value | env _ value => value

def line (entry : BuiltEntry) : Text :=
  entry.kind.toList ++ '\t' :: match entry.key with
    | none => entry.value
    | some key => key ++ '\t' :: entry.value

def read (line : Text) : Option BuiltEntry :=
  match splitn '\t' 3 line with
  | [kind, value] =>
    if kind = "rmeta".toList then some (rmeta (.text value))
    else if kind = "search".toList then some (search value)
    else none
  | [kind, key, value] =>
    if kind = "lib".toList then some (lib key (.text value))
    else if kind = "meta".toList then some (metadata key value)
    else if kind = "file".toList then some (digested key (.text value))
    else if kind = "env".toList then some (env key value)
    else none
  | _ => none

end BuiltEntry

namespace Built

def entries (built : Built) : List BuiltEntry :=
  built.lib.toList.map (fun (name, file) => .lib name file) ++
    built.rmeta.toList.map .rmeta ++ built.searches.map .search ++
    built.metadata.map (fun (key, value) => .metadata key value) ++
    built.files.map (fun (digest, file) => .digested digest file) ++
    built.env.map (fun (name, value) => .env name value)

def write (built : Built) : Text :=
  ((built.entries.map BuiltEntry.line).map (· ++ ['\n'])).flatten

def take (built : Built) : BuiltEntry → Built
  | .lib name file => { built with lib := some (name, file) }
  | .rmeta file => { built with rmeta := some file }
  | .search directory => { built with searches := built.searches ++ [directory] }
  | .metadata key value => { built with metadata := built.metadata ++ [(key, value)] }
  | .digested digest file => { built with files := built.files ++ [(digest, file)] }
  | .env name value => { built with env := built.env ++ [(name, value)] }

/-- One line taken into the record; `stands` says which files exist. -/
def readLine (stands : PathBuf → Bool) (built : Built) (line : Text) : Option Built :=
  match BuiltEntry.read line with
  | some (.lib name file) => if stands file then some (built.take (.lib name file)) else none
  | some entry => some (built.take entry)
  | none => none

def read (stands : PathBuf → Bool) (text : Text) : Option Built :=
  (linesFrom [] text).foldlM (readLine stands) ⟨none, none, [], [], [], [], true⟩

end Built

end Stado.Kompilator
