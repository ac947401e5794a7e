import Stado.Kompilator.Built

/-!
# A unit's record is read back

What is read never holds a newline, nor a tab where a field ends, nor a path
that is not a text, and a carriage return at the end of a line is lost. A record
free of these, whose library's file stands, is read as it was written, and no
other record is.
-/

namespace Stado.Kompilator

open List Option

def PathBuf.IsText (path : PathBuf) : Prop := path = .text path.display

/-! ## Entries -/

namespace BuiltEntry

variable {entry : BuiltEntry}

def path : BuiltEntry → Option PathBuf
  | lib _ file | rmeta file | digested _ file => some file
  | search _ | metadata .. | env .. => none

/-- Every field ends where its separator stands, and paths are texts. -/
structure Separate (entry : BuiltEntry) : Prop where
  key : ∀ key ∈ entry.key, '\t' ∉ key ∧ '\n' ∉ key
  value : '\n' ∉ entry.value
  whole : entry.key = none → '\t' ∉ entry.value
  path : ∀ path ∈ entry.path, path.IsText

/-- The line does not end in a carriage return. -/
def Unreturned (entry : BuiltEntry) : Prop := entry.value.getLast? ≠ some '\r'

/-- A library's file exists. -/
def Stands (stands : PathBuf → Bool) : BuiltEntry → Prop
  | lib _ file => stands file = true
  | _ => True

/-- The entry of the line without the carriage return at its end. -/
def stripped : BuiltEntry → BuiltEntry
  | lib name file => lib name (.text (stripReturn file.display))
  | rmeta file => rmeta (.text (stripReturn file.display))
  | search value => search (stripReturn value)
  | metadata key value => metadata key (stripReturn value)
  | digested digest file => digested digest (.text (stripReturn file.display))
  | env name value => env name (stripReturn value)

theorem key_stripped (entry : BuiltEntry) : entry.stripped.key = entry.key := by cases entry <;> rfl

theorem value_stripped (entry : BuiltEntry) : entry.stripped.value = stripReturn entry.value := by
  cases entry <;> rfl

theorem stripReturn_line (entry : BuiltEntry) : stripReturn entry.line = entry.stripped.line := by
  have hkind : entry.stripped.kind = entry.kind := by cases entry <;> rfl
  rw [line, line, hkind, key_stripped, value_stripped, stripReturn_append (by decide)]
  cases entry.key with
  | none => rfl
  | some key => exact congrArg (_ ++ '\t' :: ·) (stripReturn_append (by decide))

theorem stripped_eq_self (h : entry.Separate) : entry.stripped = entry ↔ entry.Unreturned := by
  rw [Unreturned, ← stripReturn_eq_self, ← value_stripped]
  refine ⟨congrArg value, fun hvalue => ?_⟩
  cases entry with
  | lib name file => exact congrArg (lib name) ((congrArg _ hvalue).trans (h.path file rfl).symm)
  | rmeta file => exact congrArg rmeta ((congrArg _ hvalue).trans (h.path file rfl).symm)
  | search value => exact congrArg search hvalue
  | metadata key value => exact congrArg (metadata key) hvalue
  | digested digest file =>
    exact congrArg (digested digest) ((congrArg _ hvalue).trans (h.path file rfl).symm)
  | env name value => exact congrArg (env name) hvalue

theorem Separate.stripped (h : entry.Separate) : entry.stripped.Separate := by
  have hvalue : ∀ c, c ∉ entry.value → c ∉ entry.stripped.value := by
    intro c hc hmem
    rw [value_stripped] at hmem
    exact hc (mem_stripReturn hmem)
  refine ⟨?_, hvalue _ h.value, ?_, ?_⟩
  · rw [key_stripped]
    exact h.key
  · rw [key_stripped]
    exact fun hnone => hvalue _ (h.whole hnone)
  · cases entry <;> simp [BuiltEntry.path, BuiltEntry.stripped, PathBuf.IsText, PathBuf.display]

theorem kind_plain (entry : BuiltEntry) : '\t' ∉ entry.kind.toList ∧ '\n' ∉ entry.kind.toList := by
  have hall : ∀ kind ∈ ["lib", "rmeta", "search", "meta", "file", "env"],
      '\t' ∉ kind.toList ∧ '\n' ∉ kind.toList := by decide
  exact hall _ (by cases entry <;> simp [kind])

theorem notMem_line (h : entry.Separate) : '\n' ∉ entry.line := by
  have hkind := (kind_plain entry).2
  cases hkey : entry.key with
  | none => simp [line, hkey, hkind, h.value]
  | some key => simp [line, hkey, hkind, h.value, (h.key key hkey).2]

theorem read_line (h : entry.Separate) : read entry.line = some entry := by
  have hsplit : splitn '\t' 3 entry.line =
      entry.kind.toList :: (entry.key.toList ++ [entry.value]) := by
    cases hkey : entry.key with
    | none =>
      rw [line, hkey, splitn_append (kind_plain entry).1, splitn_whole (h.whole hkey)]
      rfl
    | some key =>
      rw [line, hkey, splitn_append (kind_plain entry).1, splitn_append (h.key key hkey).1]
      rfl
  have htext : ∀ file ∈ entry.path, PathBuf.text entry.value = file := by
    intro file hfile
    cases entry <;> cases hfile <;> exact (h.path _ rfl).symm
  rw [read, hsplit]
  cases entry <;> simp only [kind, key, toList_none, toList_some, nil_append,
    cons_append] <;> simp [htext, path] <;> rfl

theorem separate_read {line : Text} (hline : '\n' ∉ line) (h : read line = some entry) :
    entry.Separate := by
  have hplain : ∀ part ∈ splitn '\t' 3 line, '\n' ∉ part :=
    fun part hpart hmem => hline (mem_of_mem_splitn hpart hmem)
  unfold read at h
  split at h
  · next kind value hsplit =>
    obtain ⟨-, hnil | ⟨rest, hrest⟩⟩ := splitn_cons hsplit
    · cases hnil
    have htab := (splitn_cons hrest.symm).1
    have hvalue := hplain value (by simp [hsplit])
    split_ifs at h <;> cases h <;>
      exact ⟨by simp [key], hvalue, fun _ => htab, by simp [path, PathBuf.IsText, PathBuf.display]⟩
  · next kind first value hsplit =>
    obtain ⟨-, hnil | ⟨rest, hrest⟩⟩ := splitn_cons hsplit
    · cases hnil
    have htab := (splitn_cons hrest.symm).1
    have hkey := hplain first (by simp [hsplit])
    have hvalue := hplain value (by simp [hsplit])
    split_ifs at h <;> cases h <;> exact ⟨by simp [key, htab, hkey], hvalue, by simp [key],
      by simp [path, PathBuf.IsText, PathBuf.display]⟩
  · cases h

end BuiltEntry

namespace Built

variable {stands : PathBuf → Bool} {built built' : Built} {entries : List BuiltEntry}

/-! ## Records -/

def nothing : Built := ⟨none, none, [], [], [], [], true⟩

theorem foldl_take (built : Built) : built.entries.foldl take nothing =
    { built with reused := true } := by
  obtain ⟨lib, rmeta, searches, metadata, files, env, reused⟩ := built
  have hsearches : ∀ (items : List Text) (b : Built), (items.map BuiltEntry.search).foldl take b =
      { b with searches := b.searches ++ items } := by
    intro items
    induction items with
    | nil => simp
    | cons item items ih => simp [take, ih]
  have hmetadata : ∀ (items : List (Text × Text)) (b : Built),
      (items.map fun item => BuiltEntry.metadata item.1 item.2).foldl take b =
        { b with metadata := b.metadata ++ items } := by
    intro items
    induction items with
    | nil => simp
    | cons item items ih => simp [take, ih]
  have hfiles : ∀ (items : List (Text × PathBuf)) (b : Built),
      (items.map fun item => BuiltEntry.digested item.1 item.2).foldl take b =
        { b with files := b.files ++ items } := by
    intro items
    induction items with
    | nil => simp
    | cons item items ih => simp [take, ih]
  have henv : ∀ (items : List (Text × Text)) (b : Built),
      (items.map fun item => BuiltEntry.env item.1 item.2).foldl take b =
        { b with env := b.env ++ items } := by
    intro items
    induction items with
    | nil => simp
    | cons item items ih => simp [take, ih]
  rw [entries, foldl_append, foldl_append, foldl_append, foldl_append]
  erw [hsearches, hmetadata, hfiles, henv]
  cases lib <;> cases rmeta <;> rfl

theorem foldlM_lines (h : ∀ entry ∈ entries, entry.Separate) :
    (entries.map BuiltEntry.line).foldlM (readLine stands) built = some built' ↔
      (∀ entry ∈ entries, entry.Stands stands) ∧ entries.foldl take built = built' := by
  induction entries generalizing built with
  | nil => simp
  | cons entry entries ih =>
    obtain ⟨hentry, hentries⟩ := forall_mem_cons.mp h
    rw [map_cons, foldlM_cons, forall_mem_cons, foldl_cons, readLine,
      BuiltEntry.read_line hentry]
    cases entry with
    | lib name file =>
      by_cases hstands : stands file = true
      · simpa [hstands, BuiltEntry.Stands] using ih hentries
      · simp [hstands, BuiltEntry.Stands]
    | _ => simpa [BuiltEntry.Stands] using ih hentries

theorem separate_lines {lines : List Text} (hlines : ∀ line ∈ lines, '\n' ∉ line)
    (hbuilt : ∀ entry ∈ built.entries, entry.Separate)
    (h : lines.foldlM (readLine stands) built = some built') :
    ∀ entry ∈ built'.entries, entry.Separate := by
  induction lines generalizing built with
  | nil =>
    cases h
    exact hbuilt
  | cons line lines ih =>
    obtain ⟨hline, hlater⟩ := forall_mem_cons.mp hlines
    rw [foldlM_cons, bind_eq_bind, bind_eq_some_iff] at h
    obtain ⟨next, hnext, h⟩ := h
    have htaken : ∀ entry, BuiltEntry.read line = some entry →
        ∀ other ∈ (built.take entry).entries, other.Separate := by
      intro entry hentry other hother
      have hseparate := BuiltEntry.separate_read hline hentry
      have hmem : other ∈ built.entries ∨ other = entry := by
        cases entry <;> simp [entries, take] at hother ⊢ <;> grind
      rcases hmem with hmem | rfl
      · exact hbuilt other hmem
      · exact hseparate
    refine ih hlater ?_ h
    unfold readLine at hnext
    split at hnext
    · next hentry =>
      split_ifs at hnext
      cases hnext
      exact htaken _ hentry
    · next hentry =>
      cases hnext
      exact htaken _ hentry
    · cases hnext

def stripped (built : Built) : Built where
  lib := built.lib.map fun (name, file) => (name, .text (stripReturn file.display))
  rmeta := built.rmeta.map fun file => .text (stripReturn file.display)
  searches := built.searches.map stripReturn
  metadata := built.metadata.map fun (key, value) => (key, stripReturn value)
  files := built.files.map fun (digest, file) => (digest, .text (stripReturn file.display))
  env := built.env.map fun (name, value) => (name, stripReturn value)
  reused := built.reused

theorem entries_stripped (built : Built) :
    built.stripped.entries = built.entries.map BuiltEntry.stripped := by
  obtain ⟨lib, rmeta, searches, metadata, files, env, reused⟩ := built
  cases lib <;> cases rmeta <;>
    simp [entries, stripped, BuiltEntry.stripped, Function.comp_def]

theorem read_write (h : ∀ entry ∈ built.entries, entry.Separate) :
    read stands built.write = some built' ↔
      (∀ entry ∈ built.entries, entry.stripped.Stands stands) ∧
        { built.stripped with reused := true } = built' := by
  have hlines : ∀ line ∈ built.entries.map BuiltEntry.line, '\n' ∉ line := by
    intro line hline
    obtain ⟨entry, hentry, rfl⟩ := List.mem_map.mp hline
    exact BuiltEntry.notMem_line (h entry hentry)
  have hstripped : (built.entries.map BuiltEntry.line).map stripReturn =
      built.stripped.entries.map BuiltEntry.line := by
    rw [entries_stripped, List.map_map, List.map_map]
    exact map_congr_left fun entry _ => BuiltEntry.stripReturn_line entry
  rw [read, write, linesFrom_flatten hlines, hstripped, foldlM_lines, ← nothing, foldl_take,
    entries_stripped, List.forall_mem_map]
  rw [entries_stripped, List.forall_mem_map]
  exact fun entry hentry => (h entry hentry).stripped

/-- A record is read as it was written, up to the note that it was found, exactly
when the fields of its lines are separate, no line ends in a carriage return and
its library's file stands. -/
theorem records_read (stands : PathBuf → Bool) (built : Built) :
    read stands built.write = some { built with reused := true } ↔
      ∀ entry ∈ built.entries, entry.Separate ∧ entry.Unreturned ∧ entry.Stands stands := by
  have hself : (∀ entry ∈ built.entries, entry.stripped = entry) ↔
      { built.stripped with reused := true } = { built with reused := true } := by
    constructor
    · intro h
      rw [← foldl_take built.stripped, ← foldl_take built, entries_stripped,
        (map_congr_left h).trans (List.map_id _)]
    · intro h
      have hentries : built.stripped.entries = built.entries := by
        show entries { built.stripped with reused := true } =
          entries { built with reused := true }
        rw [h]
      rw [entries_stripped] at hentries
      exact map_inj_left.mp (hentries.trans (List.map_id _).symm)
  constructor
  · intro h
    have hseparate : ∀ entry ∈ entries { built with reused := true }, entry.Separate :=
      separate_lines (fun _ hline => notMem_line not_mem_nil hline) (by simp [entries]) h
    obtain ⟨hstands, hsame⟩ := (read_write hseparate).mp h
    intro entry hentry
    have hfixed := hself.mpr hsame entry hentry
    have hstand := hstands entry hentry
    rw [hfixed] at hstand
    exact ⟨hseparate entry hentry, (BuiltEntry.stripped_eq_self (hseparate entry hentry)).mp hfixed,
      hstand⟩
  · intro h
    have hfixed : ∀ entry ∈ built.entries, entry.stripped = entry :=
      fun entry hentry => (BuiltEntry.stripped_eq_self (h entry hentry).1).mpr (h entry hentry).2.1
    refine (read_write fun entry hentry => (h entry hentry).1).mpr ⟨fun entry hentry => ?_,
      hself.mp hfixed⟩
    rw [hfixed entry hentry]
    exact (h entry hentry).2.2

/-- A variable of two lines is read back as its first line and a search path. -/
def noted : Built :=
  ⟨none, none, [], [], [], [("NOTES".toList, "first\nsearch\t/elsewhere".toList)], false⟩

theorem noted_misread (stands : PathBuf → Bool) :
    read stands noted.write = some ⟨none, none, ["/elsewhere".toList], [], [],
      [("NOTES".toList, "first".toList)], true⟩ := rfl

theorem noted_unread : read (fun _ => true) noted.write ≠ some { noted with reused := true } := by
  rw [noted_misread]
  decide

end Built

end Stado.Kompilator
