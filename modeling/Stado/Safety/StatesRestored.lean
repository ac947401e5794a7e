import Stado.Placement.State

/-!
# Restoring a destination state inverts installing it

The backup's marker is written before the path is moved away, and removed after
the path is moved back. A run that is cut short in between leaves a marker of a
backup that is not there, which the restore refuses.
-/

namespace Stado.Placement

open Scripts (Script)
open Scripts.Script Disk

namespace Install

variable {i : Install}

/-! ## The four paths -/

theorem backup_ne_full : i.backup ≠ i.full := by
  intro heq
  have hlength := congrArg List.length heq
  simp [backup] at hlength

theorem metaFile_ne_full : i.metaFile ≠ i.full := by
  intro heq
  have hlength := congrArg List.length heq
  simp [metaFile, backup] at hlength

theorem stage_ne_full : i.stage ≠ i.full := by
  intro heq
  have hlength := congrArg List.length heq
  simp [stage] at hlength

theorem metaFile_ne_backup : i.metaFile ≠ i.backup := by
  intro heq
  have hlength := congrArg List.length heq
  simp [metaFile] at hlength

theorem stage_ne_backup : i.stage ≠ i.backup := by
  intro heq
  simp [stage, backup] at heq

theorem stage_ne_metaFile : i.stage ≠ i.metaFile := by
  intro heq
  simp [stage, metaFile, backup] at heq

theorem kept_ne_full : i.kept ≠ i.full := by
  intro heq
  have hlength := congrArg List.length heq
  simp [kept] at hlength

theorem kept_ne_backup : i.kept ≠ i.backup := by
  intro heq
  simp [kept, backup] at heq

theorem kept_ne_metaFile : i.kept ≠ i.metaFile := by
  intro heq
  simp [kept, metaFile, backup] at heq

theorem kept_ne_stage : i.kept ≠ i.stage := by
  intro heq
  simp [kept, stage] at heq

def lay (i : Install) (s : Disk) (full backup meta_ stage : Option Node) : Disk :=
  (((s.put i.full full).put i.backup backup).put i.metaFile meta_).put i.stage stage

variable {s : Disk} {f b m st x : Option Node}

@[simp] theorem lay_full : i.lay s f b m st i.full = f := by
  simp [lay, put, stage_ne_full.symm, metaFile_ne_full.symm, backup_ne_full.symm]

@[simp] theorem lay_backup : i.lay s f b m st i.backup = b := by
  simp [lay, put, stage_ne_backup.symm, metaFile_ne_backup.symm]

@[simp] theorem lay_metaFile : i.lay s f b m st i.metaFile = m := by
  simp [lay, put, stage_ne_metaFile.symm]

@[simp] theorem lay_stage : i.lay s f b m st i.stage = st := by
  simp [lay, put]

theorem lay_other {path : Text} (hfull : path ≠ i.full) (hbackup : path ≠ i.backup)
    (hmeta : path ≠ i.metaFile) (hstage : path ≠ i.stage) : i.lay s f b m st path = s path := by
  simp [lay, put, hfull, hbackup, hmeta, hstage]

@[simp] theorem lay_kept : i.lay s f b m st i.kept = s i.kept :=
  lay_other kept_ne_full kept_ne_backup kept_ne_metaFile kept_ne_stage

variable {t : Disk} {line : Text} {node : Node}

/-- A disk is laid out when it has the four nodes and is elsewhere as it was. -/
theorem eq_lay (hfull : t i.full = f) (hbackup : t i.backup = b)
    (hmeta : t i.metaFile = m) (hstage : t i.stage = st)
    (hother : ∀ path, path ≠ i.full → path ≠ i.backup → path ≠ i.metaFile → path ≠ i.stage →
      t path = s path) : t = i.lay s f b m st := by
  funext path
  by_cases h : path = i.full
  · rw [h, hfull, lay_full]
  · by_cases h' : path = i.backup
    · rw [h', hbackup, lay_backup]
    · by_cases h'' : path = i.metaFile
      · rw [h'', hmeta, lay_metaFile]
      · by_cases hlast : path = i.stage
        · rw [hlast, hstage, lay_stage]
        · rw [hother path h h' h'' hlast, lay_other h h' h'' hlast]

@[simp] theorem put_full : (i.lay s f b m st).put i.full x = i.lay s x b m st := by
  refine eq_lay ?_ ?_ ?_ ?_ ?_
  · simp [put]
  · simp [put, backup_ne_full]
  · simp [put, metaFile_ne_full]
  · simp [put, stage_ne_full]
  · intro path hfull hbackup hmeta hstage
    simp [put, hfull, lay_other hfull hbackup hmeta hstage]

@[simp] theorem put_backup : (i.lay s f b m st).put i.backup x = i.lay s f x m st := by
  refine eq_lay ?_ ?_ ?_ ?_ ?_
  · simp [put, backup_ne_full.symm]
  · simp [put]
  · simp [put, metaFile_ne_backup]
  · simp [put, stage_ne_backup]
  · intro path hfull hbackup hmeta hstage
    simp [put, hbackup, lay_other hfull hbackup hmeta hstage]

@[simp] theorem put_metaFile : (i.lay s f b m st).put i.metaFile x = i.lay s f b x st := by
  refine eq_lay ?_ ?_ ?_ ?_ ?_
  · simp [put, metaFile_ne_full.symm]
  · simp [put, metaFile_ne_backup.symm]
  · simp [put]
  · simp [put, stage_ne_metaFile]
  · intro path hfull hbackup hmeta hstage
    simp [put, hmeta, lay_other hfull hbackup hmeta hstage]

@[simp] theorem put_stage : (i.lay s f b m st).put i.stage x = i.lay s f b m x := by
  refine eq_lay ?_ ?_ ?_ ?_ ?_
  · simp [put, stage_ne_full.symm]
  · simp [put, stage_ne_backup.symm]
  · simp [put, stage_ne_metaFile.symm]
  · simp [put]
  · intro path hfull hbackup hmeta hstage
    simp [put, hstage, lay_other hfull hbackup hmeta hstage]

/-! ## The marker -/

def marker (line : Text) : Option Node := some (.file (line ++ ['\n']) true)

/-- A marker file just opened. -/
def blank : Option Node := some (.file [] true)

theorem had_yes : i.had (i.lay s f b (marker yes) st) = true := by
  rw [had, reads, lay_metaFile]
  decide

theorem had_no : i.had (i.lay s f b (marker no) st) = false := by
  rw [had, reads, lay_metaFile]
  decide

theorem had_blank : i.had (i.lay s f b blank st) = false := by
  rw [had, reads, lay_metaFile]
  decide

/-! ## Commands on a disk as laid out -/

@[simp] theorem holds_full : holds i.full (i.lay s f b m st) = f.isSome := by
  rw [holds, lay_full]

@[simp] theorem holds_backup : holds i.backup (i.lay s f b m st) = b.isSome := by
  rw [holds, lay_backup]

@[simp] theorem holds_metaFile : holds i.metaFile (i.lay s f b m st) = m.isSome := by
  rw [holds, lay_metaFile]

@[simp] theorem removeAll_full :
    removeAll i.full (i.lay s f b m st) = some (i.lay s none b m st) := by
  rw [removeAll, put_full]

@[simp] theorem removeAll_stage :
    removeAll i.stage (i.lay s f b m st) = some (i.lay s f b m none) := by
  rw [removeAll, put_stage]

@[simp] theorem receive_stage : receive i.stage x (i.lay s f b m st) = some (i.lay s f b m x) := by
  rw [receive, put_stage]

@[simp] theorem isFile_marker :
    holdsKind false i.metaFile (i.lay s f b (marker line) st) = true := by
  simp [holdsKind, marker, Node.isTree]

@[simp] theorem isFile_blank : holdsKind false i.metaFile (i.lay s f b blank st) = true := by
  simp [holdsKind, blank, Node.isTree]

@[simp] theorem isFile_none : holdsKind false i.metaFile (i.lay s f b none st) = false := by
  simp [holdsKind]

@[simp] theorem removeFile_marker :
    removeFile i.metaFile (i.lay s f b (marker line) st) = some (i.lay s f b none st) := by
  simp [removeFile, holdsKind, marker, Node.isTree]

@[simp] theorem removeFile_blank :
    removeFile i.metaFile (i.lay s f b blank st) = some (i.lay s f b none st) := by
  simp [removeFile, holdsKind, blank, Node.isTree]

@[simp] theorem move_backup :
    move i.backup i.full (i.lay s none (some node) m st) =
      some (i.lay s (some node) none m st) := by
  simp [move]

@[simp] theorem move_full :
    move i.full i.backup (i.lay s (some node) none m st) =
      some (i.lay s none (some node) m st) := by
  simp [move]

@[simp] theorem move_stage :
    move i.stage i.full (i.lay s none b m (some node)) = some (i.lay s (some node) b m none) := by
  simp [move]

@[simp] theorem openFile_metaFile :
    openFile i.metaFile (i.lay s f b none st) = some (i.lay s f b blank st) := by
  simp [openFile, holdsKind, blank]

@[simp] theorem writeLine_metaFile :
    writeLine i.metaFile line (i.lay s f b m st) = some (i.lay s f b (marker line) st) := by
  simp [writeLine, marker]

/-! ## Restoring -/

/-- The disks a restore of `s` succeeds from: nothing was touched; nothing was
there to keep; or what was there is the backup. -/
inductive Recoverable (i : Install) (s : Disk) : Disk → Prop where
  | untouched (st : Option Node) : Recoverable i s (i.lay s (s i.full) none none st)
  | unmarked (f m st : Option Node) (hprior : s i.full = none) (had : m = blank ∨ m = marker no) :
      Recoverable i s (i.lay s f none m st)
  | moved (node : Node) (f st : Option Node) (hprior : s i.full = some node) :
      Recoverable i s (i.lay s f (some node) (marker yes) st)

/-- The disk as it was, without the stage. -/
def restored (i : Install) (s : Disk) : Disk := i.lay s (s i.full) none none none

theorem Recoverable.run (h : Recoverable i s t) : i.restoreState.run t = (true, i.restored s) := by
  cases h with
  | untouched st => simp [restoreState, Script.run, restored]
  | unmarked f m st hprior had =>
    rcases had with rfl | rfl
    · simp [restoreState, Script.run, restored, hprior, had_blank]
    · simp [restoreState, Script.run, restored, hprior, had_no]
  | moved node f st hprior =>
    simp [restoreState, Script.run, restored, hprior, had_yes]

/-- The one half-state of a restore that it cannot finish: the backup is back in
place and its marker is still there. -/
def stuck (i : Install) (s : Disk) (st : Option Node) : Disk :=
  i.lay s (s i.full) none (marker yes) st

theorem stuck_run : (i.restoreState.run (i.stuck s st)).1 = false := by
  simp [restoreState, Script.run, stuck, had_yes]

/-- A restore cut short can be run again, except between moving the backup back and
removing its marker. -/
theorem Recoverable.cut (h : Recoverable i s t) {n : ℕ} (hn : s i.full = none ∨ n ≠ 3 ∨
    t i.backup = none) : Recoverable i s (i.restoreState.cut n t) := by
  cases h with
  | untouched st =>
    rcases n with _ | n
    · exact .untouched st
    · simpa [restoreState, cut_act, cut_no, cut_done] using Recoverable.untouched none
  | unmarked f m st hprior had =>
    have hfinal : Recoverable i s (i.lay s none none none none) := by
      have huntouched := Recoverable.untouched (i := i) (s := s) none
      rw [hprior] at huntouched
      exact huntouched
    have hfile : holdsKind false i.metaFile (i.lay s f none m none) = true := by
      rcases had with rfl | rfl <;> simp
    have hhad : i.had (i.lay s f none m none) = false := by
      rcases had with rfl | rfl
      · exact had_blank
      · exact had_no
    have hremove : removeFile i.metaFile (i.lay s none none m none) =
        some (i.lay s none none none none) := by
      rcases had with rfl | rfl <;> simp
    rcases n with _ | _ | _ | n
    · exact .unmarked f m st hprior had
    · simpa [restoreState, cut_act, cut_yes hfile, cut_no hhad, cut_zero_act] using
        Recoverable.unmarked f m none hprior had
    · simpa [restoreState, cut_act, cut_yes hfile, cut_no hhad, cut_zero_act] using
        Recoverable.unmarked none m none hprior had
    · simpa [restoreState, cut_act, cut_yes hfile, cut_no hhad, cut_act hremove, cut_done] using
        hfinal
  | moved node f st hprior =>
    have hback : n ≠ 3 := by
      rcases hn with hn | hn | hn
      · rw [hprior] at hn
        cases hn
      · exact hn
      · rw [lay_backup] at hn
        cases hn
    have hfile : holdsKind false i.metaFile (i.lay s f (some node) (marker yes) none) =
        true := isFile_marker
    have hbackup : holds i.backup (i.lay s f (some node) (marker yes) none) = true := by
      simp
    have hfinal : Recoverable i s (i.lay s (some node) none none none) := by
      have huntouched := Recoverable.untouched (i := i) (s := s) none
      rw [hprior] at huntouched
      exact huntouched
    rcases n with _ | _ | _ | _ | n
    · exact .moved node f st hprior
    · simpa [restoreState, cut_act, cut_yes hfile, cut_yes had_yes, cut_yes hbackup,
        cut_zero_act] using Recoverable.moved node f none hprior
    · simpa [restoreState, cut_act, cut_yes hfile, cut_yes had_yes, cut_yes hbackup,
        cut_zero_act] using Recoverable.moved node none none hprior
    · exact absurd rfl hback
    · simpa [restoreState, cut_act, cut_yes hfile, cut_yes had_yes, cut_yes hbackup,
        cut_done] using hfinal

/-- Cut short right after the backup is moved back. -/
theorem cut_stuck (hprior : s i.full = some node) :
    i.restoreState.cut 3 (i.lay s f (some node) (marker yes) st) = i.stuck s none := by
  have hfile : holdsKind false i.metaFile (i.lay s f (some node) (marker yes) none) =
      true := isFile_marker
  have hbackup : holds i.backup (i.lay s f (some node) (marker yes) none) = true := by
    simp
  simp [restoreState, cut_act, cut_yes hfile, cut_yes had_yes, cut_yes hbackup, cut_zero_act, stuck,
    hprior]

/-! ## Installing -/

/-- A disk before the transaction began: what is at the path is of the state's
kind, and the transaction left nothing there yet. -/
structure Fresh (i : Install) (s : Disk) : Prop where
  kind : ∀ node, s i.full = some node → node.isTree = i.tree
  backup : s i.backup = none
  metaFile : s i.metaFile = none
  kept : s i.kept = none

theorem Fresh.eq_lay (h : Fresh i s) : s = i.lay s (s i.full) none none (s i.stage) :=
  Install.eq_lay rfl h.backup h.metaFile rfl fun _ _ _ _ _ => rfl

/-- How many commands it takes until what was at the path is moved away. -/
def moves (i : Install) : ℕ := if i.copy.isSome then 7 else 5

/-- A node as it is installed: a file is its owner's only. -/
def owned : Node → Node
  | .file data _ => .file data true
  | .tree files => .tree files

theorem isKind_full (h : node.isTree = i.tree) :
    holdsKind i.tree i.full (i.lay s (some node) b m st) = true := by
  simp [holdsKind, h]

@[simp] theorem isKind_none {tree : Bool} :
    holdsKind tree i.full (i.lay s none b m st) = false := by
  simp [holdsKind]

theorem ownOnly_stage (h : node.isTree = false) :
    ownOnly i.stage (i.lay s f b m (some node)) = some (i.lay s f b m (some (owned node))) := by
  cases node with
  | file data own => simp [ownOnly, owned]
  | tree files => cases h

theorem owned_tree (h : node.isTree = true) : owned node = node := by
  cases node with
  | file data own => cases h
  | tree files => rfl

theorem mkdirParents_eq : mkdirParents t = some t := rfl

theorem absent_before : i.occupied (i.lay s f none none st) = false := by
  simp [occupied]

/-- The script from a fresh disk on, where something was at the path. -/
theorem cut_prepare_some (hkind : node.isTree = i.tree) (after : Script Disk) (n : ℕ) :
    ((i.prepare).andThen after).cut n (i.lay s (some node) none none st) =
      (act mkdirParents ((i.mark yes).andThen after)).cut n
        (i.lay s (some node) none none st) := by
  rcases n with _ | n
  · rfl
  · simp only [prepare, andThen]
    rw [cut_act mkdirParents_eq, cut_act mkdirParents_eq, cut_no absent_before, cut_yes (isKind_full hkind)]

theorem cut_prepare_none (after : Script Disk) (n : ℕ) :
    ((i.prepare).andThen after).cut n (i.lay s none none none st) =
      (act mkdirParents ((i.mark no).andThen after)).cut n (i.lay s none none none st) := by
  rcases n with _ | n
  · rfl
  · simp only [prepare, andThen]
    rw [cut_act mkdirParents_eq, cut_act mkdirParents_eq, cut_no absent_before, cut_no isKind_none, cut_no (by simp)]

theorem andThen_assoc (a b c : Script Disk) :
    (a.andThen b).andThen c = a.andThen (b.andThen c) := by
  induction a with
  | done => rfl
  | fail => rfl
  | act command next ih => simp only [andThen, ih]
  | test condition yes no ihyes ihno => simp only [andThen, ihyes, ihno]

/-- The copy over the path, wherever it is cut: the path holds some node, and the
backup and the marker stay as they are. -/
theorem cut_place (n : ℕ) (hcopy : ∀ node, i.copy = some node → st = some node) :
    ∃ f' st', (i.place).cut n (i.lay s none b m st) = i.lay s f' b m st' := by
  unfold place
  rcases hcopied : i.copy with _ | node
  · rcases n with _ | n
    · exact ⟨none, st, rfl⟩
    · exact ⟨none, none, by simp [cut_act, cut_done]⟩
  · obtain rfl := hcopy node hcopied
    have hnode := i.kind node hcopied
    cases htree : i.tree with
    | true =>
      rcases n with _ | n
      · exact ⟨none, some node, rfl⟩
      · exact ⟨some node, none, by simp [cut_act, cut_done]⟩
    | false =>
      rw [htree] at hnode
      rcases n with _ | _ | n
      · exact ⟨none, some node, rfl⟩
      · exact ⟨none, some (owned node), by simp [cut_act (ownOnly_stage hnode), cut_zero_act]⟩
      · exact ⟨some (owned node), none, by simp [cut_act (ownOnly_stage hnode), cut_act, cut_done]⟩

/-- The transfer and the installation, wherever they are cut, where nothing was at
the path. -/
theorem cut_push_none (n : ℕ) :
    ∃ f' st', (i.push.andThen i.install).cut n (i.lay s none none m st) =
      i.lay s f' none m st' := by
  have hinstall : ∀ n st, (∀ node, i.copy = some node → st = some node) →
      ∃ f' st', (i.install).cut n (i.lay s none none m st) = i.lay s f' none m st' := by
    intro n st hst
    rw [install, cut_no (by simp)]
    exact cut_place n hst
  unfold push
  rcases hcopied : i.copy with _ | node
  · exact hinstall n st (by simp [hcopied])
  · rcases n with _ | _ | n
    · exact ⟨none, st, rfl⟩
    · exact ⟨none, i.sent, by simp [andThen, cut_act, cut_zero_act]⟩
    · obtain ⟨f', st', h⟩ := hinstall n (some node) (by simp [hcopied])
      exact ⟨f', st', by simpa [andThen, cut_act] using h⟩

/-- The commands until what was at the path is moved away, and those after it. -/
theorem cut_push_some (n : ℕ) :
    (n + 4 < i.moves → ∃ st', (i.push.andThen i.install).cut n (i.lay s (some node) none m st) =
      i.lay s (some node) none m st') ∧
    (i.moves ≤ n + 4 → ∃ f' st', (i.push.andThen i.install).cut n
      (i.lay s (some node) none m st) = i.lay s f' (some node) m st') := by
  have hinstall : ∀ n st, (∀ node, i.copy = some node → st = some node) →
      ∃ f' st', (i.install).cut (n + 1) (i.lay s (some node) none m st) =
        i.lay s f' (some node) m st' := by
    intro n st hst
    rw [install, cut_yes (by simp), cut_act move_full]
    exact cut_place n hst
  unfold push moves
  rcases hcopied : i.copy with _ | copied
  · rcases n with _ | n
    · refine ⟨fun _ => ⟨st, ?_⟩, fun h => absurd h (by decide)⟩
      simp [andThen, install, cut_yes, cut_zero_act]
    · refine ⟨fun h => absurd h (by simp), fun _ => ?_⟩
      exact hinstall n st (by simp [hcopied])
  · rcases n with _ | _ | _ | n
    · exact ⟨fun _ => ⟨st, rfl⟩, fun h => absurd h (by simp)⟩
    · refine ⟨fun _ => ⟨i.sent, ?_⟩, fun h => absurd h (by simp)⟩
      simp [andThen, cut_act, cut_zero_act]
    · refine ⟨fun _ => ⟨some copied, ?_⟩, fun h => absurd h (by simp)⟩
      simp [andThen, cut_act, install, cut_yes, cut_zero_act]
    · refine ⟨fun h => absurd h (by simp), fun _ => ?_⟩
      obtain ⟨f', st', h⟩ := hinstall n (some copied) (by simp [hcopied])
      exact ⟨f', st', by simpa [andThen, cut_act] using h⟩

/-- Installing over nothing can be undone wherever it is cut. -/
theorem cut_write_none (h : Fresh i s) (hprior : s i.full = none) (n : ℕ) :
    Recoverable i s (i.writeState.cut n s) := by
  have hlay := h.eq_lay
  rw [hprior] at hlay
  have hkeep : ∀ st, Recoverable i s (i.lay s none none none st) := by
    intro st
    have huntouched := Recoverable.untouched (i := i) (s := s) st
    rw [hprior] at huntouched
    exact huntouched
  obtain ⟨st, hst⟩ : ∃ st, st = s i.stage := ⟨_, rfl⟩
  rw [← hst] at hlay
  have hcut : i.writeState.cut n s =
      (act mkdirParents ((i.mark no).andThen (i.push.andThen i.install))).cut n
        (i.lay s none none none st) := by
    rw [← cut_prepare_none, ← andThen_assoc, ← hlay]
    rfl
  rw [hcut]
  unfold mark
  rcases n with _ | _ | _ | _ | n
  · exact hkeep _
  · rw [cut_act mkdirParents_eq]
    exact hkeep _
  · simpa [andThen, cut_act mkdirParents_eq, cut_act, cut_zero_act] using
      Recoverable.unmarked none blank st hprior (.inl rfl)
  · simpa [andThen, cut_act mkdirParents_eq, cut_act, cut_zero_act] using
      Recoverable.unmarked none (marker no) st hprior (.inr rfl)
  · have hpushed : ∃ f' st', (i.push.andThen i.install).cut n (i.lay s none none (marker no) none) =
        i.lay s f' none (marker no) st' := cut_push_none n
    obtain ⟨f', st', hpush⟩ := hpushed
    simpa [andThen, cut_act mkdirParents_eq, cut_act, hpush] using
      Recoverable.unmarked f' (marker no) st' hprior (.inr rfl)

/-- Installing over a node: nothing is touched, or the marker is ahead of the
backup, or the node is the backup. -/
theorem cut_write_some (h : Fresh i s) (hprior : s i.full = some node) (n : ℕ) :
    (n ≤ 1 → ∃ st', i.writeState.cut n s = i.lay s (some node) none none st') ∧
    (1 < n → n < i.moves → ∃ st', i.writeState.cut n s = i.lay s (some node) none blank st' ∨
      i.writeState.cut n s = i.lay s (some node) none (marker yes) st') ∧
    (i.moves ≤ n → ∃ f' st', i.writeState.cut n s = i.lay s f' (some node) (marker yes) st') := by
  have hfive : 5 ≤ i.moves := by
    unfold moves
    split <;> decide
  obtain ⟨st, hst⟩ : ∃ st, st = s i.stage := ⟨_, rfl⟩
  have hlay : s = i.lay s (some node) none none st := by
    rw [← hprior, hst]
    exact h.eq_lay
  have hcut : i.writeState.cut n s =
      (act mkdirParents ((i.mark yes).andThen (i.push.andThen i.install))).cut n
        (i.lay s (some node) none none st) := by
    rw [← cut_prepare_some (h.kind node hprior), ← andThen_assoc, ← hlay]
    rfl
  rw [hcut]
  unfold mark
  rcases n with _ | _ | _ | _ | n
  · exact ⟨fun _ => ⟨st, rfl⟩, fun h => absurd h (by decide), fun h => absurd h (by omega)⟩
  · refine ⟨fun _ => ⟨st, ?_⟩, fun h => absurd h (by decide), fun h => absurd h (by omega)⟩
    rw [cut_act mkdirParents_eq]
    rfl
  · refine ⟨fun h => absurd h (by decide), fun _ _ => ⟨st, .inl ?_⟩, fun h => absurd h (by omega)⟩
    simp [andThen, cut_act mkdirParents_eq, cut_act, cut_zero_act]
  · refine ⟨fun h => absurd h (by decide), fun _ _ => ⟨st, .inr ?_⟩, fun h => absurd h (by omega)⟩
    simp [andThen, cut_act mkdirParents_eq, cut_act, cut_zero_act]
  · have hpush : (n + 4 < i.moves → ∃ st', (i.push.andThen i.install).cut n
          (i.lay s (some node) none (marker yes) none) =
            i.lay s (some node) none (marker yes) st') ∧
        (i.moves ≤ n + 4 → ∃ f' st', (i.push.andThen i.install).cut n
          (i.lay s (some node) none (marker yes) none) =
            i.lay s f' (some node) (marker yes) st') := cut_push_some n
    have hstep : (act mkdirParents ((act (openFile i.metaFile)
        (act (writeLine i.metaFile yes) (act (removeAll i.stage) done))).andThen
          (i.push.andThen i.install))).cut (n + 4) (i.lay s (some node) none none st) =
        (i.push.andThen i.install).cut n (i.lay s (some node) none (marker yes) none) := by
      simp [andThen, cut_act mkdirParents_eq, cut_act]
    rw [hstep]
    refine ⟨fun h => absurd h (by omega), fun _ hn => ?_, fun hn => hpush.2 hn⟩
    obtain ⟨st', hcut'⟩ := hpush.1 hn
    exact ⟨st', .inr hcut'⟩

/-! ## A whole installation -/

theorem run_andThen {a b : Script Disk} {u : Disk} (h : a.run t = (true, u)) :
    (a.andThen b).run t = b.run u := by
  induction a generalizing t with
  | done =>
    obtain rfl : t = u := (Prod.mk.inj h).2
    rfl
  | fail => cases (Prod.mk.inj h).1
  | act command next ih =>
    rw [Script.run] at h
    rw [andThen, Script.run]
    rcases hcommand : command t with _ | t'
    · rw [hcommand] at h
      cases (Prod.mk.inj h).1
    · rw [hcommand] at h
      exact ih h
  | test condition yes no ihyes ihno =>
    rw [Script.run] at h
    rw [andThen, Script.run]
    split
    · rename_i hcondition
      rw [if_pos hcondition] at h
      exact ihyes h
    · rename_i hcondition
      rw [if_neg hcondition] at h
      exact ihno h

def told (s : Disk) (i : Install) : Option Node :=
  marker (if (s i.full).isSome then yes else no)

theorem run_prepare (h : Fresh i s) :
    i.prepare.run s = (true, i.lay s (s i.full) none (told s i) none) := by
  have hlay := h.eq_lay
  obtain ⟨st, hst⟩ : ∃ st, st = s i.stage := ⟨_, rfl⟩
  rw [← hst] at hlay
  rcases hprior : s i.full with _ | node
  · rw [hprior] at hlay
    have hrun : i.prepare.run s = i.prepare.run (i.lay s none none none st) := by
      rw [← hlay]
    rw [hrun, prepare, run_act mkdirParents_eq, run_no absent_before, run_no isKind_none,
      run_no (by simp)]
    simp [mark, Script.run, told, hprior]
  · rw [hprior] at hlay
    have hrun : i.prepare.run s = i.prepare.run (i.lay s (some node) none none st) := by
      rw [← hlay]
    rw [hrun, prepare, run_act mkdirParents_eq, run_no absent_before,
      run_yes (isKind_full (h.kind node hprior))]
    simp [mark, Script.run, told, hprior]

theorem run_push : i.push.run (i.lay s f b m none) = (true, i.lay s f b m i.copy) := by
  unfold push
  rcases hcopied : i.copy with _ | node
  · rfl
  · simp [Script.run]

theorem run_place :
    i.place.run (i.lay s none b m i.copy) = (true, i.lay s (i.copy.map owned) b m none) := by
  unfold place
  rcases hcopied : i.copy with _ | node
  · simp [Script.run]
  · have hnode := i.kind node hcopied
    cases htree : i.tree with
    | true =>
      rw [htree] at hnode
      simp [Script.run, owned_tree hnode]
    | false =>
      rw [htree] at hnode
      simp [Script.run, ownOnly_stage hnode]

/-- A whole installation: the copy at the path, and what was there as the backup. -/
theorem run_write (h : Fresh i s) :
    i.writeState.run s = (true, i.lay s (i.copy.map owned) (s i.full) (told s i) none) := by
  rw [writeState, andThen_assoc, run_andThen (run_prepare h), run_andThen run_push, install]
  rcases hprior : s i.full with _ | node
  · rw [run_no (by simp)]
    exact run_place
  · rw [run_yes (by simp), run_act move_full]
    exact run_place

/-! ## The laws -/

/-- The path holds what it held, nothing of the transaction is left, and nothing
else is changed. -/
structure Restored (i : Install) (s t : Disk) : Prop where
  full : t i.full = s i.full
  backup : t i.backup = none
  metaFile : t i.metaFile = none
  stage : t i.stage = none
  other : ∀ path, path ≠ i.full → path ≠ i.backup → path ≠ i.metaFile → path ≠ i.stage →
    t path = s path

theorem restored_restored : Restored i s (i.restored s) :=
  ⟨lay_full, lay_backup, lay_metaFile, lay_stage,
    fun _ hfull hbackup hmeta hstage => lay_other hfull hbackup hmeta hstage⟩

def Restores (i : Install) (s t : Disk) : Prop :=
  (i.restoreState.run t).1 = true ∧ Restored i s (i.restoreState.run t).2

theorem Recoverable.restores (h : Recoverable i s t) : Restores i s t := by
  rw [Restores, h.run]
  exact ⟨rfl, restored_restored⟩

theorem stuck_unrestored : ¬ Restores i s (i.stuck s st) := by
  rintro ⟨hrun, -⟩
  rw [stuck_run] at hrun
  cases hrun

/-- A marker that was only opened says that nothing was there. -/
theorem blank_unrestored (hprior : s i.full = some node) :
    ¬ Restores i s (i.lay s (some node) none blank st) := by
  rintro ⟨-, hrestored⟩
  have hrun : (i.restoreState.run (i.lay s (some node) none blank st)).2 =
      i.lay s none none none none := by
    simp [restoreState, Script.run, had_blank]
  have hfull := hrestored.full
  rw [hrun, lay_full, hprior] at hfull
  cases hfull

/-- Settling keeps what was at the path beside the installed state, or leaves
nothing where there was nothing. -/
structure Settled (i : Install) (s t : Disk) : Prop where
  full : t i.full = i.copy.map owned
  kept : t i.kept = s i.full
  backup : t i.backup = none
  metaFile : t i.metaFile = none

theorem settles (h : Fresh i s) :
    (i.settleStateBackup.run (i.writeState.run s).2).1 = true ∧
      Settled i s (i.settleStateBackup.run (i.writeState.run s).2).2 := by
  rw [run_write h]
  unfold told
  rcases hprior : s i.full with _ | node
  · have hrun : i.settleStateBackup.run (i.lay s (i.copy.map owned) none (marker no) none) =
        (true, i.lay s (i.copy.map owned) none none none) := by
      simp [settleStateBackup, Script.run, keeps, had_no, dropBackup]
    show (i.settleStateBackup.run (i.lay s (i.copy.map owned) none (marker no) none)).1 = true ∧ _
    rw [show (if (none : Option Node).isSome then yes else no) = no from rfl, hrun]
    refine ⟨rfl, ⟨lay_full, ?_, lay_backup, lay_metaFile⟩⟩
    show i.lay s _ _ _ _ i.kept = _
    rw [lay_kept, h.kept, hprior]
  · obtain ⟨t, ht⟩ : ∃ t, t = i.lay s (i.copy.map owned) (some node) (marker yes) none := ⟨_, rfl⟩
    have hkeeps : i.keeps t = true := by
      rw [keeps, ht, had_yes, isFile_marker]
      rfl
    have hbackup : holds i.backup t = true := by
      rw [ht, holds_backup]
      rfl
    have hkept : holds i.kept t = false := by
      rw [holds, ht, lay_kept, h.kept]
      rfl
    have hmove : move i.backup i.kept t = some ((t.put i.kept (some node)).put i.backup none) := by
      simp [move, ht, h.kept]
    obtain ⟨u, hu⟩ : ∃ u, u = (t.put i.kept (some node)).put i.backup none := ⟨_, rfl⟩
    have hfile : holdsKind true i.metaFile u = false := by
      simp [holdsKind, hu, put, metaFile_ne_backup, kept_ne_metaFile.symm, ht, marker, Node.isTree]
    have hremove : removeFile i.metaFile u = some (u.put i.metaFile none) := by
      simp [removeFile, hfile]
    have hrun : i.settleStateBackup.run t = (true, u.put i.metaFile none) := by
      rw [settleStateBackup, run_yes hkeeps, run_yes hbackup, run_no hkept, run_act hmove,
        ← hu, run_act hremove]
      rfl
    show (i.settleStateBackup.run (i.lay s (i.copy.map owned) (some node) (marker yes) none)).1 =
      true ∧ _
    rw [show (if (some node).isSome then yes else no) = yes from rfl, ← ht, hrun]
    refine ⟨rfl, ⟨?_, ?_, ?_, ?_⟩⟩
    · simp [hu, ht, put, metaFile_ne_full.symm, backup_ne_full.symm, kept_ne_full.symm]
    · simp [hu, put, kept_ne_metaFile, kept_ne_backup, hprior]
    · simp [hu, put, metaFile_ne_backup.symm]
    · simp [put]

/-- The condition under which a cut installation is undone, also by a restore that
is cut itself: nothing was at the path, or the cut is not between the marker and
the move it announces, in either direction. -/
def Clear (i : Install) (s : Disk) (n m : ℕ) : Prop :=
  s i.full = none ∨ ((n ≤ 1 ∨ i.moves ≤ n) ∧ ¬ (i.moves ≤ n ∧ m = 3))

end Install

open Install

/-- An installation cut short after `n` commands is undone by a restore, and by one
that was itself cut short after `m` commands and runs again, exactly when the path
held nothing or neither cut stands between a marker and its move; a whole one is
settled. -/
theorem states_restored (i : Install) (s : Disk) (h : Fresh i s) (n m : ℕ) :
    ((Restores i s (i.writeState.cut n s) ∧
        Restores i s (i.restoreState.cut m (i.writeState.cut n s))) ↔ Clear i s n m) ∧
      ((i.writeState.run s).1 = true ∧ (i.settleStateBackup.run (i.writeState.run s).2).1 = true ∧
        Settled i s (i.settleStateBackup.run (i.writeState.run s).2).2) := by
  obtain ⟨hsettled, hkept⟩ := settles h
  refine ⟨?_, by rw [run_write h], hsettled, hkept⟩
  rcases hprior : s i.full with _ | node
  · have hwrite := cut_write_none h hprior n
    constructor
    · intro _
      exact .inl hprior
    · intro _
      exact ⟨hwrite.restores, (hwrite.cut (.inl hprior)).restores⟩
  · obtain ⟨hbefore, hgap, hafter⟩ := cut_write_some h hprior n
    have hclear : Clear i s n m ↔ (n ≤ 1 ∨ i.moves ≤ n) ∧ ¬ (i.moves ≤ n ∧ m = 3) := by
      rw [Clear, hprior]
      simp
    rw [hclear]
    constructor
    · rintro ⟨hwrite, hagain⟩
      constructor
      · by_contra hbetween
        rw [not_or, Nat.not_le, Nat.not_le] at hbetween
        obtain ⟨st, hcut | hcut⟩ := hgap hbetween.1 hbetween.2
        · exact blank_unrestored hprior (hcut ▸ hwrite)
        · rw [hcut] at hwrite
          exact stuck_unrestored (hprior ▸ hwrite)
      · rintro ⟨hmoved, rfl⟩
        obtain ⟨f, st, hcut⟩ := hafter hmoved
        rw [hcut, cut_stuck hprior] at hagain
        exact stuck_unrestored hagain
    · rintro ⟨hn | hn, hm⟩
      · obtain ⟨st, hcut⟩ := hbefore hn
        have hrecoverable : Install.Recoverable i s (i.writeState.cut n s) := by
          rw [hcut, ← hprior]
          exact .untouched st
        refine ⟨hrecoverable.restores, (hrecoverable.cut (.inr (.inr ?_))).restores⟩
        rw [hcut, lay_backup]
      · obtain ⟨f, st, hcut⟩ := hafter hn
        have hrecoverable : Install.Recoverable i s (i.writeState.cut n s) := by
          rw [hcut]
          exact .moved node f st hprior
        refine ⟨hrecoverable.restores, (hrecoverable.cut (.inr (.inl ?_))).restores⟩
        intro hthree
        exact hm ⟨hn, hthree⟩

/-- A store's file over the one the destination had. -/
def storeFile : Install where
  full := "store".toList
  tree := false
  txn := "t1".toList
  copy := some (.file "new".toList false)
  sent := none
  kind := by simp [Node.isTree]

def storeDisk : Disk :=
  Function.update (fun _ => none) "store".toList (some (.file "old".toList true))

theorem storeDisk_fresh : Fresh storeFile storeDisk := by
  refine ⟨?_, ?_, ?_, ?_⟩
  · intro node hnode
    have hfull : storeDisk storeFile.full = some (.file "old".toList true) := by decide +kernel
    obtain rfl := Option.some.inj (hfull.symm.trans hnode)
    rfl
  · decide +kernel
  · decide +kernel
  · decide +kernel

/-- Cut after the move to the backup, and the restore after the removal. -/
theorem store_restored :
    Restores storeFile storeDisk (storeFile.writeState.cut 7 storeDisk) ∧
      Restores storeFile storeDisk
        (storeFile.restoreState.cut 2 (storeFile.writeState.cut 7 storeDisk)) :=
  (states_restored storeFile storeDisk storeDisk_fresh 7 2).1.mpr
    (.inr ⟨.inr (by decide), by decide⟩)

/-- A run that ends after the first command to the destination, before anything was
sent, cannot be rolled back. -/
theorem prepared_unrestored :
    ¬ Restores storeFile storeDisk (storeFile.writeState.cut 4 storeDisk) := by
  rintro ⟨hrun, -⟩
  have hfails : (storeFile.restoreState.run (storeFile.writeState.cut 4 storeDisk)).1 = false := by
    decide +kernel
  rw [hfails] at hrun
  cases hrun

end Stado.Placement
