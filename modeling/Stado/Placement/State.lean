import Mathlib.Logic.Function.Basic
import Stado.Library.Scripts

/-!
# The durable state a move installs

The scripts a move runs on the destination for one state: what was at the path
becomes a backup, the copy is staged beside the path and renamed over it, a
rollback restores the backup and a committed move keeps it beside the path.
-/

namespace Stado.Placement

open Scripts (Script)
open Scripts.Script

/-! ## The destination's disk -/

abbrev Text := List Char

/-- A regular file, or a directory with every file below it. -/
inductive Node where
  | file (data : Text) (ownerOnly : Bool)
  | tree (files : List (List Text × Text))
deriving DecidableEq

def Node.isTree : Node → Bool
  | .file .. => false
  | .tree _ => true

abbrev Disk := Text → Option Node

namespace Disk

def put (disk : Disk) (path : Text) (node : Option Node) : Disk := Function.update disk path node

/-- `[ -e path ]` -/
def holds (path : Text) (disk : Disk) : Bool := (disk path).isSome

/-- `[ -f path ]`, or `[ -d path ]` for a tree. -/
def holdsKind (tree : Bool) (path : Text) (disk : Disk) : Bool :=
  (disk path).any fun node => node.isTree = tree

/-- What `$(cat path)` is. -/
def reads (path : Text) (disk : Disk) : Text :=
  match disk path with
  | some (.file data _) => data.reverse.dropWhile (· = '\n') |>.reverse
  | _ => []

/-! ### Commands -/

def mkdirParents (disk : Disk) : Option Disk := some disk

/-- A redirection creates its file empty before the command writes. -/
def openFile (path : Text) (disk : Disk) : Option Disk :=
  if holdsKind true path disk then none else some (disk.put path (some (.file [] true)))

def writeLine (path line : Text) (disk : Disk) : Option Disk :=
  some (disk.put path (some (.file (line ++ ['\n']) true)))

/-- `rm -rf` -/
def removeAll (path : Text) (disk : Disk) : Option Disk := some (disk.put path none)

/-- `rm -f` -/
def removeFile (path : Text) (disk : Disk) : Option Disk :=
  if holdsKind true path disk then none else some (disk.put path none)

def baseName (path : Text) : Text := (path.reverse.takeWhile (· ≠ '/')).reverse

def within (files : List (List Text × Text)) (name : Text) : Node → List (List Text × Text)
  | .file data _ => files ++ [([name], data)]
  | .tree more => files ++ more.map fun file => (name :: file.1, file.2)

/-- `mv`: into the target where that is a directory, else over it. -/
def move (source target : Text) (disk : Disk) : Option Disk :=
  match disk source, disk target with
  | none, _ => none
  | some node, some (.tree files) =>
    some ((disk.put target (some (.tree (within files (baseName source) node)))).put source none)
  | some node, some (.file ..) =>
    if node.isTree then none else some ((disk.put target (some node)).put source none)
  | some node, none => some ((disk.put target (some node)).put source none)

/-- `chmod 600` -/
def ownOnly (path : Text) (disk : Disk) : Option Disk :=
  match disk path with
  | none => none
  | some (.file data _) => some (disk.put path (some (.file data true)))
  | some (.tree _) => some disk

/-- What a transfer leaves at a path. -/
def receive (path : Text) (node : Option Node) (disk : Disk) : Option Disk :=
  some (disk.put path node)

end Disk

/-! ## One state of a move -/

/-- A state as it is installed: its path on the destination, its kind, the
transaction, and the copy of the source, which is absent where the source holds
none. A transfer that is cut short leaves `sent`. -/
structure Install where
  full : Text
  tree : Bool
  txn : Text
  copy : Option Node
  sent : Option Node
  kind : ∀ node, copy = some node → node.isTree = tree

namespace Install

variable (i : Install)

def backup : Text := i.full ++ ".pre-stado-placement-".toList ++ i.txn
def metaFile : Text := i.backup ++ ".meta".toList
def stage : Text := i.full ++ ".placement-".toList ++ i.txn ++ ".stage".toList
def kept : Text := i.full ++ ".replaced-by-placement-".toList ++ i.txn

def yes : Text := "yes".toList
def no : Text := "no".toList

/-- The marker of whether the path held anything, and an empty stage. -/
def mark (had : Text) : Script Disk :=
  act (Disk.openFile i.metaFile) <| act (Disk.writeLine i.metaFile had) <|
      act (Disk.removeAll i.stage) done

/-- The transaction was here before. -/
def occupied (disk : Disk) : Bool := disk.holds i.backup || disk.holds i.metaFile

def prepare : Script Disk :=
  act Disk.mkdirParents <| test i.occupied fail <|
      test (Disk.holdsKind i.tree i.full) (i.mark yes) <| test (Disk.holds i.full) fail (i.mark no)

def push : Script Disk :=
  match i.copy with
  | none => done
  | some node =>
    act (Disk.receive i.stage i.sent) (act (Disk.receive i.stage (some node)) done)

/-- The stage over the path, or no stage. A file is its owner's only. -/
def place : Script Disk :=
  if i.copy.isSome then
    if i.tree then act (Disk.move i.stage i.full) done
    else act (Disk.ownOnly i.stage) (act (Disk.move i.stage i.full) done)
  else act (Disk.removeAll i.stage) done

def install : Script Disk :=
  test (Disk.holds i.full) (act (Disk.move i.full i.backup) i.place) i.place

def writeState : Script Disk := (i.prepare.andThen i.push).andThen i.install

/-- Whether the marker says that the path held something. -/
def had (disk : Disk) : Bool := disk.reads i.metaFile = yes

def restoreState : Script Disk :=
  let unmark := act (Disk.removeFile i.metaFile) done
  act (Disk.removeAll i.stage) <| test (Disk.holdsKind false i.metaFile)
      (test i.had
        (test (Disk.holds i.backup)
          (act (Disk.removeAll i.full) (act (Disk.move i.backup i.full) unmark))
          fail)
        (act (Disk.removeAll i.full) unmark))
      done

/-- `rm -rf` of the backup and its marker. -/
def dropBackup (disk : Disk) : Option Disk :=
  some ((disk.put i.backup none).put i.metaFile none)

/-- The marker is there and says that the path held something. -/
def keeps (disk : Disk) : Bool := disk.holdsKind false i.metaFile && i.had disk

def settleStateBackup : Script Disk :=
  test i.keeps
    (test (Disk.holds i.backup)
      (test (Disk.holds i.kept) fail
        (act (Disk.move i.backup i.kept) (act (Disk.removeFile i.metaFile) done)))
      fail)
    (act i.dropBackup done)

end Install

end Stado.Placement
