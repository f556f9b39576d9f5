import PipedCompiler.Table
import PipedCompiler.Text.Utf8

/-!
# Trees of files

Directories and files, and the paths that lead to them.  A path is walked step by step, and every
step starts from a directory, so a path that goes on behind a file leads nowhere.
-/

namespace PipedCompiler

open PipedCompiler.Text

/-- What can be found at a place. -/
inductive FileNode where
  | file (bs : Bytes)
  | directory
  /-- A file that can be neither read nor written, and why. -/
  | unreadable (cause : String)

/-- Files and directories.  Each is known by its place: its absolute path, without any steps that
stay or go up.  The place of the root is empty. -/
structure FileTree where
  nodes : Table FileNode
  /-- The place that relative paths start from. -/
  current : String

namespace FileTree

/-- The tree of an empty root directory. -/
def empty : FileTree := ⟨.empty, ""⟩

/-- What is at a place. -/
def node? (t : FileTree) (place : String) : Option FileNode :=
  if place = "" then some .directory else t.nodes.get? place

/-- Whether a place is a directory. -/
def isDirectoryAt (t : FileTree) (place : String) : Bool :=
  match t.node? place with
  | some .directory => true
  | _ => false

/-- Whether a place is a file that can be neither read nor written. -/
def isUnreadableAt (t : FileTree) (place : String) : Bool :=
  match t.node? place with
  | some (.unreadable _) => true
  | _ => false

/-- The place of a name in a directory. -/
def child (place name : String) : String :=
  place ++ "/" ++ name

/-- The directory of a place; that of the root is the root. -/
def parent (place : String) : String :=
  String.ofList ((place.toList.reverse.dropWhile (· ≠ '/')).drop 1).reverse

/-- The most bytes that a name may have. -/
def nameLimit : Nat := 255

/-- The most bytes that a path may have. -/
def pathLimit : Nat := 4095

/-- The steps of a path. -/
def steps (path : String) : List String :=
  (path.toList.splitOn '/').map String.ofList

/-- Whether the system takes the path at all. -/
def isAcceptable (path : String) : Bool :=
  path ≠ "" && !path.toList.contains '\x00' && path.utf8ByteSize ≤ pathLimit
    && (steps path).all (·.utf8ByteSize ≤ nameLimit)

/-- Whether the path starts at the root. -/
def isAbsolute (path : String) : Bool :=
  path.toList.head? == some '/'

/-- The path that a path leads to from a directory. -/
def join (directory path : String) : String :=
  if isAbsolute path || directory = "" then path
  else if directory.toList.getLast? = some '/' then directory ++ path
  else directory ++ "/" ++ path

/-- The place that a path starts from. -/
def startOf (t : FileTree) (path : String) : String :=
  if isAbsolute path then "" else t.current

/-- Where one step leads to, whether there is something or not. -/
def step (place name : String) : String :=
  if name = "" || name = "." then place
  else if name = ".." then parent place
  else child place name

/-- Walks from a place, every step from a directory. -/
def walk (t : FileTree) (place : String) : List String → Option String
  | [] => some place
  | name :: names => if t.isDirectoryAt place then walk t (step place name) names else none

/-- The place that a path leads to, whether there is something or not. -/
def placeOf? (t : FileTree) (path : String) : Option String :=
  if isAcceptable path then t.walk (t.startOf path) (steps path) else none

/-- What a path leads to. -/
def find? (t : FileTree) (path : String) : Option FileNode :=
  (t.placeOf? path).bind t.node?

/-- Whether a path leads to a file. -/
def isFile (t : FileTree) (path : String) : Bool :=
  match t.find? path with
  | some (.file _) => true
  | some (.unreadable _) => true
  | _ => false

/-- The bytes of the file that a path leads to. -/
def read? (t : FileTree) (path : String) : Option Bytes :=
  match t.find? path with
  | some (.file bs) => some bs
  | _ => none

/-- The tree with something else at a place. -/
def put (t : FileTree) (place : String) (n : FileNode) : FileTree :=
  { t with nodes := t.nodes.insert place n }

/-- Whether the last step of a path names something. -/
def endsInName (path : String) : Bool :=
  match (steps path).getLast? with
  | some name => name ≠ "" && name ≠ "." && name ≠ ".."
  | none => false

/-- The tree with a file written, unless there is no place for it, or something in its place that
cannot be written. -/
def write? (t : FileTree) (path : String) (bs : Bytes) : Option FileTree := do
  let place ← t.placeOf? path
  if !endsInName path || t.isUnreadableAt place || t.isDirectoryAt place then none
  else some (t.put place (.file bs))

/-- Walks from a place, making the directories that are missing. -/
def makeDirectories (t : FileTree) (place : String) : List String → Option FileTree
  | [] => some t
  | name :: names =>
    let next := step place name
    match t.node? next with
    | some .directory => t.makeDirectories next names
    | some _ => none
    | none => (t.put next .directory).makeDirectories next names

/-- The tree with a directory, and with all directories that lead to it. -/
def createDirectories? (t : FileTree) (path : String) : Option FileTree :=
  if path = "" then some t
  else if isAcceptable path then t.makeDirectories (t.startOf path) (steps path)
  else none

/-- Why a directory cannot be made. -/
def directoryFault (t : FileTree) (path : String) : String :=
  if path.toList.contains '\x00' then "file name contained an unexpected NUL byte"
  else if !isAcceptable path then "File name too long (os error 36)"
  else if t.isFile path then "File exists (os error 17)"
  else "Not a directory (os error 20)"

/-- The path without its last step. -/
def directoryOf (path : String) : String :=
  String.ofList (path.toList.reverse.dropWhile (· ≠ '/')).reverse

/-- The tree with a file, and with all directories that lead to it; unchanged if there is no place
for it. -/
def place (t : FileTree) (path : String) (bs : Bytes) : FileTree :=
  match t.createDirectories? (directoryOf path) with
  | some t => (t.write? path bs).getD t
  | none => t

/-- The tree without the file that a path leads to. -/
def removeFile (t : FileTree) (path : String) : FileTree :=
  match t.placeOf? path with
  | some place => if t.isDirectoryAt place then t else { t with nodes := t.nodes.erase place }
  | none => t

/-- Whether a place lies below another. -/
def isBelow (directory place : String) : Bool :=
  (child directory "").toList.isPrefixOf place.toList

/-- The tree without the directory that a path leads to, and without all that is in it. -/
def removeDirectory (t : FileTree) (path : String) : FileTree :=
  match t.placeOf? path with
  | some directory =>
    if t.isDirectoryAt directory then
      { t with nodes := ⟨t.nodes.entries.filter fun e =>
          e.1 ≠ directory && !isBelow directory e.1⟩ }
    else t
  | none => t

/-- The paths of all files below a place, relative to it and in order. -/
def filesBelow (t : FileTree) (directory : String) : List String :=
  let paths := t.nodes.entries.filterMap fun e =>
    match e.2 with
    | .directory => none
    | _ =>
      if isBelow directory e.1 then
        some (String.ofList (e.1.toList.drop (directory.length + 1)))
      else none
  paths.mergeSort fun a b => a ≤ b

end FileTree

end PipedCompiler
