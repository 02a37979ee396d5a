import AirLink.Bytes
import AirLink.Path

/-! # Files in memory

A tree of files and directories that lives in memory, with the rules by which a path leads to one of
them: every step but the last must lead to a directory, nothing lies above the root, a link leads on
to what it names, and a path that ends in a slash leads to no file.
-/

namespace AirLink

/-- A file that keeps nothing. -/
inductive Device where
  /-- Takes everything. -/
  | drain
  /-- Has no room for anything. -/
  | full
  /-- Has nothing behind it and cannot be opened. -/
  | detached
  deriving DecidableEq, Repr

namespace Device

def read : Device → Except FileFault Bytes
  | drain | full => .ok []
  | detached => .error .noDevice

def write (device : Device) (content : Bytes) : Except FileFault Unit :=
  match device with
  | drain => .ok ()
  | full => if content = [] then .ok () else .error .noSpace
  | detached => .error .noDevice

end Device

/-- Where something is in a tree, as the names that lead to it from the root. -/
abbrev Place := List String

/-- What is found in a tree. -/
inductive FileNode where
  | file (content : Bytes)
  /-- A directory.  If the system itself keeps it, no file can be created in it, for a reason. -/
  | directory (refusal : Option FileFault := none)
  | device (device : Device)
  /-- Another name for what is at a place, which is no link itself. -/
  | link (target : Place)
  deriving DecidableEq, Repr

/-- The nodes of a tree by their places.  At the root there is always a directory. -/
structure FileTree where
  nodes : List (Place × FileNode)
  /-- The directory in which paths start that do not start at the root. -/
  home : Place

namespace FileTree

def node? (t : FileTree) (place : Place) : Option FileNode :=
  if place = [] then some .directory
  else (t.nodes.find? (·.1 = place)).map (·.2)

def put (t : FileTree) (place : Place) (node : FileNode) : FileTree :=
  { t with nodes := (place, node) :: t.nodes.filter (·.1 ≠ place) }

theorem node?_put_self (t : FileTree) (place : Place) (node : FileNode) (h : place ≠ []) :
    (t.put place node).node? place = some node := by
  simp [put, node?, h]

/-- Why no file can be created in a directory, if the system keeps it. -/
def refusal? (t : FileTree) (directory : Place) : Option FileFault :=
  match t.node? directory with
  | some (.directory refusal) => refusal
  | _ => none

/-- Creates a file or a directory in a directory, unless the system refuses it. -/
def create (t : FileTree) (directory : Place) (name : String) (node : FileNode) :
    Except FileFault FileTree :=
  match t.refusal? directory with
  | some refusal => .error refusal
  | none => .ok (t.put (directory ++ [name]) node)

/-- What has a name in a directory, and where it is.  Links are followed.  The length of names is
limited where they can be given. -/
def find (t : FileTree) (directory : Place) (name : String) :
    Except FileFault (Place × Option FileNode) :=
  if t.refusal? directory = none ∧ Path.longestName < name.utf8ByteSize then .error .nameTooLong
  else
    let place := directory ++ [name]
    match t.node? place with
    | some (.link target) => .ok (target, t.node? target)
    | node => .ok (place, node)

/-- Follows steps that must all lead to directories. -/
def walk (t : FileTree) : Place → List PathStep → Except FileFault Place
  | place, [] => .ok place
  | place, .stay :: steps => t.walk place steps
  | place, .up :: steps => t.walk place.dropLast steps
  | place, .down name :: steps => do
    match ← t.find place name with
    | (next, some (.directory _)) => t.walk next steps
    | (_, some _) => throw .notADirectory
    | (_, none) => throw .notFound

def start (t : FileTree) (path : Path) : Place := if path.absolute then [] else t.home

def read (t : FileTree) (text : String) : Except FileFault Bytes := do
  let path ← Path.parse text
  let directory ← t.walk (t.start path) path.directories
  match path.name with
  | none => throw .isADirectory
  | some name =>
    match (← t.find directory name).2 with
    | some (.directory _) => throw .isADirectory
    | some (.file content) => if path.slashed then throw .notADirectory else return content
    | some (.device device) => if path.slashed then throw .notADirectory else device.read
    | _ => throw .notFound

/-- Writes a file, which is created if there is none. -/
def write (t : FileTree) (text : String) (content : Bytes) : Except FileFault FileTree := do
  let path ← Path.parse text
  let directory ← t.walk (t.start path) path.directories
  match path.name with
  | none => throw .isADirectory
  | some name =>
    if path.slashed then throw .isADirectory
    match ← t.find directory name with
    | (_, none) => t.create directory name (.file content)
    | (_, some (.directory _)) => throw .isADirectory
    | (_, some (.device device)) =>
      device.write content
      return t
    | (place, some _) => return t.put place (.file content)

/-- Makes the directories that steps lead through, unless they are there. -/
def makeAlong : FileTree → Place → List PathStep → Except FileFault FileTree
  | t, _, [] => .ok t
  | t, place, .stay :: steps => t.makeAlong place steps
  | t, place, .up :: steps => t.makeAlong place.dropLast steps
  | t, place, .down name :: steps => do
    match ← t.find place name with
    | (next, some (.directory _)) => t.makeAlong next steps
    | (_, some _) => throw .notADirectory
    | (next, none) => (← t.create place name .directory).makeAlong next steps

/-- Makes a directory and those on the way to it. -/
def makeDirectory (t : FileTree) (text : String) : Except FileFault FileTree := do
  let path ← Path.parse text
  t.makeAlong (t.start path) path.steps

def list (t : FileTree) (text : String) : Except FileFault (List String) := do
  let path ← Path.parse text
  let place ← t.walk (t.start path) path.steps
  let names := t.nodes.filterMap fun (spot, node) =>
    match node with
    | .file _ => if spot.dropLast = place then spot.getLast? else none
    | _ => none
  return names.mergeSort fun a b => decide (a ≤ b)

end FileTree

end AirLink
