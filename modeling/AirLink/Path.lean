import AirLink.FileFault

/-! # Paths

A path is a text that says how to get to a file, step by step, with slashes between the steps.
-/

namespace AirLink

/-- One step of a path. -/
inductive PathStep where
  | stay
  | up
  | down (name : String)
  deriving DecidableEq, Repr

def PathStep.ofText (text : String) : PathStep :=
  if text = "." then .stay else if text = ".." then .up else .down text

/-- A path.  It leads through directories to a name in the last of them, or to that directory
itself. -/
structure Path where
  /-- The way starts at the root. -/
  absolute : Bool
  directories : List PathStep
  name : Option String
  /-- The path ends in a slash, so that its name can only be that of a directory. -/
  slashed : Bool
  deriving DecidableEq, Repr

namespace Path

/-- The longest path and the longest name in it, in bytes. -/
def longest : Nat := 4095

@[inherit_doc longest] def longestName : Nat := 255

/-- Takes a path apart.  Repeated slashes count as one. -/
def parse (text : String) : Except FileFault Path :=
  if text.toList.contains '\x00' then .error .invalidName
  else if text = "" then .error .notFound
  else if longest < text.utf8ByteSize then .error .nameTooLong
  else
    let steps := ((text.splitOn "/").filter (· ≠ "")).map PathStep.ofText
    let absolute := text.startsWith "/"
    let slashed := text.endsWith "/"
    match steps.getLast? with
    | some (.down name) => .ok { absolute, directories := steps.dropLast, name, slashed }
    | _ => .ok { absolute, directories := steps, name := none, slashed }

def steps (path : Path) : List PathStep :=
  match path.name with
  | some name => path.directories ++ [.down name]
  | none => path.directories

end Path

end AirLink
