/-! # Failures of the file system

What can go wrong when a file is opened or written, with the number, the kind and the text by which
the operating system names it.
-/

namespace AirLink

inductive FileFault where
  | notFound
  | noDevice
  | permissionDenied
  | notADirectory
  | isADirectory
  | noSpace
  | nameTooLong
  /-- The path holds a NUL, at which the operating system would take it to end. -/
  | invalidName
  deriving DecidableEq, Repr

namespace FileFault

/-- The number of the failure, unless it is found before the operating system is asked. -/
def code : FileFault → Option Nat
  | notFound => some 2
  | noDevice => some 6
  | permissionDenied => some 13
  | notADirectory => some 20
  | isADirectory => some 21
  | noSpace => some 28
  | nameTooLong => some 36
  | invalidName => none

def ofCode? (code : Nat) : Option FileFault :=
  [notFound, noDevice, permissionDenied, notADirectory, isADirectory, noSpace, nameTooLong].find?
    (·.code = some code)

theorem ofCode?_eq_some_iff (code : Nat) (fault : FileFault) :
    ofCode? code = some fault ↔ fault.code = some code := by
  constructor
  · intro h
    simpa using List.find?_some h
  · intro h
    cases fault <;> cases h <;> rfl

def kind : FileFault → String
  | notFound => "NotFound"
  | noDevice => "Uncategorized"
  | permissionDenied => "PermissionDenied"
  | notADirectory => "NotADirectory"
  | isADirectory => "IsADirectory"
  | noSpace => "StorageFull"
  | nameTooLong => "InvalidFilename"
  | invalidName => "InvalidInput"

def description : FileFault → String
  | notFound => "No such file or directory"
  | noDevice => "No such device or address"
  | permissionDenied => "Permission denied"
  | notADirectory => "Not a directory"
  | isADirectory => "Is a directory"
  | noSpace => "No space left on device"
  | nameTooLong => "File name too long"
  | invalidName => "file name contained an unexpected NUL byte"

/-- The description with the number, as it stands in messages. -/
def message (fault : FileFault) : String :=
  match fault.code with
  | some code => fault.description ++ " (os error " ++ toString code ++ ")"
  | none => fault.description

/-- The record of number, kind and description, as it stands in a program's last line. -/
def record (fault : FileFault) : String :=
  let about := "kind: " ++ fault.kind ++ ", message: \"" ++ fault.description ++ "\" \x7d"
  match fault.code with
  | some code => "Os \x7b code: " ++ toString code ++ ", " ++ about
  | none => "Error \x7b " ++ about

end FileFault

end AirLink
