import AirLink.FileTree
import AirLink.Options
import AirLink.RelayLoop
import AirLink.Text.Quoted

/-! # The programs

Two programs make up the receiving side of a link.  One receives: it reads its options and its keys,
waits for relayed datagrams and writes the payloads out.  The other makes a pair of key files.  Both
are written for any system that can read and write files, so that they can be run on real files as
well as on files in memory.
-/

namespace AirLink

/-- What the programs need of a system. -/
structure Host (m : Type → Type) where
  read : String → m (Except FileFault Bytes)
  /-- Writes a file, which is created or emptied first. -/
  write : String → Bytes → m (Except FileFault Unit)

/-- A system whose files are in memory. -/
def FileTree.host : Host (StateM FileTree) where
  read path := do return (← get).read path
  write path content := do
    match (← get).write path content with
    | .error cause => return .error cause
    | .ok tree =>
      set tree
      return .ok ()

inductive ProgramFault where
  | fault (cause : Fault)
  /-- The file for the payloads cannot be opened. -/
  | output (cause : FileFault)
  deriving DecidableEq, Repr

/-- The last line of a program that fails. -/
def ProgramFault.line (f : ProgramFault) : String :=
  "Error: " ++ match f with
    | .output cause => cause.record
    | .fault (.file cause) => "Io(" ++ cause.record ++ ")"
    | .fault (.keyFile cause) => "KeyFile(" ++ Quoted.render cause.message ++ ")"
    | .fault (.settings cause) => "Config(" ++ Quoted.render cause.message ++ ")"
    | .fault cause => cause.message

structure Ending where
  exit : Nat
  stdout : String := ""
  failure : Option ProgramFault := none
  deriving DecidableEq, Repr

namespace Ending

def failed (fault : ProgramFault) : Ending := { exit := 1, failure := some fault }

/-- A program that gives up on its command line. -/
def aborted : Ending := { exit := 101 }

end Ending

namespace Program

def loadKeys {m : Type → Type} [Monad m] (host : Host m) (path : String) :
    m (Except Fault LinkKeys) := do
  match ← host.read path with
  | .error cause => return .error (.keyFile (.unreadable path cause))
  | .ok content => return LinkKeys.ofBytes content

def saveKeys {m : Type → Type} [Monad m] (host : Host m) (path : String) (keys : LinkKeys) :
    m (Except Fault Unit) := do
  match ← host.write path keys.toBytes with
  | .error cause => return .error (.file cause)
  | .ok () => return .ok ()

/-- What starting the receiving program leads to. -/
inductive Launch where
  | over (ending : Ending)
  | listening (receiver : Receiver) (options : Options)

/-- Starts the receiving program: options, key file, settings and output file, in this order.  The
payloads go to a single decoder. -/
def launch {m : Type → Type} [Monad m] (host : Host m) (words : List String) : m Launch := do
  match (Options.parse words).1 with
  | .help => return .over { exit := 0, stdout := Options.helpText }
  | .invalid _ => return .over .aborted
  | .run options =>
    match ← loadKeys host options.keyFile with
    | .error fault => return .over (.failed (.fault fault))
    | .ok keys =>
      match Receiver.create options.settings keys >>= (·.attach .decoder) with
      | .error fault => return .over (.failed (.fault fault))
      | .ok receiver =>
        match options.output with
        | none => return .listening receiver options
        | some path =>
          match ← host.write path [] with
          | .error cause => return .over (.failed (.output cause))
          | .ok () => return .listening receiver options

/-- The payloads that the decoders were handed. -/
def payloads (receptions : List Reception) : List Bytes :=
  receptions.flatMap fun reception => reception.calls.filterMap fun
    | .decode _ payload => some payload
    | _ => none

/-- A name in a directory. -/
def inDirectory (directory name : String) : String :=
  if directory = "" ∨ directory.endsWith "/" then directory ++ name else directory ++ "/" ++ name

/-- The names of the two key files: that of the ground and that of the aircraft. -/
def groundFile : String := "gs.key"

@[inherit_doc groundFile] def aircraftFile : String := "drone.key"

/-- The program that makes a pair of key files in the directory that is its first word, or where it
is started, from two fresh secret keys. -/
def makeKeys {m : Type → Type} [Monad m] (host : Host m) (ground aircraft : Key)
    (words : List String) : m Ending := do
  let directory := words.headD "."
  let keys := LinkKeys.pair ground aircraft
  match ← saveKeys host (inDirectory directory groundFile) keys.1 with
  | .error fault => return .failed (.fault fault)
  | .ok () =>
    match ← saveKeys host (inDirectory directory aircraftFile) keys.2 with
    | .error fault => return .failed (.fault fault)
    | .ok () => return { exit := 0 }

end Program

end AirLink
