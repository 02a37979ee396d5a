import AirLink.Program
import AirLink.RelayLoop
import Std.Async.Signal
import Std.Async.Timer
import Std.Async.UDP

/-! # The command line

The receiving program waits for relayed datagrams on a socket, writes the payloads to the standard
output or to a file, and writes its statistics to the standard error until it is interrupted.  Under
a name that ends in `keygen` the executable is the program that makes a pair of key files.
-/

namespace AirLink.CommandLine

open Std.Async

/-- The number by which the operating system names a failure; some failures carry it negated. -/
def failureCode? : IO.Error → Option Nat
  | .noFileOrDirectory _ code _ | .noSuchThing _ code _ | .permissionDenied _ code _
  | .inappropriateType _ code _ | .invalidArgument _ code _ | .resourceExhausted _ code _ =>
    some code.toInt32.toInt.natAbs
  | _ => none

/-- Does something with a file.  Failures that are not among the known ones remain exceptions. -/
def attempt {α : Type} (action : IO α) : IO (Except FileFault α) := do
  try
    return .ok (← action)
  catch failure =>
    match (failureCode? failure).bind FileFault.ofCode? with
    | some fault => return .error fault
    | none => throw failure

def host : Host IO where
  read path := attempt do return (← IO.FS.readBinFile path).toList
  write path content := attempt (IO.FS.writeBinFile path ⟨content.toArray⟩)

/-- Where the payloads go. -/
structure Outlet where
  stream : IO.FS.Stream
  /-- Writing has failed; nothing more is written. -/
  failed : Bool := false

namespace Outlet

/-- Opens the file for the payloads, or else the standard output. -/
def create (options : Options) : IO Outlet :=
  match options.output with
  | none => return { stream := ← IO.getStdout }
  | some path => return { stream := .ofHandle (← IO.FS.Handle.mk path .append) }

def write (outlet : Outlet) (payloads : List Bytes) : IO Outlet := do
  if outlet.failed then return outlet
  try
    for payload in payloads do
      outlet.stream.write ⟨payload.toArray⟩
      outlet.stream.flush
    return outlet
  catch _ => return { outlet with failed := true }

end Outlet

/-- A socket that receives what is sent to the endpoint.  A group is joined on the network interface
that the system chooses. -/
def listen (endpoint : Endpoint) : IO UDP.Socket := do
  let socket ← UDP.Socket.mk
  socket.bind (.v6 ⟨⟨Vector.replicate 8 0⟩, endpoint.service⟩)
  if endpoint.isGroup then
    socket.setMembership (.v6 ⟨endpoint.group⟩) none .enterGroup
  return socket

/-- An event that is still to come.  Receiving may fail. -/
abbrev Upcoming := Task (Except IO.Error LoopEvent)

def nextDatagram (socket : UDP.Socket) : IO Upcoming := do
  let received : Async LoopEvent := do
    let (bs, _) ← socket.recv (UInt64.ofNat Receiver.datagramBuffer)
    return .datagram (← IO.monoMsNow) bs.toList
  received.toIO

/-- The interruption of the program. -/
def interruption : IO Upcoming := do
  let signal ← Signal.Waiter.mk .sigint false
  return (← signal.wait).map fun _ => .shutdown

/-- The time for the next statistics line, if there are any. -/
def nextReport (settings : Settings) : IO (Option Upcoming) := do
  if settings.reportInterval = 0 then return none
  let passed : Async LoopEvent := do
    sleep (.ofNat settings.reportInterval)
    return .report
  return some (← passed.toIO)

def statistics (receiver : Receiver) (start now : Moment) : String :=
  receiver.counters.summary (some (Float.ofNat (now - start) / 1000))

/-- What the receiving program waits with. -/
structure Service where
  socket : UDP.Socket
  start : Moment
  shutdown : Upcoming

/-- Handles events until the program is interrupted. -/
partial def Service.run (service : Service) (datagram : Upcoming) (report : Option Upcoming)
    (outlet : Outlet) (receiver : Receiver) : IO Unit := do
  match ← IO.waitAny (service.shutdown :: (report.toList ++ [datagram])) (by simp) with
  | .ok (.datagram now bs) =>
    let (reception, receiver) := receiver.takeDatagram now bs
    let outlet ← outlet.write (Program.payloads [reception])
    service.run (← nextDatagram service.socket) report outlet receiver
  | .ok .report =>
    IO.eprintln (statistics receiver service.start (← IO.monoMsNow))
    service.run datagram (← nextReport receiver.settings) outlet receiver
  | .ok .shutdown => IO.eprintln (statistics receiver service.start (← IO.monoMsNow))
  | .error failure =>
    IO.eprintln (toString failure)
    service.run (← nextDatagram service.socket) report outlet receiver

def finish (ending : Ending) : IO UInt32 := do
  (← IO.getStdout).putStr ending.stdout
  if let some fault := ending.failure then IO.eprintln fault.line
  return UInt32.ofNat ending.exit

def receive (words : List String) : IO UInt32 := do
  let (invocation, ignored) := Options.parse words
  for word in ignored do
    IO.eprintln (Options.ignoredLine word)
  if let .invalid missed := invocation then IO.eprintln missed.message
  match ← Program.launch host words with
  | .over ending => finish ending
  | .listening receiver options =>
    let socket ← listen receiver.settings.endpoint
    let outlet ← Outlet.create options
    let service : Service := ⟨socket, ← IO.monoMsNow, ← interruption⟩
    service.run (← nextDatagram socket) (← nextReport receiver.settings) outlet receiver
    return 0

def makeKeys (words : List String) : IO UInt32 := do
  let key : IO Key := return Octets.fit 32 (← IO.getRandomBytes 32).toList
  finish (← Program.makeKeys host (← key) (← key) words)

end AirLink.CommandLine

/-- Runs the program that the executable is named for. -/
def main (args : List String) : IO UInt32 := do
  if ((← IO.appPath).fileName.getD "").endsWith "keygen" then AirLink.CommandLine.makeKeys args
  else AirLink.CommandLine.receive args
