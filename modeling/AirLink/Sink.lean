import AirLink.Bytes

/-! # Sinks for payloads

Two ways to get rid of decoded payloads.  A `WriterSink` writes them to an output that may fail: after
the first failure nothing more is written, so what has been written is always a beginning of the
stream.  A `QueueSink` hands them to another party through a queue of limited depth and drops what
does not fit.
-/

namespace AirLink

/-- What an output does with one attempt to write. -/
inductive WriteResult where
  /-- So many bytes were taken. -/
  | wrote (count : Nat)
  /-- The attempt was interrupted and is to be repeated. -/
  | interrupted
  | failed
  deriving DecidableEq, Repr

/-- An output, as far as a sink can tell: how it reacts to an attempt to write and to the request to
pass everything on. -/
structure Output (σ : Type) where
  write : σ → Bytes → WriteResult × σ
  flush : σ → Bool × σ
  /-- No more is taken than is there. -/
  count_le : ∀ {state bs count next}, write state bs = (.wrote count, next) → count ≤ bs.length

/-- How the writing of a string stands. -/
inductive Standing where
  | done
  | failed
  /-- There are more attempts to come. -/
  | pending
  deriving DecidableEq, Repr

namespace Output

/-- Writes a string piece by piece until all of it is taken.  Taking nothing counts as a failure.  An
output that interrupts again and again is never done with, so the attempts are limited in number; after
the last one the writing is still pending. -/
def writeAll {σ : Type} (output : Output σ) : Nat → σ → Bytes → Standing × σ
  | _, state, [] => (.done, state)
  | 0, state, _ => (.pending, state)
  | attempts + 1, state, bs =>
    match output.write state bs with
    | (.wrote 0, state) => (.failed, state)
    | (.wrote count, state) => output.writeAll attempts state (bs.drop count)
    | (.interrupted, state) => output.writeAll attempts state bs
    | (.failed, state) => (.failed, state)

end Output

structure WriterSink (σ : Type) where
  state : σ
  /-- What has become of the last payload.  Only a sink that is done with it takes another: after a failure
  all others are thrown away, and while a payload is pending there is no other. -/
  last : Standing := .done

namespace WriterSink

/-- Writes a payload and passes it on, with at most so many attempts. -/
def decode {σ : Type} (output : Output σ) (attempts : Nat) (sink : WriterSink σ) (payload : Bytes) :
    WriterSink σ :=
  if sink.last = .done then
    match output.writeAll attempts sink.state payload with
    | (.done, state) =>
      let (flushed, state) := output.flush state
      { state, last := if flushed then .done else .failed }
    | (last, state) => { state, last }
  else sink

/-- Writes payloads one after the other. -/
def decodeAll {σ : Type} (output : Output σ) (attempts : Nat) (sink : WriterSink σ) (payloads : List Bytes) :
    WriterSink σ :=
  payloads.foldl (decode output attempts) sink

end WriterSink

/-- An output with limited room that fails at given attempts. -/
structure LimitedOutput where
  capacity : Nat
  failures : List Nat
  attempts : Nat := 0
  written : Bytes := []

namespace LimitedOutput

/-- Takes what fits, unless the attempt is one that fails or there is no room left. -/
def write (o : LimitedOutput) (bs : Bytes) : WriteResult × LimitedOutput :=
  let next := { o with attempts := o.attempts + 1 }
  let room := o.capacity - o.written.length
  if o.attempts ∈ o.failures ∨ room = 0 then (.failed, next)
  else (.wrote (min room bs.length), { next with written := o.written ++ bs.take room })

theorem count_le_of_write {o next : LimitedOutput} {bs : Bytes} {count : Nat}
    (taken : o.write bs = (.wrote count, next)) : count ≤ bs.length := by
  unfold write at taken
  dsimp only at taken
  split at taken
  · simp at taken
  · simp only [Prod.mk.injEq, WriteResult.wrote.injEq] at taken
    omega

/-- The output as a sink sees it; passing on never fails. -/
def output : Output LimitedOutput where
  write := write
  flush o := (true, o)
  count_le := count_le_of_write

end LimitedOutput

/-- A queue of limited depth between a sink and the party that empties it. -/
structure QueueSink where
  capacity : Nat
  queue : List Bytes := []
  closed : Bool := false
  /-- Payloads that did not fit or that nobody was there to take. -/
  dropped : Nat := 0
  deriving DecidableEq, Repr

namespace QueueSink

/-- Puts a payload into the queue or drops it. -/
def decode (sink : QueueSink) (payload : Bytes) : QueueSink :=
  if sink.closed ∨ sink.capacity ≤ sink.queue.length then { sink with dropped := sink.dropped + 1 }
  else { sink with queue := sink.queue ++ [payload] }

/-- Takes the oldest payload out of the queue, if there is one. -/
def receive (sink : QueueSink) : Option Bytes × QueueSink :=
  match sink.queue with
  | [] => (none, sink)
  | payload :: queue => (some payload, { sink with queue })

/-- Ends the other party's interest, and with it what is still in the queue. -/
def close (sink : QueueSink) : QueueSink := { sink with closed := true, queue := [] }

end QueueSink

end AirLink
