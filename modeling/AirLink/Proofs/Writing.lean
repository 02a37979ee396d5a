import AirLink.Sink
import Mathlib.Data.List.Basic

/-! # What a sink has written

An output is watched: whatever is asked of it is put on record, with what came of it.  However the output
behaves, the bytes that it has accepted are the beginning of the payloads, at every moment, also while a
payload is being written.  This is kept by what is done for one payload, and since nothing follows a
failure, by what is done for all of them.
-/

namespace AirLink

/-- Something that is asked of an output, and what comes of it. -/
inductive Request where
  | write (offered : Bytes) (result : WriteResult)
  | flush (passed : Bool)
  deriving DecidableEq, Repr

namespace Request

/-- The bytes that the output has accepted. -/
def bytes : Request → Bytes
  | .write offered (.wrote count) => offered.take count
  | _ => []

/-- An output fails by saying so, and also by taking nothing of what it is offered. -/
def fails : Request → Bool
  | .write _ (.wrote count) => count = 0
  | .write _ .interrupted => false
  | .write _ .failed => true
  | .flush passed => !passed

def isInterruption : Request → Bool
  | .write _ .interrupted => true
  | _ => false

theorem bytes_of_fails {request : Request} (h : request.fails = true) : request.bytes = [] := by
  match request with
  | .write offered (.wrote count) =>
      obtain rfl : count = 0 := by simpa [fails] using h
      rfl
  | .write _ .interrupted | .write _ .failed | .flush _ => rfl

end Request

/-- All bytes that have been accepted. -/
def accepted (requests : List Request) : Bytes := requests.flatMap Request.bytes

def interruptions (requests : List Request) : Nat := requests.countP Request.isInterruption

@[simp]
theorem accepted_nil : accepted [] = [] := rfl

@[simp]
theorem accepted_cons (request : Request) (requests : List Request) :
    accepted (request :: requests) = request.bytes ++ accepted requests := rfl

@[simp]
theorem accepted_append (requests others : List Request) :
    accepted (requests ++ others) = accepted requests ++ accepted others := List.flatMap_append

@[simp]
theorem interruptions_append (requests others : List Request) :
    interruptions (requests ++ others) = interruptions requests + interruptions others :=
  List.countP_append

/-- What has been accepted earlier is the beginning of what has been accepted later. -/
theorem accepted_mono {moment requests : List Request} (h : moment <+: requests) :
    accepted moment <+: accepted requests := by
  obtain ⟨later, rfl⟩ := h
  exact ⟨accepted later, (accepted_append ..).symm⟩

/-! ## The course of a writing -/

/-- What is asked of an output to write a string, as the writing stands: with at most so many attempts for
each of the payloads that the string is made of. -/
structure Course (attempts : Nat) (bs : Bytes) (last : Standing) (requests : List Request) : Prop where
  beginning : accepted requests <+: bs
  whole : last = .done → accepted requests = bs
  failed_iff : last = .failed ↔ ∃ request ∈ requests, request.fails = true
  /-- Nothing is asked after a failure. -/
  followed : requests.Pairwise fun request _ => request.fails = false
  /-- If there are more attempts to come, all that were allowed have been used up. -/
  spent : last = .pending → attempts ≤ interruptions requests + (accepted requests).length

namespace Course

variable {attempts : Nat} {bs cs : Bytes} {last : Standing} {requests others : List Request} {request : Request}

theorem nil_done : Course attempts [] .done [] := by
  constructor <;> simp

theorem nil_pending : Course 0 bs .pending [] := by
  constructor <;> simp

theorem single_failed (h : request.fails = true) : Course attempts bs .failed [request] := by
  constructor <;> simp [h, Request.bytes_of_fails h]

theorem single_flush (passed : Bool) :
    Course attempts [] (if passed then .done else .failed) [.flush passed] := by
  cases passed with
  | false => exact single_failed rfl
  | true => constructor <;> simp [Request.bytes, Request.fails]

/-- Nothing fails in a writing that has not failed. -/
theorem clean (h : Course attempts bs last requests) (going : last ≠ .failed) :
    ∀ request ∈ requests, request.fails = false := by
  intro request member
  by_contra bad
  exact going (h.failed_iff.mpr ⟨request, member, by simpa using bad⟩)

/-- An attempt that does not fail, in front of the others. -/
theorem cons (request : Request) (sound : request.fails = false)
    (used : 1 ≤ interruptions [request] + request.bytes.length) (rest : Course attempts cs last requests) :
    Course (attempts + 1) (request.bytes ++ cs) last (request :: requests) where
  beginning := (List.prefix_append_right_inj _).mpr rest.beginning
  whole done := by rw [accepted_cons, rest.whole done]
  failed_iff := by simp [rest.failed_iff, sound]
  followed := List.pairwise_cons.mpr ⟨fun _ _ => sound, rest.followed⟩
  spent pending := by
    have spent := rest.spent pending
    have parts := interruptions_append [request] requests
    simp only [List.singleton_append] at parts
    simp only [accepted_cons, List.length_append, parts]
    omega

theorem taken {count : Nat} (positive : count ≠ 0) (inside : count ≤ bs.length)
    (rest : Course attempts (bs.drop count) last requests) :
    Course (attempts + 1) bs last (.write bs (.wrote count) :: requests) := by
  have length : (Request.write bs (.wrote count)).bytes.length = count := by
    simp [Request.bytes, inside]
  have whole := rest.cons (.write bs (.wrote count)) (decide_eq_false positive) (by omega)
  rwa [Request.bytes, List.take_append_drop] at whole

theorem interrupted (rest : Course attempts bs last requests) :
    Course (attempts + 1) bs last (.write bs .interrupted :: requests) :=
  rest.cons (.write bs .interrupted) rfl (Nat.le_refl 1)

/-- One string is written after another. -/
theorem append (first : Course attempts bs .done requests) (second : Course attempts cs last others) :
    Course attempts (bs ++ cs) last (requests ++ others) := by
  have clean := first.clean (by decide)
  constructor
  · rw [accepted_append, first.whole rfl]
    exact (List.prefix_append_right_inj _).mpr second.beginning
  · intro done
    rw [accepted_append, first.whole rfl, second.whole done]
  · rw [second.failed_iff]
    constructor
    · rintro ⟨request, member, fails⟩
      exact ⟨request, List.mem_append_right _ member, fails⟩
    · rintro ⟨request, member, fails⟩
      rcases List.mem_append.mp member with early | late
      · simp [clean request early] at fails
      · exact ⟨request, late, fails⟩
  · exact List.pairwise_append.mpr ⟨first.followed, second.followed, fun request member _ _ => clean request member⟩
  · intro pending
    have spent := second.spent pending
    simp only [interruptions_append, accepted_append, List.length_append]
    omega

/-- While one string is not done with, those after it do not count. -/
theorem extend (h : Course attempts bs last requests) (unfinished : last ≠ .done) :
    Course attempts (bs ++ cs) last requests where
  beginning := h.beginning.trans (List.prefix_append ..)
  whole done := absurd done unfinished
  failed_iff := h.failed_iff
  followed := h.followed
  spent := h.spent

end Course

/-! ## Outputs on record -/

variable {σ : Type} {attempts n : Nat} {state : σ} {history : List Request}

/-- The same output with a record of what is asked of it. -/
def Output.recorded (output : Output σ) : Output (σ × List Request) where
  write := fun (state, history) bs =>
    let (result, next) := output.write state bs
    (result, next, history ++ [.write bs result])
  flush := fun (state, history) =>
    let (passed, next) := output.flush state
    (passed, next, history ++ [.flush passed])
  count_le taken := by
    simp only [Prod.mk.injEq] at taken
    exact output.count_le (Prod.ext taken.1 rfl)

namespace Output

variable {output : Output σ}

@[simp]
theorem write_recorded (output : Output σ) (state : σ) (history : List Request) (bs : Bytes) :
    output.recorded.write (state, history) bs = ((output.write state bs).1, (output.write state bs).2,
      history ++ [.write bs (output.write state bs).1]) := rfl

@[simp]
theorem flush_recorded (output : Output σ) (state : σ) (history : List Request) :
    output.recorded.flush (state, history) = ((output.flush state).1, (output.flush state).2,
      history ++ [.flush (output.flush state).1]) := rfl

/-- The record does not change what is done, and it shows the course of the writing. -/
theorem writeAll_recorded (output : Output σ) (attempts : Nat) (state : σ) (history : List Request) (bs : Bytes) :
    ∃ requests, output.recorded.writeAll attempts (state, history) bs =
        ((output.writeAll attempts state bs).1, (output.writeAll attempts state bs).2, history ++ requests) ∧
      Course attempts bs (output.writeAll attempts state bs).1 requests := by
  -- On the attempts: a request comes behind the history and in front of the requests that follow it.
  fun_induction output.writeAll attempts state bs generalizing history with
  | case1 attempts state => exact ⟨[], by simp [writeAll], .nil_done⟩
  | case2 state bs some => exact ⟨[], by simp [writeAll], .nil_pending⟩
  | case3 attempts state bs some next result =>
      refine ⟨[.write bs (.wrote 0)], ?_, .single_failed rfl⟩
      simp [writeAll, result]
  | case4 attempts state bs some count next positive result ih =>
      obtain ⟨requests, done, course⟩ := ih (history ++ [.write bs (.wrote count)])
      refine ⟨.write bs (.wrote count) :: requests, ?_, course.taken positive (output.count_le result)⟩
      simpa [writeAll, result] using done
  | case5 attempts state bs some next result ih =>
      obtain ⟨requests, done, course⟩ := ih (history ++ [.write bs .interrupted])
      refine ⟨.write bs .interrupted :: requests, ?_, course.interrupted⟩
      simpa [writeAll, result] using done
  | case6 attempts state bs some next result =>
      refine ⟨[.write bs .failed], ?_, .single_failed rfl⟩
      simp [writeAll, result]

/-- Once a writing is over, more attempts change nothing. -/
theorem writeAll_add (more : Nat) {bs : Bytes} (ended : (output.writeAll n state bs).1 ≠ .pending) :
    output.writeAll (n + more) state bs = output.writeAll n state bs := by
  fun_induction output.writeAll n state bs with
  | case1 attempts state => simp [writeAll]
  | case2 state bs some => exact absurd rfl ended
  | case3 attempts state bs some next result => simp [Nat.succ_add, writeAll, result]
  | case4 attempts state bs some count next positive result ih =>
      simpa [Nat.succ_add, writeAll, result] using ih ended
  | case5 attempts state bs some next result ih => simpa [Nat.succ_add, writeAll, result] using ih ended
  | case6 attempts state bs some next result => simp [Nat.succ_add, writeAll, result]

/-- As long as it is not, they only add to the record. -/
theorem writeAll_grows (n more : Nat) (start : σ × List Request) (bs : Bytes) :
    (output.recorded.writeAll n start bs).2.2 <+: (output.recorded.writeAll (n + more) start bs).2.2 := by
  fun_induction output.recorded.writeAll n start bs with
  | case1 attempts start => simp [writeAll]
  | case2 start bs some =>
      obtain ⟨requests, done, -⟩ := writeAll_recorded output (0 + more) start.1 start.2 bs
      rw [done]
      exact List.prefix_append ..
  | case3 attempts start bs some next result => simp [Nat.succ_add, writeAll, result]
  | case4 attempts start bs some count next positive result ih => simpa [Nat.succ_add, writeAll, result] using ih
  | case5 attempts start bs some next result ih => simpa [Nat.succ_add, writeAll, result] using ih
  | case6 attempts start bs some next result => simp [Nat.succ_add, writeAll, result]

end Output

namespace WriterSink

variable {output : Output σ} {sink : WriterSink σ}

/-- A sink whose output is on record. -/
def recorded (sink : WriterSink σ) (history : List Request) : WriterSink (σ × List Request) :=
  { state := (sink.state, history), last := sink.last }

theorem decode_of_ne_done (unfinished : sink.last ≠ .done) (payload : Bytes) :
    decode output attempts sink payload = sink := if_neg unfinished

@[simp]
theorem decodeAll_cons (output : Output σ) (attempts : Nat) (sink : WriterSink σ) (payload : Bytes)
    (payloads : List Bytes) : decodeAll output attempts sink (payload :: payloads) =
      decodeAll output attempts (decode output attempts sink payload) payloads := rfl

theorem decodeAll_of_ne_done (unfinished : sink.last ≠ .done) (payloads : List Bytes) :
    decodeAll output attempts sink payloads = sink := by
  induction payloads with
  | nil => rfl
  | cons payload payloads ih => rwa [decodeAll_cons, decode_of_ne_done unfinished]

theorem decode_recorded (output : Output σ) (attempts : Nat) (ready : sink.last = .done)
    (history : List Request) (payload : Bytes) :
    ∃ requests, decode output.recorded attempts (sink.recorded history) payload =
        (decode output attempts sink payload).recorded (history ++ requests) ∧
      Course attempts payload (decode output attempts sink payload).last requests := by
  obtain ⟨requests, done, course⟩ := output.writeAll_recorded attempts sink.state history payload
  cases written : output.writeAll attempts sink.state payload with
  | mk last state =>
      rw [written] at done course
      cases last with
      | done =>
          refine ⟨requests ++ [.flush (output.flush state).1], ?_, ?_⟩
          · simp [decode, recorded, ready, done, written]
          · simpa [decode, ready, written] using course.append (.single_flush (output.flush state).1)
      | failed | pending =>
          refine ⟨requests, ?_, ?_⟩
          · simp [decode, recorded, ready, done, written]
          · simpa [decode, ready, written] using course

/-- All payloads are written one after the other, or a beginning of them. -/
theorem decodeAll_recorded (output : Output σ) (attempts : Nat) (sink : WriterSink σ) (ready : sink.last = .done)
    (history : List Request) (payloads : List Bytes) :
    ∃ requests, decodeAll output.recorded attempts (sink.recorded history) payloads =
        (decodeAll output attempts sink payloads).recorded (history ++ requests) ∧
      Course attempts payloads.flatten (decodeAll output attempts sink payloads).last requests := by
  induction payloads generalizing sink history with
  | nil =>
      refine ⟨[], by simp [decodeAll], ?_⟩
      rw [decodeAll, List.foldl_nil, ready]
      exact .nil_done
  | cons payload payloads ih =>
      obtain ⟨requests, done, course⟩ := decode_recorded output attempts ready history payload
      simp only [decodeAll_cons, List.flatten_cons, done]
      by_cases finished : (decode output attempts sink payload).last = .done
      · obtain ⟨others, all, rest⟩ := ih _ finished (history ++ requests)
        refine ⟨requests ++ others, by rw [all, List.append_assoc], ?_⟩
        rw [finished] at course
        exact course.append rest
      · refine ⟨requests, ?_, ?_⟩
        · rw [decodeAll_of_ne_done finished]
          exact decodeAll_of_ne_done (show (recorded _ _).last ≠ .done from finished) payloads
        · rw [decodeAll_of_ne_done finished]
          exact course.extend finished

/-! ## More attempts -/

variable {watched : WriterSink (σ × List Request)} {payload : Bytes}

theorem decode_of_pending (ready : sink.last = .done)
    (pending : (output.writeAll attempts sink.state payload).1 = .pending) :
    decode output attempts sink payload =
      { state := (output.writeAll attempts sink.state payload).2, last := .pending } := by
  cases written : output.writeAll attempts sink.state payload with
  | mk last state =>
      obtain rfl : last = .pending := by simpa [written] using pending
      simp [decode, ready, written]

theorem decode_add (more : Nat) (ended : (output.writeAll n sink.state payload).1 ≠ .pending) :
    decode output (n + more) sink payload = decode output n sink payload := by
  unfold decode
  rw [output.writeAll_add more ended]

/-- A call adds to the record what its writing does. -/
theorem writeAll_prefix_decode (ready : watched.last = .done) :
    (output.recorded.writeAll attempts watched.state payload).2.2 <+:
      (decode output.recorded attempts watched payload).state.2 := by
  cases written : output.recorded.writeAll attempts watched.state payload with
  | mk last after =>
      obtain ⟨state, history⟩ := after
      cases last with
      | done => simp [decode, ready, written]
      | failed | pending => simp [decode, ready, written]

theorem prefix_decodeAll (payloads : List Bytes) :
    watched.state.2 <+: (decodeAll output.recorded attempts watched payloads).state.2 := by
  by_cases ready : watched.last = .done
  · obtain ⟨requests, done, -⟩ :=
      decodeAll_recorded output attempts ⟨watched.state.1, watched.last⟩ ready watched.state.2 payloads
    have extended : (decodeAll output.recorded attempts watched payloads).state.2 = watched.state.2 ++ requests :=
      congrArg (·.state.2) done
    rw [extended]
    exact List.prefix_append ..
  · simp [decodeAll_of_ne_done ready]

/-- With more attempts for each payload the record goes on where it ended. -/
theorem decodeAll_grows (n more : Nat) (watched : WriterSink (σ × List Request)) (payloads : List Bytes) :
    (decodeAll output.recorded n watched payloads).state.2 <+:
      (decodeAll output.recorded (n + more) watched payloads).state.2 := by
  induction payloads generalizing watched with
  | nil => exact List.prefix_rfl
  | cons payload payloads ih =>
      rw [decodeAll_cons, decodeAll_cons]
      by_cases ready : watched.last = .done
      -- A payload that is pending is the last one that is begun; one that is not is written the same way.
      · by_cases pending : (output.recorded.writeAll n watched.state payload).1 = .pending
        · rw [decode_of_pending ready pending, decodeAll_of_ne_done (by simp)]
          have within := output.writeAll_grows n more watched.state payload
          exact (within.trans (writeAll_prefix_decode ready)).trans (prefix_decodeAll payloads)
        · rw [decode_add more pending]
          exact ih _
      · rw [decode_of_ne_done ready, decode_of_ne_done ready]
        exact ih _

/-! ## No gap -/

/-- Whatever an output does, what it has accepted has no gap.  `history attempts` is all that has been asked of
it when each payload has been given so many attempts; what more attempts bring comes behind it, so every moment
is a beginning of one of these records.  At each of them the bytes that have been accepted are a beginning of
the payloads; if nothing has failed and no payload is pending they are all of them; and nothing is asked any
more after a failure.  Only an output that interrupts again and again keeps a payload pending. -/
theorem written_gapless (output : Output σ) (start : σ) (payloads : List Bytes) :
    ∃ history : Nat → List Request,
      (∀ attempts more, history attempts <+: history (attempts + more)) ∧
      ∀ attempts,
        let sink : WriterSink σ := decodeAll output attempts { state := start } payloads
        decodeAll output.recorded attempts { state := (start, []) } payloads =
          { state := (sink.state, history attempts), last := sink.last } ∧
        (∀ moment, moment <+: history attempts → accepted moment <+: payloads.flatten) ∧
        (sink.last ≠ .pending → (∀ request ∈ history attempts, request.fails = false) →
          accepted (history attempts) = payloads.flatten) ∧
        (sink.last = .failed ↔ ∃ request ∈ history attempts, request.fails = true) ∧
        (∀ before request later, history attempts = before ++ request :: later → request.fails = true → later = []) ∧
        (sink.last = .pending →
          attempts ≤ interruptions (history attempts) + (accepted (history attempts)).length) := by
  let begun : WriterSink σ := { state := start }
  refine ⟨fun attempts => (decodeAll output.recorded attempts (begun.recorded []) payloads).state.2,
    fun attempts more => decodeAll_grows attempts more _ payloads, fun attempts => ?_⟩
  obtain ⟨requests, done, course⟩ := decodeAll_recorded output attempts begun rfl [] payloads
  have own : (decodeAll output.recorded attempts (begun.recorded []) payloads).state.2 = requests :=
    congrArg (·.state.2) done
  simp only [own]
  refine ⟨done, ?_, ?_, course.failed_iff, ?_, course.spent⟩
  · intro moment earlier
    exact (accepted_mono earlier).trans course.beginning
  · intro ended clean
    cases last : (decodeAll output attempts begun payloads).last with
    | done => exact course.whole last
    | failed =>
        obtain ⟨request, member, fails⟩ := course.failed_iff.mp last
        simp [clean request member] at fails
    | pending => exact absurd last ended
  · rintro before request later rfl fails
    have followed := (List.pairwise_append.mp course.followed).2.1
    by_contra more
    obtain ⟨next, others, rfl⟩ := List.exists_cons_of_ne_nil more
    have passed := List.rel_of_pairwise_cons followed (List.mem_cons_self ..)
    simp [fails] at passed

/-- A payload that fails is missing with all that come after it, although the output would take those. -/
example : (decodeAll LimitedOutput.output 4 { state := { capacity := 3, failures := [2] } }
    [[1], [2], [3, 4], [5]]).state.written = [1, 2] := by decide

end WriterSink

end AirLink
