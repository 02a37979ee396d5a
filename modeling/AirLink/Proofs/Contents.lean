import AirLink.Proofs.Blocks
import AirLink.Proofs.Admission

/-! # What a block delivers

The buffers of a block that the transmitter has sent hold its payloads, those that arrived and those
that were filled in alike.  So what leaves the block are the payloads of the places that leave, up to
its cursor and, once a fragment has been stored, as much more as is there or can be rebuilt.
-/

namespace AirLink

/-- The payloads that some departures deliver, each with its block and its place. -/
def Emission.carried (es : List Emission) : List (Nat × Nat × Bytes) :=
  (es.filterMap Emission.delivery?).map fun d => (d.block, d.fragment, d.payload)

theorem Emission.carried_append (first second : List Emission) :
    carried (first ++ second) = carried first ++ carried second := by
  simp [carried]

theorem Emission.carried_lost (block : Nat) (places : List Nat) :
    carried (places.map (Emission.lost block)) = [] := by
  simp [carried, List.filterMap_map, delivery?]

namespace Slot

open ErasureCode
open Transmitter (longest fragmentOf)

def payloadAt (block : Nat) (payloads : List Bytes) (i : Nat) : Option (Nat × Nat × Bytes) :=
  payloads[i]?.map fun payload => (block, i, payload)

variable {t : Transmitter} {payloads : List Bytes} {s : Slot} {block size : Nat}

theorem fit_of_le {bs : Bytes} (le : bs.length ≤ size) :
    Bytes.fit size bs = bs ++ Bytes.zeros (size - bs.length) := by
  rw [Bytes.fit, List.take_of_length_le le]

theorem carried_departure {mode : Mode} {i : Nat}
    (holds : s.has i = true ∨ mode = .rebuilt → payload? (s.bufferOf i) = payloads[i]?) :
    (s.departure mode block i).delivery?.map (fun d => (d.block, d.fragment, d.payload)) =
      if s.has i || mode = .rebuilt then payloadAt block payloads i else none := by
  unfold departure
  by_cases present : s.has i = true
  · rw [if_pos present, if_pos (by simp [present]), Emission.delivery?, holds (.inl present),
      Option.map_map]
    rfl
  · by_cases filled : mode = .rebuilt
    · rw [if_neg present, if_pos filled, if_pos (by simp [filled]), Emission.delivery?,
        holds (.inr filled), Option.map_map]
      rfl
    · rw [if_neg present, if_neg filled, if_neg (by simp [present, filled])]
      rfl

/-- The payloads of the places that leave, as far as their buffers hold them. -/
theorem carried_drain (payloads : List Bytes) (index : s.index = some block) {k : Nat} {mode : Mode}
    (holds : ∀ i ∈ s.leaving k mode, s.has i = true ∨ mode = .rebuilt →
      payload? (s.bufferOf i) = payloads[i]?) :
    Emission.carried (s.drain k mode).2 =
      ((s.leaving k mode).filter fun i => s.has i || mode = .rebuilt).filterMap
        (payloadAt block payloads) := by
  rw [emissions_drain index, Emission.carried, List.map_filterMap, List.filterMap_map,
    List.filterMap_filter]
  exact List.filterMap_congr fun i hi => carried_departure (holds i hi)

/-- What has arrived holds its payload. -/
theorem payload?_of_has (carries : s.Carries t.code size (t.dataShares payloads))
    (small : ∀ p ∈ payloads, p.length ≤ Limits.payload) (fits : Limits.fragment ≤ size)
    (le : t.code.k ≤ t.code.n) {i : Nat} (hi : i < t.code.k) (has : s.has i = true) :
    payload? (s.bufferOf i) = payloads[i]? := by
  have content : plainShare t.code (t.dataShares payloads) i = fragmentOf payloads[i]? := by
    rw [plainShare, if_pos hi, Transmitter.getD_dataShares hi]
  rw [(carries i (hi.trans_le le) has).2, content,
    fit_of_le ((Transmitter.fragment_bounds small i).2.trans fits)]
  exact Transmitter.payload?_fragmentOf (fun bs hbs => small bs (List.mem_of_getElem? hbs)) _

/-- What has been filled in holds its payload. -/
theorem payload?_of_filled (small : ∀ p ∈ payloads, p.length ≤ Limits.payload) {i : Nat}
    (hi : i < t.code.k) (buffer : Bytes) :
    payload? (Bytes.overlay (Bytes.fit (longest (t.dataShares payloads))
      ((t.dataShares payloads).getD i [])) buffer) = payloads[i]? := by
  rw [fit_of_le (length_le_longest i), Transmitter.getD_dataShares hi, Bytes.overlay, List.append_assoc]
  exact Transmitter.payload?_fragmentOf (fun bs hbs => small bs (List.mem_of_getElem? hbs)) _

theorem mem_leaving_lt {k : Nat} {mode : Mode} {i : Nat} (hi : i ∈ s.leaving k mode) : i < k := by
  have member : i ∈ s.due k := by
    cases mode with
    | cutThrough => exact (List.takeWhile_sublist _).subset hi
    | stale => exact hi
    | rebuilt => exact hi
  exact List.mem_range.mp (List.mem_of_mem_drop member)

section sent

variable (h : s.Holding t.code size block) (carries : s.Carries t.code size (t.dataShares payloads))
  (small : ∀ p ∈ payloads, p.length ≤ Limits.payload) (fits : Limits.fragment ≤ size)
  (le : t.code.k ≤ t.code.n)

include h carries small fits le

theorem Holding.carried_stale :
    (List.range s.cursor).filterMap (payloadAt block payloads) ++
        Emission.carried (s.drain t.code.k .stale).2 =
      ((List.range t.code.k).filter s.has).filterMap (payloadAt block payloads) := by
  have whole := range_drain t.code.k .stale s
  have before : (List.range s.cursor).filter s.has = List.range s.cursor :=
    List.filter_eq_self.mpr fun i hi => h.passed i (List.mem_range.mp hi)
  rw [cursor_drain_all h.cursor_le (by simp)] at whole
  rw [whole, List.filter_append, before, List.filterMap_append, carried_drain payloads h.index]
  · simp
  · intro i hi has
    exact payload?_of_has carries small fits le (mem_leaving_lt hi) (by simpa using has)

theorem Holding.carried_cutThrough :
    (List.range s.cursor).filterMap (payloadAt block payloads) ++
        Emission.carried (s.drain t.code.k .cutThrough).2 =
      ((List.range t.code.k).takeWhile s.has).filterMap (payloadAt block payloads) := by
  have present : ∀ i ∈ s.leaving t.code.k .cutThrough, s.has i = true :=
    fun i hi => List.mem_takeWhile_imp hi
  rw [h.prefix_drain, range_drain, List.filterMap_append, carried_drain payloads h.index]
  · rw [List.filter_eq_self.mpr fun i hi => by simp [present i hi]]
  · intro i hi _
    exact payload?_of_has carries small fits le (mem_leaving_lt hi) (present i hi)

theorem Holding.carried_rebuilt (sound : Sound t.code) (full : s.used = t.code.k) {filled : Slot}
    {count : Nat} (rebuild : s.rebuild t.code = .ok (filled, count)) :
    (List.range s.cursor).filterMap (payloadAt block payloads) ++
        Emission.carried (filled.drain t.code.k .rebuilt).2 =
      (List.range t.code.k).filterMap (payloadAt block payloads) := by
  rw [h.rebuild_share sound full (Transmitter.length_dataShares ..) carries, Except.ok.injEq,
    Prod.mk.injEq] at rebuild
  obtain ⟨rfl, -⟩ := rebuild
  let content i := Bytes.overlay
    (Bytes.fit (longest (t.dataShares payloads)) ((t.dataShares payloads).getD i [])) (s.bufferOf i)
  let filled := s.refill (s.absent t.code.k) ((s.absent t.code.k).map content)
  obtain ⟨index, cursor, -⟩ := refill_frame (s := s) (s.absent t.code.k)
    ((s.absent t.code.k).map content)
  have whole := range_drain t.code.k .rebuilt filled
  rw [cursor_drain_all (cursor.trans_le h.cursor_le) (by simp), cursor] at whole
  rw [whole, List.filterMap_append, carried_drain payloads (index.trans h.index)]
  · simp [filled, content]
  · intro i hi _
    have place := mem_leaving_lt hi
    by_cases present : s.has i = true
    · have other : i ∉ s.absent t.code.k := by simp [absent, present]
      rw [bufferOf_refill_of_not_mem other]
      exact payload?_of_has carries small fits le place present
    · have gap : i ∈ s.absent t.code.k := by simp [absent, present, place]
      have inside : ∀ j ∈ s.absent t.code.k, j < s.cells.length := by
        intro j hj
        rw [h.shaped.length]
        exact (List.mem_range.mp (List.mem_filter.mp hj).1).trans_le le
      have distinct : (s.absent t.code.k).Nodup := List.nodup_range.filter _
      rw [bufferOf_refill distinct inside content gap]
      exact payload?_of_filled small place _

end sent

end Slot

end AirLink
