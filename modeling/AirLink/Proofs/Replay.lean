import AirLink.Proofs.Hearing

/-! # Replays

While a session key stays installed no place of a block is handed to a decoder twice, whatever is
received again.  It takes a new installation of the key to forget what has been handed over: under a
higher epoch, or after the key had been given up.  Both happen: a packet that is not authentic ends
the session, and the announcement of the same session begins it anew.
-/

namespace AirLink

def Delivery.place (d : Delivery) : Nat × Nat := (d.block, d.fragment)

/-- Two events do not hand the same place to the same decoder under the same key. -/
def Event.Distinct (e f : Event) : Prop :=
  ∀ i key d d', e = .handed i key d → f = .handed i key d' → d.place ≠ d'.place

def Delivery.number (k : Nat) (d : Delivery) : Nat := d.block * k + d.fragment

theorem Delivery.number_of_place {d d' : Delivery} (same : d.place = d'.place) (k : Nat) :
    d.number k = d'.number k := by
  obtain ⟨block, fragment⟩ := Prod.mk.inj same
  rw [number, number, block, fragment]

namespace Assembly

variable {a : Assembly} {x : Arrival} {recover : Bool} {decoders : Nat}

theorem Ready.number_range (ready : a.Ready) {d : Delivery}
    (hd : d ∈ (a.receive x recover).1.deliveries) :
    a.frontier ≤ d.number a.code.k ∧ d.number a.code.k < (a.receive x recover).2.frontier := by
  obtain ⟨e, he, delivered⟩ := List.mem_filterMap.mp hd
  obtain ⟨block, fragment⟩ := Emission.delivery_place delivered
  rw [Delivery.number, block, fragment]
  exact (ready.receive_within x recover).range e he

theorem mem_handedOver {i : Nat} {key : Key} {d : Delivery} :
    .handed i key d ∈ a.handedOver decoders x recover ↔
      d ∈ (a.receive x recover).1.deliveries ∧ i < decoders ∧ a.key = key := by
  simp only [handedOver, List.mem_flatMap, List.mem_map, List.mem_range, Event.handed.injEq]
  constructor
  · rintro ⟨_, hd, _, hi, rfl, rfl, rfl⟩
    exact ⟨hd, hi, rfl⟩
  · rintro ⟨hd, hi, rfl⟩
    exact ⟨d, hd, i, hi, rfl, rfl, rfl⟩

theorem handed_of_mem_handedOver {e : Event} (he : e ∈ a.handedOver decoders x recover) :
    ∃ i key d, e = .handed i key d := by
  obtain ⟨d, -, member⟩ := List.mem_flatMap.mp he
  obtain ⟨i, -, rfl⟩ := List.mem_map.mp member
  exact ⟨i, a.key, d, rfl⟩

theorem Ready.handedOver_distinct (ready : a.Ready) (decoders : Nat) (x : Arrival) (recover : Bool) :
    (a.handedOver decoders x recover).Pairwise Event.Distinct := by
  rw [handedOver, List.pairwise_flatMap]
  constructor
  · intro d _
    rw [List.pairwise_map]
    refine List.pairwise_lt_range.imp fun lt i key d d' left right => ?_
    cases left
    cases right
    exact absurd lt (lt_irrefl _)
  · refine (ready.receive_within x recover).deliveries.imp fun {d d'} ascend => ?_
    intro e he f hf i key c c' left right
    obtain ⟨_, -, rfl⟩ := List.mem_map.mp he
    obtain ⟨_, -, rfl⟩ := List.mem_map.mp hf
    cases left
    cases right
    intro same
    obtain ⟨block, fragment⟩ := Prod.mk.inj same
    omega

end Assembly

namespace Session

variable {s next : Session} {decoders : Nat} {events : List Event} {key : Key} {d : Delivery}

/-- A place that can no longer be handed over under a key, unless the key is installed again. -/
def Past (s : Session) (key : Key) (d : Delivery) : Prop :=
  ∀ a, s.assembly = some a → a.key = key → d.number a.code.k < a.frontier

namespace Turn

theorem epoch_le (turn : s.Turn decoders events next) : s.epoch ≤ next.epoch := by
  cases turn with
  | kept _ _ epoch => exact epoch.ge
  | installed _ le => exact le
  | dropped _ _ epoch => exact epoch.ge
  | received _ _ epoch => exact epoch.ge

theorem epoch_of_installed (turn : s.Turn decoders events next) {epoch : Nat}
    (member : .installed epoch key ∈ events) : epoch = next.epoch := by
  cases turn with
  | kept => cases member
  | installed => cases List.mem_singleton.mp member; rfl
  | dropped => split at member <;> simp at member
  | received =>
      obtain ⟨_, _, _, other⟩ := Assembly.handed_of_mem_handedOver member
      cases other

/-- What holds of the present epoch and of those installed later holds of all. -/
theorem installed_all (turn : s.Turn decoders events next) {p : Nat → Prop} (present : p next.epoch)
    {rest : List Event} (later : ∀ epoch other, .installed epoch other ∈ rest → p epoch) :
    ∀ epoch other, .installed epoch other ∈ events ++ rest → p epoch := by
  intro epoch other member
  rcases List.mem_append.mp member with here | there
  · exact turn.epoch_of_installed here ▸ present
  · exact later epoch other there

theorem hasKey_or_dropped (turn : s.Turn decoders events next) (hasKey : s.hasKey = true) :
    next.hasKey = true ∨ ∃ cause, .dropped cause ∈ events := by
  cases turn with
  | kept _ same => exact .inl (same.trans hasKey)
  | installed assembly => exact .inl (assembly_eq_some.mp assembly).2
  | dropped cause lost =>
      rw [hasKey, lost]
      exact .inr ⟨cause, List.mem_singleton_self _⟩
  | received _ after => exact .inl (assembly_eq_some.mp after).2

/-- What has been handed over is past, and the key is still there. -/
theorem past_of_handed (turn : s.Turn decoders events next) (ready : s.Ready) {i : Nat}
    (member : .handed i key d ∈ events) :
    next.hasKey = true ∧ next.Past key d ∧ ∀ epoch other, .installed epoch other ∉ events := by
  cases turn with
  | kept => cases member
  | installed => simp at member
  | dropped => split at member <;> simp at member
  | @received next a x recover present after epoch =>
      obtain ⟨hd, -, -⟩ := Assembly.mem_handedOver.mp member
      have was := ready a (assembly_eq_some.mp present).1
      refine ⟨(assembly_eq_some.mp after).2, ?_, ?_⟩
      · intro b here _
        obtain rfl := Option.some.inj (after.symm.trans here)
        rw [(was.receive x recover).2.1]
        exact (was.number_range hd).2
      · intro epoch other installed
        obtain ⟨_, _, _, none⟩ := Assembly.handed_of_mem_handedOver installed
        cases none

/-- What is past stays past, and is not handed over, unless the key is installed again. -/
theorem past (turn : s.Turn decoders events next) (ready : s.Ready) (past : s.Past key d) :
    (events = [.installed next.epoch key] ∧ (s.hasKey = true → s.epoch < next.epoch)) ∨
      (next.Past key d ∧ ∀ i d', .handed i key d' ∈ events → d.place ≠ d'.place) := by
  cases turn with
  | kept same => exact .inr ⟨fun a here => past a (same.symm.trans here), by simp⟩
  | @installed next a assembly le lt =>
      by_cases same : a.key = key
      · exact .inl ⟨by rw [same], lt⟩
      · refine .inr ⟨fun b here isKey => ?_, by simp⟩
        obtain rfl := Option.some.inj (assembly.symm.trans here)
        exact absurd isKey same
  | dropped cause lost =>
      refine .inr ⟨fun a here => ?_, ?_⟩
      · rw [assembly_of_lost lost] at here
        cases here
      · intro i d' member
        split at member <;> simp at member
  | @received next a x recover present after =>
      have was := ready a (assembly_eq_some.mp present).1
      obtain ⟨-, code, isKey⟩ := was.receive x recover
      refine .inr ⟨fun b here same => ?_, fun i d' member same => ?_⟩
      · obtain rfl := Option.some.inj (after.symm.trans here)
        rw [code]
        exact (past a present (isKey.symm.trans same)).trans_le (was.receive_within x recover).le
      · obtain ⟨hd, -, key⟩ := Assembly.mem_handedOver.mp member
        have before := past a present key
        rw [d.number_of_place same] at before
        exact absurd before (Nat.not_lt.mpr (was.number_range hd).1)

theorem distinct (turn : s.Turn decoders events next) (ready : s.Ready) :
    events.Pairwise Event.Distinct := by
  cases turn with
  | kept => exact .nil
  | installed => exact List.pairwise_singleton ..
  | dropped =>
      split
      · exact List.pairwise_singleton ..
      · exact .nil
  | received present =>
      exact (ready _ (assembly_eq_some.mp present).1).handedOver_distinct ..

end Turn

end Session

/-- An element of two lists in a row lies in the first or in the second. -/
theorem split_append {first second before after : List Event} {e : Event}
    (split : first ++ second = before ++ e :: after) :
    (∃ rest, first = before ++ e :: rest ∧ after = rest ++ second) ∨
      ∃ rest, before = first ++ rest ∧ second = rest ++ e :: after := by
  rcases List.append_eq_append_iff.mp split with ⟨rest, here, there⟩ | ⟨rest, here, there⟩
  · exact .inr ⟨rest, here, there⟩
  · cases rest with
    | nil =>
        rw [List.append_nil] at here
        exact .inr ⟨[], by rw [here, List.append_nil], there.symm⟩
    | cons f rest =>
        obtain ⟨rfl, rfl⟩ := List.cons.inj there
        exact .inl ⟨rest, here, rfl⟩

/-- An installation under an epoch takes the place of an earlier one: it has a higher epoch, or the
same after the key has been dropped. -/
def Supersedes (us : List Event) (epoch earlier : Nat) : Prop :=
  earlier < epoch ∨ earlier = epoch ∧ ∃ cause, .dropped cause ∈ us

namespace Supersedes

variable {us : List Event} {epoch earlier : Nat}

theorem of_le {first : Nat} (le : first ≤ earlier) (h : Supersedes us epoch earlier) :
    Supersedes us epoch first := by
  rcases h with less | ⟨rfl, dropped⟩
  · exact .inl (le.trans_lt less)
  · exact le.lt_or_eq.imp_right fun same => ⟨same, dropped⟩

theorem of_dropped {cause : Fault} (dropped : .dropped cause ∈ us) (le : earlier ≤ epoch) :
    Supersedes us epoch earlier :=
  le.lt_or_eq.imp_right fun same => ⟨same, cause, dropped⟩

theorem append (before : List Event) (h : Supersedes us epoch earlier) :
    Supersedes (before ++ us) epoch earlier := by
  refine h.imp_right fun again => ⟨again.1, ?_⟩
  obtain ⟨cause, dropped⟩ := again.2
  exact ⟨cause, List.mem_append_right _ dropped⟩

end Supersedes

/-- The key is installed again, and the installation supersedes every earlier one. -/
def Renewed (key : Key) (before between : List Event) : Prop :=
  ∃ us vs epoch, between = us ++ .installed epoch key :: vs ∧
    ∀ earlier other, .installed earlier other ∈ before ++ us → Supersedes us epoch earlier

namespace Receiver

variable {r : Receiver} {key : Key} {d d' : Delivery} {i : Nat} {before between after : List Event}

/-- What is past is only handed over after the key has been installed again, under an epoch that is
not lower than the present; and if there is a key now, the installation supersedes it. -/
theorem handed_past (strict : r.session.Strict) (past : r.session.Past key d) (actions : List Action)
    (split : r.history actions = before ++ .handed i key d' :: after) (same : d.place = d'.place) :
    ∃ us vs epoch, before = us ++ .installed epoch key :: vs ∧
      (r.session.epoch ≤ epoch ∧
        ∀ earlier other, .installed earlier other ∈ us → earlier ≤ epoch) ∧
      (r.session.hasKey = true → Supersedes us epoch r.session.epoch ∧
        ∀ earlier other, .installed earlier other ∈ us → Supersedes us epoch earlier) := by
  induction actions generalizing r before with
  | nil => simp [history] at split
  | cons action actions ih =>
      have step := r.stepped strict action
      have le := step.turn.epoch_le
      rcases step.turn.past strict.ready past with ⟨installed, higher⟩ | ⟨still, others⟩
      · -- The key is installed in this step, and nothing else happens in it.
        rw [history, installed] at split
        rcases split_append split with ⟨rest, here, -⟩ | ⟨rest, here, -⟩
        · have member : Event.handed i key d' ∈ [.installed (r.act action).2.session.epoch key] := by
            rw [here]
            simp
          simp at member
        · exact ⟨[], rest, _, here, ⟨le, by simp⟩, fun hasKey => ⟨.inl (higher hasKey), by simp⟩⟩
      · -- The place is still past after this step, so the rest of the run decides.
        rcases split_append split with ⟨rest, here, -⟩ | ⟨rest, here, there⟩
        · exact absurd same (others i d' (by rw [here]; simp))
        obtain ⟨us, vs, epoch, parts, ⟨above, all⟩, supersedes⟩ := ih step.strict still there
        have all := step.turn.installed_all above all
        refine ⟨r.events action ++ us, vs, epoch, by rw [here, parts, List.append_assoc],
          ⟨le.trans above, all⟩, fun hasKey => ?_⟩
        rcases step.turn.hasKey_or_dropped hasKey with stays | ⟨cause, lost⟩
        · obtain ⟨present, later⟩ := supersedes stays
          exact ⟨(present.of_le le).append _, step.turn.installed_all (present.append _)
            fun earlier other member => (later earlier other member).append _⟩
        · have dropped := List.mem_append_left us lost
          exact ⟨.of_dropped dropped (le.trans above),
            fun earlier other member => .of_dropped dropped (all earlier other member)⟩

/-- Between two handings of one place to one decoder the key has been installed again. -/
theorem handed_again (strict : r.session.Strict) (actions : List Action)
    (split : r.history actions =
      before ++ .handed i key d :: (between ++ .handed i key d' :: after))
    (same : d.place = d'.place) :
    ∃ us vs epoch, between = us ++ .installed epoch key :: vs ∧
      Supersedes us epoch r.session.epoch ∧
      ∀ earlier other, .installed earlier other ∈ before ++ us → Supersedes us epoch earlier := by
  induction actions generalizing r before with
  | nil => simp [history] at split
  | cons action actions ih =>
      have step := r.stepped strict action
      have le := step.turn.epoch_le
      rcases split_append split with ⟨rest, here, there⟩ | ⟨rest, here, there⟩
      · -- The first handing is in this step, which hands over no place twice.
        have member : .handed i key d ∈ r.events action := by simp [here]
        obtain ⟨hasKey, past, none⟩ := step.turn.past_of_handed strict.ready member
        rcases split_append there.symm with ⟨tail, twice, -⟩ | ⟨tail, later, again⟩
        · have distinct := step.turn.distinct strict.ready
          rw [here, twice] at distinct
          have first := (List.pairwise_append.mp distinct).2.1
          exact absurd same ((List.pairwise_cons.mp first).1 _ (by simp) i key d d' rfl rfl)
        obtain ⟨us, vs, epoch, parts, -, supersedes⟩ := handed_past step.strict past actions again same
        obtain ⟨present, all⟩ := supersedes hasKey
        refine ⟨rest ++ us, vs, epoch, by rw [later, parts, List.append_assoc],
          (present.of_le le).append _, fun earlier other member => ?_⟩
        rcases List.mem_append.mp member with first | member
        · exact absurd (here ▸ List.mem_append_left _ first) (none earlier other)
        rcases List.mem_append.mp member with first | member
        · exact absurd (here ▸ by simp [first]) (none earlier other)
        · exact (all earlier other member).append _
      · obtain ⟨us, vs, epoch, parts, present, all⟩ := ih step.strict there
        refine ⟨us, vs, epoch, parts, present.of_le le, ?_⟩
        rw [here, List.append_assoc]
        exact step.turn.installed_all present all

end Receiver

namespace Replay

def hear (packet : Bytes) : Receiver.Action := .take 0 .relay (Relay.datagram ⟨0, 0, false⟩ packet)

def announcement (t : Transmitter) : Receiver.Action :=
  hear (t.sessionPacket ⟨Bytes.zeros 24, List.length_replicate⟩ t.offer)

def fragment (t : Transmitter) : Receiver.Action :=
  hear (Transmitter.sealFragment t.key 0 0 (Transmitter.fragmentOf (some [7])))

def forgery (t : Transmitter) : Receiver.Action :=
  let clear := (Packet.Header.ofFragment 0 0).encode
  let cipher := Cipher.Aead.crypt t.key 0 (Transmitter.fragmentOf (some [7]))
  hear (clear ++ (cipher ++ (Cipher.Aead.tag t.key 0 clear cipher).val.map (· ^^^ 1)))

variable {r : Receiver} {t : Transmitter}

/-- A receiver with one decoder that hears a transmitter whose blocks have one fragment. -/
structure Listens (r : Receiver) (t : Transmitter) : Prop where
  hears : r.Hears t
  recovery : r.recovery = true
  decoders : r.decoders = 1
  isK : t.code.k = 1
  isN : t.code.n = 1

theorem Listens.of_alike (listens : Listens r t) {next : Receiver} (hears : next.Hears t)
    (alike : next.Alike { r with session := next.session }) : Listens next t :=
  ⟨hears, alike.recovery.trans listens.recovery, alike.decoders.trans listens.decoders, listens.isK,
    listens.isN⟩

/-- An assembly that can open the fragments of a transmitter. -/
structure Opens (a : Assembly) (t : Transmitter) : Prop where
  key : a.key = t.key
  code : a.code = t.code
  size : a.window.fragmentSize = Limits.fragment

/-- The session is announced, and the fragment is handed over. -/
theorem Listens.opens (listens : Listens r t) (admitted : r.session.epoch ≤ t.epoch.toNat)
    (new : t.epoch.toNat = r.session.epoch → r.session.hasKey = false) :
    ∃ (d : Delivery) (next : Receiver) (a : Assembly), d.place = (0, 0) ∧ Listens next t ∧
      next.session.epoch = t.epoch.toNat ∧ next.session.assembly = some a ∧ Opens a t ∧
      ∀ rest, r.history (announcement t :: fragment t :: rest) =
        .installed t.epoch.toNat t.key :: .handed 0 t.key d :: next.history rest := by
  have intact : FrameInfo.corrupt ⟨0, 0, false⟩ = false := rfl
  let payloads (_ : Nat) : List Bytes := [[7]]
  have sound := (ErasureCode.create_eq_ok listens.hears.code).2.2
  have legal : Assembly.Legal t payloads [0] := by
    refine ⟨sound, by simp, fun b _ => listens.isK.ge, fun b _ p hp => ?_⟩
    cases List.mem_singleton.mp hp
    decide
  have drawn : Assembly.Drawn t [0] ([] ++ [(0, 0)]) := by simp [Assembly.Drawn, listens.isN]
  have share : ErasureCode.plainShare t.code (t.dataShares (payloads 0)) 0 =
      Transmitter.fragmentOf (some [7]) := by
    rw [ErasureCode.plainShare, if_pos sound.pos, Transmitter.getD_dataShares sound.pos]
    rfl
  obtain ⟨installed, hears, alike, epoch, a, present, tracks⟩ :=
    listens.hears.installs intact 0 ⟨Bytes.zeros 24, rfl⟩ admitted new
  have listens := listens.of_alike hears alike
  have step := listens.hears.delivers intact 0 listens.recovery present legal (tracks payloads) drawn
  rw [share] at step
  obtain ⟨hears, alike, same, report, next, advances, after, handed⟩ := step
  have worth := advances.grows [0] (List.pairwise_singleton ..) (by simp)
  rw [listens.isK, listens.isN] at worth
  obtain ⟨d, deliveries, first⟩ := List.map_eq_singleton_iff.mp
    (show Emission.carried report.emissions = [(0, 0, [7])] from worth.symm)
  obtain ⟨block, place⟩ := Prod.mk.inj first
  refine ⟨d, _, next, Prod.ext block (Prod.mk.inj place).1, listens.of_alike hears alike,
    same.trans epoch, after,
    ⟨advances.tracks.key, advances.tracks.code, advances.tracks.size⟩, fun rest => ?_⟩
  rw [Report.deliveries, deliveries, listens.decoders] at handed
  exact congrArg₂ (· ++ ·) installed (congrArg (· ++ _) handed)

theorem Listens.drops (listens : Listens r t) {a : Assembly} (present : r.session.assembly = some a)
    (opens : Opens a t) : ∃ (cause : Fault) (next : Receiver), Listens next t ∧
      next.session.epoch = r.session.epoch ∧ next.session.hasKey = false ∧
      ∀ rest, r.history (forgery t :: rest) = .dropped cause :: next.history rest := by
  let clear := (Packet.Header.ofFragment 0 0).encode
  let plain := Transmitter.fragmentOf (some [7])
  let tag := (Cipher.Aead.tag t.key 0 clear (Cipher.Aead.crypt t.key 0 plain)).val
  have size : tag.length = Limits.tag :=
    (Cipher.Aead.tag t.key 0 clear (Cipher.Aead.crypt t.key 0 plain)).property
  have altered : tag.map (· ^^^ 1) ≠ tag := by
    intro same
    obtain ⟨b, rest, split⟩ := List.exists_cons_of_length_pos (show 0 < tag.length by rw [size]; decide)
    rw [split] at same
    have bit := congrArg (b ^^^ ·) (List.cons.inj same).1
    simp only [← UInt8.xor_assoc, UInt8.xor_self, UInt8.zero_xor] at bit
    exact absurd bit (by decide)
  have forged := @Assembly.authenticate_altered a 0 0 (Nat.zero_le _)
    (by rw [opens.code, listens.isN]; decide) 0 clear plain (tag.map (· ^^^ 1)) (by decide)
    (by rw [opens.size]; decide) (by rw [List.length_map, size]) (by rw [opens.key]; exact altered)
  rw [opens.key] at forged
  obtain ⟨packet, read, arrival⟩ := @Packet.parse_fragment 0 0 (Nat.zero_le _) (by decide)
    (Cipher.Aead.crypt t.key 0 plain ++ tag.map (· ^^^ 1)) (by
      rw [List.length_append, Cipher.Aead.length_crypt, List.length_map, size]
      decide)
  have found := r.packet?_datagram (show FrameInfo.corrupt ⟨0, 0, false⟩ = false from rfl) read
  obtain ⟨events, alike⟩ := @Receiver.events_forged r 0 _ _ _ _ _ found arrival a present _ forged
  have session := alike.session
  have frame : Session.Alike { r.session with lastAssembly := some a, hasKey := false } r.session :=
    ⟨rfl, rfl, rfl, rfl, rfl⟩
  have hears := listens.hears.of_alike frame alike
  exact ⟨.cipher .dataNotAuthentic, (r.act (forgery t)).2, listens.of_alike hears alike.except_session,
    (congrArg Session.epoch session).trans rfl, (congrArg Session.hasKey session).trans rfl,
    fun rest => congrArg (· ++ _) events⟩

theorem listens_created {keys : LinkKeys} (created : Receiver.create Settings.strict keys = .ok r)
    (code : ErasureCode.create 1 1 = .ok t.code) (boxKey : t.boxKey = keys.boxKey) :
    Listens (r.act (.attach .decoder)).2 t ∧ (r.act (.attach .decoder)).2.session.epoch = 0 ∧
      (r.act (.attach .decoder)).2.session.hasKey = false := by
  obtain ⟨isK, isN, -⟩ := ErasureCode.create_eq_ok code
  rw [Receiver.create_eq_ok created]
  have slots : 1 ≤ Limits.windowSize := by decide
  have room : Limits.fragment * 1 * Limits.windowSize ≤ Limits.memory := by decide
  refine ⟨⟨⟨?_, boxKey.symm, ?_, slots, ?_, rfl⟩, rfl, rfl, isK, isN⟩, rfl, rfl⟩
  · rw [isK, isN, code]
  · intro channel none
    cases none
  · rw [isN]
    exact room

section created

variable {keys : LinkKeys} (created : Receiver.create Settings.strict keys = .ok r)
  (code : ErasureCode.create 1 1 = .ok t.code) (boxKey : t.boxKey = keys.boxKey)

include created code boxKey

/-- A forged fragment ends the session, its announcement begins it anew, and the fragment is handed
over again. -/
theorem history_forged : ∃ d d' cause, d.place = (0, 0) ∧ d'.place = (0, 0) ∧
    r.history [.attach .decoder, announcement t, fragment t, forgery t, announcement t, fragment t] =
      [.installed t.epoch.toNat t.key, .handed 0 t.key d, .dropped cause,
        .installed t.epoch.toNat t.key, .handed 0 t.key d'] := by
  obtain ⟨listens, start, lost⟩ := listens_created created code boxKey
  obtain ⟨d, _, a, place, listens, epoch, present, opens, first⟩ :=
    listens.opens (start ▸ Nat.zero_le _) fun _ => lost
  obtain ⟨cause, _, listens, same, lost, dropped⟩ := listens.drops present opens
  obtain ⟨d', _, _, place', -, -, -, -, second⟩ :=
    listens.opens (same.trans epoch).le fun _ => lost
  refine ⟨d, d', cause, place, place', ?_⟩
  rw [Receiver.history, first, dropped, second]
  rfl

/-- The key is used again under a higher epoch, and the fragment is handed over again. -/
theorem history_reused {epoch : UInt64} (higher : t.epoch.toNat < epoch.toNat) :
    ∃ d d', d.place = (0, 0) ∧ d'.place = (0, 0) ∧
      r.history [.attach .decoder, announcement t, fragment t, announcement { t with epoch },
          fragment t] =
        [.installed t.epoch.toNat t.key, .handed 0 t.key d, .installed epoch.toNat t.key,
          .handed 0 t.key d'] := by
  obtain ⟨listens, start, lost⟩ := listens_created created code boxKey
  obtain ⟨d, next, _, place, listens, same, -, -, first⟩ :=
    listens.opens (start ▸ Nat.zero_le _) fun _ => lost
  obtain ⟨hears, recovery, decoders, isK, isN⟩ := listens
  have again : Listens next { t with epoch } :=
    ⟨⟨hears.code, hears.boxKey, hears.channel, hears.slots, hears.room, hears.fragmentSize⟩, recovery,
      decoders, isK, isN⟩
  obtain ⟨d', _, _, place', -, -, -, -, second⟩ :=
    again.opens (same.trans_le higher.le) fun equal => absurd (equal.trans same) higher.ne'
  refine ⟨d, d', place, place', ?_⟩
  rw [Receiver.history, first]
  exact congrArg (_ :: _ :: ·) (second [])

end created

theorem exists_link (keys : LinkKeys) (key : Key) : ∃ t r,
    Transmitter.create keys 1 0 1 1 key = .ok t ∧ Receiver.create Settings.strict keys = .ok r ∧
      ErasureCode.create 1 1 = .ok t.code ∧ t.boxKey = keys.boxKey ∧ t.epoch = 1 := by
  obtain ⟨code, made, -⟩ := ErasureCode.create_ok one_pos (le_refl 1) (show 1 ≤ 255 by decide)
  refine ⟨{ boxKey := keys.boxKey, epoch := 1, channel := 0, key, code }, _, ?_, rfl, made, rfl, rfl⟩
  unfold Transmitter.create
  rw [show (1 : UInt8).toNat = 1 from rfl, made]
  rfl

end Replay

namespace Receiver

open Replay (announcement fragment forgery)

/-- A receiver that admits no lower epoch hands no place of a block to a decoder twice under a session
key, unless the key is installed again in between: under a higher epoch than any before, or under the
highest after a key has been dropped.  Every call of a decoder is accounted for. -/
theorem handed_once_per_installation {settings : Settings} {keys : LinkKeys} {r : Receiver}
    (created : create settings keys = .ok r) (never : settings.rollbackAfter = none)
    (actions : List Action) :
    (r.calls actions).filter Call.isDecode = (r.history actions).filterMap Event.call? ∧
      ∀ (i : Nat) (key : Key) (d d' : Delivery) (before between after : List Event),
        r.history actions =
          before ++ .handed i key d :: (between ++ .handed i key d' :: after) →
        d.place = d'.place → Renewed key before between := by
  have strict : r.session.Strict := by
    rw [create_eq_ok created]
    exact ⟨fun a none => (by cases none), never⟩
  refine ⟨decodes_history strict actions, ?_⟩
  intro i key d d' before between after split same
  obtain ⟨us, vs, epoch, parts, -, supersedes⟩ := handed_again strict actions split same
  exact ⟨us, vs, epoch, parts, supersedes⟩

/-- The fragment that is handed over again, and the installation in between. -/
theorem handed_once_until_forgery :
    let key : Key := ⟨Bytes.zeros 32, rfl⟩
    ∃ (t : Transmitter) (r : Receiver) (d d' : Delivery) (before between after : List Event),
      Transmitter.create ⟨key, key⟩ 1 0 1 1 key = .ok t ∧
      create Settings.strict ⟨key, key⟩ = .ok r ∧ Settings.strict.rollbackAfter = none ∧
      r.history [.attach .decoder, announcement t, fragment t, forgery t, announcement t, fragment t] =
        before ++ .handed 0 t.key d :: (between ++ .handed 0 t.key d' :: after) ∧
      d.place = d'.place ∧ Renewed t.key before between := by
  intro key
  obtain ⟨t, r, made, created, code, boxKey, -⟩ := Replay.exists_link ⟨key, key⟩ key
  obtain ⟨d, d', cause, place, place', history⟩ := Replay.history_forged created code boxKey
  have same := place.trans place'.symm
  let between : List Event := [.dropped cause, .installed t.epoch.toNat t.key]
  exact ⟨t, r, d, d', [.installed t.epoch.toNat t.key], between, [], made, created, rfl, history, same,
    (handed_once_per_installation created rfl _).2 0 t.key d d' [.installed t.epoch.toNat t.key]
      between [] history same⟩

/-- A place is handed over twice under one key, after a forgery and under a higher epoch. -/
theorem handed_twice :
    let key : Key := ⟨Bytes.zeros 32, rfl⟩
    ∃ (t : Transmitter) (r : Receiver), Transmitter.create ⟨key, key⟩ 1 0 1 1 key = .ok t ∧
      create Settings.strict ⟨key, key⟩ = .ok r ∧ Settings.strict.rollbackAfter = none ∧
      ¬(r.history [.attach .decoder, announcement t, fragment t, forgery t, announcement t,
          fragment t]).Pairwise Event.Distinct ∧
      ¬(r.history [.attach .decoder, announcement t, fragment t, announcement { t with epoch := 2 },
          fragment t]).Pairwise Event.Distinct := by
  intro key
  obtain ⟨t, r, made, created, code, boxKey, epoch⟩ := Replay.exists_link ⟨key, key⟩ key
  refine ⟨t, r, made, created, rfl, ?_, ?_⟩
  · obtain ⟨d, d', cause, place, place', history⟩ := Replay.history_forged created code boxKey
    rw [history]
    intro distinct
    have second := (List.pairwise_cons.mp (List.pairwise_cons.mp distinct).2).1
    exact second _ (by simp) 0 t.key d d' rfl rfl (place.trans place'.symm)
  · have higher : t.epoch.toNat < (2 : UInt64).toNat := by rw [epoch]; decide
    obtain ⟨d, d', place, place', history⟩ := Replay.history_reused created code boxKey higher
    rw [history]
    intro distinct
    have second := (List.pairwise_cons.mp (List.pairwise_cons.mp distinct).2).1
    exact second _ (by simp) 0 t.key d d' rfl rfl (place.trans place'.symm)

end Receiver

end AirLink
