import AirLink.Proofs.Checked.Assembly
import AirLink.Proofs.Lifetime

/-! # Sessions in checked steps

A session sets up a code and a window when it is announced, and hands its packets to the assembly that
works with them.  Whatever is announced, an assembly that has been set up is one that no packet can upset.
-/

namespace AirLink.Checked

namespace Ring

/-- A ring of `size` free slots. -/
def create (size fragmentSize fragmentCount : Nat) : Except Fault Ring :=
  if size = 0 ∨ fragmentSize = 0 ∨ fragmentCount = 0 then .error (.settings .emptyWindow)
  else if Limits.memory < fragmentSize * fragmentCount * size then .error (.exhausted .window)
  else .ok
    { memory := Bytes.zeros (fragmentSize * fragmentCount * size)
      blocks := List.replicate size ⟨none, List.replicate fragmentCount 0, 0, 0⟩
      front := 0, span := 0, last := none, fragmentSize, fragmentCount }

theorem create_eq (size fragmentSize fragmentCount : Nat) :
    create size fragmentSize fragmentCount = (Window.create size fragmentSize fragmentCount).map of := by
  have blank : dataOf (Slot.blank fragmentSize fragmentCount) = Bytes.zeros (fragmentSize * fragmentCount) := by
    simp [dataOf, Slot.blank, Bytes.zeros, Nat.mul_comm]
  unfold create Window.create
  split_ifs
  · rfl
  · rfl
  · simp only [Except.map, of, Array.toList_replicate, List.map_replicate, blank]
    simp [Bytes.zeros, Block.of, Slot.blank, Nat.mul_comm]

end Ring

namespace Assembly

def create (key : Key) (k n windowSize fragmentSize : Nat) : Option (Except Fault Assembly) := do
  let created ← Code.create k n
  match created with
  | .error fault => return .error fault
  | .ok code => return (Ring.create windowSize fragmentSize n).map fun ring => { key, code, ring, last := none }

theorem create_of (key : Key) (k n windowSize fragmentSize : Nat) :
    create key k n windowSize fragmentSize =
      some ((AirLink.Assembly.create key k n windowSize fragmentSize).map of) := by
  apply step (Code.create_eq k n)
  rw [Ring.create_eq, AirLink.Assembly.create]
  cases ErasureCode.create k n with
  | error fault => rfl
  | ok code => cases Window.create windowSize fragmentSize n <;> rfl

theorem fitting_create {size fragmentSize fragmentCount : Nat} {w : Window}
    (created : Window.create size fragmentSize fragmentCount = .ok w) : Fitting w := by
  have empty := Window.create_ok created
  unfold Window.create at created
  split_ifs at created with none large
  cases created
  refine ⟨empty.wellformed, empty.shaped, ?_, nofun, ?_, by dsimp only; omega, by dsimp only; omega⟩
  · intro p _ block here
    have closed := empty.wellformed.outside p (List.not_mem_nil)
    rw [Window.isOpen, here] at closed
    cases closed
  · exact Nat.le_of_not_lt (by simpa [Window.capacity] using large)

theorem fit_create {key : Key} {k n windowSize fragmentSize : Nat} {a : AirLink.Assembly}
    (created : AirLink.Assembly.create key k n windowSize fragmentSize = .ok a) : Fit a := by
  obtain ⟨ready, -⟩ := AirLink.Assembly.create_ready created
  obtain ⟨code, window, -, opened, rfl⟩ := AirLink.Assembly.create_eq_ok.mp created
  exact ⟨ready, fitting_create opened, nofun⟩

end Assembly

/-- A session with its assembly on the side. -/
structure Session where
  base : AirLink.Session
  link : Option Assembly

namespace Session

def of (s : AirLink.Session) : Session := ⟨{ s with lastAssembly := none }, s.lastAssembly.map Assembly.of⟩

def readOffer (s : Session) (nonce : Octets 24) (cipher : Bytes) : Option (Except Fault SessionOffer) :=
  if cipher.length < Limits.sessionCipher then
    pure (.error (.truncated .sessionCipher Limits.sessionCipher cipher.length))
  else
    match Cipher.SealedBox.decrypt s.base.boxKey nonce cipher with
    | .error fault => pure (.error (.cipher fault))
    | .ok plain =>
      if plain.length < SessionOffer.layout.size then
        pure (.error (.truncated .sessionOffer SessionOffer.layout.size plain.length))
      else do
        let (offer, _) ← SessionOffer.layout.read? plain
        return .ok offer

/-- What an announcement is checked for before a new assembly is set up. -/
def vet (s : Session) (offer : SessionOffer) (carrier : Option UInt32) : Except Fault CodeScheme := do
  if let some expected := carrier.or s.base.channel then
    if expected ≠ offer.channel then throw (.channelMismatch expected offer.channel)
  let scheme ← CodeScheme.ofCode offer.scheme
  if offer.k.toNat < 1 ∨ offer.n.toNat < offer.k.toNat then
    throw (.invalidCodeSize offer.k.toNat offer.n.toNat)
  return scheme

def prepare (s : Session) (offer : SessionOffer) (carrier : Option UInt32) :
    Option (Except Fault (SessionInfo × Assembly)) :=
  match s.vet offer carrier with
  | .error fault => some (.error fault)
  | .ok scheme => do
    let created ← Assembly.create offer.key offer.k.toNat offer.n.toNat s.base.windowSize s.base.fragmentSize
    return created.map fun link =>
      (⟨offer.epoch.toNat, offer.channel, scheme, offer.k.toNat, offer.n.toNat⟩, link)

/-- Replaces whatever session there was by an announced one. -/
def establish (s : Session) (now : Moment) (offer : SessionOffer) (carrier : Option UInt32) :
    Option (Except Fault SessionOutcome × Session) := do
  let prepared ← s.prepare offer carrier
  match prepared with
  | .error fault => return (.error fault, ⟨{ s.base with hasKey := false }, none⟩)
  | .ok (info, link) =>
    return (.ok (.established info),
      ⟨{ s.base with
          epoch := info.epoch, lastInfo := some info, hasKey := true, lastAuthenticated := some now }, some link⟩)

/-- Handles one session packet. -/
def announce (s : Session) (now : Moment) (nonce : Octets 24) (cipher : Bytes) (carrier : Option UInt32) :
    Option (Except Fault SessionOutcome × Session) := do
  let read ← s.readOffer nonce cipher
  match read with
  | .error fault => return (.error fault, s)
  | .ok offer =>
    let epoch := offer.epoch.toNat
    if epoch < s.base.epoch ∧ !s.base.rollbackAllowed now then
      return (.error (.staleEpoch s.base.epoch epoch), s)
    else if epoch = s.base.epoch ∧ s.base.hasKey then
      return (.ok .unchanged, { s with base := { s.base with lastAuthenticated := some now } })
    else s.establish now offer carrier

/-- Handles one data packet. -/
def receive (s : Session) (now : Moment) (x : Arrival) (recover : Bool) :
    Option ((Report × List Delivery) × Session) :=
  match s.link.filter fun _ => s.base.hasKey with
  | none => some (({ outcome := .ok .noSession }, []), s)
  | some link => do
    let (result, link) ← link.receive x recover
    match result.1.outcome with
    | .error (.cipher _) => return (result, ⟨{ s.base with hasKey := false }, some link⟩)
    | .error _ => return (result, ⟨s.base, some link⟩)
    | .ok _ => return (result, ⟨{ s.base with lastAuthenticated := some now }, some link⟩)

def Fit (s : AirLink.Session) : Prop := ∀ a, s.lastAssembly = some a → Assembly.Fit a

variable {s : AirLink.Session}

theorem readOffer_of (s : AirLink.Session) (nonce : Octets 24) (cipher : Bytes) :
    (of s).readOffer nonce cipher = some (s.readOffer nonce cipher) := by
  have key : (of s).base.boxKey = s.boxKey := rfl
  unfold readOffer AirLink.Session.readOffer
  refine check_eq fun _ => ?_
  rw [key]
  cases Cipher.SealedBox.decrypt s.boxKey nonce cipher with
  | error fault => rfl
  | ok plain =>
      simp only [Except.mapError, bind, Except.bind, SessionOffer.decode, Layout.read?]
      split_ifs <;> rfl

theorem prepare_eq (s : AirLink.Session) (offer : SessionOffer) (carrier : Option UInt32) :
    s.prepare offer carrier = ((of s).vet offer carrier).bind fun scheme =>
      (AirLink.Assembly.create offer.key offer.k.toNat offer.n.toNat s.windowSize s.fragmentSize).map fun a =>
        (⟨offer.epoch.toNat, offer.channel, scheme, offer.k.toNat, offer.n.toNat⟩, a) := by
  by_cases other : ∃ expected, carrier.or s.channel = some expected ∧ expected ≠ offer.channel
  · obtain ⟨expected, known, other⟩ := other
    have channel : carrier.or (of s).base.channel = some expected := known
    unfold AirLink.Session.prepare vet
    simp only [known, channel, if_pos other]
    rfl
  have settle {α : Type} (settled : Except Fault α) : (match carrier.or s.channel with
      | some expected =>
        if expected ≠ offer.channel then .error (.channelMismatch expected offer.channel) else settled
      | _ => settled) = settled := by
    cases known : carrier.or s.channel with
    | none => rfl
    | some expected => exact if_neg fun differs => other ⟨expected, known, differs⟩
  have vetted : (of s).vet offer carrier = (do
      let scheme ← CodeScheme.ofCode offer.scheme
      if offer.k.toNat < 1 ∨ offer.n.toNat < offer.k.toNat then
        throw (.invalidCodeSize offer.k.toNat offer.n.toNat)
      return scheme) := settle _
  rw [vetted]
  refine (settle _).trans ?_
  cases CodeScheme.ofCode offer.scheme with
  | error fault => rfl
  | ok scheme =>
      dsimp only [bind, Except.bind]
      split
      · rfl
      · cases AirLink.Assembly.create offer.key offer.k.toNat offer.n.toNat s.windowSize s.fragmentSize <;> rfl

theorem prepare_of (s : AirLink.Session) (offer : SessionOffer) (carrier : Option UInt32) :
    (of s).prepare offer carrier =
      some ((s.prepare offer carrier).map fun prepared => (prepared.1, Assembly.of prepared.2)) := by
  have created := Assembly.create_of offer.key offer.k.toNat offer.n.toNat s.windowSize s.fragmentSize
  rw [prepare_eq]
  unfold prepare
  cases (of s).vet offer carrier with
  | error fault => rfl
  | ok scheme =>
      apply step created
      simp only [Except.bind]
      cases AirLink.Assembly.create offer.key offer.k.toNat offer.n.toNat s.windowSize s.fragmentSize <;> rfl

theorem establish_of (s : AirLink.Session) (now : Moment) (offer : SessionOffer) (carrier : Option UInt32) :
    (of s).establish now offer carrier =
        some ((s.establish now offer carrier).1, of (s.establish now offer carrier).2) ∧
      Fit (s.establish now offer carrier).2 := by
  have prepared := prepare_of s offer carrier
  unfold AirLink.Session.establish
  cases result : s.prepare offer carrier with
  | error fault =>
      rw [result] at prepared
      exact ⟨step prepared rfl, nofun⟩
  | ok ready =>
      rw [result] at prepared
      obtain ⟨info, a⟩ := ready
      obtain ⟨-, -, created, -⟩ := AirLink.Session.prepare_eq_ok.mp result
      refine ⟨step prepared rfl, ?_⟩
      intro a here
      cases here
      exact Assembly.fit_create created

theorem announce_of (fit : Fit s) (now : Moment) (nonce : Octets 24) (cipher : Bytes) (carrier : Option UInt32) :
    (of s).announce now nonce cipher carrier =
        some ((s.announce now nonce cipher carrier).1, of (s.announce now nonce cipher carrier).2) ∧
      Fit (s.announce now nonce cipher carrier).2 := by
  have read := readOffer_of s nonce cipher
  unfold AirLink.Session.announce
  cases result : s.readOffer nonce cipher with
  | error fault =>
      rw [result] at read
      exact ⟨step read rfl, fit⟩
  | ok offer =>
      rw [result] at read
      have allowed : (of s).base.rollbackAllowed now = s.rollbackAllowed now := rfl
      dsimp only
      by_cases stale : offer.epoch.toNat < s.epoch ∧ !s.rollbackAllowed now
      · rw [if_pos stale]
        exact ⟨step read (if_pos stale), fit⟩
      rw [if_neg stale]
      by_cases repeated : offer.epoch.toNat = s.epoch ∧ s.hasKey
      · rw [if_pos repeated]
        exact ⟨step read ((if_neg stale).trans (if_pos repeated)), fit⟩
      · rw [if_neg repeated]
        obtain ⟨established, fits⟩ := establish_of s now offer carrier
        exact ⟨step read ((if_neg stale).trans ((if_neg repeated).trans established)), fits⟩

theorem receive_of (fit : Fit s) (now : Moment) (x : Arrival) (recover : Bool) :
    (of s).receive now x recover =
        some (((s.receive now x recover).1, (s.receive now x recover).1.deliveries),
          of (s.receive now x recover).2) ∧
      Fit (s.receive now x recover).2 := by
  have link : ((of s).link.filter fun _ => (of s).base.hasKey) = s.assembly.map Assembly.of := by
    rw [AirLink.Session.assembly]
    change ((s.lastAssembly.map Assembly.of).filter fun _ => s.hasKey) = _
    cases s.lastAssembly <;> cases s.hasKey <;> rfl
  unfold receive AirLink.Session.receive
  rw [link]
  cases present : s.assembly with
  | none => exact ⟨rfl, fit⟩
  | some a =>
      obtain ⟨isLast, -⟩ := AirLink.Session.assembly_eq_some.mp present
      obtain ⟨received, fits⟩ := Assembly.receive_of (fit a isLast) x recover
      have next : ∀ b, some (a.receive x recover).2 = some b → Assembly.Fit b := by
        rintro _ ⟨⟩
        exact fits
      cases outcome : (a.receive x recover).1.outcome with
      | error fault =>
          cases fault with
          | _ =>
              simp only [outcome]
              refine ⟨?_, next⟩
              apply step received
              simp only [outcome]
              rfl
      | ok became =>
          simp only [outcome]
          refine ⟨?_, next⟩
          apply step received
          simp only [outcome]
          rfl

end Session

end AirLink.Checked
