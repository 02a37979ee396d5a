import AirLink.Cipher.Keystream

/-! # Salsa20 with an extended nonce

The stream cipher of session packets.  A 192-bit nonce is too long for the cipher itself, so its
first part goes into deriving a key and only its last eight bytes and a 64-bit block counter into
the stream.
-/

namespace AirLink.Cipher.Salsa20

def quarter (a b c d : Nat) (s : State) : State :=
  let s := s.put b (s.word b ^^^ rotate (s.word a + s.word d) 7)
  let s := s.put c (s.word c ^^^ rotate (s.word b + s.word a) 9)
  let s := s.put d (s.word d ^^^ rotate (s.word c + s.word b) 13)
  s.put a (s.word a ^^^ rotate (s.word d + s.word c) 18)

/-- Mixes the columns and then the rows of the state. -/
def doubleRound (s : State) : State :=
  let s := quarter 15 3 7 11 (quarter 10 14 2 6 (quarter 5 9 13 1 (quarter 0 4 8 12 s)))
  quarter 15 12 13 14 (quarter 10 11 8 9 (quarter 5 6 7 4 (quarter 0 1 2 3 s)))

def start (key : Octets 32) (input : Bytes) : State :=
  let c := constants
  let k := words key.val
  State.ofWords (c.take 1 ++ k.take 4 ++ (c.drop 1).take 1 ++ words input ++ (c.drop 2).take 1
    ++ k.drop 4 ++ c.drop 3)

/-- The key derived from a key and sixteen bytes: what the rounds leave on the diagonal and in the
place of the input. -/
def deriveKey (key : Octets 32) (input : Octets 16) : Octets 32 :=
  let s := Nat.repeat doubleRound 10 (start key input.val)
  let kept := [0, 5, 10, 15, 6, 7, 8, 9].map s.word
  Octets.fit 32 (kept.flatMap fun word => Bytes.ofNatLE 4 word.toNat)

def block (key : Octets 32) (nonce : Octets 24) (counter : Nat) : Bytes :=
  let derived := deriveKey key (Octets.fit 16 nonce.val)
  let s := start derived (nonce.val.drop 16 ++ Bytes.ofNatLE 8 counter)
  (Nat.repeat doubleRound 10 s |>.add s).toBytes

end AirLink.Cipher.Salsa20
