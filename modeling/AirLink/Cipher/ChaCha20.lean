import AirLink.Cipher.Keystream

/-! # ChaCha20

The stream cipher of data packets, with a 256-bit key, a 96-bit nonce and a 32-bit block counter.
-/

namespace AirLink.Cipher.ChaCha20

def quarter (a b c d : Nat) (s : State) : State :=
  let s := s.put a (s.word a + s.word b)
  let s := s.put d (rotate (s.word d ^^^ s.word a) 16)
  let s := s.put c (s.word c + s.word d)
  let s := s.put b (rotate (s.word b ^^^ s.word c) 12)
  let s := s.put a (s.word a + s.word b)
  let s := s.put d (rotate (s.word d ^^^ s.word a) 8)
  let s := s.put c (s.word c + s.word d)
  s.put b (rotate (s.word b ^^^ s.word c) 7)

/-- Mixes the columns and then the diagonals of the state. -/
def doubleRound (s : State) : State :=
  let s := quarter 3 7 11 15 (quarter 2 6 10 14 (quarter 1 5 9 13 (quarter 0 4 8 12 s)))
  quarter 3 4 9 14 (quarter 2 7 8 13 (quarter 1 6 11 12 (quarter 0 5 10 15 s)))

def block (key : Octets 32) (nonce : Octets 12) (counter : Nat) : Bytes :=
  let start := State.ofWords
    (constants ++ words key.val ++ [UInt32.ofNat counter] ++ words nonce.val)
  (Nat.repeat doubleRound 10 start |>.add start).toBytes

end AirLink.Cipher.ChaCha20
