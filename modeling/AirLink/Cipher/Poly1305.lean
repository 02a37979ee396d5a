import AirLink.Bytes

/-! # Poly1305

A one-time authenticator: the message is a polynomial whose coefficients are its pieces of sixteen
bytes, and the tag is its value at a secret point modulo 2¹³⁰ - 5, with a secret number added.
-/

namespace AirLink.Cipher.Poly1305

def modulus : Nat := 1 <<< 130 - 5

/-- The bits that the secret point may have. -/
def mask : Nat := 0x0ffffffc0ffffffc0ffffffc0fffffff

def absorb (point sum : Nat) (piece : Bytes) : Nat :=
  (sum + Bytes.toNatLE (piece ++ [1])) * point % modulus

/-- The tag of a message under a one-time key: the point, then the number that is added. -/
def tag (key : Octets 32) (message : Bytes) : Octets 16 :=
  let point := Bytes.toNatLE (key.val.take 16) &&& mask
  let sum := (Bytes.chunks 16 message).foldl (absorb point) 0
  Octets.fit 16 (Bytes.ofNatLE 16 (sum + Bytes.toNatLE (key.val.drop 16)))

end AirLink.Cipher.Poly1305
