import AirLink.Cipher.Curve25519
import AirLink.Cipher.Poly1305
import AirLink.Cipher.Salsa20
import AirLink.Fault

/-! # Sealing of session packets

A box is sealed with a key that two parties share: either can compute it from its own secret key and
the other's public key.  The first half of the first block of the keystream is the key of the
authenticator, and encryption goes on behind it.  The tag comes first.
-/

namespace AirLink.Cipher.SealedBox

/-- The key shared by the owner of a secret key and the owner of a public key. -/
def sharedKey (secret peer : Octets 32) : Octets 32 :=
  Salsa20.deriveKey (Curve25519.multiply secret peer) (Octets.fit 16 [])

def tag (key : Octets 32) (nonce : Octets 24) (cipher : Bytes) : Octets 16 :=
  Poly1305.tag (Octets.fit 32 (Salsa20.block key nonce 0)) cipher

/-- The message under the keystream, whose first 32 bytes are left out. -/
def crypt (key : Octets 32) (nonce : Octets 24) (message : Bytes) : Bytes :=
  Bytes.xor message ((keystream (Salsa20.block key nonce) (32 + message.length)).drop 32)

def encrypt (key : Octets 32) (nonce : Octets 24) (plain : Bytes) : Bytes :=
  let cipher := crypt key nonce plain
  (tag key nonce cipher).val ++ cipher

def decrypt (key : Octets 32) (nonce : Octets 24) (bs : Bytes) : Except CipherFault Bytes :=
  if bs.length < Limits.tag then .error .sessionNotOpened
  else
    let cipher := bs.drop Limits.tag
    if bs.take Limits.tag = (tag key nonce cipher).val then .ok (crypt key nonce cipher)
    else .error .sessionNotOpened

end AirLink.Cipher.SealedBox
