import AirLink.Cipher.ChaCha20
import AirLink.Cipher.Poly1305
import AirLink.Fault

/-! # Sealing of data packets

ChaCha20 encrypts the fragment and Poly1305 authenticates the ciphertext together with the header
that was sent in the clear.  The first block of the keystream gives the key of the authenticator,
the blocks after it encrypt.
-/

namespace AirLink.Cipher.Aead

/-- The nonce of a packet: four zero bytes and the 64 bits from its header. -/
def nonce (wire : UInt64) : Octets 12 :=
  Octets.fit 12 (Bytes.zeros 4 ++ Bytes.ofNatBE 8 wire.toNat)

def padding (bs : Bytes) : Bytes := Bytes.zeros ((16 - bs.length % 16) % 16)

/-- What the tag covers: both strings padded, then both lengths. -/
def covered (clear cipher : Bytes) : Bytes :=
  clear ++ padding clear ++ cipher ++ padding cipher
    ++ Bytes.ofNatLE 8 clear.length ++ Bytes.ofNatLE 8 cipher.length

def tag (key : Octets 32) (wire : UInt64) (clear cipher : Bytes) : Octets 16 :=
  Poly1305.tag (Octets.fit 32 (ChaCha20.block key (nonce wire) 0)) (covered clear cipher)

def crypt (key : Octets 32) (wire : UInt64) (message : Bytes) : Bytes :=
  apply (fun i => ChaCha20.block key (nonce wire) (i + 1)) message

def encrypt (key : Octets 32) (wire : UInt64) (clear plain : Bytes) : Bytes :=
  let cipher := crypt key wire plain
  cipher ++ (tag key wire clear cipher).val

def decrypt (key : Octets 32) (wire : UInt64) (clear bs : Bytes) : Except CipherFault Bytes :=
  if bs.length < Limits.tag then .error (.wrongLength Limits.tag bs.length)
  else
    let cipher := bs.take (bs.length - Limits.tag)
    if bs.drop (bs.length - Limits.tag) = (tag key wire clear cipher).val then
      .ok (crypt key wire cipher)
    else .error .dataNotAuthentic

end AirLink.Cipher.Aead
