import AirLink.Cipher.Curve25519
import AirLink.Cipher.SealedBox
import AirLink.Fault

/-! # Long-term keys

Each end of a link has a secret key of its own and knows the public key of the other end.  A key
file holds the two, one behind the other.
-/

namespace AirLink

/-- A 32-byte key: secret, public or shared. -/
abbrev Key := Octets 32

/-- What one end of a link knows: its own secret key and the public key of the other end. -/
structure LinkKeys where
  secret : Key
  peer : Key
  deriving DecidableEq

namespace LinkKeys

def fileSize : Nat := 2 * Limits.key

def ofBytes (bs : Bytes) : Except Fault LinkKeys :=
  if bs.length = fileSize then .ok ⟨Octets.fit 32 bs, Octets.fit 32 (bs.drop Limits.key)⟩
  else .error (.keyFile (.wrongSize bs.length))

def toBytes (keys : LinkKeys) : Bytes := keys.secret.val ++ keys.peer.val

def publicKey (keys : LinkKeys) : Key := Cipher.Curve25519.publicKey keys.secret

/-- The key under which this end and the other seal session packets. -/
def boxKey (keys : LinkKeys) : Key := Cipher.SealedBox.sharedKey keys.secret keys.peer

/-- The keys of the two ends of a link with the given secret keys. -/
def pair (first second : Key) : LinkKeys × LinkKeys :=
  (⟨first, Cipher.Curve25519.publicKey second⟩, ⟨second, Cipher.Curve25519.publicKey first⟩)

end LinkKeys

end AirLink
