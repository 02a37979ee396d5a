import Mathlib
import AirLink.Cipher.Aead
import AirLink.Cipher.SealedBox

/-! # Sealing and opening

Both directions of a stream cipher are one and the same exclusive or, so opening a sealed message
gives it back, and what opens is always as long as its ciphertext without the tag.  Nothing opens
under another tag.
-/

namespace AirLink.Cipher

theorem State.length_toBytes (s : State) : s.toBytes.length = 64 := by
  simp [State.toBytes, List.length_flatMap, Bytes.length_ofNatLE]

theorem length_keystream {block : Nat → Bytes} (size : ∀ i, (block i).length = 64) (n : Nat) :
    (keystream block n).length = n := by
  simp only [keystream, List.length_take, List.length_flatMap, size, List.map_const',
    List.length_range, List.sum_replicate, smul_eq_mul]
  omega

theorem length_apply {block : Nat → Bytes} (size : ∀ i, (block i).length = 64) (message : Bytes) :
    (apply block message).length = message.length := by
  simp [apply, Bytes.xor, length_keystream size]

theorem xor_xor {message stream : Bytes} (short : message.length ≤ stream.length) :
    Bytes.xor (Bytes.xor message stream) stream = message := by
  induction message generalizing stream with
  | nil => simp [Bytes.xor]
  | cons b message ih =>
      cases stream with
      | nil => simp at short
      | cons k stream =>
          have rest := @ih stream (by simpa using short)
          simp only [Bytes.xor, List.zipWith_cons_cons] at rest ⊢
          rw [rest, UInt8.xor_assoc, UInt8.xor_self, UInt8.xor_zero]

/-- Applying a keystream twice gives the message back. -/
theorem apply_apply {block : Nat → Bytes} (size : ∀ i, (block i).length = 64) (message : Bytes) :
    apply block (apply block message) = message := by
  rw [apply, length_apply size, apply, xor_xor (length_keystream size _).ge]

namespace Aead

theorem length_block (key : Octets 32) (nonce : Octets 12) (counter : Nat) :
    (ChaCha20.block key nonce counter).length = 64 := State.length_toBytes _

theorem length_crypt (key : Octets 32) (wire : UInt64) (message : Bytes) :
    (crypt key wire message).length = message.length :=
  length_apply (fun _ => length_block ..) message

theorem length_encrypt (key : Octets 32) (wire : UInt64) (clear plain : Bytes) :
    (encrypt key wire clear plain).length = plain.length + Limits.tag := by
  rw [encrypt, List.length_append, length_crypt, (tag key wire clear _).property]
  rfl

/-- What opens is as long as the ciphertext without its tag. -/
theorem length_of_decrypt {key : Octets 32} {wire : UInt64} {clear bs plain : Bytes}
    (h : decrypt key wire clear bs = .ok plain) : plain.length + Limits.tag = bs.length := by
  unfold decrypt at h
  split at h
  · cases h
  next long =>
    simp only at h
    split at h
    · cases h
      rw [length_crypt, List.length_take]
      omega
    · cases h

theorem decrypt_encrypt (key : Octets 32) (wire : UInt64) (clear plain : Bytes) :
    decrypt key wire clear (encrypt key wire clear plain) = .ok plain := by
  have size := length_encrypt key wire clear plain
  have cut : (encrypt key wire clear plain).length - Limits.tag = (crypt key wire plain).length := by
    rw [size, length_crypt, Nat.add_sub_cancel]
  rw [decrypt, if_neg (by omega)]
  simp only [cut]
  simp only [encrypt, List.take_left', List.drop_left', if_true]
  rw [crypt, crypt, apply_apply fun _ => length_block ..]

/-- A message whose tag has been altered is not opened. -/
theorem decrypt_altered (key : Octets 32) (wire : UInt64) (clear body : Bytes) {altered : Bytes}
    (size : altered.length = Limits.tag) (other : altered ≠ (tag key wire clear body).val) :
    decrypt key wire clear (body ++ altered) = .error .dataNotAuthentic := by
  have cut : (body ++ altered).length - Limits.tag = body.length := by
    rw [List.length_append, size, Nat.add_sub_cancel]
  rw [decrypt, if_neg (by rw [List.length_append]; omega)]
  simp only [cut, List.take_left', List.drop_left', if_neg other]

end Aead

namespace SealedBox

theorem length_keystream (key : Octets 32) (nonce : Octets 24) (size : Nat) :
    ((keystream (Salsa20.block key nonce) (32 + size)).drop 32).length = size := by
  have block (i : Nat) : (Salsa20.block key nonce i).length = 64 := State.length_toBytes _
  rw [List.length_drop, Cipher.length_keystream block, Nat.add_sub_cancel_left]

theorem length_crypt (key : Octets 32) (nonce : Octets 24) (message : Bytes) :
    (crypt key nonce message).length = message.length := by
  rw [crypt, Bytes.xor, List.length_zipWith, length_keystream, Nat.min_self]

theorem length_encrypt (key : Octets 32) (nonce : Octets 24) (plain : Bytes) :
    (encrypt key nonce plain).length = Limits.tag + plain.length := by
  rw [encrypt, List.length_append, length_crypt, (tag key nonce _).property]
  rfl

theorem decrypt_encrypt (key : Octets 32) (nonce : Octets 24) (plain : Bytes) :
    decrypt key nonce (encrypt key nonce plain) = .ok plain := by
  have size := length_encrypt key nonce plain
  have first : (tag key nonce (crypt key nonce plain)).val.length = Limits.tag :=
    (tag key nonce _).property
  rw [decrypt, if_neg (by omega)]
  simp only [encrypt, List.take_left' first, List.drop_left' first, if_true]
  rw [crypt, length_crypt, crypt, xor_xor (length_keystream key nonce _).ge]

end SealedBox

end AirLink.Cipher
