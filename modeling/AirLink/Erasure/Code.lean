import AirLink.Bytes
import AirLink.Erasure.Matrix
import AirLink.Fault

/-! # The erasure code

`k` data shares and `n - k` parity shares: any `k` of them give the data back.  Byte by byte, the
data shares are the values of a polynomial of degree below `k` at the first `k` points, and the
parity shares are its values at the points after them.  A parity share is therefore a weighted sum
of the data shares, with weights that depend on `k` and `n` alone.
-/

namespace AirLink

namespace Erasure

/-- The points at which the polynomials are evaluated: zero and then the powers of the primitive
root. -/
def point : Nat → GF256
  | 0 => 0
  | j + 1 => GF256.exp j

/-- The powers of a point; multiplied with the coefficients of a polynomial they give its value. -/
def powersRow (k : Nat) (x : GF256) : Row k := Vector.ofFn fun c => x.pow c

/-- Adds a multiple of a share to a sum.  A share that is shorter counts as followed by zeros, one
that is longer is cut. -/
def addScaled (factor : GF256) : Bytes → Bytes → Bytes
  | [], sum => sum
  | _, [] => []
  | b :: share, s :: sum => (⟨s⟩ + factor * ⟨b⟩ : GF256).byte :: addScaled factor share sum

/-- The first `size` bytes of the weighted sum of some shares. -/
def weightedSum (size : Nat) (weights : List GF256) (shares : List Bytes) : Bytes :=
  (weights.zip shares).foldl
    (fun sum (weight, share) => if weight = 0 then sum else addScaled weight share sum)
    (Bytes.zeros size)

end Erasure

open Erasure

structure ErasureCode where
  k : Nat
  n : Nat
  /-- The weights of the data shares in each parity share. -/
  parityRows : List (Row k)

namespace ErasureCode

def create (k n : Nat) : Except Fault ErasureCode :=
  if k = 0 ∨ n < k ∨ Limits.shares < n then .error (.invalidCodeSize k n)
  else
    let values : Erasure.Matrix k := Vector.ofFn fun i => powersRow k (point i)
    match values.invert with
    | none => .error (.shares .singularMatrix)
    | some toCoefficients =>
      let parityRows := (List.range (n - k)).map fun j =>
        (powersRow k (point (k + j))).times toCoefficients
      .ok { k, n, parityRows }

/-- The weights of the data shares in any share: a data share is itself. -/
def row (code : ErasureCode) (share : Nat) : Row code.k :=
  if share < code.k then Row.unit code.k share
  else code.parityRows.getD (share - code.k) (Vector.replicate code.k 0)

/-- Writes the first `size` bytes of the parity shares over the given buffers, the first buffer
taking the first parity share.  What a buffer holds behind them stays. -/
def encode (code : ErasureCode) (data buffers : List Bytes) (size : Nat) :
    Except Fault (List Bytes) :=
  if data.length ≠ code.k ∨ code.n - code.k < buffers.length then .error (.shares .shareCount)
  else if buffers.any (·.length < size) then .error (.shares .bufferTooSmall)
  else .ok (List.zipWith
    (fun row buffer => Bytes.overlay (weightedSum size row.toList data) buffer)
    code.parityRows buffers)

/-- Whether a list of share indices is one that data can be rebuilt from: each is a share of the
code, and a data share stands at its own place. -/
def wellPlaced (code : ErasureCode) (indices : List Nat) : Bool :=
  indices.zipIdx.all fun (share, i) => share < code.n && (code.k ≤ share || share = i)

/-- The places that hold a parity share instead of their own data share. -/
def missing (code : ErasureCode) (indices : List Nat) : List (Fin code.k) :=
  (List.finRange code.k).filter fun i => code.k ≤ indices.getD i 0

/-- Rebuilds the missing data shares from `k` shares and writes their first `size` bytes over the
given buffers, in the order of the missing places.  What a buffer holds behind them stays. -/
def decode (code : ErasureCode) (inputs : List Bytes) (indices : List Nat) (buffers : List Bytes)
    (size : Nat) : Except Fault (List Bytes) :=
  if inputs.length ≠ code.k ∨ indices.length ≠ code.k then .error (.shares .inputCount)
  else if inputs.any (·.length < size) then .error (.shares .inputTooShort)
  else if !code.wellPlaced indices then .error (.shares .badIndex)
  else if buffers.length ≠ (code.missing indices).length then .error (.shares .outputCount)
  else if (code.missing indices).isEmpty then .ok []
  else
    let shares : Erasure.Matrix code.k := Vector.ofFn fun i => code.row (indices.getD i 0)
    match shares.invert with
    | none => .error (.shares .singularMatrix)
    | some toData =>
      if buffers.any (·.length < size) then .error (.shares .bufferTooSmall)
      else .ok (List.zipWith
        (fun i buffer => Bytes.overlay (weightedSum size toData[i].toList inputs) buffer)
        (code.missing indices) buffers)

end ErasureCode

/-- The kinds of erasure codes that a session can announce. -/
inductive CodeScheme where
  | vandermonde
  deriving DecidableEq, Repr

namespace CodeScheme

def code : CodeScheme → UInt8
  | vandermonde => 1

def ofCode (code : UInt8) : Except Fault CodeScheme :=
  if code = 1 then .ok .vandermonde else .error (.unsupportedScheme code)

end CodeScheme

end AirLink
