import Mathlib.Data.Nat.Digits

/-! The byte-level Go library calls the SM2 pool code reads: `big.Int`'s big-endian
`SetBytes` and `Bytes`, and `io.ReadFull` on a random source. -/

namespace Gmsm

namespace BigInt

/-- `new(big.Int).SetBytes(b)`: `b` read as a big-endian unsigned integer. -/
def setBytes (b : List UInt8) : Nat := b.foldl (fun acc x => acc * 256 + x.toNat) 0

/-- `x.Bytes()`: the big-endian bytes of `x` with no leading zero byte. -/
def bytes (x : Nat) : List UInt8 := ((Nat.digits 256 x).map UInt8.ofNat).reverse

end BigInt

inductive ReadErr where
  | EOF
  | ErrUnexpectedEOF
  | other (msg : String)
  deriving DecidableEq, Repr

/-- An `io.Reader` as `io.ReadFull` sees it: the bytes it yields, then the error it stops with. -/
structure Reader where
  bytes : List UInt8
  err : ReadErr
  deriving DecidableEq, Repr

/-- `io.ReadFull(r, buf)` with `len(buf) = n`: the first `n` bytes, or the error of
`io.ReadAtLeast` when the source stops short (`EOF` after a partial read becomes
`ErrUnexpectedEOF`). -/
def readFull (r : Reader) (n : Nat) : Except ReadErr (List UInt8) :=
  if n ≤ r.bytes.length then .ok (r.bytes.take n)
  else if r.bytes = [] then .error r.err
  else .error (if r.err = .EOF then .ErrUnexpectedEOF else r.err)

/-- The source once `io.ReadFull` asked it for `n` bytes: what lies past them, or only its error
once a short read took all it had. -/
def Reader.advance (r : Reader) (n : Nat) : Reader := ⟨r.bytes.drop n, r.err⟩

theorem readFull_length {r : Reader} {n : Nat} {b : List UInt8} (h : readFull r n = .ok b) :
    b.length = n := by
  unfold readFull at h
  split at h
  · cases h
    simpa
  · split at h <;> cases h

end Gmsm
