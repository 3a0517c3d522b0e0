import RobotScript.Bytecode

/-!
# The binary format of bytecode

A number is written as a varint: bytes of seven bits each, lowest first, every byte but the last
with its high bit set. A varint that is read has at most ten bytes, and the tenth is at most one,
which is room for 64 bits. Code is written as the number of its numbers and then the numbers.
Reading accepts longer forms of a number than the one that is written, and ignores what follows
the last number.

## Main definitions

* `Varint.encode`, `Varint.decode` — a number as bytes.
* `Bytecode.toBytes`, `Bytecode.ofBytes` — code as bytes.
-/

namespace RobotScript

/-- Why bytes are not the bytes of code. -/
inductive BinaryError where
  /-- The bytes end inside a varint or before one that is due. -/
  | endOfInput
  /-- A varint does not fit in 64 bits. -/
  | overlongVarint
  deriving DecidableEq, Repr

/-- The message of a binary error. -/
def BinaryError.message : BinaryError → String
  | endOfInput => "postcard: Hit the end of buffer, expected more data"
  | overlongVarint =>
    "postcard: Found a varint that didn't terminate. Is the usize too big for this platform?"

namespace Varint

/-- The bytes of a number. -/
def encode (n : Nat) : List UInt8 :=
  if n < 128 then [n.toUInt8] else (n % 128 + 128).toUInt8 :: encode (n / 128)
termination_by n

/-- The number at the start of `bytes`, in at most `limit` bytes of which the last that `limit`
allows is at most one, and the bytes after it. -/
def decodeWithin (limit : Nat) (bytes : List UInt8) : Except BinaryError (Nat × List UInt8) :=
  match limit, bytes with
  | 0, _ => .error .overlongVarint
  | _ + 1, [] => .error .endOfInput
  | limit + 1, b :: rest =>
    if b < 128 then
      if limit = 0 ∧ 1 < b then .error .overlongVarint else .ok (b.toNat, rest)
    else do
      let (high, rest) ← decodeWithin limit rest
      return (b.toNat - 128 + 128 * high, rest)

/-- The number of at most 64 bits at the start of `bytes`, and the bytes after it. -/
def decode (bytes : List UInt8) : Except BinaryError (Nat × List UInt8) :=
  decodeWithin 10 bytes

/-- So many numbers at the start of `bytes`. -/
def decodeMany (count : Nat) (bytes : List UInt8) : Except BinaryError (List Nat) :=
  match count with
  | 0 => .ok []
  | count + 1 => do
    let (n, rest) ← decode bytes
    let later ← decodeMany count rest
    return n :: later

end Varint

namespace Bytecode

/-- The bytes of code: its length and its numbers. -/
def toBytes (bc : Bytecode) : List UInt8 :=
  (bc.size :: bc.values).flatMap Varint.encode

/-- The code at the start of `bytes`. -/
def ofBytes (bytes : List UInt8) : Except BinaryError Bytecode := do
  let (count, rest) ← Varint.decode bytes
  let values ← Varint.decodeMany count rest
  return ⟨values⟩

end Bytecode

end RobotScript
