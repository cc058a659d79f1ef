import QueryServer.Text.Utf8
/-!
Frames on the wire: the UTF-8 bytes of a text and one zero byte after them. A decoder takes frames
from the front of a buffer and remembers how far it has looked for a terminator.
-/

namespace QueryServer

abbrev Bytes := List UInt8

namespace Frame

/-- The byte that ends every frame, in both directions. -/
def terminator : UInt8 := 0

def defaultLimit : Nat := 16 * 1024 * 1024

structure TooLarge where
  size : Nat
  limit : Nat
  deriving DecidableEq, Repr

def TooLarge.message (e : TooLarge) : String :=
  s!"frame size {e.size} exceeds limit of {e.limit} bytes"

def encode (text : String) : Bytes :=
  Text.Utf8.encode text.toList ++ [terminator]

def textOf (bytes : Bytes) : String :=
  String.ofList (Text.Utf8.decode bytes)

def cut? : Bytes → Option (Bytes × Bytes)
  | [] => none
  | b :: bs =>
    if b = terminator then some ([], bs)
    else (cut? bs).map fun (piece, rest) => (b :: piece, rest)

abbrev Found := Except TooLarge (Option String)

/-- A decoder knows that the first `scanned` bytes of its buffer hold no terminator. -/
structure Decoder where
  limit : Nat := defaultLimit
  scanned : Nat := 0
  deriving DecidableEq, Repr

namespace Decoder

/-- Takes the first frame from a buffer. An oversized buffer is refused and left alone. -/
def decode (d : Decoder) (buffer : Bytes) : Found × Decoder × Bytes :=
  match (buffer.drop d.scanned).findIdx? (· == terminator) with
  | some offset =>
    let i := d.scanned + offset
    (.ok (some (textOf (buffer.take i))), { d with scanned := 0 }, buffer.drop (i + 1))
  | none =>
    if d.limit < buffer.length then (.error ⟨buffer.length, d.limit⟩, d, buffer)
    else (.ok none, { d with scanned := buffer.length }, buffer)

/-- Takes the first frame where no bytes follow any more; a tail without a terminator is dropped. -/
def decodeEnd (d : Decoder) (buffer : Bytes) : Found × Decoder × Bytes :=
  match d.decode buffer with
  | (.ok none, d', rest) =>
    if rest.isEmpty then (.ok none, d', rest) else (.ok none, { d' with scanned := 0 }, [])
  | found => found

end Decoder
end Frame
end QueryServer
