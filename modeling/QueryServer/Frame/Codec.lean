import QueryServer.Frame
/-!
A decoder between an input buffer and an output buffer, and the plain rule it follows: look
through the whole input on every call.
-/

namespace QueryServer.Frame

structure Codec where
  decoder : Decoder := {}
  input : Bytes := []
  output : Bytes := []
  deriving DecidableEq, Repr

inductive Request where
  | feed (bytes : Bytes)
  | decode
  | decodeEnd
  | encode (text : String)
  deriving DecidableEq, Repr

namespace Codec

def serve (c : Codec) : Request → Option Found × Codec
  | .feed bytes => (none, { c with input := c.input ++ bytes })
  | .decode =>
    let (found, decoder, rest) := c.decoder.decode c.input
    (some found, { c with decoder := decoder, input := rest })
  | .decodeEnd =>
    let (found, decoder, rest) := c.decoder.decodeEnd c.input
    (some found, { c with decoder := decoder, input := rest })
  | .encode text => (none, { c with output := c.output ++ Frame.encode text })

def loopBack (c : Codec) : Codec :=
  { c with input := c.input ++ c.output, output := [] }

end Codec

/-- A codec that remembers nothing between calls. -/
structure Rescan where
  limit : Nat := defaultLimit
  input : Bytes := []
  output : Bytes := []
  deriving DecidableEq, Repr

namespace Rescan

def decode (c : Rescan) : Found × Rescan :=
  match cut? c.input with
  | some (piece, rest) => (.ok (some (textOf piece)), { c with input := rest })
  | none =>
    if c.limit < c.input.length then (.error ⟨c.input.length, c.limit⟩, c) else (.ok none, c)

def serve (c : Rescan) : Request → Option Found × Rescan
  | .feed bytes => (none, { c with input := c.input ++ bytes })
  | .decode => let (found, c') := c.decode; (some found, c')
  | .decodeEnd =>
    match c.decode with
    | (.ok none, c') => (some (.ok none), { c' with input := [] })
    | (found, c') => (some found, c')
  | .encode text => (none, { c with output := c.output ++ Frame.encode text })

end Rescan
end QueryServer.Frame
