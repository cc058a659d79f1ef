/-!
Texts as UTF-8 bytes. Reading never fails: each maximal ill-formed part of the bytes becomes one
replacement character.
-/

namespace QueryServer.Text.Utf8

def encode (cs : List Char) : List UInt8 :=
  cs.flatMap String.utf8EncodeChar

/-- The characters of the first `n` bytes of a text, if a character ends there. -/
def front? : Nat → List Char → Option (List Char)
  | 0, _ => some []
  | _ + 1, [] => none
  | n + 1, c :: cs =>
    if c.utf8Size ≤ n + 1 then (front? (n + 1 - c.utf8Size) cs).map (c :: ·) else none

def replacement : Char := '\uFFFD'

/-- A character of which `missing + 1` bytes are still to come; the next one lies between `low`
and `high`. -/
structure Unfinished where
  value : Nat
  missing : Nat
  low : UInt8
  high : UInt8
  deriving DecidableEq, Repr

inductive Lead where
  | ascii (c : Char)
  | opening (p : Unfinished)
  | invalid
  deriving DecidableEq, Repr

/-- The narrower ranges after E0, ED, F0 and F4 exclude overlong forms, surrogates and values
beyond U+10FFFF. -/
def lead (b : UInt8) : Lead :=
  if b < 0x80 then .ascii (Char.ofNat b.toNat)
  else if b < 0xC2 then .invalid
  else if b < 0xE0 then .opening ⟨b.toNat - 0xC0, 0, 0x80, 0xBF⟩
  else if b == 0xE0 then .opening ⟨0, 1, 0xA0, 0xBF⟩
  else if b == 0xED then .opening ⟨0xD, 1, 0x80, 0x9F⟩
  else if b < 0xF0 then .opening ⟨b.toNat - 0xE0, 1, 0x80, 0xBF⟩
  else if b == 0xF0 then .opening ⟨0, 2, 0x90, 0xBF⟩
  else if b < 0xF4 then .opening ⟨b.toNat - 0xF0, 2, 0x80, 0xBF⟩
  else if b == 0xF4 then .opening ⟨4, 2, 0x80, 0x8F⟩
  else .invalid

/-- What is known after one more byte: characters that are now complete, and the open one. -/
def feed : Option Unfinished → UInt8 → List Char × Option Unfinished
  | none, b => begin b
  | some p, b =>
    if p.low ≤ b && b ≤ p.high then
      let value := p.value * 64 + (b.toNat - 0x80)
      match p.missing with
      | 0 => ([Char.ofNat value], none)
      | n + 1 => ([], some ⟨value, n, 0x80, 0xBF⟩)
    else
      let (cs, next) := begin b
      (replacement :: cs, next)
where
  begin (b : UInt8) : List Char × Option Unfinished :=
    match lead b with
    | .ascii c => ([c], none)
    | .opening p => ([], some p)
    | .invalid => ([replacement], none)

def decodeFrom : Option Unfinished → List UInt8 → List Char
  | none, [] => []
  | some _, [] => [replacement]
  | s, b :: bs => (feed s b).1 ++ decodeFrom (feed s b).2 bs

def decode (bs : List UInt8) : List Char :=
  decodeFrom none bs

end QueryServer.Text.Utf8
