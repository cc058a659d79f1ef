import QueryServer.Sql.Lexer
import QueryServer.Store.Disk
/-!
Where a store is kept. Its name is a path, or an address that begins with `file:` and may restrict
what is done with the file.
-/

namespace QueryServer

inductive Access where
  | read
  | write
  | create
  /-- Use no file at all. -/
  | memory
  deriving DecidableEq, Repr

inductive OpenFault where
  /-- The name has a zero byte, after so many others. -/
  | zeroByte (position : Nat)
  /-- There is no such file and none is made, or it is a directory. -/
  | cannotOpen (name : String)
  | authority (text : String)
  | noSuchAccess (mode : String)
  | accessRefused (mode : String)
  | noSuchCache (mode : String)
  | noSuchSystem (name : String)
  /-- There is no memory for a connection, and none for saying so. -/
  | noMemory (name : String)
  deriving DecidableEq, Repr

def OpenFault.message : OpenFault → String
  | zeroByte position => s!"nul byte found in provided data at position: {position}"
  | cannotOpen name => "unable to open database file: " ++ name
  | authority text => "invalid uri authority: " ++ text
  | noSuchAccess mode => "no such access mode: " ++ mode
  | accessRefused mode => "access mode not allowed: " ++ mode
  | noSuchCache mode => "no such cache mode: " ++ mode
  | noSuchSystem name => "no such vfs: " ++ name
  | noMemory name => name

inductive Place where
  /-- In the memory of one connection, empty at first and gone with it. -/
  | memory
  | path (p : Path)
  deriving DecidableEq, Repr

structure Location where
  place : Place
  access : Access
  /-- Nobody ever changes the file: it is only read, and it may still be made. -/
  immutable : Bool
  deriving DecidableEq, Repr

namespace Location

/-- Goes from a directory to what a name stands for. -/
def descend (p : Path) (name : String) : Path :=
  if name = "" ∨ name = "." then p
  else if name = ".." ∧ p ≠ [] then p.dropLast
  else p ++ [name]

/-- Where a path starts; an absolute one begins with a slash of its own. -/
def startOf (text : List Char) : Path :=
  if text.head? = some '/' then ["/"] else []

def namesOf (text : List Char) : List String :=
  (text.splitOn '/').map String.ofList

def pathOf (text : List Char) : Path :=
  (namesOf text).foldl descend (startOf text)

/-- Where names lead to, if each one is looked up in a directory that exists. -/
def reach? (d : Disk) (p : Path) : List String → Option Path
  | [] => some p
  | name :: rest => if d.isDirectory p then reach? d (descend p name) rest else none

def placeOf (name : List Char) : Place :=
  if name.isEmpty || name == ":memory:".toList then .memory else .path (pathOf name)

/-- The bytes of a part of an address: a percent sign and two hexadecimal digits stand for one
byte. A zero byte ends the part. -/
def unescapedBytes : List Char → Bytes
  | [] => []
  | '%' :: a :: b :: rest =>
    if Sql.Lexeme.isHexDigit a && Sql.Lexeme.isHexDigit b then
      let byte := UInt8.ofNat (Sql.Lexeme.hexValue a * 16 + Sql.Lexeme.hexValue b)
      if byte = 0 then [] else byte :: unescapedBytes rest
    else String.utf8EncodeChar '%' ++ unescapedBytes (a :: b :: rest)
  | c :: cs => String.utf8EncodeChar c ++ unescapedBytes cs

def unescaped (part : List Char) : List Char :=
  Text.Utf8.decode (unescapedBytes part)

/-- The options of an address, with their values. Options without a name do not count. -/
def options (query : List Char) : List (String × String) :=
  (query.splitOn '&').filterMap fun item =>
    let name := item.takeWhile (· != '=')
    let value := (item.dropWhile (· != '=')).drop 1
    if name.isEmpty then none
    else some (String.ofList (unescaped name), String.ofList (unescaped value))

/-- The number that a text begins with; one that does not fit into 31 bits is none. -/
def leadingNumber (value : List Char) : Nat :=
  let n := (value.takeWhile Char.isDigit).foldl (fun n c => n * 10 + (c.toNat - '0'.toNat)) 0
  if n < 1 <<< 31 then n else 0

/-- Whether a value means yes: a word for it, or a number of which the last byte is not zero. -/
def isYes (value : String) : Bool :=
  if value.toList.head?.any Char.isDigit then leadingNumber value.toList % 256 != 0
  else ["on", "yes", "true"].any (Sql.sameName value)

/-- Whether an option is given and means yes where it is given first. -/
def isSet (os : List (String × String)) (name : String) : Bool :=
  (os.lookup name).any isYes

def rank : Access → Nat
  | .read => 0
  | .write => 1
  | .create => 2
  | .memory => 3

/-- Applies one option. An access may only be narrowed, where memory is the widest of them
although everybody may ask for it. -/
def applyOption (l : Location) (name value : String) : Except OpenFault Location :=
  let narrow (a : Access) : Except OpenFault Location :=
    if rank a ≤ rank l.access then .ok { l with access := a } else .error (.accessRefused value)
  if name = "mode" then
    match value with
    | "ro" => narrow .read
    | "rw" => narrow .write
    | "rwc" => narrow .create
    | "memory" => .ok { l with access := .memory }
    | _ => .error (.noSuchAccess value)
  else if name = "cache" then
    if value = "shared" ∨ value = "private" then .ok l else .error (.noSuchCache value)
  else .ok l

/-- The access that was asked for last decides whether there is a file. -/
def placed (l : Location) : Location :=
  if l.access = .memory then { l with place := .memory } else l

def systems : List String := ["unix", "unix-none", "unix-dotfile", "unix-excl", "memdb"]

/-- The last file system that an address names must exist. -/
def checkSystem (l : Location) (os : List (String × String)) : Except OpenFault Location :=
  match (os.filter (·.1 = "vfs")).getLast? with
  | none => .ok l
  | some (_, name) =>
    if name = "memdb" then .ok { l with place := .memory }
    else if systems.contains name then .ok l
    else .error (.noSuchSystem name)

def parts (rest : List Char) : Except OpenFault (List Char × List (String × String)) := do
  let body ← match rest with
    | '/' :: '/' :: r =>
      let authority := r.takeWhile (· != '/')
      if authority = [] ∨ authority = "localhost".toList then pure (r.dropWhile (· != '/'))
      else throw (.authority (String.ofList authority))
    | r => pure r
  let body := body.takeWhile (· != '#')
  return (unescaped (body.takeWhile (· != '?')), options ((body.dropWhile (· != '?')).drop 1))

def ofAddress (rest : List Char) (wanted : Access) : Except OpenFault Location := do
  let (name, os) ← parts rest
  let start : Location := ⟨placeOf name, wanted, isSet os "immutable"⟩
  let l ← os.foldlM (fun l (name, value) => l.applyOption name value) start
  checkSystem l.placed os

def ofText (wanted : Access) : List Char → Except OpenFault Location
  | 'f' :: 'i' :: 'l' :: 'e' :: ':' :: rest => ofAddress rest wanted
  | cs => .ok ⟨placeOf cs, wanted, false⟩

def ofName (name : String) (wanted : Access) : Except OpenFault Location :=
  let before := name.toList.takeWhile (· != '\x00')
  if before.length < name.length then .error (.zeroByte (String.ofList before).utf8ByteSize)
  else ofText wanted name.toList

end Location
end QueryServer
