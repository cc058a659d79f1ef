import QueryServer.Configuration
/-!
The command line. Arguments are taken from left to right; an option on the command line beats the
environment, which beats the default.
-/

namespace QueryServer

inductive Setting where
  | host
  | database
  | busyTimeout
  | frameLimit
  deriving DecidableEq, Repr

namespace Setting

def all : List Setting := [host, database, busyTimeout, frameLimit]

def name : Setting → String
  | host => "host"
  | database => "database"
  | busyTimeout => "busy-timeout-ms"
  | frameLimit => "max-frame-size"

def placeholder : Setting → String
  | host => "HOST"
  | database => "DATABASE"
  | busyTimeout => "BUSY_TIMEOUT_MS"
  | frameLimit => "MAX_FRAME_SIZE"

def environmentName : Setting → String
  | host => "SQLPROXY_HOST"
  | database => "SQLPROXY_DATABASE"
  | busyTimeout => "SQLPROXY_BUSY_TIMEOUT_MS"
  | frameLimit => "SQLPROXY_MAX_FRAME_SIZE"

def usage (s : Setting) : String :=
  s!"--{s.name} <{s.placeholder}>"

end Setting

/-- Why a command line gives no arguments; the wish for help is one reason. -/
inductive ArgumentFault where
  | help
  | unknown (argument : String)
  | missingValue (setting : Setting)
  | repeated (setting : Setting)
  | invalidNumber (setting : Setting) (value : String) (fault : Numeral.Fault)
  | helpWithValue (value : String)
  deriving DecidableEq, Repr

structure Given where
  host : Option String := none
  database : Option String := none
  busyTimeout : Option Nat := none
  frameLimit : Option Nat := none
  deriving DecidableEq, Repr

namespace Given

def has (g : Given) : Setting → Bool
  | .host => g.host.isSome
  | .database => g.database.isSome
  | .busyTimeout => g.busyTimeout.isSome
  | .frameLimit => g.frameLimit.isSome

def number (s : Setting) (value : String) : Except ArgumentFault Nat :=
  (Numeral.read (UInt64.size - 1) value.toList).mapError (.invalidNumber s value)

/-- Stores an acceptable value: any host, any path but the empty one, and numbers of 64 bits. -/
def put (g : Given) (s : Setting) (value : String) : Except ArgumentFault Given :=
  match s with
  | .host => .ok { g with host := some value }
  | .database =>
    if value.isEmpty then .error (.missingValue .database) else .ok { g with database := some value }
  | .busyTimeout => (number s value).map fun n => { g with busyTimeout := some n }
  | .frameLimit => (number s value).map fun n => { g with frameLimit := some n }

def putOnce (g : Given) (s : Setting) (value : String) : Except ArgumentFault Given :=
  if g.has s then .error (.repeated s) else g.put s value

end Given

/-- What the command line says, with options that were not given left to their defaults. -/
structure Arguments where
  port : Option String := none
  /-- Positional arguments after the port; they have no effect. -/
  extra : List String := []
  host : String := "127.0.0.1"
  database : String := "stomp_server.db"
  busyTimeout : Nat := 5000
  frameLimit : Nat := Frame.defaultLimit
  deriving DecidableEq, Repr

namespace Arguments

inductive Shape where
  /-- Two hyphens alone: all that follows is positional. -/
  | escape
  /-- Two hyphens and a name, and what stands after an equals sign. -/
  | long (name : List Char) (value : Option (List Char))
  | cluster (letters : List Char)
  | plain
  deriving DecidableEq, Repr

def splitValue (cs : List Char) : List Char × Option (List Char) :=
  match cs.dropWhile (· != '=') with
  | [] => (cs, none)
  | _ :: value => (cs.takeWhile (· != '='), some value)

def shape (argument : String) : Shape :=
  match argument.toList with
  | ['-', '-'] => .escape
  | '-' :: '-' :: cs => let (name, value) := splitValue cs; .long name value
  | '-' :: c :: cs => .cluster (c :: cs)
  | _ => .plain

structure Progress where
  port : Option String := none
  extra : List String := []
  given : Given := {}
  pending : Option (Setting × Option String) := none
  trailing : Bool := false
  deriving DecidableEq, Repr

namespace Progress

def settle (p : Progress) : Except ArgumentFault Progress :=
  match p.pending with
  | none => .ok p
  | some (s, none) => .error (.missingValue s)
  | some (s, some value) => (p.given.putOnce s value).map fun g => { p with given := g, pending := none }

def positional (p : Progress) (argument : String) : Except ArgumentFault Progress := do
  let p ← p.settle
  match p.port with
  | none => return { p with port := some argument }
  | some _ => return { p with extra := p.extra ++ [argument] }

/-- Takes an argument that is no option: the value that the last option lacks, or a positional. -/
def word (p : Progress) (argument : String) : Except ArgumentFault Progress :=
  match p.pending with
  | some (s, none) => .ok { p with pending := some (s, some argument) }
  | _ => p.positional argument

/-- Takes an argument that looks like an option but is none. While the port is missing it is an
ordinary word. -/
def hyphenated (p : Progress) (argument shown : String) : Except ArgumentFault Progress :=
  if p.port.isNone then p.word argument else .error (.unknown shown)

def long (p : Progress) (argument : String) (name : List Char) (value : Option (List Char)) :
    Except ArgumentFault Progress :=
  if name = "help".toList then
    match value with
    | some v => .error (.helpWithValue (String.ofList v))
    | none => do
      let _ ← p.settle
      throw .help
  else
    match Setting.all.find? (·.name.toList = name) with
    | some s => do
      let p ← p.settle
      match value with
      | some v => return { p with given := ← p.given.putOnce s (String.ofList v) }
      | none => return { p with pending := some (s, none) }
    | none => p.hyphenated argument (String.ofList ('-' :: '-' :: name))

/-- Takes a hyphen and letters, of which only `h` has a meaning. -/
def cluster (p : Progress) (argument : String) (letters : List Char) :
    Except ArgumentFault Progress :=
  if letters.head? = some 'h' && (p.port.isSome || letters.all (· == 'h')) then do
    let _ ← p.settle
    throw .help
  else p.hyphenated argument (String.ofList ('-' :: letters.take 1))

def step (p : Progress) (argument : String) : Except ArgumentFault Progress :=
  if p.trailing then p.positional argument
  else
    match shape argument with
    | .escape => .ok { p with trailing := true }
    | .long name value => p.long argument name value
    | .cluster letters => p.cluster argument letters
    | .plain => p.word argument

end Progress

abbrev Environment := List (String × String)

def fromEnvironment (env : Environment) (g : Given) (s : Setting) : Except ArgumentFault Given :=
  if g.has s then .ok g
  else
    match env.lookup s.environmentName with
    | some value => g.put s value
    | none => .ok g

def parse (argv : List String) (env : Environment) : Except ArgumentFault Arguments := do
  let p ← argv.foldlM Progress.step {}
  let p ← p.settle
  let g ← Setting.all.foldlM (fromEnvironment env) p.given
  let d : Arguments := {}
  return {
    port := p.port
    extra := p.extra
    host := g.host.getD d.host
    database := g.database.getD d.database
    busyTimeout := g.busyTimeout.getD d.busyTimeout
    frameLimit := g.frameLimit.getD d.frameLimit }

def configuration (a : Arguments) : Configuration where
  host := a.host
  port := Port.choose a.port
  database := a.database
  busyTimeout := a.busyTimeout
  frameLimit := a.frameLimit

end Arguments
end QueryServer
