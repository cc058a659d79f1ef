import QueryServer.Arguments
/-!
The texts that the command line answers with: the description of all options, and one line for
each fault.
-/

namespace QueryServer.Arguments

def purpose : Setting → String
  | .host => "The address to bind to"
  | .database => "Path of the SQLite store file"
  | .busyTimeout => "How long a command waits for a locked store before failing"
  | .frameLimit => "Largest frame accepted from a client, in bytes"

def defaultText : Setting → String
  | .host => ({} : Arguments).host
  | .database => ({} : Arguments).database
  | .busyTimeout => toString ({} : Arguments).busyTimeout
  | .frameLimit => toString ({} : Arguments).frameLimit

def describe (env : Environment) (s : Setting) : String :=
  let value := (env.lookup s.environmentName).getD ""
  s!"      {s.usage}\n          {purpose s} [env: {s.environmentName}={value}] [default: {defaultText s}]\n"

def helpText (env : Environment) : String :=
  "Usage: sqlproxy [OPTIONS] [PORT]\n\nArguments:\n" ++
    "  [PORT]  The port to listen on, falls back to 7778 when missing or invalid\n\nOptions:\n" ++
    String.join (Setting.all.map (describe env)) ++
    "  -h, --help\n          Print help\n"

def faultMessage (env : Environment) : ArgumentFault → String
  | .help => helpText env
  | .unknown argument => s!"error: unexpected argument '{argument}' found"
  | .missingValue s => s!"error: a value is required for '{s.usage}' but none was supplied"
  | .repeated s => s!"error: the argument '{s.usage}' cannot be used multiple times"
  | .invalidNumber s value fault =>
    s!"error: invalid value '{value}' for '{s.usage}': {fault.message}"
  | .helpWithValue value =>
    s!"error: unexpected value '{value}' for '--help' found; no more were expected"

end QueryServer.Arguments
