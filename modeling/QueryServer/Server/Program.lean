import QueryServer.Arguments.Help
import QueryServer.Server.Start
/-!
The program: from its arguments to a running server or an exit.
-/

namespace QueryServer

inductive Program where
  /-- It ends at once with this code and text; only a wish for help is answered on the output. -/
  | exits (code : Nat) (notices : List Notice) (output error : String)
  | serves (c : Configuration) (notices : List Notice) (service : Service Disk)

namespace Program

def crashCode : Nat := 101

def portNotices (a : Arguments) : List Notice :=
  match a.port with
  | some argument =>
    if Port.isInvalid argument then [.invalidPort argument (Port.choose a.port)] else []
  | none => []

def start (argv : List String) (env : Arguments.Environment) (d : Disk) (occupied : Port → Bool) :
    Program :=
  match Arguments.parse argv env with
  | .error .help => .exits 0 [] (Arguments.helpText env) ""
  | .error f => .exits 2 [] "" (Arguments.faultMessage env f)
  | .ok a =>
    let c := a.configuration
    let s := Start.of c d occupied
    let notices := portNotices a ++ s.notices
    match s.result with
    | .serving service => .serves c notices service
    | .failed f => .exits 1 notices "" ("Error: " ++ f.details)
    -- the report of a crash begins with an empty line
    | .crashed reason => .exits crashCode notices "" ("\n" ++ reason)

end Program
end QueryServer
