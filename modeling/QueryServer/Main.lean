import QueryServer.Machine
import QueryServer.Server.Program
/-!
The command line program. It serves one client, whose bytes come from the standard input; replies
go to the standard output, and notices to the standard error. The store is made anew at the start
and lives as long as the program.
-/

namespace QueryServer.Main

def chunkSize : USize := 65536

def environment : IO Arguments.Environment :=
  Setting.all.filterMapM fun s => do
    return (← IO.getEnv s.environmentName).map (s.environmentName, ·)

def report (notices : List Notice) : IO Unit := do
  let err ← IO.getStderr
  for n in notices do
    err.putStrLn n.line

def reply (output : IO.FS.Stream) (h : Handler) : IO Handler := do
  let w := h.connection.writer
  output.write ⟨w.sent.toArray⟩
  output.flush
  return { h with connection := { h.connection with writer := { w with sent := [] } } }

partial def serve (run : Execution Machine) (m : Machine) (h : Handler) : IO Unit := do
  let bytes ← (← IO.getStdin).read chunkSize
  let arrival : Arrival := if bytes.isEmpty then .ending else .chunk bytes.toList
  let c := h.connection
  let (m, h) := Handler.settle run m
    { h with connection := { c with arrivals := c.arrivals ++ [arrival] } }
  let h ← reply (← IO.getStdout) h
  if h.isClosed then return else serve run m h

end QueryServer.Main

open QueryServer

def main (arguments : List String) : IO UInt32 := do
  match Program.start arguments (← Main.environment) {} fun _ => false with
  | .exits code notices output error =>
    Main.report notices
    (← IO.getStdout).putStr output
    if !error.isEmpty then (← IO.getStderr).putStrLn error
    return code.toUInt32
  | .serves c notices service =>
    Main.report notices
    Main.serve (c.store.engine.execution Executor.calm) ⟨service.state, {}⟩
      (.ofArrivals c.frameLimit [] [])
    Main.report [.shuttingDown]
    return 0
