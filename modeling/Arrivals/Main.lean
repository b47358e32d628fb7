import Arrivals.Command.Run

/-! The program `linewatch` on this host. -/

namespace Arrivals.Command

def readVariables : IO Environment := do
  let names := Action.serveGrammar.options.filterMap fun o => o.source.map Variable.name
  names.filterMapM fun name => do
    return (← IO.getEnv name).map fun v => (name, v)

def readFile (path : String) : IO (Option (String × Bytes)) := do
  try
    let content ← IO.FS.readBinFile path
    return some (path, content.data.toList)
  catch _ => return none

def Action.paths : Action → List String
  | .serve o =>
    o.topology :: (match o.gateway.tls with
      | some files => [files.certificate, files.key]
      | none => [])
  | _ => []

/-- This host has files but lends neither identities nor sockets. -/
def hostOf (files : List (String × Bytes)) : Host :=
  ⟨fun path => files.lookup path, fun _ _ => false, fun _ => false⟩

end Arrivals.Command

open Arrivals.Command in
def main (args : List String) : IO UInt32 := do
  let environment ← readVariables
  let files ← match Action.parse environment args with
    | .ok action => action.paths.filterMapM readFile
    | .error _ => pure []
  match run (hostOf files) environment args with
  | .serving => return 0
  | .exit code output =>
    IO.print output
    if code != 0 then IO.eprintln ("linewatch: failed with " ++ toString code)
    return UInt32.ofNat code
