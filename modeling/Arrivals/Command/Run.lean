import Arrivals.Command.Help
import Arrivals.Command.Serve

/-! The program `linewatch`: it serves, or prints the stored form of a secret. -/

namespace Arrivals.Command

def programName : String := "linewatch"
def programVersion : String := "0.1.0"

inductive Action where
  | serve (options : Serve.Options)
  | hashSecret (key secret : String)
  | help (text : String)
  | version

namespace Action

def levels : List String := ["error", "warn", "info", "debug", "trace"]

def isLevel (s : String) : Bool :=
  levels.contains s.toLower ||
    match uint64? s with
    | some n => 1 ≤ n && n ≤ levels.length
    | none => false

def logLevel : Opt :=
  ⟨"log-level", none, some ⟨"LINEWATCH_LOG", false⟩, some "info", false, none, .checked isLevel,
    "Maximum log level"⟩

def serveName : String := "serve"
def hashSecretName : String := "hash-secret"
def helpName : String := "help"

def root : Grammar := ⟨[logLevel], [], [serveName, hashSecretName, helpName], true⟩

def serveGrammar : Grammar := { Serve.grammar with options := Serve.grammar.options ++ [logLevel] }

def hashSecretGrammar : Grammar := ⟨[hashingKeyOption, logLevel], ["secret"], [], false⟩

def rootManual : Manual :=
  ⟨programName, "Realtime vehicle ETA and position gateway over MQTT",
    [(serveName, "Run the gateway"), (hashSecretName, "Print the stored form of an API secret"),
      (helpName, "Print this message or the help of the given subcommand(s)")],
    some programVersion⟩

def serveManual : Manual := ⟨programName ++ " " ++ serveName, "Run the gateway", [], none⟩

def hashSecretManual : Manual :=
  ⟨programName ++ " " ++ hashSecretName, "Print the stored form of an API secret", [], none⟩

def helpFor (environment : Environment) : List String → Except UsageError Action
  | [] => .ok (.help (Help.text environment rootManual root))
  | [name] =>
    if name = serveName then .ok (.help (Help.text environment serveManual serveGrammar))
    else if name = hashSecretName then
      .ok (.help (Help.text environment hashSecretManual hashSecretGrammar))
    else if name = helpName then .ok (.help (Help.text environment rootManual root))
    else .error .unknownCommand
  | _ => .error .unknownCommand

/-- Reads one level of a command line; asking for help or the version is an action too. -/
def orHelp (environment : Environment) (m : Manual) (g : Grammar) (r : Except UsageError Action) :
    Except UsageError Action :=
  match r with
  | .error .help => .ok (.help (Help.text environment m g))
  | .error .version => .ok .version
  | r => r

def ofCommand (environment : Environment) (name : String) (args : List String) :
    Except UsageError Action :=
  if name = serveName then
    orHelp environment serveManual serveGrammar do
      let a ← serveGrammar.parse environment args
      return .serve (Serve.ofArguments a)
  else if name = hashSecretName then
    orHelp environment hashSecretManual hashSecretGrammar do
      let a ← hashSecretGrammar.parse environment args
      return .hashSecret (a.get hashingKeyOption.name) (a.words.headD "")
  else helpFor environment args

def isInformation : Action → Bool
  | .help _ => true
  | .version => true
  | _ => false

def parse (environment : Environment) (args : List String) : Except UsageError Action :=
  orHelp environment rootManual root do
    let found ← root.readAll .start false args
    match found.command with
    | none =>
      let _ ← root.finish environment found.progress
      throw .missingCommand
    | some (name, rest) =>
      let action ← ofCommand environment name rest
      if !action.isInformation then
        let _ ← root.finish environment found.progress
      return action

end Action

inductive Ending where
  | exit (code : Nat) (output : String)
  | serving
  deriving DecidableEq, Repr

def usageCode : Nat := 2
def failureCode : Nat := 1
/-- for a length of time that there is not -/
def panicCode : Nat := 101

namespace Action

def startServer (host : Host) (o : Serve.Options) : Ending :=
  let network := do
    let content ← host.readFile? o.topology
    let text ← Bytes.toString? content
    (Snapshot.parse text).toOption
  match network, o.validity? with
  | none, _ => .exit failureCode ""
  | some _, none => .exit panicCode ""
  | some _, some _ =>
    match host.prepare o.gateway with
    | .error _ => .exit failureCode ""
    | .ok _ => .serving

def run (host : Host) : Action → Ending
  | .serve o => startServer host o
  | .hashSecret key secret =>
    .exit 0 (Secret.stored (Bytes.ofString key) (Bytes.ofString secret) ++ "\n")
  | .help text => .exit 0 text
  | .version => .exit 0 (programName ++ " " ++ programVersion ++ "\n")

end Action

def run (host : Host) (environment : Environment) (args : List String) : Ending :=
  match Action.parse environment args with
  | .error _ => .exit usageCode ""
  | .ok action => action.run host

end Arrivals.Command
