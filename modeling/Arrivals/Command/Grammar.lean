/-! Command lines: options with a value each, named `--name` or by one letter, then words. Values may
also come from the environment. What is wrong with a command line is what is found first. -/

namespace Arrivals.Command

inductive UsageError where
  | missingArgument
  | unknownArgument
  | unknownCommand
  | missingCommand
  | invalidValue
  | missingValue
  | unwantedValue
  | repeated
  | help
  | version
  deriving DecidableEq, Repr

inductive ValueForm where
  | text
  /-- a path has at least one character -/
  | path
  | checked (valid : String → Bool)

def ValueForm.check : ValueForm → String → Except UsageError Unit
  | .text, _ => .ok ⟨⟩
  | .path, v => if v.isEmpty then .error .missingValue else .ok ⟨⟩
  | .checked valid, v => if valid v then .ok ⟨⟩ else .error .invalidValue

/-- A variable of the environment; the help shows its value unless that is a secret. -/
structure Variable where
  name : String
  secret : Bool

structure Opt where
  name : String
  letter : Option Char
  source : Option Variable
  fallback : Option String
  required : Bool
  /-- another option that has to be given with this one -/
  partner : Option String
  form : ValueForm
  about : String

structure Grammar where
  options : List Opt
  words : List String
  commands : List String
  versioned : Bool

abbrev Environment := List (String × String)

/-- What has been read of a command line. The latest option may still wait for its value, and its
value is looked at when the next one comes. -/
structure Progress where
  values : List (String × String)
  words : List String
  latest : Option (Opt × Option String)

structure Parsed where
  progress : Progress
  command : Option (String × List String)

namespace Progress

def start : Progress := ⟨[], [], none⟩

def waiting (p : Progress) : Bool :=
  match p.latest with
  | some (_, none) => true
  | _ => false

def put (p : Progress) (o : Opt) (v : String) : Except UsageError Progress := do
  if (p.values.lookup o.name).isSome then throw .repeated
  o.form.check v
  return { p with values := p.values ++ [(o.name, v)] }

def settle (p : Progress) : Except UsageError Progress :=
  match p.latest with
  | none => .ok p
  | some (_, none) => .error .missingValue
  | some (o, some v) => put { p with latest := none } o v

def await (p : Progress) (o : Opt) : Except UsageError Progress := do
  let p ← p.settle
  return { p with latest := some (o, none) }

def attach (p : Progress) (o : Opt) (v : String) : Except UsageError Progress := do
  let p ← p.settle
  p.put o v

def stopFor (p : Progress) (e : UsageError) : Except UsageError Progress := do
  let _ ← p.settle
  throw e

end Progress

namespace Grammar

def splitValue (s : List Char) : List Char × Option (List Char) :=
  match s.dropWhile (· != '=') with
  | [] => (s, none)
  | _ :: v => (s.takeWhile (· != '='), some v)

def readLong (g : Grammar) (p : Progress) (s : List Char) : Except UsageError Progress :=
  let (name, value) := splitValue s
  let name := String.ofList name
  let flag (e : UsageError) := if value.isSome then .error .unwantedValue else p.stopFor e
  match g.options.find? fun o => o.name = name, value with
  | some o, some v => p.attach o (String.ofList v)
  | some o, none => p.await o
  | none, _ =>
    if name = "help" then flag .help
    else if name = "version" && g.versioned then flag .version
    else .error .unknownArgument

def readShort (g : Grammar) (p : Progress) : List Char → Except UsageError Progress
  | [] => .ok p
  | c :: rest =>
    match g.options.find? fun o => o.letter = some c with
    | some o =>
      match rest with
      | [] => p.await o
      | '=' :: v => p.attach o (String.ofList v)
      | v => p.attach o (String.ofList v)
    | none =>
      if c = 'h' then p.stopFor .help
      else if c = 'V' && g.versioned then p.stopFor .version
      else .error .unknownArgument

def readWord (g : Grammar) (p : Progress) (word : String) : Except UsageError Progress := do
  if p.words.length < g.words.length then
    let p ← p.settle
    return { p with words := p.words ++ [word] }
  else if g.commands.isEmpty then throw .unknownArgument
  else throw .unknownCommand

def readAll (g : Grammar) (p : Progress) (wordsOnly : Bool) :
    List String → Except UsageError Parsed
  | [] => .ok ⟨p, none⟩
  | arg :: rest =>
    if wordsOnly then do
      let p ← g.readWord p arg
      g.readAll p true rest
    else if !p.waiting && g.commands.contains arg then .ok ⟨p, some (arg, rest)⟩
    else
      match arg.toList with
      | ['-', '-'] => g.readAll p true rest
      | '-' :: '-' :: long => do
        let p ← g.readLong p long
        g.readAll p false rest
      | '-' :: c :: short => do
        let p ← g.readShort p (c :: short)
        g.readAll p false rest
      | _ =>
        match p.latest with
        | some (o, none) => g.readAll { p with latest := some (o, some arg) } false rest
        | _ => do
          let p ← g.readWord p arg
          g.readAll p false rest

/-- Takes values for options that were not given from the environment. -/
def addEnvironment (environment : Environment) (p : Progress) :
    List Opt → Except UsageError Progress
  | [] => .ok p
  | o :: rest =>
    match p.values.lookup o.name, o.source.bind fun v => environment.lookup v.name with
    | none, some v => do
      let p ← p.put o v
      addEnvironment environment p rest
    | _, _ => addEnvironment environment p rest

def complete (g : Grammar) (p : Progress) : Bool :=
  p.words.length = g.words.length &&
    g.options.all fun o =>
      match p.values.lookup o.name with
      | none => !o.required
      | some _ =>
        match o.partner with
        | none => true
        | some other => (p.values.lookup other).isSome

def addFallbacks (g : Grammar) (values : List (String × String)) : List (String × String) :=
  values ++ g.options.filterMap fun o =>
    if (values.lookup o.name).isSome then none else o.fallback.map fun v => (o.name, v)

structure Arguments where
  values : List (String × String)
  words : List String

def finish (g : Grammar) (environment : Environment) (p : Progress) :
    Except UsageError Arguments := do
  let p ← p.settle
  let p ← addEnvironment environment p g.options
  if g.complete p then return ⟨g.addFallbacks p.values, p.words⟩
  else throw .missingArgument

def parse (g : Grammar) (environment : Environment) (args : List String) :
    Except UsageError Arguments := do
  let found ← g.readAll .start false args
  g.finish environment found.progress

def Arguments.get (a : Arguments) (name : String) : String := (a.values.lookup name).getD ""

end Grammar

end Arrivals.Command
