import Arrivals.Command.Grammar

/-! The help of a command: what it is about, how it is called, its commands and its options, each in
two columns. -/

namespace Arrivals.Command

structure Manual where
  name : String
  about : String
  commands : List (String × String)
  version : Option String

namespace Help

def placeholder (name : String) : String := "<" ++ (name.map fun c => if c = '-' then '_' else c.toUpper) ++ ">"

def padded (width : Nat) (s : String) : String := s.pushn ' ' (width - s.length)

def table (rows : List (String × String)) : List String :=
  let width := (rows.map fun r => r.1.length).foldl max 0
  rows.map fun r =>
    "  " ++ (if r.2.isEmpty then r.1 else padded width r.1 ++ "  " ++ r.2)

def optionFlags (o : Opt) : String :=
  (match o.letter with
    | some c => "-" ++ c.toString ++ ", "
    | none => "    ") ++ "--" ++ o.name ++ " " ++ placeholder o.name

def sourceNote (environment : Environment) (v : Variable) : String :=
  "[env: " ++ v.name ++ (if v.secret then "" else "=" ++ (environment.lookup v.name).getD "") ++ "]"

def optionAbout (environment : Environment) (o : Opt) : String :=
  " ".intercalate ((if o.about.isEmpty then [] else [o.about]) ++
    (o.source.map (sourceNote environment)).toList ++
    (o.fallback.map fun v => "[default: " ++ v ++ "]").toList)

def usage (m : Manual) (g : Grammar) : String :=
  let required := (g.options.filter Opt.required).map fun o => "--" ++ o.name ++ " " ++ placeholder o.name
  " ".intercalate (["Usage:", m.name, "[OPTIONS]"] ++ required ++ g.words.map placeholder ++
    (if m.commands.isEmpty then [] else ["<COMMAND>"]))

def section_ (title : String) (lines : List String) : List String :=
  if lines.isEmpty then [] else ["", title] ++ lines

def text (environment : Environment) (m : Manual) (g : Grammar) : String :=
  let options := (g.options.map fun o => (optionFlags o, optionAbout environment o)) ++
    [("-h, --help", "Print help")] ++ (m.version.map fun _ => ("-V, --version", "Print version")).toList
  let lines := [m.about, "", usage m g] ++ section_ "Commands:" (table m.commands) ++
    section_ "Arguments:" (table (g.words.map fun w => (placeholder w, ""))) ++
    section_ "Options:" (table options)
  "\n".intercalate lines ++ "\n"

end Help

end Arrivals.Command
