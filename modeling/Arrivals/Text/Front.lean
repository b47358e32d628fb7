/-! Taking a wanted character off the front of a text. -/

namespace Arrivals.Text

def expect (c : Char) : List Char → Option (List Char)
  | [] => none
  | d :: s => if d = c then some s else none

end Arrivals.Text
