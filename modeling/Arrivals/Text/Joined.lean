/-! Texts in a row with one character between them. -/

namespace Arrivals.Text

def joined (separator : Char) : List (List Char) → List Char
  | [] => []
  | [t] => t
  | t :: ts => t ++ separator :: joined separator ts

@[simp] theorem joined_nil (c : Char) : joined c [] = [] := rfl

@[simp] theorem joined_singleton (c : Char) (t : List Char) : joined c [t] = t := rfl

@[simp] theorem joined_cons_cons (c : Char) (t u : List Char) (ts : List (List Char)) :
    joined c (t :: u :: ts) = t ++ c :: joined c (u :: ts) := rfl

end Arrivals.Text
