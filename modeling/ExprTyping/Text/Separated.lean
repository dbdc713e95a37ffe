/-!
# Separated lists

Texts joined by a comma and a blank.
-/

namespace ExprTyping.Text

/-- The texts in order, with a comma and a blank between neighbours. -/
def commaSeparated : List String → String
  | [] => ""
  | [text] => text
  | text :: rest => text ++ ", " ++ commaSeparated rest

end ExprTyping.Text
