import BlockScript.Text.Lowercase

/-!
# Searching texts
-/

namespace BlockScript.Text

/-- Whether the characters occur in a row. -/
def occursIn (needle : List Char) : List Char → Bool
  | [] => needle.isEmpty
  | c :: rest => needle.isPrefixOf (c :: rest) || occursIn needle rest

/-- Whether a text holds another, whatever the case. -/
def containsIgnoringCase (text needle : String) : Bool :=
  occursIn (lower needle).toList (lower text).toList

end BlockScript.Text
