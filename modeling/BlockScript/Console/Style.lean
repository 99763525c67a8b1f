/-!
# Styles of terminal text

Colours and weights are switched on before a text and off after it; padding belongs to the text.
-/

namespace BlockScript.Console

/-- A text between two control sequences. -/
def styled (on off : Nat) (s : String) : String :=
  "\x1b[" ++ toString on ++ "m" ++ s ++ "\x1b[" ++ toString off ++ "m"

/-- A text in a colour. -/
def colored (code : Nat) : String → String := styled code 39

/-- A text in red. -/
def red : String → String := colored 31

/-- A text in green. -/
def green : String → String := colored 32

/-- A text in yellow. -/
def yellow : String → String := colored 33

/-- A text in cyan. -/
def cyan : String → String := colored 36

/-- A text in white. -/
def white : String → String := colored 37

/-- A text in bright green. -/
def brightGreen : String → String := colored 92

/-- A text in bright yellow. -/
def brightYellow : String → String := colored 93

/-- A text in bright cyan. -/
def brightCyan : String → String := colored 96

/-- A text in heavy letters. -/
def bold : String → String := styled 1 0

/-- A text in faint letters. -/
def dimmed : String → String := styled 2 0

/-- A text with blanks after it up to a width. -/
def padded (width : Nat) (s : String) : String :=
  s ++ String.ofList (List.replicate (width - s.length) ' ')

/-- The word before the text of an error. -/
def errorMark : String := bold (red "Error")

end BlockScript.Console
