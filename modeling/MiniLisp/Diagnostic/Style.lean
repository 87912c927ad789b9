/-!
# Colours

Text on a terminal is coloured by escape sequences before and after it.
-/

namespace MiniLisp

inductive Style where
  | bold
  | red
  | blue
  | redBold
  deriving DecidableEq, Repr

def Style.paint (coloured : Bool) (style : Style) (text : String) : String :=
  if coloured then
    match style with
    | bold => "\x1b[1m" ++ text ++ "\x1b[0m"
    | red => "\x1b[31m" ++ text ++ "\x1b[39m"
    | blue => "\x1b[34m" ++ text ++ "\x1b[39m"
    | redBold => "\x1b[1m\x1b[31m" ++ text ++ "\x1b[39m\x1b[0m"
  else text

end MiniLisp
