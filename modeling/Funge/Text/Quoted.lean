import Funge.Text.CharCode
import Funge.Text.Hidden

/-!
Characters and texts between quotes. A character that would not show is
written by its code in hexadecimal, and of the two quotes only the one that
would end the literal is escaped.
-/

namespace Funge.Text

def escape (quote : Char) (c : Char) : List Char :=
  if c.toNat = 0 then ['\\', '0']
  else if c = '\t' then ['\\', 't']
  else if c = '\r' then ['\\', 'r']
  else if c = '\n' then ['\\', 'n']
  else if c = '\\' ∨ c = quote then ['\\', c]
  else if isHidden c then scalarCode c.toNat
  else [c]

def quoteChar (c : Char) : String :=
  String.ofList ('\'' :: escape '\'' c ++ ['\''])

def quoteText (s : String) : String :=
  String.ofList ('"' :: s.toList.flatMap (escape '"') ++ ['"'])

end Funge.Text
