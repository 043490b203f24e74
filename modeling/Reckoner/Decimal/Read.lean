/-
  Reading a double back from its written form.

  `ofText?` takes an optional minus sign and then a numeral, `inf` or `nan`, to
  the end of the text. Whatever `text` writes is of this form.
-/
import Reckoner.Decimal.Layout
import Reckoner.Numeral

namespace Reckoner

/-- The magnitude that is written: a numeral and nothing behind it, or a word. -/
def magnitudeOfText? (cs : List Char) : Option Float :=
  if cs = ['i', 'n', 'f'] then some (Binary64.ofRank false Binary64.infiniteRank)
  else if cs = ['n', 'a', 'n'] then some (0 / 0)
  else
    match (Reader.ofText cs).numeral with
    | .ok n r => if r.rest = [] then some n.value else none
    | .fault _ _ => none

/-- The double that is written. -/
def ofText? (text : String) : Option Float :=
  match text.toList with
  | '-' :: cs => (magnitudeOfText? cs).map (- ·)
  | cs => magnitudeOfText? cs

end Reckoner
