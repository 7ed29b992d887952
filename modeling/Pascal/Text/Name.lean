/-! # Names without regard to case

Names are compared by their ASCII letters in lower case; all other characters count as they are. -/

namespace Pascal.Text

/-- The text with its ASCII capitals in lower case. -/
def lower (s : String) : String := String.ofList (s.toList.map Char.toLower)

def sameName (a b : String) : Bool := lower a == lower b

end Pascal.Text
