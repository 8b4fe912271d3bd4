import DemonBoard.Sorting

/-! Padding of columns and the written form of lists. Widths count characters. -/

namespace DemonBoard.Text

def padRight (width : Nat) (s : String) : String := s.pushn ' ' (width - s.length)

def padLeft (width : Nat) (s : String) : String := "".pushn ' ' (width - s.length) ++ s

def bracketed (items : List String) : String := "[" ++ ", ".intercalate items ++ "]"

def integers (xs : List Int) : String := bracketed (xs.map toString)

/-- Names by code point, with commas between. -/
def sortedNames (names : List String) : String :=
  ", ".intercalate (sortWith compare names)

end DemonBoard.Text
