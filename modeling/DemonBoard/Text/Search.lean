/-! Literal search in names. Case is ignored for the letters of ASCII and for no others. -/

namespace DemonBoard.Text

def occurs (needle : List Char) : List Char → Bool
  | [] => needle.isEmpty
  | c :: rest => needle.isPrefixOf (c :: rest) || occurs needle rest

theorem occurs_iff_infix (needle text : List Char) : occurs needle text = true ↔ needle <:+: text := by
  induction text with
  | nil => simp [occurs]
  | cons c rest ih => simp [occurs, ih, List.infix_cons_iff]

/-- The letters `A` to `Z` in lower case, and every other character as it is. -/
def foldCase (s : String) : List Char := s.toList.map Char.toLower

def containsIgnoringCase (text needle : String) : Bool := occurs (foldCase needle) (foldCase text)

end DemonBoard.Text
