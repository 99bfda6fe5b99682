import ClaimQueue.Text.Blank

/-! The pieces of a text between separators. A text without a separator is one piece. -/

namespace ClaimQueue.Text

def pieces (separator : Char) : List Char → List (List Char)
  | [] => [[]]
  | c :: rest =>
    if c = separator then [] :: pieces separator rest
    else match pieces separator rest with
      | [] => [[c]]
      | p :: more => (c :: p) :: more

theorem pieces_ne_nil (separator : Char) (cs : List Char) : pieces separator cs ≠ [] := by
  cases cs with
  | nil => simp [pieces]
  | cons c rest =>
    simp only [pieces]
    split
    · simp
    · split <;> simp

/-- The pieces without blanks at their ends; empty ones do not count. -/
def trimmedPieces (separator : Char) (s : String) : List String :=
  (((pieces separator s.toList).map trim).filter (!·.isEmpty)).map String.ofList

end ClaimQueue.Text
