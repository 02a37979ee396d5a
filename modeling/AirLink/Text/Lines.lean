/-! # Lines

A text taken apart at its line ends, each of which is a newline with or without a carriage return in
front of it.
-/

namespace AirLink.Lines

/-- The lines of a text.  What follows the last line end is a line unless it is empty. -/
def split : List Char → List (List Char)
  | [] => []
  | '\n' :: rest => [] :: split rest
  | '\r' :: '\n' :: rest => [] :: split rest
  | c :: rest =>
    match split rest with
    | [] => [[c]]
    | line :: lines => (c :: line) :: lines

theorem newline_not_mem_split (text : List Char) : ∀ line ∈ split text, '\n' ∉ line := by
  fun_induction split text <;> grind

def ofString (text : String) : List String := (split text.toList).map String.ofList

/-- A text of lines, each of which ends in a newline. -/
def unlines (lines : List String) : String := String.join (lines.map (· ++ "\n"))

end AirLink.Lines
