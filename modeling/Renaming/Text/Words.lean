import Renaming.Text.Blank

/-!
The words of a command line. White space separates them; between two quotes of one kind everything
belongs to the word, and quoted parts that touch are one word.
-/

namespace Renaming.Text

/-- The words of a text, where `quote` is the quote that is open and `word` the word that has
begun, backwards. -/
def wordsFrom (quote : Option Char) (word : Option (List Char)) :
    List Char → List (List Char)
  | [] => word.toList.map List.reverse
  | c :: rest =>
    let longer := some (c :: word.getD [])
    match quote with
    | some q => if c = q then wordsFrom none word rest else wordsFrom quote longer rest
    | none =>
      if c = '\'' ∨ c = '"' then wordsFrom (some c) (some (word.getD [])) rest
      else if isWhite c then word.toList.map List.reverse ++ wordsFrom none none rest
      else wordsFrom none longer rest

/-- The words of a command line. -/
def words (line : String) : List String := (wordsFrom none none line.toList).map String.ofList

end Renaming.Text
