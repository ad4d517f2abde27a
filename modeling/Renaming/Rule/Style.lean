import Renaming.Text.Letter
import Renaming.Text.LetterCase

/-!
Naming styles. A name is cut into words, which are then written in the style.
-/

namespace Renaming

/-- A way to write a name of several words. -/
inductive Style
  | snake
  | camel
  | pascal
  | screamingSnake
  deriving DecidableEq, Repr

namespace Style

/-- All styles. -/
def all : List Style := [snake, camel, pascal, screamingSnake]

/-- The name of a style, written in the style. -/
def name : Style → String
  | snake => "snake_case"
  | camel => "camelCase"
  | pascal => "PascalCase"
  | screamingSnake => "SCREAMING_SNAKE_CASE"

/-- The style with a name. -/
def ofName? (s : String) : Option Style := all.find? (·.name == s)

end Style

namespace Word

open Renaming.Text

/-- The case of the letters last met in a word. -/
inductive Mode
  | none
  | lower
  | upper
  deriving DecidableEq, Repr

/-- The mode behind a character; what has no case leaves it as it is. -/
def Mode.after (m : Mode) (c : Char) : Mode :=
  if isLowercase c then .lower else if isUppercase c then .upper else m

/-- The words of a text of letters and digits, where `word` is the one that has begun, backwards. A
word ends before an upper case letter behind a lower case one, and before an upper case letter
that is followed by a lower case one. -/
def split (mode : Mode) (word : List Char) : List Char → List (List Char)
  | [] => if word.isEmpty then [] else [word.reverse]
  | [c] => [(c :: word).reverse]
  | c :: d :: rest =>
    let next := mode.after c
    if next = .lower ∧ isUppercase d then (c :: word).reverse :: split .none [] (d :: rest)
    else if mode = .upper ∧ isUppercase c ∧ isLowercase d then
      word.reverse :: split .none [c] (d :: rest)
    else split next (c :: word) (d :: rest)

/-- The runs of letters and digits in a text. -/
def runs (text : List Char) : List (List Char) :=
  (text.splitBy fun a b => isAlphanumeric a == isAlphanumeric b).filter fun run =>
    run.head?.any isAlphanumeric

/-- The words of a name. -/
def ofName (name : String) : List (List Char) := (runs name.toList).flatMap (split .none [])

/-- A word in lower case. A capital sigma at its end becomes the final form. -/
def lowered : List Char → List Char
  | [] => []
  | ['Σ'] => ['ς']
  | c :: rest => lower c ++ lowered rest

/-- A word in upper case. -/
def raised (word : List Char) : List Char := word.flatMap upper

/-- A word with a capital at its start. -/
def capitalized : List Char → List Char
  | [] => []
  | c :: rest => upper c ++ lowered rest

end Word

/-- A name in a style. -/
def Style.apply (s : Style) (name : String) : String :=
  let words := Word.ofName name
  String.ofList <|
    match s with
    | snake => ((words.map Word.lowered).intersperse ['_']).flatten
    | screamingSnake => ((words.map Word.raised).intersperse ['_']).flatten
    | pascal => words.flatMap Word.capitalized
    | camel =>
      match words with
      | [] => []
      | first :: rest => Word.lowered first ++ rest.flatMap Word.capitalized

end Renaming
