/-!
The characters of identifiers, and the words that change how the text after them is read.
-/

namespace Renaming.Source

/-- The characters of an identifier: ASCII letters and digits, underscore and dollar. -/
def isIdentifier (c : Char) : Bool := c.isAlphanum || c == '_' || c == '$'

/-- The characters of a word. Every character outside ASCII counts, so that a name next to one
is part of a longer word and never a word of its own. -/
def isWord (c : Char) : Bool := isIdentifier c || 0x80 ≤ c.toNat

/-- The ASCII letters, which may follow the closing slash of a regular expression as flags. -/
def isFlag (c : Char) : Bool := c.isAlpha

/-- The words after which a slash opens a regular expression and is not a division. -/
def regexKeywords : List String :=
  ["return", "typeof", "case", "do", "else", "in", "of", "new", "delete", "void", "throw",
    "instanceof", "yield", "await"]

/-- The words that introduce a declaration, so that the name after one is no attribute of a tag. -/
def declarationKeywords : List String :=
  ["const", "let", "var", "type", "enum", "readonly", "static", "public", "private",
    "protected", "export", "return"]

/-- The marks after which an operand follows, so that a slash there opens a regular expression. -/
def isOperator (c : Char) : Bool := "(,=:[!&|?\x7b;+-*%<>~^".toList.contains c

/-- The word that ends a text, read from the end: the longest run of characters in the class. -/
def lastWord (p : Char → Bool) (reversed : List Char) : String :=
  String.ofList (reversed.takeWhile p).reverse

/-- Whether a name is an identifier from its first character to its last. -/
def isIdentifierName (name : String) : Bool :=
  match name.toList with
  | [] => false
  | c :: r => isIdentifier c && !c.isDigit && r.all isIdentifier

end Renaming.Source
