/-!
What can be wrong with a YAML text.
-/

namespace Renaming.Yaml

/-- A reason why a text is refused. -/
inductive Problem
  | forbiddenCharacter
  | unexpectedCharacter
  | missingColon
  | entryNotAllowed
  | keyNotAllowed
  | valueNotAllowed
  | badDirective
  | badAnchor
  | badTag
  | badBlockHeader
  | tabInIndentation
  | unclosedQuote
  | documentMarkInQuote
  | badEscape
  | colonInFlow
  | unexpectedToken
  | undefinedHandle
  | badVersion
  | duplicateDirective
  | secondDocument
  | taggedValue
  | badTaggedScalar
  | wideInteger
  | keyNotScalar
  | unknownAnchor
  | tooDeep
  | tooManyAliases
  deriving DecidableEq, Repr

/-- The message of a problem. -/
def Problem.message : Problem → String
  | forbiddenCharacter => "control characters are not allowed"
  | unexpectedCharacter => "found character that cannot start any token"
  | missingColon => "could not find expected ':'"
  | entryNotAllowed => "block sequence entries are not allowed in this context"
  | keyNotAllowed => "mapping keys are not allowed in this context"
  | valueNotAllowed => "mapping values are not allowed in this context"
  | badDirective => "found a malformed directive"
  | badAnchor => "did not find expected alphabetic or numeric character"
  | badTag => "did not find expected tag"
  | badBlockHeader => "did not find expected comment or line break"
  | tabInIndentation => "found a tab character where an indentation space is expected"
  | unclosedQuote => "found unexpected end of stream"
  | documentMarkInQuote => "found unexpected document indicator"
  | badEscape => "found unknown escape character"
  | colonInFlow => "found unexpected ':'"
  | unexpectedToken => "did not find expected node content"
  | undefinedHandle => "found undefined tag handle"
  | badVersion => "found incompatible YAML document"
  | duplicateDirective => "found duplicate directive"
  | secondDocument => "deserializing from YAML containing more than one document is not supported"
  | taggedValue => "invalid type: enum, expected any valid JSON value"
  | badTaggedScalar => "invalid value for the tag of a scalar"
  | wideInteger => "integer does not fit into 64 bits"
  | keyNotScalar => "expected a string key"
  | unknownAnchor => "unknown anchor"
  | tooDeep => "recursion limit exceeded"
  | tooManyAliases => "repetition limit exceeded"

end Renaming.Yaml
