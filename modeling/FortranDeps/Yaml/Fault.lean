/-!
Why a text is no YAML document, or not one of the expected shape.
-/

namespace FortranDeps.Yaml

inductive Fault where
  | invalidCharacter
  | noToken
  | keyWithoutValue
  | misplacedEntry
  | misplacedKey
  | misplacedValue
  | colonInFlow
  | tabInIndentation
  | documentMarkerInQuotes
  | unclosedQuotes
  | badEscape
  | badBlockHeader
  | badDirective
  | badAnchor
  | badTag
  | unknownTagHandle (handle : String)
  | unknownAlias (name : String)
  | unexpectedToken
  | severalDocuments
  | expected (shape : String)
  | duplicateField (name : String)
  | unknownVariant (name : String)
  deriving DecidableEq, Repr

def Fault.message : Fault → String
  | invalidCharacter => "control characters are not allowed"
  | noToken => "found character that cannot start any token"
  | keyWithoutValue => "could not find expected ':'"
  | misplacedEntry => "block sequence entries are not allowed in this context"
  | misplacedKey => "mapping keys are not allowed in this context"
  | misplacedValue => "mapping values are not allowed in this context"
  | colonInFlow => "found unexpected ':'"
  | tabInIndentation => "found a tab character that violates indentation"
  | documentMarkerInQuotes => "found unexpected document indicator"
  | unclosedQuotes => "found unexpected end of stream"
  | badEscape => "found unknown escape character"
  | badBlockHeader => "did not find expected comment or line break"
  | badDirective => "found an invalid directive"
  | badAnchor => "did not find expected alphabetic or numeric character"
  | badTag => "did not find expected tag URI"
  | unknownTagHandle handle => "found undefined tag handle " ++ handle
  | unknownAlias name => "unknown anchor " ++ name
  | unexpectedToken => "did not find expected node content"
  | severalDocuments => "deserializing from YAML containing more than one document is not supported"
  | expected shape => "invalid type: expected " ++ shape
  | duplicateField name => "duplicate field " ++ name
  | unknownVariant name => "unknown variant " ++ name

end FortranDeps.Yaml
