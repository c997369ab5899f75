import Jobflow.Json.Value
import Jobflow.Text.Quote

/-!
Why a JSON document is not what was asked for: it is not JSON at all, or it is
JSON of another shape. Each cause has exactly one message.
-/

namespace Jobflow.Json

open Jobflow.Decimal (Binary64)

/-- Why a text is not JSON. -/
inductive SyntaxError where
  | endInList
  | endInObject
  | endInString
  | endInValue
  | expectedColon
  | expectedCommaOrBracket
  | expectedCommaOrBrace
  | expectedIdent
  | expectedValue
  | invalidEscape
  | invalidNumber
  | numberOutOfRange
  | controlCharacter
  | keyMustBeString
  | loneSurrogate
  | unfinishedSurrogate
  | trailingComma
  | trailingCharacters
  | tooDeep
  deriving DecidableEq, Repr

/-- The message without the position in the text, "at line l column c", with which it ends in
full: what is said of messages holds up to that position. -/
def SyntaxError.message : SyntaxError → String
  | .endInList => "EOF while parsing a list"
  | .endInObject => "EOF while parsing an object"
  | .endInString => "EOF while parsing a string"
  | .endInValue => "EOF while parsing a value"
  | .expectedColon => "expected `:`"
  | .expectedCommaOrBracket => "expected `,` or `]`"
  | .expectedCommaOrBrace => "expected `,` or `\x7d`"
  | .expectedIdent => "expected ident"
  | .expectedValue => "expected value"
  | .invalidEscape => "invalid escape"
  | .invalidNumber => "invalid number"
  | .numberOutOfRange => "number out of range"
  | .controlCharacter => "control character (\\u0000-\\u001F) found while parsing a string"
  | .keyMustBeString => "key must be a string"
  | .loneSurrogate => "lone leading surrogate in hex escape"
  | .unfinishedSurrogate => "unexpected end of hex escape"
  | .trailingComma => "trailing comma"
  | .trailingCharacters => "trailing characters"
  | .tooDeep => "recursion limit exceeded"

/-- What stands in a document where something else was expected. -/
inductive Found where
  | null
  | bool (b : Bool)
  | integer (n : Int)
  | real (x : Binary64)
  | string (s : String)
  | sequence
  | map
  deriving DecidableEq, Repr

def Found.message : Found → String
  | .null => "null"
  | .bool b => "boolean `" ++ toString b ++ "`"
  | .integer n => "integer `" ++ toString n ++ "`"
  | .real x => "floating point `" ++ x.plainText ++ "`"
  | .string s => "string " ++ Text.quoted s
  | .sequence => "sequence"
  | .map => "map"

/-- The names a field or a variant may have, as listed in a message. -/
def alternatives (names : List String) : String :=
  let shown := names.map fun name => "`" ++ name ++ "`"
  match shown with
  | [] => "there are no fields"
  | [one] => "expected " ++ one
  | [one, two] => "expected " ++ one ++ " or " ++ two
  | several => "expected one of " ++ String.intercalate ", " several

/-- Why a document cannot be read. -/
inductive Error where
  | malformed (cause : SyntaxError)
  | wrongType (found : Found) (expected : String)
  | wrongValue (found : Found) (expected : String)
  | wrongLength (length : Nat) (expected : String)
  | missingField (name : String)
  | duplicateField (name : String)
  | unknownField (name : String) (known : List String)
  | unknownVariant (name : String) (known : List String)
  | noAlternative (enumeration : String)
  | rejected (reason : String)
  deriving DecidableEq, Repr

def Error.message : Error → String
  | .malformed cause => cause.message
  | .wrongType found expected => "invalid type: " ++ found.message ++ ", expected " ++ expected
  | .wrongValue found expected => "invalid value: " ++ found.message ++ ", expected " ++ expected
  | .wrongLength length expected =>
    "invalid length " ++ toString length ++ ", expected " ++ expected
  | .missingField name => "missing field `" ++ name ++ "`"
  | .duplicateField name => "duplicate field `" ++ name ++ "`"
  | .unknownField name known => "unknown field `" ++ name ++ "`, " ++ alternatives known
  | .unknownVariant name known => "unknown variant `" ++ name ++ "`, " ++ alternatives known
  | .noAlternative enumeration =>
    "data did not match any variant of untagged enum " ++ enumeration
  | .rejected reason => reason

end Jobflow.Json
