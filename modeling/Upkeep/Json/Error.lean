import Upkeep.Json.Printer
import Upkeep.Text.Quoted

/-!
Why a JSON text was not read: its syntax, or a value of the wrong kind. Positions are not kept.
-/

namespace Upkeep.Json

/-- A value that stood where another kind was wanted. -/
inductive Found where
  | null
  | bool (b : Bool)
  | number (n : Number)
  | text (s : String)
  | sequence
  | map
  deriving DecidableEq, Repr

inductive Error where
  | endInValue
  | endInObject
  | endInList
  | endInString
  | expectedValue
  | expectedWord
  | expectedColon
  | expectedCommaOrBrace
  | expectedCommaOrBracket
  | keyNotString
  | trailingComma
  | trailingCharacters
  | invalidNumber
  | numberOutOfRange
  | invalidEscape
  | unexpectedEndOfEscape
  | loneSurrogate
  | invalidCodePoint
  | controlCharacter
  | tooDeep
  | wrongType (found : Found) (wanted : String)
  | wrongValue (found : Found) (wanted : String)
  | repeatedField (name : String)
  | missingField (name : String)
  | wrongLength (count : Nat) (wanted : String)
  | unknownVariant (name : String) (wanted : List String)
  /-- The text was a value of the right kind, refused for the reason given. -/
  | refused (reason : String)
  deriving DecidableEq, Repr

def Found.message : Found → String
  | .null => "null"
  | .bool b => "boolean `" ++ (if b then "true" else "false") ++ "`"
  | .number (.float x) => "floating point `" ++ String.ofList (floatChars x) ++ "`"
  | .number n => "integer `" ++ String.ofList n.chars ++ "`"
  | .text s => "string " ++ Quoted.encode s
  | .sequence => "sequence"
  | .map => "map"

/-- The kind of a value, as a message names it. -/
def found : Json → Found
  | .null => .null
  | .bool b => .bool b
  | .number n => .number n
  | .text s => .text s
  | .array _ => .sequence
  | .object _ => .map

def Error.message : Error → String
  | .endInValue => "EOF while parsing a value"
  | .endInObject => "EOF while parsing an object"
  | .endInList => "EOF while parsing a list"
  | .endInString => "EOF while parsing a string"
  | .expectedValue => "expected value"
  | .expectedWord => "expected ident"
  | .expectedColon => "expected `:`"
  | .expectedCommaOrBrace => "expected `,` or `\x7d`"
  | .expectedCommaOrBracket => "expected `,` or `]`"
  | .keyNotString => "key must be a string"
  | .trailingComma => "trailing comma"
  | .trailingCharacters => "trailing characters"
  | .invalidNumber => "invalid number"
  | .numberOutOfRange => "number out of range"
  | .invalidEscape => "invalid escape"
  | .unexpectedEndOfEscape => "unexpected end of hex escape"
  | .loneSurrogate => "lone leading surrogate in hex escape"
  | .invalidCodePoint => "invalid unicode code point"
  | .controlCharacter => "control character (\\u0000-\\u001F) found while parsing a string"
  | .tooDeep => "recursion limit exceeded"
  | .wrongType f wanted => "invalid type: " ++ f.message ++ ", expected " ++ wanted
  | .wrongValue f wanted => "invalid value: " ++ f.message ++ ", expected " ++ wanted
  | .repeatedField name => "duplicate field `" ++ name ++ "`"
  | .missingField name => "missing field `" ++ name ++ "`"
  | .wrongLength count wanted => "invalid length " ++ toString count ++ ", expected " ++ wanted
  | .unknownVariant name wanted =>
    "unknown variant `" ++ name ++ "`, expected one of "
      ++ ", ".intercalate (wanted.map fun w => "`" ++ w ++ "`")
  | .refused reason => reason

end Upkeep.Json
