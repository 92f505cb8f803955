/-
Passing over a JSON value without looking at what it says.

Only the form is checked. The containers that are open are kept in a list, so
values may be nested to any depth.
-/
import CombLexer.Json.Token

namespace CombLexer.Json

inductive Container where
  | array
  | object

/-- What must come next within a value. -/
inductive Expect where
  | value
  | firstElement
  | firstKey
  | key
  | colon
  | commaOrEnd

/-- Passes over the rest of a value of which the containers `isOpen` are open, the innermost first.
The result is what comes behind the value. -/
def skip? : Expect → List Container → List Token → Option (List Token)
  | _, _, [] => none
  | expect, isOpen, token :: rest =>
    match expect, isOpen, token with
    | .value, _, .openArray => skip? .firstElement (.array :: isOpen) rest
    | .firstElement, _, .openArray => skip? .firstElement (.array :: isOpen) rest
    | .value, _, .openObject => skip? .firstKey (.object :: isOpen) rest
    | .firstElement, _, .openObject => skip? .firstKey (.object :: isOpen) rest
    | .value, [], .literal | .value, [], .number _ | .value, [], .string _ => some rest
    | .value, _ :: _, .literal | .value, _ :: _, .number _ | .value, _ :: _, .string _ =>
      skip? .commaOrEnd isOpen rest
    | .firstElement, _, .literal | .firstElement, _, .number _ | .firstElement, _, .string _ =>
      skip? .commaOrEnd isOpen rest
    | .firstKey, _, .string _ | .key, _, .string _ => skip? .colon isOpen rest
    | .colon, _, .colon => skip? .value isOpen rest
    | .commaOrEnd, .array :: _, .comma => skip? .value isOpen rest
    | .commaOrEnd, .object :: _, .comma => skip? .key isOpen rest
    | .firstElement, [.array], .closeArray | .commaOrEnd, [.array], .closeArray => some rest
    | .firstKey, [.object], .closeObject | .commaOrEnd, [.object], .closeObject => some rest
    | .firstElement, .array :: outer, .closeArray | .commaOrEnd, .array :: outer, .closeArray =>
      skip? .commaOrEnd outer rest
    | .firstKey, .object :: outer, .closeObject | .commaOrEnd, .object :: outer, .closeObject =>
      skip? .commaOrEnd outer rest
    | _, _, _ => none

def skipValue? (tokens : List Token) : Option (List Token) := skip? .value [] tokens

end CombLexer.Json
