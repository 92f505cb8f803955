/-
The text form of tables.

A file is a JSON object with the five arrays as fields, each a list of
integers in which -1 stands for an absent cell. `encode` writes it without
spaces.

`arrays?` reads it by these rules.

* The arrays are the fields of an object, in any order. Each must be there, and
  none twice. Names are told apart by case, and are compared as the text that
  their escapes stand for; a name that is no well-formed text is refused, also
  where the field would be passed over.
* Fields of other names are passed over, whatever they hold and however often
  they occur, if their values have the form of JSON.
* A list is read like the object if it has exactly the five arrays, in the order
  in which they are written.
* An entry is an integer from -1 to 2^32 - 2 in plain digits: no minus zero, no
  fraction and no exponent, even of an integral value, and nothing else such as
  `null` or a string of digits.
* Behind the object or the list there is only white space.

All that is refused is refused as one error, `TableError.json`, so it is not said
which rule was broken, nor where.
-/
import CombLexer.Json.Skip
import CombLexer.Table.Basic

namespace CombLexer.Json

/-! ## Writing -/

def integer (n : Int) : Bytes :=
  if n < 0 then 0x2D :: Decimal.digits n.natAbs else Decimal.digits n.natAbs

def commaSeparated : List Bytes → Bytes
  | [] => []
  | [item] => item
  | item :: rest => item ++ 0x2C :: commaSeparated rest

def list (ns : List Int) : Bytes := 0x5B :: commaSeparated (ns.map integer) ++ [0x5D]

def field (name : String) (ns : List Int) : Bytes :=
  0x22 :: Bytes.ascii name ++ [0x22, 0x3A] ++ list ns

def object (fields : List (String × List Int)) : Bytes :=
  0x7B :: commaSeparated (fields.map fun (name, ns) => field name ns) ++ [0x7D]

/-- The arrays in the order in which they are written. -/
def fieldOrder : List Part := [.base, .fallback, .check, .transition, .accept]

def encode (a : Arrays) : Bytes :=
  object (fieldOrder.map fun part => (part.name, (a.get part).toList.map Cell.toInt))

/-! ## Reading -/

/-- Takes the cells of a list behind its first bracket or a comma off the front, up to and with
the closing bracket. -/
def takeCells? : List Token → Option (List Cell × List Token)
  | .number (some n) :: .comma :: rest => do
    let cell ← Cell.ofInt? n
    let (cells, rest) ← takeCells? rest
    return (cell :: cells, rest)
  | .number (some n) :: .closeArray :: rest => do return ([← Cell.ofInt? n], rest)
  | _ => none

def takeList? : List Token → Option (Array Cell × List Token)
  | .openArray :: .closeArray :: rest => some (#[], rest)
  | .openArray :: rest => do
    let (cells, rest) ← takeCells? rest
    return (cells.toArray, rest)
  | _ => none

abbrev Found := List (Part × Array Cell)

def Found.get? (found : Found) (part : Part) : Option (Array Cell) :=
  (found.find? fun f => f.1 = part).map Prod.snd

/-- The five arrays, if all have been read. -/
def Found.arrays? (found : Found) : Option Arrays := do
  let base ← found.get? .base
  let fallback ← found.get? .fallback
  let check ← found.get? .check
  let transition ← found.get? .transition
  let accept ← found.get? .accept
  return { base, fallback, check, transition, accept }

def partNamed? (name : List Char) : Option Part :=
  fieldOrder.find? fun part => part.name.toList = name

/-- Takes the value of the field `name` off the front, and keeps it if it is one of the arrays. An
array is not read twice. -/
def takeField? (name : List Char) (found : Found) (tokens : List Token) :
    Option (Found × List Token) :=
  match partNamed? name with
  | some part =>
    if (found.get? part).isSome then none
    else (takeList? tokens).map fun (cells, rest) => (found ++ [(part, cells)], rest)
  | none => (skipValue? tokens).map fun rest => (found, rest)

/-- Takes the fields of an object behind its first brace or a comma off the front, up to and with
the closing brace, with at most `fuel` fields. -/
def takeFields? : Nat → Found → List Token → Option (Found × List Token)
  | fuel + 1, found, .string (some name) :: .colon :: rest => do
    let (found, rest) ← takeField? name found rest
    match rest with
    | .comma :: rest => takeFields? fuel found rest
    | .closeObject :: rest => return (found, rest)
    | _ => none
  | _, _, _ => none

/-- Takes the given arrays off the front, with commas between them and a bracket behind the last. -/
def takeParts? : List Part → Found → List Token → Option (Found × List Token)
  | [], _, _ => none
  | part :: parts, found, tokens => do
    let (cells, rest) ← takeList? tokens
    let found := found ++ [(part, cells)]
    match parts, rest with
    | [], .closeArray :: rest => return (found, rest)
    | _ :: _, .comma :: rest => takeParts? parts found rest
    | _, _ => none

/-- Takes the arrays off the front, as an object or as a list. -/
def takeFound? : List Token → Option (Found × List Token)
  | .openObject :: rest => takeFields? rest.length [] rest
  | .openArray :: rest => takeParts? fieldOrder [] rest
  | _ => none

def arrays? (data : Bytes) : Option Arrays := do
  let tokens ← tokens? data
  let (found, rest) ← takeFound? tokens
  if rest.isEmpty then found.arrays? else none

def load (data : Bytes) : Except TableError Table :=
  match arrays? data with
  | some a => Table.ofArrays a
  | none => .error .json

end CombLexer.Json
