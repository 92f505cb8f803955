/-
The automaton of the sample language.

    name      a letter or `_`, then letters, digits and `_`; `let` is a keyword
    number    digits
    blanks    spaces, tabs, line feeds and carriage returns
    signs     =  ==  -  ->  .  ...  (  )
    comment   `--` up to the end of the line
    string    between double quotes, on one line; may run into the end of input

The states that spell out the keyword fall back on the state of names and so
have one edge each, on the letter that keeps the keyword alive.

The automaton is written down twice. `builder` has of each state and symbol the
one edge that counts; `declarations` are the steps by which it is declared, in
their order, where the edge of the start state on `l` is declared with those of
all letters and then once more.
-/
import CombLexer.Sample.Kind
import CombLexer.Table.Builder

namespace CombLexer.Sample

/-- A state of the automaton, named for what has been read. -/
inductive State where
  | start
  | ident
  | l
  | le
  | «let»
  | int
  | white
  | assign
  | eqEq
  | minus
  | arrow
  | lineComment
  | dot
  /-- Two dots, which are no token. -/
  | dotDot
  | ellipsis
  | leftParen
  | rightParen
  | string
  | stringDone
  | stringEnd
  deriving DecidableEq, Repr

namespace State

def all : List State :=
  [start, ident, l, le, «let», int, white, assign, eqEq, minus, arrow, lineComment, dot, dotDot,
   ellipsis, leftParen, rightParen, string, stringDone, stringEnd]

def id (s : State) : Nat := s.ctorIdx

def name : State → String
  | start => "Start"
  | ident => "Ident"
  | l => "L"
  | le => "Le"
  | «let» => "Let"
  | int => "Int"
  | white => "White"
  | assign => "Assign"
  | eqEq => "EqEq"
  | minus => "Minus"
  | arrow => "Arrow"
  | lineComment => "LineComment"
  | dot => "Dot"
  | dotDot => "DotDot"
  | ellipsis => "Ellipsis"
  | leftParen => "LParen"
  | rightParen => "RParen"
  | string => "Str"
  | stringDone => "StrDone"
  | stringEnd => "StrEof"

/-- The token that reaching a state makes. -/
def kind? : State → Option Kind
  | start | dotDot | string => none
  | ident | l | le => some .ident
  | «let» => some .let
  | int => some .int
  | white => some .white
  | assign => some .assign
  | eqEq => some .eqEq
  | minus => some .minus
  | arrow => some .arrow
  | lineComment => some .lineComment
  | dot => some .dot
  | ellipsis => some .ellipsis
  | leftParen => some .leftParen
  | rightParen => some .rightParen
  | stringDone => some .string
  | stringEnd => some .unterminatedString

end State

/-! ## Classes of symbols -/

def isLetter (c : Nat) : Bool := (97 ≤ c && c ≤ 122) || (65 ≤ c && c ≤ 90)

def isDigit (c : Nat) : Bool := 48 ≤ c && c ≤ 57

def beginsName (c : Nat) : Bool := isLetter c || c == 95

def continuesName (c : Nat) : Bool := beginsName c || isDigit c

def isWhite (c : Nat) : Bool := c == 32 || c == 9 || c == 13 || c == 10

/-! ## Edges -/

namespace State

/-- The state behind the first symbol of a token. -/
def first? (c : Nat) : Option State :=
  if c = 108 then some l
  else if beginsName c then some ident
  else if isDigit c then some int
  else if isWhite c then some white
  else if c = 61 then some assign
  else if c = 45 then some minus
  else if c = 46 then some dot
  else if c = 40 then some leftParen
  else if c = 41 then some rightParen
  else if c = 34 then some string
  else none

/-- The state that a state's own edge on a symbol leads to. -/
def edge? (s : State) (c : Nat) : Option State :=
  match s with
  | start => first? c
  | ident => if continuesName c then some ident else none
  | l => if c = 101 then some le else none
  | le => if c = 116 then some «let» else none
  | int => if isDigit c then some int else none
  | white => if isWhite c then some white else none
  | assign => if c = 61 then some eqEq else none
  | minus =>
    if c = 62 then some arrow
    else if c = 45 then some lineComment
    else none
  | lineComment => if c < 256 ∧ c ≠ 10 then some lineComment else none
  | dot => if c = 46 then some dotDot else none
  | dotDot => if c = 46 then some ellipsis else none
  | string =>
    if c = 34 then some stringDone
    else if c = 10 then none
    else if c < 256 then some string
    else if c = endOfInput then some stringEnd
    else none
  | «let» | eqEq | arrow | ellipsis | leftParen | rightParen | stringDone | stringEnd => none

def fallback? : State → Option State
  | l | le | «let» => some ident
  | _ => none

def decl (s : State) : StateDecl where
  row := .tabulate symbolCount fun c => (s.edge? c).map fun t => Cell.ofNat t.id
  fallback := s.fallback?.bind fun t => Cell.ofNat t.id
  accept := s.kind?.bind fun k => Cell.ofNat k.rule

end State

def builder : Builder := ⟨(State.all.map State.decl).toArray⟩

/-! ## Declarations -/

namespace State

def digits : Symbols := .bytes (Bytes.ascii "0123456789")

def blanks : Symbols := .bytes (Bytes.ascii " \t\r\n")

/-- Edges on all that a name can begin with. -/
def onNameStart (target : State) : List (Symbols × State) :=
  [(.range 97 122, target), (.range 65 90, target), (.one 95, target)]

/-- The edges of a state in the order in which they are declared. -/
def arms : State → List (Symbols × State)
  | start =>
    onNameStart ident ++
      [(.one 108, l), (digits, int), (blanks, white), (.bytes [61], assign), (.bytes [45], minus),
       (.bytes [46], dot), (.bytes [40], leftParen), (.bytes [41], rightParen),
       (.bytes [34], string)]
  | ident => onNameStart ident ++ [(digits, ident)]
  | l => [(.bytes [101], le)]
  | le => [(.bytes [116], «let»)]
  | int => [(digits, int)]
  | white => [(blanks, white)]
  | assign => [(.bytes [61], eqEq)]
  | minus => [(.bytes [62], arrow), (.bytes [45], lineComment)]
  | lineComment => [(.bytesBut [10], lineComment)]
  | dot => [(.bytes [46], dotDot)]
  | dotDot => [(.bytes [46], ellipsis)]
  | string => [(.bytesBut [34, 10], string), (.bytes [34], stringDone), (.endOfInput, stringEnd)]
  | «let» | eqEq | arrow | ellipsis | leftParen | rightParen | stringDone | stringEnd => []

/-- Declares the edges of a state, and the state that it falls back on. -/
def steps (s : State) : List Declaration :=
  s.arms.map (fun arm => .edges s.id arm.1 (Cell.ofNat arm.2.id)) ++
    s.fallback?.toList.map fun t => .fallback s.id (Cell.ofNat t.id)

/-- Declares the rule of a state, if it has one. -/
def accepting (s : State) : List Declaration :=
  s.kind?.toList.map fun k => .accept s.id (Cell.ofNat k.rule)

end State

/-- The declarations to a builder of as many bare states: one state after the other, and then the
rules. -/
def declarations : List Declaration :=
  State.all.flatMap State.steps ++ State.all.flatMap State.accepting

def table : Except TableError Table := builder.build

end CombLexer.Sample
