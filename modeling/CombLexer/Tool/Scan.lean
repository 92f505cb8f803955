/-
The tool that prints the tokens of a file.

It takes the tables of the sample language or those of a file, and a file to
scan or a text of its own. Tokens go to the results, one a line; errors go to
the messages, and with any of them the tool fails in the end.
-/
import CombLexer.Sample.Automaton
import CombLexer.Scan.Scanner
import CombLexer.Table.Binary
import CombLexer.Table.Json
import CombLexer.Text.Quoted
import CombLexer.Text.Utf8
import CombLexer.Tool.Host
import CombLexer.Tool.Path

namespace CombLexer.Tool.Scan

/-- The text that is scanned if no file is given. -/
def sampleText : Bytes :=
  Bytes.ascii "let greet = f(\"hi\") -- say hello\nlet n = 42 -> ...\n"

/-- The name of a rule: that of its kind of token, or its number. -/
def ruleName (rule : Nat) : String :=
  match Sample.Kind.ofRule? rule with
  | some kind => kind.name
  | none => "rule#" ++ toString rule

/-- Whether tokens of a rule only separate others. -/
def isTrivia (rule : Nat) : Bool := (Sample.Kind.ofRule? rule).any Sample.Kind.isTrivia

def tokenLine (token : Token) (lexeme : Bytes) : String :=
  Decimal.padLeft 6 (toString token.span.start) ++ ".."
    ++ Decimal.padRight 6 (toString token.span.stop) ++ " "
    ++ Decimal.padRight 18 (ruleName token.rule) ++ " " ++ Quoted.quote (Utf8.lossy lexeme)

structure Request where
  tables : Option String := none
  input : Option String := none

def Request.ofArguments (r : Request) : List String → Except Failure Request
  | [] => .ok r
  | "--tables" :: [] => .error { context := "--tables needs a file" }
  | "--tables" :: path :: rest => ({ r with tables := some path } : Request).ofArguments rest
  | argument :: rest =>
    if r.input.isNone then ({ r with input := some argument } : Request).ofArguments rest
    else .error { context := "unexpected argument " ++ Quoted.quote argument.toList }

structure Tally where
  tokens : Nat := 0
  significant : Nat := 0
  errors : Nat := 0

def Tally.add (t : Tally) : Except ScanError (Token × Bytes) → Tally
  | .error _ => { t with errors := t.errors + 1 }
  | .ok (token, _) =>
    { t with
      tokens := t.tokens + 1
      significant := if isTrivia token.rule then t.significant else t.significant + 1 }

variable {m : Type → Type} [Monad m] [Host m]

/-- Loads tables in the form that the name of the file tells. -/
def loadTables (path : String) : Job m Table := do
  let data ← orFail ("reading " ++ path) (← ExceptT.lift (Host.load path))
  let loaded := if Path.extension? path = some "bin" then Binary.load data else Json.load data
  match loaded with
  | .ok t => return t
  | .error e => throw { context := "loading tables from " ++ path, causes := [e.message] }

def sampleTable : Job m Table :=
  match Sample.table with
  | .ok t => return t
  | .error e => throw { context := e.message }

def printAnswer (showTrivia : Bool) : Except ScanError (Token × Bytes) → Job m Unit
  | .ok (token, lexeme) => do
    if showTrivia || !isTrivia token.rule then print (tokenLine token lexeme)
  | .error e => report ("lex error: " ++ e.message)

def printAll (sc : Scanner Reader) (showTrivia : Bool) : Job m Tally := do
  let answers := sc.lexemes.1
  answers.forM (printAnswer showTrivia)
  let tally := answers.foldl Tally.add {}
  if tally.errors = 0 then return tally
  else throw {
    context := toString tally.errors ++ " lex error(s) after " ++ toString tally.tokens
      ++ " token(s)" }

def configured : Job m Config := do
  let chunkSize ← setting? Config.chunkSizeVariable
  let recovery ← setting? Config.recoveryVariable
  return .ofVariables fun name => if name = Config.chunkSizeVariable then chunkSize else recovery

def job (arguments : List String) : Job m UInt32 := do
  let request ← match Request.ofArguments {} arguments with
    | .ok r => pure r
    | .error failure => throw failure
  let table ← match request.tables with
    | some path => loadTables path
    | none => sampleTable
  let config ← configured
  let showTrivia := (← setting? "LEXSTEP_TRIVIA") != some "0"
  let script ← match request.input with
    | some path => orFail ("opening " ++ path) (← ExceptT.lift (Host.openScript path))
    | none => pure [.data sampleText]
  match Scanner.ofScript table script config with
  | .error fault => throw { context := fault.message?.getD "" }
  | .ok sc =>
    let tally ← printAll sc showTrivia
    report ("[lexstep] " ++ toString tally.tokens ++ " tokens (" ++ toString tally.significant
      ++ " non-trivia)")
    return 0

end CombLexer.Tool.Scan
