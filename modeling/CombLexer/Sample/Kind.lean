/-
The token kinds of the sample language. Rules are numbered in the order of the
kinds.
-/
namespace CombLexer.Sample

inductive Kind where
  | ident
  | «let»
  | int
  | white
  | assign
  | eqEq
  | minus
  | arrow
  | lineComment
  | dot
  | ellipsis
  | leftParen
  | rightParen
  | string
  | unterminatedString
  deriving DecidableEq, Repr

namespace Kind

def all : List Kind :=
  [ident, «let», int, white, assign, eqEq, minus, arrow, lineComment, dot, ellipsis, leftParen,
   rightParen, string, unterminatedString]

/-- The number of the rule of a kind. -/
def rule (k : Kind) : Nat := k.ctorIdx

def ofRule? (rule : Nat) : Option Kind := all[rule]?

/-- Whether a token of the kind only separates others. -/
def isTrivia (k : Kind) : Bool := k == white || k == lineComment

def name : Kind → String
  | ident => "Ident"
  | «let» => "Let"
  | int => "Int"
  | white => "White"
  | assign => "Assign"
  | eqEq => "EqEq"
  | minus => "Minus"
  | arrow => "Arrow"
  | lineComment => "LineComment"
  | dot => "Dot"
  | ellipsis => "Ellipsis"
  | leftParen => "LParen"
  | rightParen => "RParen"
  | string => "String"
  | unterminatedString => "UnterminatedString"

theorem ofRule?_rule (k : Kind) : ofRule? k.rule = some k := by cases k <;> rfl

theorem rule_of_ofRule? {rule : Nat} {k : Kind} (h : ofRule? rule = some k) : k.rule = rule := by
  obtain ⟨hlt, hk⟩ := List.getElem?_eq_some_iff.1 h
  have hall : ∀ i : Fin all.length, (all.get i).rule = i.val := by decide
  exact hk ▸ hall ⟨rule, hlt⟩

end Kind

end CombLexer.Sample
