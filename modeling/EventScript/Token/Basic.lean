import EventScript.Number.Format
import EventScript.Text.Printable
/-! Tokens: words, literals and symbols of a source text, each on its line. -/
namespace EventScript

inductive Keyword where
  | event
  | cond
  | otherwise
  | elif
  | function
  | result
  | loop
  | within
  deriving DecidableEq

namespace Keyword

def all : List Keyword := [event, cond, otherwise, elif, function, result, loop, within]

def spelling : Keyword → String
  | event => "Event"
  | cond => "If"
  | otherwise => "Else"
  | elif => "Elif"
  | function => "function"
  | result => "return"
  | loop => "For"
  | within => "in"

/-- The keyword that a word spells; case matters. -/
def ofWord? (word : String) : Option Keyword := all.find? fun k => k.spelling == word

def label : Keyword → String
  | event => "Event"
  | cond => "If"
  | otherwise => "Else"
  | elif => "Elif"
  | function => "Function"
  | result => "Return"
  | loop => "For"
  | within => "In"

end Keyword

inductive Mark where
  | leftBracket
  | rightBracket
  | leftParen
  | rightParen
  | comma
  | plus
  | minus
  | star
  | slash
  | same
  | differs
  | assign
  deriving DecidableEq

namespace Mark

def all : List Mark :=
  [leftBracket, rightBracket, leftParen, rightParen, comma, plus, minus, star, slash, same, differs,
    assign]

def spelling : Mark → String
  | leftBracket => "["
  | rightBracket => "]"
  | leftParen => "("
  | rightParen => ")"
  | comma => ","
  | plus => "+"
  | minus => "-"
  | star => "*"
  | slash => "/"
  | same => "=="
  | differs => "=!"
  | assign => "="

def label : Mark → String
  | leftBracket => "LBracket"
  | rightBracket => "RBracket"
  | leftParen => "LParen"
  | rightParen => "RParen"
  | comma => "Comma"
  | plus => "Plus"
  | minus => "Minus"
  | star => "Star"
  | slash => "Slash"
  | same => "EqEq"
  | differs => "EqBang"
  | assign => "Eq"

end Mark

inductive TokenKind where
  | keyword (k : Keyword)
  | number (n : Number)
  | text (s : String)
  | name (s : String)
  | mark (m : Mark)
  | finish
  deriving DecidableEq

namespace TokenKind

def label : TokenKind → String
  | keyword k => k.label
  | number _ => "Number"
  | text _ => "Str"
  | name _ => "Ident"
  | mark m => m.label
  | finish => "Eof"

def spelling : TokenKind → String
  | keyword k => k.spelling
  | number n => NumberFormat.source.render n
  | text s => Text.quoted s
  | name s => s
  | mark m => m.spelling
  | finish => "end of input"

end TokenKind

structure Token where
  kind : TokenKind
  line : Nat
  deriving DecidableEq

namespace Token

def lastLine (ts : List Token) : Nat := (ts.getLast?.map Token.line).getD 1

end Token

end EventScript
