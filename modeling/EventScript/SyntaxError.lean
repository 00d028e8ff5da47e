import EventScript.Token.Basic
import EventScript.Node.Basic
/-! The first fault of a source text, by cause, and its wording. -/
namespace EventScript

inductive LexicalFault where
  | unexpected (c : Char)
  | openComment
  | openText
  | escape (c : Char)
  | number (spelling : String)
  deriving DecidableEq

namespace LexicalFault

def message : LexicalFault → String
  | unexpected c => "Unexpected character " ++ c.toString
  | openComment => "Unterminated multiline comment"
  | openText => "Unterminated string literal"
  | escape c => "Invalid escape sequence \\" ++ c.toString
  | number spelling => "Invalid number " ++ spelling

end LexicalFault

inductive Expected where
  | functionName
  | parametersStart
  | parameterName
  | parametersEnd
  | functionBody
  | eventStart
  | eventName
  | eventEnd
  | handlerBody
  | conditionStart
  | conditionEnd
  | condBody
  | branchEnd
  | branchBody
  | otherwiseBody
  | loopName
  | loopKeyword
  | loopBody
  | bodyEnd
  | argumentsEnd
  | groupEnd
  deriving DecidableEq

namespace Expected

def message : Expected → String
  | functionName => "Expect function name"
  | parametersStart => "Expect opening square bracket"
  | parameterName => "Expect parameter name"
  | parametersEnd => "Expect closing square bracket"
  | functionBody => "Expect opening parenthesis"
  | eventStart => "Expect opening square bracket before event type"
  | eventName => "Expect event type"
  | eventEnd => "Expect closing square bracket"
  | handlerBody => "Expect opening parenthesis before event handler"
  | conditionStart => "Expect opening square bracket"
  | conditionEnd => "Expect closing square bracket"
  | condBody => "Expect opening parenthesis before if statement block"
  | branchEnd => "Expect closing square bracket after condition"
  | branchBody => "Expect opening parenthesis before block"
  | otherwiseBody => "Expect opening parenthesis after else"
  | loopName => "Expect variable name"
  | loopKeyword => "Expect keyword in"
  | loopBody => "Expect opening parenthesis before loop body"
  | bodyEnd => "Expect closing parenthesis after block"
  | argumentsEnd => "Expected closing square bracket"
  | groupEnd => "Expected closing parenthesis"

end Expected

inductive GrammarFault where
  | missing (what : Expected)
  | tooDeep
  | notAssignable (found : NodeForm)
  | notCallable (found : NodeForm)
  | endOfInput
  | unexpected (found : TokenKind)
  deriving DecidableEq

namespace GrammarFault

def message : GrammarFault → String
  | missing what => what.message
  | tooDeep => "Expression nested too deeply"
  | notAssignable found => "Expected identifier but instead got " ++ found.label
  | notCallable found => "Expected function name but instead got " ++ found.label
  | endOfInput => "Unexpected end of input"
  | unexpected found => "Unexpected token " ++ found.spelling

end GrammarFault

inductive SyntaxFault where
  | lexical (f : LexicalFault)
  | grammar (f : GrammarFault)
  deriving DecidableEq

structure SyntaxError where
  fault : SyntaxFault
  line : Nat
  deriving DecidableEq

namespace SyntaxError

def message (e : SyntaxError) : String :=
  match e.fault with
  | .lexical f => f.message
  | .grammar f => f.message

def display (e : SyntaxError) : String := s!"[line {e.line}] " ++ e.message

end SyntaxError

end EventScript
