import PageTemplate.Grammar.Symbol
import PageTemplate.Position

namespace PageTemplate

/-- Operators by binding strength; a minus sign is binary or unary, a bang only unary. -/
inductive OperatorClass
  | assign | logic | relation | plus | minus | mult | bang
  deriving DecidableEq

inductive Keyword
  | ifWord | elseIfWord | elseWord | forWord | inWord | endWord
  deriving DecidableEq

namespace Keyword

def spelling : Keyword → String
  | .ifWord => "if"
  | .elseIfWord => "else_if"
  | .elseWord => "else"
  | .forWord => "for"
  | .inWord => "in"
  | .endWord => "end"

def ofWord? : String → Option Keyword
  | "if" => some .ifWord
  | "else_if" => some .elseIfWord
  | "else" => some .elseWord
  | "for" => some .forWord
  | "in" => some .inWord
  | "end" => some .endWord
  | _ => none

end Keyword

inductive Delimiter
  | blockOpen | printOpen | blockClose
  deriving DecidableEq

def Delimiter.spelling : Delimiter → String
  | .blockOpen => "\x7b\x7b"
  | .printOpen => "\x7b\x7b:"
  | .blockClose => "\x7d\x7d"

inductive TokenKind
  | operator (cls : OperatorClass) (spelling : String)
  | identifier (name : String)
  | dottedName (parts : List String)
  | string (content : String)
  | number (value : Int64)
  | bool (value : Bool)
  | keyword (word : Keyword)
  | symbol (c : Char)
  | delimiter (d : Delimiter)
  /-- Text outside the blocks, emitted as it stands. -/
  | text (content : String)
  | endOfLine
  deriving DecidableEq

structure Token where
  kind : TokenKind
  pos : Position
  deriving DecidableEq

namespace TokenKind

def terminal? : TokenKind → Option Terminal
  | .operator .assign _ => some .assign
  | .operator .logic _ => some .logicOp
  | .operator .relation _ => some .relationOp
  | .operator .plus _ => some .plus
  | .operator .minus _ => some .minus
  | .operator .mult _ => some .multOp
  | .operator .bang _ => some .bang
  | .identifier _ => some .identifier
  | .dottedName _ => some .dottedName
  | .string _ => some .string
  | .number _ => some .number
  | .bool _ => some .bool
  | .keyword .ifWord => some .ifWord
  | .keyword .elseIfWord => some .elseIfWord
  | .keyword .elseWord => some .elseWord
  | .keyword .forWord => some .forWord
  | .keyword .inWord => some .inWord
  | .keyword .endWord => some .endWord
  | .symbol '(' => some .leftParen
  | .symbol ')' => some .rightParen
  | .symbol ',' => some .comma
  | .symbol _ => some .semicolon
  | .delimiter .blockOpen => some .blockOpen
  | .delimiter .printOpen => some .printOpen
  | .delimiter .blockClose => some .blockClose
  | .text _ => some .text
  | .endOfLine => none

def shown : TokenKind → String
  | .operator _ spelling => "operator '" ++ spelling ++ "'"
  | .identifier name => "identifier '" ++ name ++ "'"
  | .dottedName parts => "variable '" ++ ".".intercalate parts ++ "'"
  | .string content => "string \"" ++ content ++ "\""
  | .number value => "number " ++ Text.decimal value
  | .bool value => if value then "'true'" else "'false'"
  | .keyword word => "keyword '" ++ word.spelling ++ "'"
  | .symbol c => "'" ++ c.toString ++ "'"
  | .delimiter d => "'" ++ d.spelling ++ "'"
  | .text _ => "text"
  | .endOfLine => "end of line"

end TokenKind

def Token.terminal? (token : Token) : Option Terminal := token.kind.terminal?

end PageTemplate
