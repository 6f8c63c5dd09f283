import PageTemplate.Position
import PageTemplate.Text.Quoted

namespace PageTemplate

inductive LexFault
  /-- A character that begins no token. -/
  | unexpectedChar (found : Char)
  /-- A string literal without a closing quote on its line. -/
  | unterminatedString
  /-- An integer literal of more than sixty-four signed bits. -/
  | numberOutOfRange (digits : String)
  deriving DecidableEq

structure LexError where
  fault : LexFault
  pos : Position
  deriving DecidableEq

def LexError.message (e : LexError) : String :=
  match e.fault with
  | .unexpectedChar found =>
    "unexpected character " ++ Text.quoteChar found ++ " at " ++ e.pos.shown
  | .unterminatedString => "unterminated string literal starting at " ++ e.pos.shown
  | .numberOutOfRange digits =>
    "integer literal " ++ digits ++ " out of range at " ++ e.pos.shown

end PageTemplate
