import PageTemplate.Path

namespace PageTemplate.Markdown

def isBreak (c : Char) : Bool := c == ' ' || c == '\t' || c == '\n' || c == '\r'

def trimmed (cs : List Char) : List Char :=
  ((cs.dropWhile isBreak).reverse.dropWhile isBreak).reverse

def toHtml (text : String) : String :=
  match trimmed text.toList with
  | [] => ""
  | line => "<p>" ++ String.ofList line ++ "</p>\n"

/-- Files with the extension `md` hold Markdown; the text of others stays as it is. -/
def process (input : Path) (text : String) : String :=
  if input.extension? = some (Text.bytes "md") then toHtml text else text

end PageTemplate.Markdown
