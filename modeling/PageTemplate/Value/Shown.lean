import PageTemplate.Text.Quoted
import PageTemplate.Value

namespace PageTemplate

mutual

def Value.entryText : Value → String
  | .int n => Text.decimal n
  | .str s => Text.quoteString s
  | .bool b => if b then "true" else "false"
  | .container scope => scope.text

def Context.text : Context → String
  | ⟨entries⟩ => "\x7b" ++ Context.entriesText entries ++ "\x7d"

def Context.entriesText : List (String × Value) → String
  | [] => ""
  | [(name, value)] => name ++ ": " ++ value.entryText
  | (name, value) :: rest =>
    name ++ ": " ++ value.entryText ++ ", " ++ Context.entriesText rest

end

def Value.text : Value → String
  | .str s => s
  | value => value.entryText

end PageTemplate
