import PipelineEditor.Text.Printable

/-!
# Quoted text in messages

Names from a document appear in messages between double quotes.  Quotes and backslashes are
escaped, the usual control characters have their letters, and every other character that cannot be
shown on its own is written by its code point in braces.
-/

namespace PipelineEditor

namespace Text

/-- One character between quotes. -/
def quoteChar (c : Char) : List Char :=
  if c = '"' then ['\\', '"']
  else if c = '\\' then ['\\', '\\']
  else if c = '\n' then ['\\', 'n']
  else if c = '\r' then ['\\', 'r']
  else if c = '\t' then ['\\', 't']
  else if c.toNat = 0 then ['\\', '0']
  else if isPrintable c then [c]
  else '\\' :: 'u' :: '\x7b' :: Nat.toDigits 16 c.toNat ++ ['\x7d']

/-- A text between double quotes. -/
def quoted (s : String) : String :=
  String.ofList ('"' :: s.toList.flatMap quoteChar ++ ['"'])

end Text

end PipelineEditor
