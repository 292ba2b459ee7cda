import PipelineEditor.Json.Value
import PipelineEditor.Number.Shortest

/-!
# Writing JSON text

Values are written with the members of an object in their listed order.  Only quotes, backslashes
and control characters are escaped.  The compact form has no white space; the indented form puts
each item on a line of its own, two spaces deeper for each level, and writes empty arrays and
objects closed up.

## Main definitions

* `Json.compact`, `Json.indented` — the two written forms.
-/

namespace PipelineEditor

namespace Json

/-- One character inside a string. -/
def escape (c : Char) : String :=
  if c = '"' then "\\\""
  else if c = '\\' then "\\\\"
  else if c = '\n' then "\\n"
  else if c = '\r' then "\\r"
  else if c = '\t' then "\\t"
  else if c = '\x08' then "\\b"
  else if c = '\x0c' then "\\f"
  else if c.toNat < 0x20 then
    "\\u00" ++ String.ofList [Nat.digitChar (c.toNat / 16), Nat.digitChar (c.toNat % 16)]
  else c.toString

/-- A string with its quotes. -/
def quote (s : String) : String :=
  s.foldl (fun text c => text ++ escape c) "\"" ++ "\""

/-- A number or another value without parts. -/
def atom : Json → String
  | null => "null"
  | bool b => if b then "true" else "false"
  | int n => toString n
  | float x => if x.isFinite then x.text else "null"
  | string s => quote s
  | array _ => "[]"
  | object _ => "\x7b\x7d"

mutual

/-- The written form after `text`, without white space. -/
def appendCompact (text : String) : Json → String
  | array [] => text ++ "[]"
  | array (item :: rest) => appendItems (appendCompact (text ++ "[") item) rest ++ "]"
  | object [] => text ++ "\x7b\x7d"
  | object ((key, item) :: rest) =>
    appendMembers (appendCompact (text ++ "\x7b" ++ quote key ++ ":") item) rest ++ "\x7d"
  | other => text ++ atom other

/-- The items after the first. -/
def appendItems (text : String) : List Json → String
  | [] => text
  | item :: rest => appendItems (appendCompact (text ++ ",") item) rest

/-- The members after the first. -/
def appendMembers (text : String) : List (String × Json) → String
  | [] => text
  | (key, item) :: rest =>
    appendMembers (appendCompact (text ++ "," ++ quote key ++ ":") item) rest

end

/-- The value on one line, without white space. -/
def compact (value : Json) : String := appendCompact "" value

/-- A line break and the indentation of a level. -/
def lineBreak (level : Nat) : String :=
  (List.replicate level "  ").foldl (· ++ ·) "\n"

mutual

/-- The written form after `text`, its parts one level deeper than `level`. -/
def appendIndented (level : Nat) (text : String) : Json → String
  | array [] => text ++ "[]"
  | array (item :: rest) =>
    appendIndentedItems level
      (appendIndented (level + 1) (text ++ "[" ++ lineBreak (level + 1)) item) rest ++
      lineBreak level ++ "]"
  | object [] => text ++ "\x7b\x7d"
  | object ((key, item) :: rest) =>
    appendIndentedMembers level
      (appendIndented (level + 1)
        (text ++ "\x7b" ++ lineBreak (level + 1) ++ quote key ++ ": ") item) rest ++
      lineBreak level ++ "\x7d"
  | other => text ++ atom other

/-- The items after the first. -/
def appendIndentedItems (level : Nat) (text : String) : List Json → String
  | [] => text
  | item :: rest =>
    appendIndentedItems level
      (appendIndented (level + 1) (text ++ "," ++ lineBreak (level + 1)) item) rest

/-- The members after the first. -/
def appendIndentedMembers (level : Nat) (text : String) : List (String × Json) → String
  | [] => text
  | (key, item) :: rest =>
    appendIndentedMembers level
      (appendIndented (level + 1)
        (text ++ "," ++ lineBreak (level + 1) ++ quote key ++ ": ") item) rest

end

/-- The value with every part on a line of its own. -/
def indented (value : Json) : String := appendIndented 0 "" value

end Json

end PipelineEditor
