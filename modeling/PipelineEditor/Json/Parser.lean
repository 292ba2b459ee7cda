import PipelineEditor.Json.Document

/-!
# Reading JSON text

`Json.Tree.parse?` reads a text strictly: one value, white space around it and nothing else.  The
tree keeps what the text says, members in their order and repeated ones too.  A part that is well
formed but stands for no value is `unreadable`: a number too large for a double, a string with half
a surrogate pair, or whatever is nested deeper than 127 levels.  Such a part is an error only for a
reader that looks at it.

## Main definitions

* `Json.Tree`, `Json.Tree.value?` — parsed text, and the value it stands for.
* `Json.Tree.parse?` — the reader of texts.
-/

namespace PipelineEditor

namespace Json

/-- Parsed text. -/
inductive Tree where
  | null
  | bool (value : Bool)
  | int (value : Int)
  | float (value : Double)
  | string (value : String)
  | array (items : List Tree)
  | object (members : List (String × Tree))
  | unreadable

namespace Tree

/-! ## The value of a tree -/

mutual

/-- The value a tree stands for: members ordered by key, and of two under one key the later. -/
def value? : Tree → Option Json
  | null => some .null
  | bool b => some (.bool b)
  | int n => some (.int n)
  | float x => some (.float x)
  | string s => some (.string s)
  | array items => (values? items).map .array
  | object members => (memberValues? members).map fun entries =>
      .object (entries.foldl (fun sorted entry => Entries.insert entry.1 entry.2 sorted) [])
  | unreadable => none

/-- The values of a list of trees. -/
def values? : List Tree → Option (List Json)
  | [] => some []
  | item :: rest => do return (← value? item) :: (← values? rest)

/-- The values of a list of members, in the order of the text. -/
def memberValues? : List (String × Tree) → Option (List (String × Json))
  | [] => some []
  | (key, item) :: rest => do return (key, ← value? item) :: (← memberValues? rest)

end

instance : Document Tree where
  layer
    | null => .null
    | bool b => .bool b
    | int n => .int n
    | float x => .float x
    | string s => .string s
    | array items => .array items
    | object members => .object members
    | unreadable => .unreadable
  value? := value?

/-! ## Tokens -/

def isSpace (c : Char) : Bool := c = ' ' || c = '\n' || c = '\t' || c = '\r'

def skipSpace (s : List Char) : List Char := s.dropWhile isSpace

def digitValue (c : Char) : Nat := c.toNat - '0'.toNat

def hexValue? (c : Char) : Option Nat :=
  if c.isDigit then some (c.toNat - '0'.toNat)
  else if 'a' ≤ c && c ≤ 'f' then some (c.toNat - 'a'.toNat + 10)
  else if 'A' ≤ c && c ≤ 'F' then some (c.toNat - 'A'.toNat + 10)
  else none

/-- The character a letter after a backslash stands for. -/
def escaped? : Char → Option Char
  | '"' => some '"'
  | '\\' => some '\\'
  | '/' => some '/'
  | 'b' => some '\x08'
  | 'f' => some '\x0c'
  | 'n' => some '\n'
  | 'r' => some '\r'
  | 't' => some '\t'
  | _ => none

/-- The code units of a string up to its closing quote, and the text after it. -/
def stringUnits? : List Char → Option (List Nat × List Char)
  | '"' :: rest => some ([], rest)
  | '\\' :: 'u' :: a :: b :: c :: d :: rest => do
    let unit := (((← hexValue? a) * 16 + (← hexValue? b)) * 16 + (← hexValue? c)) * 16 +
      (← hexValue? d)
    let (units, after) ← stringUnits? rest
    return (unit :: units, after)
  | '\\' :: c :: rest => do
    let plain ← escaped? c
    let (units, after) ← stringUnits? rest
    return (plain.toNat :: units, after)
  | c :: rest =>
    if c.toNat < 0x20 || c = '\\' then none
    else do
      let (units, after) ← stringUnits? rest
      return (c.toNat :: units, after)
  | [] => none

/-- The characters of a list of code units: the two halves of a surrogate pair make one
character, and neither stands alone. -/
def characters? : List Nat → Option (List Char)
  | [] => some []
  | [unit] => if 0xD800 ≤ unit && unit < 0xE000 then none else some [Char.ofNat unit]
  | high :: low :: rest =>
    if 0xD800 ≤ high && high < 0xDC00 then
      if 0xDC00 ≤ low && low < 0xE000 then
        (characters? rest).map
          (Char.ofNat (0x10000 + (high - 0xD800) * 0x400 + (low - 0xDC00)) :: ·)
      else none
    else if 0xDC00 ≤ high && high < 0xE000 then none
    else (characters? (low :: rest)).map (Char.ofNat high :: ·)

/-- The text of a string, if it has no half surrogate pair, and what follows the string. -/
def stringText? (s : List Char) : Option (Option String × List Char) := do
  let (units, after) ← stringUnits? s
  return ((characters? units).map String.ofList, after)

/-! ## Numbers -/

/-- The digits that still fit a significand of 64 bits, and those that do not. -/
def significand (start : Nat) : List Char → Nat × List Char
  | [] => (start, [])
  | c :: rest =>
    let next := start * 10 + digitValue c
    if next < UInt64.size then significand next rest else (start, c :: rest)

/-- The number with the given whole and fractional digits, as a double. -/
def decimal (negative : Bool) (whole fraction : List Char) (exponent : Int) : Tree :=
  let (leading, ignored) := significand 0 whole
  let (all, unused) := significand leading fraction
  -- Digits that do not fit count only by their place: whole ones raise it, fractional ones do not
  -- lower it.
  let place : Int := ignored.length - ((fraction.length : Int) - unused.length) + exponent
  match Double.ofDecimal? negative all place with
  | some x => float x
  | none => unreadable

/-- The number without fraction or exponent: an integer where 64 bits hold it. -/
def integer (negative : Bool) (digits : List Char) : Tree :=
  let magnitude := digits.foldl (fun n c => n * 10 + digitValue c) 0
  if negative then
    -- Minus zero is a double, since integers have no sign of zero.
    if 0 < magnitude && magnitude ≤ UInt64.size / 2 then int (-(magnitude : Int))
    else decimal true digits [] 0
  else if magnitude < UInt64.size then int magnitude
  else decimal false digits [] 0

/-- The digits of an exponent with their sign, and the text after them. -/
def exponent? (s : List Char) : Option (Int × List Char) :=
  let (sign, digits) : Int × List Char :=
    match s with
    | '-' :: rest => (-1, rest)
    | '+' :: rest => (1, rest)
    | _ => (1, s)
  match digits.takeWhile Char.isDigit with
  | [] => none
  | ds =>
    let magnitude := ds.foldl (fun n c => n * 10 + digitValue c) 0
    some (sign * (magnitude : Int), digits.dropWhile Char.isDigit)

/-- What may follow the digits of a number: a fraction, an exponent, both or neither. -/
def numberTail? (negative : Bool) (whole s : List Char) : Option (Tree × List Char) :=
  match s with
  | '.' :: rest =>
    match rest.takeWhile Char.isDigit, rest.dropWhile Char.isDigit with
    | [], _ => none
    | fraction, 'e' :: after | fraction, 'E' :: after => do
      let (exponent, after) ← exponent? after
      return (decimal negative whole fraction exponent, after)
    | fraction, after => some (decimal negative whole fraction 0, after)
  | 'e' :: rest | 'E' :: rest => do
    let (exponent, after) ← exponent? rest
    return (decimal negative whole [] exponent, after)
  | after => some (integer negative whole, after)

/-- A number, its sign already taken. -/
def number? (negative : Bool) (s : List Char) : Option (Tree × List Char) :=
  match s.takeWhile Char.isDigit with
  | [] => none
  -- A zero is followed by no other digit.
  | '0' :: _ :: _ => none
  | whole => numberTail? negative whole (s.dropWhile Char.isDigit)

/-! ## Values -/

/-- The deepest nesting that is still read. -/
def nestingLimit : Nat := 127

/-- An array or object, where as many levels as `depth` may still be opened. -/
def nested (depth : Nat) (tree : Tree) : Tree := if depth = 0 then unreadable else tree

/-- An object, unless one of its keys has no text. -/
def ofMembers (members : List (Option String × Tree)) : Tree :=
  match members.mapM fun member => member.1.map (·, member.2) with
  | some members => object members
  | none => unreadable

mutual

/-- A value and the text after it.  Every call spends one unit of fuel. -/
def parseValue? : Nat → Nat → List Char → Option (Tree × List Char)
  | 0, _, _ => none
  | fuel + 1, depth, s =>
    match skipSpace s with
    | '{' :: rest =>
      match skipSpace rest with
      | '}' :: after => some (nested depth (object []), after)
      | inner => do
        let (members, after) ← parseMembers? fuel (depth - 1) inner
        return (nested depth (ofMembers members), after)
    | '[' :: rest =>
      match skipSpace rest with
      | ']' :: after => some (nested depth (array []), after)
      | inner => do
        let (items, after) ← parseItems? fuel (depth - 1) inner
        return (nested depth (array items), after)
    | '"' :: rest => do
      let (text, after) ← stringText? rest
      return (match text with | some s => string s | none => unreadable, after)
    | 't' :: 'r' :: 'u' :: 'e' :: after => some (bool true, after)
    | 'f' :: 'a' :: 'l' :: 's' :: 'e' :: after => some (bool false, after)
    | 'n' :: 'u' :: 'l' :: 'l' :: after => some (null, after)
    | '-' :: rest => number? true rest
    | rest => number? false rest

/-- The items of an array from one of them to the closing bracket. -/
def parseItems? : Nat → Nat → List Char → Option (List Tree × List Char)
  | 0, _, _ => none
  | fuel + 1, depth, s => do
    let (item, after) ← parseValue? fuel depth s
    match skipSpace after with
    | ']' :: after => return ([item], after)
    | ',' :: rest =>
      let (items, after) ← parseItems? fuel depth rest
      return (item :: items, after)
    | _ => none

/-- The members of an object from one of them to the closing brace. -/
def parseMembers? : Nat → Nat → List Char → Option (List (Option String × Tree) × List Char)
  | 0, _, _ => none
  | fuel + 1, depth, s =>
    match skipSpace s with
    | '"' :: rest => do
      let (key, after) ← stringText? rest
      match skipSpace after with
      | ':' :: rest =>
        let (item, after) ← parseValue? fuel depth rest
        match skipSpace after with
        | '}' :: after => return ([(key, item)], after)
        | ',' :: rest =>
          let (members, after) ← parseMembers? fuel depth rest
          return ((key, item) :: members, after)
        | _ => none
      | _ => none
    | _ => none

end

/-- The tree of a text.  A value takes at most two units of fuel for each character. -/
def parse? (text : String) : Option Tree :=
  let s := text.toList
  match parseValue? (2 * s.length + 2) nestingLimit s with
  | some (tree, after) => if (skipSpace after).isEmpty then some tree else none
  | none => none

end Tree

end Json

end PipelineEditor
