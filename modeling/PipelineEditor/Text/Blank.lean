/-!
# Blank text

White space is the property `White_Space` of the character standard, which is wider than the
ASCII class of `Char.isWhitespace`.
-/

namespace PipelineEditor

namespace Text

/-- Whether a character is white space. -/
def isSpace (c : Char) : Bool :=
  let n := c.toNat
  (0x09 ≤ n && n ≤ 0x0D) || n = 0x20 || n = 0x85 || n = 0xA0 || n = 0x1680 ||
    (0x2000 ≤ n && n ≤ 0x200A) || n = 0x2028 || n = 0x2029 || n = 0x202F || n = 0x205F || n = 0x3000

/-- Whether a text is empty once the white space around it is taken away. -/
def isBlank (s : String) : Bool := s.toList.all isSpace

end Text

end PipelineEditor
