import DomainColoring.Character.Ranges

/-!
# Blank characters

The characters with the Unicode property White_Space.
-/

namespace DomainColoring.Character

/-- Spaces, tabs and the separators of lines and paragraphs. -/
def whiteSpace : RangeSet where
  ranges := [
    (9, 13), (32, 32), (133, 133), (160, 160), (5760, 5760), (8192, 8202), (8232, 8233),
    (8239, 8239), (8287, 8287), (12288, 12288)]
  increasing := by decide +kernel

/-- Characters that separate words and are otherwise ignored. -/
def isBlank (c : Char) : Bool := whiteSpace.contains c.toNat

end DomainColoring.Character
