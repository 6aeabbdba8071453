/-!
# White space

The characters with the Unicode property White_Space, and the removal of white space at both ends.
-/

namespace OctetMachine.Text

/-- Whether a character has the property White_Space; there are twenty-five of them. -/
def isBlank (c : Char) : Bool :=
  let n := c.toNat
  (0x09 ≤ n && n ≤ 0x0D) || n == 0x20 || n == 0x85 || n == 0xA0 || n == 0x1680 ||
    (0x2000 ≤ n && n ≤ 0x200A) || n == 0x2028 || n == 0x2029 || n == 0x202F || n == 0x205F ||
    n == 0x3000

/-- A text without the white space at its end. -/
def trimEnd (text : List Char) : List Char :=
  text.foldr (fun c rest ↦ if isBlank c && rest.isEmpty then [] else c :: rest) []

/-- A text without the white space at its ends. -/
def trim (text : List Char) : List Char := trimEnd (text.dropWhile isBlank)

end OctetMachine.Text
