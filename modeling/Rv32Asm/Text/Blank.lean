/-!
# White space

The characters of the Unicode property `White_Space`, and texts and lines trimmed of them. The
zero-width space, the byte order mark and the separators U+001C to U+001F do not belong to it.
-/

namespace Rv32Asm.Text

/-- The ranges of code points that are white space, in increasing order. -/
def blankRanges : List (Nat × Nat) :=
  [(0x09, 0x0d), (0x20, 0x20), (0x85, 0x85), (0xa0, 0xa0), (0x1680, 0x1680), (0x2000, 0x200a),
   (0x2028, 0x2029), (0x202f, 0x202f), (0x205f, 0x205f), (0x3000, 0x3000)]

/-- Is the character white space? -/
def isBlank (c : Char) : Bool :=
  blankRanges.any fun (lo, hi) => lo ≤ c.toNat && c.toNat ≤ hi

/-- The text without the white space at its two ends. -/
def trim (cs : List Char) : List Char :=
  ((cs.dropWhile isBlank).reverse.dropWhile isBlank).reverse

/-- The lines of a text, each trimmed. -/
def trimmedLines (s : String) : List String :=
  (s.toList.splitOn '\n').map fun line => String.ofList (trim line)

end Rv32Asm.Text
