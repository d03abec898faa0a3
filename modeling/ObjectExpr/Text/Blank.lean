/-
  ObjectExpr.Text.Blank — the blank characters: the Unicode property White_Space. They separate
  tokens and are trimmed from the ends of a line (`trim`). The information separators
  U+001C to U+001F, the zero-width space and the byte order mark are not among them.
-/

import ObjectExpr.Text.Ranges

namespace ObjectExpr.Text

def blankRanges : List (Nat × Nat) :=
  [(0x9, 0xD), (0x20, 0x20), (0x85, 0x85), (0xA0, 0xA0), (0x1680, 0x1680), (0x2000, 0x200A),
   (0x2028, 0x2029), (0x202F, 0x202F), (0x205F, 0x205F), (0x3000, 0x3000)]

def isBlank (c : Char) : Bool := within blankRanges c

/-! ## Trimming -/

def trimStart (cs : List Char) : List Char := cs.dropWhile isBlank

def trimEnd (cs : List Char) : List Char := (trimStart cs.reverse).reverse

def trim (cs : List Char) : List Char := trimEnd (trimStart cs)

/-- What `trimStart` drops are the blanks in front. -/
theorem trimStart_append (cs : List Char) : cs.takeWhile isBlank ++ trimStart cs = cs :=
  List.takeWhile_append_dropWhile

/-- What `trimEnd` drops are the blanks at the end. -/
theorem trimEnd_append (cs : List Char) : trimEnd cs ++ (cs.reverse.takeWhile isBlank).reverse = cs := by
  have h := congrArg List.reverse (trimStart_append cs.reverse)
  rwa [List.reverse_append, List.reverse_reverse] at h

end ObjectExpr.Text
