import SchemaDump.Text.Nesting

/-!
# Byte offsets

Positions in a text are reported in bytes of its UTF-8 form.  The walks themselves go by
characters: a delimiter is one byte long and no other byte of a text equals it, so every offset
here falls between two characters.
-/

namespace SchemaDump.Text

/-- The number of bytes of a text. -/
def byteLength (cs : List Char) : Nat := cs.foldr (fun c n => c.utf8Size + n) 0

/-- The offsets of the two parentheses of a group. -/
def Group.span (g : Group) : Nat × Nat :=
  let start := byteLength g.before
  (start, start + 1 + byteLength g.inside)

/-- The offsets of the first group's parentheses. -/
def parenSpan (cs : List Char) : Option (Nat × Nat) := (firstGroup cs).map Group.span

/-- The top-level mask with one mark for every byte. -/
def byteMask (cs : List Char) : List Bool :=
  (cs.zip (topLevelMask cs)).flatMap fun (c, b) => List.replicate c.utf8Size b

end SchemaDump.Text
