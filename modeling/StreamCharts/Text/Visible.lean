import StreamCharts.Text.Category

/-!
# Visible characters

Quoted text shows a character as itself when it stands by itself on the page. Main definition: `isVisible`, which refuses controls,
what is unassigned or private, spaces other than the plain one, and what has no width or leans on the character before it.
-/

namespace StreamCharts.Text

/-- The ranges of the spacing marks that have the property Grapheme_Extend: they extend the character before them although they
have a width. The halfwidth sound marks, which have the property too, stand by themselves and are left out. -/
def spacingExtenders : List (Nat × Nat) := [
  (0x9BE, 0x9BE), (0x9D7, 0x9D7), (0xB3E, 0xB3E), (0xB57, 0xB57), (0xBBE, 0xBBE), (0xBD7, 0xBD7), (0xCC0, 0xCC0),
  (0xCC2, 0xCC2), (0xCC7, 0xCC8), (0xCCA, 0xCCB), (0xCD5, 0xCD6), (0xD3E, 0xD3E), (0xD57, 0xD57), (0xDCF, 0xDCF),
  (0xDDF, 0xDDF), (0x1715, 0x1715), (0x1734, 0x1734), (0x1B35, 0x1B35), (0x1B3B, 0x1B3B), (0x1B3D, 0x1B3D),
  (0x1B43, 0x1B44), (0x1BAA, 0x1BAA), (0x1BF2, 0x1BF3), (0x302E, 0x302F), (0xA953, 0xA953), (0xA9C0, 0xA9C0),
  (0x111C0, 0x111C0), (0x11235, 0x11235), (0x1133E, 0x1133E), (0x1134D, 0x1134D), (0x11357, 0x11357), (0x113B8, 0x113B8),
  (0x113C2, 0x113C2), (0x113C5, 0x113C5), (0x113C7, 0x113C9), (0x113CF, 0x113CF), (0x114B0, 0x114B0), (0x114BD, 0x114BD),
  (0x115AF, 0x115AF), (0x116B6, 0x116B6), (0x11930, 0x11930), (0x1193D, 0x1193D), (0x11F41, 0x11F41), (0x16FF0, 0x16FF1),
  (0x1D165, 0x1D166), (0x1D16D, 0x1D172)]

/-- The ranges of the letters that are ignored in display: they fill the place of a missing one. -/
def fillers : List (Nat × Nat) := [(0x115F, 0x1160), (0x3164, 0x3164), (0xFFA0, 0xFFA0)]

/-- Whether a number lies in one of some ranges. -/
def inRanges (ranges : List (Nat × Nat)) (n : Nat) : Bool :=
  ranges.any fun range => range.1 ≤ n && n ≤ range.2

/-- Whether characters of a category are shown as themselves, apart from single exceptions. -/
def Category.isVisible : Category → Bool
  | .control => false
  | .format => false
  | .surrogate => false
  | .privateUse => false
  | .unassigned => false
  | .spaceSeparator => false
  | .lineSeparator => false
  | .paragraphSeparator => false
  | .nonspacingMark => false
  | .enclosingMark => false
  | _ => true

/-- A character that is shown as itself. In ASCII these are the space and all that is printed. -/
def isVisible (c : Char) : Bool :=
  let n := c.toNat
  if n < 0x80 then 0x20 ≤ n && n < 0x7F
  else (category c).isVisible && !inRanges spacingExtenders n && !inRanges fillers n

end StreamCharts.Text
