import FeedFiler.Text.Combining
import FeedFiler.Text.Unassigned

/-!
# Characters that show

A character shows by itself unless it is a control or format character, a separator other than
space, a filler, a combining mark, for private use or unassigned.
-/

namespace FeedFiler.Text

/-- Characters without a picture in Unicode 17.0: of the general categories Cc, Cf, Co, Zl, Zp and
Zs, but for space itself, and the four fillers of Hangul, which are ignorable by default. -/
def formatting : Ranges where
  bounds :=
    [(0x0, 0x1f), (0x7f, 0xa0), (0xad, 0xad), (0x600, 0x605), (0x61c, 0x61c), (0x6dd, 0x6dd),
     (0x70f, 0x70f), (0x890, 0x891), (0x8e2, 0x8e2), (0x115f, 0x1160), (0x1680, 0x1680),
     (0x180e, 0x180e), (0x2000, 0x200f), (0x2028, 0x202f), (0x205f, 0x2064), (0x2066, 0x206f),
     (0x3000, 0x3000), (0x3164, 0x3164), (0xe000, 0xf8ff), (0xfeff, 0xfeff), (0xffa0, 0xffa0),
     (0xfff9, 0xfffb), (0x110bd, 0x110bd), (0x110cd, 0x110cd), (0x13430, 0x1343f),
     (0x1bca0, 0x1bca3), (0x1d173, 0x1d17a), (0xe0001, 0xe0001), (0xe0020, 0xe007f),
     (0xf0000, 0xffffd), (0x100000, 0x10fffd)]

example : formatting.size = 137725 := by decide +kernel

/-- The character shows, and shows by itself. -/
def isVisible (c : Char) : Bool :=
  !formatting.contains c && !combining.contains c && !unassigned.contains c

example : isVisible 'é' = true ∧ isVisible '\u0301' = false ∧ isVisible '\u200b' = false := by
  decide +kernel

example : isVisible '\u0378' = false ∧ isVisible '\u3164' = false ∧ isVisible '\uff9e' = true := by
  decide +kernel

end FeedFiler.Text
