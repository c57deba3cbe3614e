import MiddleEnd.Text.Range

/-!
# Hidden characters

The characters that leave no mark of their own on a page: controls, format characters, line and
paragraph separators, all spaces but the plain one, private use, and the code points that a display
may ignore (`Default_Ignorable_Code_Point`), Hangul fillers and variation selectors among them.
-/

namespace MiddleEnd.Text

/-- The hidden characters. The plain space is none of them. -/
def hidden : List Range :=
  [(0x0, 0x1F), (0x7F, 0xA0), (0xAD, 0xAD), (0x34F, 0x34F), (0x600, 0x605), (0x61C, 0x61C),
   (0x6DD, 0x6DD), (0x70F, 0x70F), (0x890, 0x891), (0x8E2, 0x8E2), (0x115F, 0x1160),
   (0x1680, 0x1680), (0x17B4, 0x17B5), (0x180B, 0x180F), (0x2000, 0x200F), (0x2028, 0x202F),
   (0x205F, 0x206F), (0x3000, 0x3000), (0x3164, 0x3164), (0xE000, 0xF8FF), (0xFE00, 0xFE0F),
   (0xFEFF, 0xFEFF), (0xFFA0, 0xFFA0), (0xFFF0, 0xFFFB), (0x110BD, 0x110BD), (0x110CD, 0x110CD),
   (0x13430, 0x1343F), (0x1BCA0, 0x1BCA3), (0x1D173, 0x1D17A), (0xE0000, 0xE0FFF),
   (0xF0000, 0xFFFFD), (0x100000, 0x10FFFD)]

end MiddleEnd.Text
