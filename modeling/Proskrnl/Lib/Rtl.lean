import Mathlib

/-!
# Counted UTF-16 strings

`kernel/lib/rtl.c`: the NLS case fold and the two string comparisons built on it. A
`UNICODE_STRING` is the list of its code units; its `Length` in bytes is twice the list's length.
The fold goes unit by unit through the generated table of `kernel/lib/upcase.h`.
-/

namespace Proskrnl
open List

/-- The contents of a counted string of 16-bit code units. -/
abbrev WStr := List UInt16

/-- The three-level trie of deltas, as generated. -/
def rtlpUpcaseTable : List Nat := [
  0x0100, 0x0110, 0x0120, 0x012A, 0x013A, 0x0147, 0x0150, 0x0150, 0x0150, 0x0150, 0x0150, 0x0150,
  0x0150, 0x0150, 0x0150, 0x0150, 0x0153, 0x0150, 0x0150, 0x0163, 0x0150, 0x0150, 0x0150, 0x0150,
  0x0150, 0x0150, 0x0150, 0x0150, 0x0173, 0x017C, 0x018C, 0x019C, 0x0150, 0x01AC, 0x0150, 0x0150,
  0x01B5, 0x0150, 0x0150, 0x0150, 0x0150, 0x0150, 0x0150, 0x0150, 0x01C4, 0x01D4, 0x0150, 0x0150,
  0x0150, 0x0150, 0x0150, 0x0150, 0x0150, 0x0150, 0x0150, 0x0150, 0x0150, 0x0150, 0x0150, 0x0150,
  0x0150, 0x0150, 0x0150, 0x0150, 0x0150, 0x0150, 0x0150, 0x0150, 0x0150, 0x0150, 0x0150, 0x0150,
  0x0150, 0x0150, 0x0150, 0x0150, 0x0150, 0x0150, 0x0150, 0x0150, 0x0150, 0x0150, 0x0150, 0x0150,
  0x0150, 0x0150, 0x0150, 0x0150, 0x0150, 0x0150, 0x0150, 0x0150, 0x0150, 0x0150, 0x0150, 0x0150,
  0x0150, 0x0150, 0x0150, 0x0150, 0x0150, 0x0150, 0x0150, 0x0150, 0x0150, 0x0150, 0x0150, 0x0150,
  0x0150, 0x0150, 0x0150, 0x0150, 0x0150, 0x0150, 0x0150, 0x0150, 0x0150, 0x0150, 0x0150, 0x0150,
  0x0150, 0x0150, 0x0150, 0x0150, 0x0150, 0x0150, 0x0150, 0x0150, 0x0150, 0x0150, 0x0150, 0x0150,
  0x0150, 0x0150, 0x0150, 0x0150, 0x0150, 0x0150, 0x0150, 0x0150, 0x0150, 0x0150, 0x0150, 0x0150,
  0x0150, 0x0150, 0x0150, 0x0150, 0x0150, 0x0150, 0x0150, 0x0150, 0x0150, 0x0150, 0x0150, 0x0150,
  0x0150, 0x0150, 0x0150, 0x0150, 0x0150, 0x0150, 0x0150, 0x0150, 0x0150, 0x0150, 0x01E0, 0x01EE,
  0x0150, 0x0150, 0x0150, 0x01FE, 0x0150, 0x0150, 0x0150, 0x0150, 0x0150, 0x0150, 0x0150, 0x0150,
  0x0150, 0x0150, 0x0150, 0x0150, 0x0150, 0x0150, 0x0150, 0x0150, 0x0150, 0x0150, 0x0150, 0x0150,
  0x0150, 0x0150, 0x0150, 0x0150, 0x0150, 0x0150, 0x0150, 0x0150, 0x0150, 0x0150, 0x0150, 0x0150,
  0x0150, 0x0150, 0x0150, 0x0150, 0x0150, 0x0150, 0x0150, 0x0150, 0x0150, 0x0150, 0x0150, 0x0150,
  0x0150, 0x0150, 0x0150, 0x0150, 0x0150, 0x0150, 0x0150, 0x0150, 0x0150, 0x0150, 0x0150, 0x0150,
  0x0150, 0x0150, 0x0150, 0x0150, 0x0150, 0x0150, 0x0150, 0x0150, 0x0150, 0x0150, 0x0150, 0x0150,
  0x0150, 0x0150, 0x0150, 0x0150, 0x0150, 0x0150, 0x0150, 0x0150, 0x0150, 0x0150, 0x0150, 0x0150,
  0x0150, 0x0150, 0x0150, 0x020A, 0x021A, 0x021A, 0x021A, 0x021A, 0x021A, 0x021A, 0x0229, 0x022E,
  0x021A, 0x021A, 0x021A, 0x021A, 0x021A, 0x021A, 0x023E, 0x0247, 0x0257, 0x0257, 0x0257, 0x0267,
  0x0271, 0x0257, 0x0257, 0x0272, 0x0282, 0x0290, 0x029F, 0x02AC, 0x02BC, 0x02CA, 0x0257, 0x02DA,
  0x0257, 0x0257, 0x02E0, 0x02EC, 0x02FB, 0x030B, 0x031B, 0x032B, 0x033B, 0x0349, 0x021A, 0x021A,
  0x021A, 0x021A, 0x021A, 0x021A, 0x021A, 0x0358, 0x021A, 0x021A, 0x0366, 0x0229, 0x0376, 0x0385,
  0x0257, 0x0395, 0x021A, 0x021A, 0x021A, 0x023E, 0x023E, 0x03A5, 0x0257, 0x0257, 0x03B5, 0x0257,
  0x0257, 0x0257, 0x03BE, 0x0257, 0x0257, 0x0257, 0x021A, 0x021A, 0x021A, 0x03CE, 0x03CF, 0x03D8,
  0x021A, 0x021A, 0x021A, 0x021A, 0x021A, 0x021A, 0x021A, 0x021A, 0x021A, 0x021A, 0x021A, 0x021A,
  0x021A, 0x021A, 0x021A, 0x021A, 0x03E8, 0x03E8, 0x03ED, 0x021A, 0x021A, 0x021A, 0x021A, 0x021A,
  0x021A, 0x021A, 0x021A, 0x021A, 0x021A, 0x021A, 0x021A, 0x021A, 0x021A, 0x021A, 0x03FD, 0x021A,
  0x021A, 0x021A, 0x021A, 0x021A, 0x021A, 0x021A, 0x021A, 0x040B, 0x021A, 0x021A, 0x021A, 0x021A,
  0x021A, 0x021A, 0x021A, 0x0416, 0x0424, 0x021A, 0x021A, 0x021A, 0x021A, 0x021A, 0x021A, 0x021A,
  0x0257, 0x0257, 0x0257, 0x0257, 0x0257, 0x0257, 0x0257, 0x0257, 0x0257, 0x0433, 0x0257, 0x0257,
  0x0257, 0x0257, 0x0257, 0x0257, 0x0443, 0x0445, 0x0443, 0x0443, 0x0445, 0x0454, 0x0443, 0x0464,
  0x0443, 0x0443, 0x0443, 0x0474, 0x0481, 0x0491, 0x04A1, 0x0481, 0x021A, 0x021A, 0x021A, 0x021A,
  0x04A7, 0x021A, 0x021A, 0x04B7, 0x04C7, 0x021A, 0x021A, 0x021A, 0x021A, 0x021A, 0x021A, 0x021A,
  0x021A, 0x021A, 0x021A, 0x021A, 0x021A, 0x021A, 0x04D7, 0x04DD, 0x021A, 0x021A, 0x021A, 0x03CF,
  0x03CF, 0x03CF, 0x04EC, 0x04F9, 0x0257, 0x0257, 0x0257, 0x0257, 0x0257, 0x0257, 0x0508, 0x0517,
  0x0527, 0x0527, 0x0531, 0x021A, 0x021A, 0x021A, 0x021A, 0x021A, 0x021A, 0x021A, 0x021A, 0x021A,
  0x021A, 0x021A, 0x021A, 0x021A, 0x0257, 0x0257, 0x0259, 0x021A, 0x0257, 0x02E4, 0x021A, 0x021A,
  0x021A, 0x021A, 0x021A, 0x021A, 0x02E0, 0x02E0, 0x0257, 0x0257, 0x0257, 0x053F, 0x054D, 0x055C,
  0x02E6, 0x03BB, 0x0568, 0x02E4, 0x021A, 0x040F, 0x021A, 0x021A, 0x021A, 0x021A, 0x021A, 0x0578,
  0x021A, 0x0588, 0x0588, 0x0588, 0x0588, 0x0588, 0x021A, 0x021A, 0x021A, 0x021A, 0x0229, 0x022E,
  0x021A, 0x021A, 0x021A, 0x021A, 0x021A, 0x021A, 0x021A, 0x021A, 0x021A, 0x021A, 0x0000, 0x0000,
  0x0000, 0x0000, 0x0000, 0x0000, 0x0000, 0x0000, 0x0000, 0x0000, 0x0000, 0x0000, 0x0000, 0x0000,
  0x0000, 0x0000, 0xFFE0, 0xFFE0, 0xFFE0, 0xFFE0, 0xFFE0, 0xFFE0, 0xFFE0, 0xFFE0, 0xFFE0, 0xFFE0,
  0xFFE0, 0xFFE0, 0xFFE0, 0xFFE0, 0xFFE0, 0x0000, 0x0000, 0x0000, 0x0000, 0x0000, 0xFFE0, 0xFFE0,
  0xFFE0, 0xFFE0, 0xFFE0, 0xFFE0, 0xFFE0, 0xFFE0, 0xFFE0, 0xFFE0, 0xFFE0, 0xFFE0, 0xFFE0, 0xFFE0,
  0xFFE0, 0xFFE0, 0x0000, 0xFFE0, 0xFFE0, 0xFFE0, 0xFFE0, 0xFFE0, 0xFFE0, 0xFFE0, 0x0079, 0x0000,
  0xFFFF, 0x0000, 0xFFFF, 0x0000, 0xFFFF, 0x0000, 0xFFFF, 0x0000, 0xFFFF, 0x0000, 0xFFFF, 0x0000,
  0xFFFF, 0x0000, 0xFFFF, 0x0000, 0x0000, 0x0000, 0xFFFF, 0x0000, 0xFFFF, 0x0000, 0xFFFF, 0x0000,
  0x0000, 0xFFFF, 0x0000, 0xFFFF, 0x0000, 0xFFFF, 0x0000, 0xFFFF, 0x0000, 0xFFFF, 0x0000, 0x0000,
  0xFFFF, 0x0000, 0xFFFF, 0x0000, 0xFFFF, 0x0000, 0x00C3, 0x0000, 0x0000, 0xFFFF, 0x0000, 0xFFFF,
  0x0000, 0x0000, 0xFFFF, 0x0000, 0x0000, 0x0000, 0xFFFF, 0x0000, 0x0000, 0x0000, 0xFFFF, 0x0000,
  0x0000, 0x0061, 0x0000, 0x0000, 0x0000, 0xFFFF, 0x00A3, 0xA641, 0x0000, 0x0000, 0x0082, 0x0000,
  0xFFFF, 0x0000, 0xFFFF, 0x0000, 0xFFFF, 0x0000, 0x0000, 0xFFFF, 0x0000, 0x0000, 0x0000, 0x0000,
  0xFFFF, 0x0000, 0x0000, 0x0000, 0xFFFF, 0x0000, 0xFFFF, 0x0000, 0x0000, 0xFFFF, 0x0000, 0x0000,
  0x0000, 0xFFFF, 0x0000, 0x0038, 0x0000, 0x0000, 0x0000, 0x0000, 0x0000, 0x0000, 0xFFFE, 0x0000,
  0x0000, 0xFFFE, 0x0000, 0x0000, 0xFFFE, 0x0000, 0xFFFF, 0x0000, 0xFFFF, 0x0000, 0xFFFF, 0x0000,
  0xFFFF, 0x0000, 0xFFFF, 0x0000, 0xFFFF, 0x0000, 0xFFFF, 0xFFB1, 0x0000, 0xFFFF, 0x0000, 0x0000,
  0x0000, 0xFFFE, 0x0000, 0xFFFF, 0x0000, 0x0000, 0x0000, 0xFFFF, 0x0000, 0xFFFF, 0x0000, 0xFFFF,
  0x0000, 0xFFFF, 0x0000, 0xFFFF, 0x0000, 0xFFFF, 0x0000, 0xFFFF, 0x0000, 0x0000, 0x0000, 0x0000,
  0x0000, 0x0000, 0x0000, 0x0000, 0xFFFF, 0x0000, 0x0000, 0x2A3F, 0x0000, 0xFFFF, 0x0000, 0x0000,
  0x0000, 0x0000, 0xFFFF, 0x0000, 0xFFFF, 0x0000, 0xFFFF, 0x0000, 0xFFFF, 0x0000, 0xFFFF, 0x2A1F,
  0x2A1C, 0x2A1E, 0xFF2E, 0xFF32, 0x0000, 0xFF33, 0xFF33, 0x0000, 0xFF36, 0x0000, 0xFF35, 0xA54F,
  0x0000, 0x0000, 0x0000, 0xFF33, 0xA54B, 0x0000, 0xFF31, 0xA567, 0xA528, 0xA544, 0x0000, 0xFF2F,
  0xFF2D, 0xA544, 0x29F7, 0xA541, 0x0000, 0x0000, 0xFF2D, 0x0000, 0x29FD, 0xFF2B, 0x0000, 0x0000,
  0xFF2A, 0x0000, 0x0000, 0x0000, 0x0000, 0x0000, 0x0000, 0x0000, 0x29E7, 0x0000, 0x0000, 0xFF26,
  0x0000, 0xA543, 0xFF26, 0x0000, 0x0000, 0x0000, 0xA52A, 0xFF26, 0xFFBB, 0xFF27, 0xFF27, 0xFFB9,
  0x0000, 0x0000, 0x0000, 0xFF25, 0x0000, 0x0000, 0x0000, 0x0000, 0x0000, 0x0000, 0x0000, 0x0000,
  0x0000, 0x0000, 0xA515, 0xA512, 0x0000, 0xFFFF, 0x0000, 0xFFFF, 0x0000, 0x0000, 0x0000, 0xFFFF,
  0x0000, 0x0000, 0x0000, 0x0082, 0x0082, 0x0082, 0x0000, 0x0000, 0x0000, 0x0000, 0x0000, 0x0000,
  0x0000, 0x0000, 0x0000, 0x0000, 0x0000, 0x0000, 0xFFDA, 0xFFDB, 0xFFDB, 0xFFDB, 0xFFE0, 0xFFE0,
  0x0000, 0xFFE0, 0xFFE0, 0xFFE0, 0xFFE0, 0xFFE0, 0xFFE0, 0xFFE0, 0xFFE0, 0xFFE0, 0xFFC0, 0xFFC1,
  0xFFC1, 0x0000, 0x0000, 0x0000, 0x0000, 0x0000, 0x0000, 0x0000, 0xFFF8, 0x0000, 0xFFFF, 0x0000,
  0xFFFF, 0x0000, 0xFFFF, 0x0000, 0xFFFF, 0x0000, 0x0000, 0x0007, 0xFF8C, 0x0000, 0x0000, 0x0000,
  0x0000, 0xFFFF, 0x0000, 0x0000, 0xFFFF, 0x0000, 0x0000, 0x0000, 0x0000, 0xFFB0, 0xFFB0, 0xFFB0,
  0xFFB0, 0xFFB0, 0xFFB0, 0xFFB0, 0xFFB0, 0xFFB0, 0xFFB0, 0xFFB0, 0xFFB0, 0xFFB0, 0xFFB0, 0xFFB0,
  0xFFB0, 0x0000, 0xFFFF, 0x0000, 0x0000, 0x0000, 0x0000, 0x0000, 0x0000, 0x0000, 0x0000, 0x0000,
  0xFFFF, 0x0000, 0xFFFF, 0x0000, 0xFFFF, 0x0000, 0xFFFF, 0x0000, 0xFFFF, 0x0000, 0xFFFF, 0x0000,
  0xFFFF, 0xFFF1, 0x0000, 0xFFD0, 0xFFD0, 0xFFD0, 0xFFD0, 0xFFD0, 0xFFD0, 0xFFD0, 0xFFD0, 0xFFD0,
  0xFFD0, 0xFFD0, 0xFFD0, 0xFFD0, 0xFFD0, 0xFFD0, 0xFFD0, 0x0000, 0x0000, 0x0000, 0x0000, 0x0000,
  0x0000, 0x0000, 0x0000, 0x0000, 0x0BC0, 0x0BC0, 0x0BC0, 0x0BC0, 0x0BC0, 0x0BC0, 0x0BC0, 0x0BC0,
  0x0BC0, 0x0BC0, 0x0BC0, 0x0BC0, 0x0BC0, 0x0BC0, 0x0BC0, 0x0BC0, 0x0000, 0x0000, 0x0BC0, 0x0BC0,
  0x0BC0, 0x0000, 0x0000, 0x0000, 0x0000, 0x0000, 0x0000, 0x0000, 0x0000, 0xFFF8, 0xFFF8, 0xFFF8,
  0xFFF8, 0xFFF8, 0xFFF8, 0x0000, 0x0000, 0x0000, 0x0000, 0x0000, 0x0000, 0x0000, 0x0000, 0x0000,
  0x0000, 0xFFFF, 0x0000, 0x0000, 0x0000, 0x0000, 0x0000, 0x0000, 0x0000, 0x0000, 0x0000, 0x8A04,
  0x0000, 0x0000, 0x0000, 0x0EE6, 0x0000, 0x0000, 0x0000, 0x0000, 0x0000, 0x0000, 0x0000, 0x0000,
  0x0000, 0x0000, 0x0000, 0x0000, 0x0000, 0x0000, 0x8A38, 0x0000, 0xFFFF, 0x0000, 0xFFFF, 0x0000,
  0xFFFF, 0x0000, 0x0000, 0x0000, 0x0000, 0x0000, 0x0000, 0x0000, 0x0000, 0x0000, 0x0000, 0x0008,
  0x0008, 0x0008, 0x0008, 0x0008, 0x0008, 0x0008, 0x0008, 0x0000, 0x0000, 0x0000, 0x0000, 0x0000,
  0x0000, 0x0000, 0x0000, 0x0000, 0x0000, 0x0008, 0x0000, 0x0008, 0x0000, 0x0008, 0x0000, 0x0008,
  0x0000, 0x0000, 0x0000, 0x0000, 0x0000, 0x0000, 0x0000, 0x0000, 0x004A, 0x004A, 0x0056, 0x0056,
  0x0056, 0x0056, 0x0064, 0x0064, 0x0080, 0x0080, 0x0070, 0x0070, 0x007E, 0x007E, 0x0000, 0x0000,
  0x0008, 0x0008, 0x0000, 0x0009, 0x0000, 0x0000, 0x0000, 0x0000, 0x0000, 0x0000, 0x0000, 0x0000,
  0x0000, 0x0000, 0x0000, 0x0000, 0x0009, 0x0000, 0x0000, 0x0000, 0x0000, 0x0000, 0x0000, 0x0000,
  0x0000, 0x0000, 0x0000, 0x0000, 0x0000, 0x0008, 0x0008, 0x0000, 0x0000, 0x0000, 0x0000, 0x0000,
  0x0000, 0x0000, 0x0000, 0x0000, 0x0000, 0x0000, 0x0000, 0x0000, 0x0000, 0x0008, 0x0008, 0x0000,
  0x0000, 0x0000, 0x0007, 0x0000, 0x0000, 0x0000, 0x0000, 0x0000, 0x0000, 0x0000, 0x0000, 0x0000,
  0x0000, 0x0000, 0x0000, 0x0000, 0x0000, 0xFFE4, 0x0000, 0xFFF0, 0xFFF0, 0xFFF0, 0xFFF0, 0xFFF0,
  0xFFF0, 0xFFF0, 0xFFF0, 0xFFF0, 0xFFF0, 0xFFF0, 0xFFF0, 0xFFF0, 0xFFF0, 0xFFF0, 0xFFF0, 0x0000,
  0x0000, 0x0000, 0x0000, 0xFFFF, 0x0000, 0x0000, 0x0000, 0x0000, 0x0000, 0x0000, 0x0000, 0x0000,
  0x0000, 0x0000, 0x0000, 0xFFE6, 0xFFE6, 0xFFE6, 0xFFE6, 0xFFE6, 0xFFE6, 0xFFE6, 0xFFE6, 0xFFE6,
  0xFFE6, 0xFFE6, 0xFFE6, 0xFFE6, 0xFFE6, 0xFFE6, 0xFFE6, 0x0000, 0x0000, 0x0000, 0x0000, 0x0000,
  0x0000, 0xFFFF, 0x0000, 0x0000, 0x0000, 0xD5D5, 0xD5D8, 0x0000, 0xFFFF, 0x0000, 0xFFFF, 0x0000,
  0xFFFF, 0x0000, 0x0000, 0x0000, 0xFFFF, 0x0000, 0x0000, 0xFFFF, 0x0000, 0x0000, 0x0000, 0x0000,
  0x0000, 0x0000, 0x0000, 0x0000, 0x0000, 0xFFFF, 0x0000, 0xFFFF, 0x0000, 0x0000, 0x0000, 0x0000,
  0x0000, 0x0000, 0x0000, 0x0000, 0xFFFF, 0x0000, 0xFFFF, 0x0000, 0x0000, 0x0000, 0xFFFF, 0x0000,
  0x0000, 0x0000, 0x0000, 0x0000, 0x0000, 0x0000, 0x0000, 0x0000, 0x0000, 0x0000, 0x0000, 0xE3A0,
  0xE3A0, 0xE3A0, 0xE3A0, 0xE3A0, 0xE3A0, 0xE3A0, 0xE3A0, 0xE3A0, 0xE3A0, 0xE3A0, 0xE3A0, 0xE3A0,
  0xE3A0, 0xE3A0, 0xE3A0, 0x0000, 0xE3A0, 0x0000, 0x0000, 0x0000, 0x0000, 0x0000, 0xE3A0, 0x0000,
  0x0000, 0x0000, 0x0000, 0x0000, 0x0000, 0x0000, 0x0000, 0x0000, 0x0000, 0xFFFF, 0x0000, 0xFFFF,
  0x0000, 0x0000, 0xFFFF, 0x0000, 0xFFFF, 0x0000, 0xFFFF, 0x0000, 0xFFFF, 0x0000, 0x0000, 0x0000,
  0x0000, 0xFFFF, 0x0000, 0x0000, 0x0000, 0xFFFF, 0x0000, 0xFFFF, 0x0030, 0x0000, 0x0000, 0xFFFF,
  0x0000, 0xFFFF, 0x0000, 0xFFFF, 0x0000, 0xFFFF, 0x0000, 0xFFFF, 0x0000, 0x0000, 0x0000, 0x0000,
  0xFFFF, 0x0000, 0xFFFF, 0x0000, 0x0000, 0xFFFF, 0x0000, 0xFFFF, 0x0000, 0x0000, 0x0000, 0xFC60,
  0x0000, 0x0000, 0x0000, 0x0000, 0x0000, 0x0000, 0x0000, 0x0000, 0x0000, 0x0000, 0x0000, 0x0000,
  0x6830, 0x6830, 0x6830, 0x6830, 0x6830, 0x6830, 0x6830, 0x6830, 0x6830, 0x6830, 0x6830, 0x6830,
  0x6830, 0x6830, 0x6830, 0x6830, 0x0544]

def rtlUpcaseUnicodeChar (c : UInt16) : UInt16 :=
  let level1 := rtlpUpcaseTable.getD (c.toNat / 256) 0
  let level2 := rtlpUpcaseTable.getD (level1 + c.toNat / 16 % 16) 0
  UInt16.ofNat (c.toNat + rtlpUpcaseTable.getD (level2 + c.toNat % 16) 0)

/-- `RtlEqualUnicodeString` with `caseInsensitive` set. -/
def rtlEqualUnicodeString : WStr → WStr → Bool
  | [], [] => true
  | a :: s, b :: t =>
    rtlUpcaseUnicodeChar a == rtlUpcaseUnicodeChar b && rtlEqualUnicodeString s t
  | _, _ => false

/-- `RtlCompareUnicodeString` with `caseInsensitive` set: the difference of the first folded units
that differ, then the difference of the byte lengths. -/
def rtlCompareUnicodeString : WStr → WStr → Int
  | a :: s, b :: t =>
    let c1 : Int := (rtlUpcaseUnicodeChar a).toNat
    let c2 : Int := (rtlUpcaseUnicodeChar b).toNat
    if c1 ≠ c2 then c1 - c2 else rtlCompareUnicodeString s t
  | s, t => 2 * (s.length : Int) - 2 * (t.length : Int)

def foldUnits (s : WStr) : List Nat := s.map fun c => (rtlUpcaseUnicodeChar c).toNat

variable {s t : WStr}

theorem rtlEqualUnicodeString_iff :
    rtlEqualUnicodeString s t = true ↔ foldUnits s = foldUnits t := by
  induction s generalizing t with
  | nil => cases t <;> simp [rtlEqualUnicodeString, foldUnits]
  | cons a s ih =>
    cases t with
    | nil => simp [rtlEqualUnicodeString, foldUnits]
    | cons b t =>
      have ih' := @ih t
      simp only [foldUnits] at ih'
      simp [rtlEqualUnicodeString, foldUnits, ih', UInt16.toNat_inj]

theorem rtlEqualUnicodeString_self (s : WStr) : rtlEqualUnicodeString s s = true :=
  rtlEqualUnicodeString_iff.mpr rfl

theorem rtlCompareUnicodeString_neg_iff :
    rtlCompareUnicodeString s t < 0 ↔ foldUnits s < foldUnits t := by
  induction s generalizing t with
  | nil =>
    cases t with
    | nil => simp [rtlCompareUnicodeString, foldUnits]
    | cons b t =>
      simp only [rtlCompareUnicodeString, foldUnits, map_nil, map_cons,
        nil_lt_cons, iff_true, length_nil, length_cons]
      omega
  | cons a s ih =>
    cases t with
    | nil =>
      simp only [rtlCompareUnicodeString, foldUnits, map_nil, map_cons,
        not_lt_nil, iff_false, length_nil, length_cons]
      omega
    | cons b t =>
      simp only [rtlCompareUnicodeString, foldUnits, map_cons, cons_lt_cons_iff]
      split
      · rename_i hne
        constructor
        · intro h; exact .inl (by omega)
        · rintro (h | ⟨h, _⟩) <;> omega
      · rename_i heq
        have heq' : (rtlUpcaseUnicodeChar a).toNat = (rtlUpcaseUnicodeChar b).toNat := by
          omega
        rw [ih]
        simp [heq', foldUnits]

/-- "Sorts before", the order in which subkeys and values are kept. -/
def Before (s t : WStr) : Prop := rtlCompareUnicodeString s t < 0

instance (s t : WStr) : Decidable (Before s t) := inferInstanceAs (Decidable (_ < _))

theorem before_iff : Before s t ↔ foldUnits s < foldUnits t :=
  rtlCompareUnicodeString_neg_iff

theorem Before.trans {u : WStr} (h1 : Before s t) (h2 : Before t u) : Before s u :=
  before_iff.mpr (lt_trans (before_iff.mp h1) (before_iff.mp h2))

theorem Before.asymm (h : Before s t) : ¬ Before t s := fun h' =>
  lt_asymm (before_iff.mp h) (before_iff.mp h')

theorem Before.not_equal (h : Before s t) : rtlEqualUnicodeString s t = false := by
  by_contra hne
  have heq := rtlEqualUnicodeString_iff.mp (Bool.not_eq_false _ ▸ hne)
  exact lt_irrefl _ (heq ▸ before_iff.mp h)

theorem rtlEqualUnicodeString_comm (s t : WStr) :
    rtlEqualUnicodeString s t = rtlEqualUnicodeString t s := by
  rw [Bool.eq_iff_iff, rtlEqualUnicodeString_iff, rtlEqualUnicodeString_iff, eq_comm]

theorem before_or_before (h : rtlEqualUnicodeString s t = false) :
    Before s t ∨ Before t s := by
  have hne : foldUnits s ≠ foldUnits t := fun heq => by
    rw [rtlEqualUnicodeString_iff.mpr heq] at h; cases h
  exact (lt_or_gt_of_ne hne).imp before_iff.mpr before_iff.mpr

end Proskrnl
