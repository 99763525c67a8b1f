import BlockScript.Text.Marks

/-!
# How characters join: the tables

What a reader takes for one character may be several in a text: a letter with its accents, a
syllable of Hangul, a picture made of pictures. Each character has a part in that (`Joining`).

* `joining`: the part of a character.
-/

namespace BlockScript.Text

/-- The part of a character in joining with its neighbours. -/
inductive Joining
  /-- Joins only with what joins by itself. -/
  | other
  | carriageReturn
  | lineFeed
  /-- Joins with nothing. -/
  | control
  /-- Joins with what is before it. -/
  | extend
  /-- Joins with what is before it, and consonants around it with one another. -/
  | linker
  /-- Joins with what is before it, and keeps consonants around it apart. -/
  | nonJoiner
  /-- Joins with what is before it, and pictures around it with one another. -/
  | joiner
  /-- Joins with what is before it, but takes a place of its own. -/
  | spacing
  /-- Joins with what is after it. -/
  | prepended
  /-- The first part of a Hangul syllable. -/
  | leading
  /-- The middle of a Hangul syllable. -/
  | vowel
  /-- The end of a Hangul syllable. -/
  | trailing
  /-- A Hangul syllable that may still take an end. -/
  | openSyllable
  /-- A Hangul syllable with an end. -/
  | closedSyllable
  /-- A letter of the alphabet for flags, which come in pairs. -/
  | regional
  | picture
  /-- A consonant that a linker can join. -/
  | consonant
  deriving DecidableEq, Repr

/-! ## 1. Tables -/

/-- Controls, line and paragraph separators, and most format characters. -/
def controlRanges : List Range :=
  [(0x0, 10), (0xb, 2), (0xe, 18), (0x7f, 33), (0xad, 1), (0x61c, 1), (0x180e, 1), (0x200b, 1),
    (0x200e, 2), (0x2028, 7), (0x2060, 16), (0xfeff, 1), (0xfff0, 12), (0x13430, 16), (0x1bca0, 4),
    (0x1d173, 8), (0xe0000, 32), (0xe0080, 128), (0xe01f0, 3600)]

/-- Marks without a width of their own, and the modifiers of pictures. -/
def extendRanges : List Range :=
  markRanges ++
    [(0x9be, 1), (0x9d7, 1), (0xb3e, 1), (0xb57, 1), (0xbbe, 1), (0xbd7, 1), (0xcc0, 1), (0xcc2, 1),
    (0xcc7, 2), (0xcca, 2), (0xcd5, 2), (0xd3e, 1), (0xd57, 1), (0xdcf, 1), (0xddf, 1), (0x1715, 1),
    (0x1734, 1), (0x1b35, 9), (0x1b43, 1), (0x1baa, 1), (0x1bf2, 2), (0x302e, 2), (0xa953, 1),
    (0xff9e, 2), (0x111c0, 1), (0x11235, 1), (0x1133e, 1), (0x1134d, 1), (0x11357, 1), (0x113b8, 1),
    (0x113c2, 1), (0x113c5, 1), (0x113c7, 3), (0x113cf, 1), (0x114b0, 1), (0x114bd, 1),
    (0x115af, 1), (0x116b6, 1), (0x11930, 1), (0x1193d, 1), (0x11f41, 1), (0x16ff0, 2),
    (0x1d165, 2), (0x1d16d, 6), (0x1f3fb, 5)]

/-- The signs that join two consonants. -/
def linkerRanges : List Range :=
  [(0x94d, 1), (0x9cd, 1), (0xacd, 1), (0xb4d, 1), (0xc4d, 1), (0xd4d, 1), (0x1039, 1), (0x17d2, 1),
    (0x1a60, 1), (0x1b44, 1), (0x1bab, 1), (0xa9c0, 1), (0xaaf6, 1), (0x10a3f, 1), (0x11133, 1),
    (0x113d0, 1), (0x1193e, 1), (0x11a47, 1), (0x11a99, 1), (0x11f42, 1)]

/-- Marks with a width of their own. -/
def spacingRanges : List Range :=
  [(0x903, 1), (0x93b, 1), (0x93e, 3), (0x949, 4), (0x94e, 2), (0x982, 2), (0x9bf, 2), (0x9c7, 2),
    (0x9cb, 2), (0xa03, 1), (0xa3e, 3), (0xa83, 1), (0xabe, 3), (0xac9, 1), (0xacb, 2), (0xb02, 2),
    (0xb40, 1), (0xb47, 2), (0xb4b, 2), (0xbbf, 1), (0xbc1, 2), (0xbc6, 3), (0xbca, 3), (0xc01, 3),
    (0xc41, 4), (0xc82, 2), (0xcbe, 1), (0xcc1, 1), (0xcc3, 2), (0xcf3, 1), (0xd02, 2), (0xd3f, 2),
    (0xd46, 3), (0xd4a, 3), (0xd82, 2), (0xdd0, 2), (0xdd8, 7), (0xdf2, 2), (0xe33, 1), (0xeb3, 1),
    (0xf3e, 2), (0xf7f, 1), (0x1031, 1), (0x103b, 2), (0x1056, 2), (0x1084, 1), (0x17b6, 1),
    (0x17be, 8), (0x17c7, 2), (0x1923, 4), (0x1929, 3), (0x1930, 2), (0x1933, 6), (0x1a19, 2),
    (0x1a55, 1), (0x1a57, 1), (0x1a6d, 6), (0x1b04, 1), (0x1b3e, 4), (0x1b82, 1), (0x1ba1, 1),
    (0x1ba6, 2), (0x1be7, 1), (0x1bea, 3), (0x1bee, 1), (0x1c24, 8), (0x1c34, 2), (0x1ce1, 1),
    (0x1cf7, 1), (0xa823, 2), (0xa827, 1), (0xa880, 2), (0xa8b4, 16), (0xa952, 1), (0xa983, 1),
    (0xa9b4, 2), (0xa9ba, 2), (0xa9be, 2), (0xaa2f, 2), (0xaa33, 2), (0xaa4d, 1), (0xaaeb, 1),
    (0xaaee, 2), (0xaaf5, 1), (0xabe3, 2), (0xabe6, 2), (0xabe9, 2), (0xabec, 1), (0x11000, 1),
    (0x11002, 1), (0x11082, 1), (0x110b0, 3), (0x110b7, 2), (0x1112c, 1), (0x11145, 2),
    (0x11182, 1), (0x111b3, 3), (0x111bf, 1), (0x111ce, 1), (0x1122c, 3), (0x11232, 2),
    (0x112e0, 3), (0x11302, 2), (0x1133f, 1), (0x11341, 4), (0x11347, 2), (0x1134b, 2),
    (0x11362, 2), (0x113b9, 2), (0x113ca, 1), (0x113cc, 2), (0x11435, 3), (0x11440, 2),
    (0x11445, 1), (0x114b1, 2), (0x114b9, 1), (0x114bb, 2), (0x114be, 1), (0x114c1, 1),
    (0x115b0, 2), (0x115b8, 4), (0x115be, 1), (0x11630, 3), (0x1163b, 2), (0x1163e, 1),
    (0x116ac, 1), (0x116ae, 2), (0x1171e, 1), (0x11726, 1), (0x1182c, 3), (0x11838, 1),
    (0x11931, 5), (0x11937, 2), (0x11940, 1), (0x11942, 1), (0x119d1, 3), (0x119dc, 4),
    (0x119e4, 1), (0x11a39, 1), (0x11a57, 2), (0x11a97, 1), (0x11b61, 1), (0x11b65, 1),
    (0x11b67, 1), (0x11c2f, 1), (0x11c3e, 1), (0x11ca9, 1), (0x11cb1, 1), (0x11cb4, 1),
    (0x11d8a, 5), (0x11d93, 2), (0x11d96, 1), (0x11ef5, 2), (0x11f03, 1), (0x11f34, 2),
    (0x11f3e, 2), (0x1612a, 3), (0x16f51, 55)]

/-- Signs that stand before what they belong to. -/
def prependedRanges : List Range :=
  [(0x600, 6), (0x6dd, 1), (0x70f, 1), (0x890, 2), (0x8e2, 1), (0xd4e, 1), (0x110bd, 1),
    (0x110cd, 1), (0x111c2, 2), (0x113d1, 1), (0x1193f, 1), (0x11941, 1), (0x11a84, 6),
    (0x11d46, 1), (0x11f02, 1)]

/-- Hangul letters that start a syllable. -/
def leadingRanges : List Range :=
  [(0x1100, 96), (0xa960, 29)]

/-- Hangul letters in the middle of a syllable, and vowel signs that join alike. -/
def vowelRanges : List Range :=
  [(0x1160, 72), (0xd7b0, 23), (0x16d63, 1), (0x16d67, 4)]

/-- Hangul letters that end a syllable. -/
def trailingRanges : List Range :=
  [(0x11a8, 88), (0xd7cb, 49)]

/-- Pictures. -/
def pictureRanges : List Range :=
  [(0xa9, 1), (0xae, 1), (0x203c, 1), (0x2049, 1), (0x2122, 1), (0x2139, 1), (0x2194, 6),
    (0x21a9, 2), (0x231a, 2), (0x2328, 1), (0x23cf, 1), (0x23e9, 11), (0x23f8, 3), (0x24c2, 1),
    (0x25aa, 2), (0x25b6, 1), (0x25c0, 1), (0x25fb, 4), (0x2600, 5), (0x260e, 1), (0x2611, 1),
    (0x2614, 2), (0x2618, 1), (0x261d, 1), (0x2620, 1), (0x2622, 2), (0x2626, 1), (0x262a, 1),
    (0x262e, 2), (0x2638, 3), (0x2640, 1), (0x2642, 1), (0x2648, 12), (0x265f, 2), (0x2663, 1),
    (0x2665, 2), (0x2668, 1), (0x267b, 1), (0x267e, 2), (0x2692, 6), (0x2699, 1), (0x269b, 2),
    (0x26a0, 2), (0x26a7, 1), (0x26aa, 2), (0x26b0, 2), (0x26bd, 2), (0x26c4, 2), (0x26c8, 1),
    (0x26ce, 2), (0x26d1, 1), (0x26d3, 2), (0x26e9, 2), (0x26f0, 6), (0x26f7, 4), (0x26fd, 1),
    (0x2702, 1), (0x2705, 1), (0x2708, 6), (0x270f, 1), (0x2712, 1), (0x2714, 1), (0x2716, 1),
    (0x271d, 1), (0x2721, 1), (0x2728, 1), (0x2733, 2), (0x2744, 1), (0x2747, 1), (0x274c, 1),
    (0x274e, 1), (0x2753, 3), (0x2757, 1), (0x2763, 2), (0x2795, 3), (0x27a1, 1), (0x27b0, 1),
    (0x27bf, 1), (0x2934, 2), (0x2b05, 3), (0x2b1b, 2), (0x2b50, 1), (0x2b55, 1), (0x3030, 1),
    (0x303d, 1), (0x3297, 1), (0x3299, 1), (0x1f004, 1), (0x1f02c, 4), (0x1f094, 12), (0x1f0af, 2),
    (0x1f0c0, 1), (0x1f0cf, 2), (0x1f0f6, 10), (0x1f170, 2), (0x1f17e, 2), (0x1f18e, 1),
    (0x1f191, 10), (0x1f1ae, 56), (0x1f201, 15), (0x1f21a, 1), (0x1f22f, 1), (0x1f232, 9),
    (0x1f23c, 4), (0x1f249, 23), (0x1f266, 188), (0x1f324, 112), (0x1f396, 2), (0x1f399, 3),
    (0x1f39e, 83), (0x1f3f3, 3), (0x1f3f7, 4), (0x1f400, 254), (0x1f4ff, 63), (0x1f549, 6),
    (0x1f550, 24), (0x1f56f, 2), (0x1f573, 8), (0x1f587, 1), (0x1f58a, 4), (0x1f590, 1),
    (0x1f595, 2), (0x1f5a4, 2), (0x1f5a8, 1), (0x1f5b1, 2), (0x1f5bc, 1), (0x1f5c2, 3),
    (0x1f5d1, 3), (0x1f5dc, 3), (0x1f5e1, 1), (0x1f5e3, 1), (0x1f5e8, 1), (0x1f5ef, 1),
    (0x1f5f3, 1), (0x1f5fa, 86), (0x1f680, 70), (0x1f6cb, 8), (0x1f6d5, 17), (0x1f6e9, 1),
    (0x1f6eb, 6), (0x1f6f3, 13), (0x1f7da, 38), (0x1f80c, 4), (0x1f848, 8), (0x1f85a, 6),
    (0x1f888, 8), (0x1f8ae, 2), (0x1f8bc, 4), (0x1f8c2, 14), (0x1f8d9, 39), (0x1f90c, 47),
    (0x1f93c, 10), (0x1f947, 185), (0x1fa58, 8), (0x1fa6e, 146), (0x1fc00, 1022)]

/-- Consonants that a linker can join. -/
def consonantRanges : List Range :=
  [(0x915, 37), (0x958, 8), (0x978, 8), (0x995, 20), (0x9aa, 7), (0x9b2, 1), (0x9b6, 4), (0x9dc, 2),
    (0x9df, 1), (0x9f0, 2), (0xa95, 20), (0xaaa, 7), (0xab2, 2), (0xab5, 5), (0xaf9, 1),
    (0xb15, 20), (0xb2a, 7), (0xb32, 2), (0xb35, 5), (0xb5c, 2), (0xb5f, 1), (0xb71, 1),
    (0xc15, 20), (0xc2a, 16), (0xc58, 3), (0xd15, 38), (0x1000, 43), (0x103f, 1), (0x1050, 6),
    (0x105a, 4), (0x1061, 1), (0x1065, 2), (0x106e, 3), (0x1075, 13), (0x108e, 1), (0x1780, 52),
    (0x1a20, 53), (0x1b0b, 2), (0x1b13, 33), (0x1b45, 8), (0x1b83, 30), (0x1bae, 2), (0x1bbb, 3),
    (0xa989, 3), (0xa98f, 36), (0xa9e0, 5), (0xa9e7, 9), (0xa9fa, 5), (0xaa60, 16), (0xaa71, 3),
    (0xaa7a, 1), (0xaa7e, 2), (0xaae0, 11), (0xabc0, 27), (0x10a00, 1), (0x10a10, 4), (0x10a15, 3),
    (0x10a19, 29), (0x11103, 36), (0x11144, 1), (0x11147, 1), (0x11380, 10), (0x1138b, 1),
    (0x1138e, 1), (0x11390, 38), (0x11900, 7), (0x11909, 1), (0x1190c, 8), (0x11915, 2),
    (0x11918, 24), (0x11a00, 1), (0x11a0b, 40), (0x11a50, 1), (0x11a5c, 40), (0x11f04, 13),
    (0x11f12, 34)]

/-! ## 2. The part of a character -/

/-- The classes that are tables. -/
def joiningTables : List (List Range × Joining) :=
  [(controlRanges, .control), (extendRanges, .extend), (linkerRanges, .linker),
    ([(0x200c, 1)], .nonJoiner), ([(0x200d, 1)], .joiner), (spacingRanges, .spacing),
    (prependedRanges, .prepended), (leadingRanges, .leading), (vowelRanges, .vowel),
    (trailingRanges, .trailing), ([(0x1f1e6, 26)], .regional), (pictureRanges, .picture),
    (consonantRanges, .consonant)]

/-- The part of a syllable of Hangul; every twenty-eighth has no end. -/
def syllableJoining (code : Nat) : Joining :=
  if (code - 0xac00) % 28 = 0 then .openSyllable else .closedSyllable

/-- The part of a character. The printable ASCII block is decided without the tables. -/
def joining (c : Char) : Joining :=
  let code := c.toNat
  if 0x20 ≤ code && code ≤ 0x7e then .other
  else if c = '\r' then .carriageReturn
  else if c = '\n' then .lineFeed
  else if 0xac00 ≤ code && code ≤ 0xd7a3 then syllableJoining code
  else
    match joiningTables.find? fun t => inRanges t.1 code with
    | some t => t.2
    | none => .other

end BlockScript.Text
