import BlockScript.Text.Marks

/-!
# Case of letters: the tables

* `lowerRuns`: the letters with a single lower-case partner, as runs of equal distance;
* `casedRanges`: the characters that have a case at all;
* `caseIgnorableRanges`: the characters that a search for the end of a word steps over.
-/

namespace BlockScript.Text

/-- A run of so many letters `first, first + stride, …` whose lower-case partners all lie at the same
    distance `shift`. -/
structure LowerRun where
  first : Nat
  count : Nat
  stride : Nat
  shift : Int

/-- The letters with one lower-case partner of their own. -/
def lowerRuns : List LowerRun :=
  [⟨0x41, 26, 1, 32⟩, ⟨0xc0, 23, 1, 32⟩, ⟨0xd8, 7, 1, 32⟩, ⟨0x100, 24, 2, 1⟩, ⟨0x132, 3, 2, 1⟩,
    ⟨0x139, 8, 2, 1⟩, ⟨0x14a, 23, 2, 1⟩, ⟨0x178, 1, 1, -121⟩, ⟨0x179, 3, 2, 1⟩, ⟨0x181, 1, 1, 210⟩,
    ⟨0x182, 2, 2, 1⟩, ⟨0x186, 1, 1, 206⟩, ⟨0x187, 1, 1, 1⟩, ⟨0x189, 2, 1, 205⟩, ⟨0x18b, 1, 1, 1⟩,
    ⟨0x18e, 1, 1, 79⟩, ⟨0x18f, 1, 1, 202⟩, ⟨0x190, 1, 1, 203⟩, ⟨0x191, 1, 1, 1⟩, ⟨0x193, 1, 1, 205⟩,
    ⟨0x194, 1, 1, 207⟩, ⟨0x196, 1, 1, 211⟩, ⟨0x197, 1, 1, 209⟩, ⟨0x198, 1, 1, 1⟩,
    ⟨0x19c, 1, 1, 211⟩, ⟨0x19d, 1, 1, 213⟩, ⟨0x19f, 1, 1, 214⟩, ⟨0x1a0, 3, 2, 1⟩,
    ⟨0x1a6, 1, 1, 218⟩, ⟨0x1a7, 1, 1, 1⟩, ⟨0x1a9, 1, 1, 218⟩, ⟨0x1ac, 1, 1, 1⟩, ⟨0x1ae, 1, 1, 218⟩,
    ⟨0x1af, 1, 1, 1⟩, ⟨0x1b1, 2, 1, 217⟩, ⟨0x1b3, 2, 2, 1⟩, ⟨0x1b7, 1, 1, 219⟩, ⟨0x1b8, 1, 1, 1⟩,
    ⟨0x1bc, 1, 1, 1⟩, ⟨0x1c4, 1, 1, 2⟩, ⟨0x1c5, 1, 1, 1⟩, ⟨0x1c7, 1, 1, 2⟩, ⟨0x1c8, 1, 1, 1⟩,
    ⟨0x1ca, 1, 1, 2⟩, ⟨0x1cb, 9, 2, 1⟩, ⟨0x1de, 9, 2, 1⟩, ⟨0x1f1, 1, 1, 2⟩, ⟨0x1f2, 2, 2, 1⟩,
    ⟨0x1f6, 1, 1, -97⟩, ⟨0x1f7, 1, 1, -56⟩, ⟨0x1f8, 20, 2, 1⟩, ⟨0x220, 1, 1, -130⟩,
    ⟨0x222, 9, 2, 1⟩, ⟨0x23a, 1, 1, 10795⟩, ⟨0x23b, 1, 1, 1⟩, ⟨0x23d, 1, 1, -163⟩,
    ⟨0x23e, 1, 1, 10792⟩, ⟨0x241, 1, 1, 1⟩, ⟨0x243, 1, 1, -195⟩, ⟨0x244, 1, 1, 69⟩,
    ⟨0x245, 1, 1, 71⟩, ⟨0x246, 5, 2, 1⟩, ⟨0x370, 2, 2, 1⟩, ⟨0x376, 1, 1, 1⟩, ⟨0x37f, 1, 1, 116⟩,
    ⟨0x386, 1, 1, 38⟩, ⟨0x388, 3, 1, 37⟩, ⟨0x38c, 1, 1, 64⟩, ⟨0x38e, 2, 1, 63⟩, ⟨0x391, 17, 1, 32⟩,
    ⟨0x3a3, 9, 1, 32⟩, ⟨0x3cf, 1, 1, 8⟩, ⟨0x3d8, 12, 2, 1⟩, ⟨0x3f4, 1, 1, -60⟩, ⟨0x3f7, 1, 1, 1⟩,
    ⟨0x3f9, 1, 1, -7⟩, ⟨0x3fa, 1, 1, 1⟩, ⟨0x3fd, 3, 1, -130⟩, ⟨0x400, 16, 1, 80⟩,
    ⟨0x410, 32, 1, 32⟩, ⟨0x460, 17, 2, 1⟩, ⟨0x48a, 27, 2, 1⟩, ⟨0x4c0, 1, 1, 15⟩, ⟨0x4c1, 7, 2, 1⟩,
    ⟨0x4d0, 48, 2, 1⟩, ⟨0x531, 38, 1, 48⟩, ⟨0x10a0, 38, 1, 7264⟩, ⟨0x10c7, 1, 1, 7264⟩,
    ⟨0x10cd, 1, 1, 7264⟩, ⟨0x13a0, 80, 1, 38864⟩, ⟨0x13f0, 6, 1, 8⟩, ⟨0x1c89, 1, 1, 1⟩,
    ⟨0x1c90, 43, 1, -3008⟩, ⟨0x1cbd, 3, 1, -3008⟩, ⟨0x1e00, 75, 2, 1⟩, ⟨0x1e9e, 1, 1, -7615⟩,
    ⟨0x1ea0, 48, 2, 1⟩, ⟨0x1f08, 8, 1, -8⟩, ⟨0x1f18, 6, 1, -8⟩, ⟨0x1f28, 8, 1, -8⟩,
    ⟨0x1f38, 8, 1, -8⟩, ⟨0x1f48, 6, 1, -8⟩, ⟨0x1f59, 4, 2, -8⟩, ⟨0x1f68, 8, 1, -8⟩,
    ⟨0x1f88, 8, 1, -8⟩, ⟨0x1f98, 8, 1, -8⟩, ⟨0x1fa8, 8, 1, -8⟩, ⟨0x1fb8, 2, 1, -8⟩,
    ⟨0x1fba, 2, 1, -74⟩, ⟨0x1fbc, 1, 1, -9⟩, ⟨0x1fc8, 4, 1, -86⟩, ⟨0x1fcc, 1, 1, -9⟩,
    ⟨0x1fd8, 2, 1, -8⟩, ⟨0x1fda, 2, 1, -100⟩, ⟨0x1fe8, 2, 1, -8⟩, ⟨0x1fea, 2, 1, -112⟩,
    ⟨0x1fec, 1, 1, -7⟩, ⟨0x1ff8, 2, 1, -128⟩, ⟨0x1ffa, 2, 1, -126⟩, ⟨0x1ffc, 1, 1, -9⟩,
    ⟨0x2126, 1, 1, -7517⟩, ⟨0x212a, 1, 1, -8383⟩, ⟨0x212b, 1, 1, -8262⟩, ⟨0x2132, 1, 1, 28⟩,
    ⟨0x2160, 16, 1, 16⟩, ⟨0x2183, 1, 1, 1⟩, ⟨0x24b6, 26, 1, 26⟩, ⟨0x2c00, 48, 1, 48⟩,
    ⟨0x2c60, 1, 1, 1⟩, ⟨0x2c62, 1, 1, -10743⟩, ⟨0x2c63, 1, 1, -3814⟩, ⟨0x2c64, 1, 1, -10727⟩,
    ⟨0x2c67, 3, 2, 1⟩, ⟨0x2c6d, 1, 1, -10780⟩, ⟨0x2c6e, 1, 1, -10749⟩, ⟨0x2c6f, 1, 1, -10783⟩,
    ⟨0x2c70, 1, 1, -10782⟩, ⟨0x2c72, 1, 1, 1⟩, ⟨0x2c75, 1, 1, 1⟩, ⟨0x2c7e, 2, 1, -10815⟩,
    ⟨0x2c80, 50, 2, 1⟩, ⟨0x2ceb, 2, 2, 1⟩, ⟨0x2cf2, 1, 1, 1⟩, ⟨0xa640, 23, 2, 1⟩,
    ⟨0xa680, 14, 2, 1⟩, ⟨0xa722, 7, 2, 1⟩, ⟨0xa732, 31, 2, 1⟩, ⟨0xa779, 2, 2, 1⟩,
    ⟨0xa77d, 1, 1, -35332⟩, ⟨0xa77e, 5, 2, 1⟩, ⟨0xa78b, 1, 1, 1⟩, ⟨0xa78d, 1, 1, -42280⟩,
    ⟨0xa790, 2, 2, 1⟩, ⟨0xa796, 10, 2, 1⟩, ⟨0xa7aa, 1, 1, -42308⟩, ⟨0xa7ab, 1, 1, -42319⟩,
    ⟨0xa7ac, 1, 1, -42315⟩, ⟨0xa7ad, 1, 1, -42305⟩, ⟨0xa7ae, 1, 1, -42308⟩, ⟨0xa7b0, 1, 1, -42258⟩,
    ⟨0xa7b1, 1, 1, -42282⟩, ⟨0xa7b2, 1, 1, -42261⟩, ⟨0xa7b3, 1, 1, 928⟩, ⟨0xa7b4, 8, 2, 1⟩,
    ⟨0xa7c4, 1, 1, -48⟩, ⟨0xa7c5, 1, 1, -42307⟩, ⟨0xa7c6, 1, 1, -35384⟩, ⟨0xa7c7, 2, 2, 1⟩,
    ⟨0xa7cb, 1, 1, -42343⟩, ⟨0xa7cc, 8, 2, 1⟩, ⟨0xa7dc, 1, 1, -42561⟩, ⟨0xa7f5, 1, 1, 1⟩,
    ⟨0xff21, 26, 1, 32⟩, ⟨0x10400, 40, 1, 40⟩, ⟨0x104b0, 36, 1, 40⟩, ⟨0x10570, 11, 1, 39⟩,
    ⟨0x1057c, 15, 1, 39⟩, ⟨0x1058c, 7, 1, 39⟩, ⟨0x10594, 2, 1, 39⟩, ⟨0x10c80, 51, 1, 64⟩,
    ⟨0x10d50, 22, 1, 32⟩, ⟨0x118a0, 32, 1, 32⟩, ⟨0x16e40, 32, 1, 32⟩, ⟨0x16ea0, 25, 1, 27⟩,
    ⟨0x1e900, 34, 1, 34⟩]

/-- The characters that have a case. -/
def casedRanges : List Range :=
  [(0x41, 26), (0x61, 26), (0xaa, 1), (0xb5, 1), (0xba, 1), (0xc0, 23), (0xd8, 31), (0xf8, 195),
    (0x1bc, 4), (0x1c4, 208), (0x296, 35), (0x2c0, 2), (0x2e0, 5), (0x345, 1), (0x370, 4),
    (0x376, 2), (0x37a, 4), (0x37f, 1), (0x386, 1), (0x388, 3), (0x38c, 1), (0x38e, 20),
    (0x3a3, 83), (0x3f7, 139), (0x48a, 166), (0x531, 38), (0x560, 41), (0x10a0, 38), (0x10c7, 1),
    (0x10cd, 1), (0x10d0, 43), (0x10fc, 4), (0x13a0, 86), (0x13f8, 6), (0x1c80, 11), (0x1c90, 43),
    (0x1cbd, 3), (0x1d00, 192), (0x1e00, 278), (0x1f18, 6), (0x1f20, 38), (0x1f48, 6), (0x1f50, 8),
    (0x1f59, 1), (0x1f5b, 1), (0x1f5d, 1), (0x1f5f, 31), (0x1f80, 53), (0x1fb6, 7), (0x1fbe, 1),
    (0x1fc2, 3), (0x1fc6, 7), (0x1fd0, 4), (0x1fd6, 6), (0x1fe0, 13), (0x1ff2, 3), (0x1ff6, 7),
    (0x2071, 1), (0x207f, 1), (0x2090, 13), (0x2102, 1), (0x2107, 1), (0x210a, 10), (0x2115, 1),
    (0x2119, 5), (0x2124, 1), (0x2126, 1), (0x2128, 1), (0x212a, 4), (0x212f, 6), (0x2139, 1),
    (0x213c, 4), (0x2145, 5), (0x214e, 1), (0x2160, 32), (0x2183, 2), (0x24b6, 52), (0x2c00, 229),
    (0x2ceb, 4), (0x2cf2, 2), (0x2d00, 38), (0x2d27, 1), (0x2d2d, 1), (0xa640, 46), (0xa680, 30),
    (0xa722, 102), (0xa78b, 4), (0xa790, 77), (0xa7f1, 6), (0xa7f8, 3), (0xab30, 43), (0xab5c, 14),
    (0xab70, 80), (0xfb00, 7), (0xfb13, 5), (0xff21, 26), (0xff41, 26), (0x10400, 80),
    (0x104b0, 36), (0x104d8, 36), (0x10570, 11), (0x1057c, 15), (0x1058c, 7), (0x10594, 2),
    (0x10597, 11), (0x105a3, 15), (0x105b3, 7), (0x105bb, 2), (0x10780, 1), (0x10783, 3),
    (0x10787, 42), (0x107b2, 9), (0x10c80, 51), (0x10cc0, 51), (0x10d50, 22), (0x10d70, 22),
    (0x118a0, 64), (0x16e40, 64), (0x16ea0, 25), (0x16ebb, 25), (0x1d400, 85), (0x1d456, 71),
    (0x1d49e, 2), (0x1d4a2, 1), (0x1d4a5, 2), (0x1d4a9, 4), (0x1d4ae, 12), (0x1d4bb, 1),
    (0x1d4bd, 7), (0x1d4c5, 65), (0x1d507, 4), (0x1d50d, 8), (0x1d516, 7), (0x1d51e, 28),
    (0x1d53b, 4), (0x1d540, 5), (0x1d546, 1), (0x1d54a, 7), (0x1d552, 340), (0x1d6a8, 25),
    (0x1d6c2, 25), (0x1d6dc, 31), (0x1d6fc, 25), (0x1d716, 31), (0x1d736, 25), (0x1d750, 31),
    (0x1d770, 25), (0x1d78a, 31), (0x1d7aa, 25), (0x1d7c4, 8), (0x1df00, 10), (0x1df0b, 20),
    (0x1df25, 6), (0x1e030, 62), (0x1e900, 68), (0x1f130, 26), (0x1f150, 26), (0x1f170, 26)]

/-- The characters that do not end a word: marks, modifiers and inner punctuation. -/
def caseIgnorableRanges : List Range :=
  markRanges ++
    [(0x27, 1), (0x2e, 1), (0x3a, 1), (0x5e, 1), (0x60, 1), (0xa8, 1), (0xad, 1), (0xaf, 1),
    (0xb4, 1), (0xb7, 2), (0x2b0, 80), (0x374, 2), (0x37a, 1), (0x384, 2), (0x387, 1), (0x559, 1),
    (0x55f, 1), (0x5f4, 1), (0x600, 6), (0x61c, 1), (0x640, 1), (0x6dd, 1), (0x6e5, 2), (0x70f, 1),
    (0x7f4, 2), (0x7fa, 1), (0x81a, 15), (0x888, 1), (0x890, 2), (0x8c9, 26), (0x94d, 1),
    (0x971, 1), (0x9cd, 1), (0xacd, 1), (0xb4d, 1), (0xc4d, 1), (0xd4d, 1), (0xe46, 1), (0xec6, 1),
    (0x1039, 1), (0x10fc, 1), (0x17d2, 1), (0x17d7, 1), (0x180e, 1), (0x1843, 1), (0x1a60, 1),
    (0x1aa7, 1), (0x1bab, 1), (0x1c78, 6), (0x1d2c, 63), (0x1d78, 1), (0x1d9b, 37), (0x1fbd, 1),
    (0x1fbf, 3), (0x1fcd, 3), (0x1fdd, 3), (0x1fed, 3), (0x1ffd, 2), (0x200b, 5), (0x2018, 2),
    (0x2024, 1), (0x2027, 1), (0x202a, 5), (0x2060, 5), (0x2066, 10), (0x2071, 1), (0x207f, 1),
    (0x2090, 13), (0x2c7c, 2), (0x2d6f, 1), (0x2e2f, 1), (0x3005, 1), (0x3031, 5), (0x303b, 1),
    (0x309b, 4), (0x30fc, 3), (0xa015, 1), (0xa4f8, 6), (0xa60c, 1), (0xa67f, 1), (0xa69c, 2),
    (0xa700, 34), (0xa770, 1), (0xa788, 3), (0xa7f1, 4), (0xa7f8, 2), (0xa9cf, 1), (0xa9e6, 1),
    (0xaa70, 1), (0xaadd, 1), (0xaaf3, 2), (0xaaf6, 1), (0xab5b, 5), (0xab69, 3), (0xfbb2, 17),
    (0xfe13, 1), (0xfe52, 1), (0xfe55, 1), (0xfeff, 1), (0xff07, 1), (0xff0e, 1), (0xff1a, 1),
    (0xff3e, 1), (0xff40, 1), (0xff70, 1), (0xff9e, 2), (0xffe3, 1), (0xfff9, 3), (0x10780, 6),
    (0x10787, 42), (0x107b2, 9), (0x10a3f, 1), (0x10d4e, 1), (0x10d6f, 1), (0x10ec5, 1),
    (0x110bd, 1), (0x110cd, 1), (0x11133, 1), (0x113d0, 1), (0x1193e, 1), (0x11a47, 1),
    (0x11a99, 1), (0x11dd9, 1), (0x11f42, 1), (0x13430, 16), (0x16b40, 4), (0x16d40, 3),
    (0x16d6b, 2), (0x16f93, 13), (0x16fe0, 2), (0x16fe3, 1), (0x16ff2, 2), (0x1aff0, 4),
    (0x1aff5, 7), (0x1affd, 2), (0x1bca0, 4), (0x1d173, 8), (0x1e030, 62), (0x1e137, 7),
    (0x1e4eb, 1), (0x1e6ff, 1), (0x1e94b, 1), (0x1f3fb, 5), (0xe0001, 1)]

end BlockScript.Text
