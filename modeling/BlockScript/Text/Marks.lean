import BlockScript.Text.Ranges

/-!
# Marks

The marks that attach to the character before them and take no place of their own. They join with
that character, no word ends at them, and quoted text writes them by number; each of these three
tables has further characters of its own.
-/

namespace BlockScript.Text

/-- The marks that are part of the character before them. -/
def markRanges : List Range :=
  [(0x300, 112), (0x483, 7), (0x591, 45), (0x5bf, 1), (0x5c1, 2), (0x5c4, 2), (0x5c7, 1),
    (0x610, 11), (0x64b, 21), (0x670, 1), (0x6d6, 7), (0x6df, 6), (0x6e7, 2), (0x6ea, 4),
    (0x711, 1), (0x730, 27), (0x7a6, 11), (0x7eb, 9), (0x7fd, 1), (0x816, 4), (0x81b, 9),
    (0x825, 3), (0x829, 5), (0x859, 3), (0x897, 9), (0x8ca, 24), (0x8e3, 32), (0x93a, 1),
    (0x93c, 1), (0x941, 8), (0x951, 7), (0x962, 2), (0x981, 1), (0x9bc, 1), (0x9c1, 4), (0x9e2, 2),
    (0x9fe, 1), (0xa01, 2), (0xa3c, 1), (0xa41, 2), (0xa47, 2), (0xa4b, 3), (0xa51, 1), (0xa70, 2),
    (0xa75, 1), (0xa81, 2), (0xabc, 1), (0xac1, 5), (0xac7, 2), (0xae2, 2), (0xafa, 6), (0xb01, 1),
    (0xb3c, 1), (0xb3f, 1), (0xb41, 4), (0xb55, 2), (0xb62, 2), (0xb82, 1), (0xbc0, 1), (0xbcd, 1),
    (0xc00, 1), (0xc04, 1), (0xc3c, 1), (0xc3e, 3), (0xc46, 3), (0xc4a, 3), (0xc55, 2), (0xc62, 2),
    (0xc81, 1), (0xcbc, 1), (0xcbf, 1), (0xcc6, 1), (0xccc, 2), (0xce2, 2), (0xd00, 2), (0xd3b, 2),
    (0xd41, 4), (0xd62, 2), (0xd81, 1), (0xdca, 1), (0xdd2, 3), (0xdd6, 1), (0xe31, 1), (0xe34, 7),
    (0xe47, 8), (0xeb1, 1), (0xeb4, 9), (0xec8, 7), (0xf18, 2), (0xf35, 1), (0xf37, 1), (0xf39, 1),
    (0xf71, 14), (0xf80, 5), (0xf86, 2), (0xf8d, 11), (0xf99, 36), (0xfc6, 1), (0x102d, 4),
    (0x1032, 6), (0x103a, 1), (0x103d, 2), (0x1058, 2), (0x105e, 3), (0x1071, 4), (0x1082, 1),
    (0x1085, 2), (0x108d, 1), (0x109d, 1), (0x135d, 3), (0x1712, 3), (0x1732, 2), (0x1752, 2),
    (0x1772, 2), (0x17b4, 2), (0x17b7, 7), (0x17c6, 1), (0x17c9, 9), (0x17d3, 1), (0x17dd, 1),
    (0x180b, 3), (0x180f, 1), (0x1885, 2), (0x18a9, 1), (0x1920, 3), (0x1927, 2), (0x1932, 1),
    (0x1939, 3), (0x1a17, 2), (0x1a1b, 1), (0x1a56, 1), (0x1a58, 7), (0x1a62, 1), (0x1a65, 8),
    (0x1a73, 10), (0x1a7f, 1), (0x1ab0, 46), (0x1ae0, 12), (0x1b00, 4), (0x1b34, 1), (0x1b36, 5),
    (0x1b3c, 1), (0x1b42, 1), (0x1b6b, 9), (0x1b80, 2), (0x1ba2, 4), (0x1ba8, 2), (0x1bac, 2),
    (0x1be6, 1), (0x1be8, 2), (0x1bed, 1), (0x1bef, 3), (0x1c2c, 8), (0x1c36, 2), (0x1cd0, 3),
    (0x1cd4, 13), (0x1ce2, 7), (0x1ced, 1), (0x1cf4, 1), (0x1cf8, 2), (0x1dc0, 64), (0x20d0, 33),
    (0x2cef, 3), (0x2d7f, 1), (0x2de0, 32), (0x302a, 4), (0x3099, 2), (0xa66f, 4), (0xa674, 10),
    (0xa69e, 2), (0xa6f0, 2), (0xa802, 1), (0xa806, 1), (0xa80b, 1), (0xa825, 2), (0xa82c, 1),
    (0xa8c4, 2), (0xa8e0, 18), (0xa8ff, 1), (0xa926, 8), (0xa947, 11), (0xa980, 3), (0xa9b3, 1),
    (0xa9b6, 4), (0xa9bc, 2), (0xa9e5, 1), (0xaa29, 6), (0xaa31, 2), (0xaa35, 2), (0xaa43, 1),
    (0xaa4c, 1), (0xaa7c, 1), (0xaab0, 1), (0xaab2, 3), (0xaab7, 2), (0xaabe, 2), (0xaac1, 1),
    (0xaaec, 2), (0xabe5, 1), (0xabe8, 1), (0xabed, 1), (0xfb1e, 1), (0xfe00, 16), (0xfe20, 16),
    (0x101fd, 1), (0x102e0, 1), (0x10376, 5), (0x10a01, 3), (0x10a05, 2), (0x10a0c, 4),
    (0x10a38, 3), (0x10ae5, 2), (0x10d24, 4), (0x10d69, 5), (0x10eab, 2), (0x10efa, 6),
    (0x10f46, 11), (0x10f82, 4), (0x11001, 1), (0x11038, 15), (0x11070, 1), (0x11073, 2),
    (0x1107f, 3), (0x110b3, 4), (0x110b9, 2), (0x110c2, 1), (0x11100, 3), (0x11127, 5),
    (0x1112d, 6), (0x11134, 1), (0x11173, 1), (0x11180, 2), (0x111b6, 9), (0x111c9, 4),
    (0x111cf, 1), (0x1122f, 3), (0x11234, 1), (0x11236, 2), (0x1123e, 1), (0x11241, 1),
    (0x112df, 1), (0x112e3, 8), (0x11300, 2), (0x1133b, 2), (0x11340, 1), (0x11366, 7),
    (0x11370, 5), (0x113bb, 6), (0x113ce, 1), (0x113d2, 1), (0x113e1, 2), (0x11438, 8),
    (0x11442, 3), (0x11446, 1), (0x1145e, 1), (0x114b3, 6), (0x114ba, 1), (0x114bf, 2),
    (0x114c2, 2), (0x115b2, 4), (0x115bc, 2), (0x115bf, 2), (0x115dc, 2), (0x11633, 8),
    (0x1163d, 1), (0x1163f, 2), (0x116ab, 1), (0x116ad, 1), (0x116b0, 6), (0x116b7, 1),
    (0x1171d, 1), (0x1171f, 1), (0x11722, 4), (0x11727, 5), (0x1182f, 9), (0x11839, 2),
    (0x1193b, 2), (0x11943, 1), (0x119d4, 4), (0x119da, 2), (0x119e0, 1), (0x11a01, 10),
    (0x11a33, 6), (0x11a3b, 4), (0x11a51, 6), (0x11a59, 3), (0x11a8a, 13), (0x11a98, 1),
    (0x11b60, 1), (0x11b62, 3), (0x11b66, 1), (0x11c30, 7), (0x11c38, 6), (0x11c3f, 1),
    (0x11c92, 22), (0x11caa, 7), (0x11cb2, 2), (0x11cb5, 2), (0x11d31, 6), (0x11d3a, 1),
    (0x11d3c, 2), (0x11d3f, 7), (0x11d47, 1), (0x11d90, 2), (0x11d95, 1), (0x11d97, 1),
    (0x11ef3, 2), (0x11f00, 2), (0x11f36, 5), (0x11f40, 1), (0x11f5a, 1), (0x13440, 1),
    (0x13447, 15), (0x1611e, 12), (0x1612d, 3), (0x16af0, 5), (0x16b30, 7), (0x16f4f, 1),
    (0x16f8f, 4), (0x16fe4, 1), (0x1bc9d, 2), (0x1cf00, 46), (0x1cf30, 23), (0x1d167, 3),
    (0x1d17b, 8), (0x1d185, 7), (0x1d1aa, 4), (0x1d242, 3), (0x1da00, 55), (0x1da3b, 50),
    (0x1da75, 1), (0x1da84, 1), (0x1da9b, 5), (0x1daa1, 15), (0x1e000, 7), (0x1e008, 17),
    (0x1e01b, 7), (0x1e023, 2), (0x1e026, 5), (0x1e08f, 1), (0x1e130, 7), (0x1e2ae, 1),
    (0x1e2ec, 4), (0x1e4ec, 4), (0x1e5ee, 2), (0x1e6e3, 1), (0x1e6e6, 1), (0x1e6ee, 2),
    (0x1e6f5, 1), (0x1e8d0, 7), (0x1e944, 7), (0xe0020, 96), (0xe0100, 240)]

end BlockScript.Text
