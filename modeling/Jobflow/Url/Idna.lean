import Jobflow.Url.Punycode

/-!
International domain names in ASCII. Characters are mapped to small letters and
to their plain forms, invisible ones are dropped, marks are composed with the
letters before them, and a label that still has characters outside ASCII is
written in Punycode. The tables cover the Latin, Greek, Cyrillic and Armenian
scripts and the full-width forms; letters of other scripts have no case.
-/

namespace Jobflow.Url.Idna

/-- Runs of characters that are mapped to another: first, last, step, and what
is added to the code point. -/
def mappedRuns : List (Nat × Nat × Nat × Int) :=
  [(0xAA, 0xAA, 1, -73), (0xB2, 0xB3, 1, -128), (0xB5, 0xB5, 1, 775), (0xB9, 0xB9, 1, -136),
   (0xBA, 0xBA, 1, -75), (0xC0, 0xD6, 1, 32), (0xD8, 0xDE, 1, 32), (0x100, 0x12E, 2, 1),
   (0x134, 0x136, 2, 1), (0x139, 0x13D, 2, 1), (0x141, 0x147, 2, 1), (0x14A, 0x176, 2, 1),
   (0x178, 0x178, 1, -121), (0x179, 0x17D, 2, 1), (0x17F, 0x17F, 1, -268),
   (0x181, 0x181, 1, 210), (0x182, 0x184, 2, 1), (0x186, 0x186, 1, 206), (0x187, 0x187, 1, 1),
   (0x189, 0x18A, 1, 205), (0x18B, 0x18B, 1, 1), (0x18E, 0x18E, 1, 79), (0x18F, 0x18F, 1, 202),
   (0x190, 0x190, 1, 203), (0x191, 0x191, 1, 1), (0x193, 0x193, 1, 205), (0x194, 0x194, 1, 207),
   (0x196, 0x196, 1, 211), (0x197, 0x197, 1, 209), (0x198, 0x198, 1, 1), (0x19C, 0x19C, 1, 211),
   (0x19D, 0x19D, 1, 213), (0x19F, 0x19F, 1, 214), (0x1A0, 0x1A4, 2, 1), (0x1A6, 0x1A6, 1, 218),
   (0x1A7, 0x1A7, 1, 1), (0x1A9, 0x1A9, 1, 218), (0x1AC, 0x1AC, 1, 1), (0x1AE, 0x1AE, 1, 218),
   (0x1AF, 0x1AF, 1, 1), (0x1B1, 0x1B2, 1, 217), (0x1B3, 0x1B5, 2, 1), (0x1B7, 0x1B7, 1, 219),
   (0x1B8, 0x1B8, 1, 1), (0x1BC, 0x1BC, 1, 1), (0x1CD, 0x1DB, 2, 1), (0x1DE, 0x1EE, 2, 1),
   (0x1F4, 0x1F4, 1, 1), (0x1F6, 0x1F6, 1, -97), (0x1F7, 0x1F7, 1, -56), (0x1F8, 0x21E, 2, 1),
   (0x220, 0x220, 1, -130), (0x222, 0x232, 2, 1), (0x23A, 0x23A, 1, 10795), (0x23B, 0x23B, 1, 1),
   (0x23D, 0x23D, 1, -163), (0x23E, 0x23E, 1, 10792), (0x241, 0x241, 1, 1),
   (0x243, 0x243, 1, -195), (0x244, 0x244, 1, 69), (0x245, 0x245, 1, 71), (0x246, 0x24E, 2, 1),
   (0x370, 0x372, 2, 1), (0x374, 0x374, 1, -187), (0x376, 0x376, 1, 1), (0x37E, 0x37E, 1, -835),
   (0x37F, 0x37F, 1, 116), (0x386, 0x386, 1, 38), (0x387, 0x387, 1, -720), (0x388, 0x38A, 1, 37),
   (0x38C, 0x38C, 1, 64), (0x38E, 0x38F, 1, 63), (0x391, 0x3A1, 1, 32), (0x3A3, 0x3AB, 1, 32),
   (0x3CF, 0x3CF, 1, 8), (0x3D0, 0x3D0, 1, -30), (0x3D1, 0x3D1, 1, -25), (0x3D2, 0x3D2, 1, -13),
   (0x3D3, 0x3D3, 1, -6), (0x3D4, 0x3D4, 1, -9), (0x3D5, 0x3D5, 1, -15), (0x3D6, 0x3D6, 1, -22),
   (0x3D8, 0x3EE, 2, 1), (0x3F0, 0x3F0, 1, -54), (0x3F1, 0x3F1, 1, -48), (0x3F2, 0x3F2, 1, -47),
   (0x3F4, 0x3F4, 1, -60), (0x3F5, 0x3F5, 1, -64), (0x3F7, 0x3F7, 1, 1), (0x3F9, 0x3F9, 1, -54),
   (0x3FA, 0x3FA, 1, 1), (0x3FD, 0x3FF, 1, -130), (0x400, 0x40F, 1, 80), (0x410, 0x42F, 1, 32),
   (0x460, 0x480, 2, 1), (0x48A, 0x4BE, 2, 1), (0x4C0, 0x4C0, 1, 15), (0x4C1, 0x4CD, 2, 1),
   (0x4D0, 0x52E, 2, 1), (0x531, 0x556, 1, 48), (0x1E00, 0x1E94, 2, 1), (0x1E9B, 0x1E9B, 1, -58),
   (0x1E9E, 0x1E9E, 1, -7615), (0x1EA0, 0x1EFE, 2, 1), (0x2070, 0x2070, 1, -8256),
   (0x2074, 0x2079, 1, -8256), (0x2080, 0x2089, 1, -8272), (0x2126, 0x2126, 1, -7517),
   (0x212A, 0x212A, 1, -8383), (0x212B, 0x212B, 1, -8262), (0x24B6, 0x24CF, 1, -9301),
   (0x24D0, 0x24E9, 1, -9327), (0xFF01, 0xFF20, 1, -65248), (0xFF21, 0xFF3A, 1, -65216),
   (0xFF3B, 0xFF5E, 1, -65248), (0xFF61, 0xFF61, 1, -53087)]
/-- Marks with the letters they compose with and the results. -/
def compositions : List (Nat × String × String) :=
  [(0x0300, "aeiouünеиēōwâăêôơưy", "àèìòùǜǹѐѝḕṑẁầằềồờừỳ"),
   (0x0301, "aeiouyclnrszügåæøϊαεηιϋουωгкçēïkmõōpũwâăêôơư",
     "áéíóúýćĺńŕśźǘǵǻǽǿΐάέήίΰόύώѓќḉḗḯḱḿṍṓṕṹẃấắếốớứ"),
   (0x0302, "aeioucghjswyzạẹọ", "âêîôûĉĝĥĵŝŵŷẑậệộ"),
   (0x0303, "anoiuvâăeêôơưy", "ãñõĩũṽẫẵẽễỗỡữỹ"),
   (0x0304, "aeiouüäȧæǫöõȯyиуgḷṛ", "āēīōūǖǟǡǣǭȫȭȱȳӣӯḡḹṝ"),
   (0x0306, "aegiouиужаеȩạ", "ăĕğĭŏŭйўӂӑӗḝặ"),
   (0x0307, "cegzaobdfhmnprsśšṣtwxy", "ċėġżȧȯḃḋḟḣṁṅṗṙṡṥṧṩṫẇẋẏ"),
   (0x0308, "aeiouyιυеіаәжзиоөэучыhõūwxt", "äëïöüÿϊϋёїӓӛӝӟӥӧӫӭӱӵӹḧṏṻẅẍẗ"),
   (0x0309, "aâăeêioôơuưy", "ảẩẳẻểỉỏổởủửỷ"),
   (0x030A, "auwy", "åůẘẙ"),
   (0x030B, "ouу", "őűӳ"),
   (0x030C, "cdelnrstzaiouügkʒjh", "čďěľňřšťžǎǐǒǔǚǧǩǯǰȟ"),
   (0x030F, "aeioruѵ", "ȁȅȉȍȑȕѷ"),
   (0x0311, "aeioru", "ȃȇȋȏȓȗ"),
   (0x031B, "ou", "ơư"),
   (0x0323, "bdhklmnrstvwzaeioơuưy", "ḅḍḥḳḷṃṇṛṣṭṿẉẓạẹịọợụựỵ"),
   (0x0324, "u", "ṳ"),
   (0x0325, "a", "ḁ"),
   (0x0326, "st", "șț"),
   (0x0327, "cgklnrstedh", "çģķļņŗşţȩḑḩ"),
   (0x0328, "aeiuo", "ąęįųǫ"),
   (0x032D, "delntu", "ḓḙḽṋṱṷ"),
   (0x032E, "h", "ḫ"),
   (0x0330, "eiu", "ḛḭṵ"),
   (0x0331, "bdklnrtzh", "ḇḏḵḻṉṟṯẕẖ")]
/-- Characters that are dropped. -/
def isIgnored (c : Char) : Bool :=
  let n := c.toNat
  n == 0xAD || n == 0x34F || (0x180B ≤ n && n ≤ 0x180D) || n == 0x200B || n == 0x2060 ||
  n == 0x2064 || (0xFE00 ≤ n && n ≤ 0xFE0F) || n == 0xFEFF

/-- Characters that no label may have: controls, formats, spaces, private use
and code points that are no characters. -/
def isForbidden (c : Char) : Bool :=
  let n := c.toNat
  (0x80 ≤ n && n ≤ 0xA0) || n == 0x1680 || (0x2000 ≤ n && n ≤ 0x200A) ||
  (0x200C ≤ n && n ≤ 0x200F) || (0x2028 ≤ n && n ≤ 0x202F) || (0x205F ≤ n && n ≤ 0x206F) ||
  n == 0x3000 || (0xE000 ≤ n && n ≤ 0xF8FF) || (0xFFF9 ≤ n && n ≤ 0xFFFF) || 0xE0000 ≤ n

/-- Marks, which belong to the character before them: no label begins with one. -/
def isMark (c : Char) : Bool :=
  let n := c.toNat
  (0x300 ≤ n && n ≤ 0x36F) || (0x483 ≤ n && n ≤ 0x489) || (0x1AB0 ≤ n && n ≤ 0x1ACE) ||
  (0x1DC0 ≤ n && n ≤ 0x1DFF) || (0x20D0 ≤ n && n ≤ 0x20F0) || (0xFE20 ≤ n && n ≤ 0xFE2F)

/-- ASCII characters that no host may have. -/
def isForbiddenAscii (c : Char) : Bool :=
  c.toNat ≤ 0x20 || c.toNat == 0x7F ||
  c ∈ ['%', '#', '/', ':', '<', '>', '?', '@', '[', '\\', ']', '^', '|']

/-- Full stops of other scripts. -/
def isFullStop (c : Char) : Bool :=
  c.toNat == 0x3002 || c.toNat == 0xFF0E || c.toNat == 0xFF61

def mapChar (c : Char) : List Char :=
  if isIgnored c then []
  else if isFullStop c then ['.']
  else if c.toNat < 0x80 then [Text.lowerChar c]
  else if c.toNat = 0x130 then ['i', Char.ofNat 0x307]
  else
    let n := c.toNat
    let run := mappedRuns.find? fun (first, last, step, _) =>
      first ≤ n && n ≤ last && (n - first) % step == 0
    match run with
    | some (_, _, _, shift) => [Char.ofNat ((n : Int) + shift).toNat]
    | none => [c]

/-- A letter and a mark as one character, if there is one. -/
def compose? (letter mark : Char) : Option Char :=
  match compositions.find? fun row => row.1 = mark.toNat with
  | some (_, letters, results) =>
    (letters.toList.zip results.toList).lookup letter
  | none => none

/-- Composes every mark with the character before it where that is possible. -/
def composeAll : List Char → List Char
  | [] => []
  | c :: rest => go c rest
where
  go (c : Char) : List Char → List Char
    | [] => [c]
    | d :: rest =>
      match compose? c d with
      | some e => go e rest
      | none => c :: go d rest

/-- The mark of encoded labels. -/
def encodedMark : List Char := ['x', 'n', '-', '-']

/-- A mapped label in ASCII; `none` when it is not allowed. -/
def labelToAscii (label : List Char) : Option (List Char) :=
  if label.any isForbiddenAscii then none
  else if encodedMark.isPrefixOf label then
    match Punycode.decode (label.drop 4) with
    | some plain =>
      let mapped := composeAll (plain.flatMap mapChar)
      if plain.all (fun c => c.toNat < 0x80) ∨ plain.any isForbidden ∨ mapped ≠ plain ∨
          plain.head?.any isMark ∨ label.any (fun c => 0x80 ≤ c.toNat) then none
      else some label
    | none => none
  else if label.all fun c => c.toNat < 0x80 then some label
  else if label.any isForbidden ∨ label.head?.any isMark then none
  else some (encodedMark ++ Punycode.encode label)

/-- A host name in ASCII; `none` when it is not allowed. -/
def toAscii (host : List Char) : Option (List Char) := do
  let mapped := composeAll (host.flatMap mapChar)
  let labels ← (Text.splitBy (· == '.') mapped).mapM labelToAscii
  return (labels.intersperse ['.']).flatten

end Jobflow.Url.Idna
