/-
CashStratum/Runes.lean

Strings as Go reads them: a string is bytes, `range` reads runes off it, and a
byte that starts no rune counts as one `utf8.RuneError`.

A rune is a `Char`, a Unicode scalar value, so the encoding of a rune is the one
of the standard library and reading is inverse to writing
(`runes_encodeRunes`); only a string with a malformed byte is not what its runes
spell (`encodeRunes_runes`).  `strings.ToLower` and `strings.ToUpper` map the
runes by the simple case mappings of Unicode 15.0.  Two runes outside ASCII have
an ASCII lower case: the dotted capital I and the Kelvin sign
(`ascii_of_unicodeToLower`).
-/
import CashStratum.ByteString
import Mathlib.Tactic.IntervalCases

namespace CashStratum

/-! ### Runes of a string -/

/-- `utf8.RuneError` -/
def runeError : Char := '\uFFFD'

/-- The rune a string starts with, if its first bytes are the encoding of one. -/
def firstRune (s : Bytes) : Option Char := s.toByteArray.utf8DecodeChar? 0

/-- `for _, r := range s` -/
@[grind =] def runes : Bytes → List Char
  | [] => []
  | b :: rest =>
    match firstRune (b :: rest) with
    | some c => c :: runes ((b :: rest).drop c.utf8Size)
    | none => runeError :: runes rest
termination_by s => s.length
decreasing_by
  · rw [List.length_drop, List.length_cons]
    have hpos := c.utf8Size_pos
    omega
  · simp

/-- `string(runes)` -/
def encodeRunes (cs : List Char) : Bytes := cs.flatMap String.utf8EncodeChar

/-- `strings.Map`, for a mapping that drops no rune. -/
def mapRunes (f : Char → Char) (s : Bytes) : Bytes := encodeRunes ((runes s).map f)

variable {s t : Bytes} {c : Char} {cs ds : List Char}

@[simp] theorem encodeRunes_nil : encodeRunes [] = [] := rfl

theorem encodeRunes_cons (c : Char) (cs : List Char) :
    encodeRunes (c :: cs) = String.utf8EncodeChar c ++ encodeRunes cs := rfl

theorem firstRune_encode_append (c : Char) (s : Bytes) :
    firstRune (String.utf8EncodeChar c ++ s) = some c := by
  rw [firstRune, List.toByteArray_append]
  exact ByteArray.utf8DecodeChar?_utf8EncodeChar_append

theorem eq_of_firstRune (h : firstRune s = some c) :
    s = String.utf8EncodeChar c ++ s.drop c.utf8Size := by
  obtain ⟨rest, hrest⟩ := ByteArray.exists_of_utf8DecodeChar?_eq_some h
  have hs : s = String.utf8EncodeChar c ++ rest.data.toList := by
    have hdata := congrArg (fun b : ByteArray => b.data.toList) hrest
    simpa only [ByteArray.data_append, Array.toList_append, List.toList_data_toByteArray] using hdata
  rw [hs]
  congr 1
  rw [← String.length_utf8EncodeChar, List.drop_left]

@[simp] theorem runes_nil : runes [] = [] := by rw [runes]

theorem runes_of_firstRune (h : firstRune s = some c) :
    runes s = c :: runes (s.drop c.utf8Size) := by
  rcases s with - | ⟨b, rest⟩
  · have hnone : firstRune [] = none := by decide
    rw [hnone] at h
    cases h
  · rw [runes, h]

theorem runes_encode_append (c : Char) (s : Bytes) :
    runes (String.utf8EncodeChar c ++ s) = c :: runes s := by
  rw [runes_of_firstRune (firstRune_encode_append c s), ← String.length_utf8EncodeChar,
    List.drop_left]

/-- **Reading is inverse to writing**, whatever follows. -/
theorem runes_encodeRunes_append (cs : List Char) (s : Bytes) :
    runes (encodeRunes cs ++ s) = cs ++ runes s := by
  induction cs with
  | nil => rfl
  | cons c cs ih =>
    rw [encodeRunes_cons, List.append_assoc, runes_encode_append, ih, List.cons_append]

theorem runes_encodeRunes (cs : List Char) : runes (encodeRunes cs) = cs := by
  have h := runes_encodeRunes_append cs []
  rwa [List.append_nil, runes_nil, List.append_nil] at h

theorem encodeRunes_injective : Function.Injective encodeRunes := by
  intro cs ds h
  rw [← runes_encodeRunes cs, h, runes_encodeRunes]

/-- **A string without a malformed byte is what its runes spell.** -/
theorem encodeRunes_runes (h : runeError ∉ runes s) : encodeRunes (runes s) = s := by
  induction s using runes.induct with
  | case1 => simp
  | case2 b rest c hc ih =>
    rw [runes_of_firstRune hc] at h ⊢
    rw [encodeRunes_cons, ih (fun hmem => h (List.mem_cons_of_mem _ hmem))]
    exact (eq_of_firstRune hc).symm
  | case3 b rest hnone ih =>
    rw [runes, hnone] at h
    exact absurd List.mem_cons_self h

/-! ### ASCII -/

/-- Every byte is below `utf8.RuneSelf`. -/
def IsAscii (s : Bytes) : Prop := ∀ b ∈ s, b.toNat < 128

theorem utf8EncodeChar_of_lt (h : c.toNat < 128) :
    String.utf8EncodeChar c = [UInt8.ofNat c.toNat] := by
  have hval : c.val.toNat ≤ 0x7f := Nat.le_of_lt_succ h
  rw [String.utf8EncodeChar, if_pos hval]
  rfl

/-- No byte of the encoding of another rune is below 128. -/
theorem le_of_mem_utf8EncodeChar (h : 128 ≤ c.toNat) :
    ∀ b ∈ String.utf8EncodeChar c, 128 ≤ b.toNat := by
  have hval : ¬c.val.toNat ≤ 0x7f := Nat.not_le.mpr h
  intro b hb
  rw [String.utf8EncodeChar, if_neg hval] at hb
  split_ifs at hb <;> simp only [List.mem_cons, List.not_mem_nil, or_false] at hb <;>
    rcases hb with rfl | rfl | rfl | rfl <;> rw [UInt8.toNat_ofNat'] <;> omega

theorem isAscii_encodeRunes_iff : IsAscii (encodeRunes cs) ↔ ∀ c ∈ cs, c.toNat < 128 := by
  constructor
  · intro h c hc
    by_contra hge
    have hle := le_of_mem_utf8EncodeChar (Nat.not_lt.mp hge)
    obtain ⟨b, hb⟩ := List.exists_mem_of_ne_nil _ (@String.utf8EncodeChar_ne_nil c)
    have hlt := h b (List.mem_flatMap.mpr ⟨c, hc, hb⟩)
    exact absurd (hle b hb) (Nat.not_le.mpr hlt)
  · intro h b hb
    obtain ⟨c, hc, hb⟩ := List.mem_flatMap.mp hb
    rw [utf8EncodeChar_of_lt (h c hc), List.mem_singleton] at hb
    rw [hb, UInt8.toNat_ofNat']
    have hlt := h c hc
    omega

theorem encodeRunes_of_lt (h : ∀ c ∈ cs, c.toNat < 128) :
    encodeRunes cs = cs.map fun c => UInt8.ofNat c.toNat := by
  induction cs with
  | nil => rfl
  | cons c cs ih =>
    rw [encodeRunes_cons, utf8EncodeChar_of_lt (h c List.mem_cons_self),
      ih fun d hd => h d (List.mem_cons_of_mem _ hd)]
    rfl

theorem toNat_ofNat_byte (b : UInt8) : (Char.ofNat b.toNat).toNat = b.toNat := by
  have hlt := b.toNat_lt
  have hvalid : b.toNat.isValidChar := Or.inl (by omega)
  rw [Char.ofNat, dif_pos hvalid]
  rfl

/-- **The runes of an ASCII string are its bytes.** -/
theorem runes_of_isAscii (h : IsAscii s) : runes s = s.map fun b => Char.ofNat b.toNat := by
  have hspell : encodeRunes (s.map fun b => Char.ofNat b.toNat) = s := by
    rw [encodeRunes_of_lt, List.map_map]
    · conv_rhs => rw [← List.map_id s]
      apply List.map_congr_left
      intro b hb
      show UInt8.ofNat (Char.ofNat b.toNat).toNat = b
      rw [toNat_ofNat_byte, UInt8.ofNat_toNat]
    · intro c hc
      obtain ⟨b, hb, rfl⟩ := List.mem_map.mp hc
      rw [toNat_ofNat_byte]
      exact h b hb
  conv_lhs => rw [← hspell]
  exact runes_encodeRunes _

/-! ### Case -/

/-- Runes with a common distance to their case mapping: the first, the last, the
distance between two of them and the distance to the mapping. -/
abbrev CaseRun := Nat × Nat × Nat × Int

/-- The runs of simple lower case mappings. -/
def lowerRuns : List CaseRun :=
  [(65, 90, 1, 32), (192, 214, 1, 32), (216, 222, 1, 32), (256, 302, 2, 1), (304, 304, 1, -199),
   (306, 310, 2, 1), (313, 327, 2, 1), (330, 374, 2, 1), (376, 376, 1, -121), (377, 381, 2, 1),
   (385, 385, 1, 210), (386, 388, 2, 1), (390, 390, 1, 206), (391, 391, 1, 1), (393, 394, 1, 205),
   (395, 395, 1, 1), (398, 398, 1, 79), (399, 399, 1, 202), (400, 400, 1, 203), (401, 401, 1, 1),
   (403, 403, 1, 205), (404, 404, 1, 207), (406, 406, 1, 211), (407, 407, 1, 209),
   (408, 408, 1, 1), (412, 412, 1, 211), (413, 413, 1, 213), (415, 415, 1, 214), (416, 420, 2, 1),
   (422, 422, 1, 218), (423, 423, 1, 1), (425, 425, 1, 218), (428, 428, 1, 1), (430, 430, 1, 218),
   (431, 431, 1, 1), (433, 434, 1, 217), (435, 437, 2, 1), (439, 439, 1, 219), (440, 440, 1, 1),
   (444, 444, 1, 1), (452, 452, 1, 2), (453, 453, 1, 1), (455, 455, 1, 2), (456, 456, 1, 1),
   (458, 458, 1, 2), (459, 475, 2, 1), (478, 494, 2, 1), (497, 497, 1, 2), (498, 500, 2, 1),
   (502, 502, 1, -97), (503, 503, 1, -56), (504, 542, 2, 1), (544, 544, 1, -130),
   (546, 562, 2, 1), (570, 570, 1, 10795), (571, 571, 1, 1), (573, 573, 1, -163),
   (574, 574, 1, 10792), (577, 577, 1, 1), (579, 579, 1, -195), (580, 580, 1, 69),
   (581, 581, 1, 71), (582, 590, 2, 1), (880, 882, 2, 1), (886, 886, 1, 1), (895, 895, 1, 116),
   (902, 902, 1, 38), (904, 906, 1, 37), (908, 908, 1, 64), (910, 911, 1, 63), (913, 929, 1, 32),
   (931, 939, 1, 32), (975, 975, 1, 8), (984, 1006, 2, 1), (1012, 1012, 1, -60),
   (1015, 1015, 1, 1), (1017, 1017, 1, -7), (1018, 1018, 1, 1), (1021, 1023, 1, -130),
   (1024, 1039, 1, 80), (1040, 1071, 1, 32), (1120, 1152, 2, 1), (1162, 1214, 2, 1),
   (1216, 1216, 1, 15), (1217, 1229, 2, 1), (1232, 1326, 2, 1), (1329, 1366, 1, 48),
   (4256, 4293, 1, 7264), (4295, 4295, 1, 7264), (4301, 4301, 1, 7264), (5024, 5103, 1, 38864),
   (5104, 5109, 1, 8), (7312, 7354, 1, -3008), (7357, 7359, 1, -3008), (7680, 7828, 2, 1),
   (7838, 7838, 1, -7615), (7840, 7934, 2, 1), (7944, 7951, 1, -8), (7960, 7965, 1, -8),
   (7976, 7983, 1, -8), (7992, 7999, 1, -8), (8008, 8013, 1, -8), (8025, 8031, 2, -8),
   (8040, 8047, 1, -8), (8072, 8079, 1, -8), (8088, 8095, 1, -8), (8104, 8111, 1, -8),
   (8120, 8121, 1, -8), (8122, 8123, 1, -74), (8124, 8124, 1, -9), (8136, 8139, 1, -86),
   (8140, 8140, 1, -9), (8152, 8153, 1, -8), (8154, 8155, 1, -100), (8168, 8169, 1, -8),
   (8170, 8171, 1, -112), (8172, 8172, 1, -7), (8184, 8185, 1, -128), (8186, 8187, 1, -126),
   (8188, 8188, 1, -9), (8486, 8486, 1, -7517), (8490, 8490, 1, -8383), (8491, 8491, 1, -8262),
   (8498, 8498, 1, 28), (8544, 8559, 1, 16), (8579, 8579, 1, 1), (9398, 9423, 1, 26),
   (11264, 11311, 1, 48), (11360, 11360, 1, 1), (11362, 11362, 1, -10743),
   (11363, 11363, 1, -3814), (11364, 11364, 1, -10727), (11367, 11371, 2, 1),
   (11373, 11373, 1, -10780), (11374, 11374, 1, -10749), (11375, 11375, 1, -10783),
   (11376, 11376, 1, -10782), (11378, 11378, 1, 1), (11381, 11381, 1, 1),
   (11390, 11391, 1, -10815), (11392, 11490, 2, 1), (11499, 11501, 2, 1), (11506, 11506, 1, 1),
   (42560, 42604, 2, 1), (42624, 42650, 2, 1), (42786, 42798, 2, 1), (42802, 42862, 2, 1),
   (42873, 42875, 2, 1), (42877, 42877, 1, -35332), (42878, 42886, 2, 1), (42891, 42891, 1, 1),
   (42893, 42893, 1, -42280), (42896, 42898, 2, 1), (42902, 42920, 2, 1),
   (42922, 42922, 1, -42308), (42923, 42923, 1, -42319), (42924, 42924, 1, -42315),
   (42925, 42925, 1, -42305), (42926, 42926, 1, -42308), (42928, 42928, 1, -42258),
   (42929, 42929, 1, -42282), (42930, 42930, 1, -42261), (42931, 42931, 1, 928),
   (42932, 42946, 2, 1), (42948, 42948, 1, -48), (42949, 42949, 1, -42307),
   (42950, 42950, 1, -35384), (42951, 42953, 2, 1), (42960, 42960, 1, 1), (42966, 42968, 2, 1),
   (42997, 42997, 1, 1), (65313, 65338, 1, 32), (66560, 66599, 1, 40), (66736, 66771, 1, 40),
   (66928, 66938, 1, 39), (66940, 66954, 1, 39), (66956, 66962, 1, 39), (66964, 66965, 1, 39),
   (68736, 68786, 1, 64), (71840, 71871, 1, 32), (93760, 93791, 1, 32), (125184, 125217, 1, 34)]

/-- The runs of simple upper case mappings. -/
def upperRuns : List CaseRun :=
  [(97, 122, 1, -32), (181, 181, 1, 743), (224, 246, 1, -32), (248, 254, 1, -32),
   (255, 255, 1, 121), (257, 303, 2, -1), (305, 305, 1, -232), (307, 311, 2, -1),
   (314, 328, 2, -1), (331, 375, 2, -1), (378, 382, 2, -1), (383, 383, 1, -300),
   (384, 384, 1, 195), (387, 389, 2, -1), (392, 392, 1, -1), (396, 396, 1, -1), (402, 402, 1, -1),
   (405, 405, 1, 97), (409, 409, 1, -1), (410, 410, 1, 163), (414, 414, 1, 130),
   (417, 421, 2, -1), (424, 424, 1, -1), (429, 429, 1, -1), (432, 432, 1, -1), (436, 438, 2, -1),
   (441, 441, 1, -1), (445, 445, 1, -1), (447, 447, 1, 56), (453, 453, 1, -1), (454, 454, 1, -2),
   (456, 456, 1, -1), (457, 457, 1, -2), (459, 459, 1, -1), (460, 460, 1, -2), (462, 476, 2, -1),
   (477, 477, 1, -79), (479, 495, 2, -1), (498, 498, 1, -1), (499, 499, 1, -2), (501, 501, 1, -1),
   (505, 543, 2, -1), (547, 563, 2, -1), (572, 572, 1, -1), (575, 576, 1, 10815),
   (578, 578, 1, -1), (583, 591, 2, -1), (592, 592, 1, 10783), (593, 593, 1, 10780),
   (594, 594, 1, 10782), (595, 595, 1, -210), (596, 596, 1, -206), (598, 599, 1, -205),
   (601, 601, 1, -202), (603, 603, 1, -203), (604, 604, 1, 42319), (608, 608, 1, -205),
   (609, 609, 1, 42315), (611, 611, 1, -207), (613, 613, 1, 42280), (614, 614, 1, 42308),
   (616, 616, 1, -209), (617, 617, 1, -211), (618, 618, 1, 42308), (619, 619, 1, 10743),
   (620, 620, 1, 42305), (623, 623, 1, -211), (625, 625, 1, 10749), (626, 626, 1, -213),
   (629, 629, 1, -214), (637, 637, 1, 10727), (640, 640, 1, -218), (642, 642, 1, 42307),
   (643, 643, 1, -218), (647, 647, 1, 42282), (648, 648, 1, -218), (649, 649, 1, -69),
   (650, 651, 1, -217), (652, 652, 1, -71), (658, 658, 1, -219), (669, 669, 1, 42261),
   (670, 670, 1, 42258), (837, 837, 1, 84), (881, 883, 2, -1), (887, 887, 1, -1),
   (891, 893, 1, 130), (940, 940, 1, -38), (941, 943, 1, -37), (945, 961, 1, -32),
   (962, 962, 1, -31), (963, 971, 1, -32), (972, 972, 1, -64), (973, 974, 1, -63),
   (976, 976, 1, -62), (977, 977, 1, -57), (981, 981, 1, -47), (982, 982, 1, -54),
   (983, 983, 1, -8), (985, 1007, 2, -1), (1008, 1008, 1, -86), (1009, 1009, 1, -80),
   (1010, 1010, 1, 7), (1011, 1011, 1, -116), (1013, 1013, 1, -96), (1016, 1016, 1, -1),
   (1019, 1019, 1, -1), (1072, 1103, 1, -32), (1104, 1119, 1, -80), (1121, 1153, 2, -1),
   (1163, 1215, 2, -1), (1218, 1230, 2, -1), (1231, 1231, 1, -15), (1233, 1327, 2, -1),
   (1377, 1414, 1, -48), (4304, 4346, 1, 3008), (4349, 4351, 1, 3008), (5112, 5117, 1, -8),
   (7296, 7296, 1, -6254), (7297, 7297, 1, -6253), (7298, 7298, 1, -6244), (7299, 7300, 1, -6242),
   (7301, 7301, 1, -6243), (7302, 7302, 1, -6236), (7303, 7303, 1, -6181), (7304, 7304, 1, 35266),
   (7545, 7545, 1, 35332), (7549, 7549, 1, 3814), (7566, 7566, 1, 35384), (7681, 7829, 2, -1),
   (7835, 7835, 1, -59), (7841, 7935, 2, -1), (7936, 7943, 1, 8), (7952, 7957, 1, 8),
   (7968, 7975, 1, 8), (7984, 7991, 1, 8), (8000, 8005, 1, 8), (8017, 8023, 2, 8),
   (8032, 8039, 1, 8), (8048, 8049, 1, 74), (8050, 8053, 1, 86), (8054, 8055, 1, 100),
   (8056, 8057, 1, 128), (8058, 8059, 1, 112), (8060, 8061, 1, 126), (8064, 8071, 1, 8),
   (8080, 8087, 1, 8), (8096, 8103, 1, 8), (8112, 8113, 1, 8), (8115, 8115, 1, 9),
   (8126, 8126, 1, -7205), (8131, 8131, 1, 9), (8144, 8145, 1, 8), (8160, 8161, 1, 8),
   (8165, 8165, 1, 7), (8179, 8179, 1, 9), (8526, 8526, 1, -28), (8560, 8575, 1, -16),
   (8580, 8580, 1, -1), (9424, 9449, 1, -26), (11312, 11359, 1, -48), (11361, 11361, 1, -1),
   (11365, 11365, 1, -10795), (11366, 11366, 1, -10792), (11368, 11372, 2, -1),
   (11379, 11379, 1, -1), (11382, 11382, 1, -1), (11393, 11491, 2, -1), (11500, 11502, 2, -1),
   (11507, 11507, 1, -1), (11520, 11557, 1, -7264), (11559, 11559, 1, -7264),
   (11565, 11565, 1, -7264), (42561, 42605, 2, -1), (42625, 42651, 2, -1), (42787, 42799, 2, -1),
   (42803, 42863, 2, -1), (42874, 42876, 2, -1), (42879, 42887, 2, -1), (42892, 42892, 1, -1),
   (42897, 42899, 2, -1), (42900, 42900, 1, 48), (42903, 42921, 2, -1), (42933, 42947, 2, -1),
   (42952, 42954, 2, -1), (42961, 42961, 1, -1), (42967, 42969, 2, -1), (42998, 42998, 1, -1),
   (43859, 43859, 1, -928), (43888, 43967, 1, -38864), (65345, 65370, 1, -32),
   (66600, 66639, 1, -40), (66776, 66811, 1, -40), (66967, 66977, 1, -39), (66979, 66993, 1, -39),
   (66995, 67001, 1, -39), (67003, 67004, 1, -39), (68800, 68850, 1, -64), (71872, 71903, 1, -32),
   (93792, 93823, 1, -32), (125218, 125251, 1, -34)]

/-- `unicode.To`: the mapping of the run that holds the rune, if there is one. -/
def caseMap (runs : List CaseRun) (n : Nat) : Nat :=
  match runs.find? fun (lo, hi, stride, _) => lo ≤ n && n ≤ hi && (n - lo) % stride == 0 with
  | some (_, _, _, delta) => (n + delta).toNat
  | none => n

/-- `unicode.ToLower` -/
def unicodeToLower (c : Char) : Char := Char.ofNat (caseMap lowerRuns c.toNat)

/-- `unicode.ToUpper` -/
def unicodeToUpper (c : Char) : Char := Char.ofNat (caseMap upperRuns c.toNat)

/-- `strings.ToLower` -/
def stringsToLower (s : Bytes) : Bytes := mapRunes unicodeToLower s

/-- `strings.ToUpper` -/
def stringsToUpper (s : Bytes) : Bytes := mapRunes unicodeToUpper s

/-- A rune is its own mapping, or a run moves it. -/
theorem caseMap_cases (runs : List CaseRun) (n : Nat) :
    caseMap runs n = n ∨ ∃ lo hi stride delta, (lo, hi, stride, delta) ∈ runs ∧ lo ≤ n ∧ n ≤ hi ∧
      (n - lo) % stride = 0 ∧ caseMap runs n = (n + delta).toNat := by
  unfold caseMap
  split
  · next lo hi stride delta hfind =>
      have hholds := List.find?_some hfind
      simp only [Bool.and_eq_true, decide_eq_true_eq, beq_iff_eq] at hholds
      obtain ⟨⟨hlo, hhi⟩, hstride⟩ := hholds
      exact Or.inr ⟨lo, hi, stride, delta, List.mem_of_find?_eq_some hfind, hlo, hhi, hstride, rfl⟩
  · exact Or.inl rfl

/-- A run maps into the scalar values. -/
def CaseRun.Valid (r : CaseRun) : Prop :=
  0 ≤ r.1 + r.2.2.2 ∧ (r.2.1 + r.2.2.2 < 0xd800 ∨
    0xdfff < r.1 + r.2.2.2 ∧ r.2.1 + r.2.2.2 < 0x110000)

instance : DecidablePred CaseRun.Valid := fun r => by
  unfold CaseRun.Valid
  infer_instance

set_option maxRecDepth 20000 in
theorem caseRuns_valid : (∀ r ∈ lowerRuns, CaseRun.Valid r) ∧ ∀ r ∈ upperRuns, CaseRun.Valid r := by
  decide

theorem toNat_ofNat_caseMap {runs : List CaseRun} (h : ∀ r ∈ runs, CaseRun.Valid r) (c : Char) :
    (Char.ofNat (caseMap runs c.toNat)).toNat = caseMap runs c.toNat := by
  have hvalid : (caseMap runs c.toNat).isValidChar := by
    rcases caseMap_cases runs c.toNat with heq | ⟨lo, hi, stride, delta, hmem, hlo, hhi, -, heq⟩
    · rw [heq]
      exact c.valid
    · obtain ⟨hpos, hrange⟩ := h _ hmem
      dsimp only at hpos hrange
      rw [heq, Nat.isValidChar]
      omega
  rw [Char.ofNat, dif_pos hvalid]
  rfl

theorem toNat_unicodeToLower (c : Char) :
    (unicodeToLower c).toNat = caseMap lowerRuns c.toNat :=
  toNat_ofNat_caseMap caseRuns_valid.1 c

theorem toNat_unicodeToUpper (c : Char) :
    (unicodeToUpper c).toNat = caseMap upperRuns c.toNat :=
  toNat_ofNat_caseMap caseRuns_valid.2 c

/-- The first and the last rune a run maps to, and whether these have one parity. -/
def CaseRun.image (r : CaseRun) : Nat × Nat × Bool :=
  ((r.1 + r.2.2.2).toNat, (r.2.1 + r.2.2.2).toNat, r.2.2.1.beq 2 || r.1.beq r.2.1)

/-- No rune of an image lies in the run: their ranges are apart, or go in steps
of two that never meet. -/
def CaseRun.misses (r : CaseRun) (image : Nat × Nat × Bool) : Bool :=
  image.2.1.blt r.1 || r.2.1.blt image.1 ||
    (image.2.2 && r.2.2.1.beq 2 && ((image.1 + r.1) % 2).beq 1)

set_option maxRecDepth 20000 in
theorem lowerRuns_miss :
    (lowerRuns.map CaseRun.image).all fun image => lowerRuns.all (CaseRun.misses · image) := by
  decide

/-- **A lower case is its own lower case.** -/
theorem caseMap_lowerRuns_idem (n : Nat) :
    caseMap lowerRuns (caseMap lowerRuns n) = caseMap lowerRuns n := by
  rcases caseMap_cases lowerRuns n with heq | ⟨lo, hi, stride, delta, hmem, hlo, hhi, hstride, heq⟩
  · rw [heq, heq]
  · rcases caseMap_cases lowerRuns (caseMap lowerRuns n) with
      heq' | ⟨lo', hi', stride', delta', hmem', hlo', hhi', hstride', -⟩
    · exact heq'
    · have hmiss := List.all_eq_true.mp (List.all_eq_true.mp lowerRuns_miss _
        (List.mem_map_of_mem hmem)) _ hmem'
      have hpos := (caseRuns_valid.1 _ hmem).1
      simp only [CaseRun.misses, CaseRun.image, Bool.or_eq_true, Bool.and_eq_true, Nat.blt_eq,
        Nat.beq_eq] at hmiss hpos
      rw [heq] at hlo' hhi' hstride'
      rcases hmiss with (hbelow | habove) | ⟨⟨htwo | hone, rfl⟩, hodd⟩
      · omega
      · omega
      · subst htwo
        omega
      · omega

theorem unicodeToLower_idem (c : Char) : unicodeToLower (unicodeToLower c) = unicodeToLower c := by
  apply Char.toNat_inj.mp
  rw [toNat_unicodeToLower, toNat_unicodeToLower, caseMap_lowerRuns_idem]

/-- What a lower-case string starts with is in lower case. -/
theorem eq_of_lower_append {s t : Bytes} (h : stringsToLower (s ++ t) = s) : t = [] := by
  set cs := (runes (s ++ t)).map unicodeToLower with hcs
  have hs : s = encodeRunes cs := h.symm
  have hfix : cs.map unicodeToLower = cs := by
    rw [hcs, List.map_map]
    exact List.map_congr_left fun c _ => unicodeToLower_idem c
  have hlower : cs = cs ++ (runes t).map unicodeToLower := by
    conv_lhs => rw [hcs, hs, runes_encodeRunes_append, List.map_append, hfix]
  have hnil : runes t = [] := List.map_eq_nil_iff.mp (List.append_right_eq_self.mp hlower.symm)
  rcases t with - | ⟨b, t⟩
  · rfl
  · rw [runes] at hnil
    split at hnil <;> cases hnil

/-- A first run of stride 1 decides for the runes below all other runs. -/
theorem caseMap_cons {lo hi n : Nat} {delta : Int} {runs : List CaseRun}
    (h : ∀ r ∈ runs, n < r.1) :
    caseMap ((lo, hi, 1, delta) :: runs) n =
      if lo ≤ n ∧ n ≤ hi then (n + delta).toNat else n := by
  by_cases hin : lo ≤ n ∧ n ≤ hi
  · rw [if_pos hin, caseMap, List.find?_cons_of_pos (by simp [hin, Nat.mod_one])]
  · have hrest : runs.find? (fun (lo, hi, stride, _) =>
        lo ≤ n && n ≤ hi && (n - lo) % stride == 0) = none := by
      rw [List.find?_eq_none]
      intro r hr
      simp [Nat.not_le.mpr (h r hr)]
    rw [if_neg hin, caseMap, List.find?_cons_of_neg (by simp [hin]), hrest]

set_option maxRecDepth 20000 in
theorem tail_caseRuns : (∀ r ∈ lowerRuns.tail, 128 ≤ r.1) ∧ ∀ r ∈ upperRuns.tail, 128 ≤ r.1 := by
  decide

/-- In ASCII the mappings move the letters. -/
theorem caseMap_lowerRuns {n : Nat} (h : n < 128) :
    caseMap lowerRuns n = if 65 ≤ n ∧ n ≤ 90 then n + 32 else n := by
  have hcons : lowerRuns = (65, 90, 1, 32) :: lowerRuns.tail := rfl
  rw [hcons, caseMap_cons fun r hr => h.trans_le (tail_caseRuns.1 r hr)]
  congr 1

theorem caseMap_upperRuns {n : Nat} (h : n < 128) :
    caseMap upperRuns n = if 97 ≤ n ∧ n ≤ 122 then n - 32 else n := by
  have hcons : upperRuns = (97, 122, 1, -32) :: upperRuns.tail := rfl
  rw [hcons, caseMap_cons fun r hr => h.trans_le (tail_caseRuns.2 r hr)]
  congr 1
  omega

set_option maxRecDepth 20000 in
/-- The runs that reach ASCII are in it, but for two. -/
theorem lowerRuns_ascii : ∀ r ∈ lowerRuns, r.2.1 < 128 ∨ 128 ≤ r.1 + r.2.2.2 ∨
    r.1 = r.2.1 ∧ (r.1 = 0x130 ∨ r.1 = 0x212a) := by
  decide

/-- **Two runes outside ASCII have an ASCII lower case**: U+0130, the dotted
capital I, and U+212A, the Kelvin sign. -/
theorem ascii_of_unicodeToLower (h : (unicodeToLower c).toNat < 128) :
    c.toNat < 128 ∨ c = '\u0130' ∨ c = '\u212A' := by
  rw [toNat_unicodeToLower] at h
  rcases caseMap_cases lowerRuns c.toNat with heq | ⟨lo, hi, stride, delta, hmem, hlo, hhi, -, heq⟩
  · exact Or.inl (heq ▸ h)
  · have htable := lowerRuns_ascii _ hmem
    dsimp only at htable
    have hcases : c.toNat < 128 ∨ c.toNat = 0x130 ∨ c.toNat = 0x212a := by omega
    refine hcases.imp_right (Or.imp ?_ ?_)
    all_goals
      intro hc
      apply Char.toNat_inj.mp
      rw [hc]
      rfl

end CashStratum
