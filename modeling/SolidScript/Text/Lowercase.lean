/-!
# Lower case

The lower-case form of a character, which is one character for all but one of them. Upper-case
letters come in runs that are shifted by one distance, each letter of the run or every second one.
-/

namespace SolidScript.Text

/-- Every `stride`-th code point from `first` to `last` has its lower-case form `shift` further
on. -/
structure CaseRun where
  first : Nat
  last : Nat
  stride : Nat
  shift : Int

/-- Runs of one stride and one shift, by their ends. -/
def runs (stride : Nat) (shift : Int) (ends : List (Nat × Nat)) : List CaseRun :=
  ends.map fun (first, last) => { first, last, stride, shift }

/-- Single letters, each with its shift. -/
def letters (shifts : List (Nat × Int)) : List CaseRun :=
  shifts.flatMap fun (letter, shift) => runs 1 shift [(letter, letter)]

def caseRuns : List CaseRun :=
  runs 1 32 [(192, 214), (216, 222), (913, 929), (931, 939), (1040, 1071), (65313, 65338),
    (68944, 68965), (71840, 71871), (93760, 93791)] ++
  runs 2 1 [(256, 302), (306, 310), (313, 327), (330, 374), (377, 381), (386, 388), (416, 420),
    (435, 437), (459, 475), (478, 494), (498, 500), (504, 542), (546, 562), (582, 590), (880, 882),
    (984, 1006), (1120, 1152), (1162, 1214), (1217, 1229), (1232, 1326), (7680, 7828),
    (7840, 7934), (11367, 11371), (11392, 11490), (11499, 11501), (42560, 42604), (42624, 42650),
    (42786, 42798), (42802, 42862), (42873, 42875), (42878, 42886), (42896, 42898), (42902, 42920),
    (42932, 42946), (42951, 42953), (42956, 42970)] ++
  runs 1 205 [(393, 394)] ++
  runs 1 217 [(433, 434)] ++
  runs 1 37 [(904, 906)] ++
  runs 1 63 [(910, 911)] ++
  runs 1 (-130) [(1021, 1023)] ++
  runs 1 80 [(1024, 1039)] ++
  runs 1 48 [(1329, 1366), (11264, 11311)] ++
  runs 1 7264 [(4256, 4293)] ++
  runs 1 38864 [(5024, 5103)] ++
  runs 1 8 [(5104, 5109)] ++
  runs 1 (-3008) [(7312, 7354), (7357, 7359)] ++
  runs 1 (-8) [(7944, 7951), (7960, 7965), (7976, 7983), (7992, 7999), (8008, 8013), (8040, 8047),
    (8072, 8079), (8088, 8095), (8104, 8111), (8120, 8121), (8152, 8153), (8168, 8169)] ++
  runs 2 (-8) [(8025, 8031)] ++
  runs 1 (-74) [(8122, 8123)] ++
  runs 1 (-86) [(8136, 8139)] ++
  runs 1 (-100) [(8154, 8155)] ++
  runs 1 (-112) [(8170, 8171)] ++
  runs 1 (-128) [(8184, 8185)] ++
  runs 1 (-126) [(8186, 8187)] ++
  runs 1 16 [(8544, 8559)] ++
  runs 1 26 [(9398, 9423)] ++
  runs 1 (-10815) [(11390, 11391)] ++
  runs 1 40 [(66560, 66599), (66736, 66771)] ++
  runs 1 39 [(66928, 66938), (66940, 66954), (66956, 66962), (66964, 66965)] ++
  runs 1 64 [(68736, 68786)] ++
  runs 1 27 [(93856, 93880)] ++
  runs 1 34 [(125184, 125217)] ++
  letters [(376, -121), (385, 210), (390, 206), (391, 1), (395, 1), (398, 79), (399, 202),
    (400, 203), (401, 1), (403, 205), (404, 207), (406, 211), (407, 209), (408, 1), (412, 211),
    (413, 213), (415, 214), (422, 218), (423, 1), (425, 218), (428, 1), (430, 218), (431, 1),
    (439, 219), (440, 1), (444, 1), (452, 2), (453, 1), (455, 2), (456, 1), (458, 2), (497, 2),
    (502, -97), (503, -56), (544, -130), (570, 10795), (571, 1), (573, -163), (574, 10792),
    (577, 1), (579, -195), (580, 69), (581, 71), (886, 1), (895, 116), (902, 38), (908, 64),
    (975, 8), (1012, -60), (1015, 1), (1017, -7), (1018, 1), (1216, 15), (4295, 7264),
    (4301, 7264), (7305, 1), (7838, -7615), (8124, -9), (8140, -9), (8172, -7), (8188, -9),
    (8486, -7517), (8490, -8383), (8491, -8262), (8498, 28), (8579, 1), (11360, 1),
    (11362, -10743), (11363, -3814), (11364, -10727), (11373, -10780), (11374, -10749),
    (11375, -10783), (11376, -10782), (11378, 1), (11381, 1), (11506, 1), (42877, -35332),
    (42891, 1), (42893, -42280), (42922, -42308), (42923, -42319), (42924, -42315),
    (42925, -42305), (42926, -42308), (42928, -42258), (42929, -42282), (42930, -42261),
    (42931, 928), (42948, -48), (42949, -42307), (42950, -35384), (42955, -42343), (42972, -42561),
    (42997, 1)]

/-- Whether a code point is one of the upper-case letters of a run. -/
def CaseRun.covers (r : CaseRun) (n : Nat) : Bool :=
  r.first ≤ n ∧ n ≤ r.last ∧ (n - r.first) % r.stride = 0

/-- The lower-case form of a character. A capital I with a dot becomes a small one followed by a
combining dot. -/
def lowercase (c : Char) : List Char :=
  if c.toNat < 128 then [c.toLower]
  else if c.toNat = 304 then ['i', Char.ofNat 775]
  else
    match caseRuns.find? (·.covers c.toNat) with
    | some r => [Char.ofNat (c.toNat + r.shift).toNat]
    | none => [c]

end SolidScript.Text
