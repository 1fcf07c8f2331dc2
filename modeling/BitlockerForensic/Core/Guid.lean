import BitlockerForensic.Std.Hex
import BitlockerForensic.Core.Bytes
import BitlockerForensic.Core.Error

/-!
# The text of a GUID

`format_guid` (`core/src/guid.rs`) writes the first three fields of a GUID from
their little-endian bytes and the last eight bytes in order.  Every text of the
form `8-4-4-4-12` is that of exactly one GUID.
-/

namespace Bitlocker

open RustStd

/-- The loop over the last eight bytes: `tail` is extended from byte `i` on. -/
def guidTail : List UInt8 → ℕ → String → String
  | [], _, tail => tail
  | b :: rest, i, tail =>
      let tail := if i = 2 then tail.push '-' else tail
      guidTail rest (i + 1) (tail ++ hex 2 b.toNat)

def formatGuid (raw : Octets 16) : Eval String := do
  let d1 ← leU32 (Bytes.ofList raw.toList) 0
  let d2 ← leU16 (Bytes.ofList raw.toList) 4
  let d3 ← leU16 (Bytes.ofList raw.toList) 6
  let last ← slice raw.toList 8 16
  return hex 8 d1.toNat ++ "-" ++ hex 4 d2.toNat ++ "-" ++ hex 4 d3.toNat ++ "-" ++
    guidTail last 0 ""

/-! ## Texts of GUIDs -/

/-- Five groups of lowercase digits, of the lengths `8-4-4-4-12`. -/
def guidTexts : Set String :=
  {text | ∃ groups : List (List Char), text.toList = List.intercalate ['-'] groups ∧
    groups.map List.length = [8, 4, 4, 4, 12] ∧ ∀ group ∈ groups, ∀ c ∈ group, c ∈ lowerHexDigits}

/-- The bytes that a text stands for. -/
def guidBytes (text : String) : List UInt8 :=
  match text.toList.splitOn '-' with
  | [d1, d2, d3, clock, node] =>
      leBytes 4 (hexValue d1) ++ leBytes 2 (hexValue d2) ++ leBytes 2 (hexValue d3) ++
        hexBytes clock ++ hexBytes node
  | _ => []

def guidGroups (raw : List UInt8) : List (List Char) :=
  [hexDigits 8 (leAt raw 0 4), hexDigits 4 (leAt raw 4 2), hexDigits 4 (leAt raw 6 2),
    ((raw.drop 8).take 2).flatMap byteDigits, (raw.drop 10).flatMap byteDigits]

theorem toList_hex {w n : ℕ} (h : n < 16 ^ (w + 1)) :
    (hex (w + 1) n).toList = hexDigits (w + 1) n := by
  rw [hex, String.toList_ofList, leftpad_toDigits h]

theorem toList_hex_byte (b : UInt8) : (hex 2 b.toNat).toList = byteDigits b :=
  toList_hex (show b.toNat < 16 ^ 2 from b.toNat_lt)

theorem toList_guidTail (bytes : List UInt8) {i : ℕ} (hi : 2 < i) (tail : String) :
    (guidTail bytes i tail).toList = tail.toList ++ bytes.flatMap byteDigits := by
  induction bytes generalizing i tail with
  | nil => rw [guidTail, List.flatMap_nil, List.append_nil]
  | cons b bytes ih =>
      rw [guidTail, if_neg (by omega), ih (by omega), String.toList_append, toList_hex_byte,
        List.flatMap_cons, List.append_assoc]

/-- The hyphen comes before the third byte. -/
theorem toList_guidTail_zero {bytes : List UInt8} (h : 2 < bytes.length) :
    (guidTail bytes 0 "").toList =
      (bytes.take 2).flatMap byteDigits ++ ['-'] ++ (bytes.drop 2).flatMap byteDigits := by
  match bytes, h with
  | b₀ :: b₁ :: b₂ :: rest, _ =>
      rw [guidTail, guidTail, guidTail, toList_guidTail rest (by decide)]
      simp [toList_hex_byte]

theorem formatGuid_eq (raw : Octets 16) :
    ∃ text, formatGuid raw = .ok text ∧
      text.toList = List.intercalate ['-'] (guidGroups raw.toList) := by
  have hlen := raw.length_eq
  have hbytes : (Bytes.ofList raw.toList).toList = raw.toList :=
    Bytes.ofList_toList (by rw [hlen]; decide)
  have hslice : RustStd.slice raw.toList 8 16 = .ok (raw.toList.drop 8) := by
    rw [slice_ok (by decide) hlen.ge, List.take_of_length_le hlen.le]
  have hd1 : (UInt32.ofNat (leAt raw.toList 0 4)).toNat = leAt raw.toList 0 4 :=
    UInt32.toNat_ofNat_of_lt (leAt_lt raw.toList 0 4)
  have hd2 : (UInt16.ofNat (leAt raw.toList 4 2)).toNat = leAt raw.toList 4 2 :=
    UInt16.toNat_ofNat_of_lt (leAt_lt raw.toList 4 2)
  have hd3 : (UInt16.ofNat (leAt raw.toList 6 2)).toNat = leAt raw.toList 6 2 :=
    UInt16.toNat_ofNat_of_lt (leAt_lt raw.toList 6 2)
  have hlast : 2 < (raw.toList.drop 8).length := by
    rw [List.length_drop, hlen]
    decide
  have htail := toList_guidTail_zero hlast
  rw [List.drop_drop] at htail
  have hhex1 : (hex 8 (leAt raw.toList 0 4)).toList = hexDigits 8 (leAt raw.toList 0 4) :=
    toList_hex (w := 7) (leAt_lt raw.toList 0 4)
  have hhex2 : (hex 4 (leAt raw.toList 4 2)).toList = hexDigits 4 (leAt raw.toList 4 2) :=
    toList_hex (w := 3) (leAt_lt raw.toList 4 2)
  have hhex3 : (hex 4 (leAt raw.toList 6 2)).toList = hexDigits 4 (leAt raw.toList 6 2) :=
    toList_hex (w := 3) (leAt_lt raw.toList 6 2)
  simp only [formatGuid, leU32_eq, leU16_eq, hbytes, hslice, ok_bind, hd1, hd2, hd3]
  refine ⟨_, rfl, ?_⟩
  simp only [String.toList_append, htail, hhex1, hhex2, hhex3, guidGroups]
  simp [List.intercalate, List.append_assoc]

/-! ## The bytes of a text -/

theorem pow_two_mul (w : ℕ) : 16 ^ (2 * w) = 256 ^ w := by
  rw [Nat.pow_mul, show 16 ^ 2 = 256 from rfl]

theorem hexValue_hexDigits_leAt (raw : List UInt8) (off w : ℕ) :
    hexValue (hexDigits (2 * w) (leAt raw off w)) = leAt raw off w := by
  rw [hexValue_hexDigits, pow_two_mul, Nat.mod_eq_of_lt (leAt_lt raw off w)]

theorem mem_of_mem_flatMap_byteDigits {bytes : List UInt8} {c : Char}
    (h : c ∈ bytes.flatMap byteDigits) : c ∈ lowerHexDigits := by
  obtain ⟨b, -, hc⟩ := List.mem_flatMap.mp h
  exact mem_lowerHexDigits hc

theorem mem_guidGroups {raw : List UInt8} {group : List Char} (hgroup : group ∈ guidGroups raw) :
    ∀ c ∈ group, c ∈ lowerHexDigits := by
  intro c hc
  simp only [guidGroups, List.mem_cons, List.not_mem_nil, or_false] at hgroup
  rcases hgroup with rfl | rfl | rfl | rfl | rfl
  · exact mem_lowerHexDigits hc
  · exact mem_lowerHexDigits hc
  · exact mem_lowerHexDigits hc
  · exact mem_of_mem_flatMap_byteDigits hc
  · exact mem_of_mem_flatMap_byteDigits hc

theorem splitOn_groups {groups : List (List Char)} (hne : groups ≠ [])
    (h : ∀ group ∈ groups, ∀ c ∈ group, c ∈ lowerHexDigits) :
    (List.intercalate ['-'] groups).splitOn '-' = groups := by
  refine List.splitOn_intercalate '-' ?_ hne
  intro group hgroup hdash
  exact absurd (h group hgroup _ hdash) (by decide)

theorem guidBytes_guidGroups {raw : List UInt8} (hlen : raw.length = 16) {text : String}
    (htext : text.toList = List.intercalate ['-'] (guidGroups raw)) : guidBytes text = raw := by
  have hsplit : text.toList.splitOn '-' = guidGroups raw := by
    rw [htext, @splitOn_groups (guidGroups raw) (List.cons_ne_nil _ _) fun _ ↦ mem_guidGroups]
  have hd1 : leBytes 4 (hexValue (hexDigits 8 (leAt raw 0 4))) = raw.take 4 := by
    rw [hexValue_hexDigits_leAt raw 0 4, leBytes_leAt (by omega)]
    rfl
  have hd2 : leBytes 2 (hexValue (hexDigits 4 (leAt raw 4 2))) = (raw.drop 4).take 2 := by
    rw [hexValue_hexDigits_leAt raw 4 2, leBytes_leAt (by omega), List.drop_take]
  have hd3 : leBytes 2 (hexValue (hexDigits 4 (leAt raw 6 2))) = (raw.drop 6).take 2 := by
    rw [hexValue_hexDigits_leAt raw 6 2, leBytes_leAt (by omega), List.drop_take]
  rw [guidBytes, hsplit]
  simp only [guidGroups, hd1, hd2, hd3, hexBytes_flatMap]
  have hjoin : ∀ (l : List UInt8) (m n : ℕ), (l.drop m).take n ++ l.drop (m + n) = l.drop m := by
    intro l m n
    rw [← List.drop_drop, List.take_append_drop]
  rw [List.append_assoc, hjoin, List.append_assoc, hjoin, List.append_assoc, hjoin,
    List.take_append_drop]

theorem length_guidGroups {raw : List UInt8} (hlen : raw.length = 16) :
    (guidGroups raw).map List.length = [8, 4, 4, 4, 12] := by
  simp only [guidGroups, List.map_cons, List.map_nil, length_hexDigits,
    length_flatMap_byteDigits, List.length_take, List.length_drop, hlen]
  rfl

theorem guidGroups_append (d1 d2 d3 : ℕ) {clock : List UInt8} (hclock : clock.length = 2)
    (node : List UInt8) :
    guidGroups (leBytes 4 d1 ++ (leBytes 2 d2 ++ (leBytes 2 d3 ++ (clock ++ node)))) =
      [hexDigits 8 (d1 % 256 ^ 4), hexDigits 4 (d2 % 256 ^ 2), hexDigits 4 (d3 % 256 ^ 2),
        clock.flatMap byteDigits, node.flatMap byteDigits] := by
  have hd2 : leAt (leBytes 4 d1 ++ (leBytes 2 d2 ++ (leBytes 2 d3 ++ (clock ++ node)))) 4 2 =
      d2 % 256 ^ 2 := by
    rw [leAt_append _ (length_leBytes 4 d1).le, length_leBytes, leAt_leBytes]
  have hd3 : leAt (leBytes 4 d1 ++ (leBytes 2 d2 ++ (leBytes 2 d3 ++ (clock ++ node)))) 6 2 =
      d3 % 256 ^ 2 := by
    rw [leAt_append _ (by rw [length_leBytes]; decide), length_leBytes,
      leAt_append _ (by rw [length_leBytes]), length_leBytes, leAt_leBytes]
  have hdrop : (leBytes 4 d1 ++ (leBytes 2 d2 ++ (leBytes 2 d3 ++ (clock ++ node)))).drop 8 =
      clock ++ node := by
    rw [← List.append_assoc, ← List.append_assoc]
    exact List.drop_left' (by simp only [List.length_append, length_leBytes])
  have hdrop' : (leBytes 4 d1 ++ (leBytes 2 d2 ++ (leBytes 2 d3 ++ (clock ++ node)))).drop 10 =
      node := by
    rw [show 10 = 8 + 2 from rfl, ← List.drop_drop, hdrop, List.drop_left' hclock]
  rw [guidGroups, leAt_leBytes, hd2, hd3, hdrop, hdrop', List.take_left' hclock]

theorem hexDigits_of_group {group : List Char} {w : ℕ} (hlen : group.length = 2 * w)
    (h : ∀ c ∈ group, c ∈ lowerHexDigits) :
    hexDigits (2 * w) (hexValue group % 256 ^ w) = group := by
  have hlt := hexValue_lt h
  rw [hlen, pow_two_mul] at hlt
  rw [Nat.mod_eq_of_lt hlt, ← hlen, hexDigits_hexValue h]

/-- The text of a GUID has the form `8-4-4-4-12` and stands for its bytes; and every
text of the form is that of the GUID it stands for. -/
theorem format_guid_bijective :
    (∀ raw : Octets 16, ∃ text ∈ guidTexts, formatGuid raw = .ok text ∧
      guidBytes text = raw.toList) ∧
    ∀ text ∈ guidTexts, ∃ raw : Octets 16, formatGuid raw = .ok text ∧
      raw.toList = guidBytes text := by
  constructor
  · intro raw
    obtain ⟨text, hformat, htext⟩ := formatGuid_eq raw
    exact ⟨text, ⟨guidGroups raw.toList, htext, length_guidGroups raw.length_eq,
      fun _ ↦ mem_guidGroups⟩, hformat, guidBytes_guidGroups raw.length_eq htext⟩
  · rintro text ⟨groups, htext, hlens, hdigits⟩
    have hsplit : text.toList.splitOn '-' = groups := by
      rw [htext]
      refine splitOn_groups ?_ hdigits
      rintro rfl
      cases hlens
    obtain ⟨d1, groups, rfl, hd1, hlens⟩ := List.map_eq_cons_iff.mp hlens
    obtain ⟨d2, groups, rfl, hd2, hlens⟩ := List.map_eq_cons_iff.mp hlens
    obtain ⟨d3, groups, rfl, hd3, hlens⟩ := List.map_eq_cons_iff.mp hlens
    obtain ⟨clock, groups, rfl, hclock, hlens⟩ := List.map_eq_cons_iff.mp hlens
    obtain ⟨node, groups, rfl, hnode, hlens⟩ := List.map_eq_cons_iff.mp hlens
    obtain rfl := List.map_eq_nil_iff.mp hlens
    simp only [List.forall_mem_cons] at hdigits
    obtain ⟨hdigits1, hdigits2, hdigits3, hdigits4, hdigits5, -⟩ := hdigits
    obtain ⟨hclockText, hclockLen⟩ := flatMap_hexBytes (n := 2) hclock hdigits4
    obtain ⟨hnodeText, hnodeLen⟩ := flatMap_hexBytes (n := 6) hnode hdigits5
    have hbytes : guidBytes text = leBytes 4 (hexValue d1) ++ (leBytes 2 (hexValue d2) ++
        (leBytes 2 (hexValue d3) ++ (hexBytes clock ++ hexBytes node))) := by
      rw [guidBytes, hsplit]
      simp only [List.append_assoc]
    have hlen : (guidBytes text).length = 16 := by
      simp only [hbytes, List.length_append, length_leBytes, hclockLen, hnodeLen]
    obtain ⟨text', hformat, htext'⟩ := formatGuid_eq ⟨guidBytes text, hlen⟩
    have hgroups : guidGroups (guidBytes text) = [d1, d2, d3, clock, node] := by
      rw [hbytes, guidGroups_append _ _ _ hclockLen, hclockText, hnodeText]
      rw [hexDigits_of_group (w := 4) hd1 hdigits1, hexDigits_of_group (w := 2) hd2 hdigits2,
        hexDigits_of_group (w := 2) hd3 hdigits3]
    have hsame : text' = text := by
      apply String.toList_inj.mp
      rw [htext', htext, hgroups]
    rw [hsame] at hformat
    exact ⟨⟨guidBytes text, hlen⟩, hformat, rfl⟩

end Bitlocker
