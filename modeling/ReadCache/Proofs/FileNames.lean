import Mathlib.Data.Set.Function
import ReadCache.FileName

namespace ReadCache
namespace Utf8
variable {b : Nat} {bs : List Nat} {p : Begun}

theorem chars_ascii (h : b < 0x80) : chars none (b :: bs) = Char.ofNat b :: chars none bs := by
  simp [chars, first, h]

theorem chars_lead (hb : 0x80 ≤ b) (h : lead? b = some p) :
    chars none (b :: bs) = chars (some p) bs := by
  simp [chars, first, h, Nat.not_lt.2 hb]

theorem chars_inner {left : Nat} (hb : p.least ≤ b ∧ b ≤ p.most) (hp : p.left = left + 2) :
    chars (some p) (b :: bs) =
      chars (some ⟨left + 1, 0x80, 0xBF, p.number * 64 + (b - 0x80)⟩) bs := by
  simp [chars, Begun.next, hb, hp]

theorem chars_last {v : Nat} (hb : p.least ≤ b ∧ b ≤ p.most) (hp : p.left = 1)
    (hv : p.number * 64 + (b - 0x80) = v) :
    chars (some p) (b :: bs) = Char.ofNat v :: chars none bs := by
  simp [chars, Begun.next, hb, hp, hv]

theorem lead?_two (h : 0xC2 ≤ b) (h' : b < 0xE0) :
    lead? b = some ⟨1, 0x80, 0xBF, b - 0xC0⟩ := by
  have hfew : b ≠ 0xE0 ∧ b ≠ 0xF0 ∧ b ≠ 0xED ∧ b ≠ 0xF4 := by omega
  simp [lead?, h, h', hfew]

theorem lead?_three (h : 0xE0 ≤ b) (h' : b < 0xF0) :
    lead? b = some ⟨2, if b = 0xE0 then 0xA0 else 0x80, if b = 0xED then 0x9F else 0xBF,
      b - 0xE0⟩ := by
  have hfew : b ≠ 0xF0 ∧ b ≠ 0xF4 ∧ ¬b < 0xE0 := by omega
  simp [lead?, h, h', hfew]

theorem lead?_four (h : 0xF0 ≤ b) (h' : b < 0xF5) :
    lead? b = some ⟨3, if b = 0xF0 then 0x90 else 0x80, if b = 0xF4 then 0x8F else 0xBF,
      b - 0xF0⟩ := by
  have hfew : b ≠ 0xE0 ∧ b ≠ 0xED ∧ ¬b < 0xE0 ∧ ¬b < 0xF0 := by omega
  simp [lead?, h, h', hfew]

/-- The bytes of a character make that character. -/
theorem chars_encode (c : Char) (bs : List Nat) :
    chars none ((String.utf8EncodeChar c).map UInt8.toNat ++ bs) = c :: chars none bs := by
  have hvalid : c.val.toNat < 0xD800 ∨ 0xDFFF < c.val.toNat ∧ c.val.toNat < 0x110000 := c.valid
  have hchar : Char.ofNat c.val.toNat = c := Char.ofNat_toNat c
  have hbyte {n : Nat} (h : n < 256) : (UInt8.ofNat n).toNat = n := UInt8.toNat_ofNat_of_lt' h
  simp only [String.utf8EncodeChar]
  generalize c.val.toNat = v at hvalid hchar
  subst hchar
  split_ifs with hone htwo hthree <;>
    simp only [List.map_cons, List.map_nil, List.cons_append, List.nil_append]
  · rw [hbyte (by omega), chars_ascii (by omega)]
  · rw [hbyte (by omega), hbyte (by omega), chars_lead (by omega) (lead?_two (by omega) (by omega)),
      chars_last (v := v) (by dsimp only; omega) rfl (by dsimp only; omega)]
  · rw [hbyte (by omega), hbyte (by omega), hbyte (by omega),
      chars_lead (by omega) (lead?_three (by omega) (by omega)),
      chars_inner (by dsimp only; split_ifs <;> omega) rfl,
      chars_last (v := v) (by dsimp only; omega) rfl (by dsimp only; omega)]
  · rw [hbyte (by omega), hbyte (by omega), hbyte (by omega), hbyte (by omega),
      chars_lead (by omega) (lead?_four (by omega) (by omega)),
      chars_inner (by dsimp only; split_ifs <;> omega) rfl,
      chars_inner (by dsimp only; omega) rfl,
      chars_last (v := v) (by dsimp only; omega) rfl (by dsimp only; omega)]

theorem chars_flatMap (cs : List Char) :
    chars none ((cs.flatMap String.utf8EncodeChar).map UInt8.toNat) = cs := by
  induction cs with
  | nil => rfl
  | cons c cs ih => rw [List.flatMap_cons, List.map_append, chars_encode, ih]

end Utf8

namespace ByteName

def ofText (text : String) : ByteName := ⟨text.toUTF8.data.toList⟩

/-- Only names that are no UTF-8 are told differently from what they are. -/
theorem text_ofText (text : String) : FileName.text (ofText text) = text := by
  have hbytes : text.toUTF8.data.toList = text.toList.flatMap String.utf8EncodeChar := by
    have hencoded : text.toByteArray = text.toList.utf8Encode := by simp
    rw [String.toUTF8, hencoded, List.utf8Encode]
    simp
  show String.ofList (Utf8.chars none (text.toUTF8.data.toList.map UInt8.toNat)) = text
  rw [hbytes, Utf8.chars_flatMap, String.ofList_toList]

theorem injOn_text {texts : List String} :
    Set.InjOn (FileName.text : ByteName → String) {name | name ∈ texts.map ofText} := by
  intro a ha b hb h
  obtain ⟨text, -, rfl⟩ := List.mem_map.1 ha
  obtain ⟨text', -, rfl⟩ := List.mem_map.1 hb
  rw [text_ofText, text_ofText] at h
  rw [h]

end ByteName
end ReadCache
