import Mathlib.Data.Char
import Mathlib.Data.List.Basic

/-!
# Texts as bytes

A text is stored as the UTF-8 bytes of its characters. An ASCII character is
one byte, and that byte occurs in the encoding of no other character.
-/

namespace Foundation.Utf8

def encode (text : List Char) : List UInt8 := text.flatMap String.utf8EncodeChar

/-- The characters of ASCII bytes; other bytes come out as characters beyond. -/
def chars (bytes : List UInt8) : List Char := bytes.map fun b => Char.ofNat b.toNat

def IsAscii (text : List Char) : Prop := ∀ c ∈ text, c.toNat < 128

@[simp] theorem encode_nil : encode [] = [] := rfl

theorem encode_cons (c : Char) (text : List Char) :
    encode (c :: text) = String.utf8EncodeChar c ++ encode text := List.flatMap_cons

theorem encode_append (a b : List Char) : encode (a ++ b) = encode a ++ encode b :=
  List.flatMap_append

theorem encodeChar_of_ascii {c : Char} (h : c.toNat < 128) :
    String.utf8EncodeChar c = [UInt8.ofNat c.toNat] :=
  if_pos (Nat.le_of_lt_succ h)

theorem toNat_byte {c : Char} (h : c.toNat < 128) : (UInt8.ofNat c.toNat).toNat = c.toNat := by
  rw [UInt8.toNat_ofNat']
  omega

/-- The bytes of a character beyond ASCII have their highest bit set. -/
theorem le_of_mem_encodeChar {c : Char} (h : 128 ≤ c.toNat) {b : UInt8}
    (hb : b ∈ String.utf8EncodeChar c) : 128 ≤ b.toNat := by
  have hLarge : ¬ c.val.toNat ≤ 127 := Nat.not_le.mpr h
  simp only [String.utf8EncodeChar, if_neg hLarge] at hb
  split at hb
  · simp only [List.mem_cons, List.not_mem_nil, or_false] at hb
    obtain rfl | rfl := hb <;> rw [UInt8.toNat_ofNat'] <;> omega
  · split at hb
    · simp only [List.mem_cons, List.not_mem_nil, or_false] at hb
      obtain rfl | rfl | rfl := hb <;> rw [UInt8.toNat_ofNat'] <;> omega
    · simp only [List.mem_cons, List.not_mem_nil, or_false] at hb
      obtain rfl | rfl | rfl | rfl := hb <;> rw [UInt8.toNat_ofNat'] <;> omega

theorem mem_encode_iff {c : Char} (h : c.toNat < 128) (text : List Char) :
    UInt8.ofNat c.toNat ∈ encode text ↔ c ∈ text := by
  constructor
  · intro hMem
    obtain ⟨d, hd, hByteOf⟩ := List.mem_flatMap.mp hMem
    by_cases hAscii : d.toNat < 128
    · rw [encodeChar_of_ascii hAscii, List.mem_singleton] at hByteOf
      have hSame := congrArg UInt8.toNat hByteOf
      rw [toNat_byte h, toNat_byte hAscii] at hSame
      rwa [Char.toNat_inj.mp hSame]
    · have hLarge := le_of_mem_encodeChar (Nat.le_of_not_lt hAscii) hByteOf
      rw [toNat_byte h] at hLarge
      omega
  · intro hMem
    refine List.mem_flatMap.mpr ⟨c, hMem, ?_⟩
    rw [encodeChar_of_ascii h]
    exact List.mem_singleton_self _

section Ascii

variable {text : List Char}

theorem IsAscii.cons {c : Char} (hc : c.toNat < 128) (h : IsAscii text) : IsAscii (c :: text) := by
  intro d hd
  obtain rfl | hd := List.mem_cons.mp hd
  · exact hc
  · exact h d hd

theorem IsAscii.append {rest : List Char} (h : IsAscii text) (hRest : IsAscii rest) :
    IsAscii (text ++ rest) := by
  intro c hc
  obtain hc | hc := List.mem_append.mp hc
  · exact h c hc
  · exact hRest c hc

theorem IsAscii.encode_eq (h : IsAscii text) :
    encode text = text.map fun c => UInt8.ofNat c.toNat := by
  induction text with
  | nil => rfl
  | cons c text ih =>
    rw [encode_cons, encodeChar_of_ascii (h c List.mem_cons_self),
      ih fun d hd => h d (List.mem_cons_of_mem _ hd)]
    rfl

theorem IsAscii.length_encode (h : IsAscii text) : (encode text).length = text.length := by
  rw [h.encode_eq, List.length_map]

theorem IsAscii.take (h : IsAscii text) (n : Nat) : IsAscii (text.take n) :=
  fun c hc => h c (List.mem_of_mem_take hc)

theorem IsAscii.take_encode (h : IsAscii text) (n : Nat) :
    (encode text).take n = encode (text.take n) := by
  rw [h.encode_eq, (h.take n).encode_eq, List.map_take]

theorem IsAscii.chars_encode (h : IsAscii text) : chars (encode text) = text := by
  have hBack : ∀ c ∈ text, Char.ofNat (UInt8.ofNat c.toNat).toNat = c := by
    intro c hc
    rw [toNat_byte (h c hc), Char.ofNat_toNat]
  rw [h.encode_eq, chars, List.map_map]
  exact (List.map_congr_left hBack).trans (List.map_id' text)

end Ascii

end Foundation.Utf8
