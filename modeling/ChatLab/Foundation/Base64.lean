import Mathlib.Data.List.Basic

/-!
# Unpadded base64

Three bytes become four characters of the standard alphabet, and what is left
at the end becomes two or three characters without padding. The decoder skips
line breaks, ignores the unused bits of the last character and refuses a lone
one.
-/

namespace Foundation.Base64

def alphabet : List Char :=
  "ABCDEFGHIJKLMNOPQRSTUVWXYZabcdefghijklmnopqrstuvwxyz0123456789+/".toList

def encodeSextet (n : Nat) : Char := alphabet.getD n 'A'

def decodeSextet (c : Char) : Option Nat := alphabet.idxOf? c

def toSextets : List UInt8 → List Nat
  | a :: b :: c :: rest =>
    a.toNat / 4 :: (a.toNat % 4 * 16 + b.toNat / 16) :: (b.toNat % 16 * 4 + c.toNat / 64) ::
      c.toNat % 64 :: toSextets rest
  | [a, b] => [a.toNat / 4, a.toNat % 4 * 16 + b.toNat / 16, b.toNat % 16 * 4]
  | [a] => [a.toNat / 4, a.toNat % 4 * 16]
  | [] => []

def ofSextets : List Nat → Option (List UInt8)
  | w :: x :: y :: z :: rest =>
    (ofSextets rest).map fun bytes =>
      UInt8.ofNat (w * 4 + x / 16) :: UInt8.ofNat (x % 16 * 16 + y / 4) ::
        UInt8.ofNat (y % 4 * 64 + z) :: bytes
  | [w, x, y] => some [UInt8.ofNat (w * 4 + x / 16), UInt8.ofNat (x % 16 * 16 + y / 4)]
  | [w, x] => some [UInt8.ofNat (w * 4 + x / 16)]
  | [_] => none
  | [] => some []

def encode (bytes : List UInt8) : List Char := (toSextets bytes).map encodeSextet

def decode (text : List Char) : Option (List UInt8) :=
  ((text.filter fun c => c ≠ '\r' ∧ c ≠ '\n').mapM decodeSextet).bind ofSextets

theorem toSextets_lt (bytes : List UInt8) : ∀ n ∈ toSextets bytes, n < 64 := by
  induction bytes using toSextets.induct with
  | case1 a b c rest ih =>
    have ha := a.toNat_lt
    have hb := b.toNat_lt
    have hc := c.toNat_lt
    simp only [toSextets, List.forall_mem_cons]
    refine ⟨by omega, by omega, by omega, by omega, ih⟩
  | case2 a b =>
    have ha := a.toNat_lt
    have hb := b.toNat_lt
    simp only [toSextets, List.forall_mem_cons]
    refine ⟨by omega, by omega, by omega, nofun⟩
  | case3 a =>
    have ha := a.toNat_lt
    simp only [toSextets, List.forall_mem_cons]
    refine ⟨by omega, by omega, nofun⟩
  | case4 => exact nofun

theorem ofNat_eq_of_toNat {a : UInt8} {n : Nat} (h : n = a.toNat) : UInt8.ofNat n = a := by
  rw [h, UInt8.ofNat_toNat]

theorem ofSextets_toSextets (bytes : List UInt8) : ofSextets (toSextets bytes) = some bytes := by
  induction bytes using toSextets.induct with
  | case1 a b c rest ih =>
    have ha := a.toNat_lt
    have hb := b.toNat_lt
    have hc := c.toNat_lt
    rw [toSextets, ofSextets, ih, Option.map_some, ofNat_eq_of_toNat (a := a) (by omega),
      ofNat_eq_of_toNat (a := b) (by omega), ofNat_eq_of_toNat (a := c) (by omega)]
  | case2 a b =>
    have ha := a.toNat_lt
    have hb := b.toNat_lt
    rw [toSextets, ofSextets, ofNat_eq_of_toNat (a := a) (by omega),
      ofNat_eq_of_toNat (a := b) (by omega)]
  | case3 a =>
    have ha := a.toNat_lt
    rw [toSextets, ofSextets, ofNat_eq_of_toNat (a := a) (by omega)]
  | case4 => rfl

theorem decodeSextet_encodeSextet : ∀ n < 64, decodeSextet (encodeSextet n) = some n := by
  decide +kernel

theorem mem_encode {bytes : List UInt8} {c : Char} (h : c ∈ encode bytes) : c ∈ alphabet := by
  have hAll : ∀ n < 64, encodeSextet n ∈ alphabet := by decide +kernel
  obtain ⟨n, hn, rfl⟩ := List.mem_map.mp h
  exact hAll n (toSextets_lt bytes n hn)

theorem decode_encode (bytes : List UInt8) : decode (encode bytes) = some bytes := by
  have hKept : (encode bytes).filter (fun c => c ≠ '\r' ∧ c ≠ '\n') = encode bytes := by
    have hNoBreak : alphabet.all (fun c => c ≠ '\r' ∧ c ≠ '\n') = true := by decide +kernel
    apply List.filter_eq_self.mpr
    intro c hc
    exact List.all_eq_true.mp hNoBreak c (mem_encode hc)
  have hRead : ∀ l : List Nat, (∀ n ∈ l, n < 64) →
      (l.map encodeSextet).mapM decodeSextet = some l := by
    intro l hl
    induction l with
    | nil => rfl
    | cons n l ih =>
      rw [List.map_cons, List.mapM_cons, decodeSextet_encodeSextet n (hl n List.mem_cons_self),
        ih fun m hm => hl m (List.mem_cons_of_mem _ hm)]
      rfl
  rw [decode, hKept, encode, hRead _ (toSextets_lt bytes), Option.bind_some, ofSextets_toSextets]

end Foundation.Base64
