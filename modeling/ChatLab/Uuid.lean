import ChatLab.Foundation.OrderedMap
import Mathlib.Data.Char
import Mathlib.Data.String.Basic

/-!
# Identifiers as the store and the events carry them

A UUID is sixteen bytes, kept here as its thirty-two hexadecimal digits. The
library's parser accepts four spellings; only the canonical one is produced
by the program, and the round trip is stated for it alone.
-/

namespace ChatLab

structure UUID where
  digits : List (Fin 16)
  length_eq : digits.length = 32
deriving DecidableEq

namespace UUID

def hexDigit (d : Fin 16) : Char := Nat.digitChar d

def readHex (c : Char) : Option (Fin 16) :=
  if '0' ≤ c ∧ c ≤ '9' then some (Fin.ofNat 16 (c.toNat - 48))
  else if 'a' ≤ c ∧ c ≤ 'f' then some (Fin.ofNat 16 (c.toNat - 87))
  else if 'A' ≤ c ∧ c ≤ 'F' then some (Fin.ofNat 16 (c.toNat - 55))
  else none

/-- The digit of a number below sixteen. -/
def digit (n : Nat) : Fin 16 := Fin.ofNat 16 n

theorem readHex_hexDigit : ∀ d : Fin 16, readHex (hexDigit d) = some d := by decide

theorem hexDigit_ne_colon : ∀ d : Fin 16, hexDigit d ≠ ':' := by decide

def nil : UUID := ⟨List.replicate 32 0, by decide⟩

def string (u : UUID) : List Char :=
  let h := u.digits.map hexDigit
  h.take 8 ++ '-' :: ((h.drop 8).take 4 ++ '-' :: ((h.drop 12).take 4 ++ '-' ::
    ((h.drop 16).take 4 ++ '-' :: h.drop 20)))

def ofHex (cs : List Char) : Option UUID :=
  match cs.mapM readHex with
  | none => none
  | some ds => if h : ds.length = 32 then some ⟨ds, h⟩ else none

def parseGroups (s : List Char) : Option UUID :=
  if s[8]? = some '-' ∧ s[13]? = some '-' ∧ s[18]? = some '-' ∧ s[23]? = some '-' then
    ofHex (s.take 8 ++ ((s.drop 9).take 4 ++ ((s.drop 14).take 4 ++
      ((s.drop 19).take 4 ++ (s.drop 24).take 12))))
  else none

/-- `uuid.Parse`: canonical, `urn:uuid:` prefixed, enclosed in any two bytes,
or thirty-two bare digits. A character outside ASCII never parses. -/
def parse (s : List Char) : Option UUID :=
  if s.all (fun c => c.toNat < 128) then
    if s.length = 36 then parseGroups s
    else if s.length = 45 then
      if (s.take 9).map Char.toLower = "urn:uuid:".toList then parseGroups (s.drop 9) else none
    else if s.length = 38 then parseGroups (s.drop 1)
    else if s.length = 32 then ofHex s
    else none
  else none

theorem parseGroups_groups {a b c d e : List Char} (ha : a.length = 8) (hb : b.length = 4)
    (hc : c.length = 4) (hd : d.length = 4) (he : e.length = 12) :
    parseGroups (a ++ '-' :: (b ++ '-' :: (c ++ '-' :: (d ++ '-' :: e)))) =
      ofHex (a ++ (b ++ (c ++ (d ++ e)))) := by
  have hDashes : ∀ i ∈ [8, 13, 18, 23],
      (a ++ '-' :: (b ++ '-' :: (c ++ '-' :: (d ++ '-' :: e))))[i]? = some '-' := by
    simp [List.getElem?_append, List.getElem?_cons, ha, hb, hc, hd]
  rw [parseGroups, if_pos ⟨hDashes 8 (by decide), hDashes 13 (by decide), hDashes 18 (by decide),
    hDashes 23 (by decide)⟩]
  simp [List.drop_append, List.take_of_length_le, List.drop_of_length_le,
    ha, hb, hc, hd, he]

theorem ofHex_digits (u : UUID) : ofHex (u.digits.map hexDigit) = some u := by
  have hMap : ∀ ds : List (Fin 16), (ds.map hexDigit).mapM readHex = some ds := by
    intro ds
    induction ds with
    | nil => rfl
    | cons d ds ih => simp [List.mapM_cons, readHex_hexDigit, ih]
  rw [ofHex, hMap]
  simp [u.length_eq]

theorem string_groups (u : UUID) : ∃ a b c d e : List Char,
    a.length = 8 ∧ b.length = 4 ∧ c.length = 4 ∧ d.length = 4 ∧ e.length = 12 ∧
    u.string = a ++ '-' :: (b ++ '-' :: (c ++ '-' :: (d ++ '-' :: e))) ∧
    u.digits.map hexDigit = a ++ (b ++ (c ++ (d ++ e))) := by
  have hLength : (u.digits.map hexDigit).length = 32 := by rw [List.length_map, u.length_eq]
  refine ⟨(u.digits.map hexDigit).take 8, ((u.digits.map hexDigit).drop 8).take 4,
    ((u.digits.map hexDigit).drop 12).take 4, ((u.digits.map hexDigit).drop 16).take 4,
    (u.digits.map hexDigit).drop 20, ?_, ?_, ?_, ?_, ?_, rfl, ?_⟩
  · rw [List.length_take, hLength]
    rfl
  · rw [List.length_take, List.length_drop, hLength]
    rfl
  · rw [List.length_take, List.length_drop, hLength]
    rfl
  · rw [List.length_take, List.length_drop, hLength]
    rfl
  · rw [List.length_drop, hLength]
  · generalize u.digits.map hexDigit = h
    have hSplit : ∀ (i j : Nat), h.drop i = (h.drop i).take j ++ h.drop (i + j) := by
      intro i j
      rw [← List.drop_drop, List.take_append_drop]
    have h₈ : h.drop 8 = (h.drop 8).take 4 ++ h.drop 12 := hSplit 8 4
    have h₁₂ : h.drop 12 = (h.drop 12).take 4 ++ h.drop 16 := hSplit 12 4
    have h₁₆ : h.drop 16 = (h.drop 16).take 4 ++ h.drop 20 := hSplit 16 4
    rw [← h₁₆, ← h₁₂, ← h₈, List.take_append_drop]

theorem mem_string {u : UUID} {c : Char} (h : c ∈ u.string) : c = '-' ∨ ∃ d, c = hexDigit d := by
  obtain ⟨a, b, c', d, e, _, _, _, _, _, hString, hDigits⟩ := u.string_groups
  have hHex : ∀ x ∈ a ++ (b ++ (c' ++ (d ++ e))), ∃ n, x = hexDigit n := by
    intro x hx
    rw [← hDigits] at hx
    obtain ⟨n, _, rfl⟩ := List.mem_map.mp hx
    exact ⟨n, rfl⟩
  rw [hString] at h
  simp only [List.mem_append, List.mem_cons] at h hHex
  obtain h | h | h | h | h | h | h | h | h := h
  · exact .inr (hHex c (.inl h))
  · exact .inl h
  · exact .inr (hHex c (.inr (.inl h)))
  · exact .inl h
  · exact .inr (hHex c (.inr (.inr (.inl h))))
  · exact .inl h
  · exact .inr (hHex c (.inr (.inr (.inr (.inl h)))))
  · exact .inl h
  · exact .inr (hHex c (.inr (.inr (.inr (.inr h)))))

theorem colon_notMem_string (u : UUID) : ':' ∉ u.string := by
  intro h
  obtain h | ⟨d, h⟩ := mem_string h
  · exact absurd h (by decide)
  · exact hexDigit_ne_colon d h.symm

@[simp] theorem length_string (u : UUID) : u.string.length = 36 := by
  obtain ⟨a, b, c, d, e, ha, hb, hc, hd, he, hString, _⟩ := u.string_groups
  simp [hString, ha, hb, hc, hd, he]

@[simp] theorem parse_string (u : UUID) : parse u.string = some u := by
  have hAscii : u.string.all (fun c => c.toNat < 128) = true := by
    rw [List.all_eq_true]
    intro c hc
    obtain rfl | ⟨d, rfl⟩ := mem_string hc
    · decide
    · have hSmall : ∀ d : Fin 16, (hexDigit d).toNat < 128 := by decide
      simpa using hSmall d
  rw [parse, if_pos hAscii, if_pos u.length_string]
  obtain ⟨a, b, c, d, e, ha, hb, hc, hd, he, hString, hDigits⟩ := u.string_groups
  rw [hString, parseGroups_groups ha hb hc hd he, ← hDigits, ofHex_digits]

theorem string_injective : Function.Injective string := by
  intro u v h
  have hParse := congrArg parse h
  rw [parse_string, parse_string] at hParse
  exact Option.some.inj hParse

end UUID

end ChatLab
