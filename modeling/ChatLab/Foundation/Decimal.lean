import Mathlib.Data.Char
import Mathlib.Tactic.Ring
import ChatLab.Foundation.Lexicographic

/-!
# Decimal renderings and their order

Plain and zero-padded decimals of integers, as a formatted print writes them.
Padding makes the lexicographic order of two renderings of one width agree
with the order of the numbers. A number too long for its width is printed in
full, so the agreement is stated only for numbers that fit.
-/

namespace Foundation.Decimal

open Foundation.Lexicographic

def decimal : Int → List Char
  | .ofNat n => Nat.toDigits 10 n
  | .negSucc n => '-' :: Nat.toDigits 10 (n + 1)

def zeroPad (width : Nat) (digits : List Char) : List Char :=
  List.replicate (width - digits.length) '0' ++ digits

/-- The padded width includes the sign of a negative number. -/
def padded (width : Nat) : Int → List Char
  | .ofNat n => zeroPad width (Nat.toDigits 10 n)
  | .negSucc n => '-' :: zeroPad (width - 1) (Nat.toDigits 10 (n + 1))

def value (digits : List Char) : Nat := Nat.ofDigitChars 10 digits 0

theorem isDigit_of_mem_toDigits {n : Nat} {c : Char} (h : c ∈ Nat.toDigits 10 n) :
    c.isDigit = true :=
  Nat.isDigit_of_mem_toDigits (by decide) (by decide) h

theorem isDigit_of_mem_zeroPad {width n : Nat} {c : Char}
    (h : c ∈ zeroPad width (Nat.toDigits 10 n)) : c.isDigit = true := by
  obtain h | h := List.mem_append.mp h
  · rw [List.eq_of_mem_replicate h]
    decide
  · exact isDigit_of_mem_toDigits h

theorem value_zeroPad (width n : Nat) : value (zeroPad width (Nat.toDigits 10 n)) = n := by
  simp only [value, zeroPad]
  rw [Nat.ofDigitChars_append, Nat.ofDigitChars_replicate_zero, Nat.mul_zero,
    Nat.ofDigitChars_ten_toDigits]

theorem toDigits_injective {m n : Nat} (h : Nat.toDigits 10 m = Nat.toDigits 10 n) : m = n := by
  have hValue := congrArg (fun ds => Nat.ofDigitChars 10 ds 0) h
  simpa only [Nat.ofDigitChars_ten_toDigits] using hValue

theorem mem_decimal {n : Int} {c : Char} (h : c ∈ decimal n) : c = '-' ∨ c.isDigit = true := by
  cases n with
  | ofNat n => exact .inr (isDigit_of_mem_toDigits h)
  | negSucc n =>
    obtain h | h := List.mem_cons.mp h
    · exact .inl h
    · exact .inr (isDigit_of_mem_toDigits h)

theorem mem_padded {width : Nat} {n : Int} {c : Char} (h : c ∈ padded width n) :
    c = '-' ∨ c.isDigit = true := by
  cases n with
  | ofNat n => exact .inr (isDigit_of_mem_zeroPad h)
  | negSucc n =>
    obtain h | h := List.mem_cons.mp h
    · exact .inl h
    · exact .inr (isDigit_of_mem_zeroPad h)

theorem decimal_injective : Function.Injective decimal := by
  have hSign : ∀ m n : Nat, Nat.toDigits 10 m ≠ '-' :: Nat.toDigits 10 n := by
    intro m n h
    have hDigit : ('-' : Char).isDigit = true :=
      isDigit_of_mem_toDigits (n := m) (by rw [h]; exact List.mem_cons_self)
    exact absurd hDigit (by decide)
  intro a b h
  cases a with
  | ofNat m =>
    cases b with
    | ofNat n => rw [toDigits_injective h]
    | negSucc n => exact absurd h (hSign m (n + 1))
  | negSucc m =>
    cases b with
    | ofNat n => exact absurd h.symm (hSign n (m + 1))
    | negSucc n =>
      have hEq := toDigits_injective (List.cons.inj h).2
      rw [Nat.succ.inj hEq]

theorem padded_injective (width : Nat) : Function.Injective (padded width) := by
  have hSign : ∀ m n : Nat, ∀ w : Nat,
      zeroPad width (Nat.toDigits 10 m) ≠ '-' :: zeroPad w (Nat.toDigits 10 n) := by
    intro m n w h
    have hDigit : ('-' : Char).isDigit = true :=
      @isDigit_of_mem_zeroPad width m '-' (by rw [h]; exact List.mem_cons_self)
    exact absurd hDigit (by decide)
  have hNat : ∀ w m n : Nat,
      zeroPad w (Nat.toDigits 10 m) = zeroPad w (Nat.toDigits 10 n) → m = n := by
    intro w m n h
    rw [← value_zeroPad w m, ← value_zeroPad w n, h]
  intro a b h
  cases a with
  | ofNat m =>
    cases b with
    | ofNat n => rw [hNat width m n h]
    | negSucc n => exact absurd h (hSign m (n + 1) _)
  | negSucc m =>
    cases b with
    | ofNat n => exact absurd h.symm (hSign n (m + 1) _)
    | negSucc n => rw [Nat.succ.inj (hNat _ _ _ (List.cons.inj h).2)]

theorem length_zeroPad {width n : Nat} (hWidth : 0 < width) (h : n < 10 ^ width) :
    (zeroPad width (Nat.toDigits 10 n)).length = width := by
  have hLength := (Nat.length_toDigits_le_iff (by decide) hWidth).mpr h
  simp only [zeroPad, List.length_append, List.length_replicate]
  omega

/-! ## Words of digits -/

theorem value_cons (c : Char) (cs : List Char) :
    value (c :: cs) = 10 ^ cs.length * (c.toNat - 48) + value cs := by
  rw [value, Nat.ofDigitChars_cons, Nat.ofDigitChars_eq_ofDigitChars_zero]
  simp [value]

theorem toNat_of_isDigit {c : Char} (h : c.isDigit = true) : 48 ≤ c.toNat ∧ c.toNat ≤ 57 := by
  simp only [Char.isDigit, Bool.and_eq_true, decide_eq_true_eq] at h
  exact ⟨h.1, h.2⟩

theorem value_lt_pow {cs : List Char} (h : ∀ c ∈ cs, c.isDigit = true) :
    value cs < 10 ^ cs.length := by
  induction cs with
  | nil => simp [value]
  | cons c cs ih =>
    have hRest := ih fun d hd => h d (List.mem_cons_of_mem _ hd)
    have hc := toNat_of_isDigit (h c List.mem_cons_self)
    have hDigit : c.toNat - 48 ≤ 9 := by omega
    rw [value_cons, List.length_cons, Nat.pow_succ]
    calc 10 ^ cs.length * (c.toNat - 48) + value cs
        < 10 ^ cs.length * (c.toNat - 48) + 10 ^ cs.length := Nat.add_lt_add_left hRest _
      _ = 10 ^ cs.length * (c.toNat - 48 + 1) := by ring
      _ ≤ 10 ^ cs.length * 10 := Nat.mul_le_mul_left _ (by omega)

theorem value_lt_of_lt {a b : List Char} (hLength : a.length = b.length)
    (ha : ∀ c ∈ a, c.isDigit = true) (hb : ∀ c ∈ b, c.isDigit = true) (h : a < b) :
    value a < value b := by
  induction a generalizing b with
  | nil =>
    have hNil : b = [] := List.length_eq_zero_iff.mp hLength.symm
    subst hNil
    exact absurd h (lt_irrefl _)
  | cons c a ih =>
    cases b with
    | nil => cases hLength
    | cons d b =>
      have hLen : a.length = b.length := Nat.succ.inj hLength
      have ha' : ∀ x ∈ a, x.isDigit = true := fun x hx => ha x (List.mem_cons_of_mem _ hx)
      have hb' : ∀ x ∈ b, x.isDigit = true := fun x hx => hb x (List.mem_cons_of_mem _ hx)
      rw [value_cons, value_cons, hLen]
      obtain hcd | ⟨rfl, hab⟩ := List.cons_lt_cons_iff.mp h
      · have hc := toNat_of_isDigit (ha c List.mem_cons_self)
        have hNat : c.toNat < d.toNat := hcd
        have hStep : c.toNat - 48 + 1 ≤ d.toNat - 48 := by omega
        have hRest := value_lt_pow ha'
        rw [hLen] at hRest
        calc 10 ^ b.length * (c.toNat - 48) + value a
            < 10 ^ b.length * (c.toNat - 48) + 10 ^ b.length := Nat.add_lt_add_left hRest _
          _ = 10 ^ b.length * (c.toNat - 48 + 1) := by ring
          _ ≤ 10 ^ b.length * (d.toNat - 48) := Nat.mul_le_mul_left _ hStep
          _ ≤ _ := Nat.le_add_right _ _
      · exact Nat.add_lt_add_left (ih hLen ha' hb' hab) _

theorem zeroPad_lt_iff {w m n : Nat} (hWidth : 0 < w) (hm : m < 10 ^ w) (hn : n < 10 ^ w) :
    zeroPad w (Nat.toDigits 10 m) < zeroPad w (Nat.toDigits 10 n) ↔ m < n := by
  have hLength : (zeroPad w (Nat.toDigits 10 m)).length =
      (zeroPad w (Nat.toDigits 10 n)).length := by
    rw [length_zeroPad hWidth hm, length_zeroPad hWidth hn]
  have hValue : ∀ {a b : Nat}, zeroPad w (Nat.toDigits 10 a) < zeroPad w (Nat.toDigits 10 b) →
      a < 10 ^ w → b < 10 ^ w → a < b := by
    intro a b h ha hb
    have hLt := value_lt_of_lt (by rw [length_zeroPad hWidth ha, length_zeroPad hWidth hb])
      (fun c hc => isDigit_of_mem_zeroPad hc) (fun c hc => isDigit_of_mem_zeroPad hc) h
    rwa [value_zeroPad, value_zeroPad] at hLt
  constructor
  · exact fun h => hValue h hm hn
  · intro h
    by_contra hNot
    obtain hLt | hEq := (not_lt.mp hNot).lt_or_eq
    · exact absurd (hValue hLt hn hm) h.asymm
    · have hBack := congrArg value hEq
      rw [value_zeroPad, value_zeroPad] at hBack
      exact h.ne hBack.symm

/-! ## Plain decimals before a separator -/

/-- The number of digits. -/
def width (n : Nat) : Nat := (Nat.toDigits 10 n).length

theorem lt_pow_width (n : Nat) : n < 10 ^ width n :=
  (Nat.length_toDigits_le_iff (by decide) Nat.length_toDigits_pos).mp (le_refl _)

theorem width_mono {m n : Nat} (h : m ≤ n) : width m ≤ width n :=
  (Nat.length_toDigits_le_iff (by decide) Nat.length_toDigits_pos).mpr
    (lt_of_le_of_lt h (lt_pow_width n))

theorem toDigits_of_ten_le {n : Nat} (h : 10 ≤ n) :
    Nat.toDigits 10 n = Nat.toDigits 10 (n / 10) ++ Nat.toDigits 10 (n % 10) := by
  have hAppend := Nat.toDigits_append_toDigits (b := 10) (n := n / 10) (d := n % 10) (by decide)
    (by omega) (Nat.mod_lt _ (by decide))
  rw [hAppend, Nat.div_add_mod]

/-- Dividing by a power of ten drops digits from the end. -/
theorem toDigits_split {n k : Nat} (h : k < width n) :
    ∃ rest, rest.length = k ∧ Nat.toDigits 10 n = Nat.toDigits 10 (n / 10 ^ k) ++ rest := by
  induction k with
  | zero => exact ⟨[], rfl, by rw [Nat.pow_zero, Nat.div_one, List.append_nil]⟩
  | succ k ih =>
    obtain ⟨rest, hLength, hDigits⟩ := ih (Nat.lt_of_succ_lt h)
    have hLarge : 10 ≤ n / 10 ^ k := by
      by_contra hSmall
      have hOne := Nat.toDigits_of_lt_base (Nat.lt_of_not_le hSmall)
      rw [width, hDigits, hOne, List.length_append, List.length_singleton] at h
      omega
    have hLast : (Nat.toDigits 10 (n / 10 ^ k % 10)).length = 1 := by
      rw [Nat.toDigits_of_lt_base (Nat.mod_lt _ (by decide))]
      rfl
    refine ⟨Nat.toDigits 10 (n / 10 ^ k % 10) ++ rest, ?_, ?_⟩
    · rw [List.length_append, hLast, hLength, Nat.add_comm]
    · rw [hDigits, toDigits_of_ten_le hLarge, List.append_assoc, Nat.div_div_eq_div_mul,
        ← Nat.pow_succ]

theorem zeroPad_width (n : Nat) : zeroPad (width n) (Nat.toDigits 10 n) = Nat.toDigits 10 n := by
  rw [zeroPad, width, Nat.sub_self]
  rfl

theorem toDigits_lt_iff {m n : Nat} (h : width m = width n) :
    Nat.toDigits 10 m < Nat.toDigits 10 n ↔ m < n := by
  have hm := lt_pow_width m
  rw [h] at hm
  have hPositive : 0 < width n := Nat.length_toDigits_pos
  have hIff := zeroPad_lt_iff hPositive hm (lt_pow_width n)
  rwa [zeroPad_width, ← h, zeroPad_width] at hIff

/-- Before a separator above the digits, the texts of two numbers stand in the
order of the numbers only if the leading digits of the larger one, as many as
the smaller one has, are already larger. -/
theorem toDigits_append_lt_iff {sep : Char} (hSep : ∀ c : Char, c.isDigit = true → c < sep)
    {m n : Nat} (h : m < n) (x y : List Char) :
    Nat.toDigits 10 m ++ sep :: x < Nat.toDigits 10 n ++ sep :: y ↔
      m < n / 10 ^ (width n - width m) := by
  have hWidth := width_mono h.le
  have hPositive : 0 < width m := Nat.length_toDigits_pos
  obtain ⟨rest, hLength, hDigits⟩ := @toDigits_split n (width n - width m) (by omega)
  have hSame : width m = width (n / 10 ^ (width n - width m)) := by
    have hCount := congrArg List.length hDigits
    rw [List.length_append, hLength] at hCount
    simp only [width] at hWidth ⊢ hCount
    omega
  rw [hDigits, List.append_assoc]
  obtain hLt | hEq | hGt := lt_trichotomy m (n / 10 ^ (width n - width m))
  · refine iff_of_true (append_lt_append_of_lt _ _ hSame ?_) hLt
    exact (toDigits_lt_iff hSame).mpr hLt
  · refine iff_of_false ?_ hEq.not_lt
    rw [← hEq, append_lt_append_iff]
    cases rest with
    | nil =>
      -- no digit is left over, so the two numbers would be equal
      rw [← hLength, List.length_nil, Nat.pow_zero, Nat.div_one] at hEq
      exact absurd hEq h.ne
    | cons d rest =>
      have hDigit : d.isDigit = true := by
        apply isDigit_of_mem_toDigits (n := n)
        rw [hDigits]
        exact List.mem_append_right _ List.mem_cons_self
      exact lt_asymm (List.Lex.rel (hSep d hDigit))
  · refine iff_of_false ?_ hGt.not_gt
    have hBack := (toDigits_lt_iff hSame.symm).mpr hGt
    exact lt_asymm (append_lt_append_of_lt (rest ++ sep :: y) (sep :: x) hSame.symm hBack)

/-! ## Reading a number -/

/-- The sign in front of a text and what follows it. -/
def signed : List Char → Bool × List Char
  | '-' :: rest => (true, rest)
  | '+' :: rest => (false, rest)
  | text => (false, text)

/-- A signed decimal in the range of sixty-four bits. -/
def parseInt (text : List Char) : Option Int :=
  let (negative, digits) := signed text
  let magnitude : Int := value digits
  let n := if negative then -magnitude else magnitude
  if digits = [] ∨ digits.all Char.isDigit = false then none
  else if n < -2 ^ 63 ∨ 2 ^ 63 ≤ n then none
  else some n

theorem signed_of_isDigit {c : Char} (h : c.isDigit = true) (text : List Char) :
    signed (c :: text) = (false, c :: text) := by
  unfold signed
  split
  · rename_i hc
    rw [(List.cons.inj hc).1] at h
    exact absurd h (by decide)
  · rename_i hc
    rw [(List.cons.inj hc).1] at h
    exact absurd h (by decide)
  · rfl

theorem parseInt_of_isDigit {text : List Char} (hText : text ≠ [])
    (hDigits : ∀ c ∈ text, c.isDigit = true) (hValue : value text < 2 ^ 63) :
    parseInt text = some (value text : Int) := by
  have hSigned : signed text = (false, text) := by
    obtain ⟨c, rest, rfl⟩ := List.exists_cons_of_ne_nil hText
    exact signed_of_isDigit (hDigits c List.mem_cons_self) rest
  have hAll : ¬ (text = [] ∨ text.all Char.isDigit = false) := by
    rw [not_or, Bool.not_eq_false]
    exact ⟨hText, List.all_eq_true.mpr hDigits⟩
  have hRange : ¬ ((value text : Int) < -2 ^ 63 ∨ 2 ^ 63 ≤ (value text : Int)) := by omega
  simp only [parseInt, hSigned]
  rw [if_neg hAll, if_neg Bool.false_ne_true, if_neg hRange]

theorem parseInt_zeroPad {width n : Nat} (h : n < 2 ^ 63) :
    parseInt (zeroPad width (Nat.toDigits 10 n)) = some (n : Int) := by
  have hText : zeroPad width (Nat.toDigits 10 n) ≠ [] :=
    List.append_ne_nil_of_right_ne_nil _ (List.ne_nil_of_length_pos Nat.length_toDigits_pos)
  have hParse := parseInt_of_isDigit hText (fun c hc => isDigit_of_mem_zeroPad hc)
    (by rwa [value_zeroPad])
  rwa [value_zeroPad] at hParse

end Foundation.Decimal
