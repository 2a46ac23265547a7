import ChatLab.Domain
import ChatLab.Foundation.Pagination

/-!
# The shared key-value store

One Badger database holds messages, analyses, index pointers and file tasks
under keys with distinct stems. Keys are the runes of the Go string: UTF-8
keeps the order and the prefixes of valid text, so the byte order of the
store is the lexicographic order here. A value written by `proto.Marshal` is
kept as the protobuf message it decodes to; marshalling can still refuse a
message, and reading a record under a stem of another kind is an error.
-/

namespace ChatLab.Storage

open Foundation Foundation.Lexicographic Foundation.Pagination

abbrev Key := List Char

structure MessagePb where
  id : String
  room : Int
  author : String
  content : String
  atTime : Int
  toxicityScore : Float64
deriving DecidableEq

inductive PayloadPb
  | textContent (content : String)
  | audio (transcription : String) (durationSec : Float64)
  | file (filename mimeType : String) (size : UInt64) (content : String)
deriving DecidableEq

structure AnalysisPb where
  id : String
  entityId : String
  nameSpace : String
  atTime : Int
  summary : String
  tags : List String
  scores : OrderedMap String Float64
  payload : Option PayloadPb
deriving DecidableEq

inductive PriorityPb
  | high | normal
deriving DecidableEq, Repr

structure FileTaskPb where
  id : String
  driveId : String
  path : String
  rawMimeType : String
  effectiveMimeType : String
  size : UInt64
  prior : PriorityPb
  createdAt : Int
  retryCount : Int32
deriving DecidableEq

inductive Value
  | message (m : MessagePb)
  | analysis (a : AnalysisPb)
  | pointer (k : Key)
  | task (t : FileTaskPb)
deriving DecidableEq

abbrev DB := OrderedMap Key Value

/-- The one option of the engine that the outcome of a transaction depends on. -/
structure BadgerOptions where
  detectConflicts : Bool

/-- The master switches conflict detection off; the engine's own default is on. -/
def buildBadgerOpts : BadgerOptions where
  detectConflicts := false

def analysisStem : Key := "analysis:".toList

def indexStem : Key := "idx:msg:".toList

def messageStem : Key := "msg:".toList

def pendingStem : Key := "work:pending:".toList

theorem ne_of_stems {a b x y : Key} {i : Nat} (ha : i < a.length) (hb : i < b.length)
    (h : a[i] ≠ b[i]) : a ++ x ≠ b ++ y := by
  intro hEq
  apply h
  have hGet := congrArg (fun l => l[i]?) hEq
  simpa [List.getElem?_append_left ha, List.getElem?_append_left hb, ha, hb] using hGet

theorem analysis_ne_index (x y : Key) : analysisStem ++ x ≠ indexStem ++ y :=
  ne_of_stems (i := 0) (by decide) (by decide) (by decide)

theorem field_injective {a b x y : Key} (ha : ':' ∉ a) (hb : ':' ∉ b)
    (h : a ++ ':' :: x = b ++ ':' :: y) : a = b ∧ x = y := by
  induction a generalizing b with
  | nil =>
    cases b with
    | nil => exact ⟨rfl, (List.cons.inj h).2⟩
    | cons d b => exact absurd (List.mem_cons.mpr (.inl (List.cons.inj h).1)) hb
  | cons c a ih =>
    cases b with
    | nil => exact absurd (List.mem_cons.mpr (.inl (List.cons.inj h).1.symm)) ha
    | cons d b =>
      obtain ⟨hcd, hRest⟩ := List.cons.inj h
      obtain ⟨hab, hxy⟩ := ih (fun hc => ha (List.mem_cons_of_mem _ hc))
        (fun hd => hb (List.mem_cons_of_mem _ hd)) hRest
      exact ⟨by rw [hcd, hab], hxy⟩

theorem lastField_injective {a b x y : Key} (hx : ':' ∉ x) (hy : ':' ∉ y)
    (h : a ++ ':' :: x = b ++ ':' :: y) : a = b ∧ x = y := by
  have hRev : x.reverse ++ ':' :: a.reverse = y.reverse ++ ':' :: b.reverse := by
    simpa using congrArg List.reverse h
  obtain ⟨hxy, hab⟩ := field_injective (by simpa using hx) (by simpa using hy) hRev
  exact ⟨List.reverse_injective hab, List.reverse_injective hxy⟩

theorem colon_notMem_decimal (n : Int) : ':' ∉ Decimal.decimal n := by
  intro h
  obtain h | h := Decimal.mem_decimal h
  · exact absurd h (by decide)
  · exact absurd h (by decide)

theorem colon_notMem_padded (width : Nat) (n : Int) : ':' ∉ Decimal.padded width n := by
  intro h
  obtain h | h := Decimal.mem_padded h
  · exact absurd h (by decide)
  · exact absurd h (by decide)

/-! ## Timestamps in keys -/

def lastTimestamp : Key := List.replicate 19 '9'

theorem padded_of_nonneg {n : Int} (h : 0 ≤ n) :
    Decimal.padded 19 n = Decimal.zeroPad 19 (Nat.toDigits 10 n.toNat) := by
  obtain ⟨n, rfl⟩ := Int.eq_ofNat_of_zero_le h
  rfl

theorem unixNano_lt (t : Int) : (unixNano t).toNat < 10 ^ 19 - 1 := by
  have hLt : unixNano t < (2 ^ 64 + 1) / 2 := Int.bmod_lt (by decide)
  omega

theorem lastTimestamp_eq :
    lastTimestamp = Decimal.zeroPad 19 (Nat.toDigits 10 (10 ^ 19 - 1)) := by
  decide

/-- The nineteen nines lie above every timestamp, negative ones included. -/
theorem timestamp_lt_last (t : Int) (rest : Key) :
    Decimal.padded 19 (unixNano t) ++ ':' :: rest < lastTimestamp := by
  have hTime := unixNano_lt t
  cases hNano : unixNano t with
  | ofNat n =>
    rw [hNano] at hTime
    have hLt := append_lt_append_of_lt (':' :: rest) []
      (by rw [Decimal.length_zeroPad (by decide) (by omega), Decimal.length_zeroPad (by decide)
        (by decide)])
      ((Decimal.zeroPad_lt_iff (w := 19) (by decide) (by omega) (by decide)).mpr hTime)
    rwa [List.append_nil, ← lastTimestamp_eq] at hLt
  | negSucc n => exact List.cons_lt_cons_iff.mpr (.inl (by decide))

/-- Padded timestamps order keys by time first. -/
theorem timestamp_lt_iff {t t' : Int} (h : 0 ≤ unixNano t) (h' : 0 ≤ unixNano t') (x y : Key) :
    Decimal.padded 19 (unixNano t) ++ ':' :: x < Decimal.padded 19 (unixNano t') ++ ':' :: y ↔
      unixNano t < unixNano t' ∨ unixNano t = unixNano t' ∧ x < y := by
  have hLess : ∀ {a b : Int} (u v : Key), 0 ≤ unixNano a → 0 ≤ unixNano b →
      unixNano a < unixNano b →
      Decimal.padded 19 (unixNano a) ++ u < Decimal.padded 19 (unixNano b) ++ v := by
    intro a b u v ha hb hab
    have hA := unixNano_lt a
    have hB := unixNano_lt b
    rw [padded_of_nonneg ha, padded_of_nonneg hb]
    refine append_lt_append_of_lt u v ?_ ?_
    · rw [Decimal.length_zeroPad (by decide) (by omega), Decimal.length_zeroPad (by decide)
        (by omega)]
    · exact (Decimal.zeroPad_lt_iff (by decide) (by omega) (by omega)).mpr (by omega)
  obtain hLt | hEq | hGt := lt_trichotomy (unixNano t) (unixNano t')
  · exact ⟨fun _ => .inl hLt, fun _ => hLess _ _ h h' hLt⟩
  · rw [hEq, append_lt_append_iff, List.cons_lt_cons_iff]
    simp
  · have hBack := hLess (':' :: y) (':' :: x) h' h hGt
    constructor
    · exact fun hKeys => absurd (hKeys.trans hBack) (lt_irrefl _)
    · rintro (hLt | ⟨hEq, _⟩)
      · exact absurd (hLt.trans hGt) (lt_irrefl _)
      · exact absurd hEq hGt.ne'

/-! ## Reverse iteration under a stem -/

def seekKey (stem : Key) : Option Key → Key
  | none => stem ++ lastTimestamp
  | some c => stem ++ c

def validForPrefix (stem : Key) : List (Key × Value) → Bool
  | [] => false
  | (k, _) :: _ => stem.isPrefixOf k

/-- The reverse iterator when the read loops start: after the seek and, with a
cursor, one `Next`. -/
def reverseIterator (db : DB) (stem : Key) (cursor : Option Key) : List (Key × Value) :=
  let it := db.descendingFrom (seekKey stem cursor)
  if cursor.isSome && validForPrefix stem it then it.tail else it

theorem mem_reverseIterator {db : DB} {stem : Key} {cursor : Option Key} {e : Key × Value}
    (h : e ∈ reverseIterator db stem cursor) : e ∈ db.entries ∧ e.1 ≤ seekKey stem cursor := by
  rw [reverseIterator] at h
  refine (db.mem_descendingFrom _ e).mp ?_
  split at h
  · exact List.mem_of_mem_tail h
  · exact h

theorem takeWhile_reverseIterator_none (db : DB) (stem : Key) :
    ((reverseIterator db stem none).takeWhile fun e => stem.isPrefixOf e.1) =
      scanFrom db stem lastTimestamp := rfl

theorem takeWhile_reverseIterator_some {db : DB} {stem c : Key} (h : stem ++ c ∈ db.keys) :
    ((reverseIterator db stem (some c)).takeWhile fun e => stem.isPrefixOf e.1) =
      unread db (fun k => stem.isPrefixOf k) (some (stem ++ c)) := by
  obtain ⟨v, hv⟩ := db.mem_keys_iff.mp h
  have hScan := scanFrom_of_mem (db.get?_eq_some_iff.mp hv)
  have hStem : stem.isPrefixOf (stem ++ c) = true :=
    List.isPrefixOf_iff_prefix.mpr (List.prefix_append _ _)
  cases hIt : db.descendingFrom (stem ++ c) with
  | nil => simp [scanFrom, hIt] at hScan
  | cons e rest =>
    rw [scanFrom, hIt, List.takeWhile_cons] at hScan
    split at hScan
    · rename_i hHead
      obtain ⟨_, hRest⟩ := List.cons.inj hScan
      have hIterator : reverseIterator db stem (some c) = rest := by
        simp only [reverseIterator, seekKey, hIt, Option.isSome_some, validForPrefix, hHead,
          Bool.and_self, if_true, List.tail_cons]
      rw [hIterator, hRest]
    · cases hScan

end ChatLab.Storage
