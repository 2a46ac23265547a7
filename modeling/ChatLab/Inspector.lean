import ChatLab.Foundation.Fields
import ChatLab.Foundation.Utf8
import ChatLab.Storage.AnalysisScan

/-!
# The rows of the inspector

`DefaultMapper` shows an entry of the store by the parts of its key. Strings
are bytes here, since it cuts one at a byte. A zone gives its offset from UTC,
in seconds, at a Unix second; the inspector formats in the zone of its machine.
-/

namespace ChatLab.Inspector

open Foundation Foundation.Decimal Foundation.Utf8 Storage

structure InspectRow where
  key : List UInt8
  type : List UInt8
  timestamp : List UInt8
  entityId : List UInt8
  nameSpace : List UInt8
  detail : List UInt8
  scores : List UInt8
deriving DecidableEq

/-! ## The time of day -/

abbrev Zone := Int → Int

def secondOfDay (zone : Zone) (instant : Int) : Nat :=
  let sec := instant / 10 ^ 9
  ((sec + zone sec) % 86400).toNat

def twoDigits (n : Nat) : List Char := zeroPad 2 (Nat.toDigits 10 n)

/-- The layout `15:04:05`. -/
def clockText (s : Nat) : List Char :=
  twoDigits (s / 3600) ++ ':' :: (twoDigits (s / 60 % 60) ++ ':' :: twoDigits (s % 60))

def formatClock (zone : Zone) (instant : Int) : List Char := clockText (secondOfDay zone instant)

/-! ## The mapper -/

def colon : UInt8 := UInt8.ofNat ':'.toNat

def defaultRow (key val : List UInt8) : InspectRow where
  key := key
  type := encode "RAW".toList
  timestamp := encode "--:--:--".toList
  entityId := encode "--------".toList
  nameSpace := encode "default".toList
  detail := encode ("Size: ".toList ++ decimal val.length ++ " bytes".toList)
  scores := encode "-".toList

def defaultMapper (localZone : Zone) (key val : List UInt8) : InspectRow :=
  let row := defaultRow key val
  match key.splitOn colon with
  | _ :: nameSpace :: stamp :: entityId :: _ =>
    { row with
      nameSpace := nameSpace
      timestamp :=
        match parseInt (chars stamp) with
        | some tsNano => encode (formatClock localZone tsNano)
        | none => row.timestamp
      entityId := if entityId.length > 8 then entityId.take 8 else entityId }
  | _ => row

/-- The row shows what the key was built from: the namespace, the time as its
own zone formats it, and the first eight characters of the entity. -/
structure ReadsBack (row : InspectRow) (nameSpace : String) (zone : Zone) (atTime : Int)
    (entityId : UUID) : Prop where
  nameSpace : row.nameSpace = encode nameSpace.toList
  timestamp : row.timestamp = encode (formatClock zone atTime)
  entityId : row.entityId = encode (entityId.string.take 8)

/-! ## Texts in a row -/

theorem isAscii_of_isDigit {text : List Char} (h : ∀ c ∈ text, c.isDigit = true) :
    IsAscii text := by
  intro c hc
  have hRange := toNat_of_isDigit (h c hc)
  omega

theorem isAscii_twoDigits (n : Nat) : IsAscii (twoDigits n) :=
  isAscii_of_isDigit fun _ hc => isDigit_of_mem_zeroPad hc

theorem isAscii_clockText (s : Nat) : IsAscii (clockText s) :=
  (isAscii_twoDigits _).append (IsAscii.cons (by decide)
    ((isAscii_twoDigits _).append (IsAscii.cons (by decide) (isAscii_twoDigits _))))

theorem isAscii_padded (n : Int) : IsAscii (padded 19 n) := by
  intro c hc
  obtain rfl | hDigit := mem_padded hc
  · decide
  · have hRange := toNat_of_isDigit hDigit
    omega

theorem isAscii_string (u : UUID) : IsAscii u.string := by
  intro c hc
  obtain rfl | ⟨d, rfl⟩ := UUID.mem_string hc
  · decide
  · have hSmall : ∀ d : Fin 16, (UUID.hexDigit d).toNat < 128 := by decide
    exact hSmall d

theorem colon_notMem_twoDigits (n : Nat) : ':' ∉ twoDigits n := by
  intro h
  exact absurd (isDigit_of_mem_zeroPad h) (by decide)

theorem twoDigits_injective {m n : Nat} (h : twoDigits m = twoDigits n) : m = n := by
  have hValue := congrArg value h
  rwa [twoDigits, twoDigits, value_zeroPad, value_zeroPad] at hValue

theorem clockText_injective {s t : Nat} (h : clockText s = clockText t) : s = t := by
  obtain ⟨hHour, hRest⟩ := field_injective (colon_notMem_twoDigits _) (colon_notMem_twoDigits _) h
  obtain ⟨hMinute, hSecond⟩ :=
    field_injective (colon_notMem_twoDigits _) (colon_notMem_twoDigits _) hRest
  have hHours := twoDigits_injective hHour
  have hMinutes := twoDigits_injective hMinute
  have hSeconds := twoDigits_injective hSecond
  omega

/-! ## Rows of built keys -/

theorem colon_notMem_encode {text : List Char} (h : ':' ∉ text) : colon ∉ encode text :=
  fun hMem => h ((mem_encode_iff (by decide) text).mp hMem)

theorem encode_field (a b : List Char) :
    encode (a ++ ':' :: b) = encode a ++ colon :: encode b := by
  rw [encode_append, encode_cons, encodeChar_of_ascii (by decide)]
  rfl

theorem encode_buildKey (nameSpace : String) (atTime : Int) (entityId : UUID) :
    encode (buildKey nameSpace atTime entityId) =
      encode "analysis".toList ++ colon :: (encode nameSpace.toList ++ colon ::
        (encode (padded 19 (unixNano atTime)) ++ colon :: encode entityId.string)) := by
  have hStem : buildKey nameSpace atTime entityId =
      "analysis".toList ++ ':' :: (nameSpace.toList ++ ':' :: (padded 19 (unixNano atTime) ++
        ':' :: entityId.string)) := by
    rw [buildKey_eq]
    rfl
  rw [hStem, encode_field, encode_field, encode_field]

/-- Whatever the key, the namespace that is shown has no colon. -/
theorem colon_notMem_nameSpace (localZone : Zone) (key val : List UInt8) :
    colon ∉ (defaultMapper localZone key val).nameSpace := by
  have hDefault : colon ∉ encode "default".toList := colon_notMem_encode (by decide)
  unfold defaultMapper
  split
  · rename_i hSplit
    refine Fields.notMem_of_mem_splitOn (l := key) ?_
    rw [hSplit]
    exact List.mem_cons_of_mem _ List.mem_cons_self
  · exact hDefault

theorem parseInt_stamp {atTime : Int} (h : 0 ≤ unixNano atTime) :
    parseInt (chars (encode (padded 19 (unixNano atTime)))) = some (unixNano atTime) := by
  have hHigh : unixNano atTime < 2 ^ 63 := by
    have hBound := @Int.bmod_lt atTime (2 ^ 64) (by decide)
    rw [unixNano]
    omega
  rw [(isAscii_padded _).chars_encode, padded_of_nonneg h, parseInt_zeroPad (by omega),
    Int.toNat_of_nonneg h]

theorem defaultMapper_buildKey (localZone : Zone) {nameSpace : String}
    (hName : ':' ∉ nameSpace.toList) {atTime : Int} (hTime : 0 ≤ unixNano atTime)
    (entityId : UUID) (val : List UInt8) :
    defaultMapper localZone (encode (buildKey nameSpace atTime entityId)) val =
      { defaultRow (encode (buildKey nameSpace atTime entityId)) val with
        nameSpace := encode nameSpace.toList
        timestamp := encode (formatClock localZone (unixNano atTime))
        entityId := encode (entityId.string.take 8) } := by
  have hSplit : (encode (buildKey nameSpace atTime entityId)).splitOn colon =
      [encode "analysis".toList, encode nameSpace.toList, encode (padded 19 (unixNano atTime)),
        encode entityId.string] := by
    rw [encode_buildKey,
      List.splitOn_append_cons_self_of_not_mem (colon_notMem_encode (by decide)),
      List.splitOn_append_cons_self_of_not_mem (colon_notMem_encode hName),
      List.splitOn_append_cons_self_of_not_mem (colon_notMem_encode (colon_notMem_padded _ _)),
      List.splitOn_eq_singleton (colon_notMem_encode (UUID.colon_notMem_string _))]
  have hLong : (encode entityId.string).length > 8 := by
    rw [(isAscii_string _).length_encode, UUID.length_string]
    decide
  simp only [defaultMapper, hSplit, parseInt_stamp hTime]
  rw [if_pos hLong, (isAscii_string _).take_encode]

/-- The inspector reads a key back exactly if the namespace has no colon and
the time of day is the same for the instant of the key in the inspector's zone.
The latter holds of every time before the year 2262 in that zone. -/
theorem defaultMapper_reads_back_iff (localZone zone : Zone) (nameSpace : String) {atTime : Int}
    (hTime : 0 ≤ unixNano atTime) (entityId : UUID) (val : List UInt8) :
    ReadsBack (defaultMapper localZone (encode (buildKey nameSpace atTime entityId)) val)
        nameSpace zone atTime entityId ↔
      ':' ∉ nameSpace.toList ∧
        secondOfDay zone atTime = secondOfDay localZone (unixNano atTime) := by
  constructor
  · intro h
    have hName : ':' ∉ nameSpace.toList := by
      have hShown := colon_notMem_nameSpace localZone
        (encode (buildKey nameSpace atTime entityId)) val
      rw [h.nameSpace] at hShown
      exact fun hColon => hShown ((mem_encode_iff (by decide) _).mpr hColon)
    have hStamp := h.timestamp
    rw [defaultMapper_buildKey localZone hName hTime] at hStamp
    have hText := congrArg chars hStamp
    rw [formatClock, formatClock, (isAscii_clockText _).chars_encode,
      (isAscii_clockText _).chars_encode] at hText
    exact ⟨hName, (clockText_injective hText).symm⟩
  · rintro ⟨hName, hClock⟩
    rw [defaultMapper_buildKey localZone hName hTime]
    refine ⟨rfl, ?_, rfl⟩
    rw [formatClock, formatClock, hClock]

def utc : Zone := fun _ => 0

theorem defaultMapper_reads_back_room :
    ReadsBack (defaultMapper utc (encode (buildKey "room-42" 86399000000005 UUID.nil)) [1, 2])
      "room-42" utc 86399000000005 UUID.nil :=
  (defaultMapper_reads_back_iff utc utc "room-42" (by decide) UUID.nil [1, 2]).mpr
    ⟨by decide, by decide⟩

/-- The documented namespace of a chat room is shown as `chat`. -/
theorem defaultMapper_splits_chat :
    ¬ ∀ (nameSpace : String) (atTime : Int) (entityId : UUID) (val : List UInt8),
      0 ≤ unixNano atTime →
      ReadsBack (defaultMapper utc (encode (buildKey nameSpace atTime entityId)) val)
        nameSpace utc atTime entityId := by
  intro hAlways
  have hName := (hAlways "chat:1" 5 UUID.nil [] (by decide)).nameSpace
  have hShown : (defaultMapper utc (encode (buildKey "chat:1" 5 UUID.nil)) []).nameSpace =
      encode "chat".toList := by decide +kernel
  rw [hShown] at hName
  exact absurd hName (by decide)

end ChatLab.Inspector
