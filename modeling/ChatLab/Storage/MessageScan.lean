import ChatLab.Storage.MessageRepository

/-!
# One page of a room

What `GetMessages` makes of the entries that lie below a cursor. The number of
messages of a page and its cursor are always those of the entries that it stands
for. The messages themselves are if the iterator has read all keys at or below
the one sought ahead; otherwise a page can show records that were read after
those it stands for.
-/

namespace ChatLab.Storage

open Foundation Foundation.Decimal Foundation.Lexicographic Foundation.Pagination

def DiskMessage.InRange (m : DiskMessage) : Prop := 0 ≤ m.atTime ∧ m.atTime < 2 ^ 63

instance (m : DiskMessage) : Decidable m.InRange :=
  inferInstanceAs (Decidable (0 ≤ m.atTime ∧ m.atTime < 2 ^ 63))

def messageEntry (m : DiskMessage) : Key × Value := (messageKey m, .message (fromDiskMessage m))

theorem messageEntry_injective : Function.Injective messageEntry := by
  intro a b h
  have hValue : fromDiskMessage a = fromDiskMessage b := by
    simpa [messageEntry] using (congrArg Prod.snd h)
  have hDecode := congrArg toDiskMessage hValue
  simpa using hDecode

theorem messageKey_eq (m : DiskMessage) :
    messageKey m = messageStem ++ (decimal m.room ++ ':' :: messageSuffix m) := by
  simp [messageKey, roomStem]

theorem messageKey_eq_iff {a b : DiskMessage} :
    messageKey a = messageKey b ↔
      a.room = b.room ∧ unixNano a.atTime = unixNano b.atTime ∧ a.id = b.id := by
  constructor
  · intro h
    rw [messageKey_eq, messageKey_eq] at h
    obtain ⟨hRoom, hSuffix⟩ := field_injective (colon_notMem_decimal _) (colon_notMem_decimal _)
      (List.append_cancel_left h)
    obtain ⟨hTime, hId⟩ :=
      field_injective (colon_notMem_padded _ _) (colon_notMem_padded _ _) hSuffix
    exact ⟨decimal_injective hRoom, padded_injective 19 hTime, UUID.string_injective hId⟩
  · rintro ⟨hRoom, hTime, hId⟩
    rw [messageKey, messageKey, messageSuffix, messageSuffix, hRoom, hTime, hId]

theorem room_of_isPrefix {room : Int} {m : DiskMessage}
    (h : (roomStem room).isPrefixOf (messageKey m) = true) : m.room = room := by
  obtain ⟨rest, hRest⟩ := List.isPrefixOf_iff_prefix.mp h
  rw [messageKey_eq, roomStem, List.append_assoc, List.append_assoc] at hRest
  have hFields : decimal room ++ ':' :: rest = decimal m.room ++ ':' :: messageSuffix m :=
    List.append_cancel_left hRest
  have hRoom := (field_injective (colon_notMem_decimal _) (colon_notMem_decimal _) hFields).1
  exact (decimal_injective hRoom).symm

theorem isPrefixOf_messageKey (m : DiskMessage) :
    (roomStem m.room).isPrefixOf (messageKey m) = true :=
  List.isPrefixOf_iff_prefix.mpr (List.prefix_append _ _)

theorem DiskMessage.InRange.nano_nonneg {m : DiskMessage} (h : m.InRange) :
    0 ≤ unixNano m.atTime := by
  rw [unixNano_eq_self h.1 h.2]
  exact h.1

theorem messageKey_le_seek (m : DiskMessage) :
    messageKey m ≤ roomStem m.room ++ lastTimestamp :=
  (append_le_append_iff _ _ _).mpr (timestamp_lt_last m.atTime m.id.string).le

theorem atTime_le_of_key_lt {a b : DiskMessage} (ha : a.InRange) (hb : b.InRange)
    (hRoom : a.room = b.room) (h : messageKey a < messageKey b) : a.atTime ≤ b.atTime := by
  rw [messageKey, messageKey, hRoom, append_lt_append_iff, messageSuffix, messageSuffix,
    timestamp_lt_iff ha.nano_nonneg hb.nano_nonneg, unixNano_eq_self ha.1 ha.2,
    unixNano_eq_self hb.1 hb.2] at h
  obtain hLt | ⟨hEq, _⟩ := h
  · exact hLt.le
  · exact hEq.le

/-! ## The store as the repository writes it -/

/-- The records under the stem of the messages are those of messages with the
property, under their own keys. -/
def Recorded (P : DiskMessage → Prop) (db : DB) : Prop :=
  ∀ e ∈ db.entries, messageStem.isPrefixOf e.1 = true → ∃ m : DiskMessage, P m ∧ e = messageEntry m

/-- Every record under the stem of the messages was written by `StoreMessage`. -/
def MessageStore (wire : Wire) : DB → Prop :=
  Recorded fun m => wire.marshals (fromDiskMessage m) = true

def MessagesKeyed (wire : Wire) : DB → Prop :=
  Recorded fun m => wire.marshals (fromDiskMessage m) = true ∧ m.InRange

theorem MessagesKeyed.messageStore {wire : Wire} {db : DB} (h : MessagesKeyed wire db) :
    MessageStore wire db := by
  intro e he hStem
  obtain ⟨m, ⟨hMarshals, _⟩, rfl⟩ := h e he hStem
  exact ⟨m, hMarshals, rfl⟩

theorem recorded_of_foreign {P : DiskMessage → Prop} {base : DB}
    (h : ∀ k ∈ base.keys, messageStem.isPrefixOf k = false) : Recorded P base := by
  intro e he hStem
  rw [h e.1 (List.mem_map_of_mem he)] at hStem
  cases hStem

theorem Recorded.insert {P : DiskMessage → Prop} {db : DB} (h : Recorded P db) {m : DiskMessage}
    (hm : P m) : Recorded P (db.insert (messageKey m) (.message (fromDiskMessage m))) := by
  intro e he hStem
  obtain rfl | ⟨he, _⟩ := (db.mem_insert _ _ e).mp he
  · exact ⟨m, hm, rfl⟩
  · exact h e he hStem

section Sequences

variable (marshals : MessagePb → Bool)

def storeEach (db : DB) : List DiskMessage → DB
  | [] => db
  | m :: ms =>
    match storeMessage marshals db m with
    | .ok next => storeEach next ms
    | .error _ => storeEach db ms

theorem storeEach_cases (db : DB) (m : DiskMessage) (ms : List DiskMessage) :
    storeEach marshals db (m :: ms) = storeEach marshals db ms ∨
      marshals (fromDiskMessage m) = true ∧ storeEach marshals db (m :: ms) =
        storeEach marshals (db.insert (messageKey m) (.message (fromDiskMessage m))) ms := by
  simp only [storeEach, storeMessage]
  split
  · rename_i hOk
    split at hOk
    · rename_i hMarshals
      exact .inr ⟨hMarshals, by rw [Except.ok.inj hOk]⟩
    · cases hOk
  · exact .inl rfl

variable {marshals}

theorem Recorded.storeEach {P : DiskMessage → Prop} {db : DB} (h : Recorded P db)
    {ms : List DiskMessage} (hms : ∀ m ∈ ms, marshals (fromDiskMessage m) = true → P m) :
    Recorded P (storeEach marshals db ms) := by
  induction ms generalizing db with
  | nil => exact h
  | cons m ms ih =>
    have hRest : ∀ x ∈ ms, marshals (fromDiskMessage x) = true → P x :=
      fun x hx => hms x (List.mem_cons_of_mem _ hx)
    obtain hEq | ⟨hMarshals, hEq⟩ := storeEach_cases marshals db m ms
    · rw [hEq]
      exact ih h hRest
    · rw [hEq]
      exact ih (h.insert (hms m List.mem_cons_self hMarshals)) hRest

theorem storeEach_keys (db : DB) (ms : List DiskMessage) {k : Key} (hk : k ∈ db.keys) :
    k ∈ (storeEach marshals db ms).keys := by
  induction ms generalizing db with
  | nil => exact hk
  | cons m ms ih =>
    obtain hEq | ⟨_, hEq⟩ := storeEach_cases marshals db m ms
    · rw [hEq]
      exact ih db hk
    · rw [hEq]
      exact ih _ ((db.mem_keys_insert _ _ _).mpr (.inr hk))

theorem storeEach_get? (db : DB) (ms : List DiskMessage) {k : Key}
    (hk : ∀ m ∈ ms, messageKey m ≠ k) : (storeEach marshals db ms).get? k = db.get? k := by
  induction ms generalizing db with
  | nil => rfl
  | cons m ms ih =>
    have hRest : ∀ x ∈ ms, messageKey x ≠ k := fun x hx => hk x (List.mem_cons_of_mem _ hx)
    obtain hEq | ⟨_, hEq⟩ := storeEach_cases marshals db m ms
    · rw [hEq, ih db hRest]
    · rw [hEq, ih _ hRest, db.get?_insert_of_ne _ (hk m List.mem_cons_self).symm]

end Sequences

theorem MessagesKeyed.storeEach {wire : Wire} {db : DB} (h : MessagesKeyed wire db)
    {ms : List DiskMessage} (hms : ∀ m ∈ ms, m.InRange) :
    MessagesKeyed wire (storeEach wire.marshals db ms) :=
  Recorded.storeEach h fun m hm hMarshals => ⟨hMarshals, hms m hm⟩

def roomScope (room : Int) (k : Key) : Bool := (roomStem room).isPrefixOf k

theorem messageStem_of_roomScope {room : Int} {k : Key} (h : roomScope room k = true) :
    messageStem.isPrefixOf k = true := by
  have hRoom := List.isPrefixOf_iff_prefix.mp h
  exact List.isPrefixOf_iff_prefix.mpr ((List.prefix_append _ _).trans hRoom)

/-! ## The loop -/

/-- A negative limit is never met. -/
def pageLimit (limit : Option Int) : Option Nat :=
  limit.bind fun n => if n < 0 then none else some n.toNat

theorem pageLimit_eq {limit : Option Int} (h : ∀ n ∈ limit, 1 ≤ n) :
    pageLimit limit = limit.map Int.toNat := by
  cases limit with
  | none => rfl
  | some n =>
    have hPos := h n rfl
    rw [pageLimit, Option.bind_some, if_neg (by omega), Option.map_some]

/-- The test of the loop. -/
theorem pageLimit_eq_some_iff {limit : Option Int} {n : Nat} :
    pageLimit limit = some n ↔ limit = some (n : Int) := by
  cases limit with
  | none => simp [pageLimit]
  | some m =>
    simp only [pageLimit, Option.bind_some, Option.some.injEq]
    split
    · simp only [reduceCtorEq, false_iff]
      omega
    · rw [Option.some.injEq]
      omega

section Loop

variable {stem : Key} {it : PrefetchIterator Key UInt8}

theorem collectMessages_from {limit : Option Int} {acc : List Slice}
    (hAcc : ∀ n ∈ pageLimit limit, acc.length ≤ n) (turns : Nat) (lastKey : Key) :
    (collectMessages limit stem turns it acc lastKey).2 =
      (acc ++ (takeLimit ((pageLimit limit).map (· - acc.length))
          ((it.visits turns).takeWhile fun e => stem.isPrefixOf e.1)).map Prod.snd,
        lastSuffix stem lastKey (takeLimit ((pageLimit limit).map (· - acc.length))
          ((it.visits turns).takeWhile fun e => stem.isPrefixOf e.1))) := by
  induction turns generalizing it acc lastKey with
  | zero => simp [collectMessages, PrefetchIterator.visits]
  | succ turns ih =>
    cases hItem : it.item with
    | none => simp [collectMessages, PrefetchIterator.visits, hItem]
    | some e =>
      cases hStem : stem.isPrefixOf e.1 with
      | false => simp [collectMessages, PrefetchIterator.visits, hItem, hStem]
      | true =>
        rw [PrefetchIterator.visits, hItem, List.takeWhile_cons_of_pos (by simpa using hStem)]
        simp only [collectMessages, hItem, hStem, if_true, ← pageLimit_eq_some_iff]
        by_cases hFull : pageLimit limit = some acc.length
        · simp [hFull, takeLimit]
        · have hRoom : ∀ n ∈ pageLimit limit, acc.length < n := by
            intro n hn
            refine Nat.lt_of_le_of_ne (hAcc n hn) ?_
            rintro rfl
            exact hFull hn
          have hNext : (acc ++ [e.2]).length = acc.length + 1 := List.length_append
          rw [if_neg hFull, ih (by rwa [hNext]), takeLimit_cons hRoom, lastSuffix_cons, hNext]
          simp

variable (stem it) in
theorem collectMessages_eq (limit : Option Int) (turns : Nat) :
    (collectMessages limit stem turns it [] []).2 =
      ((takeLimit (pageLimit limit)
          ((it.visits turns).takeWhile fun e => stem.isPrefixOf e.1)).map Prod.snd,
        lastSuffix stem [] (takeLimit (pageLimit limit)
          ((it.visits turns).takeWhile fun e => stem.isPrefixOf e.1))) := by
  have hStart : ∀ n ∈ pageLimit limit, ([] : List Slice).length ≤ n := fun n _ => Nat.zero_le n
  rw [collectMessages_from hStart]
  simp

/-- Once the source is exhausted, no buffer is filled again. -/
theorem collectMessages_heap (hSource : it.source = []) (limit : Option Int) (turns : Nat)
    (acc : List Slice) (lastKey : Key) :
    (collectMessages limit stem turns it acc lastKey).1 = it.heap := by
  induction turns generalizing it acc lastKey with
  | zero => rfl
  | succ turns ih =>
    obtain ⟨hNext, hHeap⟩ := PrefetchIterator.next_of_source_nil hSource
    rw [collectMessages]
    split
    · rfl
    · split
      · split
        · rfl
        · rw [ih hNext, hHeap]
      · rfl

end Loop

/-! ## The iterator -/

/-- All entries at or below the key sought are read ahead by the seek. -/
def Prefetched (db : DB) (room : Int) (cursor : Option Key) : Prop :=
  (db.descendingFrom (seekKey (roomStem room) cursor)).length ≤ prefetchSize

instance (db : DB) (room : Int) (cursor : Option Key) : Decidable (Prefetched db room cursor) :=
  inferInstanceAs (Decidable (_ ≤ _))

theorem Prefetched.below {db : DB} {room : Int} {cursor : Option Key}
    (h : Prefetched db room cursor) {c : Key}
    (hc : roomStem room ++ c ≤ seekKey (roomStem room) cursor) : Prefetched db room (some c) :=
  (db.length_descendingFrom_le hc).trans h

section Iterator

variable (wire : Wire) (db : DB) (stem : Key) (cursor : Option Key)

theorem map_fst_recordBytes (l : List (Key × Value)) :
    (l.map (recordBytes wire)).map Prod.fst = l.map Prod.fst := by
  rw [List.map_map]
  rfl

theorem validForPrefix_eq (it : List (Key × Value)) :
    validForPrefix stem it = (it.map Prod.fst).head?.any fun k => stem.isPrefixOf k := by
  cases it <;> rfl

theorem seekIterator_spec (key : Key) :
    (seekIterator wire db key).Ready ∧
      (seekIterator wire db key).keys = (db.descendingFrom key).map Prod.fst := by
  have hSeek := PrefetchIterator.seek_spec (show 0 < prefetchSize by decide)
    ((db.descendingFrom key).map (recordBytes wire))
  rwa [map_fst_recordBytes] at hSeek

/-- The iterator has made the `Next` after the seek when the list of its entries
has dropped the first one. -/
theorem messageIterator_cases :
    messageIterator wire db stem cursor = seekIterator wire db (seekKey stem cursor) ∧
        reverseIterator db stem cursor = db.descendingFrom (seekKey stem cursor) ∨
      messageIterator wire db stem cursor = (seekIterator wire db (seekKey stem cursor)).next ∧
        reverseIterator db stem cursor = (db.descendingFrom (seekKey stem cursor)).tail := by
  obtain ⟨hReady, hKeys⟩ := seekIterator_spec wire db (seekKey stem cursor)
  have hValid : ((seekIterator wire db (seekKey stem cursor)).item.any fun e =>
      stem.isPrefixOf e.1) = validForPrefix stem (db.descendingFrom (seekKey stem cursor)) := by
    rw [validForPrefix_eq, ← hKeys, ← hReady.key_item, Option.any_map]
  simp only [messageIterator, reverseIterator, hValid]
  split
  · exact .inr ⟨rfl, rfl⟩
  · exact .inl ⟨rfl, rfl⟩

theorem messageIterator_spec :
    (messageIterator wire db stem cursor).Ready ∧
      (messageIterator wire db stem cursor).keys =
        (reverseIterator db stem cursor).map Prod.fst := by
  obtain ⟨hReady, hKeys⟩ := seekIterator_spec wire db (seekKey stem cursor)
  obtain ⟨hIterator, hList⟩ | ⟨hIterator, hList⟩ := messageIterator_cases wire db stem cursor
  · rw [hIterator, hList]
    exact ⟨hReady, hKeys⟩
  · obtain ⟨hNext, hTail⟩ := hReady.next
    rw [hIterator, hList, hTail, hKeys, List.map_tail]
    exact ⟨hNext, rfl⟩

theorem messageIterator_of_length_le
    (h : (db.descendingFrom (seekKey stem cursor)).length ≤ prefetchSize) :
    (messageIterator wire db stem cursor).source = [] ∧
      (messageIterator wire db stem cursor).shown =
        (reverseIterator db stem cursor).map (recordBytes wire) := by
  have hReady := (seekIterator_spec wire db (seekKey stem cursor)).1
  obtain ⟨hSource, hShown⟩ : (seekIterator wire db (seekKey stem cursor)).source = [] ∧
      (seekIterator wire db (seekKey stem cursor)).shown =
        (db.descendingFrom (seekKey stem cursor)).map (recordBytes wire) :=
    PrefetchIterator.seek_of_length_le (by rwa [List.length_map])
  obtain ⟨hIterator, hList⟩ | ⟨hIterator, hList⟩ := messageIterator_cases wire db stem cursor
  · rw [hIterator, hList]
    exact ⟨hSource, hShown⟩
  · rw [hIterator, hList, hReady.shown_next hSource, hShown, List.map_tail]
    exact ⟨(PrefetchIterator.next_of_source_nil hSource).1, rfl⟩

end Iterator

/-! ## One page -/

/-- What the iterator of `GetMessages` shows of the room, before the limit. -/
def visible (db : DB) (room : Int) (cursor : Option Key) : List (Key × Value) :=
  (reverseIterator db (roomStem room) cursor).takeWhile fun e => (roomStem room).isPrefixOf e.1

theorem mem_visible {db : DB} {room : Int} {cursor : Option Key} {e : Key × Value}
    (h : e ∈ visible db room cursor) :
    e ∈ db.entries ∧ roomScope room e.1 = true ∧ e.1 ≤ seekKey (roomStem room) cursor := by
  obtain ⟨hMem, hLe⟩ := mem_reverseIterator ((List.takeWhile_sublist _).mem h)
  exact ⟨hMem, List.all_eq_true.mp List.all_takeWhile e h, hLe⟩

/-- The entries that a page stands for. -/
def pageEntries (limit : Option Int) (db : DB) (room : Int) (cursor : Option Key) :
    List (Key × Value) :=
  takeLimit (pageLimit limit) (visible db room cursor)

/-- Slices that nothing was written over show the entries of the iterator. -/
theorem values_of_source_nil {it : PrefetchIterator Key UInt8} (hReady : it.Ready)
    (hSource : it.source = []) (limit : Option Nat) (stem : Key) :
    (takeLimit limit ((it.visits it.keys.length).takeWhile fun e => stem.isPrefixOf e.1)).map
        (fun e => it.heap.read e.2) =
      (takeLimit limit (it.shown.takeWhile fun e => stem.isPrefixOf e.1)).map Prod.snd := by
  rw [hReady.visits_eq_slots hSource rfl, PrefetchIterator.shown, takeLimit_takeWhile_map,
    List.map_map]
  rfl

/-- The transaction keeps as many values as the page stands for, and the last of
its keys. If all entries were read ahead, the values are those of the entries. -/
theorem readMessages_spec (wire : Wire) (limit : Option Int) (db : DB) (room : Int)
    (cursor : Option Key) :
    ∃ values : List (List UInt8),
      readMessages wire limit db room cursor =
        (values, lastSuffix (roomStem room) [] (pageEntries limit db room cursor)) ∧
      values.length = (pageEntries limit db room cursor).length ∧
      (Prefetched db room cursor →
        values = (pageEntries limit db room cursor).map fun e => wire.bytes e.2) := by
  obtain ⟨hReady, hKeys⟩ := messageIterator_spec wire db (roomStem room) cursor
  generalize hIt : messageIterator wire db (roomStem room) cursor = it at hReady hKeys
  -- the entries that the loop stood at, with the slices that it kept
  generalize hTaken : takeLimit (pageLimit limit) ((it.visits it.keys.length).takeWhile fun e =>
    (roomStem room).isPrefixOf e.1) = taken
  have hLoop := collectMessages_eq (roomStem room) it limit it.keys.length
  rw [hTaken] at hLoop
  have hTakenKeys : taken.map Prod.fst = (pageEntries limit db room cursor).map Prod.fst := by
    rw [← hTaken, ← takeLimit_takeWhile_map, hReady.keys_visits rfl, hKeys,
      takeLimit_takeWhile_map]
    rfl
  cases hCollect : collectMessages limit (roomStem room) it.keys.length it [] [] with
  | mk heap kept =>
    rw [hCollect] at hLoop
    obtain rfl : kept = (taken.map Prod.snd, lastSuffix (roomStem room) [] taken) := hLoop
    refine ⟨(taken.map Prod.snd).map heap.read, ?_, ?_, ?_⟩
    · rw [readMessages, hIt, hCollect, lastSuffix_congr hTakenKeys]
    · have hLength := congrArg List.length hTakenKeys
      rwa [List.length_map, List.length_map] at hLength ⊢
    · intro hAhead
      obtain ⟨hSource, hShown⟩ :=
        messageIterator_of_length_le wire db (roomStem room) cursor hAhead
      rw [hIt] at hSource hShown
      have hHeap : heap = it.heap := by
        rw [← collectMessages_heap hSource limit it.keys.length [] [], hCollect]
      rw [hHeap, List.map_map, ← hTaken]
      refine (values_of_source_nil hReady hSource (pageLimit limit) (roomStem room)).trans ?_
      rw [hShown, takeLimit_takeWhile_map, List.map_map]
      rfl

theorem readMessages_of_prefetched {db : DB} {room : Int} {cursor : Option Key}
    (h : Prefetched db room cursor) (wire : Wire) (limit : Option Int) :
    readMessages wire limit db room cursor =
      ((pageEntries limit db room cursor).map fun e => wire.bytes e.2,
        lastSuffix (roomStem room) [] (pageEntries limit db room cursor)) := by
  obtain ⟨values, hRead, _, hValues⟩ := readMessages_spec wire limit db room cursor
  rw [hRead, hValues h]

/-- The cursor of a page names the last key that it stands for. -/
theorem getMessages_cursor {wire : Wire} {limit : Option Int} {db : DB} {room : Int}
    {cursor : Option Key} {ms : List DiskMessage} {c : Key}
    (h : getMessages wire limit db room cursor = .ok (ms, c)) :
    ms = [] ∧ c = [] ∧ pageEntries limit db room cursor = [] ∨
      ∃ last, (pageEntries limit db room cursor).getLast? = some last ∧
        last ∈ visible db room cursor ∧ roomStem room ++ c = last.1 := by
  obtain ⟨values, hRead, hLength, _⟩ := readMessages_spec wire limit db room cursor
  rw [getMessages, hRead] at h
  cases hDecode : values.mapM (decodeMessage wire) with
  | error e =>
    simp only [hDecode] at h
    cases h
  | ok messages =>
    simp only [hDecode] at h
    obtain ⟨rfl, rfl⟩ := Prod.mk.inj (Except.ok.inj h)
    cases hLast : (pageEntries limit db room cursor).getLast? with
    | none =>
      have hPage := List.getLast?_eq_none_iff.mp hLast
      rw [hPage] at hLength
      rw [List.eq_nil_of_length_eq_zero hLength] at hDecode
      exact .inl ⟨(Except.ok.inj hDecode).symm, by rw [hPage]; rfl, hPage⟩
    | some last =>
      have hVisible := mem_of_mem_takeLimit (List.mem_of_getLast? hLast)
      refine .inr ⟨last, rfl, hVisible, ?_⟩
      exact append_lastSuffix hLast (mem_visible hVisible).2.1 []

theorem getMessages_cursor_le {wire : Wire} {limit : Option Int} {db : DB} {room : Int}
    {cursor : Option Key} {ms : List DiskMessage} {c : Key}
    (h : getMessages wire limit db room cursor = .ok (ms, c)) :
    roomStem room ++ c ≤ seekKey (roomStem room) cursor := by
  obtain ⟨_, rfl, _⟩ | ⟨last, _, hVisible, hKey⟩ := getMessages_cursor h
  · rw [List.append_nil]
    cases cursor with
    | none => exact le_append _ _
    | some c => exact le_append _ _
  · rw [hKey]
    exact (mem_visible hVisible).2.2

theorem getMessages_of_pageEntries_nil {wire : Wire} {limit : Option Int} {db : DB} {room : Int}
    {cursor : Option Key} (h : pageEntries limit db room cursor = []) :
    getMessages wire limit db room cursor = .ok ([], []) := by
  obtain ⟨values, hRead, hLength, _⟩ := readMessages_spec wire limit db room cursor
  rw [h] at hRead hLength
  rw [List.eq_nil_of_length_eq_zero hLength] at hRead
  rw [getMessages, hRead]
  rfl

theorem mapM_decodeMessage (wire : Wire) {ms : List DiskMessage}
    (hms : ∀ m ∈ ms, wire.marshals (fromDiskMessage m) = true) :
    ((ms.map messageEntry).map fun e => wire.bytes e.2).mapM (decodeMessage wire) = .ok ms := by
  induction ms with
  | nil => rfl
  | cons m ms ih =>
    have hHead : decodeMessage wire (wire.bytes (messageEntry m).2) = .ok m := by
      simp [messageEntry, decodeMessage, wire.unmarshal_bytes _ (hms m List.mem_cons_self)]
    rw [List.map_cons, List.map_cons, List.mapM_cons, hHead,
      ih fun d hd => hms d (List.mem_cons_of_mem _ hd)]
    rfl

/-- A page is decoded if its values are those of messages, whichever they are. -/
theorem getMessages_of_readMessages {wire : Wire} {limit : Option Int} {db : DB} {room : Int}
    {cursor : Option Key} {ms : List DiskMessage} {lastKey : Key}
    (hms : ∀ m ∈ ms, wire.marshals (fromDiskMessage m) = true)
    (hRead : readMessages wire limit db room cursor =
      ((ms.map messageEntry).map fun e => wire.bytes e.2, lastKey)) :
    getMessages wire limit db room cursor = .ok (ms, lastKey) := by
  simp only [getMessages, hRead, mapM_decodeMessage wire hms]

theorem exists_messages {P : DiskMessage → Prop} {l : List (Key × Value)}
    (h : ∀ e ∈ l, ∃ m : DiskMessage, P m ∧ e = messageEntry m) :
    ∃ ms : List DiskMessage, l = ms.map messageEntry ∧ ∀ m ∈ ms, P m := by
  induction l with
  | nil => exact ⟨[], rfl, by simp⟩
  | cons e l ih =>
    obtain ⟨m, hm, rfl⟩ := h e List.mem_cons_self
    obtain ⟨ms, rfl, hms⟩ := ih fun d hd => h d (List.mem_cons_of_mem _ hd)
    exact ⟨m :: ms, rfl, List.forall_mem_cons.mpr ⟨hm, hms⟩⟩

theorem Recorded.pageEntries {P : DiskMessage → Prop} {db : DB} (h : Recorded P db)
    (limit : Option Int) (room : Int) (cursor : Option Key) :
    ∃ ms : List DiskMessage, pageEntries limit db room cursor = ms.map messageEntry ∧
      ∀ m ∈ ms, P m := by
  refine exists_messages fun e he => ?_
  obtain ⟨hMem, hScope, _⟩ := mem_visible (mem_of_mem_takeLimit he)
  exact h e hMem (messageStem_of_roomScope hScope)

/-- The page of a message store, when all of it was read ahead. -/
theorem MessageStore.getMessages {wire : Wire} {db : DB} (h : MessageStore wire db) {room : Int}
    {cursor : Option Key} (hAhead : Prefetched db room cursor) (limit : Option Int) :
    ∃ ms : List DiskMessage, pageEntries limit db room cursor = ms.map messageEntry ∧
      Storage.getMessages wire limit db room cursor =
        .ok (ms, lastSuffix (roomStem room) [] (ms.map messageEntry)) := by
  obtain ⟨ms, hPage, hMarshals⟩ := h.pageEntries limit room cursor
  have hRead := readMessages_of_prefetched hAhead wire limit
  rw [hPage] at hRead
  exact ⟨ms, hPage, getMessages_of_readMessages hMarshals hRead⟩

theorem MessagesKeyed.iterator {wire : Wire} {db : DB} (h : MessagesKeyed wire db) (room : Int)
    (cursor : Option Key) (hCursor : ∀ c ∈ cursor, roomStem room ++ c ∈ db.keys) :
    ((reverseIterator db (roomStem room) cursor).takeWhile fun e =>
      (roomStem room).isPrefixOf e.1) =
      unread db (roomScope room) (cursor.map fun c => roomStem room ++ c) := by
  cases cursor with
  | none =>
    rw [takeWhile_reverseIterator_none, scanFrom_eq, unread]
    congr 1
    refine List.filter_congr ?_
    intro e he
    cases hScope : roomScope room e.1 with
    | false =>
      have hStem : (roomStem room).isPrefixOf e.1 = false := hScope
      rw [hStem, Bool.false_and, Bool.false_and]
    | true =>
      have hStem : (roomStem room).isPrefixOf e.1 = true := hScope
      obtain ⟨m, _, rfl⟩ := h e he (messageStem_of_roomScope hScope)
      have hRoom : m.room = room := room_of_isPrefix hStem
      have hSeek := messageKey_le_seek m
      rw [hRoom] at hSeek
      have hKey : (messageEntry m).1 ≤ roomStem room ++ lastTimestamp := hSeek
      rw [hStem, decide_eq_true hKey]
      rfl
  | some c => exact takeWhile_reverseIterator_some (hCursor c rfl)

/-- A page of a keyed store stands for the next unread entries of the room. -/
theorem MessagesKeyed.pageEntries_eq {wire : Wire} {db : DB} (h : MessagesKeyed wire db)
    {limit : Option Int} (hLimit : ∀ n ∈ limit, 1 ≤ n) (room : Int) (cursor : Option Key)
    (hCursor : ∀ c ∈ cursor, roomStem room ++ c ∈ db.keys) :
    pageEntries limit db room cursor = takeLimit (limit.map Int.toNat)
      (unread db (roomScope room) (cursor.map fun c => roomStem room ++ c)) := by
  rw [pageEntries, visible, h.iterator room cursor hCursor, pageLimit_eq hLimit]

end ChatLab.Storage
