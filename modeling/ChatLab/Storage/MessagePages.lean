import ChatLab.Storage.MessageScan

/-!
# Reading a room page by page

The pages of `GetMessages` are the pages of a session over the sorted store,
scoped to the room's stem. What the repository adds to the general theory is
that its keys determine room, time and identifier, that the nineteen nines lie
above every timestamp, and that the returned cursor is the last key delivered.
A page shows the messages of the session while the iterator can read all keys
at or below the one sought ahead.
-/

namespace ChatLab.Storage

open Foundation Foundation.Decimal Foundation.Lexicographic Foundation.Pagination

/-- A reader follows the returned cursors to the first empty page, while other
writers store messages between two pages. Each page is read while the keys at
or below the one sought can all be read ahead. -/
inductive Reading (wire : Wire) (limit : Option Int) (room : Int) :
    DB → Option Key → List (List DiskMessage) → List DiskMessage → Prop
  | stop {db : DB} {cursor : Option Key} {c : Key} :
      Prefetched db room cursor → getMessages wire limit db room cursor = .ok ([], c) →
      Reading wire limit room db cursor [] []
  | page {db : DB} {cursor : Option Key} {ms : List DiskMessage} {c : Key}
      {written later : List DiskMessage} {rest : List (List DiskMessage)} :
      Prefetched db room cursor → getMessages wire limit db room cursor = .ok (ms, c) → ms ≠ [] →
      Reading wire limit room (storeEach wire.marshals db written) (some c) rest later →
      Reading wire limit room db cursor (ms :: rest) (written ++ later)

variable {wire : Wire} {limit : Option Int} {room : Int}

theorem MessagesKeyed.page_cases {db : DB} (h : MessagesKeyed wire db)
    (hLimit : ∀ n ∈ limit, 1 ≤ n) {cursor : Option Key}
    (hCursor : ∀ c ∈ cursor, roomStem room ++ c ∈ db.keys) (hAhead : Prefetched db room cursor)
    {ms : List DiskMessage} {c : Key}
    (hPage : getMessages wire limit db room cursor = .ok (ms, c)) :
    takeLimit (limit.map Int.toNat)
        (unread db (roomScope room) (cursor.map fun c => roomStem room ++ c)) =
          ms.map messageEntry ∧
      (∀ m ∈ ms, m.InRange ∧ messageEntry m ∈ db.entries) ∧
      (ms ≠ [] → ∃ last, (ms.map messageEntry).getLast? = some last ∧
        roomStem room ++ c = last.1 ∧ last.1 ∈ db.keys) := by
  obtain ⟨ms', hEntries, hGet⟩ := h.messageStore.getMessages hAhead limit
  have hSame := hPage.symm.trans hGet
  obtain rfl : ms = ms' := (Prod.mk.inj (Except.ok.inj hSame)).1
  refine ⟨(h.pageEntries_eq hLimit room cursor hCursor).symm.trans hEntries, ?_, ?_⟩
  · intro m hm
    have hEntry : messageEntry m ∈ pageEntries limit db room cursor := by
      rw [hEntries]
      exact List.mem_map_of_mem hm
    obtain ⟨hMem, hScope, _⟩ := mem_visible (mem_of_mem_takeLimit hEntry)
    obtain ⟨m', ⟨_, hRange⟩, hEq⟩ := h _ hMem (messageStem_of_roomScope hScope)
    exact ⟨messageEntry_injective hEq ▸ hRange, hMem⟩
  · intro hNonempty
    obtain ⟨hNil, _⟩ | ⟨last, hLast, hVisible, hKey⟩ := getMessages_cursor hPage
    · exact absurd hNil hNonempty
    · rw [hEntries] at hLast
      exact ⟨last, hLast, hKey, List.mem_map_of_mem (mem_visible hVisible).1⟩

/-- The cursor of a page names a stored key, whatever is stored after the page. -/
theorem cursor_stored {db : DB} {c k : Key} (hSeek : roomStem room ++ c = k) (hStored : k ∈ db.keys)
    (written : List DiskMessage) :
    ∀ c' ∈ some c, roomStem room ++ c' ∈ (storeEach wire.marshals db written).keys := by
  intro c' hc'
  obtain rfl := Option.mem_some_iff.mp hc'
  rw [hSeek]
  exact storeEach_keys db written hStored

theorem Reading.session {db : DB} {cursor : Option Key} {pages : List (List DiskMessage)}
    {later : List DiskMessage} (h : Reading wire limit room db cursor pages later)
    (hLimit : ∀ n ∈ limit, 1 ≤ n) (hKeyed : MessagesKeyed wire db) (hLater : ∀ m ∈ later, m.InRange)
    (hCursor : ∀ c ∈ cursor, roomStem room ++ c ∈ db.keys) :
    Session (roomScope room) (limit.map Int.toNat) db (cursor.map fun c => roomStem room ++ c)
        (pages.map (List.map messageEntry)) ∧
      ∀ m ∈ pages.flatten, m.InRange := by
  induction h with
  | stop hAhead hPage =>
    obtain ⟨hTake, _, _⟩ := hKeyed.page_cases hLimit hCursor hAhead hPage
    exact ⟨.stop hTake, by simp⟩
  | @page db cursor ms c written later rest hAhead hPage hNonempty hRest ih =>
    obtain ⟨hTake, hRange, hLast⟩ := hKeyed.page_cases hLimit hCursor hAhead hPage
    obtain ⟨last, hLast, hSeek, hStored⟩ := hLast hNonempty
    have hWritten : ∀ m ∈ written, m.InRange := fun m hm => hLater m (List.mem_append_left _ hm)
    obtain ⟨hSession, hAll⟩ := ih (hKeyed.storeEach hWritten)
      (fun m hm => hLater m (List.mem_append_right _ hm)) (cursor_stored hSeek hStored written)
    rw [Option.map_some, hSeek] at hSession
    refine ⟨.page hTake hLast (fun k hk => storeEach_keys db written hk) hSession, ?_⟩
    · intro m hm
      obtain hm | hm := List.mem_append.mp hm
      · exact (hRange m hm).1
      · exact hAll m hm

theorem Reading.delivered_eq {db : DB} {cursor : Option Key} {pages : List (List DiskMessage)}
    {later : List DiskMessage} (h : Reading wire limit room db cursor pages later)
    (hLimit : ∀ n ∈ limit, 1 ≤ n) (hKeyed : MessagesKeyed wire db) (hLater : ∀ m ∈ later, m.InRange)
    (hCursor : ∀ c ∈ cursor, roomStem room ++ c ∈ db.keys) {m : DiskMessage}
    (hm : messageEntry m ∈ db.entries) (hKept : ∀ w ∈ later, messageKey w ≠ messageKey m)
    {d : DiskMessage} (hd : d ∈ pages.flatten) (hKey : messageKey d = messageKey m) : d = m := by
  induction h with
  | stop => simp at hd
  | @page db cursor ms c written later rest hAhead hPage hNonempty hRest ih =>
    obtain ⟨_, hRange, hLast⟩ := hKeyed.page_cases hLimit hCursor hAhead hPage
    obtain ⟨last, _, hSeek, hStored⟩ := hLast hNonempty
    obtain hd | hd := List.mem_append.mp hd
    · have hEntry : (messageKey m, (messageEntry d).2) ∈ db.entries := hKey ▸ (hRange d hd).2
      exact messageEntry_injective (Prod.ext hKey (db.value_unique hEntry hm))
    · have hWritten : ∀ w ∈ written, messageKey w ≠ messageKey m :=
        fun w hw => hKept w (List.mem_append_left _ hw)
      refine ih (hKeyed.storeEach fun w hw => hLater w (List.mem_append_left _ hw))
        (fun w hw => hLater w (List.mem_append_right _ hw)) (cursor_stored hSeek hStored written) ?_
        (fun w hw => hKept w (List.mem_append_right _ hw)) hd
      have hGet := db.get?_eq_some_iff.mpr hm
      exact OrderedMap.get?_eq_some_iff _ |>.mp ((storeEach_get? db written hWritten).trans hGet)

theorem Reading.exists_of_static {db : DB} (hKeyed : MessagesKeyed wire db)
    (hLimit : ∀ n ∈ limit, 1 ≤ n) (cursor : Option Key)
    (hCursor : ∀ c ∈ cursor, roomStem room ++ c ∈ db.keys) (hAhead : Prefetched db room cursor) :
    ∃ pages, Reading wire limit room db cursor pages [] := by
  induction hn : (unread db (roomScope room) (cursor.map fun c => roomStem room ++ c)).length
    using Nat.strong_induction_on generalizing cursor with
  | _ n ih =>
    obtain ⟨ms, _, hGet⟩ := hKeyed.messageStore.getMessages hAhead limit
    obtain rfl | hNonempty := eq_or_ne ms []
    · exact ⟨[], .stop hAhead hGet⟩
    · obtain ⟨hTake, _, hLast⟩ := hKeyed.page_cases hLimit hCursor hAhead hGet
      obtain ⟨last, hLast, hSeek, hStored⟩ := hLast hNonempty
      have hUnread : last ∈ unread db (roomScope room) (cursor.map fun c => roomStem room ++ c) :=
        mem_of_mem_takeLimit (hTake ▸ List.mem_of_getLast? hLast)
      have hShorter := length_unread_lt hUnread
      rw [hn, ← hSeek] at hShorter
      obtain ⟨rest, hRest⟩ := ih _ hShorter
        (some (lastSuffix (roomStem room) [] (ms.map messageEntry)))
        (fun c hc => Option.mem_some_iff.mp hc ▸ hSeek ▸ hStored)
        (hAhead.below (getMessages_cursor_le hGet)) rfl
      have hNext : Reading wire limit room (storeEach wire.marshals db []) _ rest [] := hRest
      exact ⟨ms :: rest, .page hAhead hGet hNonempty hNext⟩

def DiskMessage.SameMessage (a b : DiskMessage) : Prop :=
  a.room = b.room ∧ a.atTime = b.atTime ∧ a.id = b.id

instance (a b : DiskMessage) : Decidable (a.SameMessage b) :=
  inferInstanceAs (Decidable (a.room = b.room ∧ a.atTime = b.atTime ∧ a.id = b.id))

theorem messageKey_eq_iff_sameMessage {a b : DiskMessage} (ha : a.InRange) (hb : b.InRange) :
    messageKey a = messageKey b ↔ a.SameMessage b := by
  rw [messageKey_eq_iff, unixNano_eq_self ha.1 ha.2, unixNano_eq_self hb.1 hb.2,
    DiskMessage.SameMessage]

theorem Reading.descending {db : DB} {pages : List (List DiskMessage)} {later : List DiskMessage}
    (h : Reading wire limit room db none pages later) (hLimit : ∀ n ∈ limit, 1 ≤ n)
    (hKeyed : MessagesKeyed wire db) (hLater : ∀ m ∈ later, m.InRange) :
    pages.flatten.Pairwise fun a b => messageKey b < messageKey a := by
  obtain ⟨hSession, _⟩ := h.session hLimit hKeyed hLater (by simp)
  have hOrder := hSession.descending
  rw [← List.map_flatten, List.pairwise_map] at hOrder
  exact hOrder

theorem Reading.room_eq {db : DB} {pages : List (List DiskMessage)} {later : List DiskMessage}
    (h : Reading wire limit room db none pages later) (hLimit : ∀ n ∈ limit, 1 ≤ n)
    (hKeyed : MessagesKeyed wire db) (hLater : ∀ m ∈ later, m.InRange) :
    ∀ d ∈ pages.flatten, d.room = room := by
  intro d hd
  obtain ⟨hSession, _⟩ := h.session hLimit hKeyed hLater (by simp)
  have hEntry : messageEntry d ∈ (pages.map (List.map messageEntry)).flatten := by
    rw [← List.map_flatten]
    exact List.mem_map_of_mem hd
  exact room_of_isPrefix (hSession.bounded _ hEntry).1

theorem Reading.countP_eq_one {db : DB} {pages : List (List DiskMessage)}
    {later : List DiskMessage} (h : Reading wire limit room db none pages later)
    (hLimit : ∀ n ∈ limit, 1 ≤ n) (hKeyed : MessagesKeyed wire db) (hLater : ∀ m ∈ later, m.InRange)
    {m : DiskMessage} (hm : messageEntry m ∈ db.entries) (hRoom : m.room = room) :
    pages.flatten.countP (fun d => messageKey d == messageKey m) = 1 := by
  obtain ⟨hSession, _⟩ := h.session hLimit hKeyed hLater (by simp)
  have hScope : roomScope room (messageKey m) = true := hRoom ▸ isPrefixOf_messageKey m
  obtain ⟨e, he, hKey⟩ := hSession.complete (by
      intro n hn
      obtain ⟨z, hz, rfl⟩ := Option.mem_map.mp hn
      have := hLimit z hz
      omega) (List.mem_map_of_mem hm) hScope (by simp)
  rw [← List.map_flatten] at he
  obtain ⟨d, hd, rfl⟩ := List.mem_map.mp he
  have hMem : messageKey m ∈ pages.flatten.map messageKey :=
    List.mem_map.mpr ⟨d, hd, hKey⟩
  have hNodup : (pages.flatten.map messageKey).Nodup := by
    refine List.pairwise_map.mpr ((h.descending hLimit hKeyed hLater).imp ?_)
    exact fun hLt => hLt.ne'
  have hCount := List.count_eq_one_of_mem hNodup hMem
  rwa [List.count, List.countP_map] at hCount

theorem Reading.length_le {db : DB} {cursor : Option Key} {pages : List (List DiskMessage)}
    {later : List DiskMessage} (h : Reading wire limit room db cursor pages later)
    (hLimit : ∀ n ∈ limit, 1 ≤ n) (hKeyed : MessagesKeyed wire db) (hLater : ∀ m ∈ later, m.InRange)
    (hCursor : ∀ c ∈ cursor, roomStem room ++ c ∈ db.keys) :
    ∀ page ∈ pages, ∀ n ∈ limit, (page.length : Int) ≤ n := by
  induction h with
  | stop => simp
  | @page db cursor ms c written later rest hAhead hPage hNonempty hRest ih =>
    obtain ⟨hTake, _, hLast⟩ := hKeyed.page_cases hLimit hCursor hAhead hPage
    obtain ⟨last, _, hSeek, hStored⟩ := hLast hNonempty
    refine List.forall_mem_cons.mpr ⟨?_, ?_⟩
    · rintro n rfl
      have hLength := congrArg List.length hTake
      rw [List.length_map, Option.map_some, takeLimit, List.length_take] at hLength
      have := hLimit n rfl
      omega
    · refine ih (hKeyed.storeEach fun w hw => hLater w (List.mem_append_left _ hw))
        (fun w hw => hLater w (List.mem_append_right _ hw)) ?_
      intro c' hc'
      obtain rfl := Option.mem_some_iff.mp hc'
      exact hSeek ▸ storeEach_keys db written hStored

/-- Following the cursors of a room delivers every message that was stored when
the first page was read once, in time order and without another room's
messages, whatever is stored meanwhile, as long as no more than the hundred
entries that the iterator reads ahead lie at or below the key sought for a page.
A message is known by its room, time and identifier; its record is the one
stored first unless a later call replaced it. -/
theorem getMessages_pagination (wire : Wire) (limit : Option Int)
    (hLimit : ∀ n ∈ limit, 1 ≤ n) (room : Int) (base : DB)
    (hBase : ∀ k ∈ base.keys, messageStem.isPrefixOf k = false) (first : List DiskMessage)
    (hFirst : ∀ m ∈ first, m.InRange) :
    (Prefetched (storeEach wire.marshals base first) room none →
      ∃ pages, Reading wire limit room (storeEach wire.marshals base first) none pages []) ∧
      ∀ pages later, (∀ m ∈ later, m.InRange) →
        Reading wire limit room (storeEach wire.marshals base first) none pages later →
        (∀ m : DiskMessage, m.room = room →
          (storeEach wire.marshals base first).get? (messageKey m) =
            some (.message (fromDiskMessage m)) →
          pages.flatten.countP (fun d => d.SameMessage m) = 1 ∧
            ((∀ w ∈ later, ¬ w.SameMessage m) → pages.flatten.count m = 1)) ∧
        (∀ d ∈ pages.flatten, d.room = room) ∧
        (pages.flatten.Pairwise fun a b => b.atTime ≤ a.atTime) ∧
        ∀ page ∈ pages, ∀ n ∈ limit, (page.length : Int) ≤ n := by
  have hKeyed : MessagesKeyed wire (storeEach wire.marshals base first) :=
    MessagesKeyed.storeEach (recorded_of_foreign hBase) hFirst
  refine ⟨Reading.exists_of_static hKeyed hLimit none (by simp), ?_⟩
  intro pages later hLater hReading
  obtain ⟨_, hRange⟩ := hReading.session hLimit hKeyed hLater (by simp)
  have hRooms := hReading.room_eq hLimit hKeyed hLater
  refine ⟨?_, hRooms, ?_, hReading.length_le hLimit hKeyed hLater (by simp)⟩
  · intro m hRoom hStored
    have hm : messageEntry m ∈ (storeEach wire.marshals base first).entries :=
      (OrderedMap.get?_eq_some_iff _).mp hStored
    have hmRange : m.InRange := by
      obtain ⟨m', ⟨_, hm'⟩, hEq⟩ :=
        hKeyed _ hm (messageStem_of_roomScope (isPrefixOf_messageKey m))
      rwa [messageEntry_injective hEq]
    have hOnce := hReading.countP_eq_one hLimit hKeyed hLater hm hRoom
    refine ⟨?_, ?_⟩
    · refine Eq.trans (List.countP_congr ?_) hOnce
      intro d hd
      simpa using (messageKey_eq_iff_sameMessage (hRange d hd) hmRange).symm
    · intro hKept
      refine Eq.trans (List.countP_congr ?_) hOnce
      intro d hd
      rw [beq_iff_eq, beq_iff_eq]
      constructor
      · rintro rfl
        rfl
      · refine hReading.delivered_eq hLimit hKeyed hLater (by simp) hm ?_ hd
        intro w hw hKey
        exact hKept w hw ((messageKey_eq_iff_sameMessage (hLater w hw) hmRange).mp hKey)
  · refine (hReading.descending hLimit hKeyed hLater).imp_of_mem ?_
    intro a b ha hb hKey
    have hRoom := (hRooms b hb).trans (hRooms a ha).symm
    exact atTime_le_of_key_lt (hRange b hb) (hRange a ha) hRoom hKey

def sampleMessage (room time : Int) : DiskMessage :=
  { id := UUID.nil, room := room, author := "a", content := "c", atTime := time,
    toxicityScore := 0 }

/-- The room and the time of a message, a byte each. -/
def placeBytes : Value → List UInt8
  | .message p => [UInt8.ofNat p.room.toNat, UInt8.ofNat p.atTime.toNat]
  | _ => []

def placeUnmarshal (message : Nat → Nat → DiskMessage) : List UInt8 → Option MessagePb
  | [room, time] => some (fromDiskMessage (message room.toNat time.toNat))
  | _ => none

/-- Bytes for messages that are known by their room and time. Others are refused. -/
def placeWire (message : Nat → Nat → DiskMessage) : Wire where
  marshals p := placeUnmarshal message (placeBytes (.message p)) = some p
  bytes := placeBytes
  unmarshal := placeUnmarshal message
  unmarshal_bytes _ h := of_decide_eq_true h

def sampleWire : Wire := placeWire fun room time => sampleMessage room time

def sampleStore : DB :=
  storeEach sampleWire.marshals .empty
    [sampleMessage 1 5, sampleMessage 11 6, sampleMessage 1 7]

theorem sampleStore_reading :
    Reading sampleWire (some 1) 1 sampleStore none [[sampleMessage 1 7], [sampleMessage 1 5]]
      [sampleMessage 1 9] := by
  have hFirst : getMessages sampleWire (some 1) sampleStore 1 none =
      .ok ([sampleMessage 1 7], messageSuffix (sampleMessage 1 7)) := by decide +kernel
  have hSecond : getMessages sampleWire (some 1)
      (storeEach sampleWire.marshals sampleStore [sampleMessage 1 9]) 1
      (some (messageSuffix (sampleMessage 1 7))) =
      .ok ([sampleMessage 1 5], messageSuffix (sampleMessage 1 5)) := by decide +kernel
  have hThird : getMessages sampleWire (some 1) (storeEach sampleWire.marshals
      (storeEach sampleWire.marshals sampleStore [sampleMessage 1 9]) []) 1
      (some (messageSuffix (sampleMessage 1 5))) = .ok ([], []) := by decide +kernel
  have hLast : Reading sampleWire (some 1) 1
      (storeEach sampleWire.marshals sampleStore [sampleMessage 1 9])
      (some (messageSuffix (sampleMessage 1 7))) [[sampleMessage 1 5]] [] :=
    .page (by decide +kernel) hSecond (List.cons_ne_nil _ _) (.stop (by decide +kernel) hThird)
  exact .page (by decide +kernel) hFirst (List.cons_ne_nil _ _) hLast

theorem getMessages_pagination_rooms :
    Reading sampleWire (some 1) 1 sampleStore none [[sampleMessage 1 7], [sampleMessage 1 5]]
        [sampleMessage 1 9] ∧
      [sampleMessage 1 7, sampleMessage 1 5].count (sampleMessage 1 5) = 1 := by
  have hStored : sampleStore.get? (messageKey (sampleMessage 1 5)) =
      some (.message (fromDiskMessage (sampleMessage 1 5))) := by decide +kernel
  obtain ⟨_, hPages⟩ := getMessages_pagination sampleWire (some 1) (by simp) 1 .empty
    (by decide) [sampleMessage 1 5, sampleMessage 11 6, sampleMessage 1 7] (by decide)
  obtain ⟨hOnce, _⟩ := hPages _ _ (by decide) sampleStore_reading
  exact ⟨sampleStore_reading, (hOnce (sampleMessage 1 5) rfl hStored).2 (by decide)⟩

/-- A room with more messages than the iterator reads ahead, the newest first. -/
def crowdedRoom : List DiskMessage :=
  (List.range 110).map fun i => sampleMessage 1 (239 - i)

def crowdedStore : DB := storeEach sampleWire.marshals .empty crowdedRoom

/-- In a room with a hundred and ten messages a page without a limit shows the
ten oldest in the place of the ten newest. It is the only page of the room, so
that the newest messages are not delivered and the oldest twice. -/
theorem getMessages_shows_older :
    getMessages sampleWire none crowdedStore 1 none =
        .ok (crowdedRoom.drop 100 ++ crowdedRoom.drop 10, messageSuffix (sampleMessage 1 130)) ∧
      getMessages sampleWire none crowdedStore 1 (some (messageSuffix (sampleMessage 1 130))) =
        .ok ([], []) ∧
      crowdedStore.get? (messageKey (sampleMessage 1 239)) =
        some (.message (fromDiskMessage (sampleMessage 1 239))) ∧
      sampleMessage 1 239 ∉ crowdedRoom.drop 100 ++ crowdedRoom.drop 10 := by
  refine ⟨getMessages_of_readMessages (by decide +kernel) (by decide +kernel), ?_⟩
  decide +kernel

end ChatLab.Storage
