import ChatLab.Foundation.Log
import ChatLab.Grpc.ChatServer
import ChatLab.Runtime.Delivery

/-!
# From a post to the history of a room

A client that reads a room page by page sees what the pipeline has stored there:
for each instant the last message of the room with that instant, newest first,
with the content that the moderator left. The messages are keyed by room and
instant alone, since the identifier is never set, so that of two posts of one
nanosecond only the one that was stored last is read back.

The store is shared with the other repositories, which write between the calls
of `StoreMessage` but never under the stem of the messages, and delete the keys
of pending tasks only. Their keys count as well when the reader's iterator reads
ahead: the result is for rooms at whose keys, and below them, no more entries
lie than it reads ahead.
-/

namespace ChatLab.Runtime

open Foundation Storage Workers Grpc.ChatServer

/-! ## The store after some messages -/

/-- The store holds these messages, written in this order among other records. -/
inductive Holds (wire : Wire) : List DiskMessage → DB → Prop
  | empty : Holds wire [] OrderedMap.empty
  | store {ms : List DiskMessage} {db : DB} {m : DiskMessage} :
      Holds wire ms db → wire.marshals (fromDiskMessage m) = true →
      Holds wire (ms ++ [m]) (db.insert (messageKey m) (.message (fromDiskMessage m)))
  | write {ms : List DiskMessage} {db : DB} {k : Key} (v : Value) :
      Holds wire ms db → messageStem.isPrefixOf k = false → Holds wire ms (db.insert k v)
  | erase {ms : List DiskMessage} {db : DB} {k : Key} :
      Holds wire ms db → pendingStem.isPrefixOf k = true → Holds wire ms (db.erase k)

namespace Holds

variable {wire : Wire} {ms : List DiskMessage} {db : DB}

theorem isPrefixOf_messageKey (m : DiskMessage) : messageStem.isPrefixOf (messageKey m) = true :=
  messageStem_of_roomScope (Storage.isPrefixOf_messageKey m)

theorem marshals (h : Holds wire ms db) : ∀ m ∈ ms, wire.marshals (fromDiskMessage m) = true := by
  induction h with
  | empty => exact fun m hm => absurd hm List.not_mem_nil
  | store _ hMarshals ih =>
    exact List.forall_mem_append.mpr ⟨ih, List.forall_mem_singleton.mpr hMarshals⟩
  | write _ _ _ ih => exact ih
  | erase _ _ ih => exact ih

/-- Under a key of the messages stands the last one that was stored there. -/
theorem get? (h : Holds wire ms db) {k : Key} (hk : messageStem.isPrefixOf k = true) :
    db.get? k = (Log.last? messageKey ms k).map fun m => .message (fromDiskMessage m) := by
  induction h with
  | empty => rfl
  | @store ms db m _ _ ih =>
    rw [OrderedMap.get?_insert, Log.last?_concat]
    by_cases hSame : k = messageKey m
    · rw [if_pos hSame, if_pos hSame.symm]
      rfl
    · rw [if_neg hSame, if_neg (Ne.symm hSame), ih]
  | @write ms db key v _ hKey ih =>
    have hApart : k ≠ key := by
      rintro rfl
      cases hk.symm.trans hKey
    rw [OrderedMap.get?_insert_of_ne _ _ hApart, ih]
  | @erase ms db key _ hKey ih =>
    have hApart : k ≠ key := by
      rintro rfl
      obtain ⟨x, rfl⟩ := List.isPrefixOf_iff_prefix.mp hKey
      obtain ⟨y, hy⟩ := List.isPrefixOf_iff_prefix.mp hk
      exact ne_of_stems (i := 0) (by decide) (by decide) (by decide) hy
    rw [OrderedMap.get?_erase_of_ne _ hApart, ih]

theorem mem_entries_iff (h : Holds wire ms db) {d : DiskMessage} :
    messageEntry d ∈ db.entries ↔ Log.last? messageKey ms (messageKey d) = some d := by
  have hEntry : messageEntry d ∈ db.entries ↔
      db.get? (messageKey d) = some (.message (fromDiskMessage d)) :=
    (OrderedMap.get?_eq_some_iff db).symm
  rw [hEntry, h.get? (isPrefixOf_messageKey d)]
  constructor
  · intro hGet
    obtain ⟨m, hLast, hSame⟩ := Option.map_eq_some_iff.mp hGet
    have hRecord : fromDiskMessage m = fromDiskMessage d := by injection hSame
    have hMessage := congrArg Storage.toDiskMessage hRecord
    rw [toDiskMessage_fromDiskMessage, toDiskMessage_fromDiskMessage] at hMessage
    rw [hLast, Option.some.inj hMessage]
  · intro hLast
    rw [hLast]
    rfl

theorem messagesKeyed (h : Holds wire ms db) (hRange : ∀ m ∈ ms, m.InRange) :
    MessagesKeyed wire db := by
  intro e he hStem
  have hGet : db.get? e.1 = some e.2 := (OrderedMap.get?_eq_some_iff db).mpr he
  rw [h.get? hStem] at hGet
  obtain ⟨m, hLast, hSame⟩ := Option.map_eq_some_iff.mp hGet
  obtain ⟨hMem, hKey⟩ := Log.mem_of_last? hLast
  exact ⟨m, ⟨h.marshals m hMem, hRange m hMem⟩, Prod.ext hKey.symm hSame.symm⟩

end Holds

/-! ## A reading of a room that does not change -/

section Static

variable {wire : Wire} {limit : Option Int} {room : Int} {db : DB}

theorem mem_entries_of_reading {cursor : Option Key} {pages : List (List DiskMessage)}
    {later : List DiskMessage} (h : Reading wire limit room db cursor pages later)
    (hStatic : later = []) (hLimit : ∀ n ∈ limit, 1 ≤ n) (hKeyed : MessagesKeyed wire db)
    (hCursor : ∀ c ∈ cursor, roomStem room ++ c ∈ db.keys) :
    ∀ d ∈ pages.flatten, messageEntry d ∈ db.entries := by
  induction h with
  | stop => simp
  | @page db cursor ms c written later rest hAhead hPage hNonempty hRest ih =>
    obtain ⟨rfl, rfl⟩ := List.append_eq_nil_iff.mp hStatic
    obtain ⟨_, hRange, hLast⟩ := hKeyed.page_cases hLimit hCursor hAhead hPage
    obtain ⟨last, _, hSeek, hStored⟩ := hLast hNonempty
    intro d hd
    obtain hd | hd := List.mem_append.mp hd
    · exact (hRange d hd).2
    · exact ih rfl hKeyed (cursor_stored hSeek hStored []) d hd

/-- A room that does not change while it is read: its messages by falling key. -/
theorem reading_static {pages : List (List DiskMessage)}
    (h : Reading wire limit room db none pages []) (hLimit : ∀ n ∈ limit, 1 ≤ n)
    (hKeyed : MessagesKeyed wire db) :
    (∀ d, d ∈ pages.flatten ↔ d.room = room ∧ messageEntry d ∈ db.entries) ∧
      pages.flatten.Pairwise fun a b => messageKey b < messageKey a := by
  have hLater : ∀ m ∈ ([] : List DiskMessage), m.InRange := fun m hm => absurd hm List.not_mem_nil
  refine ⟨fun d => ⟨fun hd => ⟨?_, ?_⟩, ?_⟩, h.descending hLimit hKeyed hLater⟩
  · exact h.room_eq hLimit hKeyed hLater d hd
  · exact mem_entries_of_reading h rfl hLimit hKeyed (by simp) d hd
  · rintro ⟨hRoom, hEntry⟩
    have hOnce := h.countP_eq_one hLimit hKeyed hLater hEntry hRoom
    obtain ⟨x, hx, hKey⟩ := List.countP_pos_iff.mp (hOnce ▸ Nat.one_pos)
    have hSame : x = d := h.delivered_eq hLimit hKeyed hLater (by simp) hEntry
      (fun w hw => absurd hw List.not_mem_nil) hx (beq_iff_eq.mp hKey)
    exact hSame ▸ hx

end Static

/-! ## What the client is told -/

def respond (m : DiskMessage) : MessageResponse where
  messageId := m.id.text
  author := m.author
  content := m.content
  createdAt := m.atTime

/-- A client asks for the room page by page until a page is empty. -/
inductive Conversation (wire : Wire) (limit : Option Int) (db : DB) (room : Int) :
    Option String → List MessageResponse → Prop
  | stop {cursor : Option String} {resp : GetMessageResponse} :
      getMessage wire limit db { room := room, cursor := cursor } = .ok resp →
      resp.messageResponse = [] → Conversation wire limit db room cursor []
  | page {cursor : Option String} {resp : GetMessageResponse} {rest : List MessageResponse} :
      getMessage wire limit db { room := room, cursor := cursor } = .ok resp →
      resp.messageResponse ≠ [] → Conversation wire limit db room resp.cursor rest →
      Conversation wire limit db room cursor (resp.messageResponse ++ rest)

section Conversation

variable {wire : Wire} {limit : Option Int} {db : DB} {room : Int}

theorem toMessageResponse_fromDiskMessages (ms : List DiskMessage) :
    toMessageResponse (fromDiskMessages ms) = ms.map respond := by
  rw [toMessageResponse, fromDiskMessages, List.map_map]
  rfl

theorem getMessage_eq_ok {cursor : Option String} {resp : GetMessageResponse} :
    getMessage wire limit db { room := room, cursor := cursor } = .ok resp ↔
      ∃ ms c, getMessages wire limit db room (cursor.map String.toList) = .ok (ms, c) ∧
        resp = { messageResponse := ms.map respond, cursor := some (String.ofList c) } := by
  rw [getMessage, orchestratorGetMessages]
  cases hGet : getMessages wire limit db room (cursor.map String.toList) with
  | error e => simp
  | ok page =>
    obtain ⟨ms, c⟩ := page
    simp only [toMessageResponse_fromDiskMessages, Except.ok.injEq, Prod.mk.injEq]
    constructor
    · rintro rfl
      exact ⟨ms, c, ⟨rfl, rfl⟩, rfl⟩
    · rintro ⟨_, _, ⟨rfl, rfl⟩, rfl⟩
      rfl

theorem Conversation.reading {cursor : Option String} {out : List MessageResponse}
    (h : Conversation wire limit db room cursor out)
    (hAhead : Prefetched db room (cursor.map String.toList)) :
    ∃ pages, Reading wire limit room db (cursor.map String.toList) pages [] ∧
      out = pages.flatten.map respond := by
  induction h with
  | stop hResp hEmpty =>
    obtain ⟨ms, c, hGet, rfl⟩ := getMessage_eq_ok.mp hResp
    obtain rfl := List.map_eq_nil_iff.mp hEmpty
    exact ⟨[], .stop hAhead hGet, rfl⟩
  | page hResp hNonempty _ ih =>
    obtain ⟨ms, c, hGet, rfl⟩ := getMessage_eq_ok.mp hResp
    rw [Option.map_some, String.toList_ofList] at ih
    obtain ⟨pages, hReading, rfl⟩ := ih (hAhead.below (getMessages_cursor_le hGet))
    have hMessages : ms ≠ [] := fun hNil => hNonempty (by rw [hNil]; rfl)
    have hNext : Reading wire limit room (storeEach wire.marshals db []) (some c) pages [] :=
      hReading
    refine ⟨ms :: pages, .page hAhead hGet hMessages hNext, ?_⟩
    rw [List.flatten_cons, List.map_append]

theorem Conversation.of_reading {key : Option Key} {pages : List (List DiskMessage)}
    {later : List DiskMessage} (h : Reading wire limit room db key pages later)
    (hStatic : later = []) {cursor : Option String} (hCursor : cursor.map String.toList = key) :
    ∃ out, Conversation wire limit db room cursor out := by
  induction h generalizing cursor with
  | stop _ hGet =>
    subst hCursor
    exact ⟨[], .stop (getMessage_eq_ok.mpr ⟨_, _, hGet, rfl⟩) rfl⟩
  | @page db key ms c written later rest _ hGet hNonempty _ ih =>
    obtain ⟨rfl, rfl⟩ := List.append_eq_nil_iff.mp hStatic
    subst hCursor
    have hSame : Option.map String.toList (some (String.ofList c)) = some c := by
      rw [Option.map_some, String.toList_ofList]
    obtain ⟨out, hOut⟩ := ih rfl hSame
    refine ⟨_, .page (getMessage_eq_ok.mpr ⟨_, _, hGet, rfl⟩) ?_ hOut⟩
    exact fun hNil => hNonempty (List.map_eq_nil_iff.mp hNil)

end Conversation

/-! ## The history of a room -/

def place (m : DiskMessage) : Int × Int := (m.room, m.atTime)

section History

variable {o : Orchestrator} {s : ServerState}

theorem stored_image (h : o.machine.Reachable s) {d : DiskMessage}
    (hd : d ∈ s.stored.map Traced.carried) :
    d.id = UUID.nil ∧ ∃ cmd ∈ s.accepted, d.room = cmd.room ∧ d.author = cmd.userId ∧
      d.atTime = cmd.createdAt ∧ d.content = (o.censor cmd.content).1 := by
  obtain ⟨t, ht, rfl⟩ := List.mem_map.mp hd
  obtain ⟨_, cmd, hOrigin, m, hSanitized, hCarried⟩ := (moderated_of_reachable h).stored t ht
  obtain ⟨score, rfl⟩ := hSanitized
  rw [hCarried]
  exact ⟨rfl, cmd, List.mem_of_getElem? hOrigin, rfl, rfl, rfl, rfl⟩

theorem messageKey_eq_iff_place {a b : DiskMessage} (ha : a.InRange) (hb : b.InRange)
    (hId : a.id = b.id) : messageKey a = messageKey b ↔ place a = place b := by
  rw [messageKey_eq_iff_sameMessage ha hb, DiskMessage.SameMessage, place, place, Prod.mk.injEq]
  constructor
  · rintro ⟨hRoom, hTime, _⟩
    exact ⟨hRoom, hTime⟩
  · rintro ⟨hRoom, hTime⟩
    exact ⟨hRoom, hTime, hId⟩

/-- In every state of every run of the master, whatever else was written to the
store, a client that reads a room to the end is told, newest first, for each
instant the last message that was stored for this room and instant, provided
that the iterator can read all keys at or below those of the room ahead. Each is
the image of an accepted post of the room. -/
theorem room_history (h : o.machine.Reachable s)
    (hRange : ∀ cmd ∈ s.accepted, 0 ≤ cmd.createdAt ∧ cmd.createdAt < 2 ^ 63) {wire : Wire}
    {db : DB} (hDb : Holds wire (s.stored.map Traced.carried) db) {limit : Option Int}
    (hLimit : ∀ n ∈ limit, 1 ≤ n) {room : Int} (hAhead : Prefetched db room none) :
    (∃ out, Conversation wire limit db room none out) ∧
      ∀ out, Conversation wire limit db room none out →
        ∃ ds : List DiskMessage, out = ds.map respond ∧
          ds.Pairwise (fun a b => b.atTime < a.atTime) ∧
          (∀ d, d ∈ ds ↔
            Log.last? place (s.stored.map Traced.carried) (room, d.atTime) = some d) ∧
          ∀ d ∈ ds, ∃ cmd ∈ s.accepted, cmd.room = room ∧ d.author = cmd.userId ∧
            d.atTime = cmd.createdAt ∧ d.content = (o.censor cmd.content).1 := by
  have hStored : ∀ m ∈ s.stored.map Traced.carried, m.InRange ∧ m.id = UUID.nil := by
    intro m hm
    obtain ⟨hId, cmd, hCmd, _, _, hTime, _⟩ := stored_image h hm
    refine ⟨?_, hId⟩
    rw [DiskMessage.InRange, hTime]
    exact hRange cmd hCmd
  have hKeyed := hDb.messagesKeyed fun m hm => (hStored m hm).1
  have hLast : ∀ d ∈ s.stored.map Traced.carried,
      Log.last? messageKey (s.stored.map Traced.carried) (messageKey d) =
        Log.last? place (s.stored.map Traced.carried) (place d) := by
    intro d hd
    refine Log.last?_congr fun m hm => ?_
    exact messageKey_eq_iff_place (hStored m hm).1 (hStored d hd).1
      ((hStored m hm).2.trans (hStored d hd).2.symm)
  constructor
  · obtain ⟨pages, hReading⟩ := Reading.exists_of_static hKeyed hLimit none (by simp) hAhead
    exact Conversation.of_reading hReading rfl rfl
  · intro out hOut
    obtain ⟨pages, hReading, rfl⟩ := hOut.reading hAhead
    obtain ⟨hMem, hOrder⟩ := reading_static hReading hLimit hKeyed
    have hFound : ∀ d ∈ pages.flatten, d ∈ s.stored.map Traced.carried ∧ d.room = room := by
      intro d hd
      obtain ⟨hRoom, hEntry⟩ := (hMem d).mp hd
      exact ⟨(Log.mem_of_last? (hDb.mem_entries_iff.mp hEntry)).1, hRoom⟩
    refine ⟨pages.flatten, rfl, ?_, ?_, ?_⟩
    · refine hOrder.imp_of_mem fun {a b} ha hb hKey => ?_
      obtain ⟨ha, hRoomA⟩ := hFound a ha
      obtain ⟨hb, hRoomB⟩ := hFound b hb
      have hLe := atTime_le_of_key_lt (hStored b hb).1 (hStored a ha).1
        (hRoomB.trans hRoomA.symm) hKey
      refine lt_of_le_of_ne hLe fun hTime => ?_
      have hSame := (messageKey_eq_iff_place (hStored b hb).1 (hStored a ha).1
        ((hStored b hb).2.trans (hStored a ha).2.symm)).mpr
        (Prod.ext (hRoomB.trans hRoomA.symm) hTime)
      exact absurd hSame hKey.ne
    · intro d
      rw [hMem, hDb.mem_entries_iff]
      constructor
      · rintro ⟨rfl, hd⟩
        rwa [hLast d (Log.mem_of_last? hd).1] at hd
      · intro hd
        obtain ⟨hStore, hPlace⟩ := Log.mem_of_last? hd
        have hRoom : d.room = room := congrArg Prod.fst hPlace
        refine ⟨hRoom, ?_⟩
        rw [hLast d hStore, hPlace]
        exact hd
    · intro d hd
      obtain ⟨hStore, hRoom⟩ := hFound d hd
      obtain ⟨_, cmd, hCmd, hSame, hImage⟩ := stored_image h hStore
      exact ⟨cmd, hCmd, hSame.symm.trans hRoom, hImage⟩

end History

def write (db : DB) (m : DiskMessage) : DB :=
  db.insert (messageKey m) (.message (fromDiskMessage m))

theorem holds_foldl {wire : Wire} {ms : List DiskMessage}
    (hms : ∀ m ∈ ms, wire.marshals (fromDiskMessage m) = true) :
    Holds wire ms (ms.foldl write .empty) := by
  induction ms using List.reverseRecOn with
  | nil => exact .empty
  | append_singleton ms m ih =>
    obtain ⟨hms, hm⟩ := List.forall_mem_append.mp hms
    rw [List.foldl_concat]
    exact .store (ih hms) (hm m List.mem_cons_self)

def sampleHistory : DB := (sampleDelivered.stored.map Traced.carried).foldl write .empty

def historyWire : Wire :=
  placeWire fun room time =>
    { id := UUID.nil, room := room, author := if time = 5 then "u" else "v"
      content := if time = 5 then "bad ****" else "hello", atTime := time, toxicityScore := 0 }

def sampleResponse (author content : String) (time : Int) : MessageResponse where
  messageId := UUID.nil.text
  author := author
  content := content
  createdAt := time

def samplePage (author content : String) (time : Int) : GetMessageResponse where
  messageResponse := [sampleResponse author content time]
  cursor := some (String.ofList (Decimal.padded 19 time) ++ ":" ++ UUID.nil.text)

theorem sample_conversation :
    Conversation historyWire (some 1) sampleHistory 1 none
      [sampleResponse "v" "hello" 6, sampleResponse "u" "bad ****" 5] := by
  obtain ⟨hFirst, hSecond, hThird⟩ :
      getMessage historyWire (some 1) sampleHistory { room := 1, cursor := none } =
          .ok (samplePage "v" "hello" 6) ∧
        getMessage historyWire (some 1) sampleHistory
            { room := 1, cursor := (samplePage "v" "hello" 6).cursor } =
          .ok (samplePage "u" "bad ****" 5) ∧
        getMessage historyWire (some 1) sampleHistory
          { room := 1, cursor := (samplePage "u" "bad ****" 5).cursor } = .ok emptyPage := by
    decide +kernel
  exact .page hFirst (List.cons_ne_nil _ _)
    (.page hSecond (List.cons_ne_nil _ _) (.stop hThird rfl))

theorem room_history_sample :
    ∃ ds : List DiskMessage,
      [sampleResponse "v" "hello" 6, sampleResponse "u" "bad ****" 5] = ds.map respond ∧
        ds.Pairwise (fun a b => b.atTime < a.atTime) ∧
        ∀ d ∈ ds, ∃ cmd ∈ sampleDelivered.accepted, cmd.room = 1 ∧ d.author = cmd.userId ∧
          d.atTime = cmd.createdAt ∧ d.content = (sampleOrchestrator.censor cmd.content).1 := by
  have hHolds : Holds historyWire (sampleDelivered.stored.map Traced.carried) sampleHistory :=
    holds_foldl (by decide +kernel)
  have hAhead : Prefetched sampleHistory 1 none := by decide +kernel
  obtain ⟨_, hTold⟩ := room_history
    (Machine.reachable_after sampleDelivery : sampleOrchestrator.machine.Reachable sampleDelivered)
    (by decide +kernel) hHolds (by decide : ∀ n ∈ some (1 : Int), 1 ≤ n) hAhead
  obtain ⟨ds, hOut, hOrder, _, hImages⟩ := hTold _ sample_conversation
  exact ⟨ds, hOut, hOrder, hImages⟩

end ChatLab.Runtime
