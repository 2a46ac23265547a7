import ChatLab.Workers.ChatPipeline

/-!
# Reading a room's history through the chat server

`GetMessage` hands the repository's page and cursor to the client in a
response whose cursor is optional. The repository returns the address of its
last key with every page, so the field is never absent: the page after which
nothing is left carries a cursor like any other, and so do the empty pages
that follow it.
-/

namespace ChatLab.Grpc.ChatServer

open Foundation Foundation.Pagination Storage Workers

structure GetMessageRequest where
  room : Int
  cursor : Option String

structure MessageResponse where
  messageId : String
  author : String
  content : String
  createdAt : Int
deriving DecidableEq

structure GetMessageResponse where
  messageResponse : List MessageResponse
  cursor : Option String
deriving DecidableEq

/-- A message as the chat domain knows it. -/
structure Message where
  id : UUID
  senderID : String
  content : String
  createdAt : Int

def fromDiskMessages (messages : List DiskMessage) : List Message :=
  messages.map fun item =>
    { id := item.id, senderID := item.author, content := item.content, createdAt := item.atTime }

def toMessageResponse (messages : List Message) : List MessageResponse :=
  messages.map fun item =>
    { messageId := item.id.text, author := item.senderID, content := item.content,
      createdAt := item.createdAt }

/-- `GetMessages` of the orchestrator. The repository's cursor is `&lastKey`. -/
def orchestratorGetMessages (wire : Wire) (limitMessages : Option Int) (db : DB)
    (cmd : GetMessageCommand) : Except RepositoryError (List Message × Option String) :=
  match getMessages wire limitMessages db cmd.room (cmd.cursor.map String.toList) with
  | .ok (messages, lastKey) => .ok (fromDiskMessages messages, some (String.ofList lastKey))
  | .error e => .error e

def getMessage (wire : Wire) (limitMessages : Option Int) (db : DB) (req : GetMessageRequest) :
    Except RepositoryError GetMessageResponse :=
  match orchestratorGetMessages wire limitMessages db
      { room := req.room, cursor := req.cursor } with
  | .ok (messages, cursor) =>
    .ok { messageResponse := toMessageResponse messages, cursor := cursor }
  | .error e => .error e

/-- What a client is answered by its call `n` when it feeds back each cursor
and the store does not change. It gives up at an error. -/
def response (wire : Wire) (limitMessages : Option Int) (db : DB) (room : Int)
    (cursor : Option String) : Nat → Except RepositoryError GetMessageResponse
  | 0 => getMessage wire limitMessages db { room := room, cursor := cursor }
  | n + 1 =>
    match getMessage wire limitMessages db { room := room, cursor := cursor } with
    | .ok resp => response wire limitMessages db room resp.cursor n
    | .error e => .error e

variable {wire : Wire} {limit : Option Int} {room : Int} {db : DB} {cursor : Option String}

/-! ## One call -/

def emptyPage : GetMessageResponse where
  messageResponse := []
  cursor := some ""

/-- The empty cursor of an empty page seeks the stem itself, below which there
is no key of the room. -/
theorem visible_empty_cursor (db : DB) (room : Int) : visible db room (some []) = [] := by
  apply List.eq_nil_iff_forall_not_mem.mpr
  intro e he
  obtain ⟨hMem, hScope, hLe⟩ := mem_visible he
  obtain ⟨rest, hRest⟩ := List.isPrefixOf_iff_prefix.mp hScope
  have hKey : roomStem room ++ [] = e.1 :=
    le_antisymm (by rw [List.append_nil, ← hRest]; exact Lexicographic.le_append _ _) hLe
  have hStored : roomStem room ++ [] ∈ db.keys := hKey ▸ List.mem_map_of_mem hMem
  rw [visible, takeWhile_reverseIterator_some hStored] at he
  have hLt := (mem_unread.mp he).2.2 _ rfl
  exact absurd hKey.symm hLt.ne

/-- A call fails, or its page is empty, or its cursor names a key of the room
that lies below the one sought. -/
theorem getMessage_cases (wire : Wire) (limit : Option Int) (db : DB) (room : Int)
    (cursor : Option String) :
    (∃ e, getMessage wire limit db { room := room, cursor := cursor } = .error e) ∨
      getMessage wire limit db { room := room, cursor := cursor } = .ok emptyPage ∨
      ∃ messages c last, getMessage wire limit db { room := room, cursor := cursor } =
          .ok { messageResponse := messages, cursor := some (String.ofList c) } ∧
        last ∈ visible db room (cursor.map String.toList) ∧ roomStem room ++ c = last.1 := by
  simp only [getMessage, orchestratorGetMessages]
  cases hGet : getMessages wire limit db room (cursor.map String.toList) with
  | error e => exact .inl ⟨e, rfl⟩
  | ok page =>
    obtain ⟨ms, c⟩ := page
    obtain ⟨rfl, rfl, _⟩ | ⟨last, _, hVisible, hKey⟩ := getMessages_cursor hGet
    · exact .inr (.inl rfl)
    · exact .inr (.inr ⟨_, c, last, rfl, hVisible, hKey⟩)

theorem getMessage_cursor {resp : GetMessageResponse}
    (h : getMessage wire limit db { room := room, cursor := cursor } = .ok resp) :
    resp.cursor.isSome = true := by
  obtain ⟨_, hCall⟩ | hCall | ⟨_, _, _, hCall, _⟩ := getMessage_cases wire limit db room cursor
  · cases h.symm.trans hCall
  · rw [Except.ok.inj (h.symm.trans hCall)]
    rfl
  · rw [Except.ok.inj (h.symm.trans hCall)]
    rfl

theorem getMessage_empty_cursor (wire : Wire) (limit : Option Int) (db : DB) (room : Int) :
    getMessage wire limit db { room := room, cursor := some "" } = .ok emptyPage := by
  have hPage : pageEntries limit db room (some []) = [] := by
    rw [pageEntries, visible_empty_cursor, takeLimit_nil]
  have hGet : getMessages wire limit db room ((some "").map String.toList) = .ok ([], []) :=
    getMessages_of_pageEntries_nil hPage
  simp only [getMessage, orchestratorGetMessages, hGet]
  rfl

/-- A call on a message store succeeds while all of the store below the key
sought is read ahead, and this holds for the next call as well. -/
theorem getMessage_prefetched (hStore : MessageStore wire db)
    (h : Prefetched db room (cursor.map String.toList)) (limit : Option Int) :
    ∃ resp, getMessage wire limit db { room := room, cursor := cursor } = .ok resp ∧
      Prefetched db room (resp.cursor.map String.toList) := by
  obtain ⟨ms, _, hGet⟩ := hStore.getMessages h limit
  generalize lastSuffix (roomStem room) [] (ms.map messageEntry) = c at hGet
  refine ⟨{ messageResponse := toMessageResponse (fromDiskMessages ms)
            cursor := some (String.ofList c) }, ?_, ?_⟩
  · simp only [getMessage, orchestratorGetMessages, hGet]
  · rw [Option.map_some, String.toList_ofList]
    exact h.below (getMessages_cursor_le hGet)

/-! ## The client's loop -/

theorem response_succ {resp : GetMessageResponse}
    (h : getMessage wire limit db { room := room, cursor := cursor } = .ok resp) (n : Nat) :
    response wire limit db room cursor (n + 1) = response wire limit db room resp.cursor n := by
  rw [response, h]

theorem response_cursor {n : Nat} {resp : GetMessageResponse}
    (h : response wire limit db room cursor n = .ok resp) : resp.cursor.isSome = true := by
  induction n generalizing cursor with
  | zero => exact getMessage_cursor h
  | succ n ih =>
    cases hCall : getMessage wire limit db { room := room, cursor := cursor } with
    | error e =>
      rw [response, hCall] at h
      cases h
    | ok first =>
      rw [response_succ hCall] at h
      exact ih h

variable (cursor) in
theorem response_prefetched (hStore : MessageStore wire db)
    (h : Prefetched db room (cursor.map String.toList)) (limit : Option Int) (n : Nat) :
    ∃ resp, response wire limit db room cursor n = .ok resp := by
  obtain ⟨resp, hCall, hNext⟩ := getMessage_prefetched hStore h limit
  induction n generalizing cursor resp with
  | zero => exact ⟨resp, hCall⟩
  | succ n ih =>
    obtain ⟨second, hSecond, hAfter⟩ := getMessage_prefetched hStore hNext limit
    rw [response_succ hCall]
    exact ih _ hNext second hSecond hAfter

theorem response_empty_cursor (wire : Wire) (limit : Option Int) (db : DB) (room : Int) (n : Nat) :
    response wire limit db room (some "") n = .ok emptyPage := by
  have hCall := getMessage_empty_cursor wire limit db room
  induction n with
  | zero => exact hCall
  | succ n ih =>
    rw [response_succ hCall]
    exact ih

/-- The client is answered with an empty page or not at all. -/
def Ended (answer : Except RepositoryError GetMessageResponse) : Prop :=
  answer = .ok emptyPage ∨ ∃ e, answer = .error e

/-- From some call on all answers have ended, if that holds from the cursor of
the page that the call shows. -/
theorem runs_out_of
    (hNext : ∀ c last, last ∈ visible db room (cursor.map String.toList) →
      roomStem room ++ c = last.1 →
      ∃ k, ∀ j ≥ k, Ended (response wire limit db room (some (String.ofList c)) j)) :
    ∃ k, ∀ j ≥ k, Ended (response wire limit db room cursor j) := by
  obtain ⟨e, hCall⟩ | hCall | ⟨_, c, last, hCall, hLast, hKey⟩ :=
    getMessage_cases wire limit db room cursor
  · refine ⟨0, ?_⟩
    intro j _
    cases j with
    | zero => exact .inr ⟨e, hCall⟩
    | succ j => exact .inr ⟨e, by rw [response, hCall]⟩
  · refine ⟨0, ?_⟩
    intro j _
    cases j with
    | zero => exact .inl hCall
    | succ j =>
      rw [response_succ hCall]
      exact .inl (response_empty_cursor wire limit db room j)
  · obtain ⟨k, hk⟩ := hNext c last hLast hKey
    refine ⟨k + 1, ?_⟩
    intro j hj
    obtain ⟨i, rfl⟩ : ∃ i, j = i + 1 := ⟨j - 1, by omega⟩
    rw [response_succ hCall]
    exact hk i (by omega)

theorem runs_out_below (c : Key) (hc : roomStem room ++ c ∈ db.keys) :
    ∃ k, ∀ j ≥ k, Ended (response wire limit db room (some (String.ofList c)) j) := by
  -- the measure is the number of keys of the room below the cursor
  induction hn : (unread db (roomScope room) (some (roomStem room ++ c))).length
    using Nat.strong_induction_on generalizing c with
  | _ n ih =>
    apply runs_out_of
    intro c' last hLast hKey
    have hStored : roomStem room ++ c' ∈ db.keys :=
      hKey ▸ List.mem_map_of_mem (mem_visible hLast).1
    rw [Option.map_some, String.toList_ofList, visible, takeWhile_reverseIterator_some hc] at hLast
    have hShorter := length_unread_lt hLast
    exact ih _ (hn ▸ hKey ▸ hShorter) c' hStored rfl

theorem runs_out (wire : Wire) (limit : Option Int) (db : DB) (room : Int) :
    ∃ k, ∀ j ≥ k, Ended (response wire limit db room none j) := by
  apply runs_out_of
  intro c last hLast hKey
  exact runs_out_below c (hKey ▸ List.mem_map_of_mem (mem_visible hLast).1)

/-- A client that pages through a room until no cursor is returned never stops:
every successful response has a cursor, although from some call on there are only
empty pages and errors. A message store that is read ahead as a whole gives no
errors, so that the empty pages go on for ever. -/
theorem getMessage_never_ends (wire : Wire) (limit : Option Int) (room : Int) (base : DB)
    (hBase : ∀ k ∈ base.keys, messageStem.isPrefixOf k = false) (stored : List DiskMessage) :
    (∀ n resp, response wire limit (storeEach wire.marshals base stored) room none n = .ok resp →
      resp.cursor.isSome = true) ∧
    (∃ n, ∀ k ≥ n,
      response wire limit (storeEach wire.marshals base stored) room none k = .ok emptyPage ∨
        ∃ e, response wire limit (storeEach wire.marshals base stored) room none k = .error e) ∧
    (Prefetched (storeEach wire.marshals base stored) room none →
      (∀ n, ∃ resp, response wire limit (storeEach wire.marshals base stored) room none n =
        .ok resp) ∧
      ∃ n, ∀ k ≥ n,
        response wire limit (storeEach wire.marshals base stored) room none k = .ok emptyPage) := by
  have hStore : MessageStore wire (storeEach wire.marshals base stored) :=
    Recorded.storeEach (recorded_of_foreign hBase) fun _ _ hMarshals => hMarshals
  obtain ⟨n, hEnd⟩ := runs_out wire limit (storeEach wire.marshals base stored) room
  refine ⟨fun n resp h => response_cursor h, ⟨n, hEnd⟩, fun hAhead => ?_⟩
  have hOk := response_prefetched none hStore hAhead limit
  refine ⟨hOk, n, fun k hk => ?_⟩
  obtain hEmpty | ⟨e, hError⟩ := hEnd k hk
  · exact hEmpty
  · obtain ⟨resp, hResp⟩ := hOk k
    cases hResp.symm.trans hError

theorem getMessage_last_page_has_cursor :
    response sampleWire (some 1) sampleStore 1 none 1 = .ok
        { messageResponse := toMessageResponse (fromDiskMessages [sampleMessage 1 5]),
          cursor := some (String.ofList (messageSuffix (sampleMessage 1 5))) } ∧
      response sampleWire (some 1) sampleStore 1 none 2 = .ok emptyPage ∧
      ¬ ∃ n resp, response sampleWire (some 1) sampleStore 1 none n = .ok resp ∧
        resp.cursor = none := by
  rw [← and_assoc]
  refine ⟨by decide +kernel, ?_⟩
  rintro ⟨n, resp, hResp, hNone⟩
  have hSome := response_cursor hResp
  rw [hNone] at hSome
  cases hSome

theorem getMessage_never_ends_sample :
    (∀ n, ∃ resp, response sampleWire (some 1) sampleStore 1 none n = .ok resp) ∧
      ∃ n, ∀ k ≥ n, response sampleWire (some 1) sampleStore 1 none k = .ok emptyPage :=
  (getMessage_never_ends sampleWire (some 1) 1 .empty (by decide)
    [sampleMessage 1 5, sampleMessage 11 6, sampleMessage 1 7]).2.2 (by decide +kernel)

end ChatLab.Grpc.ChatServer
