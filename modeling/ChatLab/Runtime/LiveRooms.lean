import ChatLab.Runtime.Delivery

/-!
# Streams and rooms

`Connect` joins a room under an identifier that it draws itself and leaves it
when it returns, whether the client went away or a `Send` failed. The registry
knows nothing of streams; what it answers for a room, and how much it keeps, is
compared here with the calls of `Connect` that have not returned.

Identifiers are assumed to be fresh. A repeated one would share its session
with the stream that has it already.
-/

namespace ChatLab.Runtime

open Foundation Workers RegistryCall

/-- Stream `k` has not returned; it joined the room as this participant. -/
def OpenAt (connections : List Connection) (k : Nat) (p : String) (room : RoomID) : Prop :=
  ∃ c, connections[k]? = some c ∧ c.isOpen = true ∧ c.userID = p ∧ c.room = room

namespace ServerState

variable (s : ServerState)

def openIn (room : RoomID) : List Nat :=
  (List.range s.connections.length).filter fun k =>
    (s.connections[k]?).any fun c => c.isOpen && c.room = room

def openUsers : List String := (s.connections.filter Connection.isOpen).map Connection.userID

/-- `uuid.NewString` returns an identifier that no stream has. -/
def FreshUser : ServerAction → Prop
  | .client (.connect userID _) => userID ∉ s.connections.map Connection.userID
  | _ => True

instance (a : ServerAction) : Decidable (s.FreshUser a) :=
  match a with
  | .client (.connect userID _) =>
    inferInstanceAs (Decidable (userID ∉ s.connections.map Connection.userID))
  | .client (.post _ _) => .isTrue trivial
  | .client (.analyze _) => .isTrue trivial
  | .client (.respond _) => .isTrue trivial
  | .client (.disconnect _) => .isTrue trivial
  | .pool _ => .isTrue trivial
  | .moderation _ => .isTrue trivial
  | .fanout _ => .isTrue trivial
  | .buffer _ => .isTrue trivial
  | .deliver _ _ => .isTrue trivial
  | .push _ _ => .isTrue trivial
  | .stop => .isTrue trivial

structure Live : Prop where
  users : (s.connections.map Connection.userID).Nodup
  member : ∀ p room, RegistryCall.member s.registryCalls p room = true ↔
    ∃ k, OpenAt s.connections k p room
  session : ∀ p k, session s.registryCalls p = some k ↔ ∃ room, OpenAt s.connections k p room

end ServerState

/-! ## How streams come and go -/

section Streams

variable {connections : List Connection} {c d : Connection} {k j : Nat} {p : String}
  {room : RoomID}

theorem openAt_concat (hOpen : c.isOpen = true) :
    OpenAt (connections ++ [c]) j p room ↔
      OpenAt connections j p room ∨ j = connections.length ∧ c.userID = p ∧ c.room = room := by
  constructor
  · rintro ⟨e, he, hIsOpen, hUser, hRoom⟩
    obtain hLt | hEq | hGt := Nat.lt_trichotomy j connections.length
    · rw [List.getElem?_append_left hLt] at he
      exact .inl ⟨e, he, hIsOpen, hUser, hRoom⟩
    · subst hEq
      rw [List.getElem?_concat_length] at he
      obtain rfl := Option.some.inj he
      exact .inr ⟨rfl, hUser, hRoom⟩
    · rw [List.getElem?_eq_none (by simp; omega)] at he
      cases he
  · rintro (⟨e, he, hIsOpen, hUser, hRoom⟩ | ⟨rfl, hUser, hRoom⟩)
    · obtain ⟨hLt, _⟩ := List.getElem?_eq_some_iff.mp he
      exact ⟨e, (List.getElem?_append_left hLt).trans he, hIsOpen, hUser, hRoom⟩
    · exact ⟨c, List.getElem?_concat_length, hOpen, hUser, hRoom⟩

theorem openAt_set_of_ne (hj : j ≠ k) :
    OpenAt (connections.set k d) j p room ↔ OpenAt connections j p room := by
  rw [OpenAt, List.getElem?_set_ne (Ne.symm hj), OpenAt]

theorem openAt_set_self (hk : connections[k]? = some c) :
    OpenAt (connections.set k d) k p room ↔ d.isOpen = true ∧ d.userID = p ∧ d.room = room := by
  obtain ⟨hLt, _⟩ := List.getElem?_eq_some_iff.mp hk
  simp [OpenAt, List.getElem?_set_self hLt]

/-- A stream takes or queues an event. -/
theorem openAt_set_same (hk : connections[k]? = some c) (hOpen : d.isOpen = c.isOpen)
    (hUser : d.userID = c.userID) (hRoom : d.room = c.room) :
    OpenAt (connections.set k d) j p room ↔ OpenAt connections j p room := by
  by_cases hj : j = k
  · subst hj
    rw [openAt_set_self hk, hOpen, hUser, hRoom]
    simp [OpenAt, hk]
  · exact openAt_set_of_ne hj

/-- A stream returns. -/
theorem openAt_set_closed (hk : connections[k]? = some c) (hClosed : d.isOpen = false) :
    OpenAt (connections.set k d) j p room ↔ OpenAt connections j p room ∧ j ≠ k := by
  by_cases hj : j = k
  · subst hj
    rw [openAt_set_self hk, hClosed]
    simp
  · rw [openAt_set_of_ne hj]
    exact (and_iff_left hj).symm

theorem users_set (hk : connections[k]? = some c) (hUser : d.userID = c.userID) :
    (connections.set k d).map Connection.userID = connections.map Connection.userID := by
  obtain ⟨hLt, hGet⟩ := List.getElem?_eq_some_iff.mp hk
  rw [List.map_set, hUser, ← hGet]
  apply List.ext_getElem?
  intro i
  by_cases hi : i = k
  · subst hi
    simp [hLt]
  · rw [List.getElem?_set_ne (Ne.symm hi)]

theorem OpenAt.user_unique (hUsers : (connections.map Connection.userID).Nodup)
    (h : OpenAt connections j p room) (hk : connections[k]? = some c) (hUser : c.userID = p) :
    j = k := by
  obtain ⟨e, he, _, hOwner, _⟩ := h
  obtain ⟨hj, _⟩ := List.getElem?_eq_some_iff.mp he
  apply (List.getElem?_inj (by simpa using hj) hUsers).mp
  rw [List.getElem?_map, List.getElem?_map, he, hk, Option.map_some, Option.map_some, hOwner, hUser]

end Streams

section Steps

variable {s t : ServerState}

theorem ServerState.Live.replace (h : s.Live) {k : Nat} {c d : Connection}
    (hk : s.connections[k]? = some c) (hOpen : d.isOpen = c.isOpen)
    (hUser : d.userID = c.userID) (hRoom : d.room = c.room) :
    ServerState.Live { s with connections := s.connections.set k d } := by
  constructor
  · rw [users_set hk hUser]
    exact h.users
  · intro p room
    simp only [openAt_set_same hk hOpen hUser hRoom, h.member]
  · intro p j
    simp only [openAt_set_same hk hOpen hUser hRoom, h.session]

theorem ServerState.Live.connect (h : s.Live) {userID : String}
    (hFresh : userID ∉ s.connections.map Connection.userID) (room : RoomID) :
    ServerState.Live { s with
      registryCalls := s.registryCalls ++ [.subscribe userID room s.connections.length]
      connections := s.connections ++ [
        { userID := userID, room := room, isOpen := true, connectedUserEvent := [],
          sent := [] }] } := by
  constructor
  · rw [List.map_append]
    exact h.users.append (List.nodup_singleton _) (by simpa using hFresh)
  · intro p room'
    rw [member_subscribe, h.member]
    simp only [openAt_concat]
    constructor
    · rintro (⟨rfl, rfl⟩ | ⟨k, hk⟩)
      · exact ⟨_, .inr ⟨rfl, rfl, rfl⟩⟩
      · exact ⟨k, .inl hk⟩
    · rintro ⟨k, hk | ⟨_, rfl, rfl⟩⟩
      · exact .inr ⟨k, hk⟩
      · exact .inl ⟨rfl, rfl⟩
  · intro p k
    rw [session_subscribe]
    simp only [openAt_concat]
    split
    · rename_i hUser
      subst hUser
      constructor
      · intro hk
        exact ⟨room, .inr ⟨(Option.some.inj hk).symm, rfl, rfl⟩⟩
      · rintro ⟨room', ⟨c, hc, _, rfl, _⟩ | ⟨rfl, _⟩⟩
        · exact absurd (List.mem_map_of_mem (List.mem_of_getElem? hc)) hFresh
        · rfl
    · rename_i hUser
      rw [h.session]
      constructor
      · rintro ⟨room', hk⟩
        exact ⟨room', .inl hk⟩
      · rintro ⟨room', hk | ⟨_, rfl, _⟩⟩
        · exact ⟨room', hk⟩
        · exact absurd rfl hUser

/-- A stream returns and leaves its room. The participant has no other stream. -/
theorem ServerState.Live.close (h : s.Live) {k : Nat} {c d : Connection}
    (hk : s.connections[k]? = some c) (hClosed : d.isOpen = false)
    (hUser : d.userID = c.userID) :
    ServerState.Live { s with
      registryCalls := s.registryCalls ++ [.unsubscribe c.userID c.room]
      connections := s.connections.set k d } := by
  constructor
  · rw [users_set hk hUser]
    exact h.users
  · intro p room
    rw [member_unsubscribe, h.member]
    simp only [openAt_set_closed hk hClosed]
    constructor
    · rintro ⟨⟨j, hj⟩, hOther⟩
      refine ⟨j, hj, ?_⟩
      rintro rfl
      obtain ⟨e, he, _, rfl, rfl⟩ := hj
      obtain rfl := Option.some.inj (hk.symm.trans he)
      exact hOther ⟨rfl, rfl⟩
    · rintro ⟨j, hj, hjk⟩
      refine ⟨⟨j, hj⟩, ?_⟩
      rintro ⟨rfl, _⟩
      exact hjk (hj.user_unique h.users hk rfl)
  · intro p j
    rw [session_unsubscribe]
    simp only [openAt_set_closed hk hClosed]
    split
    · rename_i hp
      subst hp
      constructor
      · rintro ⟨⟩
      · rintro ⟨room, hj, hjk⟩
        exact absurd (hj.user_unique h.users hk rfl) hjk
    · rename_i hp
      rw [h.session]
      constructor
      · rintro ⟨room, hj⟩
        refine ⟨room, hj, ?_⟩
        rintro rfl
        obtain ⟨e, he, _, rfl, _⟩ := hj
        obtain rfl := Option.some.inj (hk.symm.trans he)
        exact hp rfl
      · rintro ⟨room, hj, _⟩
        exact ⟨room, hj⟩

theorem ServerState.Live.steps {o : Orchestrator} {a : ServerAction} (h : s.Live)
    (hFresh : s.FreshUser a) (hStep : o.Steps s a t) : t.Live := by
  cases hStep with
  | rejected cmd admitted => exact h
  | post cmd _ => exact { h with }
  | analyze e _ => exact { h with }
  | respond segment _ => exact { h with }
  | connect userID room => exact h.connect hFresh room
  | disconnect k c hc => exact h.close hc rfl rfl
  | pool action r hEffect => exact { h with }
  | moderation action r hEffect => exact { h with }
  | start crew hStart => exact { h with }
  | receive evt rest crew hQueue hTake => exact { h with }
  | fanout i order m hJob hOrder => exact { h with }
  | consume i f b hJob _ => exact { h with }
  | enrich i segment hJob => exact { h with }
  | returned i n hJob _ => exact { h with }
  | recovered i n hJob _ => exact { h with }
  | quit crew _ _ hQuit => exact { h with }
  | buffer action b _ _ => exact { h with }
  | unstored i ok m _ => exact { h with }
  | dropped i k ok m _ => exact { h with }
  | store i m d hd hDisk => exact { h with }
  | enqueue i k m c hd hc =>
    have hQueued := h.replace
      (d := { c with connectedUserEvent := c.connectedUserEvent ++ [m] }) hc rfl rfl rfl
    exact { hQueued with }
  | send k c m rest e hc hQueue hCarried => exact h.replace hc rfl rfl rfl
  | sendFails k c m rest hc hQueue => exact h.close hc rfl rfl
  | passOver k ok c m rest hc hQueue => exact h.replace hc rfl rfl rfl
  | stop phase _ => exact { h with }

theorem live_of_reaches {o : Orchestrator}
    (h : o.machine.Reaches ServerState.FreshUser s) : s.Live := by
  apply Machine.Reaches.invariant _ _ h
  · constructor
    · exact List.nodup_nil
    · intro p room
      simp [Orchestrator.machine, member, OpenAt]
    · intro p k
      simp [Orchestrator.machine, session, connected, OpenAt]
  · intro s a t hLive hFresh hStep
    exact hLive.steps hFresh (Orchestrator.steps_of_step hStep)

end Steps

/-! ## What the registry keeps and answers -/

section Answers

variable {s : ServerState}

theorem mem_openIn {room : RoomID} {k : Nat} :
    k ∈ s.openIn room ↔ ∃ p, OpenAt s.connections k p room := by
  simp only [ServerState.openIn, List.mem_filter, List.mem_range, OpenAt]
  constructor
  · rintro ⟨_, hAny⟩
    obtain ⟨c, hc, hSeat⟩ := (Option.any_eq_true _ _).mp hAny
    obtain ⟨hOpen, hRoom⟩ := Bool.and_eq_true_iff.mp hSeat
    exact ⟨c.userID, c, hc, hOpen, rfl, of_decide_eq_true hRoom⟩
  · rintro ⟨p, c, hc, hOpen, _, hRoom⟩
    obtain ⟨hLt, _⟩ := List.getElem?_eq_some_iff.mp hc
    exact ⟨hLt, by simp [hc, hOpen, hRoom]⟩

theorem openIn_nodup (room : RoomID) : (s.openIn room).Nodup :=
  List.nodup_range.filter _

theorem mem_openUsers {p : String} :
    p ∈ s.openUsers ↔ ∃ k room, OpenAt s.connections k p room := by
  simp only [ServerState.openUsers, List.mem_map, List.mem_filter, OpenAt]
  constructor
  · rintro ⟨c, ⟨hMem, hOpen⟩, rfl⟩
    obtain ⟨k, hk⟩ := List.getElem?_of_mem hMem
    exact ⟨k, c.room, c, hk, hOpen, rfl, rfl⟩
  · rintro ⟨k, room, c, hc, hOpen, rfl, _⟩
    exact ⟨c, ⟨List.mem_of_getElem? hc, hOpen⟩, rfl⟩

theorem ServerState.Live.sinks_perm (h : s.Live) (hDelivers : s.Delivers) {room : RoomID}
    {order : List String} (hOrder : (registryAfter s.registryCalls).Visits room order) :
    ((registryAfter s.registryCalls).getSinksForRoom room order).Perm (s.openIn room) := by
  have hPerm := getSinksForRoom_perm hOrder
  have hNodup := hDelivers.sinks_nodup hOrder
  refine (List.perm_ext_iff_of_nodup hNodup (openIn_nodup room)).mpr ?_
  intro k
  rw [hPerm.mem_iff, List.mem_filterMap, mem_openIn]
  constructor
  · rintro ⟨p, hMember, hSession⟩
    obtain ⟨j, hj⟩ := (h.member p room).mp (mem_members.mp hMember)
    obtain ⟨room', hk⟩ := (h.session p k).mp hSession
    -- the participant's only stream is the one in this room
    obtain ⟨c, hc, _, hUser, _⟩ := hk
    obtain rfl := hj.user_unique h.users hc hUser
    exact ⟨p, hj⟩
  · rintro ⟨p, hk⟩
    refine ⟨p, mem_members.mpr ((h.member p room).mpr ⟨k, hk⟩), ?_⟩
    exact (h.session p k).mpr ⟨room, hk⟩

theorem ServerState.Live.sessions_perm (h : s.Live) :
    (registryAfter s.registryCalls).sessions.keys.Perm s.openUsers := by
  have hUsers : s.openUsers.Nodup := h.users.sublist (List.filter_sublist.map _)
  refine (List.perm_ext_iff_of_nodup (OrderedMap.keys_nodup _) hUsers).mpr ?_
  intro p
  have hSession := (registryAfter_reflects s.registryCalls).session p
  rw [OrderedMap.mem_keys_iff, hSession, mem_openUsers]
  constructor
  · rintro ⟨k, hk⟩
    exact ⟨k, (h.session p k).mp hk⟩
  · rintro ⟨k, hk⟩
    exact ⟨k, (h.session p k).mpr hk⟩

theorem ServerState.Live.mem_rooms (h : s.Live) (room : RoomID) :
    room ∈ (registryAfter s.registryCalls).roomMembers.keys ↔ s.openIn room ≠ [] := by
  have hReflects := registryAfter_reflects s.registryCalls
  rw [OrderedMap.mem_keys_iff]
  constructor
  · rintro ⟨set, hSet⟩
    obtain ⟨⟨p, _⟩, hp⟩ := List.exists_mem_of_ne_nil _ (hReflects.nonempty room set hSet)
    have hIn : (registryAfter s.registryCalls).InRoom p room :=
      ⟨set, hSet, List.mem_map_of_mem hp⟩
    obtain ⟨k, hk⟩ := (h.member p room).mp ((hReflects.inRoom p room).mp hIn)
    exact List.ne_nil_of_mem (mem_openIn.mpr ⟨p, hk⟩)
  · intro hOpen
    obtain ⟨k, hk⟩ := List.exists_mem_of_ne_nil _ hOpen
    obtain ⟨p, hp⟩ := mem_openIn.mp hk
    obtain ⟨set, hSet, _⟩ := (hReflects.inRoom p room).mpr ((h.member p room).mpr ⟨k, hp⟩)
    exact ⟨set, hSet⟩

end Answers

/-- In every run in which streams get fresh identifiers, the registry answers
for a room exactly the streams open in it, each once; it keeps one session for
each open stream and a set for each room with one. So `Fanout` hands a message
to all the streams open in its room at that time, to the disk, and to nobody
else. -/
theorem live_rooms {o : Orchestrator} {s : ServerState}
    (h : o.machine.Reaches ServerState.FreshUser s) :
    (∀ room order, (registryAfter s.registryCalls).Visits room order →
      ((registryAfter s.registryCalls).getSinksForRoom room order).Perm (s.openIn room)) ∧
    (registryAfter s.registryCalls).sessions.keys.Perm s.openUsers ∧
    (∀ room, room ∈ (registryAfter s.registryCalls).roomMembers.keys ↔ s.openIn room ≠ []) ∧
    ∀ i order t, o.step s (.fanout (.fanout i order)) = some t →
      ∃ r, t.routed = s.routed ++ [r] ∧ t.deliveries = s.deliveries ++ r.deliveries ∧
        r.sinks.Perm (s.openIn (roomID r.message.carried)) := by
  have hLive := live_of_reaches h
  have hDelivers := delivers_of_reachable h.reachable
  refine ⟨fun room order => hLive.sinks_perm hDelivers, hLive.sessions_perm, hLive.mem_rooms, ?_⟩
  intro i order t hStep
  cases Orchestrator.steps_of_step hStep with
  | fanout _ _ m hJob hOrder =>
    exact ⟨_, rfl, rfl, hLive.sinks_perm hDelivers hOrder⟩

def sampleRooms : ServerState :=
  (sampleOrchestrator.machine.restrict ServerState.FreshUser).after sampleDelivery

/-- Two listeners joined room 1 and one room 2; one of room 1 has left. -/
theorem live_rooms_sample :
    sampleRooms.connections.length = 3 ∧ sampleRooms.openIn 1 = [0] ∧ sampleRooms.openIn 2 = [2] ∧
      (registryAfter sampleRooms.registryCalls).sessions.keys.Perm ["ann", "eve"] := by
  obtain ⟨_, hSessions, _⟩ :=
    live_rooms (Machine.reaches_after_restrict sampleOrchestrator.machine _ sampleDelivery)
  have hOpen : (sampleRooms.connections.length = 3 ∧ sampleRooms.openIn 1 = [0] ∧
      sampleRooms.openIn 2 = [2]) ∧ sampleRooms.openUsers = ["ann", "eve"] := by
    decide +kernel
  exact ⟨hOpen.1.1, hOpen.1.2.1, hOpen.1.2.2, hOpen.2 ▸ hSessions⟩

end ChatLab.Runtime
