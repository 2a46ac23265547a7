import ChatLab.Foundation.OrderedMap
import Mathlib.Data.List.Dedup
import Mathlib.Data.List.Induction
import Mathlib.Data.String.Basic

/-!
# Rooms and their members

The registry keeps one session for each participant, across rooms, and the
set of participants of each room. A history is the sequence of calls made
under the lock. Which participants are members of a room, and which sink
each of them gave last, is read off the history alone, so that the two maps
can be compared with it.

The order in which `range` visits a set is an argument, and sinks are opaque
values.
-/

namespace ChatLab.Runtime

open Foundation

abbrev RoomID := Int

abbrev MemberSet := OrderedMap String Unit

structure Registry (S : Type) where
  sessions : OrderedMap String S
  roomMembers : OrderedMap RoomID MemberSet

inductive RegistryCall (S : Type)
  | subscribe (participantID : String) (roomID : RoomID) (sink : S)
  | unsubscribe (participantID : String) (roomID : RoomID)
deriving DecidableEq

section Operations

variable {S : Type}

def newRegistry : Registry S where
  sessions := .empty
  roomMembers := .empty

/-- `GetSinksForRoom`; `order` is the order in which the members are visited. -/
def Registry.getSinksForRoom (r : Registry S) (roomID : RoomID) (order : List String) : List S :=
  match r.roomMembers.get? roomID with
  | none => []
  | some _ => order.filterMap r.sessions.get?

/-- The orders in which `range` may visit the members of a room. -/
def Registry.Visits (r : Registry S) (roomID : RoomID) (order : List String) : Prop :=
  match r.roomMembers.get? roomID with
  | none => order = []
  | some members => order.Perm members.keys

instance (r : Registry S) (roomID : RoomID) (order : List String) :
    Decidable (r.Visits roomID order) :=
  match h : r.roomMembers.get? roomID with
  | none => decidable_of_iff (order = []) (by rw [Registry.Visits, h])
  | some members => decidable_of_iff (order.Perm members.keys) (by rw [Registry.Visits, h])

def Registry.subscribe (r : Registry S) (participantID : String) (roomID : RoomID) (sink : S) :
    Registry S :=
  let members := (r.roomMembers.get? roomID).getD .empty
  { sessions := r.sessions.insert participantID sink
    roomMembers := r.roomMembers.insert roomID (members.insert participantID ()) }

/-- `Unsubscribe` drops the session whatever other rooms the participant is in. -/
def Registry.unsubscribe (r : Registry S) (participantID : String) (roomID : RoomID) :
    Registry S :=
  let sessions := r.sessions.erase participantID
  match r.roomMembers.get? roomID with
  | none => { r with sessions := sessions }
  | some members =>
    let rest := members.erase participantID
    if rest.entries = [] then
      { sessions := sessions, roomMembers := r.roomMembers.erase roomID }
    else { sessions := sessions, roomMembers := r.roomMembers.insert roomID rest }

def Registry.apply (r : Registry S) : RegistryCall S → Registry S
  | .subscribe p room sink => r.subscribe p room sink
  | .unsubscribe p room => r.unsubscribe p room

def registryAfter (h : List (RegistryCall S)) : Registry S :=
  h.foldl Registry.apply newRegistry

end Operations

/-! ## What the history says -/

namespace RegistryCall

variable {S : Type}

def participant : RegistryCall S → String
  | subscribe p _ _ => p
  | unsubscribe p _ => p

def room : RegistryCall S → RoomID
  | subscribe _ room _ => room
  | unsubscribe _ room => room

def sink? : RegistryCall S → Option S
  | subscribe _ _ sink => some sink
  | unsubscribe _ _ => none

/-- The last call that a participant made about a room was a Subscribe. -/
def member (h : List (RegistryCall S)) (p : String) (room : RoomID) : Bool :=
  ((h.filter fun c => c.participant = p ∧ c.room = room).getLast?).any fun c => c.sink?.isSome

/-- The last call that a participant made, about whichever room, was a Subscribe. -/
def connected (h : List (RegistryCall S)) (p : String) : Bool :=
  ((h.filter fun c => c.participant = p).getLast?).any fun c => c.sink?.isSome

def lastSink (h : List (RegistryCall S)) (p : String) : Option S :=
  ((h.filter fun c => c.participant = p).filterMap sink?).getLast?

/-- The participants with their calls, each once, that are members of a room. -/
def members (h : List (RegistryCall S)) (room : RoomID) : List String :=
  (h.map participant).dedup.filter fun p => member h p room

def expectedSinks (h : List (RegistryCall S)) (room : RoomID) : List S :=
  (members h room).filterMap (lastSink h)

section Snoc

variable (h : List (RegistryCall S)) (p q : String) (room room' : RoomID) (sink : S)

theorem member_snoc (c : RegistryCall S) : member (h ++ [c]) q room' =
    if c.participant = q ∧ c.room = room' then c.sink?.isSome else member h q room' := by
  simp only [member, List.filter_append, List.filter_singleton]
  split <;> rename_i hc
  · simp [hc]
  · simp [hc]

theorem connected_snoc (c : RegistryCall S) : connected (h ++ [c]) q =
    if c.participant = q then c.sink?.isSome else connected h q := by
  simp only [connected, List.filter_append, List.filter_singleton]
  split <;> rename_i hc
  · simp [hc]
  · simp [hc]

theorem lastSink_snoc (c : RegistryCall S) : lastSink (h ++ [c]) q =
    if c.participant = q then c.sink?.or (lastSink h q) else lastSink h q := by
  simp only [lastSink, List.filter_append, List.filter_singleton]
  split <;> rename_i hc
  · cases hSink : c.sink? <;> simp [hc, hSink]
  · simp [hc]

theorem member_subscribe : member (h ++ [subscribe p room sink]) q room' = true ↔
    (q = p ∧ room' = room) ∨ member h q room' = true := by
  rw [member_snoc]
  split <;> rename_i hc
  · obtain ⟨rfl, rfl⟩ := hc
    simp [sink?, participant, RegistryCall.room]
  · have hOther : ¬ (q = p ∧ room' = room) := fun hq => hc ⟨hq.1.symm, hq.2.symm⟩
    simp [hOther]

theorem member_unsubscribe : member (h ++ [unsubscribe p room]) q room' = true ↔
    member h q room' = true ∧ ¬ (q = p ∧ room' = room) := by
  rw [member_snoc]
  split <;> rename_i hc
  · obtain ⟨rfl, rfl⟩ := hc
    simp [sink?, participant, RegistryCall.room]
  · have hOther : ¬ (q = p ∧ room' = room) := fun hq => hc ⟨hq.1.symm, hq.2.symm⟩
    simp [hOther]

theorem connected_subscribe : connected (h ++ [subscribe p room sink]) q =
    if q = p then true else connected h q := by
  rw [connected_snoc]
  exact if_congr eq_comm rfl rfl

theorem connected_unsubscribe : connected (h ++ [unsubscribe p room]) q =
    if q = p then false else connected h q := by
  rw [connected_snoc]
  exact if_congr eq_comm rfl rfl

theorem lastSink_subscribe : lastSink (h ++ [subscribe p room sink]) q =
    if q = p then some sink else lastSink h q := by
  rw [lastSink_snoc]
  exact if_congr eq_comm rfl rfl

theorem lastSink_unsubscribe : lastSink (h ++ [unsubscribe p room]) q = lastSink h q := by
  rw [lastSink_snoc]
  exact ite_self _

end Snoc

theorem exists_lastSink {h : List (RegistryCall S)} {p : String} {room : RoomID}
    (hMember : member h p room = true) : ∃ sink, lastSink h p = some sink := by
  induction h using List.reverseRecOn with
  | nil => simp [member] at hMember
  | append_singleton h c ih =>
    rw [member_snoc] at hMember
    rw [lastSink_snoc]
    split at hMember
    · rename_i hc
      obtain ⟨sink, hSink⟩ := Option.isSome_iff_exists.mp hMember
      exact ⟨sink, by simp [hc.1, hSink]⟩
    · obtain ⟨sink, hSink⟩ := ih hMember
      split
      · exact ⟨c.sink?.getD sink, by cases c.sink? <;> simp [hSink]⟩
      · exact ⟨sink, hSink⟩

theorem mem_members {h : List (RegistryCall S)} {p : String} {room : RoomID} :
    p ∈ members h room ↔ member h p room = true := by
  rw [members, List.mem_filter, List.mem_dedup, and_iff_right_iff_imp]
  intro hMember
  obtain ⟨c, hLast, _⟩ := (Option.any_eq_true _ _).mp hMember
  obtain ⟨hc, hNames⟩ := List.mem_filter.mp (List.mem_of_getLast? hLast)
  exact List.mem_map.mpr ⟨c, hc, (of_decide_eq_true hNames).1⟩

end RegistryCall

/-! ## The maps against the history -/

open RegistryCall

variable {S : Type}

def Registry.InRoom (r : Registry S) (p : String) (room : RoomID) : Prop :=
  ∃ set, r.roomMembers.get? room = some set ∧ p ∈ set.keys

theorem mem_keys_erase (set : MemberSet) (p q : String) :
    q ∈ (set.erase p).keys ↔ q ∈ set.keys ∧ q ≠ p := by
  rw [OrderedMap.mem_keys_iff, OrderedMap.mem_keys_iff, OrderedMap.get?_erase]
  split
  · simp [*]
  · simp [*]

theorem inRoom_subscribe (r : Registry S) (p q : String) (room room' : RoomID) (sink : S) :
    (r.subscribe p room sink).InRoom q room' ↔ (q = p ∧ room' = room) ∨ r.InRoom q room' := by
  simp only [Registry.InRoom, Registry.subscribe, OrderedMap.get?_insert]
  by_cases hRoom : room' = room
  · subst hRoom
    simp only [if_true, Option.some.injEq, exists_eq_left', OrderedMap.mem_keys_insert, and_true]
    refine or_congr_right ?_
    cases r.roomMembers.get? room' with
    | none => simp [OrderedMap.keys, OrderedMap.empty]
    | some members => simp
  · simp [hRoom]

theorem inRoom_unsubscribe (r : Registry S) (p q : String) (room room' : RoomID) :
    (r.unsubscribe p room).InRoom q room' ↔ r.InRoom q room' ∧ ¬ (q = p ∧ room' = room) := by
  cases hGet : r.roomMembers.get? room with
  | none =>
    simp only [Registry.InRoom, Registry.unsubscribe, hGet]
    refine (and_iff_left_of_imp ?_).symm
    rintro ⟨set, hSet, _⟩ ⟨_, rfl⟩
    rw [hGet] at hSet
    cases hSet
  | some members =>
    by_cases hRoom : room' = room
    · subst hRoom
      -- the set is kept under the room's key unless it became empty
      have hKept : (r.unsubscribe p room').InRoom q room' ↔ q ∈ (members.erase p).keys := by
        simp only [Registry.InRoom, Registry.unsubscribe, hGet]
        split
        · rename_i hNone
          simp [OrderedMap.keys, hNone]
        · simp
      rw [hKept, mem_keys_erase]
      simp [Registry.InRoom, hGet]
    · simp only [Registry.InRoom, Registry.unsubscribe, hGet]
      split
      · simp [OrderedMap.get?_erase, hRoom]
      · simp [OrderedMap.get?_insert, hRoom]

structure Registry.Reflects (r : Registry S) (h : List (RegistryCall S)) : Prop where
  session : ∀ p, r.sessions.get? p = if connected h p then lastSink h p else none
  inRoom : ∀ p room, r.InRoom p room ↔ member h p room = true
  nonempty : ∀ room set, r.roomMembers.get? room = some set → set.entries ≠ []

theorem Registry.Reflects.subscribe {r : Registry S} {h : List (RegistryCall S)}
    (hr : r.Reflects h) (p : String) (room : RoomID) (sink : S) :
    (r.subscribe p room sink).Reflects (h ++ [RegistryCall.subscribe p room sink]) := by
  constructor
  · intro q
    rw [connected_subscribe, lastSink_subscribe]
    simp only [Registry.subscribe, OrderedMap.get?_insert, hr.session q]
    split <;> simp
  · intro q room'
    rw [inRoom_subscribe, member_subscribe, hr.inRoom]
  · intro room' set hSet
    simp only [Registry.subscribe, OrderedMap.get?_insert] at hSet
    split at hSet
    · obtain rfl := Option.some.inj hSet
      intro hNone
      have hp : p ∈ ((((r.roomMembers.get? room).getD .empty) : MemberSet).insert p ()).keys :=
        (OrderedMap.mem_keys_insert _ _ _ _).mpr (Or.inl rfl)
      rw [OrderedMap.keys, hNone] at hp
      cases hp
    · exact hr.nonempty room' set hSet

theorem Registry.Reflects.unsubscribe {r : Registry S} {h : List (RegistryCall S)}
    (hr : r.Reflects h) (p : String) (room : RoomID) :
    (r.unsubscribe p room).Reflects (h ++ [RegistryCall.unsubscribe p room]) := by
  constructor
  · intro q
    have hSessions : (r.unsubscribe p room).sessions = r.sessions.erase p := by
      simp only [Registry.unsubscribe]
      split
      · rfl
      · split <;> rfl
    rw [connected_unsubscribe, lastSink_unsubscribe, hSessions, OrderedMap.get?_erase, hr.session q]
    split <;> simp
  · intro q room'
    rw [inRoom_unsubscribe, member_unsubscribe, hr.inRoom]
  · intro room' set hSet
    simp only [Registry.unsubscribe] at hSet
    split at hSet
    · exact hr.nonempty room' set hSet
    · rename_i members _
      split at hSet
      · rw [OrderedMap.get?_erase] at hSet
        split at hSet
        · cases hSet
        · exact hr.nonempty room' set hSet
      · rename_i hRest
        rw [OrderedMap.get?_insert] at hSet
        split at hSet
        · exact Option.some.inj hSet ▸ hRest
        · exact hr.nonempty room' set hSet

theorem registryAfter_reflects (h : List (RegistryCall S)) : (registryAfter h).Reflects h := by
  induction h using List.reverseRecOn with
  | nil =>
    constructor
    · exact fun p => rfl
    · intro p room
      simp [Registry.InRoom, registryAfter, newRegistry, member]
    · intro room set hSet
      simp [registryAfter, newRegistry] at hSet
  | append_singleton h c ih =>
    rw [registryAfter, List.foldl_append]
    cases c with
    | subscribe p room sink => exact ih.subscribe p room sink
    | unsubscribe p room => exact ih.unsubscribe p room

/-! ## Which rooms are served -/

def Registry.NoEmptySets (r : Registry S) : Prop :=
  ∀ room set, r.roomMembers.get? room = some set → set.entries ≠ []

/-- In every visiting order the sinks of a room are, up to order, one for each
member: the one that the member gave in its last Subscribe. -/
def Serves (h : List (RegistryCall S)) (room : RoomID) : Prop :=
  ∀ order, (registryAfter h).Visits room order →
    ((registryAfter h).getSinksForRoom room order).Perm (expectedSinks h room)

/-- The Unsubscribe of a participant from one room does not change what
another room answers. -/
def KeepsRoom (h : List (RegistryCall S)) (p : String) (room other : RoomID) : Prop :=
  ∀ before after, (registryAfter h).Visits other before →
    (registryAfter (h ++ [.unsubscribe p room])).Visits other after →
    ((registryAfter (h ++ [.unsubscribe p room])).getSinksForRoom other after).Perm
      ((registryAfter h).getSinksForRoom other before)

/-- No participant is unsubscribed from a room while a member of another. -/
def OneRoomAtATime (h : List (RegistryCall S)) : Prop :=
  ∀ h' p room, h' ++ [.unsubscribe p room] <+: h → ∀ other, other ≠ room →
    member h' p other = false

theorem filterMap_sublist {α β : Type} {l : List α} {f g : α → Option β}
    (hfg : ∀ x ∈ l, f x = none ∨ f x = g x) : (l.filterMap f).Sublist (l.filterMap g) := by
  induction l with
  | nil => exact List.Sublist.refl _
  | cons x l ih =>
    have hRest := ih fun y hy => hfg y (List.mem_cons_of_mem _ hy)
    rw [List.filterMap_cons, List.filterMap_cons]
    obtain hNone | hEq := hfg x List.mem_cons_self
    · rw [hNone]
      cases g x with
      | none => exact hRest
      | some b => exact hRest.cons b
    · rw [hEq]
      cases g x with
      | none => exact hRest
      | some b => exact hRest.cons_cons b

theorem filterMap_perm_iff {α β : Type} {l : List α} {f g : α → Option β}
    (hfg : ∀ x ∈ l, f x = none ∨ f x = g x) :
    (l.filterMap f).Perm (l.filterMap g) ↔ ∀ x ∈ l, f x = g x := by
  refine ⟨fun hPerm => ?_, fun hEq => List.filterMap_congr hEq ▸ List.Perm.refl _⟩
  induction l with
  | nil => exact nofun
  | cons x l ih =>
    have hTail : ∀ y ∈ l, f y = none ∨ f y = g y := fun y hy => hfg y (List.mem_cons_of_mem _ hy)
    have hLength := hPerm.length_eq
    have hShorter := (filterMap_sublist hTail).length_le
    rw [List.filterMap_cons, List.filterMap_cons] at hPerm hLength
    have hHead : f x = g x := by
      obtain hNone | hEq := hfg x List.mem_cons_self
      · cases hg : g x with
        | none => exact hNone
        | some b =>
          simp only [hNone, hg, List.length_cons] at hLength
          omega
      · exact hEq
    rw [hHead] at hPerm
    intro y hy
    obtain rfl | hy := List.mem_cons.mp hy
    · exact hHead
    · refine ih hTail ?_ y hy
      cases hg : g x with
      | none => rwa [hg] at hPerm
      | some b =>
        rw [hg] at hPerm
        exact (List.perm_cons b).mp hPerm

/-- The session of a participant as the history gives it. -/
def session (h : List (RegistryCall S)) (p : String) : Option S :=
  if connected h p then lastSink h p else none

theorem members_nodup (h : List (RegistryCall S)) (room : RoomID) : (members h room).Nodup :=
  (List.nodup_dedup _).filter _

theorem visits_perm_members {h : List (RegistryCall S)} {room : RoomID} {order : List String}
    (hOrder : (registryAfter h).Visits room order) : order.Perm (members h room) := by
  have hReflects := registryAfter_reflects h
  have hMember : ∀ p, p ∈ members h room ↔ (registryAfter h).InRoom p room := fun p => by
    rw [mem_members, hReflects.inRoom]
  rw [Registry.Visits] at hOrder
  split at hOrder
  · rename_i hGet
    have hNone : members h room = [] := List.eq_nil_iff_forall_not_mem.mpr fun p hp => by
      obtain ⟨set, hSet, _⟩ := (hMember p).mp hp
      rw [hGet] at hSet
      cases hSet
    rw [hOrder, hNone]
  · rename_i set hGet
    refine hOrder.trans ((List.perm_ext_iff_of_nodup set.keys_nodup (members_nodup h room)).mpr ?_)
    intro p
    rw [hMember, Registry.InRoom, hGet]
    simp

theorem getSinksForRoom_perm {h : List (RegistryCall S)} {room : RoomID} {order : List String}
    (hOrder : (registryAfter h).Visits room order) :
    ((registryAfter h).getSinksForRoom room order).Perm
      ((members h room).filterMap (session h)) := by
  have hSessions : (registryAfter h).sessions.get? = session h :=
    funext (registryAfter_reflects h).session
  have hPerm := visits_perm_members hOrder
  rw [Registry.Visits] at hOrder
  rw [Registry.getSinksForRoom]
  split
  · rename_i hGet
    rw [hGet] at hOrder
    rw [hOrder] at hPerm
    rw [List.nil_perm.mp hPerm]
    exact List.Perm.refl _
  · rw [hSessions]
    exact hPerm.filterMap _

theorem exists_subscribe_of_session {h : List (RegistryCall S)} {p : String} {sink : S}
    (hSink : session h p = some sink) : ∃ room, .subscribe p room sink ∈ h := by
  rw [session] at hSink
  split at hSink
  · rw [lastSink] at hSink
    obtain ⟨c, hc, hGiven⟩ := List.mem_filterMap.mp (List.mem_of_getLast? hSink)
    obtain ⟨hMem, hNames⟩ := List.mem_filter.mp hc
    cases c with
    | subscribe q room sink' =>
      obtain rfl : q = p := of_decide_eq_true hNames
      obtain rfl : sink' = sink := Option.some.inj hGiven
      exact ⟨room, hMem⟩
    | unsubscribe q room => cases hGiven
  · cases hSink

/-- When each sink is given by one participant only, no call lists it twice. -/
theorem getSinksForRoom_nodup {h : List (RegistryCall S)}
    (hOwner : ∀ p q room room' sink, .subscribe p room sink ∈ h → .subscribe q room' sink ∈ h →
      p = q)
    {room : RoomID} {order : List String} (hOrder : (registryAfter h).Visits room order) :
    ((registryAfter h).getSinksForRoom room order).Nodup := by
  rw [(getSinksForRoom_perm hOrder).nodup_iff]
  apply (members_nodup h room).filterMap
  intro p q sink hp hq
  obtain ⟨r, hp⟩ := exists_subscribe_of_session hp
  obtain ⟨r', hq⟩ := exists_subscribe_of_session hq
  exact hOwner p q r r' sink hp hq

theorem exists_visits (r : Registry S) (room : RoomID) : ∃ order, r.Visits room order := by
  cases hGet : r.roomMembers.get? room with
  | none => exact ⟨[], by rw [Registry.Visits, hGet]⟩
  | some set => exact ⟨set.keys, by rw [Registry.Visits, hGet]⟩

theorem serves_iff (h : List (RegistryCall S)) (room : RoomID) :
    Serves h room ↔ ∀ p, member h p room = true → connected h p = true := by
  have hCases : ∀ p ∈ members h room, session h p = none ∨ session h p = lastSink h p := by
    intro p _
    rw [session]
    split
    · exact Or.inr rfl
    · exact Or.inl rfl
  have hPerm : Serves h room ↔
      ((members h room).filterMap (session h)).Perm (expectedSinks h room) := by
    constructor
    · intro hServes
      obtain ⟨order, hOrder⟩ := exists_visits (registryAfter h) room
      exact (getSinksForRoom_perm hOrder).symm.trans (hServes order hOrder)
    · exact fun hExpected order hOrder => (getSinksForRoom_perm hOrder).trans hExpected
  rw [hPerm, expectedSinks, filterMap_perm_iff hCases]
  constructor
  · intro hEq p hp
    obtain ⟨sink, hSink⟩ := exists_lastSink hp
    have hSession := hEq p (mem_members.mpr hp)
    by_contra hGone
    rw [session, if_neg hGone, hSink] at hSession
    cases hSession
  · intro hConnected p hp
    rw [session, if_pos (hConnected p (mem_members.mp hp))]

theorem members_unsubscribe_perm (h : List (RegistryCall S)) (p : String) {room other : RoomID}
    (hOther : other ≠ room) :
    (members (h ++ [RegistryCall.unsubscribe p room]) other).Perm (members h other) := by
  refine (List.perm_ext_iff_of_nodup (members_nodup _ _) (members_nodup _ _)).mpr fun q => ?_
  rw [mem_members, mem_members, member_unsubscribe]
  simp [hOther]

theorem session_unsubscribe (h : List (RegistryCall S)) (p q : String) (room : RoomID) :
    session (h ++ [RegistryCall.unsubscribe p room]) q = if q = p then none else session h q := by
  rw [session, connected_unsubscribe, lastSink_unsubscribe, session]
  split <;> simp

theorem session_subscribe (h : List (RegistryCall S)) (p q : String) (room : RoomID) (sink : S) :
    session (h ++ [RegistryCall.subscribe p room sink]) q =
      if q = p then some sink else session h q := by
  rw [session, connected_subscribe, lastSink_subscribe, session]
  split <;> simp

/-- The answers before and after are the sinks of the same members. -/
theorem keepsRoom_iff_perm (h : List (RegistryCall S)) (p : String) {room other : RoomID}
    (hOther : other ≠ room) :
    KeepsRoom h p room other ↔
      ((members h other).filterMap fun q => if q = p then none else session h q).Perm
        ((members h other).filterMap (session h)) := by
  have hAfter := (members_unsubscribe_perm h p hOther).filterMap
    (session (h ++ [RegistryCall.unsubscribe p room]))
  simp only [session_unsubscribe] at hAfter
  have hAnswer : ∀ {after : List String},
      (registryAfter (h ++ [RegistryCall.unsubscribe p room])).Visits other after →
      ((registryAfter (h ++ [RegistryCall.unsubscribe p room])).getSinksForRoom other after).Perm
        ((members h other).filterMap fun q => if q = p then none else session h q) := by
    intro after hVisit
    have hSinks := getSinksForRoom_perm hVisit
    simp only [session_unsubscribe] at hSinks
    exact hSinks.trans hAfter
  constructor
  · intro hKeeps
    obtain ⟨before, hBefore⟩ := exists_visits (registryAfter h) other
    obtain ⟨after, hVisit⟩ :=
      exists_visits (registryAfter (h ++ [RegistryCall.unsubscribe p room])) other
    exact (hAnswer hVisit).symm.trans
      ((hKeeps before after hBefore hVisit).trans (getSinksForRoom_perm hBefore))
  · intro hSame before after hBefore hVisit
    exact (hAnswer hVisit).trans (hSame.trans (getSinksForRoom_perm hBefore).symm)

theorem keepsRoom_iff (h : List (RegistryCall S)) (p : String) {room other : RoomID}
    (hOther : other ≠ room) :
    KeepsRoom h p room other ↔ ¬ (member h p other = true ∧ connected h p = true) := by
  have hCases : ∀ q ∈ members h other, (if q = p then none else session h q) = none ∨
      (if q = p then none else session h q) = session h q := by
    intro q _
    split
    · exact Or.inl rfl
    · exact Or.inr rfl
  rw [keepsRoom_iff_perm h p hOther, filterMap_perm_iff hCases]
  constructor
  · rintro hEq ⟨hMember, hConnected⟩
    obtain ⟨sink, hSink⟩ := exists_lastSink hMember
    have hGone := hEq p (mem_members.mpr hMember)
    rw [if_pos rfl, session, if_pos hConnected, hSink] at hGone
    cases hGone
  · intro hNot q hq
    split
    · rename_i hqp
      subst hqp
      rw [session, if_neg fun hConnected => hNot ⟨mem_members.mp hq, hConnected⟩]
    · rfl

theorem connected_of_oneRoom {h : List (RegistryCall S)} (hOne : OneRoomAtATime h) {p : String}
    {room : RoomID} (hMember : member h p room = true) : connected h p = true := by
  induction h using List.reverseRecOn with
  | nil => simp [member] at hMember
  | append_singleton h c ih =>
    have hPrefix : OneRoomAtATime h := fun h' q r hq =>
      hOne h' q r (hq.trans (List.prefix_append _ _))
    cases c with
    | subscribe q r sink =>
      rw [connected_subscribe]
      split
      · rfl
      · rename_i hpq
        obtain ⟨hEq, _⟩ | hMember := (member_subscribe _ _ _ _ _ _).mp hMember
        · exact absurd hEq hpq
        · exact ih hPrefix hMember
    | unsubscribe q r =>
      obtain ⟨hBefore, hNot⟩ := (member_unsubscribe _ _ _ _ _).mp hMember
      rw [connected_unsubscribe]
      split
      · rename_i hpq
        subst hpq
        have hAlone := hOne h p r (List.prefix_refl _) room fun hRoom => hNot ⟨rfl, hRoom⟩
        rw [hAlone] at hBefore
        cases hBefore
      · exact ih hPrefix hBefore

/-- A registry never keeps an empty set. A room is served right exactly when
the last call of each of its members is a Subscribe, and every room is served
right through a whole history, with no Unsubscribe touching another room,
exactly when nobody is unsubscribed while a member of another room. -/
theorem registry_serves_iff (h : List (RegistryCall S)) :
    (registryAfter h).NoEmptySets ∧
      (∀ room, Serves h room ↔ ∀ p, member h p room = true → connected h p = true) ∧
      ((∀ h', h' <+: h → (∀ room, Serves h' room) ∧
          ∀ p room, h' ++ [.unsubscribe p room] <+: h → ∀ other, other ≠ room →
            KeepsRoom h' p room other) ↔
        OneRoomAtATime h) := by
  refine ⟨(registryAfter_reflects h).nonempty, serves_iff h, ?_, ?_⟩
  · intro hRuns h' p room hStep other hOther
    obtain ⟨hServes, hKeeps⟩ := hRuns h' ((List.prefix_append _ _).trans hStep)
    by_contra hMember
    rw [Bool.not_eq_false] at hMember
    exact (keepsRoom_iff h' p hOther).mp (hKeeps p room hStep other hOther)
      ⟨hMember, (serves_iff h' other).mp (hServes other) p hMember⟩
  · intro hOne h' hPrefix
    have hOne' : OneRoomAtATime h' := fun g p room hg => hOne g p room (hg.trans hPrefix)
    refine ⟨fun room => (serves_iff h' room).mpr fun p => connected_of_oneRoom hOne', ?_⟩
    intro p room hStep other hOther
    refine (keepsRoom_iff h' p hOther).mpr fun hBoth => ?_
    rw [hOne h' p room hStep other hOther] at hBoth
    exact Bool.false_ne_true hBoth.1

/-- A participant joins rooms 1 and 2 and leaves room 1: room 2 still lists
the participant but has lost its sink. -/
theorem unsubscribe_drops_other_room :
    member [.subscribe "ann" 1 "stream", .subscribe "ann" 2 "stream", .unsubscribe "ann" 1]
        "ann" 2 = true ∧
      ¬ Serves [.subscribe "ann" 1 "stream", .subscribe "ann" 2 "stream", .unsubscribe "ann" 1] 2 ∧
      ¬ KeepsRoom [.subscribe "ann" 1 "stream", .subscribe "ann" 2 "stream"] "ann" 1 2 := by
  refine ⟨by decide, ?_, ?_⟩
  · rw [serves_iff]
    intro hConnected
    exact absurd (hConnected "ann" (by decide)) (by decide)
  · rw [keepsRoom_iff _ _ (by decide)]
    exact not_not_intro ⟨by decide, by decide⟩

end ChatLab.Runtime
