import ChatLab.Foundation.Bag
import ChatLab.Foundation.Machine
import ChatLab.Storage.MessagePages

/-!
# The chat pipeline

`PostMessage` puts a command on the global channel, pool workers turn it into
a `MessagePosted` event with a new identifier, the moderation worker sanitizes
it, the fan-out starts one goroutine for the disk sink, and that goroutine
stores it. Every message carries, as a ghost, the position of its command and
the identifier the pool worker drew, so that a record can be traced back.

The moderator is any function on the content. Delivery is not claimed: the
channels may stay full and every store may fail. Room sinks, telemetry and the
detected language do not reach the store and are left out.
-/

namespace ChatLab.Workers

open Foundation Storage

structure PostMessageCommand where
  room : Int
  userId : String
  content : String
  createdAt : Int
deriving DecidableEq

structure GetMessageCommand where
  room : Int
  cursor : Option String
deriving DecidableEq

inductive Command
  | postMessage (cmd : PostMessageCommand)
  | getMessage (cmd : GetMessageCommand)
deriving DecidableEq

structure MessagePosted where
  id : UUID
  room : Int
  author : String
  content : String
  atTime : Int
deriving DecidableEq

structure SanitizedMessage where
  id : UUID
  room : Int
  author : String
  content : String
  censoredWords : List String
  atTime : Int
  toxicityScore : Float64
deriving DecidableEq

inductive DomainEvent
  | messagePosted (evt : MessagePosted)
  | sanitizedMessage (evt : SanitizedMessage)
deriving DecidableEq

inductive PostError
  | contentTooLarge
  | serverOverloaded
deriving DecidableEq, Repr

/-- What `PostMessage` puts on the global channel; `admitted` says whether the
channel took the command before the timer fired. -/
def postMessage (maxContentLength : Nat) (cmd : PostMessageCommand) (admitted : Bool) :
    Except PostError Command :=
  if cmd.content.utf8ByteSize > maxContentLength then .error .contentTooLarge
  else if admitted then .ok (.postMessage cmd)
  else .error .serverOverloaded

theorem postMessage_ok {maxContentLength : Nat} {cmd : PostMessageCommand} {admitted : Bool}
    {command : Command} (h : postMessage maxContentLength cmd admitted = .ok command) :
    admitted = true ∧ command = .postMessage cmd := by
  unfold postMessage at h
  split at h
  · cases h
  · split at h
    · cases h
      exact ⟨‹_›, rfl⟩
    · cases h

def toMessagePostedEvent (c : PostMessageCommand) (id : UUID) : MessagePosted where
  id := id
  room := c.room
  author := c.userId
  content := c.content
  atTime := c.createdAt

/-- The source sets no `ID` in the sanitized message, which leaves the zero
identifier; `score` is the number drawn by `decide`. -/
def processAndSanitize (censor : String → String × List String) (evt : MessagePosted)
    (score : Float64) : SanitizedMessage where
  id := UUID.nil
  room := evt.room
  author := evt.author
  content := (censor evt.content).1
  censoredWords := (censor evt.content).2
  atTime := evt.atTime
  toxicityScore := score

def toDiskMessage (evt : SanitizedMessage) : DiskMessage where
  id := evt.id
  room := evt.room
  author := evt.author
  content := evt.content
  atTime := evt.atTime
  toxicityScore := evt.toxicityScore

def diskMessageOf : DomainEvent → Option DiskMessage
  | .sanitizedMessage evt => some (toDiskMessage evt)
  | .messagePosted _ => none

/-! ## The machine -/

/-- A message with the position of its command among those accepted and the
identifier that the pool worker gave it. -/
structure Traced (α : Type) where
  origin : Nat
  postedId : UUID
  carried : α
deriving DecidableEq

structure ChatState where
  accepted : List PostMessageCommand
  globalCommands : List (Nat × Command)
  -- events in the hands of pool workers
  posting : List (Traced MessagePosted)
  moderationChan : List (Traced MessagePosted)
  moderating : Option (Traced SanitizedMessage)
  eventChan : List (Traced DomainEvent)
  -- goroutines of the fan-out that still have to call the disk sink
  diskCalls : List (Traced DomainEvent)
  db : DB
  -- the calls of `StoreMessage` that succeeded
  stored : List (Traced DiskMessage)

inductive ChatAction
  | post (cmd : PostMessageCommand) (admitted : Bool)
  | receive (id : UUID)
  | forward (i : Nat)
  | moderate (score : Float64)
  | emit
  | fanout
  | consume (i : Nat) (fault : Bool)
  | foreign (key : Key) (value : Value)

section Steps

variable (maxContentLength : Nat) (censor : String → String × List String)
  (marshals : MessagePb → Bool)

def consume (s : ChatState) (t : Traced DomainEvent) (fault : Bool) : ChatState :=
  match diskMessageOf t.carried with
  | none => s
  | some m =>
    if fault then s
    else
      match storeMessage marshals s.db m with
      | .error _ => s
      | .ok db => { s with db := db, stored := s.stored ++ [{ t with carried := m }] }

def chatStep (s : ChatState) : ChatAction → Option ChatState
  | .post cmd admitted =>
    match postMessage maxContentLength cmd admitted with
    | .error _ => some s
    | .ok command =>
      some { s with
        accepted := s.accepted ++ [cmd]
        globalCommands := s.globalCommands ++ [(s.accepted.length, command)] }
  | .receive id =>
    match s.globalCommands with
    | [] => none
    | (origin, .postMessage cmd) :: rest =>
      -- `uuid.New` sets the version bits, so it never returns the zero identifier.
      if id = UUID.nil then none
      else some { s with
        globalCommands := rest
        posting := s.posting ++
          [{ origin := origin, postedId := id, carried := toMessagePostedEvent cmd id }] }
    | (_, .getMessage _) :: rest => some { s with globalCommands := rest }
  | .forward i =>
    match s.posting[i]? with
    | none => none
    | some t => some { s with
        posting := s.posting.eraseIdx i
        moderationChan := s.moderationChan ++ [t] }
  | .moderate score =>
    match s.moderating, s.moderationChan with
    | none, t :: rest => some { s with
        moderationChan := rest
        moderating := some { t with carried := processAndSanitize censor t.carried score } }
    | _, _ => none
  | .emit =>
    match s.moderating with
    | none => none
    | some t => some { s with
        moderating := none
        eventChan := s.eventChan ++ [{ t with carried := .sanitizedMessage t.carried }] }
  | .fanout =>
    match s.eventChan with
    | [] => none
    | t :: rest => some { s with eventChan := rest, diskCalls := s.diskCalls ++ [t] }
  | .consume i fault =>
    match s.diskCalls[i]? with
    | none => none
    | some t => some (consume marshals { s with diskCalls := s.diskCalls.eraseIdx i } t fault)
  | .foreign key value =>
    if messageStem.isPrefixOf key then none
    else some { s with db := s.db.insert key value }

def chatMachine : Machine ChatState ChatAction where
  start :=
    { accepted := [], globalCommands := [], posting := [], moderationChan := [],
      moderating := none, eventChan := [], diskCalls := [], db := OrderedMap.empty,
      stored := [] }
  step := chatStep maxContentLength censor marshals

end Steps

/-! ## Where a message comes from -/

def Traced.From {α : Type} (accepted : List PostMessageCommand)
    (Is : PostMessageCommand → UUID → α → Prop) (t : Traced α) : Prop :=
  t.postedId ≠ UUID.nil ∧ ∃ cmd, accepted[t.origin]? = some cmd ∧ Is cmd t.postedId t.carried

section Provenance

variable {α β : Type} {accepted : List PostMessageCommand}
  {Is : PostMessageCommand → UUID → α → Prop} {Is' : PostMessageCommand → UUID → β → Prop}

theorem Traced.From.accept {t : Traced α} (h : t.From accepted Is) (cmd : PostMessageCommand) :
    t.From (accepted ++ [cmd]) Is := by
  obtain ⟨hId, c, hOrigin, hIs⟩ := h
  refine ⟨hId, c, ?_, hIs⟩
  obtain ⟨hLt, _⟩ := List.getElem?_eq_some_iff.mp hOrigin
  rw [List.getElem?_append_left hLt, hOrigin]

theorem Traced.From.map {t : Traced α} (h : t.From accepted Is) {b : β}
    (hMap : ∀ cmd, Is cmd t.postedId t.carried → Is' cmd t.postedId b) :
    Traced.From accepted Is' { t with carried := b } := by
  obtain ⟨hId, cmd, hOrigin, hIs⟩ := h
  exact ⟨hId, cmd, hOrigin, hMap cmd hIs⟩

def AllFrom (accepted : List PostMessageCommand) (Is : PostMessageCommand → UUID → α → Prop)
    (l : List (Traced α)) : Prop :=
  ∀ t ∈ l, t.From accepted Is

theorem AllFrom.nil : AllFrom accepted Is [] :=
  fun _ h => absurd h List.not_mem_nil

theorem AllFrom.accept {l : List (Traced α)} (h : AllFrom accepted Is l)
    (cmd : PostMessageCommand) : AllFrom (accepted ++ [cmd]) Is l :=
  fun t ht => (h t ht).accept cmd

theorem AllFrom.push {l : List (Traced α)} (h : AllFrom accepted Is l) {t : Traced α}
    (ht : t.From accepted Is) : AllFrom accepted Is (l ++ [t]) :=
  Bag.forall_mem_concat h ht

theorem AllFrom.uncons {l rest : List (Traced α)} (h : AllFrom accepted Is l) {t : Traced α}
    (hQueue : l = t :: rest) : t.From accepted Is ∧ AllFrom accepted Is rest := by
  rw [hQueue] at h
  exact List.forall_mem_cons.mp h

theorem AllFrom.eraseIdx {l : List (Traced α)} (h : AllFrom accepted Is l) (i : Nat) :
    AllFrom accepted Is (l.eraseIdx i) :=
  fun t ht => h t (List.mem_of_mem_eraseIdx ht)

end Provenance

section Invariant

variable (censor : String → String × List String)

def IsPosted (cmd : PostMessageCommand) (id : UUID) (evt : MessagePosted) : Prop :=
  evt = toMessagePostedEvent cmd id

def IsSanitized (cmd : PostMessageCommand) (id : UUID) (evt : SanitizedMessage) : Prop :=
  ∃ score, evt = processAndSanitize censor (toMessagePostedEvent cmd id) score

def IsEmitted (cmd : PostMessageCommand) (id : UUID) (evt : DomainEvent) : Prop :=
  ∃ sanitized, IsSanitized censor cmd id sanitized ∧ evt = .sanitizedMessage sanitized

def IsStored (cmd : PostMessageCommand) (id : UUID) (m : DiskMessage) : Prop :=
  ∃ sanitized, IsSanitized censor cmd id sanitized ∧ m = toDiskMessage sanitized

structure ChatState.Sound (s : ChatState) : Prop where
  commands : ∀ origin cmd, (origin, Command.postMessage cmd) ∈ s.globalCommands →
    s.accepted[origin]? = some cmd
  posting : AllFrom s.accepted IsPosted s.posting
  moderationChan : AllFrom s.accepted IsPosted s.moderationChan
  moderating : AllFrom s.accepted (IsSanitized censor) s.moderating.toList
  eventChan : AllFrom s.accepted (IsEmitted censor) s.eventChan
  diskCalls : AllFrom s.accepted (IsEmitted censor) s.diskCalls
  stored : AllFrom s.accepted (IsStored censor) s.stored
  kept : ∀ t ∈ s.stored, messageKey t.carried ∈ s.db.keys

variable {censor}

theorem IsStored.fields {cmd : PostMessageCommand} {id : UUID} {m : DiskMessage}
    (h : IsStored censor cmd id m) :
    m.id = UUID.nil ∧ m.room = cmd.room ∧ m.atTime = cmd.createdAt := by
  obtain ⟨sanitized, ⟨score, rfl⟩, rfl⟩ := h
  exact ⟨rfl, rfl, rfl⟩

theorem ChatState.Sound.accept {s : ChatState} (h : s.Sound censor) (cmd : PostMessageCommand) :
    ChatState.Sound censor { s with
      accepted := s.accepted ++ [cmd]
      globalCommands := s.globalCommands ++ [(s.accepted.length, .postMessage cmd)] } := by
  refine ⟨?_, h.posting.accept cmd, h.moderationChan.accept cmd, h.moderating.accept cmd,
    h.eventChan.accept cmd, h.diskCalls.accept cmd, h.stored.accept cmd, h.kept⟩
  intro origin c hc
  obtain hc | hc := List.mem_append.mp hc
  · obtain ⟨hLt, _⟩ := List.getElem?_eq_some_iff.mp (h.commands origin c hc)
    rw [List.getElem?_append_left hLt, h.commands origin c hc]
  · obtain ⟨rfl, hCmd⟩ := Prod.mk.inj (List.mem_singleton.mp hc)
    rw [List.getElem?_concat_length, Command.postMessage.inj hCmd]

theorem ChatState.Sound.insert {s : ChatState} (h : s.Sound censor) (key : Key) (value : Value) :
    ChatState.Sound censor { s with db := s.db.insert key value } := by
  refine ⟨h.commands, h.posting, h.moderationChan, h.moderating, h.eventChan, h.diskCalls,
    h.stored, ?_⟩
  intro t ht
  exact (OrderedMap.mem_keys_insert _ _ _ _).mpr (Or.inr (h.kept t ht))

theorem ChatState.Sound.consume {marshals : MessagePb → Bool} {s : ChatState} (h : s.Sound censor)
    {t : Traced DomainEvent} (ht : t.From s.accepted (IsEmitted censor)) (fault : Bool) :
    (Workers.consume marshals s t fault).Sound censor := by
  rw [Workers.consume]
  split
  · exact h
  · rename_i m hm
    split
    · exact h
    · split
      · exact h
      · rename_i db hStore
        rw [storeMessage] at hStore
        split at hStore
        · cases hStore
          have hInsert := h.insert (messageKey m) (.message (fromDiskMessage m))
          refine ⟨h.commands, h.posting, h.moderationChan, h.moderating, h.eventChan,
            h.diskCalls, h.stored.push (ht.map ?_), ?_⟩
          · rintro cmd ⟨sanitized, hSanitized, hEvent⟩
            rw [hEvent] at hm
            exact ⟨sanitized, hSanitized, (Option.some.inj hm).symm⟩
          · exact Bag.forall_mem_concat hInsert.kept
              ((OrderedMap.mem_keys_insert _ _ _ _).mpr (Or.inl rfl))
        · cases hStore

theorem chatStep_sound {maxContentLength : Nat} {marshals : MessagePb → Bool}
    {s t : ChatState} {action : ChatAction} (h : s.Sound censor)
    (hStep : chatStep maxContentLength censor marshals s action = some t) : t.Sound censor := by
  cases action with
  | post cmd admitted =>
    simp only [chatStep] at hStep
    split at hStep
    · exact Option.some.inj hStep ▸ h
    · rename_i command hPost
      obtain ⟨_, rfl⟩ := postMessage_ok hPost
      exact Option.some.inj hStep ▸ h.accept cmd
  | receive id =>
    simp only [chatStep] at hStep
    split at hStep
    · cases hStep
    · rename_i origin cmd rest hQueue
      split at hStep
      · cases hStep
      · rename_i hId
        cases hStep
        have hOrigin := h.commands origin cmd (hQueue ▸ List.mem_cons_self)
        refine { h with commands := ?_, posting := h.posting.push ⟨hId, cmd, hOrigin, rfl⟩ }
        exact fun o c hc => h.commands o c (hQueue ▸ List.mem_cons_of_mem _ hc)
    · rename_i rest hQueue
      cases hStep
      exact { h with commands := fun o c hc => h.commands o c (hQueue ▸ List.mem_cons_of_mem _ hc) }
  | forward i =>
    simp only [chatStep] at hStep
    split at hStep
    · cases hStep
    · rename_i u hu
      cases hStep
      exact { h with
        posting := h.posting.eraseIdx i
        moderationChan := h.moderationChan.push (h.posting u (List.mem_of_getElem? hu)) }
  | moderate score =>
    simp only [chatStep] at hStep
    split at hStep
    · rename_i u rest hIdle hQueue
      cases hStep
      obtain ⟨hu, hRest⟩ := h.moderationChan.uncons hQueue
      refine { h with moderationChan := hRest, moderating := ?_ }
      intro v hv
      obtain rfl := List.mem_singleton.mp hv
      exact hu.map fun cmd hPosted => ⟨score, congrArg (processAndSanitize censor · score) hPosted⟩
    · cases hStep
  | emit =>
    simp only [chatStep] at hStep
    split at hStep
    · cases hStep
    · rename_i u hu
      cases hStep
      have hEmitted := h.moderating u (by rw [hu]; exact List.mem_singleton_self u)
      exact { h with
        moderating := nofun
        eventChan := h.eventChan.push (hEmitted.map fun _ hIs => ⟨u.carried, hIs, rfl⟩) }
  | fanout =>
    simp only [chatStep] at hStep
    split at hStep
    · cases hStep
    · rename_i u rest hQueue
      cases hStep
      obtain ⟨hu, hRest⟩ := h.eventChan.uncons hQueue
      exact { h with eventChan := hRest, diskCalls := h.diskCalls.push hu }
  | consume i fault =>
    simp only [chatStep] at hStep
    split at hStep
    · cases hStep
    · rename_i u hu
      have hTaken : ChatState.Sound censor { s with diskCalls := s.diskCalls.eraseIdx i } :=
        { h with diskCalls := h.diskCalls.eraseIdx i }
      exact Option.some.inj hStep ▸ hTaken.consume (h.diskCalls u (List.mem_of_getElem? hu)) fault
  | foreign key value =>
    simp only [chatStep] at hStep
    split at hStep
    · cases hStep
    · exact Option.some.inj hStep ▸ h.insert key value

theorem chat_sound_of_reachable {maxContentLength : Nat} {marshals : MessagePb → Bool}
    {s : ChatState} (h : (chatMachine maxContentLength censor marshals).Reachable s) :
    s.Sound censor := by
  refine Machine.Reachable.invariant (I := ChatState.Sound censor) ?_
    (fun _ _ _ hs hStep => chatStep_sound hs hStep) h
  exact ⟨nofun, .nil, .nil, .nil, .nil, .nil, .nil, nofun⟩

end Invariant

/-! ## Which records are distinct -/

def ChatState.KeepsIds (s : ChatState) : Prop :=
  ∀ t ∈ s.stored, t.carried.id = t.postedId

def ChatState.KeepsRecords (s : ChatState) : Prop :=
  ∀ a ∈ s.stored, ∀ b ∈ s.stored, a.origin ≠ b.origin →
    messageKey a.carried ≠ messageKey b.carried

/-- Distinct commands that were stored differ in their room or in the
nanosecond of their time. -/
def ChatState.CommandsApart (s : ChatState) : Prop :=
  ∀ a ∈ s.stored, ∀ b ∈ s.stored, a.origin ≠ b.origin →
    ∀ c ∈ s.accepted[a.origin]?, ∀ d ∈ s.accepted[b.origin]?,
      c.room ≠ d.room ∨ unixNano c.createdAt ≠ unixNano d.createdAt

section Distinct

variable {maxContentLength : Nat} {censor : String → String × List String}
  {marshals : MessagePb → Bool}

theorem messageKey_eq_of_stored {c d : PostMessageCommand} {i j : UUID} {m n : DiskMessage}
    (hm : IsStored censor c i m) (hn : IsStored censor d j n) :
    messageKey m = messageKey n ↔
      c.room = d.room ∧ unixNano c.createdAt = unixNano d.createdAt := by
  obtain ⟨hmId, hmRoom, hmTime⟩ := hm.fields
  obtain ⟨hnId, hnRoom, hnTime⟩ := hn.fields
  rw [messageKey_eq_iff, hmId, hnId, hmRoom, hnRoom, hmTime, hnTime]
  simp

/-- In every run of the pipeline no stored message has its command's
identifier, each stored message has a record, and the records of distinct
commands are distinct exactly when the commands are apart. -/
theorem chat_records_distinct_iff {s : ChatState}
    (h : (chatMachine maxContentLength censor marshals).Reachable s) :
    (s.KeepsIds ↔ s.stored = []) ∧
      (∀ t ∈ s.stored, t.carried.id = UUID.nil ∧ messageKey t.carried ∈ s.db.keys) ∧
      (s.KeepsRecords ↔ s.CommandsApart) := by
  have hSound := chat_sound_of_reachable h
  refine ⟨⟨?_, ?_⟩, ?_, ⟨?_, ?_⟩⟩
  · intro hKeeps
    refine List.eq_nil_iff_forall_not_mem.mpr fun t ht => ?_
    obtain ⟨hId, cmd, _, hStored⟩ := hSound.stored t ht
    exact hId ((hKeeps t ht).symm.trans hStored.fields.1)
  · intro hNone t ht
    rw [hNone] at ht
    cases ht
  · intro t ht
    obtain ⟨_, cmd, _, hStored⟩ := hSound.stored t ht
    exact ⟨hStored.fields.1, hSound.kept t ht⟩
  · intro hKeeps a ha b hb hOrigin c hc d hd
    obtain ⟨_, c', hc', hStoredA⟩ := hSound.stored a ha
    obtain ⟨_, d', hd', hStoredB⟩ := hSound.stored b hb
    obtain rfl := Option.some.inj (hc'.symm.trans hc)
    obtain rfl := Option.some.inj (hd'.symm.trans hd)
    by_contra hSame
    simp only [not_or, not_not] at hSame
    exact hKeeps a ha b hb hOrigin ((messageKey_eq_of_stored hStoredA hStoredB).mpr hSame)
  · intro hApart a ha b hb hOrigin hKey
    obtain ⟨_, c, hc, hStoredA⟩ := hSound.stored a ha
    obtain ⟨_, d, hd, hStoredB⟩ := hSound.stored b hb
    obtain ⟨hRoom, hTime⟩ := (messageKey_eq_of_stored hStoredA hStoredB).mp hKey
    obtain hDiffers | hDiffers := hApart a ha b hb hOrigin c hc d hd
    · exact hDiffers hRoom
    · exact hDiffers hTime

end Distinct

/-! ## Two commands in one nanosecond -/

abbrev sampleChat : Machine ChatState ChatAction :=
  chatMachine 100 (fun content => (content, [])) (fun _ => true)

def sampleCommand (author : String) (time : Int) : PostMessageCommand :=
  { room := 1, userId := author, content := "hello", createdAt := time }

def sampleId (d : Fin 16) : UUID :=
  ⟨List.replicate 12 d ++ ⟨4, by decide⟩ ::
    (List.replicate 3 d ++ ⟨8, by decide⟩ :: List.replicate 15 d), by simp⟩

def sampleChatRun (first second : Int) : List ChatAction :=
  [.post (sampleCommand "ann" first) true, .post (sampleCommand "bob" second) true,
    .receive (sampleId ⟨1, by decide⟩), .receive (sampleId ⟨2, by decide⟩), .forward 0, .forward 0,
    .moderate 0, .emit, .moderate 0, .emit, .fanout, .fanout, .consume 0 false, .consume 0 false]

instance (s : ChatState) : Decidable s.KeepsIds :=
  inferInstanceAs (Decidable (∀ t ∈ s.stored, t.carried.id = t.postedId))

instance (s : ChatState) : Decidable s.KeepsRecords :=
  inferInstanceAs (Decidable (∀ a ∈ s.stored, ∀ b ∈ s.stored, a.origin ≠ b.origin →
    messageKey a.carried ≠ messageKey b.carried))

instance (s : ChatState) : Decidable s.CommandsApart :=
  inferInstanceAs (Decidable (∀ a ∈ s.stored, ∀ b ∈ s.stored, a.origin ≠ b.origin →
    ∀ c ∈ s.accepted[a.origin]?, ∀ d ∈ s.accepted[b.origin]?,
      c.room ≠ d.room ∨ unixNano c.createdAt ≠ unixNano d.createdAt))

/-- Two users post in room 1 in the same nanosecond: both stores succeed, and
the second one replaces the record of the first. -/
theorem chat_record_overwritten :
    ∃ s : ChatState, sampleChat.Reachable s ∧
      s.stored.map (fun t => t.carried.author) = ["ann", "bob"] ∧ s.db.entries.length = 1 ∧
      ¬ s.KeepsIds ∧ ¬ s.KeepsRecords :=
  ⟨sampleChat.after (sampleChatRun 5 5), Machine.reachable_after _, by decide +kernel,
    by decide +kernel, by decide +kernel, by decide +kernel⟩

theorem chat_records_distinct_apart :
    (sampleChat.after (sampleChatRun 5 6)).stored.length = 2 ∧
      (sampleChat.after (sampleChatRun 5 6)).KeepsRecords :=
  ⟨by decide +kernel,
    (chat_records_distinct_iff (Machine.reachable_after (M := sampleChat) _)).2.2.mpr
      (by decide +kernel)⟩

end ChatLab.Workers
