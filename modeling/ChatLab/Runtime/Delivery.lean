import ChatLab.Runtime.Conservation

/-!
# What leaves the chat pipeline

Only sanitized messages reach the disk sink and the streams. Each one is the
image of the accepted command at its origin, and none arrives twice at the same
place, since its origin is drawn once from the channels and `Fanout` asks the
registry once for it.
-/

namespace ChatLab.Runtime

open Foundation Foundation.Bag Sink Storage Workers

/-! ## Content -/

section Content

variable (censor : String → String × List String)

def IsRaw (cmd : PostMessageCommand) (id : UUID) (evt : DomainEvent) : Prop :=
  ∃ posted, IsPosted cmd id posted ∧ evt = .messagePosted posted

def IsPushed (cmd : PostMessageCommand) (id : UUID) (evt : MessageEvent) : Prop :=
  ∃ sanitized, IsSanitized censor cmd id sanitized ∧ evt = toChatEvent sanitized

def Event.From (accepted : List PostMessageCommand) : Event → Prop
  | .domain t => t.From accepted (IsEmitted censor)
  | _ => True

def Job.From (accepted : List PostMessageCommand) : Job → Prop
  | .handling evt => evt.From censor accepted
  | .consuming _ => True

structure Connection.From (accepted : List PostMessageCommand) (c : Connection) : Prop where
  queued : AllFrom accepted (IsEmitted censor) c.connectedUserEvent
  sent : AllFrom accepted (IsPushed censor) c.sent

structure ServerState.Moderated (s : ServerState) : Prop where
  commands : ∀ origin cmd, (origin, Command.postMessage cmd) ∈ s.globalCommands →
    s.accepted[origin]? = some cmd
  pool : AllFrom s.accepted IsPosted s.pool.busy
  moderationChan : AllFrom s.accepted IsRaw s.moderationChan
  moderation : AllFrom s.accepted (IsSanitized censor) s.moderation.busy
  eventChan : ∀ evt ∈ s.eventChan, evt.From censor s.accepted
  fanout : ∀ job ∈ s.fanout.busy, job.From censor s.accepted
  routed : AllFrom s.accepted (IsEmitted censor) (s.routed.map Routed.message)
  deliveries : AllFrom s.accepted (IsEmitted censor) (s.deliveries.map Delivery.message)
  connections : ∀ c ∈ s.connections, c.From censor s.accepted
  stored : AllFrom s.accepted (IsStored censor) s.stored

variable {censor} {accepted : List PostMessageCommand}

theorem Event.From.accept {evt : Event} (h : evt.From censor accepted) (cmd : PostMessageCommand) :
    evt.From censor (accepted ++ [cmd]) := by
  cases evt with
  | domain t => exact Traced.From.accept h cmd
  | fileAnalyse f => trivial
  | analysisSegment segment => trivial

theorem Job.From.accept {job : Job} (h : job.From censor accepted) (cmd : PostMessageCommand) :
    job.From censor (accepted ++ [cmd]) := by
  cases job with
  | handling evt => exact Event.From.accept h cmd
  | consuming n => trivial

variable {s t : ServerState}

theorem ServerState.Moderated.post (h : s.Moderated censor) (cmd : PostMessageCommand) :
    ServerState.Moderated censor { s with
      accepted := s.accepted ++ [cmd]
      globalCommands := s.globalCommands ++ [(s.accepted.length, .postMessage cmd)] } where
  commands origin c hc := by
    obtain hc | hc := List.mem_append.mp hc
    · obtain ⟨hLt, _⟩ := List.getElem?_eq_some_iff.mp (h.commands origin c hc)
      rw [List.getElem?_append_left hLt, h.commands origin c hc]
    · obtain ⟨rfl, hCmd⟩ := Prod.mk.inj (List.mem_singleton.mp hc)
      rw [List.getElem?_concat_length, Command.postMessage.inj hCmd]
  pool := h.pool.accept cmd
  moderationChan := h.moderationChan.accept cmd
  moderation := h.moderation.accept cmd
  eventChan evt hEvt := (h.eventChan evt hEvt).accept cmd
  fanout job hJob := (h.fanout job hJob).accept cmd
  routed := h.routed.accept cmd
  deliveries := h.deliveries.accept cmd
  connections c hc := ⟨(h.connections c hc).queued.accept cmd, (h.connections c hc).sent.accept cmd⟩
  stored := h.stored.accept cmd

theorem poolWorker_from {id : NewUUID} {command : Nat × Command} {hand : Traced MessagePosted}
    (hOrigin : ∀ cmd, command.2 = .postMessage cmd → accepted[command.1]? = some cmd)
    (hHandle : poolWorker.handle id command = some hand) : hand.From accepted IsPosted := by
  obtain ⟨origin, command⟩ := command
  cases command with
  | postMessage cmd =>
    cases hHandle
    exact ⟨id.2, cmd, hOrigin cmd rfl, rfl⟩
  | getMessage cmd => cases hHandle

theorem moderationWorker_from {score : Float64} {evt : Traced DomainEvent}
    {hand : Traced SanitizedMessage} (hRaw : evt.From accepted IsRaw)
    (hHandle : (moderationWorker censor).handle score evt = some hand) :
    hand.From accepted (IsSanitized censor) := by
  obtain ⟨origin, id, carried⟩ := evt
  cases carried with
  | messagePosted posted =>
    cases hHandle
    refine hRaw.map ?_
    rintro cmd ⟨posted', hPosted, hEvt⟩
    cases hEvt
    exact ⟨score, congrArg (processAndSanitize censor · score) hPosted⟩
  | sanitizedMessage evt => cases hHandle

theorem Connection.From.close {c : Connection} (h : c.From censor accepted) :
    Connection.From censor accepted { c with isOpen := false } :=
  ⟨h.queued, h.sent⟩

/-- The stream takes the first event of its queue. -/
theorem Connection.From.take {c : Connection} {m : Traced DomainEvent}
    {rest : List (Traced DomainEvent)} (h : c.From censor accepted)
    (hQueue : c.connectedUserEvent = m :: rest) : m.From accepted (IsEmitted censor) ∧
      Connection.From censor accepted { c with connectedUserEvent := rest } := by
  have hQueued := h.queued
  rw [hQueue] at hQueued
  exact ⟨hQueued m List.mem_cons_self, fun u hu => hQueued u (List.mem_cons_of_mem _ hu), h.sent⟩

theorem ServerState.Moderated.setConnection (h : s.Moderated censor) {d : Connection}
    (hd : d.From censor s.accepted) (k : Nat) :
    ServerState.Moderated censor { s with connections := s.connections.set k d } :=
  { h with connections := forall_mem_set h.connections hd k }

theorem ServerState.Moderated.putPool (h : s.Moderated censor)
    {r : Relay (Nat × Command) (Traced MessagePosted) (Traced DomainEvent)}
    (hEffect : Relay.Effect poolWorker s.poolSignals s.poolRelay r) :
    (s.putPool r).Moderated censor := by
  have hEmit : ∀ t : Traced MessagePosted, t.From s.accepted IsPosted →
      (poolWorker.emit t).From s.accepted IsRaw :=
    fun t ht => ht.map fun cmd hPosted => ⟨t.carried, hPosted, rfl⟩
  obtain ⟨hInput, hBusy, hOutput⟩ := hEffect.forall (fun _ _ _ => poolWorker_from) hEmit
    (fun c hc cmd hCmd => h.commands c.1 cmd (hCmd ▸ hc)) h.pool h.moderationChan
  exact { h with
    commands := fun origin cmd hc => hInput _ hc cmd rfl
    pool := hBusy
    moderationChan := hOutput }

theorem ServerState.Moderated.putModeration (h : s.Moderated censor)
    {r : Relay (Traced DomainEvent) (Traced SanitizedMessage) Event}
    (hEffect : Relay.Effect (moderationWorker censor) s.moderationSignals s.moderationRelay r) :
    (s.putModeration r).Moderated censor := by
  have hEmit : ∀ t : Traced SanitizedMessage, t.From s.accepted (IsSanitized censor) →
      ((moderationWorker censor).emit t).From censor s.accepted :=
    fun t ht => ht.map fun cmd hSanitized => ⟨t.carried, hSanitized, rfl⟩
  obtain ⟨hInput, hBusy, hOutput⟩ := hEffect.forall (fun _ _ _ => moderationWorker_from) hEmit
    h.moderationChan h.moderation h.eventChan
  exact { h with moderationChan := hInput, moderation := hBusy, eventChan := hOutput }

theorem ServerState.Moderated.message_of_get (h : s.Moderated censor) {i : Nat} {d : Delivery}
    (hd : s.deliveries[i]? = some d) : d.message.From s.accepted (IsEmitted censor) :=
  h.deliveries _ (List.mem_map_of_mem (List.mem_of_getElem? hd))

theorem ServerState.Moderated.deliver (h : s.Moderated censor) (i : Nat) :
    ServerState.Moderated censor { s with deliveries := s.deliveries.eraseIdx i } := by
  refine { h with deliveries := fun m hm => ?_ }
  obtain ⟨d, hd, rfl⟩ := List.mem_map.mp hm
  exact h.deliveries _ (List.mem_map_of_mem (List.mem_of_mem_eraseIdx hd))

theorem ServerState.Moderated.steps {o : Orchestrator} {a : ServerAction}
    (h : s.Moderated o.censor) (hStep : o.Steps s a t) : t.Moderated o.censor := by
  have hErase : ∀ i, ∀ job ∈ s.fanout.busy.eraseIdx i, job.From o.censor s.accepted :=
    fun i job hJob => h.fanout job (List.mem_of_mem_eraseIdx hJob)
  cases hStep with
  | rejected cmd admitted => exact h
  | post cmd _ => exact h.post cmd
  | analyze e _ => exact { h with eventChan := forall_mem_concat h.eventChan trivial }
  | respond segment _ => exact { h with eventChan := forall_mem_concat h.eventChan trivial }
  | connect userID room =>
    exact { h with connections := forall_mem_concat h.connections ⟨nofun, nofun⟩ }
  | disconnect k c hc =>
    have hClosed := (h.connections c (List.mem_of_getElem? hc)).close
    exact { h.setConnection hClosed k with }
  | pool action r hEffect => exact h.putPool hEffect
  | moderation action r hEffect => exact h.putModeration hEffect
  | start crew hStart => exact { h with fanout := Crew.start_busy hStart ▸ h.fanout }
  | receive evt rest crew hQueue hTake =>
    have hEvents := h.eventChan
    rw [hQueue] at hEvents
    refine { h with eventChan := fun e he => hEvents e (List.mem_cons_of_mem _ he), fanout := ?_ }
    rw [Crew.take_busy hTake]
    exact forall_mem_concat h.fanout (hEvents evt List.mem_cons_self)
  | fanout i order m hJob _ =>
    have hm : m.From s.accepted (IsEmitted o.censor) := h.fanout _ (List.mem_of_getElem? hJob)
    refine { h with fanout := hErase i, routed := ?_, deliveries := ?_ }
    · rw [ServerState.route, List.map_append]
      exact h.routed.push hm
    · rw [ServerState.route, List.map_append]
      intro u hu
      obtain hu | hu := List.mem_append.mp hu
      · exact h.deliveries u hu
      · obtain ⟨d, hd, rfl⟩ := List.mem_map.mp hu
        obtain ⟨target, _, rfl⟩ := List.mem_map.mp hd
        exact hm
  | consume i f b hJob _ =>
    have hNew : Job.From o.censor s.accepted (.consuming s.buffer.calls) := trivial
    exact { h with fanout := forall_mem_set h.fanout hNew i }
  | enrich i segment hJob => exact { h with fanout := hErase i }
  | returned i n hJob _ => exact { h with fanout := hErase i }
  | recovered i n hJob _ =>
    refine { h with fanout := ?_ }
    split
    · exact hErase i
    · exact hErase i
  | quit crew _ _ hQuit => exact { h with fanout := Crew.quit_busy hQuit ▸ h.fanout }
  | buffer action b _ _ => exact { h with }
  | unstored i ok m _ => exact { h.deliver i with }
  | dropped i k ok m _ => exact h.deliver i
  | store i m d hd hDisk =>
    refine { h.deliver i with stored := h.stored.push ((h.message_of_get hd).map ?_) }
    rintro cmd ⟨sanitized, hSanitized, hEvt⟩
    rw [hEvt] at hDisk
    exact ⟨sanitized, hSanitized, (Option.some.inj hDisk).symm⟩
  | enqueue i k m c hd hc =>
    obtain ⟨hQueued, hSent⟩ := h.connections c (List.mem_of_getElem? hc)
    have hNew : Connection.From o.censor s.accepted
        { c with connectedUserEvent := c.connectedUserEvent ++ [m] } :=
      ⟨hQueued.push (h.message_of_get hd), hSent⟩
    exact (h.deliver i).setConnection hNew k
  | send k c m rest e hc hQueue hCarried =>
    obtain ⟨hm, hRest⟩ := (h.connections c (List.mem_of_getElem? hc)).take hQueue
    have hPushed : Traced.From s.accepted (IsPushed o.censor) { m with carried := toChatEvent e } := by
      refine hm.map ?_
      rintro cmd ⟨sanitized, hSanitized, hEvt⟩
      cases hCarried.symm.trans hEvt
      exact ⟨e, hSanitized, rfl⟩
    have hNew : Connection.From o.censor s.accepted { c with
        connectedUserEvent := rest
        sent := c.sent ++ [{ m with carried := toChatEvent e }] } :=
      ⟨hRest.queued, hRest.sent.push hPushed⟩
    exact h.setConnection hNew k
  | sendFails k c m rest hc hQueue =>
    obtain ⟨_, hRest⟩ := (h.connections c (List.mem_of_getElem? hc)).take hQueue
    exact { h.setConnection hRest.close k with }
  | passOver k ok c m rest hc hQueue =>
    obtain ⟨_, hRest⟩ := (h.connections c (List.mem_of_getElem? hc)).take hQueue
    exact h.setConnection hRest k
  | stop phase _ => exact { h with }

theorem moderated_of_reachable {o : Orchestrator} (h : o.machine.Reachable s) :
    s.Moderated o.censor := by
  refine Machine.Reachable.invariant (I := ServerState.Moderated o.censor) ?_ ?_ h
  · refine ⟨?_, .nil, .nil, .nil, ?_, ?_, .nil, .nil, ?_, .nil⟩
    · exact fun _ _ hCmd => absurd hCmd List.not_mem_nil
    · exact fun _ hEvt => absurd hEvt List.not_mem_nil
    · exact fun _ hJob => absurd hJob List.not_mem_nil
    · exact fun _ hConn => absurd hConn List.not_mem_nil
  · exact fun s a t hs hStep => hs.steps (Orchestrator.steps_of_step hStep)

end Content

/-! ## Routes -/

def Delivery.to (target : Target) (d : Delivery) : List Nat :=
  if d.target = target then [d.message.origin] else []

def Routed.to (target : Target) (r : Routed) : List Nat :=
  if target ∈ r.targets then [r.message.origin] else []

def Connection.arrived (c : Connection) : List Nat :=
  c.connectedUserEvent.flatMap handToken ++ c.sent.flatMap handToken

def received (stored : List (Traced DiskMessage)) (connections : List Connection) :
    Target → List Nat
  | .disk => stored.flatMap handToken
  | .stream k => (connections[k]?).toList.flatMap Connection.arrived

namespace ServerState

variable (s : ServerState)

/-- The messages on their way to a sink or already there. -/
def arrivals (target : Target) : List Nat :=
  s.deliveries.flatMap (Delivery.to target) ++ received s.stored s.connections target

def sentTo (target : Target) : List Nat := s.routed.flatMap (Routed.to target)

/-- `GetSinksForRoom` answered with these sinks at some time. -/
def Answered (room : RoomID) (sinks : List Nat) : Prop :=
  ∃ calls order, calls <+: s.registryCalls ∧ (registryAfter calls).Visits room order ∧
    sinks = (registryAfter calls).getSinksForRoom room order

structure Delivers : Prop where
  owner : ∀ userID room k, RegistryCall.subscribe userID room k ∈ s.registryCalls →
    ∃ c, s.connections[k]? = some c ∧ c.userID = userID
  answered : ∀ r ∈ s.routed, s.Answered (roomID r.message.carried) r.sinks
  arrives : ∀ target n, (s.arrivals target).count n ≤ (s.sentTo target).count n

end ServerState

section Routes

variable {s t : ServerState}

theorem flatMap_select {α β : Type} [DecidableEq α] {l : List α} (hNodup : l.Nodup) (x : α) (b : β) :
    l.flatMap (fun y => if y = x then [b] else []) = if x ∈ l then [b] else [] := by
  induction l with
  | nil => rfl
  | cons y l ih =>
    obtain ⟨hy, hRest⟩ := List.nodup_cons.mp hNodup
    rw [List.flatMap_cons, ih hRest]
    by_cases hxy : y = x
    · subst hxy
      simp [hy]
    · simp [hxy, Ne.symm hxy]

theorem Routed.deliveries_to {r : Routed} (hSinks : r.sinks.Nodup) (target : Target) :
    r.deliveries.flatMap (Delivery.to target) = r.to target := by
  have hTargets : r.targets.Nodup := by
    rw [Routed.targets, List.nodup_append]
    refine ⟨hSinks.map fun _ _ => Target.stream.inj, by simp, ?_⟩
    intro a ha b hb hab
    obtain ⟨k, _, rfl⟩ := List.mem_map.mp ha
    cases (List.mem_singleton.mp hb).symm.trans hab.symm
  rw [Routed.deliveries, List.flatMap_map]
  exact flatMap_select hTargets target r.message.origin

theorem delivery_to_count (target target' : Target) (m : Traced DomainEvent) (n : Nat) :
    (Delivery.to target { target := target', message := m }).count n =
      if target = target' then [m.origin].count n else 0 := by
  by_cases hTarget : target' = target
  · simp [Delivery.to, hTarget]
  · simp [Delivery.to, hTarget, Ne.symm hTarget]

section Received

variable (stored : List (Traced DiskMessage)) {connections : List Connection}

theorem received_connect {c : Connection} (hc : c.arrived = []) (target : Target) :
    received stored (connections ++ [c]) target = received stored connections target := by
  cases target with
  | disk => rfl
  | stream k =>
    by_cases hk : k < connections.length
    · simp only [received, List.getElem?_append_left hk]
    · have hNone : connections[k]? = none := List.getElem?_eq_none (Nat.le_of_not_lt hk)
      simp only [received, List.getElem?_append_right (Nat.le_of_not_lt hk), hNone,
        List.getElem?_singleton]
      split
      · simp [hc]
      · rfl

theorem received_store (connections : List Connection) (m : Traced DiskMessage) (target : Target)
    (n : Nat) :
    (received (stored ++ [m]) connections target).count n =
      (received stored connections target).count n +
        if target = .disk then [m.origin].count n else 0 := by
  cases target with
  | disk => simp [received, handToken]
  | stream k => simp [received]

/-- Only the stream that changed receives anything else. -/
theorem received_set {k : Nat} {c : Connection} (hc : connections[k]? = some c) (d : Connection)
    (target : Target) (n : Nat) :
    (received stored (connections.set k d) target).count n +
        (if target = .stream k then c.arrived.count n else 0) =
      (received stored connections target).count n +
        if target = .stream k then d.arrived.count n else 0 := by
  obtain ⟨hk, _⟩ := List.getElem?_eq_some_iff.mp hc
  cases target with
  | disk => simp [received]
  | stream j =>
    by_cases hj : j = k
    · subst hj
      simp only [received, List.getElem?_set_self hk, hc, Option.toList_some,
        List.flatMap_singleton, if_true]
      omega
    · simp [received, List.getElem?_set_ne (Ne.symm hj), hj]

end Received

theorem ServerState.Answered.mono {room : RoomID} {sinks : List Nat} (h : s.Answered room sinks)
    (hCalls : s.registryCalls <+: t.registryCalls) : t.Answered room sinks := by
  obtain ⟨calls, order, hPrefix, hOrder, hSinks⟩ := h
  exact ⟨calls, order, hPrefix.trans hCalls, hOrder, hSinks⟩

theorem ServerState.Delivers.sinks_nodup (h : s.Delivers) {room : RoomID} {order : List String}
    (hOrder : (registryAfter s.registryCalls).Visits room order) :
    ((registryAfter s.registryCalls).getSinksForRoom room order).Nodup := by
  refine getSinksForRoom_nodup ?_ hOrder
  intro p q r r' k hp hq
  obtain ⟨c, hc, hUser⟩ := h.owner p r k hp
  obtain ⟨c', hc', hUser'⟩ := h.owner q r' k hq
  cases hc.symm.trans hc'
  exact hUser.symm.trans hUser'

theorem ServerState.Delivers.owner_set (h : s.Delivers) {k : Nat} {c d : Connection}
    (hc : s.connections[k]? = some c) (hUser : d.userID = c.userID) (userID : String)
    (room : RoomID) (j : Nat) (hj : .subscribe userID room j ∈ s.registryCalls) :
    ∃ e, (s.connections.set k d)[j]? = some e ∧ e.userID = userID := by
  obtain ⟨e, he, heUser⟩ := h.owner userID room j hj
  by_cases hjk : j = k
  · subst hjk
    obtain ⟨hk, _⟩ := List.getElem?_eq_some_iff.mp hc
    cases hc.symm.trans he
    exact ⟨d, List.getElem?_set_self hk, hUser.trans heUser⟩
  · exact ⟨e, (List.getElem?_set_ne (Ne.symm hjk)).trans he, heUser⟩

theorem ServerState.Delivers.unsubscribe (h : s.Delivers) (userID : String) (room : RoomID) :
    ServerState.Delivers
      { s with registryCalls := s.registryCalls ++ [RegistryCall.unsubscribe userID room] } where
  owner u r j hj := by
    obtain hj | hj := List.mem_append.mp hj
    · exact h.owner u r j hj
    · cases List.mem_singleton.mp hj
  answered r hr := (h.answered r hr).mono (List.prefix_append _ _)
  arrives := h.arrives

/-- A connection changes without gaining a message. -/
theorem ServerState.Delivers.replace (h : s.Delivers) {k : Nat} {c d : Connection}
    (hc : s.connections[k]? = some c) (hUser : d.userID = c.userID)
    (hArrived : ∀ n, d.arrived.count n ≤ c.arrived.count n) :
    ServerState.Delivers { s with connections := s.connections.set k d } where
  owner := h.owner_set hc hUser
  answered := h.answered
  arrives target n := by
    have hLess := hArrived n
    have hOld := h.arrives target n
    have hSet := received_set s.stored hc d target n
    simp only [ServerState.arrivals, List.count_append, ServerState.sentTo] at hOld ⊢
    split at hSet
    · omega
    · omega

theorem ServerState.Delivers.fewer (h : s.Delivers) (i : Nat) :
    ServerState.Delivers { s with deliveries := s.deliveries.eraseIdx i } where
  owner := h.owner
  answered := h.answered
  arrives target n := by
    have hOld := h.arrives target n
    have hLess := ((List.eraseIdx_sublist s.deliveries i).flatMap (Delivery.to target)).count_le n
    simp only [ServerState.arrivals, List.count_append, ServerState.sentTo] at hOld ⊢
    omega

/-- The new connection has received nothing. -/
theorem ServerState.Delivers.connect (h : s.Delivers) (userID : String) (room : RoomID) :
    ServerState.Delivers { s with
      connections := s.connections ++ [{
        userID := userID, room := room, isOpen := true, connectedUserEvent := [], sent := [] }]
      registryCalls := s.registryCalls ++
        [RegistryCall.subscribe userID room s.connections.length] } where
  owner u r j hj := by
    obtain hj | hj := List.mem_append.mp hj
    · obtain ⟨d, hd, hUser⟩ := h.owner u r j hj
      obtain ⟨hLt, _⟩ := List.getElem?_eq_some_iff.mp hd
      exact ⟨d, (List.getElem?_append_left hLt).trans hd, hUser⟩
    · cases List.mem_singleton.mp hj
      exact ⟨_, List.getElem?_concat_length, rfl⟩
  answered r hr := (h.answered r hr).mono (List.prefix_append _ _)
  arrives target n := by
    rw [ServerState.arrivals, received_connect s.stored (by rfl)]
    exact h.arrives target n

/-- A message in a goroutine of the fan-out reaches the disk. -/
theorem ServerState.Delivers.store (h : s.Delivers) {i : Nat} {m : Traced DomainEvent}
    (hd : s.deliveries[i]? = some { target := .disk, message := m }) (d : DiskMessage) :
    ServerState.Delivers { s with
      deliveries := s.deliveries.eraseIdx i
      stored := s.stored ++ [{ m with carried := d }] } where
  owner := h.owner
  answered := h.answered
  arrives target n := by
    have hOld := h.arrives target n
    have hTaken := count_flatMap_eraseIdx (Delivery.to target) hd n
    have hStored := received_store s.stored s.connections { m with carried := d } target n
    rw [delivery_to_count] at hTaken
    simp only [ServerState.arrivals, List.count_append, ServerState.sentTo] at hOld hStored ⊢
    omega

/-- A message in a goroutine of the fan-out reaches the queue of its stream. -/
theorem ServerState.Delivers.enqueue (h : s.Delivers) {i k : Nat} {m : Traced DomainEvent}
    {c : Connection} (hd : s.deliveries[i]? = some { target := .stream k, message := m })
    (hc : s.connections[k]? = some c) :
    ServerState.Delivers { s with
      deliveries := s.deliveries.eraseIdx i
      connections := s.connections.set k
        { c with connectedUserEvent := c.connectedUserEvent ++ [m] } } where
  owner := h.owner_set hc rfl
  answered := h.answered
  arrives target n := by
    have hOld := h.arrives target n
    have hTaken := count_flatMap_eraseIdx (Delivery.to target) hd n
    have hSet := received_set s.stored hc
      { c with connectedUserEvent := c.connectedUserEvent ++ [m] } target n
    rw [delivery_to_count] at hTaken
    simp only [ServerState.arrivals, ServerState.sentTo, Connection.arrived, List.flatMap_append,
      List.flatMap_singleton, handToken, List.count_append] at hOld hSet ⊢
    split at hSet
    · rename_i hTarget
      rw [if_pos hTarget] at hTaken
      omega
    · rename_i hTarget
      rw [if_neg hTarget] at hTaken
      omega

theorem ServerState.Delivers.steps {o : Orchestrator} {a : ServerAction} (h : s.Delivers)
    (hStep : o.Steps s a t) : t.Delivers := by
  cases hStep with
  | rejected cmd admitted => exact h
  | post cmd _ => exact { h with }
  | analyze e _ => exact { h with }
  | respond segment _ => exact { h with }
  | connect userID room => exact h.connect userID room
  | disconnect k c hc =>
    have hClosed : ServerState.Delivers
        { s with connections := s.connections.set k { c with isOpen := false } } :=
      h.replace hc rfl fun _ => Nat.le_refl _
    exact hClosed.unsubscribe c.userID c.room
  | pool action r hEffect => exact { h with }
  | moderation action r hEffect => exact { h with }
  | start crew hStart => exact { h with }
  | receive evt rest crew hQueue hTake => exact { h with }
  | fanout i order m hJob hOrder =>
    refine { h with answered := ?_, arrives := ?_ }
    · exact forall_mem_concat h.answered ⟨_, order, List.prefix_refl _, hOrder, rfl⟩
    · intro target n
      have hOld := h.arrives target n
      simp only [ServerState.arrivals, ServerState.sentTo, ServerState.route, List.flatMap_append,
        List.flatMap_singleton, List.count_append] at hOld ⊢
      rw [Routed.deliveries_to (h.sinks_nodup hOrder)]
      omega
  | consume i f b hJob _ => exact { h with }
  | enrich i segment hJob => exact { h with }
  | returned i n hJob _ => exact { h with }
  | recovered i n hJob _ => exact { h with }
  | quit crew _ _ hQuit => exact { h with }
  | buffer action b _ _ => exact { h with }
  | unstored i ok m _ => exact { h.fewer i with }
  | dropped i k ok m _ => exact h.fewer i
  | store i m d hd hDisk => exact { h.store hd d with }
  | enqueue i k m c hd hc => exact h.enqueue hd hc
  | send k c m rest e hc hQueue hCarried =>
    apply h.replace hc
    · rfl
    · intro n
      simp only [Connection.arrived, hQueue, List.flatMap_cons, List.flatMap_append,
        List.flatMap_nil, handToken, List.count_append, List.count_nil]
      omega
  | sendFails k c m rest hc hQueue =>
    have hClosed : ServerState.Delivers { s with
        connections := s.connections.set k
          { c with connectedUserEvent := rest, isOpen := false } } := by
      refine h.replace hc rfl fun n => ?_
      simp only [Connection.arrived, hQueue, List.flatMap_cons, List.count_append]
      omega
    exact hClosed.unsubscribe c.userID c.room
  | passOver k ok c m rest hc hQueue =>
    refine h.replace hc ?_ fun n => ?_
    · rfl
    · simp only [Connection.arrived, hQueue, List.flatMap_cons, List.count_append]
      omega
  | stop phase _ => exact { h with }

theorem delivers_of_reachable {o : Orchestrator} (h : o.machine.Reachable s) : s.Delivers := by
  refine Machine.Reachable.invariant (I := ServerState.Delivers) ?_ ?_ h
  · refine ⟨nofun, nofun, fun target n => ?_⟩
    cases target with
    | disk => exact Nat.le_refl _
    | stream k => exact Nat.le_refl _
  · exact fun s a t hs hStep => hs.steps (Orchestrator.steps_of_step hStep)

theorem ServerState.Conserved.routed_count (h : s.Conserved) (n : Nat) :
    (s.routed.flatMap Routed.token).count n ≤ 1 := by
  have hAll := h.messages.count_eq n
  have hOnce := List.nodup_iff_count_le_one.mp (List.nodup_range (n := s.accepted.length)) n
  simp only [ServerState.messages, List.count_append] at hAll
  omega

theorem Routed.to_sublist (target : Target) (r : Routed) : (r.to target).Sublist r.token := by
  rw [Routed.to]
  split
  · exact List.Sublist.refl _
  · exact List.nil_sublist _

theorem arrivals_count_le_one {o : Orchestrator} (h : o.machine.Reachable s) (target : Target)
    (n : Nat) : (s.arrivals target).count n ≤ 1 := by
  have hSent : (s.sentTo target).Sublist (s.routed.flatMap Routed.token) :=
    List.Sublist.flatMap_right _ fun r _ => r.to_sublist target
  calc (s.arrivals target).count n
    _ ≤ (s.sentTo target).count n := (delivers_of_reachable h).arrives target n
    _ ≤ (s.routed.flatMap Routed.token).count n := hSent.count_le n
    _ ≤ 1 := (conserved_of_reachable h).routed_count n

theorem exists_routed_of_arrival (h : s.Delivers) {k n : Nat} (hn : n ∈ s.arrivals (.stream k)) :
    ∃ r ∈ s.routed, r.message.origin = n ∧ k ∈ r.sinks := by
  have hPos := List.count_pos_iff.mpr hn
  have hSent : n ∈ s.sentTo (.stream k) :=
    List.count_pos_iff.mp (Nat.lt_of_lt_of_le hPos (h.arrives (.stream k) n))
  obtain ⟨r, hr, hTo⟩ := List.mem_flatMap.mp hSent
  rw [Routed.to] at hTo
  split at hTo
  · rename_i hTarget
    refine ⟨r, hr, (List.mem_singleton.mp hTo).symm, ?_⟩
    obtain hSink | hDisk := List.mem_append.mp hTarget
    · obtain ⟨j, hj, hEq⟩ := List.mem_map.mp hSink
      cases hEq
      exact hj
    · cases List.mem_singleton.mp hDisk
  · cases hTo

end Routes

/-! ## Moderated delivery -/

/-- Room, author and time are the command's; the content is the censored one. -/
def ImageOf (censor : String → String × List String) (cmd : PostMessageCommand)
    (m : SanitizedMessage) : Prop :=
  m.room = cmd.room ∧ m.author = cmd.userId ∧ m.atTime = cmd.createdAt ∧
    m.content = (censor cmd.content).1

/-- What was written of a message is made of the image of its command. -/
def ServerState.Images {α : Type} (s : ServerState) (censor : String → String × List String)
    (write : SanitizedMessage → α) (t : Traced α) : Prop :=
  ∃ cmd m, s.accepted[t.origin]? = some cmd ∧ ImageOf censor cmd m ∧ t.carried = write m

theorem imageOf_of_isSanitized {censor : String → String × List String} {cmd : PostMessageCommand}
    {id : UUID} {m : SanitizedMessage} (h : IsSanitized censor cmd id m) : ImageOf censor cmd m := by
  obtain ⟨score, rfl⟩ := h
  exact ⟨rfl, rfl, rfl, rfl⟩

theorem images_of_from {α : Type} {s : ServerState} {censor : String → String × List String}
    {write : SanitizedMessage → α} {t : Traced α}
    (h : t.From s.accepted fun cmd id x => ∃ m, IsSanitized censor cmd id m ∧ x = write m) :
    s.Images censor write t := by
  obtain ⟨_, cmd, hOrigin, m, hSanitized, hCarried⟩ := h
  exact ⟨cmd, m, hOrigin, imageOf_of_isSanitized hSanitized, hCarried⟩

theorem exists_sanitized_of_from {accepted : List PostMessageCommand}
    {censor : String → String × List String} {t : Traced DomainEvent}
    (h : t.From accepted (IsEmitted censor)) : ∃ m, t.carried = .sanitizedMessage m := by
  obtain ⟨_, cmd, _, m, _, hCarried⟩ := h
  exact ⟨m, hCarried⟩

theorem nodup_origins {α : Type} {l : List (Traced α)} {all : List Nat}
    (hAll : ∀ n, all.count n ≤ 1) (hPart : (l.flatMap handToken).Sublist all) :
    (l.map Traced.origin).Nodup := by
  rw [map_origin_eq_flatMap, List.nodup_iff_count_le_one]
  exact fun n => Nat.le_trans (hPart.count_le n) (hAll n)

/-- In every interleaving, what is stored and what is pushed on a stream is
the image of an accepted command, once for the disk and once for each stream.
A message goes only to the sinks that `GetSinksForRoom` answered for its room
in its one call of `Fanout`, and no sink is given a raw message. -/
theorem pipeline_moderates {o : Orchestrator} {s : ServerState} (h : o.machine.Reachable s) :
    ((∀ t ∈ s.stored, s.Images o.censor Workers.toDiskMessage t) ∧
        (s.stored.map Traced.origin).Nodup) ∧
      (∀ (k : Nat) (c : Connection), s.connections[k]? = some c →
        (∀ t ∈ c.sent, s.Images o.censor toChatEvent t) ∧ (c.sent.map Traced.origin).Nodup) ∧
      ((s.routed.map fun r => r.message.origin).Nodup ∧
        ∀ k n, n ∈ s.arrivals (.stream k) → ∃ cmd r, s.accepted[n]? = some cmd ∧
          r ∈ s.routed ∧ r.message.origin = n ∧ k ∈ r.sinks ∧ s.Answered cmd.room r.sinks) ∧
      (∀ d ∈ s.deliveries, ∃ m, d.message.carried = .sanitizedMessage m) ∧
      ∀ c ∈ s.connections, ∀ t ∈ c.connectedUserEvent, ∃ m, t.carried = .sanitizedMessage m := by
  have hModerated := moderated_of_reachable h
  have hDelivers := delivers_of_reachable h
  refine ⟨⟨?_, ?_⟩, ?_, ⟨?_, ?_⟩, ?_, ?_⟩
  · exact fun t ht => images_of_from (hModerated.stored t ht)
  · exact nodup_origins (arrivals_count_le_one h .disk) (List.sublist_append_right _ _)
  · intro k c hc
    have hFrom := hModerated.connections c (List.mem_of_getElem? hc)
    refine ⟨fun t ht => images_of_from (hFrom.sent t ht), ?_⟩
    apply nodup_origins (arrivals_count_le_one h (.stream k))
    rw [ServerState.arrivals, received, hc, Option.toList_some, List.flatMap_singleton,
      Connection.arrived, ← List.append_assoc]
    exact List.sublist_append_right _ _
  · rw [List.nodup_iff_count_le_one]
    intro n
    rw [List.map_eq_flatMap]
    exact (conserved_of_reachable h).routed_count n
  · intro k n hn
    obtain ⟨r, hr, hOrigin, hSink⟩ := exists_routed_of_arrival hDelivers hn
    obtain ⟨_, cmd, hCmd, m, hSanitized, hCarried⟩ :=
      hModerated.routed r.message (List.mem_map_of_mem hr)
    have hAnswered := hDelivers.answered r hr
    rw [hCarried, roomID, (imageOf_of_isSanitized hSanitized).1] at hAnswered
    exact ⟨cmd, r, hOrigin ▸ hCmd, hr, hOrigin, hSink, hAnswered⟩
  · exact fun d hd => exists_sanitized_of_from (hModerated.deliveries _ (List.mem_map_of_mem hd))
  · exact fun c hc t ht => exists_sanitized_of_from ((hModerated.connections c hc).queued t ht)

def sampleOrchestrator : Orchestrator where
  poolWorkers := 2
  fanoutWorkers := 2
  maxContentLength := 100
  maxAnalyzedEvent := 2
  censor content := if content = "bad word" then ("bad ****", ["word"]) else (content, [])

def sampleNewId (d : Fin 16) : NewUUID := ⟨sampleId d, by decide +revert⟩

/-- Two users listen in room 1 and one in room 2. The second message of room 1
overtakes the first in the pool and is routed after it, when one of the
listeners has left. -/
def sampleDelivery : List ServerAction :=
  [.client (.connect "ann" 1), .client (.connect "bob" 1), .client (.connect "eve" 2),
    .pool .start, .pool .start, .moderation .start, .fanout .start, .fanout .start,
    .client (.post { room := 1, userId := "u", content := "bad word", createdAt := 5 } true),
    .client (.post { room := 1, userId := "v", content := "hello", createdAt := 6 } true),
    .pool (.receive (sampleNewId (UUID.digit 1))), .pool (.receive (sampleNewId (UUID.digit 2))),
    .pool (.send 1), .pool (.send 0),
    .moderation (.receive 0), .moderation (.send 0), .moderation (.receive 0), .moderation (.send 0),
    .fanout .receive, .fanout .receive, .fanout (.fanout 1 ["bob", "ann"]),
    .client (.disconnect 1), .fanout (.fanout 0 ["ann"]),
    .deliver 3 true, .deliver 1 true, .push 0 true, .push 0 true, .deliver 1 true, .deliver 1 true]

def sampleDelivered : ServerState := sampleOrchestrator.machine.after sampleDelivery

theorem pipeline_moderates_sample :
    sampleDelivered.stored.map (fun t => t.carried.content) = ["bad ****", "hello"] ∧
      sampleDelivered.connections.map (fun c => c.sent.map fun t => t.carried.content) =
        [["hello", "bad ****"], [], []] ∧
      (sampleDelivered.stored.map Traced.origin).Nodup ∧
      ∃ cmd r, sampleDelivered.accepted[1]? = some cmd ∧ r ∈ sampleDelivered.routed ∧
        r.message.origin = 1 ∧ 0 ∈ r.sinks ∧ sampleDelivered.Answered cmd.room r.sinks := by
  obtain ⟨⟨_, hOnce⟩, _, ⟨_, hRoutes⟩, _⟩ :=
    pipeline_moderates (Machine.reachable_after (M := sampleOrchestrator.machine) sampleDelivery)
  refine ⟨by decide +kernel, by decide +kernel, hOnce, ?_⟩
  exact hRoutes 0 1 (by decide +kernel)

end ChatLab.Runtime
