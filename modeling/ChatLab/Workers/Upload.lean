import ChatLab.Workers.FileSender
import ChatLab.Workers.Restarts

/-!
# What of a scan arrives at the master

Three invariants meet here: the account of the requests that were taken from
`fileChan`, the agreement of each stream with what was sent in its call, and the
agreement of the events of a stream with what was received on it. A stream
that follows a broken one repeats the call from its beginning, so a request may
be published once for each stream of its call, but within a stream the order is
that of `fileChan` and nothing is left out or changed.
-/

namespace ChatLab.Workers.FileSender

open Foundation Foundation.Bag

open Grpc.FileAnalyzer (FileAnalyzerRequestPb Received Phase fromPbFileAnalyzerRequest)

open Services (toEvent)

open Sink (FileAnalyse)

/-! ## Events of a stream -/

def accepted (r : FileAnalyzerRequestPb) : Bool := (fromPbFileAnalyzerRequest r).validate = []

/-- The event without the identifier that was drawn for it. -/
def anonymous (e : FileAnalyse) : FileAnalyse := { e with id := UUID.nil }

def images (rs : List FileAnalyzerRequestPb) : List FileAnalyse :=
  (rs.filter accepted).map fun r => toEvent (fromPbFileAnalyzerRequest r) UUID.nil

def publishedOn (k : Nat) (events : List (Nat × FileAnalyse)) : List FileAnalyse :=
  (events.filter fun e => e.1 = k).map Prod.snd

theorem images_concat_of_accepted {r : FileAnalyzerRequestPb} (h : accepted r = true)
    (rs : List FileAnalyzerRequestPb) :
    images (rs ++ [r]) = images rs ++ [toEvent (fromPbFileAnalyzerRequest r) UUID.nil] := by
  simp [images, h]

theorem images_concat_of_refused {r : FileAnalyzerRequestPb} (h : accepted r = false)
    (rs : List FileAnalyzerRequestPb) : images (rs ++ [r]) = images rs := by
  simp [images, h]

theorem publishedOn_concat_self (k : Nat) (events : List (Nat × FileAnalyse)) (e : FileAnalyse) :
    publishedOn k (events ++ [(k, e)]) = publishedOn k events ++ [e] := by
  simp [publishedOn]

theorem publishedOn_concat_of_ne {k j : Nat} (h : j ≠ k) (events : List (Nat × FileAnalyse))
    (e : FileAnalyse) : publishedOn j (events ++ [(k, e)]) = publishedOn j events := by
  simp [publishedOn, h.symm]

/-- What the server has published of a stream, by the phase of its handler. The
end of the stream is received after everything that was written on it. -/
def Follows (a : Attempt) (published : List FileAnalyse) : Phase → Prop
  | .receiving | .addingFile _ | .addingBytes _ => published.map anonymous = images a.received
  | .submitting request => ∃ earlier r, a.received = earlier ++ [r] ∧ accepted r = true ∧
      request = fromPbFileAnalyzerRequest r ∧ published.map anonymous = images earlier
  | .loadingFiles | .loadingBytes _ _ | .ended (some _) =>
      published.map anonymous = images a.received ∧ a.closed = true ∧ a.transit = []
  | .ended none => ∃ handled, handled <+: a.received ∧ published.map anonymous = images handled

section Follows

variable {a b : Attempt} {published : List FileAnalyse} {phase : Phase}

theorem Follows.exists_handled (h : Follows a published phase) :
    ∃ handled, handled <+: a.received ∧ published.map anonymous = images handled ∧
      ∀ summary, phase = .ended (some summary) →
        handled = a.received ∧ a.closed = true ∧ a.transit = [] := by
  cases phase with
  | submitting request =>
    obtain ⟨earlier, r, hReceived, _, _, hPublished⟩ := h
    exact ⟨earlier, hReceived ▸ List.prefix_append _ _, hPublished, nofun⟩
  | ended summary =>
    cases summary with
    | none =>
      obtain ⟨handled, hReceived, hPublished⟩ := h
      exact ⟨handled, hReceived, hPublished, nofun⟩
    | some summary =>
      obtain ⟨hPublished, hEnd⟩ := h
      exact ⟨a.received, List.prefix_rfl, hPublished, fun _ _ => ⟨rfl, hEnd⟩⟩
  | loadingFiles => exact ⟨a.received, List.prefix_rfl, h.1, nofun⟩
  | loadingBytes files counted => exact ⟨a.received, List.prefix_rfl, h.1, nofun⟩
  | _ => exact ⟨a.received, List.prefix_rfl, h, nofun⟩

/-- What the client does to a stream is not seen by the server before it receives. -/
theorem Follows.client (h : Follows a published phase) (hReceived : b.received = a.received)
    (hEnd : a.closed = true → a.transit = [] → b.closed = true ∧ b.transit = []) :
    Follows b published phase := by
  have hDone : (published.map anonymous = images a.received ∧ a.closed = true ∧ a.transit = []) →
      published.map anonymous = images b.received ∧ b.closed = true ∧ b.transit = [] := by
    rintro ⟨hPublished, hClosed, hTransit⟩
    exact ⟨hReceived ▸ hPublished, hEnd hClosed hTransit⟩
  cases phase with
  | ended summary =>
    cases summary with
    | none =>
      rw [Follows, hReceived]
      exact h
    | some summary => exact hDone h
  | loadingFiles => exact hDone h
  | loadingBytes files counted => exact hDone h
  | _ =>
    rw [Follows, hReceived]
    exact h

theorem Follows.recv {message : Received} (h : Follows a published .receiving)
    (hRecv : a.recv message = some b) :
    Follows b published (Grpc.FileAnalyzer.receive message) := by
  cases message with
  | eof =>
    simp only [Attempt.recv] at hRecv
    split at hRecv
    · rename_i hEnd
      cases hRecv
      exact ⟨h, hEnd⟩
    · cases hRecv
  | failed =>
    simp only [Attempt.recv] at hRecv
    split at hRecv
    · cases hRecv
      exact ⟨a.received, List.prefix_rfl, h⟩
    · cases hRecv
  | request r =>
    cases r with
    | none => cases hRecv
    | some r =>
      simp only [Attempt.recv] at hRecv
      split at hRecv
      · cases hRecv
      · split at hRecv
        · cases hRecv
          rw [Grpc.FileAnalyzer.receive]
          split
          · rename_i hValid
            exact ⟨a.received, r, rfl, decide_eq_true hValid, rfl, h⟩
          · rename_i hInvalid
            have hRefused : accepted r = false := decide_eq_false hInvalid
            exact h.trans (images_concat_of_refused hRefused a.received).symm
        · cases hRecv

end Follows

structure Served (attempts : List Attempt) (streams : List Phase)
    (events : List (Nat × FileAnalyse)) : Prop where
  paired : attempts.length = streams.length
  follows : ∀ k a, attempts[k]? = some a → ∀ phase, streams[k]? = some phase →
    Follows a (publishedOn k events) phase
  absent : ∀ k, attempts.length ≤ k → publishedOn k events = []

namespace Served

variable {attempts : List Attempt} {streams : List Phase} {events : List (Nat × FileAnalyse)}

theorem connect (h : Served attempts streams events) {a : Attempt} (hNew : a.received = []) :
    Served (attempts ++ [a]) (streams ++ [Phase.receiving]) events := by
  refine ⟨?_, ?_, ?_⟩
  · rw [List.length_append, List.length_append, h.paired]
    rfl
  · intro k b hb phase hPhase
    obtain ⟨hOld, hb⟩ | ⟨rfl, rfl⟩ := getElem?_concat_cases hb
    · rw [List.getElem?_append_left (h.paired ▸ hOld)] at hPhase
      exact h.follows k b hb phase hPhase
    · rw [h.paired, List.getElem?_concat_length] at hPhase
      cases hPhase
      rw [Follows, h.absent _ (Nat.le_refl _), hNew]
      rfl
  · intro k hk
    rw [List.length_append] at hk
    exact h.absent k (by omega)

theorem replace (h : Served attempts streams events) {k : Nat} {a b : Attempt}
    (hk : attempts[k]? = some a) (hReceived : b.received = a.received)
    (hEnd : a.closed = true → a.transit = [] → b.closed = true ∧ b.transit = []) :
    Served (attempts.set k b) streams events := by
  refine ⟨by rw [List.length_set, h.paired], ?_, ?_⟩
  · refine forall_getElem?_set (fun j x _ hx => h.follows j x hx) ?_
    intro phase hPhase
    exact (h.follows k a hk phase hPhase).client hReceived hEnd
  · intro j hj
    rw [List.length_set] at hj
    exact h.absent j hj

/-- The handler of stream `k` moves on, and publishes only on its stream. -/
theorem put (h : Served attempts streams events) {k : Nat} {a b : Attempt} {phase : Phase}
    {after : List (Nat × FileAnalyse)} (hk : attempts[k]? = some a)
    (hOthers : ∀ j, j ≠ k → publishedOn j after = publishedOn j events)
    (hFollows : Follows b (publishedOn k after) phase) :
    Served (attempts.set k b) (streams.set k phase) after := by
  obtain ⟨hLength, _⟩ := List.getElem?_eq_some_iff.mp hk
  refine ⟨by rw [List.length_set, List.length_set, h.paired], ?_, ?_⟩
  · refine forall_getElem?_set ?_ ?_
    · intro j x hj hx p hp
      rw [List.getElem?_set_ne (Ne.symm hj)] at hp
      rw [hOthers j hj]
      exact h.follows j x hx p hp
    · intro p hp
      rw [List.getElem?_set_self (h.paired ▸ hLength)] at hp
      cases hp
      exact hFollows
  · intro j hj
    rw [List.length_set] at hj
    rw [hOthers j (by omega)]
    exact h.absent j hj

theorem advance (h : Served attempts streams events) {k : Nat} {old phase : Phase}
    {after : List (Nat × FileAnalyse)} (hk : streams[k]? = some old)
    (hOthers : ∀ j, j ≠ k → publishedOn j after = publishedOn j events)
    (hFollows : ∀ a, Follows a (publishedOn k events) old → Follows a (publishedOn k after) phase) :
    Served attempts (streams.set k phase) after := by
  obtain ⟨hLength, _⟩ := List.getElem?_eq_some_iff.mp hk
  have hBound : k < attempts.length := h.paired ▸ hLength
  have hStream := List.getElem?_eq_getElem hBound
  have hPut := h.put hStream hOthers (hFollows _ (h.follows k _ hStream old hk))
  rwa [List.set_getElem_self] at hPut

end Served

theorem Served.serve {s : State} {a : Grpc.FileAnalyzer.Action} {attempts : List Attempt}
    {server : Grpc.FileAnalyzer.ServerState}
    (h : Served s.attempts s.server.streams s.server.eventChan)
    (hStreams : s.streamsAfter a = some attempts)
    (hServer : Grpc.FileAnalyzer.step s.server a = some server) :
    Served attempts server.streams server.eventChan := by
  cases a with
  | connect => cases hStreams
  | recv k message =>
    simp only [State.streamsAfter] at hStreams
    split at hStreams
    · cases hStreams
    · rename_i a hk
      obtain ⟨b, hRecv, rfl⟩ := Option.map_eq_some_iff.mp hStreams
      simp only [Grpc.FileAnalyzer.step] at hServer
      split at hServer
      · rename_i hPhase
        cases hServer
        exact h.put hk (fun _ _ => rfl) ((h.follows k a hk _ hPhase).recv hRecv)
      · cases hServer
  | send k id =>
    cases hStreams
    simp only [Grpc.FileAnalyzer.step] at hServer
    split at hServer
    · rename_i request hPhase
      cases hServer
      refine h.advance hPhase (fun j hj => publishedOn_concat_of_ne hj _ _) ?_
      rintro a ⟨earlier, r, hReceived, hAccepted, rfl, hPublished⟩
      rw [Follows, publishedOn_concat_self, List.map_append, hPublished, hReceived,
        images_concat_of_accepted hAccepted]
      rfl
    · cases hServer
  | contextDone k =>
    simp only [State.streamsAfter] at hStreams
    split at hStreams
    · cases hStreams
      simp only [Grpc.FileAnalyzer.step] at hServer
      split at hServer
      · rename_i hPhase
        cases hServer
        refine h.advance hPhase (fun _ _ => rfl) ?_
        rintro a ⟨earlier, r, hReceived, _, _, hPublished⟩
        exact ⟨earlier, hReceived ▸ List.prefix_append _ _, hPublished⟩
      · cases hServer
    · cases hStreams
  | addFile k =>
    cases hStreams
    simp only [Grpc.FileAnalyzer.step] at hServer
    split at hServer
    · rename_i hPhase
      cases hServer
      exact h.advance hPhase (fun _ _ => rfl) fun _ hSame => hSame
    · cases hServer
  | addBytes k =>
    cases hStreams
    simp only [Grpc.FileAnalyzer.step] at hServer
    split at hServer
    · rename_i hPhase
      cases hServer
      exact h.advance hPhase (fun _ _ => rfl) fun _ hSame => hSame
    · cases hServer
  | loadFiles k =>
    cases hStreams
    simp only [Grpc.FileAnalyzer.step] at hServer
    split at hServer
    · rename_i hPhase
      cases hServer
      exact h.advance hPhase (fun _ _ => rfl) fun _ hSame => hSame
    · cases hServer
  | loadBytes k now =>
    cases hStreams
    simp only [Grpc.FileAnalyzer.step] at hServer
    split at hServer
    · rename_i hPhase
      cases hServer
      exact h.advance hPhase (fun _ _ => rfl) fun _ hSame => hSame
    · cases hServer

/-! ## Streams of a call -/

structure Wired (maxAttempts : Nat) (calls : List Call) (attempts : List Attempt) : Prop where
  stream : ∀ (k : Nat) (a : Attempt), attempts[k]? = some a →
    ∃ call : Call, calls[a.call]? = some call ∧ a.written <+: call.sent ∧
      (a.closed = true → call.closed = true ∧ a.written = call.sent)
  last : ∀ (c : Nat) (call : Call), calls[c]? = some call →
    ∃ a : Attempt, attempts[call.stream]? = some a ∧ a.call = c ∧ a.written = call.sent ∧
      a.closed = call.closed
  count : ∀ (c : Nat) (call : Call), calls[c]? = some call →
    attempts.countP (fun a => a.call = c) = call.attempts ∧ call.attempts ≤ max 1 maxAttempts

namespace Wired

variable {maxAttempts : Nat} {calls : List Call} {attempts : List Attempt}

theorem call_lt (h : Wired maxAttempts calls attempts) : ∀ a ∈ attempts, a.call < calls.length := by
  intro a ha
  obtain ⟨k, hk⟩ := List.mem_iff_getElem?.mp ha
  obtain ⟨call, hCall, _⟩ := h.stream k a hk
  exact (List.getElem?_eq_some_iff.mp hCall).1

theorem countP_set_of_call {k : Nat} {a b : Attempt} (hk : attempts[k]? = some a)
    (hSame : b.call = a.call) (c : Nat) :
    (attempts.set k b).countP (fun x => x.call = c) = attempts.countP fun x => x.call = c := by
  have hCount := countP_set (fun x : Attempt => decide (x.call = c)) hk b
  rw [hSame] at hCount
  omega

theorem replace (h : Wired maxAttempts calls attempts) {k : Nat} {a b : Attempt}
    (hk : attempts[k]? = some a) (hSame : b.call = a.call) (hWritten : b.written = a.written)
    (hClosed : b.closed = a.closed) : Wired maxAttempts calls (attempts.set k b) := by
  obtain ⟨hLength, _⟩ := List.getElem?_eq_some_iff.mp hk
  refine ⟨?_, ?_, ?_⟩
  · refine forall_getElem?_set (fun j x _ hx => h.stream j x hx) ?_
    rw [hSame, hWritten, hClosed]
    exact h.stream k a hk
  · intro c call hCall
    obtain ⟨x, hx, hOf, hSent, hEnd⟩ := h.last c call hCall
    by_cases hStream : k = call.stream
    · subst hStream
      cases hk.symm.trans hx
      exact ⟨b, List.getElem?_set_self hLength, hSame.trans hOf, hWritten.trans hSent,
        hClosed.trans hEnd⟩
    · exact ⟨x, (List.getElem?_set_ne hStream).trans hx, hOf, hSent, hEnd⟩
  · intro c call hCall
    rw [countP_set_of_call hk hSame]
    exact h.count c call hCall

/-- Something is done to a call and to its last stream. -/
theorem onCall (h : Wired maxAttempts calls attempts) {c : Nat} {call : Call} (call' : Call)
    {a b : Attempt} (hCall : calls[c]? = some call) (hStream : attempts[call.stream]? = some a)
    (hOf : b.call = a.call) (hWritten : b.written = call'.sent) (hClosed : b.closed = call'.closed)
    (hLast : call'.stream = call.stream) (hAttempts : call'.attempts = call.attempts)
    (hGrows : call.sent <+: call'.sent)
    (hOver : call.closed = true → call'.closed = true ∧ call'.sent = call.sent) :
    Wired maxAttempts (calls.set c call') (attempts.set call.stream b) := by
  obtain ⟨hCallBound, _⟩ := List.getElem?_eq_some_iff.mp hCall
  obtain ⟨hStreamBound, _⟩ := List.getElem?_eq_some_iff.mp hStream
  obtain ⟨x, hx, hOwner, _⟩ := h.last c call hCall
  cases hStream.symm.trans hx
  refine ⟨?_, ?_, ?_⟩
  · refine forall_getElem?_set ?_ ?_
    · intro k y _ hy
      obtain ⟨old, hOld, hPart, hEnd⟩ := h.stream k y hy
      by_cases hSame : c = y.call
      · subst hSame
        cases hCall.symm.trans hOld
        refine ⟨call', List.getElem?_set_self hCallBound, hPart.trans hGrows, ?_⟩
        intro hy
        obtain ⟨hCallEnd, hAll⟩ := hEnd hy
        obtain ⟨hEnd', hSent⟩ := hOver hCallEnd
        exact ⟨hEnd', hAll.trans hSent.symm⟩
      · exact ⟨old, (List.getElem?_set_ne hSame).trans hOld, hPart, hEnd⟩
    · rw [hOf, hOwner, hWritten, hClosed]
      exact ⟨call', List.getElem?_set_self hCallBound, List.prefix_rfl, fun hEnd => ⟨hEnd, rfl⟩⟩
  · refine forall_getElem?_set ?_ ?_
    · intro d other hd hOther
      obtain ⟨y, hy, hYours, hRest⟩ := h.last d other hOther
      have hApart : call.stream ≠ other.stream := by
        intro hSame
        rw [← hSame, hStream] at hy
        cases hy
        exact hd (hYours.symm.trans hOwner)
      exact ⟨y, (List.getElem?_set_ne hApart).trans hy, hYours, hRest⟩
    · rw [hLast]
      exact ⟨b, List.getElem?_set_self hStreamBound, hOf.trans hOwner, hWritten, hClosed⟩
  · refine forall_getElem?_set ?_ ?_
    · intro d other _ hOther
      rw [countP_set_of_call hStream hOf]
      exact h.count d other hOther
    · rw [countP_set_of_call hStream hOf, hAttempts]
      exact h.count c call hCall

/-- A first stream of a new call. -/
theorem opened (h : Wired maxAttempts calls attempts) {b : Attempt} (hOf : b.call = calls.length)
    (hWritten : b.written = []) (hClosed : b.closed = false) :
    Wired maxAttempts (calls ++ [startOfCall attempts.length]) (attempts ++ [b]) := by
  have hNew : (calls ++ [startOfCall attempts.length])[calls.length]? =
      some (startOfCall attempts.length) := List.getElem?_concat_length
  refine ⟨?_, ?_, ?_⟩
  · refine forall_getElem?_concat ?_ ?_
    · intro k a hk
      obtain ⟨call, hCall, hRest⟩ := h.stream k a hk
      obtain ⟨hBound, _⟩ := List.getElem?_eq_some_iff.mp hCall
      exact ⟨call, (List.getElem?_append_left hBound).trans hCall, hRest⟩
    · rw [hOf, hWritten, hClosed]
      exact ⟨_, hNew, List.prefix_rfl, nofun⟩
  · refine forall_getElem?_concat ?_ ?_
    · intro c call hCall
      obtain ⟨a, ha, hRest⟩ := h.last c call hCall
      obtain ⟨hBound, _⟩ := List.getElem?_eq_some_iff.mp ha
      exact ⟨a, (List.getElem?_append_left hBound).trans ha, hRest⟩
    · exact ⟨b, List.getElem?_concat_length, hOf, hWritten, hClosed⟩
  · refine forall_getElem?_concat ?_ ?_
    · intro c call hCall
      obtain ⟨hBound, _⟩ := List.getElem?_eq_some_iff.mp hCall
      have hOther : decide (b.call = c) = false := decide_eq_false (by omega)
      rw [List.countP_append, List.countP_singleton, hOther]
      exact h.count c call hCall
    · have hNone : attempts.countP (fun a => a.call = calls.length) = 0 := by
        refine List.countP_eq_zero.mpr fun a ha hEq => ?_
        have hLt := h.call_lt a ha
        have := of_decide_eq_true hEq
        omega
      rw [List.countP_append, List.countP_singleton, hNone, hOf]
      simp [startOfCall]

/-- A further stream of a call. -/
theorem retry (h : Wired maxAttempts calls attempts) {c : Nat} {call : Call} {b : Attempt}
    (hCall : calls[c]? = some call) (hMore : call.attempts < maxAttempts) (hOf : b.call = c)
    (hWritten : b.written = call.sent) (hClosed : b.closed = call.closed) :
    Wired maxAttempts
      (calls.set c { call with attempts := call.attempts + 1, stream := attempts.length })
      (attempts ++ [b]) := by
  obtain ⟨hBound, _⟩ := List.getElem?_eq_some_iff.mp hCall
  refine ⟨?_, ?_, ?_⟩
  · refine forall_getElem?_concat ?_ ?_
    · intro k a hk
      obtain ⟨old, hOld, hRest⟩ := h.stream k a hk
      by_cases hSame : c = a.call
      · subst hSame
        cases hCall.symm.trans hOld
        exact ⟨_, List.getElem?_set_self hBound, hRest⟩
      · exact ⟨old, (List.getElem?_set_ne hSame).trans hOld, hRest⟩
    · rw [hOf, hWritten, hClosed]
      exact ⟨_, List.getElem?_set_self hBound, List.prefix_rfl, fun hEnd => ⟨hEnd, rfl⟩⟩
  · refine forall_getElem?_set ?_ ?_
    · intro d other _ hOther
      obtain ⟨a, ha, hRest⟩ := h.last d other hOther
      obtain ⟨hStream, _⟩ := List.getElem?_eq_some_iff.mp ha
      exact ⟨a, (List.getElem?_append_left hStream).trans ha, hRest⟩
    · exact ⟨b, List.getElem?_concat_length, hOf, hWritten, hClosed⟩
  · refine forall_getElem?_set ?_ ?_
    · intro d other hd hOther
      have hApart : decide (b.call = d) = false := decide_eq_false (by omega)
      rw [List.countP_append, List.countP_singleton, hApart]
      exact h.count d other hOther
    · obtain ⟨hCount, _⟩ := h.count c call hCall
      rw [List.countP_append, List.countP_singleton, hOf, hCount]
      simp only [decide_true, if_true, true_and]
      omega

end Wired

/-! ## The account of the requests -/

def fated (fate : Fate) (taken : List (FileAnalyzerRequest × Fate)) : List FileAnalyzerRequest :=
  (taken.filter fun e => e.2 = fate).map Prod.fst

def Fate.isSent : Fate → Bool
  | sent _ => true
  | dropped _ => false

def sentSizes (taken : List (FileAnalyzerRequest × Fate)) : List UInt64 :=
  (taken.filter fun e => e.2.isSent).map fun e => e.1.size

theorem fated_append (fate : Fate) (l l' : List (FileAnalyzerRequest × Fate)) :
    fated fate (l ++ l') = fated fate l ++ fated fate l' := by
  simp [fated]

theorem fated_sent_drop (c d : Nat) (reqs : List FileAnalyzerRequest) :
    fated (.sent c) (drop d reqs) = [] := by
  simp [fated, drop]

theorem fated_dropped_drop (c : Nat) (reqs : List FileAnalyzerRequest) :
    fated (.dropped c) (drop c reqs) = reqs := by
  simp [fated, drop, List.filter_map, Function.comp_def]

theorem fated_dropped_drop_of_ne {c d : Nat} (h : c ≠ d) (reqs : List FileAnalyzerRequest) :
    fated (.dropped c) (drop d reqs) = [] := by
  simp [fated, drop, h.symm]

theorem sentSizes_append_drop (taken : List (FileAnalyzerRequest × Fate)) (c : Nat)
    (reqs : List FileAnalyzerRequest) : sentSizes (taken ++ drop c reqs) = sentSizes taken := by
  simp [sentSizes, drop, Fate.isSent]

theorem RunPoint.length_hand_le (p : RunPoint) : p.hand.length ≤ 1 := by
  cases p <;> simp [RunPoint.hand]

namespace State

variable (s : State)

def hand : List FileAnalyzerRequest := (s.run.map RunPoint.hand).getD []

def slots : Nat := (s.run.map RunPoint.slots).getD 0

structure Accounted : Prop where
  produced : s.produced = s.taken.map Prod.fst ++ s.hand ++ s.fileChan
  known : ∀ e ∈ s.taken, e.2.call < s.calls.length
  sent : ∀ (c : Nat) (call : Call), s.calls[c]? = some call →
    call.sent = (fated (.sent c) s.taken).map toPbFileAnalyzerRequest
  dropped : ∀ c, (fated (.dropped c) s.taken).length ≤ 1
  loops : ∀ p c, s.run = some p → p.Loops c → fated (.dropped c) s.taken = [] ∧
    ∃ call : Call, s.calls[c]? = some call ∧ call.closed = false
  slots : s.inFlight = s.slots
  bytes : s.masterBytes.toNat = Grpc.FileAnalyzer.total (sentSizes s.taken) % 2 ^ 64

end State

section Accounted

variable {s : State}

/-- A call changes in what the account does not look at. -/
theorem State.Accounted.set_call (h : s.Accounted) {c : Nat} {call : Call} (call' : Call)
    (hCall : s.calls[c]? = some call) (hSent : call'.sent = call.sent)
    (hClosed : call'.closed = call.closed) :
    State.Accounted { s with calls := s.calls.set c call' } := by
  obtain ⟨hBound, _⟩ := List.getElem?_eq_some_iff.mp hCall
  refine { h with known := ?_, sent := ?_, loops := ?_ }
  · intro e he
    rw [List.length_set]
    exact h.known e he
  · refine forall_getElem?_set (fun d other _ hOther => h.sent d other hOther) ?_
    rw [hSent]
    exact h.sent c call hCall
  · intro p d hRun hLoop
    obtain ⟨hNone, other, hOther, hOpen⟩ := h.loops p d hRun hLoop
    refine ⟨hNone, ?_⟩
    by_cases hSame : c = d
    · subst hSame
      cases hCall.symm.trans hOther
      exact ⟨call', List.getElem?_set_self hBound, hClosed.trans hOpen⟩
    · exact ⟨other, (List.getElem?_set_ne hSame).trans hOther, hOpen⟩

/-- The goroutine goes to a point outside of its loop with empty hands. -/
theorem State.Accounted.leave (h : s.Accounted) (run : Option RunPoint) {inFlight : Nat}
    (hHand : s.hand = []) (hRun : ∀ p, run = some p → p.hand = [] ∧ p.slots = 0 ∧ ∀ c, ¬ p.Loops c)
    (hSlots : inFlight = 0) : State.Accounted { s with run := run, inFlight := inFlight } := by
  have hIdle : (run.map RunPoint.hand).getD [] = [] ∧ (run.map RunPoint.slots).getD 0 = 0 := by
    cases run with
    | none => exact ⟨rfl, rfl⟩
    | some p => exact ⟨(hRun p rfl).1, (hRun p rfl).2.1⟩
  refine { h with produced := ?_, loops := ?_, slots := ?_ }
  · rw [h.produced, hHand, State.hand, hIdle.1]
  · exact fun p c hp hLoop => absurd hLoop ((hRun p hp).2.2 c)
  · rw [State.slots, hIdle.2, hSlots]

theorem State.Accounted.opened (h : s.Accounted) (hRun : s.run = some .opening) (call : Call)
    (hSent : call.sent = []) (hClosed : call.closed = false) :
    State.Accounted
      { s with calls := s.calls ++ [call], run := some (.selecting s.calls.length) } := by
  have hFresh : ∀ fate : Fate, fate.call = s.calls.length → fated fate s.taken = [] := by
    intro fate hFate
    rw [fated, List.map_eq_nil_iff, List.filter_eq_nil_iff]
    intro e he hEq
    have hKnown := h.known e he
    rw [of_decide_eq_true hEq] at hKnown
    omega
  have hHand : s.hand = [] := by rw [State.hand, hRun]; rfl
  have hSlots := h.slots
  rw [State.slots, hRun] at hSlots
  refine { h with produced := ?_, known := ?_, sent := ?_, loops := ?_, slots := hSlots }
  · rw [h.produced, hHand]
    rfl
  · intro e he
    have := h.known e he
    rw [List.length_append]
    omega
  · refine forall_getElem?_concat h.sent ?_
    rw [hSent, hFresh _ rfl]
    rfl
  · rintro p c hp hLoop
    cases hp
    cases hLoop
    exact ⟨hFresh _ rfl, call, List.getElem?_concat_length, hClosed⟩

theorem State.Accounted.send (h : s.Accounted) {c : Nat} {req : FileAnalyzerRequest} {call : Call}
    (hRun : s.run = some (.sending c req)) (hCall : s.calls[c]? = some call) :
    State.Accounted
      { s with
        inFlight := s.inFlight - 1
        masterBytes := s.masterBytes + req.size
        run := some (.selecting c)
        taken := s.taken ++ [(req, Fate.sent c)]
        calls := s.calls.set c
          { call with sent := call.sent ++ [toPbFileAnalyzerRequest req] } } := by
  obtain ⟨hBound, _⟩ := List.getElem?_eq_some_iff.mp hCall
  have hDropped : ∀ d, fated (.dropped d) (s.taken ++ [(req, Fate.sent c)]) =
      fated (.dropped d) s.taken := by
    intro d
    simp [fated]
  refine ⟨?_, ?_, ?_, ?_, ?_, ?_, ?_⟩
  · rw [h.produced, State.hand, hRun, List.map_append]
    simp [RunPoint.hand, State.hand]
  · refine forall_mem_concat (fun e he => ?_) ?_
    · rw [List.length_set]
      exact h.known e he
    · rw [List.length_set]
      exact hBound
  · refine forall_getElem?_set ?_ ?_
    · intro d other hd hOther
      rw [h.sent d other hOther, fated_append]
      simp [fated, hd.symm]
    · change call.sent ++ _ = _
      rw [h.sent c call hCall, fated_append, List.map_append]
      simp [fated]
  · intro d
    rw [hDropped]
    exact h.dropped d
  · rintro p d hp hLoop
    cases hp
    cases hLoop
    obtain ⟨hNone, other, hOther, hOpen⟩ := h.loops _ c hRun rfl
    cases hCall.symm.trans hOther
    exact ⟨(hDropped c).trans hNone, _, List.getElem?_set_self hBound, hOpen⟩
  · have hSlots := h.slots
    rw [State.slots, hRun] at hSlots
    change s.inFlight - 1 = 0
    rw [hSlots]
    rfl
  · have hBytes := h.bytes
    have hSizes : sentSizes (s.taken ++ [(req, Fate.sent c)]) =
        sentSizes s.taken ++ [req.size] := by
      simp [sentSizes, Fate.isSent]
    rw [hSizes, Grpc.FileAnalyzer.total_append]
    simp only [UInt64.toNat_add, Grpc.FileAnalyzer.total, List.foldr_cons, List.foldr_nil,
      Nat.add_zero] at hBytes ⊢
    omega

theorem State.Accounted.stop (h : s.Accounted) {c : Nat} {p : RunPoint}
    (sendErr : Option SendError) {call : Call} (hRun : s.run = some p) (hLoop : p.Loops c)
    (hCall : s.calls[c]? = some call) :
    State.Accounted
      { s with
        inFlight := s.inFlight - p.slots
        taken := s.taken ++ drop c p.hand
        run := some (.closing c sendErr)
        calls := s.calls.set c { call with closed := true } } := by
  obtain ⟨hBound, _⟩ := List.getElem?_eq_some_iff.mp hCall
  obtain ⟨hNone, _⟩ := h.loops p c hRun hLoop
  refine ⟨?_, ?_, ?_, ?_, ?_, ?_, ?_⟩
  · rw [h.produced, State.hand, hRun, List.map_append]
    simp [RunPoint.hand, State.hand, drop, Function.comp_def]
  · intro e he
    rw [List.length_set]
    obtain he | he := List.mem_append.mp he
    · exact h.known e he
    · obtain ⟨req, _, rfl⟩ := List.mem_map.mp he
      exact hBound
  · refine forall_getElem?_set ?_ ?_
    · intro d other _ hOther
      rw [fated_append, fated_sent_drop, List.append_nil]
      exact h.sent d other hOther
    · rw [fated_append, fated_sent_drop, List.append_nil]
      exact h.sent c call hCall
  · intro d
    rw [fated_append]
    by_cases hSame : d = c
    · subst hSame
      rw [hNone, fated_dropped_drop]
      exact p.length_hand_le
    · rw [fated_dropped_drop_of_ne hSame, List.append_nil]
      exact h.dropped d
  · rintro q d hq hLoops
    cases hq
    exact hLoops.elim
  · have hSlots := h.slots
    rw [State.slots, hRun] at hSlots
    change s.inFlight - p.slots = 0
    rw [hSlots]
    exact Nat.sub_self _
  · rw [sentSizes_append_drop]
    exact h.bytes

end Accounted

/-! ## Every run -/

structure State.Sound (maxAttempts : Nat) (s : State) : Prop where
  accounted : s.Accounted
  wired : Wired maxAttempts s.calls s.attempts
  served : Served s.attempts s.server.streams s.server.eventChan

section Runs

variable {maxAttempts : Nat} {s t : State}

theorem Attempt.recv_same {a b : Attempt} {message : Received} (h : a.recv message = some b) :
    b.call = a.call ∧ b.written = a.written ∧ b.closed = a.closed := by
  cases message with
  | request r =>
    cases r with
    | none => cases h
    | some r =>
      simp only [Attempt.recv] at h
      split at h
      · cases h
      · rename_i first rest hTransit
        split at h
        · rename_i hFirst
          cases h
          refine ⟨rfl, ?_, rfl⟩
          rw [Attempt.written, Attempt.written, hTransit, hFirst, List.append_assoc]
          rfl
        · cases h
  | eof =>
    simp only [Attempt.recv] at h
    split at h
    · cases h
      exact ⟨rfl, rfl, rfl⟩
    · cases h
  | failed =>
    simp only [Attempt.recv] at h
    split at h
    · cases h
      exact ⟨rfl, rfl, rfl⟩
    · cases h

theorem Wired.serve (h : Wired maxAttempts s.calls s.attempts) {a : Grpc.FileAnalyzer.Action}
    {attempts : List Attempt} (hStreams : s.streamsAfter a = some attempts) :
    Wired maxAttempts s.calls attempts := by
  cases a with
  | connect => cases hStreams
  | recv k message =>
    simp only [State.streamsAfter] at hStreams
    split at hStreams
    · cases hStreams
    · rename_i a hk
      obtain ⟨b, hRecv, rfl⟩ := Option.map_eq_some_iff.mp hStreams
      obtain ⟨hCall, hWritten, hClosed⟩ := Attempt.recv_same hRecv
      exact h.replace hk hCall hWritten hClosed
  | contextDone k =>
    simp only [State.streamsAfter] at hStreams
    split at hStreams
    · cases hStreams
      exact h
    · cases hStreams
  | _ =>
    cases hStreams
    exact h

theorem State.Sound.send (h : s.Sound maxAttempts) {c : Nat} {req : FileAnalyzerRequest}
    {call : Call} {a : Attempt} (hRun : s.run = some (.sending c req))
    (hCall : s.calls[c]? = some call) (hStream : s.attempts[call.stream]? = some a) :
    State.Sound maxAttempts
      { s with
        inFlight := s.inFlight - 1
        masterBytes := s.masterBytes + req.size
        run := some (.selecting c)
        taken := s.taken ++ [(req, Fate.sent c)]
        calls := s.calls.set c { call with sent := call.sent ++ [toPbFileAnalyzerRequest req] }
        attempts := s.attempts.set call.stream
          { a with transit := a.transit ++ [toPbFileAnalyzerRequest req] } } := by
  obtain ⟨_, x, hx, hOpen⟩ := h.accounted.loops _ c hRun rfl
  cases hCall.symm.trans hx
  obtain ⟨y, hy, _, hWritten, hClosed⟩ := h.wired.last c call hCall
  cases hStream.symm.trans hy
  have hAccounted := h.accounted.send hRun hCall
  refine ⟨{ hAccounted with }, ?_, ?_⟩
  · refine h.wired.onCall _ hCall hStream rfl ?_ hClosed rfl rfl (List.prefix_append _ _) ?_
    · rw [← hWritten, Attempt.written, Attempt.written, List.append_assoc]
    · rw [hOpen]
      nofun
  · refine h.served.replace hStream rfl ?_
    rw [hClosed, hOpen]
    nofun

theorem State.Sound.stop (h : s.Sound maxAttempts) {c : Nat} {p : RunPoint}
    {sendErr : Option SendError} {call : Call} {a : Attempt} (hRun : s.run = some p)
    (hLoop : p.Loops c) (hCall : s.calls[c]? = some call)
    (hStream : s.attempts[call.stream]? = some a) :
    State.Sound maxAttempts
      { s with
        inFlight := s.inFlight - p.slots
        taken := s.taken ++ drop c p.hand
        run := some (.closing c sendErr)
        calls := s.calls.set c { call with closed := true }
        attempts := s.attempts.set call.stream { a with closed := true } } := by
  obtain ⟨y, hy, _, hWritten, _⟩ := h.wired.last c call hCall
  cases hStream.symm.trans hy
  have hAccounted := h.accounted.stop sendErr hRun hLoop hCall
  refine ⟨{ hAccounted with }, ?_, ?_⟩
  · exact h.wired.onCall _ hCall hStream rfl hWritten rfl rfl rfl List.prefix_rfl
      fun _ => ⟨rfl, rfl⟩
  · exact h.served.replace hStream rfl fun _ hTransit => ⟨rfl, hTransit⟩

theorem State.Sound.steps (h : s.Sound maxAttempts) (hStep : Steps maxAttempts s t) :
    t.Sound maxAttempts := by
  cases hStep with
  | produce req =>
    refine { h with accounted := { h.accounted with produced := ?_ } }
    rw [h.accounted.produced, List.append_assoc, List.append_assoc, List.append_assoc]
    rfl
  | signal => exact { h with accounted := { h.accounted with } }
  | closeFileChan hDone => exact { h with accounted := { h.accounted with } }
  | cancel => exact { h with accounted := { h.accounted with } }
  | @supervise m p hRun hMove hGoes =>
    have hHand : s.hand = [] := by rw [State.hand, hRun]; rfl
    have hLeft := h.accounted.leave (if p = .running then some .opening else none) hHand (by
      intro q hq
      split at hq
      · cases hq
        exact ⟨rfl, rfl, fun _ => id⟩
      · cases hq) rfl
    exact { h with accounted := { hLeft with } }
  | opened hRun =>
    have hOpened := h.accounted.opened hRun (startOfCall s.attempts.length) rfl rfl
    exact ⟨{ hOpened with }, h.wired.opened rfl rfl rfl, h.served.connect rfl⟩
  | unopened hRun =>
    have hHand : s.hand = [] := by rw [State.hand, hRun]; rfl
    have hSlots := h.accounted.slots
    rw [State.slots, hRun] at hSlots
    have hLeft := h.accounted.leave none hHand nofun hSlots
    exact { h with accounted := { hLeft with } }
  | @take c req rest hRun hChan =>
    have hSlots := h.accounted.slots
    rw [State.slots, hRun] at hSlots
    refine { h with accounted := { h.accounted with produced := ?_, loops := ?_, slots := hSlots } }
    · rw [h.accounted.produced, hChan, State.hand, hRun]
      simp [State.hand, RunPoint.hand]
    · rintro p d hp hLoop
      cases hp
      exact h.accounted.loops _ d hRun hLoop
  | @acquire c req hRun =>
    have hSlots := h.accounted.slots
    rw [State.slots, hRun] at hSlots
    refine { h with accounted := { h.accounted with produced := ?_, loops := ?_, slots := ?_ } }
    · rw [h.accounted.produced, State.hand, hRun]
      rfl
    · rintro p d hp hLoop
      cases hp
      exact h.accounted.loops _ d hRun hLoop
    · change s.inFlight + 1 = 1
      rw [hSlots]
      rfl
  | send hRun hCall hStream => exact h.send hRun hCall hStream
  | stop hRun hLoop hSlot hWhy hCall hStream => exact h.stop hRun hLoop hCall hStream
  | finish hRun hAnswer =>
    have hHand : s.hand = [] := by rw [State.hand, hRun]; rfl
    have hSlots := h.accounted.slots
    rw [State.slots, hRun] at hSlots
    have hLeft := h.accounted.leave none hHand nofun hSlots
    exact { h with accounted := { hLeft with } }
  | @commit c call hCall =>
    obtain ⟨a, ha, hOf, hWritten, hClosed⟩ := h.wired.last c call hCall
    obtain ⟨hBound, rfl⟩ := List.getElem?_eq_some_iff.mp ha
    have hSame := h.wired.onCall { call with committed := true } hCall ha rfl hWritten
      hClosed rfl rfl List.prefix_rfl fun hEnd => ⟨hEnd, rfl⟩
    rw [List.set_getElem_self] at hSame
    exact ⟨h.accounted.set_call _ hCall rfl rfl, hSame, h.served⟩
  | @retry c call hCall hMore =>
    have hAccounted := h.accounted.set_call
      { call with attempts := call.attempts + 1, stream := s.attempts.length } hCall rfl rfl
    exact ⟨{ hAccounted with }, h.wired.retry hCall hMore rfl rfl rfl, h.served.connect rfl⟩
  | disconnect hStream =>
    exact ⟨{ h.accounted with }, h.wired.replace hStream rfl rfl rfl,
      h.served.replace hStream rfl fun hClosed hTransit => ⟨hClosed, hTransit⟩⟩
  | serve hStreams hServer =>
    exact ⟨{ h.accounted with }, h.wired.serve hStreams, h.served.serve hStreams hServer⟩

theorem sound_of_reachable (h : (machine maxAttempts).Reachable s) : s.Sound maxAttempts := by
  refine Machine.Reachable.invariant (I := State.Sound maxAttempts) ?_ ?_ h
  · have hNoCall : ∀ {P : Nat → Call → Prop} (c : Nat) (call : Call),
        ([] : List Call)[c]? = some call → P c call :=
      fun c call hc => absurd (List.mem_of_getElem? hc) List.not_mem_nil
    have hNoStream : ∀ {P : Nat → Attempt → Prop} (k : Nat) (a : Attempt),
        ([] : List Attempt)[k]? = some a → P k a :=
      fun k a hk => absurd (List.mem_of_getElem? hk) List.not_mem_nil
    refine ⟨⟨rfl, ?_, hNoCall, fun _ => Nat.zero_le _, ?_, rfl, rfl⟩,
      ⟨hNoStream, hNoCall, hNoCall⟩, ⟨rfl, hNoStream, fun _ _ => rfl⟩⟩
    · exact fun e he => absurd he List.not_mem_nil
    · exact fun p c hp => absurd hp (by simp [machine])
  · exact fun s a t hs hStep => hs.steps (steps_of_step hStep)

theorem images_map_toPb (reqs : List FileAnalyzerRequest) :
    images (reqs.map toPbFileAnalyzerRequest) =
      (reqs.filter fun req => (atMaster req).validate = []).map
        fun req => toEvent (atMaster req) UUID.nil := by
  simp [images, List.filter_map, Function.comp_def, accepted, fromPb_toPbFileAnalyzerRequest]

/-- In every run, with streams that break and calls that are repeated at any
time: what was taken from `fileChan` is what was put there, in order; a call of
`Run` takes at most one request that it does not send; and each of the at most
`maxAttempts` streams of a call publishes the valid ones among the first requests
that were sent in this call, in order and each once, all of them if the stream
ended with a summary. -/
theorem upload_in_order (h : (machine maxAttempts).Reachable s) :
    s.produced = s.taken.map Prod.fst ++ s.hand ++ s.fileChan ∧
      (∀ c, (fated (.dropped c) s.taken).length ≤ 1) ∧
      (∀ c, s.attempts.countP (fun a => a.call = c) ≤ max 1 maxAttempts) ∧
      (∀ k, s.attempts.length ≤ k → publishedOn k s.server.eventChan = []) ∧
      ∀ (k : Nat) (a : Attempt), s.attempts[k]? = some a →
        ∃ handled, handled <+: fated (.sent a.call) s.taken ∧
          (publishedOn k s.server.eventChan).map anonymous =
            (handled.filter fun req => (atMaster req).validate = []).map
              (fun req => toEvent (atMaster req) UUID.nil) ∧
          ∀ summary, s.server.streams[k]? = some (.ended (some summary)) →
            handled = fated (.sent a.call) s.taken := by
  obtain ⟨hAccounted, hWired, hServed⟩ := sound_of_reachable h
  refine ⟨hAccounted.produced, hAccounted.dropped, ?_, hServed.absent, ?_⟩
  · intro c
    cases hCall : s.calls[c]? with
    | none =>
      have hNone : s.attempts.countP (fun a => a.call = c) = 0 := by
        refine List.countP_eq_zero.mpr fun a ha hEq => ?_
        have hLt := hWired.call_lt a ha
        rw [of_decide_eq_true hEq] at hLt
        exact absurd hLt (Nat.not_lt.mpr (List.getElem?_eq_none_iff.mp hCall))
      rw [hNone]
      exact Nat.zero_le _
    | some call =>
      obtain ⟨hCount, hLimit⟩ := hWired.count c call hCall
      exact hCount ▸ hLimit
  · intro k a ha
    obtain ⟨hBound, _⟩ := List.getElem?_eq_some_iff.mp ha
    have hPhase := List.getElem?_eq_getElem (hServed.paired ▸ hBound)
    obtain ⟨handled, hReceived, hPublished, hEnd⟩ :=
      (hServed.follows k a ha _ hPhase).exists_handled
    obtain ⟨call, hCall, hWritten, hClosed⟩ := hWired.stream k a ha
    have hSent := hAccounted.sent a.call call hCall
    -- a part of what was sent is the image of a part of the requests
    obtain ⟨rest, hRest⟩ := (hReceived.trans (List.prefix_append _ a.transit)).trans hWritten
    rw [hSent] at hRest
    obtain ⟨reqs, later, hSplit, rfl, hLater⟩ := List.map_eq_append_iff.mp hRest.symm
    refine ⟨reqs, hSplit ▸ List.prefix_append _ _, ?_, ?_⟩
    · rw [hPublished, images_map_toPb]
    · intro summary hSummary
      obtain ⟨hAll, hOver, hTransit⟩ := hEnd summary (Option.some.inj (hPhase.symm.trans hSummary))
      have hWhole : a.written = call.sent := (hClosed hOver).2
      rw [Attempt.written, hTransit, List.append_nil, ← hAll, hSent, hSplit,
        List.map_append] at hWhole
      have hNil : later = [] :=
        List.map_eq_nil_iff.mp (List.self_eq_append_right.mp hWhole)
      rw [hSplit, hNil, List.append_nil]

end Runs

def sampleRequest (path driveId : String) : FileAnalyzerRequest where
  path := path
  driveId := driveId
  size := 3
  attributes := 0
  mimeType := "application/pdf"
  magicBytes := [37, 80]
  scannedAt := 5
  sourceType := .removable

/-- What the server does with a valid request that it receives on stream `k`. -/
def handling (k : Nat) (req : FileAnalyzerRequest) : List Action :=
  [.serve (.recv k (.request (some (toPbFileAnalyzerRequest req)))), .serve (.send k UUID.nil),
    .serve (.addFile k), .serve (.addBytes k)]

/-- Three requests, of which the second has no drive. The stream breaks after the
first one, and the second stream of the call repeats it. -/
def sampleUpload : List Action :=
  [.produce (sampleRequest "/a" "d"), .produce (sampleRequest "/b" ""),
    .produce (sampleRequest "/c" "d"), .supervise .check, .supervise .call, .opened true,
    .receive, .acquire, .send true] ++ handling 0 (sampleRequest "/a" "d") ++
  [.receive, .acquire, .disconnect 0, .retry, .send true, .receive, .acquire] ++
  handling 1 (sampleRequest "/a" "d") ++
  [.serve (.recv 1 (.request (some (toPbFileAnalyzerRequest (sampleRequest "/b" ""))))),
    .send true] ++ handling 1 (sampleRequest "/c" "d")

theorem upload_in_order_repeated :
    ((publishedOn 0 ((machine 5).after sampleUpload).server.eventChan).map FileAnalyse.path =
        ["/a"] ∧
      (publishedOn 1 ((machine 5).after sampleUpload).server.eventChan).map FileAnalyse.path =
        ["/a", "/c"]) ∧
      ((machine 5).after sampleUpload).attempts.countP (fun a => a.call = 0) ≤ 5 := by
  refine ⟨by decide +kernel, ?_⟩
  obtain ⟨_, _, hStreams, _⟩ := upload_in_order (Machine.reachable_after sampleUpload :
    (machine 5).Reachable _)
  exact hStreams 0

end ChatLab.Workers.FileSender
