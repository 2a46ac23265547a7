import ChatLab.Storage.TaskQueue
import ChatLab.Workers.FileTransfer

/-!
# The poller of queued files

The master runs one `FileTransferWorker`. At each tick it reads a batch of
pending tasks, claims them one after the other and sends a request to the
downloader for each claim that went through. The claim is stored, the request
is not: it waits in a channel of the process, and nothing moves a task back from
processing to pending. The process may end at any time and start again on the
store that it left; the request in the poller's hand and those that wait in the
channel are gone then.
-/

namespace ChatLab.Workers.Poller

open Foundation Foundation.Transactions Storage Transfer

inductive Point
  | selecting
  -- the loop over the tasks of a batch
  | claiming (rest : List FileTask)
  | sending (task : FileTask) (rest : List FileTask)
  | returned
deriving DecidableEq

namespace Point

def batch : Point → List FileTask
  | claiming rest => rest
  | sending _ rest => rest
  | _ => []

def hand : Point → List FileTask
  | sending task _ => [task]
  | _ => []

/-- The next round of the loop, or the next `select`. -/
def next : List FileTask → Point
  | [] => selecting
  | t :: rest => claiming (t :: rest)

theorem batch_next (rest : List FileTask) : (next rest).batch = rest := by
  cases rest <;> rfl

theorem hand_next (rest : List FileTask) : (next rest).hand = [] := by
  cases rest <;> rfl

end Point

structure State where
  queue : QueueState
  cancelled : Bool
  point : Point
  requestChan : List FileDownloaderRequest
  consumed : List FileDownloaderRequest
  -- the tasks whose request was sent, in the order of the claims
  sent : List FileTask
  -- of these, the tasks whose request was received, waits in the channel, or
  -- waited there when a process ended
  received : List FileTask
  waiting : List FileTask
  dropped : List FileTask
  -- the tasks that the poller held when a process ended
  lost : List FileTask
  ended : Nat
deriving DecidableEq

inductive Action
  | enqueueTask (t : FileTask) (committed : Bool)
  | foreign (key : Key) (value : Option Value)
  | tick (fault : Bool)
  | claim (readFault committed : Bool)
  | send
  -- a receiver waits
  | handOver
  | consume
  | cancel
  | ctxDone
  -- the process ends and another one starts
  | restart

def request (task : FileTask) : FileDownloaderRequest where
  driveId := task.driveId
  fileId := task.id
  path := task.path

section Steps

variable (marshals : FileTaskPb → Bool) (pendingFileBatchSize : Int) (bufferSize : Nat)

/-- The queue does this, and the worker is not concerned. -/
def onQueue (s : State) (a : QueueAction) : Option State :=
  (queueStep marshals s.queue a).map fun queue => { s with queue := queue }

def sendRequest (s : State) (task : FileTask) (rest : List FileTask) : State :=
  { s with point := .next rest, sent := s.sent ++ [task] }

def step (s : State) : Action → Option State
  | .enqueueTask t committed => onQueue marshals s (.enqueueTask t committed)
  | .foreign key value => onQueue marshals s (.foreign key value)
  | .tick fault =>
    match s.point with
    | .selecting =>
      if fault then some s
      else
        match getNextBatch s.queue.db pendingFileBatchSize with
        | .error _ => some s
        | .ok tasks => some { s with
            queue := { s.queue with returned := s.queue.returned ++ tasks }
            point := .next tasks }
    | _ => none
  | .claim readFault committed =>
    match s.point with
    | .claiming (task :: rest) =>
      let marked := markTask marshals s.queue.db { task := task, readFault := readFault } committed
      match dispatch task marked.2 with
      | none => some { s with point := .next rest }
      | some _ => some { s with
          queue := { s.queue with db := marked.1 }
          point := .sending task rest }
    | _ => none
  -- no `select` here: the worker does not see that the context is done
  | .send =>
    match s.point with
    | .sending task rest =>
      if s.requestChan.length < bufferSize then
        some { sendRequest s task rest with
          requestChan := s.requestChan ++ [request task], waiting := s.waiting ++ [task] }
      else none
    | _ => none
  | .handOver =>
    match s.point, s.requestChan with
    | .sending task rest, [] =>
      some { sendRequest s task rest with
        consumed := s.consumed ++ [request task], received := s.received ++ [task] }
    | _, _ => none
  | .consume =>
    match s.requestChan with
    | [] => none
    | r :: rest => some { s with
        requestChan := rest
        consumed := s.consumed ++ [r]
        received := s.received ++ s.waiting.take 1
        waiting := s.waiting.drop 1 }
  | .cancel => some { s with cancelled := true }
  | .ctxDone =>
    match s.point with
    | .selecting => if s.cancelled then some { s with point := .returned } else none
    | _ => none
  | .restart => some { s with
      cancelled := false
      point := .selecting
      requestChan := []
      waiting := []
      dropped := s.dropped ++ s.waiting
      lost := s.lost ++ s.point.hand
      ended := s.ended + 1 }

def machine : Machine State Action where
  start :=
    { queue := (queueMachine marshals).start, cancelled := false, point := .selecting,
      requestChan := [], consumed := [], sent := [], received := [], waiting := [],
      dropped := [], lost := [], ended := 0 }
  step := step marshals pendingFileBatchSize bufferSize

/-- The sink enqueues regular tasks under new identifiers. -/
def EnqueuesNew (s : State) : Action → Prop
  | .enqueueTask t committed => Proper s.queue (.enqueueTask t committed)
  | _ => True

instance (s : State) : (a : Action) → Decidable (EnqueuesNew s a)
  | .enqueueTask t committed =>
    inferInstanceAs (Decidable (Proper s.queue (.enqueueTask t committed)))
  | .foreign _ _ => inferInstanceAs (Decidable True)
  | .tick _ => inferInstanceAs (Decidable True)
  | .claim _ _ => inferInstanceAs (Decidable True)
  | .send => inferInstanceAs (Decidable True)
  | .handOver => inferInstanceAs (Decidable True)
  | .consume => inferInstanceAs (Decidable True)
  | .cancel => inferInstanceAs (Decidable True)
  | .ctxDone => inferInstanceAs (Decidable True)
  | .restart => inferInstanceAs (Decidable True)

end Steps

/-! ## Claims of pending tasks -/

section Claims

variable {marshals : FileTaskPb → Bool}

/-- An error of the read that is passed over makes no difference for a task that
is pending. -/
theorem markTask_of_pending {db : DB} {t : FileTask}
    (h : (db.get? (pendingKey t)).isSome = true) (readFault committed : Bool) :
    markTask marshals db { task := t, readFault := readFault } committed =
      claimTask marshals db t committed := by
  obtain ⟨v, hv⟩ := Option.isSome_iff_exists.mp h
  have hBody : markAsProcessing marshals { task := t, readFault := readFault } db =
      markAsProcessing marshals { task := t, readFault := false } db := by
    simp only [markAsProcessing, hv, reduceCtorEq, and_false]
  rw [claimTask, markTask, markTask, hBody]

theorem dispatch_eq_none {t : FileTask} {result : Except (TxnError TaskError) Unit} :
    dispatch t result = none ↔ result ≠ .ok () := by
  cases result with
  | ok u => simp [dispatch]
  | error e => simp [dispatch]

/-- What a claim of a task of the batch does. -/
inductive Claimed (marshals : FileTaskPb → Bool) (queue : QueueState) (t : FileTask)
    (committed : Bool) : Option FileDownloaderRequest → DB → Prop
  | refused : Claimed marshals queue t committed none queue.db
  | granted {db : DB} : Moves t queue.db db →
      QueueState.Sound marshals { queue with db := db } →
      Claimed marshals queue t committed (some (request t)) db

theorem claimed_of_pending {queue : QueueState} (h : queue.Sound marshals) {t : FileTask}
    (ht : t ∈ pendingTasks queue.db) (readFault committed : Bool) :
    Claimed marshals queue t committed
      (dispatch t (markTask marshals queue.db { task := t, readFault := readFault } committed).2)
      (markTask marshals queue.db { task := t, readFault := readFault } committed).1 := by
  have hEnqueued : t ∈ queue.enqueued := h.conserved.mem_iff.mp (List.mem_append_left _ ht)
  rw [markTask_of_pending ((h.get?_pendingKey hEnqueued).mpr ht)]
  have hSound := h.claim hEnqueued committed
  by_cases hOk : (claimTask marshals queue.db t committed).2 = .ok ()
  · have hMoves := h.moves hEnqueued ht
    rw [← (claimTask_ok hOk).2] at hMoves
    rw [hOk]
    exact .granted hMoves hSound
  · rw [dispatch_eq_none.mpr hOk, claimTask_error hOk]
    exact .refused

end Claims

/-! ## The invariant -/

structure State.Sound (marshals : FileTaskPb → Bool) (s : State) : Prop where
  queue : s.queue.Sound marshals
  batch : ∀ t ∈ s.point.batch, t ∈ pendingTasks s.queue.db
  distinct : s.point.batch.Nodup
  nonempty : s.point ≠ .claiming []
  claimed : (processingTasks s.queue.db).Perm (s.sent ++ s.point.hand ++ s.lost)
  lost : s.lost.length ≤ s.ended

/-- Every request that was sent has one place, and the channel has its room. -/
structure State.Accounted (bufferSize : Nat) (s : State) : Prop where
  consumed : s.consumed = s.received.map request
  waiting : s.requestChan = s.waiting.map request
  sent : s.sent.Perm (s.received ++ s.waiting ++ s.dropped)
  order : (s.received ++ s.waiting).Sublist s.sent
  room : s.waiting.length ≤ bufferSize
  dropped : s.dropped.length ≤ s.ended * bufferSize

section Steps

variable {marshals : FileTaskPb → Bool} {pendingFileBatchSize : Int} {bufferSize : Nat}
  {s t : State} {a : Action}

theorem next_ne_claiming (rest : List FileTask) : Point.next rest ≠ .claiming [] := by
  cases rest <;> simp [Point.next]

/-- What a step does to a state with the invariant. -/
inductive Goes (marshals : FileTaskPb → Bool) (pendingFileBatchSize : Int) (bufferSize : Nat)
    (s : State) : State → Prop
  -- a write outside of the claimed tasks that takes no pending task away
  | onQueue {queue : QueueState} : queue.Sound marshals →
      (∀ t ∈ pendingTasks s.queue.db, t ∈ pendingTasks queue.db) →
      (processingTasks queue.db).Perm (processingTasks s.queue.db) →
      Goes marshals pendingFileBatchSize bufferSize s { s with queue := queue }
  | failed : Goes marshals pendingFileBatchSize bufferSize s s
  | tick : s.point = .selecting → Goes marshals pendingFileBatchSize bufferSize s
      { s with
        queue := { s.queue with
          returned := s.queue.returned ++
            (pendingTasks s.queue.db).take pendingFileBatchSize.toNat }
        point := .next ((pendingTasks s.queue.db).take pendingFileBatchSize.toNat) }
  | skip {task : FileTask} {rest : List FileTask} : s.point = .claiming (task :: rest) →
      Goes marshals pendingFileBatchSize bufferSize s { s with point := .next rest }
  | claim {task : FileTask} {rest : List FileTask} {db : DB} :
      s.point = .claiming (task :: rest) → Moves task s.queue.db db →
      QueueState.Sound marshals { s.queue with db := db } →
      Goes marshals pendingFileBatchSize bufferSize s
        { s with queue := { s.queue with db := db }, point := .sending task rest }
  | send {task : FileTask} {rest : List FileTask} : s.point = .sending task rest →
      s.requestChan.length < bufferSize → Goes marshals pendingFileBatchSize bufferSize s
        { sendRequest s task rest with
          requestChan := s.requestChan ++ [request task], waiting := s.waiting ++ [task] }
  | handOver {task : FileTask} {rest : List FileTask} : s.point = .sending task rest →
      s.requestChan = [] → Goes marshals pendingFileBatchSize bufferSize s
        { sendRequest s task rest with
          consumed := s.consumed ++ [request task], received := s.received ++ [task] }
  | consume {r : FileDownloaderRequest} {rest : List FileDownloaderRequest} :
      s.requestChan = r :: rest → Goes marshals pendingFileBatchSize bufferSize s
        { s with
          requestChan := rest
          consumed := s.consumed ++ [r]
          received := s.received ++ s.waiting.take 1
          waiting := s.waiting.drop 1 }
  | cancel : Goes marshals pendingFileBatchSize bufferSize s { s with cancelled := true }
  | ctxDone : s.point = .selecting →
      Goes marshals pendingFileBatchSize bufferSize s { s with point := .returned }
  | restart : Goes marshals pendingFileBatchSize bufferSize s
      { s with
        cancelled := false
        point := .selecting
        requestChan := []
        waiting := []
        dropped := s.dropped ++ s.waiting
        lost := s.lost ++ s.point.hand
        ended := s.ended + 1 }

theorem goes_of_enqueueTask (h : s.Sound marshals) {task : FileTask} {committed : Bool}
    (hNew : Proper s.queue (.enqueueTask task committed)) {queue : QueueState}
    (hStep : queueStep marshals s.queue (.enqueueTask task committed) = some queue) :
    Goes marshals pendingFileBatchSize bufferSize s { s with queue := queue } := by
  have hQueue := queueStep_sound h.queue hNew hStep
  obtain ⟨_, hOk⟩ | hFailed := enqueueTask_cases marshals s.queue.db task committed
  · simp only [queueStep, hOk] at hStep
    cases hStep
    refine .onQueue hQueue ?_ ?_
    · intro t ht
      obtain ⟨k, p, hStem, hGet, hTask⟩ := mem_tasksUnder.mp ht
      have hOther : k ≠ pendingKey task := by
        rintro rfl
        rw [h.queue.free_pendingKey hNew.2] at hGet
        cases hGet
      exact mem_tasksUnder.mpr
        ⟨k, p, hStem, (OrderedMap.get?_insert_of_ne _ _ hOther).trans hGet, hTask⟩
    · exact tasksUnder_write_of_outside s.queue.db (not_processing_pendingKey task)
        (some (.task (toPbFileTask task)))
  · simp only [queueStep, hFailed] at hStep
    cases hStep
    exact .failed

theorem goes_of_foreign (h : s.Sound marshals) {key : Key} {value : Option Value}
    {queue : QueueState} (hStep : queueStep marshals s.queue (.foreign key value) = some queue) :
    Goes marshals pendingFileBatchSize bufferSize s { s with queue := queue } := by
  have hQueue :=
    queueStep_sound h.queue (show Proper s.queue (.foreign key value) from trivial) hStep
  simp only [queueStep] at hStep
  split at hStep
  · cases hStep
  · rename_i hKey
    cases hStep
    have hWork : workStem.isPrefixOf key = false := Bool.eq_false_iff.mpr hKey
    refine .onQueue hQueue ?_ ?_
    · intro t ht
      exact (tasksUnder_write_of_outside s.queue.db (outside_of_foreign hWork
        (List.isPrefixOf_iff_prefix.mp rfl)) value).mem_iff.mpr ht
    · exact tasksUnder_write_of_outside s.queue.db (outside_of_foreign hWork
        (List.isPrefixOf_iff_prefix.mp rfl)) value

theorem goes_of_claim (h : s.Sound marshals) {task : FileTask} {rest : List FileTask}
    (hPoint : s.point = .claiming (task :: rest)) (readFault committed : Bool)
    (hStep : step marshals pendingFileBatchSize bufferSize s (.claim readFault committed) =
      some t) : Goes marshals pendingFileBatchSize bufferSize s t := by
  have hPending : task ∈ pendingTasks s.queue.db := by
    refine h.batch task ?_
    rw [hPoint]
    exact List.mem_cons_self
  have hClaimed := claimed_of_pending h.queue hPending readFault committed
  simp only [step, hPoint] at hStep
  revert hStep
  generalize dispatch task (markTask marshals s.queue.db
    { task := task, readFault := readFault } committed).2 = answer at hClaimed ⊢
  generalize (markTask marshals s.queue.db
    { task := task, readFault := readFault } committed).1 = db at hClaimed ⊢
  cases hClaimed with
  | refused =>
    intro hStep
    cases hStep
    exact .skip hPoint
  | granted hMoves hDb =>
    intro hStep
    cases hStep
    exact .claim hPoint hMoves hDb

theorem goes_of_step (h : s.Sound marshals) (hNew : EnqueuesNew s a)
    (hStep : step marshals pendingFileBatchSize bufferSize s a = some t) :
    Goes marshals pendingFileBatchSize bufferSize s t := by
  cases a with
  | enqueueTask task committed =>
    obtain ⟨queue, hQueue, rfl⟩ := Option.map_eq_some_iff.mp hStep
    exact goes_of_enqueueTask h hNew hQueue
  | foreign key value =>
    obtain ⟨queue, hQueue, rfl⟩ := Option.map_eq_some_iff.mp hStep
    exact goes_of_foreign h hQueue
  | tick fault =>
    simp only [step] at hStep
    split at hStep
    · rename_i hPoint
      split at hStep
      · cases hStep
        exact .failed
      · rw [h.queue.getNextBatch] at hStep
        cases hStep
        exact .tick hPoint
    · cases hStep
  | claim readFault committed =>
    cases hPoint : s.point with
    | claiming batch =>
      cases batch with
      | nil => exact absurd hPoint h.nonempty
      | cons task rest => exact goes_of_claim h hPoint readFault committed hStep
    | selecting => simp [step, hPoint] at hStep
    | sending => simp [step, hPoint] at hStep
    | returned => simp [step, hPoint] at hStep
  | send =>
    simp only [step] at hStep
    split at hStep
    · rename_i hPoint
      split at hStep
      · cases hStep
        exact .send hPoint ‹_›
      · cases hStep
    · cases hStep
  | handOver =>
    simp only [step] at hStep
    split at hStep
    · rename_i task rest hPoint hChan
      cases hStep
      exact .handOver hPoint hChan
    · cases hStep
  | consume =>
    simp only [step] at hStep
    split at hStep
    · cases hStep
    · rename_i hChan
      cases hStep
      exact .consume hChan
  | cancel =>
    cases hStep
    exact .cancel
  | ctxDone =>
    simp only [step] at hStep
    split at hStep
    · rename_i hPoint
      split at hStep
      · cases hStep
        exact .ctxDone hPoint
      · cases hStep
    · cases hStep
  | restart =>
    cases hStep
    exact .restart

theorem QueueState.Sound.returning {queue : QueueState} (h : queue.Sound marshals) (n : Nat) :
    QueueState.Sound marshals
      { queue with returned := queue.returned ++ (pendingTasks queue.db).take n } := by
  refine { h with returned := fun t ht => ?_ }
  obtain ht | ht := List.mem_append.mp ht
  · exact h.returned t ht
  · exact h.conserved.mem_iff.mp (List.mem_append_left _ (List.mem_of_mem_take ht))

theorem nodup_pendingTasks {queue : QueueState} (h : queue.Sound marshals) :
    (pendingTasks queue.db).Nodup :=
  (List.nodup_append.mp (h.conserved.nodup_iff.mpr h.ids.of_map)).1

theorem State.Sound.tick (h : s.Sound marshals) (hPoint : s.point = .selecting) (n : Nat) :
    State.Sound marshals
      { s with
        queue := { s.queue with
          returned := s.queue.returned ++ (pendingTasks s.queue.db).take n }
        point := .next ((pendingTasks s.queue.db).take n) } := by
  have hClaimed := h.claimed
  rw [hPoint] at hClaimed
  refine { h with
    queue := QueueState.Sound.returning h.queue n, batch := ?_, distinct := ?_,
    nonempty := next_ne_claiming _, claimed := ?_ }
  · rw [Point.batch_next]
    exact fun t ht => List.mem_of_mem_take ht
  · rw [Point.batch_next]
    exact (nodup_pendingTasks h.queue).sublist (List.take_sublist _ _)
  · rw [Point.hand_next]
    exact hClaimed

theorem State.Sound.skip (h : s.Sound marshals) {task : FileTask} {rest : List FileTask}
    (hPoint : s.point = .claiming (task :: rest)) :
    State.Sound marshals { s with point := .next rest } := by
  obtain ⟨hQueue, hBatch, hDistinct, _, hClaimed, hLost⟩ := h
  rw [hPoint] at hBatch hDistinct hClaimed
  refine ⟨hQueue, ?_, ?_, next_ne_claiming _, ?_, hLost⟩
  · rw [Point.batch_next]
    exact fun t ht => hBatch t (List.mem_cons_of_mem _ ht)
  · rw [Point.batch_next]
    exact (List.nodup_cons.mp hDistinct).2
  · rw [Point.hand_next]
    exact hClaimed

theorem State.Sound.claim (h : s.Sound marshals) {task : FileTask} {rest : List FileTask} {db : DB}
    (hPoint : s.point = .claiming (task :: rest)) (hMoves : Moves task s.queue.db db)
    (hDb : QueueState.Sound marshals { s.queue with db := db }) :
    State.Sound marshals
      { s with queue := { s.queue with db := db }, point := .sending task rest } := by
  obtain ⟨_, hBatch, hDistinct, _, hClaimed, hLost⟩ := h
  rw [hPoint] at hBatch hDistinct hClaimed
  obtain ⟨hFresh, hRest⟩ := List.nodup_cons.mp hDistinct
  refine ⟨hDb, ?_, hRest, nofun, ?_, hLost⟩
  · intro t ht
    have hOld := hMoves.pending.mem_iff.mp (hBatch t (List.mem_cons_of_mem _ ht))
    refine (List.mem_cons.mp hOld).resolve_left ?_
    rintro rfl
    exact hFresh ht
  · have hOld : (processingTasks s.queue.db).Perm (s.sent ++ s.lost) := by
      simpa only [Point.hand, List.append_nil] using hClaimed
    rw [List.append_assoc]
    exact hMoves.processing.trans ((hOld.cons task).trans List.perm_middle.symm)

theorem State.Sound.sent (h : s.Sound marshals) {task : FileTask} {rest : List FileTask}
    (hPoint : s.point = .sending task rest) : State.Sound marshals (sendRequest s task rest) := by
  obtain ⟨hQueue, hBatch, hDistinct, _, hClaimed, hLost⟩ := h
  rw [hPoint] at hBatch hDistinct hClaimed
  refine ⟨hQueue, ?_, ?_, next_ne_claiming _, ?_, hLost⟩
  · rw [sendRequest, Point.batch_next]
    exact hBatch
  · rw [sendRequest, Point.batch_next]
    exact hDistinct
  · rw [sendRequest, Point.hand_next, List.append_nil]
    exact hClaimed

theorem State.Sound.restart (h : s.Sound marshals) :
    State.Sound marshals
      { s with
        cancelled := false
        point := .selecting
        requestChan := []
        waiting := []
        dropped := s.dropped ++ s.waiting
        lost := s.lost ++ s.point.hand
        ended := s.ended + 1 } := by
  refine ⟨h.queue, fun t ht => absurd ht List.not_mem_nil, List.nodup_nil, nofun, ?_, ?_⟩
  · refine h.claimed.trans ?_
    rw [List.append_assoc]
    change (s.sent ++ (s.point.hand ++ s.lost)).Perm (s.sent ++ [] ++ (s.lost ++ s.point.hand))
    rw [List.append_nil]
    exact List.perm_append_comm.append_left s.sent
  · have hHand : s.point.hand.length ≤ 1 := by cases s.point <;> simp [Point.hand]
    have hLost := h.lost
    rw [List.length_append]
    change s.lost.length + s.point.hand.length ≤ s.ended + 1
    omega

theorem State.Sound.goes (h : s.Sound marshals)
    (hGoes : Goes marshals pendingFileBatchSize bufferSize s t) :
    t.Sound marshals := by
  cases hGoes with
  | onQueue hQueue hPending hProcessing =>
    exact { h with
      queue := hQueue
      batch := fun t ht => hPending t (h.batch t ht)
      claimed := hProcessing.trans h.claimed }
  | failed => exact h
  | tick hPoint => exact h.tick hPoint _
  | skip hPoint => exact h.skip hPoint
  | claim hPoint hMoves hDb => exact h.claim hPoint hMoves hDb
  | send hPoint _ => exact { h.sent hPoint with }
  | handOver hPoint _ => exact { h.sent hPoint with }
  | consume _ => exact { h with }
  | cancel => exact { h with }
  | ctxDone hPoint =>
    have hClaimed := h.claimed
    rw [hPoint] at hClaimed
    exact { h with
      batch := fun t ht => absurd ht List.not_mem_nil, distinct := List.nodup_nil,
      nonempty := nofun, claimed := hClaimed }
  | restart => exact h.restart

theorem State.Sound.steps (h : s.Sound marshals) (hNew : EnqueuesNew s a)
    (hStep : step marshals pendingFileBatchSize bufferSize s a = some t) : t.Sound marshals :=
  h.goes (goes_of_step h hNew hStep)

theorem State.Accounted.consume (h : s.Accounted bufferSize) {r : FileDownloaderRequest}
    {rest : List FileDownloaderRequest} (hChan : s.requestChan = r :: rest) :
    State.Accounted bufferSize
      { s with
        requestChan := rest
        consumed := s.consumed ++ [r]
        received := s.received ++ s.waiting.take 1
        waiting := s.waiting.drop 1 } := by
  obtain ⟨hConsumed, hWaiting, hSent, hOrder, hRoom, hDropped⟩ := h
  rw [hWaiting] at hChan
  obtain ⟨task, later, hTasks, rfl, rfl⟩ := List.map_eq_cons_iff.mp hChan
  rw [hTasks] at hSent hOrder hRoom
  have hMoved : s.received ++ s.waiting.take 1 ++ s.waiting.drop 1 =
      s.received ++ task :: later := by
    rw [List.append_assoc, List.take_append_drop, hTasks]
  refine ⟨?_, ?_, ?_, ?_, ?_, hDropped⟩
  · rw [hConsumed, hTasks, List.map_append]
    rfl
  · rw [hTasks]
    rfl
  · rw [hMoved]
    exact hSent
  · rw [hMoved]
    exact hOrder
  · rw [hTasks]
    exact Nat.le_of_succ_le hRoom

theorem State.Accounted.restart (h : s.Accounted bufferSize) :
    State.Accounted bufferSize
      { s with
        cancelled := false
        point := .selecting
        requestChan := []
        waiting := []
        dropped := s.dropped ++ s.waiting
        lost := s.lost ++ s.point.hand
        ended := s.ended + 1 } := by
  refine ⟨h.consumed, rfl, ?_, ?_, Nat.zero_le _, ?_⟩
  · rw [List.append_nil]
    refine h.sent.trans ?_
    rw [List.append_assoc]
    exact List.perm_append_comm.append_left s.received
  · rw [List.append_nil]
    exact (List.sublist_append_left _ _).trans h.order
  · have hRoom := h.room
    have hDropped := h.dropped
    rw [List.length_append, Nat.add_mul, Nat.one_mul]
    omega

theorem State.Accounted.goes (h : s.Accounted bufferSize)
    (hGoes : Goes marshals pendingFileBatchSize bufferSize s t) : t.Accounted bufferSize := by
  cases hGoes with
  | @send task rest _ hFree =>
    have hRoom : s.waiting.length < bufferSize := by
      rwa [h.waiting, List.length_map] at hFree
    refine { h with waiting := ?_, sent := ?_, order := ?_, room := ?_ }
    · change s.requestChan ++ [request task] = (s.waiting ++ [task]).map request
      rw [h.waiting, List.map_append]
      rfl
    · change (s.sent ++ [task]).Perm (s.received ++ (s.waiting ++ [task]) ++ s.dropped)
      refine (h.sent.append_right [task]).trans ?_
      rw [← List.append_assoc s.received, List.append_assoc _ s.dropped, List.append_assoc _ [task]]
      exact List.perm_append_comm.append_left _
    · change (s.received ++ (s.waiting ++ [task])).Sublist (s.sent ++ [task])
      rw [← List.append_assoc]
      exact h.order.append (List.Sublist.refl _)
    · change (s.waiting ++ [task]).length ≤ bufferSize
      rw [List.length_append, List.length_singleton]
      exact hRoom
  | @handOver task rest _ hChan =>
    have hNone : s.waiting = [] := List.map_eq_nil_iff.mp (h.waiting.symm.trans hChan)
    have hSent := h.sent
    have hOrder := h.order
    rw [hNone, List.append_nil] at hSent hOrder
    refine { h with consumed := ?_, sent := ?_, order := ?_ }
    · change s.consumed ++ [request task] = (s.received ++ [task]).map request
      rw [h.consumed, List.map_append]
      rfl
    · change (s.sent ++ [task]).Perm (s.received ++ [task] ++ s.waiting ++ s.dropped)
      rw [hNone, List.append_nil]
      refine (hSent.append_right [task]).trans ?_
      rw [List.append_assoc, List.append_assoc]
      exact List.perm_append_comm.append_left _
    · change (s.received ++ [task] ++ s.waiting).Sublist (s.sent ++ [task])
      rw [hNone, List.append_nil]
      exact hOrder.append (List.Sublist.refl _)
  | consume hChan => exact h.consume hChan
  | restart => exact h.restart
  | _ => exact { h with }

theorem start_sound :
    State.Sound marshals (machine marshals pendingFileBatchSize bufferSize).start :=
  ⟨queue_sound_of_reaches .start, fun _ ht => absurd ht List.not_mem_nil, List.nodup_nil,
    nofun, .rfl, Nat.zero_le _⟩

theorem start_accounted :
    State.Accounted bufferSize (machine marshals pendingFileBatchSize bufferSize).start :=
  ⟨rfl, rfl, .rfl, .slnil, Nat.zero_le _, Nat.zero_le _⟩

theorem accounted_of_reaches
    (h : (machine marshals pendingFileBatchSize bufferSize).Reaches EnqueuesNew s) :
    s.Sound marshals ∧ s.Accounted bufferSize := by
  refine Machine.Reaches.invariant
    (I := fun s => State.Sound marshals s ∧ State.Accounted bufferSize s)
    ⟨start_sound, start_accounted⟩ ?_ h
  rintro s a t ⟨hSound, hAccounted⟩ hNew hStep
  have hGoes := goes_of_step hSound hNew hStep
  exact ⟨hSound.goes hGoes, hAccounted.goes hGoes⟩

theorem sound_of_reaches
    (h : (machine marshals pendingFileBatchSize bufferSize).Reaches EnqueuesNew s) :
    s.Sound marshals := (accounted_of_reaches h).1

theorem State.Sound.conserved (h : s.Sound marshals) :
    (pendingTasks s.queue.db ++ (s.sent ++ s.point.hand ++ s.lost)).Perm s.queue.enqueued :=
  (h.claimed.symm.append_left _).trans h.queue.conserved

/-- In every run, ends of the process included: each enqueued task is pending,
its request was received, waits in the channel or is in the hand of the poller,
or it waited or was in the hand when a process ended; and it is only one of
these. So no file is requested twice, and an end of the process costs at most
the task in the hand and those that fill the channel. The downloader receives
requests in the order in which the tasks were claimed. -/
theorem dispatch_at_most_once
    (h : (machine marshals pendingFileBatchSize bufferSize).Reaches EnqueuesNew s) :
    (pendingTasks s.queue.db ++ (s.received ++ s.waiting ++ s.point.hand ++
        (s.dropped ++ s.lost))).Perm s.queue.enqueued ∧
      (processingTasks s.queue.db).Perm
        (s.received ++ s.waiting ++ s.point.hand ++ (s.dropped ++ s.lost)) ∧
      (s.dropped ++ s.lost).length ≤ s.ended * (bufferSize + 1) ∧
      ((s.sent.map request).map FileDownloaderRequest.fileId).Nodup ∧
      s.consumed = s.received.map request ∧ s.requestChan = s.waiting.map request ∧
      (s.received ++ s.waiting).Sublist s.sent := by
  obtain ⟨hSound, hAccounted⟩ := accounted_of_reaches h
  have hPlaces : (s.sent ++ s.point.hand ++ s.lost).Perm
      (s.received ++ s.waiting ++ s.point.hand ++ (s.dropped ++ s.lost)) := by
    refine List.perm_iff_count.mpr fun x => ?_
    have hCount := hAccounted.sent.count_eq x
    simp only [List.count_append] at hCount ⊢
    omega
  refine ⟨(hPlaces.symm.append_left _).trans hSound.conserved, hSound.claimed.trans hPlaces, ?_, ?_,
    hAccounted.consumed, hAccounted.waiting, hAccounted.order⟩
  · have hDropped := hAccounted.dropped
    have hLost := hSound.lost
    rw [List.length_append, Nat.mul_succ]
    omega
  · have hIds := (hSound.conserved.map FileTask.id).nodup_iff.mpr hSound.queue.ids
    rw [List.map_map]
    refine hIds.sublist (List.Sublist.map _ ?_)
    exact ((List.sublist_append_left _ _).trans (List.sublist_append_left _ _)).trans
      (List.sublist_append_right _ _)

/-- Two tasks are queued. The process ends between the claim of the first one and
its request. -/
def endedRun : List Action :=
  [.enqueueTask (queuedTask "b" normal) true, .enqueueTask (queuedTask "a" normal) true,
    .tick false, .claim false true, .restart]

def endedState (bufferSize : Nat) : State :=
  ((machine (fun _ => true) 5 bufferSize).restrict EnqueuesNew).after endedRun

/-- The process ends with the request of one task in the channel and that of the
other one in the hand of the poller. -/
def fullRun : List Action :=
  [.enqueueTask (queuedTask "b" normal) true, .enqueueTask (queuedTask "a" normal) true,
    .tick false, .claim false true, .send, .claim false true, .restart]

def fullState : State := ((machine (fun _ => true) 5 1).restrict EnqueuesNew).after fullRun

theorem dispatch_at_most_once_ended :
    pendingTasks fullState.queue.db = [] ∧ fullState.ended = 1 ∧
      fullState.dropped ++ fullState.lost = [queuedTask "a" normal, queuedTask "b" normal] ∧
      (processingTasks fullState.queue.db).Perm
        [queuedTask "a" normal, queuedTask "b" normal] := by
  have hRun : fullState.received ++ fullState.waiting ++ fullState.point.hand = [] ∧
      pendingTasks fullState.queue.db = [] ∧ fullState.ended = 1 ∧
      fullState.dropped ++ fullState.lost = [queuedTask "a" normal, queuedTask "b" normal] := by
    decide +kernel
  obtain ⟨hNone, hPending, hEnded, hGone⟩ := hRun
  obtain ⟨_, hClaimed, _⟩ := dispatch_at_most_once
    (Machine.reaches_after_restrict (machine (fun _ => true) 5 1) EnqueuesNew fullRun)
  change (processingTasks fullState.queue.db).Perm (fullState.received ++ fullState.waiting ++
    fullState.point.hand ++ (fullState.dropped ++ fullState.lost)) at hClaimed
  rw [hNone, hGone] at hClaimed
  exact ⟨hPending, hEnded, hGone, hClaimed⟩

/-! ## All pending tasks are requested -/

/-- A run in which nothing is enqueued and no process ends. -/
structure Onward (marshals : FileTaskPb → Bool) (s t : State) : Prop where
  sound : t.Sound marshals
  running : t.point ≠ .returned
  enqueued : t.queue.enqueued = s.queue.enqueued
  lost : t.lost = s.lost
  requested : ∃ new, t.sent = s.sent ++ new ∧
    t.consumed ++ t.requestChan = s.consumed ++ s.requestChan ++ new.map request

def State.work (s : State) : Nat :=
  4 * (pendingTasks s.queue.db).length + 2 * s.point.hand.length + s.requestChan.length +
    (if s.point = .selecting then 1 else 0)

/-- Nothing is left for the poller and the downloader. -/
def State.AtRest (s : State) : Prop :=
  pendingTasks s.queue.db = [] ∧ s.point = .selecting ∧ s.requestChan = []

theorem Onward.consume {s t : State} (h : Onward marshals s t) {r : FileDownloaderRequest}
    {rest : List FileDownloaderRequest} (hChan : t.requestChan = r :: rest) :
    ∃ a u, step marshals pendingFileBatchSize bufferSize t a = some u ∧ Onward marshals s u ∧
      u.work < t.work := by
  have hStep : step marshals pendingFileBatchSize bufferSize t .consume =
      some { t with
        requestChan := rest
        consumed := t.consumed ++ [r]
        received := t.received ++ t.waiting.take 1
        waiting := t.waiting.drop 1 } := by
    simp only [step, hChan]
  obtain ⟨new, hSent, hOut⟩ := h.requested
  refine ⟨_, _, hStep, ⟨h.sound.steps (a := .consume) trivial hStep, h.running, h.enqueued,
    h.lost, new, hSent, ?_⟩, ?_⟩
  · rw [← hOut, hChan, List.append_assoc]
    rfl
  · simp only [State.work, hChan, List.length_cons]
    omega

theorem Onward.tick (hBatch : 1 ≤ pendingFileBatchSize) {s t : State} (h : Onward marshals s t)
    (hPoint : t.point = .selecting) (hPending : pendingTasks t.queue.db ≠ []) :
    ∃ a u, step marshals pendingFileBatchSize bufferSize t a = some u ∧ Onward marshals s u ∧
      u.work < t.work := by
  obtain ⟨task, rest, hTasks⟩ := List.exists_cons_of_ne_nil hPending
  obtain ⟨n, hn⟩ : ∃ n, pendingFileBatchSize.toNat = n + 1 :=
    ⟨pendingFileBatchSize.toNat - 1, by omega⟩
  have hStep : step marshals pendingFileBatchSize bufferSize t (.tick false) = some
      { t with
        queue := { t.queue with returned := t.queue.returned ++ task :: rest.take n }
        point := .claiming (task :: rest.take n) } := by
    simp only [step, hPoint, h.sound.queue.getNextBatch, hn, hTasks, List.take_succ_cons]
    rfl
  refine ⟨_, _, hStep, ⟨h.sound.steps (a := .tick false) trivial hStep, by simp, h.enqueued,
    h.lost, h.requested⟩, ?_⟩
  simp [State.work, hPoint, Point.hand]

theorem Onward.claim {s t : State} (h : Onward marshals s t) {task : FileTask}
    {rest : List FileTask} (hPoint : t.point = .claiming (task :: rest)) :
    ∃ a u, step marshals pendingFileBatchSize bufferSize t a = some u ∧ Onward marshals s u ∧
      u.work < t.work := by
  have hPending : task ∈ pendingTasks t.queue.db := by
    refine h.sound.batch task ?_
    rw [hPoint]
    exact List.mem_cons_self
  have hEnqueued : task ∈ t.queue.enqueued :=
    h.sound.queue.conserved.mem_iff.mp (List.mem_append_left _ hPending)
  have hOk := (h.sound.queue.claimTask_ok_iff hEnqueued).mpr hPending
  have hMark : markTask marshals t.queue.db { task := task, readFault := false } true =
      claimTask marshals t.queue.db task true :=
    markTask_of_pending ((h.sound.queue.get?_pendingKey hEnqueued).mpr hPending) false true
  have hStep : step marshals pendingFileBatchSize bufferSize t (.claim false true) = some
      { t with
        queue := { t.queue with db := (claimTask marshals t.queue.db task true).1 }
        point := .sending task rest } := by
    simp only [step, hPoint, hMark, hOk, dispatch]
  have hMoves := h.sound.queue.moves hEnqueued hPending
  rw [← (claimTask_ok hOk).2] at hMoves
  refine ⟨_, _, hStep, ⟨h.sound.steps (a := .claim false true) trivial hStep, by simp,
    h.enqueued, h.lost, h.requested⟩, ?_⟩
  have hLength := hMoves.pending.length_eq
  rw [List.length_cons] at hLength
  simp only [State.work, hPoint, Point.hand, List.length_nil, List.length_singleton,
    reduceCtorEq, if_false]
  omega

theorem Onward.handOver {s t : State} (h : Onward marshals s t) {task : FileTask}
    {rest : List FileTask} (hPoint : t.point = .sending task rest) (hChan : t.requestChan = []) :
    ∃ a u, step marshals pendingFileBatchSize bufferSize t a = some u ∧ Onward marshals s u ∧
      u.work < t.work := by
  obtain ⟨new, hSent, hOut⟩ := h.requested
  have hStep : step marshals pendingFileBatchSize bufferSize t .handOver = some
      { sendRequest t task rest with
        consumed := t.consumed ++ [request task], received := t.received ++ [task] } := by
    simp only [step, hPoint, hChan]
  refine ⟨_, _, hStep, ⟨h.sound.steps (a := .handOver) trivial hStep, ?_, h.enqueued,
    h.lost, new ++ [task], ?_, ?_⟩, ?_⟩
  · cases rest <;> simp [sendRequest, Point.next]
  · rw [sendRequest, hSent, List.append_assoc]
  · rw [hChan, List.append_nil] at hOut
    change t.consumed ++ [request task] ++ t.requestChan = _
    rw [hChan, List.append_nil, hOut, List.map_append, ← List.append_assoc]
    rfl
  · have hNext : (if Point.next rest = .selecting then 1 else 0) ≤ 1 := by split <;> omega
    simp only [State.work, hPoint, sendRequest, Point.hand_next, hChan]
    simp only [Point.hand, List.length_nil, List.length_singleton, reduceCtorEq, if_false]
    omega

theorem Onward.closer (hBatch : 1 ≤ pendingFileBatchSize) {s t : State} (h : Onward marshals s t)
    (hMore : ¬ t.AtRest) :
    ∃ a u, step marshals pendingFileBatchSize bufferSize t a = some u ∧ Onward marshals s u ∧
      u.work < t.work := by
  cases hChan : t.requestChan with
  | cons r rest => exact h.consume hChan
  | nil =>
    cases hPoint : t.point with
    | returned => exact absurd hPoint h.running
    | selecting => exact h.tick hBatch hPoint fun hNone => hMore ⟨hNone, hPoint, hChan⟩
    | claiming batch =>
      cases batch with
      | nil => exact absurd hPoint h.sound.nonempty
      | cons task rest => exact h.claim hPoint
    | sending task rest => exact h.handOver hPoint hChan

/-- The poller is between its ticks and has requested nothing. -/
def State.Idle (s : State) : Prop :=
  (s.point = .selecting ∨ s.point = .returned) ∧ s.sent = []

theorem idle_of_goes (hBatch : pendingFileBatchSize < 1) (h : s.Idle)
    (hGoes : Goes marshals pendingFileBatchSize bufferSize s t) : t.Idle := by
  have hSize : pendingFileBatchSize.toNat = 0 := by omega
  obtain ⟨hPoint, hSent⟩ := h
  cases hGoes with
  | onQueue _ _ _ => exact ⟨hPoint, hSent⟩
  | failed => exact ⟨hPoint, hSent⟩
  | tick _ => exact ⟨.inl (by rw [hSize, List.take_zero]; rfl), hSent⟩
  | skip hAt => simp [hAt] at hPoint
  | claim hAt _ _ => simp [hAt] at hPoint
  | send hAt _ => simp [hAt] at hPoint
  | handOver hAt _ => simp [hAt] at hPoint
  | consume _ => exact ⟨hPoint, hSent⟩
  | cancel => exact ⟨hPoint, hSent⟩
  | ctxDone _ => exact ⟨.inr rfl, hSent⟩
  | restart => exact ⟨.inl rfl, hSent⟩

/-- A batch size below one reads no tasks. -/
theorem idle_of_reaches (hBatch : pendingFileBatchSize < 1)
    (h : (machine marshals pendingFileBatchSize bufferSize).Reaches EnqueuesNew s) : s.Idle := by
  have hBoth := Machine.Reaches.invariant (I := fun s => State.Sound marshals s ∧ s.Idle)
    ⟨start_sound, .inl rfl, rfl⟩ (fun s a t hs hNew hStep => by
      have hGoes := goes_of_step hs.1 hNew hStep
      exact ⟨hs.1.goes hGoes, idle_of_goes hBatch hs.2 hGoes⟩) h
  exact hBoth.2

/-- With a batch size below one the poller never requests anything. Otherwise,
whatever has happened, as long as the poller runs it can request all that is
pending: what it holds and the pending tasks, each once. -/
theorem dispatch_completes
    (h : (machine marshals pendingFileBatchSize bufferSize).Reaches EnqueuesNew s) :
    (pendingFileBatchSize < 1 → s.sent = []) ∧
      (1 ≤ pendingFileBatchSize → s.point ≠ .returned →
        ∃ (t : State) (new : List FileTask),
          (machine marshals pendingFileBatchSize bufferSize).Leads s t ∧
          pendingTasks t.queue.db = [] ∧ new.Perm (s.point.hand ++ pendingTasks s.queue.db) ∧
          t.consumed = s.consumed ++ s.requestChan ++ new.map request) := by
  have hSound := sound_of_reaches h
  constructor
  · exact fun hBatch => (idle_of_reaches hBatch h).2
  · intro hBatch hRunning
    have hHere : Onward marshals s s :=
      ⟨hSound, hRunning, rfl, rfl, [], (List.append_nil _).symm, (List.append_nil _).symm⟩
    have hCloser : ∀ t, Onward marshals s t → ¬ t.AtRest →
        ∃ a u, (machine marshals pendingFileBatchSize bufferSize).step t a = some u ∧
          Onward marshals s u ∧ u.work < t.work := fun t ht hMore => ht.closer hBatch hMore
    obtain ⟨t, hLeads, hOnward, hNone, hPoint, hChan⟩ :=
      Machine.leads_of_work State.work hCloser hHere
    obtain ⟨new, hSent, hOut⟩ := hOnward.requested
    rw [hChan, List.append_nil] at hOut
    refine ⟨t, new, hLeads, hNone, ?_, hOut⟩
    -- both states account for the same enqueued tasks
    have hThere := hOnward.sound.conserved
    rw [hNone, hPoint, hSent, hOnward.lost, hOnward.enqueued] at hThere
    refine List.perm_iff_count.mpr fun x => ?_
    have hCount := (hThere.trans hSound.conserved.symm).count_eq x
    simp only [Point.hand, List.count_append, List.count_nil] at hCount ⊢
    omega

theorem dispatch_completes_ended :
    ∃ t : State, (machine (fun _ => true) 5 0).Leads (endedState 0) t ∧
      t.consumed = [request (queuedTask "b" normal)] := by
  have hRun : (endedState 0).point = .selecting ∧ (endedState 0).consumed = [] ∧
      (endedState 0).requestChan = [] ∧
      pendingTasks (endedState 0).queue.db = [queuedTask "b" normal] := by decide +kernel
  obtain ⟨hPoint, hConsumed, hChan, hPending⟩ := hRun
  obtain ⟨_, hCompletes⟩ := dispatch_completes
    (Machine.reaches_after_restrict (machine (fun _ => true) 5 0) EnqueuesNew endedRun)
  obtain ⟨t, new, hLeads, _, hNew, hOut⟩ :=
    hCompletes (by decide) (by change (endedState 0).point ≠ _; rw [hPoint]; nofun)
  change new.Perm ((endedState 0).point.hand ++ pendingTasks (endedState 0).queue.db) at hNew
  change t.consumed = (endedState 0).consumed ++ (endedState 0).requestChan ++ _ at hOut
  rw [hPoint, hPending] at hNew
  rw [hConsumed, hChan, List.perm_singleton.mp hNew] at hOut
  exact ⟨t, hLeads, hOut⟩

end Steps

end ChatLab.Workers.Poller
