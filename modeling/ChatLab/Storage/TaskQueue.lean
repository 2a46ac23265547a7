import ChatLab.Foundation.Machine
import ChatLab.Foundation.Pagination
import ChatLab.Storage.FileTaskRepository

/-!
# The queue of file tasks

A task is written once and read back in batches; a claim finds its pending key
again from the fields that came back. The tasks under the two stems are, at
all times and with all their fields, the tasks that were enqueued. The calls
are made one after the other here; overlapping claims are treated with the
transactions.
-/

namespace ChatLab.Storage

open Foundation Foundation.Transactions Foundation.Pagination

def processingStem : Key := "work:processing:".toList

def workStem : Key := "work:".toList

/-- The tasks under a stem, in the order of their keys. -/
def taskUnder (stem : Key) : Key × Value → Option FileTask
  | (k, .task p) => if stem.isPrefixOf k then some (fromPbFileTask p) else none
  | _ => none

def tasksUnder (stem : Key) (db : DB) : List FileTask := db.entries.filterMap (taskUnder stem)

def pendingTasks (db : DB) : List FileTask := tasksUnder pendingStem db

def processingTasks (db : DB) : List FileTask := tasksUnder processingStem db

/-- The tasks that the queue is used with. -/
structure FileTask.Regular (t : FileTask) : Prop where
  priority : t.priority = high ∨ t.priority = normal
  effectiveMimeType : ∃ m, t.effectiveMimeType = MIME.toMIME m
  retryCount : -2 ^ 31 ≤ t.retryCount ∧ t.retryCount < 2 ^ 31

section Calls

variable (marshals : FileTaskPb → Bool)

/-- A call of `MarkAsProcessing` that no other one overlaps. -/
def markTask (db : DB) (c : TaskClaim) (committed : Bool) :
    DB × Except (TxnError TaskError) Unit :=
  match markAsProcessing marshals c db with
  | .error e => (db, .error (.body e))
  | .ok body =>
    if committed then (applyWrites db body.writes, .ok ()) else (db, .error .commitFailed)

/-- The call when the reads of the store succeed. -/
def claimTask (db : DB) (t : FileTask) (committed : Bool) :
    DB × Except (TxnError TaskError) Unit :=
  markTask marshals db { task := t, readFault := false } committed

end Calls

/-- `enqueued` are the tasks whose `EnqueueTask` returned nil, `returned` those
that some `GetNextBatch` returned. -/
structure QueueState where
  db : DB
  enqueued : List FileTask
  returned : List FileTask
deriving DecidableEq

inductive QueueAction
  | enqueueTask (t : FileTask) (committed : Bool)
  | getNextBatch (limit : Int)
  | markAsProcessing (t : FileTask) (committed : Bool)
  | foreign (key : Key) (value : Option Value)

section Runs

variable (marshals : FileTaskPb → Bool)

def queueStep (s : QueueState) : QueueAction → Option QueueState
  | .enqueueTask t committed =>
    match enqueueTask marshals s.db t committed with
    | (db, true) => some { s with db := db, enqueued := s.enqueued ++ [t] }
    | (db, false) => some { s with db := db }
  | .getNextBatch limit =>
    match getNextBatch s.db limit with
    | .error _ => some s
    | .ok tasks => some { s with returned := s.returned ++ tasks }
  | .markAsProcessing t committed =>
    some { s with db := (claimTask marshals s.db t committed).1 }
  | .foreign key value =>
    if workStem.isPrefixOf key then none
    else some { s with db := applyWrites s.db [(key, value)] }

def queueMachine : Machine QueueState QueueAction where
  start := { db := .empty, enqueued := [], returned := [] }
  step := queueStep marshals

end Runs

theorem FileTask.regular_iff (t : FileTask) : t.Regular ↔
    (t.priority = high ∨ t.priority = normal) ∧
      t.effectiveMimeType = MIME.toMIME t.effectiveMimeType.text ∧
      -2 ^ 31 ≤ t.retryCount ∧ t.retryCount < 2 ^ 31 := by
  constructor
  · rintro ⟨hPriority, ⟨m, hMime⟩, hRetry⟩
    refine ⟨hPriority, ?_, hRetry⟩
    rw [hMime, MIME.toMIME_text_toMIME]
  · rintro ⟨hPriority, hMime, hRetry⟩
    exact ⟨hPriority, ⟨_, hMime⟩, hRetry⟩

instance (t : FileTask) : Decidable t.Regular := decidable_of_iff' _ t.regular_iff

/-- How the queue is used: identifiers are enqueued once, limits are not
negative, and only tasks that a batch returned are claimed. -/
def Proper (s : QueueState) : QueueAction → Prop
  | .enqueueTask t _ => t.Regular ∧ t.id ∉ s.enqueued.map FileTask.id
  | .getNextBatch limit => 0 ≤ limit
  | .markAsProcessing t _ => t ∈ s.returned
  | .foreign _ _ => True

instance (s : QueueState) (action : QueueAction) : Decidable (Proper s action) := by
  cases action with
  | enqueueTask t committed =>
    exact inferInstanceAs (Decidable (t.Regular ∧ t.id ∉ s.enqueued.map FileTask.id))
  | getNextBatch limit => exact inferInstanceAs (Decidable (0 ≤ limit))
  | markAsProcessing t committed => exact inferInstanceAs (Decidable (t ∈ s.returned))
  | foreign key value => exact inferInstanceAs (Decidable True)

/-! ## The record format -/

theorem toPriority_toPbPriority {p : Priority} (h : p = high ∨ p = normal) :
    (toPbPriority p).toPriority = p := by
  obtain rfl | rfl := h
  · rfl
  · rfl

theorem fromPbFileTask_toPbFileTask {t : FileTask} (h : t.Regular) :
    fromPbFileTask (toPbFileTask t) = t := by
  have hMime := (t.regular_iff.mp h).2.1.symm
  have hRetry : (Int32.ofInt t.retryCount).toInt = t.retryCount :=
    Int32.toInt_ofInt_of_le h.retryCount.1 h.retryCount.2
  simp only [fromPbFileTask, toPbFileTask, hMime, hRetry,
    toPriority_toPbPriority h.priority]

theorem fields_of_pendingKey {t u : FileTask} (h : pendingKey t = pendingKey u) :
    unixNano t.createdAt = unixNano u.createdAt ∧ t.id = u.id := by
  have hFields := List.append_cancel_left h
  obtain ⟨_, hRest⟩ := field_injective (colon_notMem_decimal _) (colon_notMem_decimal _) hFields
  obtain ⟨hTime, hId⟩ := field_injective (colon_notMem_decimal _) (colon_notMem_decimal _) hRest
  exact ⟨Decimal.decimal_injective hTime, String.toList_inj.mp hId⟩

theorem id_of_pendingKey {t u : FileTask} (h : pendingKey t = pendingKey u) : t.id = u.id :=
  (fields_of_pendingKey h).2

theorem id_of_processingKey {t u : FileTask} (h : processingKey t = processingKey u) :
    t.id = u.id :=
  String.toList_inj.mp (List.append_cancel_left h)

/-! ## The tasks under a stem -/

section Under

variable (stem : Key) {db : DB} {k : Key}

theorem tasksUnder_of_perm {m : DB} {v : Value}
    (h : m.entries.Perm ((k, v) :: (db.erase k).entries)) :
    (tasksUnder stem m).Perm ((taskUnder stem (k, v)).toList ++ tasksUnder stem (db.erase k)) := by
  refine (h.filterMap (taskUnder stem)).trans ?_
  cases hTask : taskUnder stem (k, v) with
  | none =>
    rw [List.filterMap_cons_none hTask]
    exact .rfl
  | some t =>
    rw [List.filterMap_cons_some hTask]
    exact .rfl

theorem tasksUnder_erase {v : Value} (h : db.get? k = some v) :
    (tasksUnder stem db).Perm ((taskUnder stem (k, v)).toList ++ tasksUnder stem (db.erase k)) :=
  tasksUnder_of_perm stem (db.entries_perm_of_get? h)

theorem tasksUnder_insert (v : Value) (h : db.get? k = none) :
    (tasksUnder stem (db.insert k v)).Perm
      ((taskUnder stem (k, v)).toList ++ tasksUnder stem db) := by
  have hPerm := tasksUnder_of_perm stem (db.insert_entries_perm k v)
  rwa [db.erase_eq_self h] at hPerm

variable {stem}

theorem taskUnder_of_outside (h : stem.isPrefixOf k = false) (v : Value) :
    taskUnder stem (k, v) = none := by
  cases v with
  | task p => simp [taskUnder, h]
  | message m => rfl
  | analysis a => rfl
  | pointer p => rfl

theorem tasksUnder_erase_of_outside (h : stem.isPrefixOf k = false) :
    (tasksUnder stem (db.erase k)).Perm (tasksUnder stem db) := by
  cases hGet : db.get? k with
  | none => rw [db.erase_eq_self hGet]
  | some v =>
    have hPerm := tasksUnder_erase stem hGet
    rw [taskUnder_of_outside h] at hPerm
    exact hPerm.symm

theorem tasksUnder_write_of_outside (db : DB) (h : stem.isPrefixOf k = false)
    (value : Option Value) :
    (tasksUnder stem (applyWrites db [(k, value)])).Perm (tasksUnder stem db) := by
  cases value with
  | none => exact tasksUnder_erase_of_outside h
  | some v =>
    have hPerm := tasksUnder_of_perm stem (db.insert_entries_perm k v)
    rw [taskUnder_of_outside h] at hPerm
    exact hPerm.trans (tasksUnder_erase_of_outside h)

theorem taskUnder_of_below {p : FileTaskPb} (h : stem.isPrefixOf k = true) :
    taskUnder stem (k, .task p) = some (fromPbFileTask p) := by
  rw [taskUnder, if_pos h]

theorem taskUnder_eq_some {v : Value} {t : FileTask} (h : taskUnder stem (k, v) = some t) :
    stem.isPrefixOf k = true ∧ ∃ p, v = .task p ∧ fromPbFileTask p = t := by
  cases v with
  | task p =>
    rw [taskUnder] at h
    split at h
    · rename_i hStem
      exact ⟨hStem, p, rfl, Option.some.inj h⟩
    · cases h
  | message m => cases h
  | analysis a => cases h
  | pointer p => cases h

theorem mem_tasksUnder {t : FileTask} : t ∈ tasksUnder stem db ↔
    ∃ k p, stem.isPrefixOf k = true ∧ db.get? k = some (.task p) ∧ fromPbFileTask p = t := by
  rw [tasksUnder, List.mem_filterMap]
  constructor
  · rintro ⟨⟨k, v⟩, hEntry, hTask⟩
    obtain ⟨hStem, p, rfl, hp⟩ := taskUnder_eq_some hTask
    exact ⟨k, p, hStem, db.get?_eq_some_iff.mpr hEntry, hp⟩
  · rintro ⟨k, p, hStem, hGet, rfl⟩
    exact ⟨(k, .task p), db.get?_eq_some_iff.mp hGet, taskUnder_of_below hStem⟩

end Under

theorem isPrefixOf_pendingKey (t : FileTask) : pendingStem.isPrefixOf (pendingKey t) = true :=
  List.isPrefixOf_iff_prefix.mpr (List.prefix_append _ _)

theorem isPrefixOf_processingKey (t : FileTask) :
    processingStem.isPrefixOf (processingKey t) = true :=
  List.isPrefixOf_iff_prefix.mpr (List.prefix_append _ _)

theorem not_pending_processingKey (t : FileTask) :
    pendingStem.isPrefixOf (processingKey t) = false := rfl

theorem not_processing_pendingKey (t : FileTask) :
    processingStem.isPrefixOf (pendingKey t) = false := rfl

/-! ## Conservation -/

structure QueueState.Sound (marshals : FileTaskPb → Bool) (s : QueueState) : Prop where
  regular : ∀ t ∈ s.enqueued, t.Regular ∧ marshals (toPbFileTask t) = true
  ids : (s.enqueued.map FileTask.id).Nodup
  pending : ∀ k v, pendingStem.isPrefixOf k = true → s.db.get? k = some v →
    ∃ t ∈ s.enqueued, k = pendingKey t ∧ v = .task (toPbFileTask t)
  processing : ∀ k v, processingStem.isPrefixOf k = true → s.db.get? k = some v →
    ∃ t ∈ s.enqueued, k = processingKey t ∧ v = .task (toPbFileTask t)
  conserved : (pendingTasks s.db ++ processingTasks s.db).Perm s.enqueued
  returned : ∀ t ∈ s.returned, t ∈ s.enqueued

section Sound

variable {marshals : FileTaskPb → Bool} {s : QueueState}

theorem QueueState.Sound.eq_of_id (h : s.Sound marshals) {t u : FileTask} (ht : t ∈ s.enqueued)
    (hu : u ∈ s.enqueued) (hId : t.id = u.id) : t = u :=
  List.inj_on_of_nodup_map h.ids ht hu hId

theorem QueueState.Sound.mem_pendingTasks_iff (h : s.Sound marshals) {t : FileTask}
    (ht : t ∈ s.enqueued) :
    t ∈ pendingTasks s.db ↔ s.db.get? (pendingKey t) = some (.task (toPbFileTask t)) := by
  rw [pendingTasks, mem_tasksUnder]
  constructor
  · rintro ⟨k, p, hStem, hGet, rfl⟩
    obtain ⟨u, hu, rfl, hp⟩ := h.pending k _ hStem hGet
    obtain rfl := Value.task.inj hp
    rw [fromPbFileTask_toPbFileTask (h.regular u hu).1]
    exact hGet
  · intro hGet
    exact ⟨_, _, isPrefixOf_pendingKey t, hGet, fromPbFileTask_toPbFileTask (h.regular t ht).1⟩

theorem QueueState.Sound.get?_pendingKey (h : s.Sound marshals) {t : FileTask}
    (ht : t ∈ s.enqueued) :
    (s.db.get? (pendingKey t)).isSome = true ↔ t ∈ pendingTasks s.db := by
  rw [h.mem_pendingTasks_iff ht]
  constructor
  · intro hSome
    obtain ⟨v, hv⟩ := Option.isSome_iff_exists.mp hSome
    obtain ⟨u, hu, hKey, rfl⟩ := h.pending _ v (isPrefixOf_pendingKey t) hv
    obtain rfl := h.eq_of_id ht hu (id_of_pendingKey hKey)
    exact hv
  · intro hGet
    rw [hGet]
    rfl

theorem QueueState.Sound.get?_processingKey (h : s.Sound marshals) {t : FileTask}
    (ht : t ∈ s.enqueued) (hPending : t ∈ pendingTasks s.db) :
    s.db.get? (processingKey t) = none := by
  cases hGet : s.db.get? (processingKey t) with
  | none => rfl
  | some v =>
    obtain ⟨u, hu, hKey, rfl⟩ := h.processing _ v (isPrefixOf_processingKey t) hGet
    obtain rfl := h.eq_of_id ht hu (id_of_processingKey hKey)
    have hProcessing : t ∈ processingTasks s.db := mem_tasksUnder.mpr
      ⟨_, _, isPrefixOf_processingKey t, hGet, fromPbFileTask_toPbFileTask (h.regular t ht).1⟩
    have hNodup := h.conserved.nodup_iff.mpr h.ids.of_map
    exact absurd rfl ((List.nodup_append.mp hNodup).2.2 t hPending t hProcessing)

/-! ### Batches -/

theorem collectTasks_eq (limit : Int) {it : List (Key × Value)} (acc : List FileTask)
    (h : ∀ e ∈ it, pendingStem.isPrefixOf e.1 = true → ∃ p, e.2 = .task p) :
    collectTasks limit it acc =
      .ok (acc ++ (((it.takeWhile fun e => pendingStem.isPrefixOf e.1).filterMap
        (taskUnder pendingStem)).take (limit.toNat - acc.length))) := by
  induction it generalizing acc with
  | nil => simp [collectTasks]
  | cons e it ih =>
    obtain ⟨k, v⟩ := e
    cases hStem : pendingStem.isPrefixOf k with
    | false => simp [collectTasks, hStem]
    | true =>
      obtain ⟨p, rfl⟩ := h (k, v) List.mem_cons_self hStem
      rw [List.takeWhile_cons_of_pos (by simpa using hStem),
        List.filterMap_cons_some (taskUnder_of_below hStem)]
      by_cases hRoom : (acc.length : Int) < limit
      · have hNext : limit.toNat - acc.length =
            limit.toNat - (acc ++ [fromPbFileTask p]).length + 1 := by
          rw [List.length_append, List.length_singleton]
          omega
        rw [hNext, List.take_succ_cons]
        simp only [collectTasks, hStem, hRoom, decide_true, Bool.and_true, if_true]
        rw [ih _ fun e he => h e (List.mem_cons_of_mem _ he), List.append_assoc]
        rfl
      · have hFull : limit.toNat - acc.length = 0 := by omega
        simp [collectTasks, hStem, hRoom, hFull]

theorem filterMap_filter_taskUnder (stem : Key) (entries : List (Key × Value)) :
    (entries.filter fun e => stem.isPrefixOf e.1).filterMap (taskUnder stem) =
      entries.filterMap (taskUnder stem) := by
  rw [List.filterMap_filter]
  refine List.filterMap_congr ?_
  rintro ⟨k, v⟩ _
  cases hStem : stem.isPrefixOf k with
  | true => simp
  | false => simp [taskUnder_of_outside hStem]

/-- A batch is the beginning of the pending tasks in the order of their keys. -/
theorem getNextBatch_eq {db : DB} (limit : Int)
    (h : ∀ k v, pendingStem.isPrefixOf k = true → db.get? k = some v → ∃ p, v = .task p) :
    getNextBatch db limit = .ok ((pendingTasks db).take limit.toNat) := by
  have hTasks : ∀ e ∈ db.ascendingFrom pendingStem, pendingStem.isPrefixOf e.1 = true →
      ∃ p, e.2 = .task p := by
    intro e he hStem
    have hEntry : e ∈ db.entries := List.mem_of_mem_filter he
    exact h e.1 e.2 hStem (db.get?_eq_some_iff.mpr hEntry)
  rw [getNextBatch, collectTasks_eq limit [] hTasks, takeWhile_ascendingFrom,
    filterMap_filter_taskUnder]
  rfl

theorem QueueState.Sound.getNextBatch (h : s.Sound marshals) (limit : Int) :
    Storage.getNextBatch s.db limit = .ok ((pendingTasks s.db).take limit.toNat) := by
  refine getNextBatch_eq limit ?_
  intro k v hStem hGet
  obtain ⟨t, _, _, hValue⟩ := h.pending k v hStem hGet
  exact ⟨_, hValue⟩

/-! ### Claims -/

theorem claimTask_error {db : DB} {t : FileTask} {committed : Bool}
    (h : (claimTask marshals db t committed).2 ≠ .ok ()) :
    (claimTask marshals db t committed).1 = db := by
  rw [claimTask, markTask] at h ⊢
  split
  · rfl
  · rename_i body hBody
    rw [hBody] at h
    cases committed with
    | true => exact absurd rfl h
    | false => rfl

theorem claimTask_ok {db : DB} {t : FileTask} {committed : Bool}
    (h : (claimTask marshals db t committed).2 = .ok ()) :
    (db.get? (pendingKey t)).isSome = true ∧
      (claimTask marshals db t committed).1 =
        (db.erase (pendingKey t)).insert (processingKey t) (.task (toPbFileTask t)) := by
  rw [claimTask, markTask] at h ⊢
  split at h
  · cases h
  · rename_i body hBody
    obtain ⟨rfl, hFault | hFound⟩ := markAsProcessing_ok hBody
    · cases hFault
    · cases committed with
      | true => exact ⟨hFound, rfl⟩
      | false => cases h

/-- A claim adds nothing under the pending stem. -/
theorem get?_of_claimTask {db : DB} {t : FileTask} {committed : Bool} {k : Key} {v : Value}
    (hStem : pendingStem.isPrefixOf k = true)
    (hGet : (claimTask marshals db t committed).1.get? k = some v) : db.get? k = some v := by
  by_cases hOk : (claimTask marshals db t committed).2 = .ok ()
  · have hOther : k ≠ processingKey t := by
      rintro rfl
      rw [not_pending_processingKey] at hStem
      cases hStem
    rw [(claimTask_ok hOk).2, OrderedMap.get?_insert_of_ne _ _ hOther,
      OrderedMap.get?_erase] at hGet
    split at hGet
    · cases hGet
    · exact hGet
  · rwa [claimTask_error hOk] at hGet

theorem QueueState.Sound.claimTask_ok_iff (h : s.Sound marshals) {t : FileTask}
    (ht : t ∈ s.enqueued) :
    (claimTask marshals s.db t true).2 = .ok () ↔ t ∈ pendingTasks s.db := by
  rw [← h.get?_pendingKey ht]
  constructor
  · intro hOk
    exact (claimTask_ok hOk).1
  · intro hFound
    have hBody : ∃ body, markAsProcessing marshals { task := t, readFault := false } s.db =
        .ok body := by
      rw [markAsProcessing, if_pos (h.regular t ht).2, if_neg]
      · exact ⟨_, rfl⟩
      · rintro ⟨_, hNone⟩
        rw [hNone] at hFound
        cases hFound
    obtain ⟨body, hBody⟩ := hBody
    rw [claimTask, markTask, hBody]
    rfl

/-- One task changes sides and everything else stays. -/
structure Moves (t : FileTask) (db db' : DB) : Prop where
  pending : (pendingTasks db).Perm (t :: pendingTasks db')
  processing : (processingTasks db').Perm (t :: processingTasks db)
  frame : ∀ k, k ≠ pendingKey t → k ≠ processingKey t → db'.get? k = db.get? k

theorem QueueState.Sound.moves (h : s.Sound marshals) {t : FileTask} (ht : t ∈ s.enqueued)
    (hPending : t ∈ pendingTasks s.db) :
    Moves t s.db
      ((s.db.erase (pendingKey t)).insert (processingKey t) (.task (toPbFileTask t))) := by
  have hGet := (h.mem_pendingTasks_iff ht).mp hPending
  have hRound := fromPbFileTask_toPbFileTask (h.regular t ht).1
  have hFree : (s.db.erase (pendingKey t)).get? (processingKey t) = none := by
    rw [s.db.get?_erase_of_ne (pending_ne_processing t t).symm]
    exact h.get?_processingKey ht hPending
  refine ⟨?_, ?_, ?_⟩
  · have hErase := tasksUnder_erase pendingStem hGet
    rw [taskUnder_of_below (isPrefixOf_pendingKey t), hRound] at hErase
    have hInsert := tasksUnder_insert pendingStem (.task (toPbFileTask t)) hFree
    rw [taskUnder_of_outside (not_pending_processingKey t)] at hInsert
    exact hErase.trans (hInsert.symm.cons t)
  · have hInsert := tasksUnder_insert processingStem (.task (toPbFileTask t)) hFree
    rw [taskUnder_of_below (isPrefixOf_processingKey t), hRound] at hInsert
    exact hInsert.trans
      ((tasksUnder_erase_of_outside (not_processing_pendingKey t)).cons t)
  · intro k hPendingKey hProcessingKey
    rw [OrderedMap.get?_insert_of_ne _ _ hProcessingKey, s.db.get?_erase_of_ne hPendingKey]

end Sound

/-! ### Steps -/

section Steps

variable {marshals : FileTaskPb → Bool} {s : QueueState}

theorem QueueState.Sound.free_pendingKey (h : s.Sound marshals) {t : FileTask}
    (hFresh : t.id ∉ s.enqueued.map FileTask.id) : s.db.get? (pendingKey t) = none := by
  cases hGet : s.db.get? (pendingKey t) with
  | none => rfl
  | some v =>
    obtain ⟨u, hu, hKey, _⟩ := h.pending _ v (isPrefixOf_pendingKey t) hGet
    exact absurd (List.mem_map.mpr ⟨u, hu, (id_of_pendingKey hKey).symm⟩) hFresh

theorem tasks_insert_pendingKey {db : DB} {t : FileTask} (ht : t.Regular)
    (hFree : db.get? (pendingKey t) = none) :
    (pendingTasks (db.insert (pendingKey t) (.task (toPbFileTask t))) ++
      processingTasks (db.insert (pendingKey t) (.task (toPbFileTask t)))).Perm
      (t :: (pendingTasks db ++ processingTasks db)) := by
  have hPending := tasksUnder_insert pendingStem (.task (toPbFileTask t)) hFree
  rw [taskUnder_of_below (isPrefixOf_pendingKey t), fromPbFileTask_toPbFileTask ht] at hPending
  have hProcessing := tasksUnder_insert processingStem (.task (toPbFileTask t)) hFree
  rw [taskUnder_of_outside (not_processing_pendingKey t)] at hProcessing
  exact hPending.append hProcessing

theorem QueueState.Sound.enqueue (h : s.Sound marshals) {t : FileTask} (ht : t.Regular)
    (hFresh : t.id ∉ s.enqueued.map FileTask.id) (hMarshals : marshals (toPbFileTask t) = true) :
    QueueState.Sound marshals
      { s with db := s.db.insert (pendingKey t) (.task (toPbFileTask t)),
               enqueued := s.enqueued ++ [t] } := by
  have hOld : ∀ u ∈ s.enqueued, u ∈ s.enqueued ++ [t] := fun u hu => List.mem_append_left _ hu
  refine ⟨?_, ?_, ?_, ?_, ?_, fun u hu => hOld u (h.returned u hu)⟩
  · exact Bag.forall_mem_concat h.regular ⟨ht, hMarshals⟩
  · rw [List.map_append, List.map_singleton]
    refine List.nodup_append.mpr ⟨h.ids, List.nodup_singleton _, ?_⟩
    intro a ha b hb hSame
    obtain rfl := List.mem_singleton.mp hb
    exact hFresh (hSame ▸ ha)
  · intro k v hStem hGet
    by_cases hKey : k = pendingKey t
    · subst hKey
      rw [s.db.get?_insert_self] at hGet
      exact ⟨t, List.mem_append_right _ (List.mem_singleton_self t), rfl,
        (Option.some.inj hGet).symm⟩
    · rw [s.db.get?_insert_of_ne _ hKey] at hGet
      obtain ⟨u, hu, hEntry⟩ := h.pending k v hStem hGet
      exact ⟨u, hOld u hu, hEntry⟩
  · intro k v hStem hGet
    have hKey : k ≠ pendingKey t := by
      rintro rfl
      rw [not_processing_pendingKey] at hStem
      cases hStem
    rw [s.db.get?_insert_of_ne _ hKey] at hGet
    obtain ⟨u, hu, hEntry⟩ := h.processing k v hStem hGet
    exact ⟨u, hOld u hu, hEntry⟩
  · have hBoth := tasks_insert_pendingKey ht (h.free_pendingKey hFresh)
    exact (hBoth.trans (h.conserved.cons t)).trans (List.perm_append_singleton t s.enqueued).symm

theorem QueueState.Sound.claim (h : s.Sound marshals) {t : FileTask} (ht : t ∈ s.enqueued)
    (committed : Bool) :
    QueueState.Sound marshals { s with db := (claimTask marshals s.db t committed).1 } := by
  by_cases hOk : (claimTask marshals s.db t committed).2 = .ok ()
  · obtain ⟨hFound, hDb⟩ := claimTask_ok hOk
    have hMoves := h.moves ht ((h.get?_pendingKey ht).mp hFound)
    have hPending : ∀ k v, pendingStem.isPrefixOf k = true →
        (claimTask marshals s.db t committed).1.get? k = some v →
        ∃ u ∈ s.enqueued, k = pendingKey u ∧ v = .task (toPbFileTask u) :=
      fun k v hStem hGet => h.pending k v hStem (get?_of_claimTask hStem hGet)
    rw [hDb] at hPending ⊢
    refine ⟨h.regular, h.ids, hPending, ?_, ?_, h.returned⟩
    · intro k v hStem hGet
      have hOther : k ≠ pendingKey t := by
        rintro rfl
        rw [not_processing_pendingKey] at hStem
        cases hStem
      by_cases hKey : k = processingKey t
      · subst hKey
        rw [OrderedMap.get?_insert_self] at hGet
        exact ⟨t, ht, rfl, (Option.some.inj hGet).symm⟩
      · rw [hMoves.frame k hOther hKey] at hGet
        exact h.processing k v hStem hGet
    · have hLeft := (hMoves.processing.append_left (pendingTasks
        ((s.db.erase (pendingKey t)).insert (processingKey t) (.task (toPbFileTask t))))).trans
          List.perm_middle
      have hRight := hMoves.pending.append_right (processingTasks s.db)
      exact (hLeft.trans hRight.symm).trans h.conserved
  · rw [claimTask_error hOk]
    exact h

theorem outside_of_foreign {key : Key} (hKey : workStem.isPrefixOf key = false) {stem : Key}
    (hStem : workStem <+: stem) : stem.isPrefixOf key = false := by
  rw [Bool.eq_false_iff]
  intro hPrefix
  have hWork := hStem.trans (List.isPrefixOf_iff_prefix.mp hPrefix)
  rw [List.isPrefixOf_iff_prefix.mpr hWork] at hKey
  cases hKey

theorem get?_foreign (db : DB) {key stem k : Key} (hKey : stem.isPrefixOf key = false)
    (value : Option Value) (hStem : stem.isPrefixOf k = true) :
    (applyWrites db [(key, value)]).get? k = db.get? k := by
  refine get?_applyWrites_of_notMem ?_
  rw [List.map_singleton, List.mem_singleton]
  rintro rfl
  rw [hKey] at hStem
  cases hStem

theorem QueueState.Sound.foreign (h : s.Sound marshals) {key : Key}
    (hKey : workStem.isPrefixOf key = false) (value : Option Value) :
    QueueState.Sound marshals { s with db := applyWrites s.db [(key, value)] } := by
  have hPending : pendingStem.isPrefixOf key = false :=
    outside_of_foreign hKey (List.isPrefixOf_iff_prefix.mp rfl)
  have hProcessing : processingStem.isPrefixOf key = false :=
    outside_of_foreign hKey (List.isPrefixOf_iff_prefix.mp rfl)
  refine ⟨h.regular, h.ids, ?_, ?_, ?_, h.returned⟩
  · intro k v hStem hGet
    rw [get?_foreign s.db hPending value hStem] at hGet
    exact h.pending k v hStem hGet
  · intro k v hStem hGet
    rw [get?_foreign s.db hProcessing value hStem] at hGet
    exact h.processing k v hStem hGet
  · have hSame := (tasksUnder_write_of_outside s.db hPending value).append
      (tasksUnder_write_of_outside s.db hProcessing value)
    exact hSame.trans h.conserved

theorem enqueueTask_cases (marshals : FileTaskPb → Bool) (db : DB) (t : FileTask)
    (committed : Bool) :
    marshals (toPbFileTask t) = true ∧ enqueueTask marshals db t committed =
        (db.insert (pendingKey t) (.task (toPbFileTask t)), true) ∨
      enqueueTask marshals db t committed = (db, false) := by
  rw [enqueueTask]
  split
  · rename_i hOk
    rw [Bool.and_eq_true] at hOk
    exact .inl ⟨hOk.1, rfl⟩
  · exact .inr rfl

theorem queueStep_sound (h : s.Sound marshals) {action : QueueAction} {t : QueueState}
    (hProper : Proper s action) (hStep : queueStep marshals s action = some t) :
    t.Sound marshals := by
  cases action with
  | enqueueTask task committed =>
    obtain ⟨hRegular, hFresh⟩ := hProper
    obtain ⟨hMarshals, hOk⟩ | hFailed := enqueueTask_cases marshals s.db task committed
    · simp only [queueStep, hOk] at hStep
      cases hStep
      exact h.enqueue hRegular hFresh hMarshals
    · simp only [queueStep, hFailed] at hStep
      cases hStep
      exact h
  | getNextBatch limit =>
    simp only [queueStep, h.getNextBatch] at hStep
    cases hStep
    refine ⟨h.regular, h.ids, h.pending, h.processing, h.conserved, ?_⟩
    intro task hTask
    obtain hTask | hTask := List.mem_append.mp hTask
    · exact h.returned task hTask
    · exact h.conserved.mem_iff.mp (List.mem_append_left _ (List.mem_of_mem_take hTask))
  | markAsProcessing task committed =>
    cases hStep
    exact h.claim (h.returned task hProper) committed
  | foreign key value =>
    simp only [queueStep] at hStep
    split at hStep
    · cases hStep
    · rename_i hKey
      cases hStep
      exact h.foreign (Bool.eq_false_iff.mpr hKey) value

theorem queue_sound_of_reaches (h : (queueMachine marshals).Reaches Proper s) :
    s.Sound marshals := by
  refine Machine.Reaches.invariant (I := QueueState.Sound marshals) ⟨?_, ?_, ?_, ?_, ?_, ?_⟩
    (fun _ _ _ hs hProper hStep => queueStep_sound hs hProper hStep) h
  · intro t ht
    cases ht
  · exact List.nodup_nil
  · intro k v _ hGet
    cases hGet
  · intro k v _ hGet
    cases hGet
  · exact .rfl
  · intro t ht
    cases ht

/-- Enqueued tasks are neither lost, nor doubled, nor changed. -/
theorem queue_conserves (h : (queueMachine marshals).Reaches Proper s) :
    (pendingTasks s.db ++ processingTasks s.db).Perm s.enqueued ∧ s.enqueued.Nodup ∧
    (∀ t ∈ s.returned,
      ((claimTask marshals s.db t true).2 = .ok () ↔ t ∈ pendingTasks s.db) ∧
      ∀ committed, (claimTask marshals s.db t committed).2 = .ok () →
        Moves t s.db (claimTask marshals s.db t committed).1) ∧
    (∀ t committed, (claimTask marshals s.db t committed).2 ≠ .ok () →
      (claimTask marshals s.db t committed).1 = s.db) ∧
    (∀ t committed, (enqueueTask marshals s.db t committed).2 = false →
      (enqueueTask marshals s.db t committed).1 = s.db) ∧
    ∀ limit : Int, 0 ≤ limit → ∃ tasks, getNextBatch s.db limit = .ok tasks ∧ tasks.Nodup ∧
      (∀ t ∈ tasks, t ∈ pendingTasks s.db) ∧
      (tasks.length : Int) = min limit (pendingTasks s.db).length := by
  have hSound := queue_sound_of_reaches h
  have hNodup : s.enqueued.Nodup := hSound.ids.of_map
  refine ⟨hSound.conserved, hNodup, ?_, fun t committed => claimTask_error, ?_, ?_⟩
  · intro t hReturned
    have ht := hSound.returned t hReturned
    refine ⟨hSound.claimTask_ok_iff ht, ?_⟩
    intro committed hOk
    obtain ⟨hFound, hDb⟩ := claimTask_ok hOk
    rw [hDb]
    exact hSound.moves ht ((hSound.get?_pendingKey ht).mp hFound)
  · intro t committed hFailed
    rw [enqueueTask] at hFailed ⊢
    split at hFailed
    · cases hFailed
    · rename_i hRefused
      rw [if_neg hRefused]
  · intro limit hLimit
    have hPending : (pendingTasks s.db).Nodup :=
      (List.nodup_append.mp (hSound.conserved.nodup_iff.mpr hNodup)).1
    refine ⟨_, hSound.getNextBatch limit, hPending.sublist (List.take_sublist _ _),
      fun t => List.mem_of_mem_take, ?_⟩
    rw [List.length_take]
    omega

end Steps

def queuedTask (id : String) (priority : Priority) : FileTask :=
  { id := id, driveId := "d", path := "/a.pdf", rawMimeType := "application/pdf",
    effectiveMimeType := MIME.toMIME "application/pdf", size := 1, priority := priority,
    createdAt := 5, retryCount := 0 }

/-- Two tasks are queued and the first of the batch is claimed. -/
def claimedRun : List QueueAction :=
  [.enqueueTask (queuedTask "b" normal) true, .enqueueTask (queuedTask "a" normal) true,
    .getNextBatch 5, .markAsProcessing (queuedTask "a" normal) true]

theorem queue_conserves_claimed :
    (getNextBatch (((queueMachine fun _ => true).restrict Proper).after claimedRun).db 5).toOption =
      some [queuedTask "b" normal] := by
  have hRun := Machine.reaches_after_restrict (queueMachine fun _ => true) Proper claimedRun
  obtain ⟨_, _, _, _, _, hBatch⟩ := queue_conserves hRun
  obtain ⟨tasks, hTasks, _, hPending, hLength⟩ := hBatch 5 (by decide)
  have hDb : pendingTasks (((queueMachine fun _ => true).restrict Proper).after claimedRun).db =
      [queuedTask "b" normal] := by decide +kernel
  rw [hDb] at hPending hLength
  obtain ⟨t, rfl⟩ : ∃ t, tasks = [t] := List.length_eq_one_iff.mp (by simpa using hLength)
  obtain rfl := List.mem_singleton.mp (hPending t (List.mem_singleton_self t))
  rw [hTasks]
  rfl

end ChatLab.Storage
