import ChatLab.Storage.TaskQueue

/-!
# The order in which tasks are served

A batch walks the pending keys in byte order. The priority comes first and has
one digit. The creation time is a decimal without padding, so two times of one
priority are served in the order of their texts: the older task is first only
if the leading digits of the later time, as many as the earlier time has, are
already larger.
-/

namespace ChatLab.Storage

open Foundation Foundation.Decimal Foundation.Lexicographic

/-- HIGH before NORMAL, and the older task first. -/
def FileTask.Before (t u : FileTask) : Prop :=
  t.priority < u.priority ∨ t.priority = u.priority ∧ t.createdAt ≤ u.createdAt

/-- A batch is the beginning of the pending tasks in that order. -/
def Served (db : DB) (limit : Int) : Prop :=
  ∃ ordered : List FileTask, ordered.Perm (pendingTasks db) ∧ ordered.Pairwise FileTask.Before ∧
    getNextBatch db limit = .ok (ordered.take limit.toNat)

/-- One of the two priorities, and a creation time from the epoch on whose
nanoseconds can be represented. -/
structure FileTask.Timely (t : FileTask) : Prop where
  priority : t.priority = high ∨ t.priority = normal
  createdAt : 0 ≤ t.createdAt ∧ t.createdAt < 2 ^ 63

theorem FileTask.timely_iff (t : FileTask) : t.Timely ↔
    (t.priority = high ∨ t.priority = normal) ∧ 0 ≤ t.createdAt ∧ t.createdAt < 2 ^ 63 := by
  constructor
  · rintro ⟨hPriority, hTime⟩
    exact ⟨hPriority, hTime⟩
  · rintro ⟨hPriority, hTime⟩
    exact ⟨hPriority, hTime⟩

instance FileTask.decidableTimely (t : FileTask) : Decidable t.Timely :=
  decidable_of_iff' _ t.timely_iff

/-- The tasks that are enqueued are timely; nothing else is asked of a run. -/
def EnqueuesTimely (_ : QueueState) : QueueAction → Prop
  | .enqueueTask t _ => t.Timely
  | _ => True

instance (s : QueueState) : (action : QueueAction) → Decidable (EnqueuesTimely s action)
  | .enqueueTask t _ => t.decidableTimely
  | .getNextBatch _ | .markAsProcessing _ _ | .foreign _ _ => .isTrue trivial

/-- The leading digits of the later time, as many as the earlier one has, are
already larger. -/
def ReadsEarlier (earlier later : Int) : Prop :=
  earlier.toNat < later.toNat / 10 ^ (width later.toNat - width earlier.toNat)

/-! ## The order of the keys -/

theorem digit_lt_colon (c : Char) (h : c.isDigit = true) : c < ':' := by
  have hDigit := toNat_of_isDigit h
  have hColon : (':' : Char).toNat = 58 := rfl
  have hNat : c.toNat < (':' : Char).toNat := by omega
  exact hNat

section Keys

variable {t u : FileTask}

theorem FileTask.Timely.nano (h : t.Timely) :
    decimal (unixNano t.createdAt) = Nat.toDigits 10 t.createdAt.toNat := by
  rw [unixNano_eq_self h.createdAt.1 h.createdAt.2]
  obtain ⟨n, hn⟩ := Int.eq_ofNat_of_zero_le h.createdAt.1
  rw [hn]
  rfl

theorem pendingKey_lt_of_priority (ht : t.Timely) (hu : u.Timely) (h : t.priority < u.priority) :
    pendingKey t < pendingKey u := by
  have hHigh : t.priority = high := by
    obtain hp | hp := ht.priority
    · exact hp
    · obtain hq | hq := hu.priority
      · rw [hp, hq] at h
        exact absurd h (by decide)
      · rw [hp, hq] at h
        exact absurd h (lt_irrefl _)
  have hNormal : u.priority = normal := by
    obtain hq | hq := hu.priority
    · rw [hHigh, hq] at h
      exact absurd h (lt_irrefl _)
    · exact hq
  rw [pendingKey, pendingKey, append_lt_append_iff, hHigh, hNormal]
  exact List.Lex.rel (by decide)

theorem pendingKey_lt_iff (ht : t.Timely) (hu : u.Timely) (hSame : t.priority = u.priority)
    (hOlder : t.createdAt < u.createdAt) :
    pendingKey t < pendingKey u ↔ ReadsEarlier t.createdAt u.createdAt := by
  have hTimes : t.createdAt.toNat < u.createdAt.toNat := by
    have hLow := ht.createdAt.1
    omega
  have hDigits := toDigits_append_lt_iff digit_lt_colon hTimes t.id.toList u.id.toList
  rw [pendingKey, pendingKey, append_lt_append_iff, hSame, append_lt_append_iff, ht.nano, hu.nano]
  exact (append_lt_append_iff [':'] _ _).trans hDigits

theorem pendingKey_ne (ht : t.Timely) (hu : u.Timely) (h : t.createdAt < u.createdAt) :
    pendingKey t ≠ pendingKey u := by
  intro hKey
  have hTimes := (fields_of_pendingKey hKey).1
  rw [unixNano_eq_self ht.createdAt.1 ht.createdAt.2,
    unixNano_eq_self hu.createdAt.1 hu.createdAt.2] at hTimes
  exact h.ne hTimes

theorem not_before (h : ¬ t.Before u) :
    u.priority < t.priority ∨ u.priority = t.priority ∧ u.createdAt < t.createdAt := by
  obtain ⟨hNotLess, hNotSame⟩ := not_or.mp h
  obtain hLess | hSame := (not_lt.mp hNotLess).lt_or_eq
  · exact .inl hLess
  · exact .inr ⟨hSame, not_le.mp fun hLe => hNotSame ⟨hSame.symm, hLe⟩⟩

/-- The key of a task holds what is stored of it. -/
theorem pendingKey_stored (h : t.priority = high ∨ t.priority = normal) :
    pendingKey (fromPbFileTask (toPbFileTask t)) = pendingKey t := by
  have hPriority : (fromPbFileTask (toPbFileTask t)).priority = t.priority :=
    toPriority_toPbPriority h
  rw [pendingKey, hPriority]
  rfl

theorem FileTask.Timely.stored (h : t.Timely) : (fromPbFileTask (toPbFileTask t)).Timely := by
  have hPriority : (fromPbFileTask (toPbFileTask t)).priority = t.priority :=
    toPriority_toPbPriority h.priority
  constructor
  · rw [hPriority]
    exact h.priority
  · exact h.createdAt

end Keys

/-! ## What stands under the pending stem -/

/-- Every pending entry is the record of an enqueued task, under its key. -/
def QueueState.Keyed (s : QueueState) : Prop :=
  ∀ k v, pendingStem.isPrefixOf k = true → s.db.get? k = some v →
    ∃ t ∈ s.enqueued, t.Timely ∧ k = pendingKey t ∧ v = .task (toPbFileTask t)

section Runs

variable {marshals : FileTaskPb → Bool} {s : QueueState}

theorem QueueState.Keyed.enqueue (h : s.Keyed) {t : FileTask} (ht : t.Timely) :
    QueueState.Keyed
      { s with db := s.db.insert (pendingKey t) (.task (toPbFileTask t)),
               enqueued := s.enqueued ++ [t] } := by
  intro k v hStem hGet
  rw [OrderedMap.get?_insert] at hGet
  split at hGet
  · rename_i hKey
    exact ⟨t, List.mem_append_right _ (List.mem_singleton_self t), ht, hKey,
      (Option.some.inj hGet).symm⟩
  · obtain ⟨u, hu, hEntry⟩ := h k v hStem hGet
    exact ⟨u, List.mem_append_left _ hu, hEntry⟩

theorem queueStep_keyed (h : s.Keyed) {action : QueueAction} {s' : QueueState}
    (hTimely : EnqueuesTimely s action) (hStep : queueStep marshals s action = some s') :
    s'.Keyed := by
  cases action with
  | enqueueTask t committed =>
    obtain ⟨_, hOk⟩ | hFailed := enqueueTask_cases marshals s.db t committed
    · simp only [queueStep, hOk] at hStep
      cases hStep
      exact h.enqueue hTimely
    · simp only [queueStep, hFailed] at hStep
      cases hStep
      exact h
  | getNextBatch limit =>
    simp only [queueStep] at hStep
    split at hStep
    · cases hStep
      exact h
    · cases hStep
      exact h
  | markAsProcessing t committed =>
    cases hStep
    intro k v hStem hGet
    exact h k v hStem (get?_of_claimTask hStem hGet)
  | foreign key value =>
    simp only [queueStep] at hStep
    split at hStep
    · cases hStep
    · rename_i hKey
      cases hStep
      have hOutside : pendingStem.isPrefixOf key = false :=
        outside_of_foreign (Bool.eq_false_iff.mpr hKey) (List.isPrefixOf_iff_prefix.mp rfl)
      intro k v hStem hGet
      rw [get?_foreign s.db hOutside value hStem] at hGet
      exact h k v hStem hGet

theorem keyed_of_reaches (h : (queueMachine marshals).Reaches EnqueuesTimely s) : s.Keyed := by
  refine Machine.Reaches.invariant (I := QueueState.Keyed) ?_
    (fun _ _ _ hs hTimely hStep => queueStep_keyed hs hTimely hStep) h
  intro k v _ hGet
  cases hGet

theorem QueueState.Keyed.getNextBatch (h : s.Keyed) (limit : Int) :
    Storage.getNextBatch s.db limit = .ok ((pendingTasks s.db).take limit.toNat) := by
  refine getNextBatch_eq limit ?_
  intro k v hStem hGet
  obtain ⟨t, _, _, _, hValue⟩ := h k v hStem hGet
  exact ⟨_, hValue⟩

/-- A pending task stands under its own key and is an enqueued one, as stored. -/
theorem QueueState.Keyed.entry (h : s.Keyed) {e : Key × Value} (he : e ∈ s.db.entries)
    {t : FileTask} (ht : taskUnder pendingStem e = some t) :
    e.1 = pendingKey t ∧ t.Timely ∧ ∃ u ∈ s.enqueued, t = fromPbFileTask (toPbFileTask u) := by
  obtain ⟨k, v⟩ := e
  obtain ⟨hStem, p, rfl, rfl⟩ := taskUnder_eq_some ht
  obtain ⟨u, hu, hTimely, hKey, hValue⟩ := h k _ hStem (s.db.get?_eq_some_iff.mpr he)
  obtain rfl := Value.task.inj hValue
  refine ⟨?_, hTimely.stored, u, hu, rfl⟩
  rw [pendingKey_stored hTimely.priority]
  exact hKey

theorem QueueState.Keyed.pending (h : s.Keyed) {t : FileTask} (ht : t ∈ pendingTasks s.db) :
    t.Timely ∧ ∃ u ∈ s.enqueued, t = fromPbFileTask (toPbFileTask u) := by
  obtain ⟨e, he, hTask⟩ := List.mem_filterMap.mp ht
  exact (h.entry he hTask).2

/-- Positions among the pending tasks are positions of their keys. -/
theorem QueueState.Keyed.pairwise_iff (h : s.Keyed) {R : FileTask → FileTask → Prop} :
    (pendingTasks s.db).Pairwise R ↔ ∀ t ∈ pendingTasks s.db, ∀ u ∈ pendingTasks s.db,
      pendingKey t < pendingKey u → R t u := by
  rw [pendingTasks, tasksUnder, List.pairwise_filterMap, OrderedMap.pairwise_entries_iff]
  constructor
  · intro hEntries t ht u hu hLt
    obtain ⟨e, he, hTask⟩ := List.mem_filterMap.mp ht
    obtain ⟨e', he', hTask'⟩ := List.mem_filterMap.mp hu
    rw [← (h.entry he hTask).1, ← (h.entry he' hTask').1] at hLt
    exact hEntries e he e' he' hLt t hTask u hTask'
  · intro hTasks e he e' he' hLt t hTask u hTask'
    rw [(h.entry he hTask).1, (h.entry he' hTask').1] at hLt
    exact hTasks t (List.mem_filterMap.mpr ⟨e, he, hTask⟩) u
      (List.mem_filterMap.mpr ⟨e', he', hTask'⟩) hLt

/-! ## Batches in order -/

theorem QueueState.Keyed.served_iff (h : s.Keyed) :
    (∀ limit, Served s.db limit) ↔ (pendingTasks s.db).Pairwise FileTask.Before := by
  constructor
  · intro hServed
    -- a limit that takes every pending task shows the whole order
    obtain ⟨ordered, hPerm, hOrdered, hBatch⟩ := hServed (pendingTasks s.db).length
    have hAll := Except.ok.inj ((h.getNextBatch _).symm.trans hBatch)
    rw [Int.toNat_natCast, List.take_length, ← hPerm.length_eq, List.take_length] at hAll
    rw [hAll]
    exact hOrdered
  · intro hOrdered limit
    exact ⟨_, .rfl, hOrdered, h.getNextBatch limit⟩

theorem QueueState.Keyed.before_iff (h : s.Keyed) :
    (pendingTasks s.db).Pairwise FileTask.Before ↔
      ∀ t ∈ pendingTasks s.db, ∀ u ∈ pendingTasks s.db, t.priority = u.priority →
        t.createdAt < u.createdAt → ReadsEarlier t.createdAt u.createdAt := by
  rw [h.pairwise_iff]
  constructor
  · intro hKeys t ht u hu hSame hOlder
    have hTimely := (h.pending ht).1
    have hTimely' := (h.pending hu).1
    rw [← pendingKey_lt_iff hTimely hTimely' hSame hOlder]
    by_contra hNot
    have hLater := lt_of_le_of_ne (not_lt.mp hNot) (pendingKey_ne hTimely hTimely' hOlder).symm
    obtain hLess | ⟨_, hLe⟩ := hKeys u hu t ht hLater
    · exact hLess.ne hSame.symm
    · exact absurd hOlder hLe.not_gt
  · intro hTimes t ht u hu hLt
    by_contra hNot
    obtain hPriority | ⟨hSame, hOlder⟩ := not_before hNot
    · exact lt_asymm hLt (pendingKey_lt_of_priority (h.pending hu).1 (h.pending ht).1 hPriority)
    · have hReads := hTimes u hu t ht hSame hOlder
      rw [← pendingKey_lt_iff (h.pending hu).1 (h.pending ht).1 hSame hOlder] at hReads
      exact lt_asymm hLt hReads

/-- Every batch is served in order exactly if, among the pending tasks of one
priority, an earlier time also reads as an earlier text. -/
theorem batches_in_order_iff (h : (queueMachine marshals).Reaches EnqueuesTimely s) :
    (∀ t ∈ pendingTasks s.db, ∃ u ∈ s.enqueued, t = fromPbFileTask (toPbFileTask u)) ∧
    ((∀ limit, Served s.db limit) ↔
      ∀ t ∈ pendingTasks s.db, ∀ u ∈ pendingTasks s.db, t.priority = u.priority →
        t.createdAt < u.createdAt → ReadsEarlier t.createdAt u.createdAt) := by
  have hKeyed := keyed_of_reaches h
  constructor
  · exact fun t ht => (hKeyed.pending ht).2
  · rw [hKeyed.served_iff]
    exact hKeyed.before_iff

end Runs

def taskCreatedAt (id : String) (priority : Priority) (createdAt : Int) : FileTask :=
  { queuedTask id priority with createdAt := createdAt }

/-- Three tasks whose times have the same number of digits. -/
def evenRun : List QueueAction :=
  [.enqueueTask (taskCreatedAt "c" normal 12) true, .enqueueTask (taskCreatedAt "b" normal 11) true,
    .enqueueTask (taskCreatedAt "a" high 13) true]

theorem batches_in_order_even :
    Served (((queueMachine fun _ => true).restrict EnqueuesTimely).after evenRun).db 2 := by
  have hRun := Machine.reaches_after_restrict (queueMachine fun _ => true) EnqueuesTimely evenRun
  refine (batches_in_order_iff hRun).2.mpr ?_ 2
  have hPending : pendingTasks
      (((queueMachine fun _ => true).restrict EnqueuesTimely).after evenRun).db =
      [taskCreatedAt "a" high 13, taskCreatedAt "b" normal 11, taskCreatedAt "c" normal 12] := by
    decide +kernel
  rw [hPending]
  simp only [ReadsEarlier]
  decide

/-- The later task has a longer time and is served first. -/
def longerRun : List QueueAction :=
  [.enqueueTask (taskCreatedAt "a" normal 9) true, .enqueueTask (taskCreatedAt "b" normal 10) true]

theorem later_task_served_first :
    ¬ ∀ s, (queueMachine fun _ => true).Reaches EnqueuesTimely s →
      ∀ limit, Served s.db limit := by
  intro hAll
  have hRun := Machine.reaches_after_restrict (queueMachine fun _ => true) EnqueuesTimely longerRun
  obtain ⟨ordered, hPerm, hOrdered, hBatch⟩ := hAll _ hRun 2
  have hPending : pendingTasks
      (((queueMachine fun _ => true).restrict EnqueuesTimely).after longerRun).db =
      [taskCreatedAt "b" normal 10, taskCreatedAt "a" normal 9] := by decide +kernel
  have hLength := hPerm.length_eq
  rw [hPending] at hLength
  rw [(keyed_of_reaches hRun).getNextBatch, hPending] at hBatch
  have hSame := Except.ok.inj hBatch
  rw [List.take_of_length_le (by decide), List.take_of_length_le (by rw [hLength]; decide)] at hSame
  rw [← hSame] at hOrdered
  have hFirst := (List.pairwise_cons.mp hOrdered).1 _ (List.mem_singleton_self _)
  rw [FileTask.Before] at hFirst
  exact absurd hFirst (by decide)

end ChatLab.Storage
