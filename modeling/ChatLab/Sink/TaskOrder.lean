import ChatLab.Sink.Enrichment

/-!
# Tasks and the records they are about

A flush queues the tasks of its events one by one and writes the records of all
of them afterwards, in a batch that can fail. Transfer workers claim tasks and
segments are merged at any point in between, and several flushes overlap. A
task whose batch was stored has its record in every run; a task can be without
one before, or after a batch that failed.
-/

namespace ChatLab.Sink

open Foundation Foundation.Transactions ChatLab.Storage

/-- A `processAndStore` under way: the events of its batch, and those whose
task it has not come to yet. -/
structure Flush where
  items : List BatchItem
  todo : List BatchItem
deriving DecidableEq

def Flush.events (f : Flush) : List FileAnalyse := f.items.map BatchItem.event

/-- `consumed`, `queued` and `failed` record which events were flushed, have a
task that was committed, and belong to a batch that was not stored. -/
structure OrderState where
  repo : Repository
  flushes : List Flush
  claims : List (Body Key Value)
  merging : List Analysis
  consumed : List FileAnalyse
  queued : List FileAnalyse
  failed : List FileAnalyse

inductive OrderAction
  | flush (items : List BatchItem)
  | enqueue (i : Nat)
  | storeBatch (i : Nat) (fault : Fault)
  | claim (c : TaskClaim)
  | commit (i : Nat)
  | fetch (segment : AnalysisSegment) (version : UUID)
  | save (i : Nat) (fault : Fault)
  | foreign (key : Key) (value : Option Value)

/-- Identifiers come from `uuid.New`: an event may be delivered again, but no
two events share one. -/
def OrderState.Admits (s : OrderState) (events : List FileAnalyse) : Prop :=
  (ids events).Nodup ∧ ∀ e ∈ events, ∀ d ∈ s.consumed, e.id = d.id → e = d

instance (s : OrderState) (events : List FileAnalyse) : Decidable (s.Admits events) :=
  inferInstanceAs (Decidable (_ ∧ _))

def isTask : Value → Bool
  | .task _ => true
  | _ => false

/-- The events of batches that are not stored, or not stored yet. -/
def OrderState.unsettled (s : OrderState) : List FileAnalyse :=
  s.flushes.flatMap Flush.events ++ s.failed

section Runs

variable (parseMediaType : String → Option String) (marshalsTask : FileTaskPb → Bool)
  (marshals : AnalysisPb → Bool) (toLower : String → String)

def enqueueItem (db : DB) (item : BatchItem) : DB × Bool :=
  match MIME.isAuthorized parseMediaType item.event.rawMimeType with
  | some _ => enqueueTask marshalsTask db item.task item.enqueues
  | none => (db, false)

def orderStep (s : OrderState) : OrderAction → Option OrderState
  | .flush items =>
    if s.Admits (items.map BatchItem.event) then
      some { s with flushes := s.flushes ++ [{ items := items, todo := items }],
                    consumed := s.consumed ++ items.map BatchItem.event }
    else none
  | .enqueue i =>
    match s.flushes[i]? with
    | none => none
    | some f =>
      match f.todo with
      | [] => none
      | item :: rest =>
        let (db, queued) := enqueueItem parseMediaType marshalsTask s.repo.db item
        some { s with
          repo := { s.repo with db := db },
          flushes := s.flushes.set i { f with todo := rest },
          queued := if queued then s.queued ++ [item.event] else s.queued }
  | .storeBatch i fault =>
    match s.flushes[i]? with
    | none => none
    | some f =>
      match f.todo with
      | _ :: _ => none
      | [] =>
        match f.items.mapM BatchItem.analysis with
        | none => none
        | some allAnalyses =>
          if allAnalyses = [] then some { s with flushes := s.flushes.eraseIdx i }
          else
            match storeBatch marshals toLower s.repo allAnalyses fault with
            | (repo, .ok ()) => some { s with repo := repo, flushes := s.flushes.eraseIdx i }
            | (repo, .error _) =>
              some { s with repo := repo, flushes := s.flushes.eraseIdx i,
                            failed := s.failed ++ f.events }
  | .claim c =>
    -- the task was returned by `GetNextBatch`
    if c.task.id ∈ s.queued.map (fun e => e.id.text) then
      match markAsProcessing marshalsTask c s.repo.db with
      | .error _ => some s
      | .ok body => some { s with claims := s.claims ++ [body] }
    else none
  | .commit i =>
    match s.claims[i]? with
    | none => none
    | some body =>
      some { s with repo := { s.repo with db := applyWrites s.repo.db body.writes },
                    claims := s.claims.eraseIdx i }
  | .fetch segment version =>
    match fetchForEnrichment s.repo.db segment with
    | .error _ => some s
    | .ok analysis => some { s with merging := s.merging ++ [enrich analysis segment version] }
  | .save i fault =>
    match s.merging[i]? with
    | none => none
    | some analysis =>
      some { s with repo := (saveEnriched marshals toLower s.repo analysis fault).1,
                    merging := s.merging.eraseIdx i }
  | .foreign key value =>
    if foreignKey key && !value.any isTask then
      some { s with repo := { s.repo with db := foreignWrite s.repo.db key value } }
    else none

def orderMachine : Machine OrderState OrderAction where
  start := { repo := { db := .empty, documents := .empty }, flushes := [], claims := [],
             merging := [], consumed := [], queued := [], failed := [] }
  step := orderStep parseMediaType marshalsTask marshals toLower

end Runs

/-! ## What a step does to the store -/

/-- Either analyses of known events are written, or keys of other repositories
of which only those of queued events hold tasks. -/
inductive Touches (known queued : List FileAnalyse) : DB → DB → Prop
  | refl (db : DB) : Touches known queued db db
  | analyses {db : DB} {analyses : List Analysis} {ws : List (Key × Value)} :
      WritesOf analyses ws → (∀ a ∈ analyses, ∃ e ∈ known, e.IsRecord a) →
      Touches known queued db (db.insertAll ws)
  | foreign {db db' : DB} {key : Key} {value : Option Value} :
      Touches known queued db db' → foreignKey key = true →
      (∀ p, value = some (.task p) → ∃ e ∈ queued, p.id = e.id.text) →
      Touches known queued db (foreignWrite db' key value)

structure TaskStore (known queued : List FileAnalyse) (db : DB) : Prop where
  records : ∀ entry ∈ db.entries, analysisStem.isPrefixOf entry.1 = true →
    ∃ a, ∃ e ∈ known, IsRecord a entry ∧ e.IsRecord a
  pointers : PointersKeyed db
  tasks : ∀ k p, db.get? k = some (.task p) → ∃ e ∈ queued, p.id = e.id.text

section Store

variable {known queued : List FileAnalyse} {db db' : DB}

theorem TaskStore.keyed (h : TaskStore known queued db) : AnalysesKeyed db := by
  intro entry hEntry hStem
  obtain ⟨a, _, _, hRecord, _⟩ := h.records entry hEntry hStem
  exact ⟨a, hRecord⟩

theorem get?_insertAll_task {analyses : List Analysis} {ws : List (Key × Value)}
    (hws : WritesOf analyses ws) {k : Key} {p : FileTaskPb}
    (h : (db.insertAll ws).get? k = some (.task p)) : db.get? k = some (.task p) := by
  have hEntry := (OrderedMap.get?_eq_some_iff _).mp h
  obtain hOld | hNew := db.mem_of_mem_insertAll hEntry
  · exact db.get?_eq_some_iff.mpr hOld
  · obtain ⟨a, _, q, _, hw⟩ := hws _ hNew
    simp [analysisWrites] at hw

theorem TaskStore.insertAll (h : TaskStore known queued db) {analyses : List Analysis}
    {ws : List (Key × Value)} (hws : WritesOf analyses ws)
    (hKnown : ∀ a ∈ analyses, ∃ e ∈ known, e.IsRecord a) :
    TaskStore known queued (db.insertAll ws) where
  records := by
    intro entry hEntry hStem
    obtain hOld | hNew := db.mem_of_mem_insertAll hEntry
    · exact h.records entry hOld hStem
    · obtain ⟨a, ha, p, hp, hw⟩ := hws entry hNew
      obtain rfl | hw := List.mem_cons.mp hw
      · obtain ⟨e, he, hRecord⟩ := hKnown a ha
        exact ⟨a, e, he, ⟨p, hp, rfl⟩, hRecord⟩
      · obtain rfl := List.mem_singleton.mp hw
        obtain ⟨rest, hRest⟩ := List.isPrefixOf_iff_prefix.mp hStem
        exact absurd hRest (analysis_ne_index _ _)
  pointers := h.pointers.insertAll hws
  tasks k p hGet := h.tasks k p (get?_insertAll_task hws hGet)

theorem TaskStore.foreign (h : TaskStore known queued db) {key : Key} {value : Option Value}
    (hKey : foreignKey key = true)
    (hTask : ∀ p, value = some (.task p) → ∃ e ∈ queued, p.id = e.id.text) :
    TaskStore known queued (foreignWrite db key value) where
  records := by
    intro entry hEntry hStem
    have hNe : entry.1 ≠ key := by
      rintro rfl
      simp [foreignKey, hStem] at hKey
    have hGet := (OrderedMap.get?_eq_some_iff _).mpr hEntry
    rw [get?_foreignWrite hNe] at hGet
    exact h.records entry (db.get?_eq_some_iff.mp hGet) hStem
  pointers := h.pointers.foreignWrite hKey value
  tasks := by
    intro k p hGet
    by_cases hSame : k = key
    · subst hSame
      cases value with
      | none =>
        rw [foreignWrite, db.get?_erase_self] at hGet
        cases hGet
      | some v =>
        rw [foreignWrite, db.get?_insert_self] at hGet
        exact hTask p hGet
    · rw [get?_foreignWrite hSame] at hGet
      exact h.tasks k p hGet

theorem TaskStore.touches (h : TaskStore known queued db) (hTouch : Touches known queued db db') :
    TaskStore known queued db' := by
  induction hTouch with
  | refl => exact h
  | analyses hws hKnown => exact h.insertAll hws hKnown
  | foreign _ hKey hTask ih => exact ih.foreign hKey hTask

theorem Recorded.touches {e : FileAnalyse} (h : Recorded db e) (he : e ∈ known)
    (hUnique : ∀ c ∈ known, ∀ d ∈ known, c.id = d.id → c = d)
    (hTouch : Touches known queued db db') : Recorded db' e := by
  induction hTouch with
  | refl => exact h
  | analyses hws hKnown =>
    refine h.insertAll hws ?_
    intro a ha hSame
    obtain ⟨d, hd, hRecord⟩ := hKnown a ha
    obtain rfl := hUnique d hd e he (hRecord.entityId_eq.symm.trans hSame)
    exact hRecord
  | @foreign _ _ value _ hKey _ ih => exact ih.foreignWrite hKey value

theorem TaskStore.mono (h : TaskStore known queued db) {known' queued' : List FileAnalyse}
    (hKnown : ∀ e ∈ known, e ∈ known') (hQueued : ∀ e ∈ queued, e ∈ queued') :
    TaskStore known' queued' db where
  records := by
    intro entry hEntry hStem
    obtain ⟨a, e, he, hRecord, hEvent⟩ := h.records entry hEntry hStem
    exact ⟨a, e, hKnown e he, hRecord, hEvent⟩
  pointers := h.pointers
  tasks := by
    intro k p hGet
    obtain ⟨e, he, hId⟩ := h.tasks k p hGet
    exact ⟨e, hQueued e he, hId⟩

theorem TaskStore.event_of_entry (h : TaskStore known queued db) {entry : Key × Value}
    (hEntry : entry ∈ db.entries) {c : Analysis} (hRecord : IsRecord c entry) :
    ∃ a, ∃ e ∈ known, IsRecord a entry ∧ e.IsRecord a ∧ e.IsRecord c.persisted := by
  have hStem : analysisStem.isPrefixOf entry.1 = true := by
    obtain ⟨p, _, rfl⟩ := hRecord
    exact isPrefixOf_buildKey _ _ _
  obtain ⟨a, e, he, hRecord', hEvent⟩ := h.records entry hEntry hStem
  have hSame : c.persisted = a.persisted :=
    Except.ok.inj (hRecord.decode.symm.trans hRecord'.decode)
  exact ⟨a, e, he, hRecord', hEvent, hSame ▸ hEvent.persisted⟩

theorem TaskStore.fetch (h : TaskStore known queued db) {segment : AnalysisSegment} {a : Analysis}
    (hFetch : fetchForEnrichment db segment = .ok a) : ∃ e ∈ known, e.IsRecord a := by
  obtain ⟨id, _, hRead⟩ := fetchForEnrichment_ok hFetch
  obtain ⟨c, entry, hEntry, _, hRecord, _, rfl⟩ := fetch_record h.keyed h.pointers hRead
  obtain ⟨_, e, he, _, _, hEvent⟩ := h.event_of_entry hEntry hRecord
  exact ⟨e, he, hEvent⟩

theorem TaskStore.recorded_of_fetch (h : TaskStore known queued db)
    (hUnique : ∀ c ∈ known, ∀ d ∈ known, c.id = d.id → c = d) {e : FileAnalyse} (he : e ∈ known)
    {nameSpace : String} {a : Analysis}
    (hFetch : fetchFullByEntityId db nameSpace e.id = .ok a) : Recorded db e := by
  obtain ⟨c, entry, hEntry, hPointer, hRecord, hEntity, _⟩ :=
    fetch_record h.keyed h.pointers hFetch
  obtain ⟨b, d, hd, hRecord', hEvent, hPersisted⟩ := h.event_of_entry hEntry hRecord
  obtain rfl := hUnique d hd e he (hPersisted.entityId_eq.symm.trans hEntity)
  obtain ⟨p, hp, rfl⟩ := hRecord'
  rw [hEvent.mainKey_eq] at hPointer hEntry
  exact ⟨hPointer, b, p, hEvent, hp, db.get?_eq_some_iff.mpr hEntry⟩

end Store

/-! ## Runs -/

structure OrderState.Sound (s : OrderState) : Prop where
  store : TaskStore s.consumed s.queued s.repo.db
  unique : ∀ c ∈ s.consumed, ∀ d ∈ s.consumed, c.id = d.id → c = d
  merging : ∀ m ∈ s.merging, ∃ e ∈ s.consumed, e.IsRecord m
  flushes : ∀ f ∈ s.flushes, (ids f.events).Nodup ∧ (∀ item ∈ f.items, item.event ∈ s.consumed) ∧
    ∀ item ∈ f.todo, item ∈ f.items
  queued : ∀ e ∈ s.queued, e ∈ s.consumed
  claims : ∀ b ∈ s.claims, ∃ t : FileTask, ∃ e ∈ s.queued, t.id = e.id.text ∧
    b.writes = [(pendingKey t, none), (processingKey t, some (.task (toPbFileTask t)))]

section Steps

variable (parseMediaType : String → Option String)

/-- A task is committed only for an event whose analysis is in the store. -/
def RecordFirst (s : OrderState) : OrderAction → Prop
  | .enqueue i => ∀ f ∈ s.flushes[i]?, ∀ item ∈ f.todo.head?,
    (MIME.isAuthorized parseMediaType item.event.rawMimeType).isSome = true →
      item.enqueues = true → (fetchFullByEntityId s.repo.db "file-room" item.event.id).isOk = true
  | _ => True

instance (s : OrderState) (action : OrderAction) :
    Decidable (RecordFirst parseMediaType s action) := by
  cases action with
  | enqueue i => exact inferInstanceAs (Decidable (∀ f ∈ s.flushes[i]?, ∀ item ∈ f.todo.head?,
      _ → _ → _))
  | flush items => exact inferInstanceAs (Decidable True)
  | storeBatch i fault => exact inferInstanceAs (Decidable True)
  | claim c => exact inferInstanceAs (Decidable True)
  | commit i => exact inferInstanceAs (Decidable True)
  | fetch segment version => exact inferInstanceAs (Decidable True)
  | save i fault => exact inferInstanceAs (Decidable True)
  | foreign key value => exact inferInstanceAs (Decidable True)

/-- What every step leaves of the events that are queued or not settled. -/
structure OrderState.Next (s : OrderState) (action : OrderAction) (t : OrderState) : Prop where
  sound : t.Sound
  consumed : ∀ e ∈ s.consumed, e ∈ t.consumed
  touches : Touches t.consumed t.queued s.repo.db t.repo.db
  unsettled : ∀ e ∈ s.unsettled, e ∈ t.unsettled ∨ Recorded t.repo.db e
  queued : ∀ e ∈ t.queued, e ∈ s.queued ∨ e ∈ t.unsettled ∧
    (RecordFirst parseMediaType s action →
      (fetchFullByEntityId s.repo.db "file-room" e.id).isOk = true)

variable {parseMediaType} {marshalsTask : FileTaskPb → Bool} {marshals : AnalysisPb → Bool}
  {toLower : String → String}

/-- Steps of claims, merges and other repositories leave the events alone. -/
theorem OrderState.Sound.next_of_touches {s : OrderState} (h : s.Sound) (action : OrderAction)
    {repo : Repository} {claims : List (Body Key Value)} {merging : List Analysis}
    (hTouch : Touches s.consumed s.queued s.repo.db repo.db)
    (hMerging : ∀ m ∈ merging, ∃ e ∈ s.consumed, e.IsRecord m)
    (hClaims : ∀ b ∈ claims, ∃ t : FileTask, ∃ e ∈ s.queued, t.id = e.id.text ∧
      b.writes = [(pendingKey t, none), (processingKey t, some (.task (toPbFileTask t)))]) :
    s.Next parseMediaType action
      { s with repo := repo, claims := claims, merging := merging } where
  sound := ⟨h.store.touches hTouch, h.unique, hMerging, h.flushes, h.queued, hClaims⟩
  consumed _ he := he
  touches := hTouch
  unsettled _ he := .inl he
  queued _ he := .inl he

theorem OrderState.Sound.flush {s : OrderState} (h : s.Sound) {items : List BatchItem}
    (hAdmits : s.Admits (items.map BatchItem.event)) :
    s.Next parseMediaType (.flush items)
      { s with flushes := s.flushes ++ [{ items := items, todo := items }],
               consumed := s.consumed ++ items.map BatchItem.event } := by
  obtain ⟨hNodup, hSame⟩ := hAdmits
  have hOld : ∀ e ∈ s.consumed, e ∈ s.consumed ++ items.map BatchItem.event :=
    fun e he => List.mem_append_left _ he
  have hUnique : ∀ c ∈ s.consumed ++ items.map BatchItem.event,
      ∀ d ∈ s.consumed ++ items.map BatchItem.event, c.id = d.id → c = d := by
    intro c hc d hd hId
    obtain hc | hc := List.mem_append.mp hc
    · obtain hd | hd := List.mem_append.mp hd
      · exact h.unique c hc d hd hId
      · exact (hSame d hd c hc hId.symm).symm
    · obtain hd | hd := List.mem_append.mp hd
      · exact hSame c hc d hd hId
      · exact List.inj_on_of_nodup_map hNodup hc hd hId
  refine ⟨⟨h.store.mono hOld fun _ he => he, hUnique, ?_, ?_, ?_, h.claims⟩, hOld, .refl _,
    ?_, fun _ he => .inl he⟩
  · intro m hm
    obtain ⟨e, he, hRecord⟩ := h.merging m hm
    exact ⟨e, hOld e he, hRecord⟩
  · refine Bag.forall_mem_concat ?_ ⟨hNodup, ?_, fun _ hItem => hItem⟩
    · intro f hf
      obtain ⟨hIds, hItems, hTodo⟩ := h.flushes f hf
      exact ⟨hIds, fun item hItem => hOld _ (hItems item hItem), hTodo⟩
    · intro item hItem
      exact List.mem_append_right _ (List.mem_map_of_mem hItem)
  · intro e he
    exact hOld e (h.queued e he)
  · intro e he
    rw [OrderState.unsettled] at he ⊢
    rw [List.flatMap_append]
    obtain he | he := List.mem_append.mp he
    · exact .inl (List.mem_append_left _ (List.mem_append_left _ he))
    · exact .inl (List.mem_append_right _ he)

theorem enqueueItem_true {db : DB} {item : BatchItem}
    (h : (enqueueItem parseMediaType marshalsTask db item).2 = true) :
    ((MIME.isAuthorized parseMediaType item.event.rawMimeType).isSome = true ∧
      item.enqueues = true) ∧
      (enqueueItem parseMediaType marshalsTask db item).1 =
        foreignWrite db (pendingKey item.task) (some (.task (toPbFileTask item.task))) := by
  rw [enqueueItem] at h ⊢
  split at h
  · rename_i hMime
    rw [enqueueTask] at h ⊢
    split at h
    · rename_i hOk
      rw [Bool.and_eq_true] at hOk
      simp [hMime, hOk, foreignWrite]
    · cases h
  · cases h

theorem enqueueItem_false {db : DB} {item : BatchItem}
    (h : (enqueueItem parseMediaType marshalsTask db item).2 = false) :
    (enqueueItem parseMediaType marshalsTask db item).1 = db := by
  rw [enqueueItem] at h ⊢
  split at h
  · rw [enqueueTask] at h ⊢
    split at h
    · cases h
    · rename_i hFail
      simp [hFail]
  · rfl

theorem mem_events_set {flushes : List Flush} {i : Nat} {f g : Flush} (hf : flushes[i]? = some f)
    (hSame : g.events = f.events) {e : FileAnalyse} (he : e ∈ flushes.flatMap Flush.events) :
    e ∈ (flushes.set i g).flatMap Flush.events := by
  obtain ⟨d, hd, hEvent⟩ := List.mem_flatMap.mp he
  by_cases hd' : d = f
  · subst hd'
    have hNew : g ∈ flushes.set i g := by
      rw [List.mem_iff_getElem?]
      exact ⟨i, by rw [List.getElem?_set_self (List.getElem?_eq_some_iff.mp hf).1]⟩
    exact List.mem_flatMap.mpr ⟨g, hNew, hSame ▸ hEvent⟩
  · exact List.mem_flatMap.mpr ⟨d, Bag.mem_set_of_ne hf hd hd' g, hEvent⟩

theorem mem_unsettled_of_flush {s : OrderState} {f : Flush} (hf : f ∈ s.flushes)
    {e : FileAnalyse} (he : e ∈ f.events) : e ∈ s.unsettled :=
  List.mem_append_left _ (List.mem_flatMap.mpr ⟨f, hf, he⟩)

theorem mem_unsettled_set {s : OrderState} {i : Nat} {f : Flush} (g : Flush)
    (hf : s.flushes[i]? = some f) (hSame : g.events = f.events) {e : FileAnalyse}
    (he : e ∈ s.unsettled) :
    e ∈ (s.flushes.set i g).flatMap Flush.events ++ s.failed := by
  obtain he | he := List.mem_append.mp he
  · exact List.mem_append_left _ (mem_events_set hf hSame he)
  · exact List.mem_append_right _ he

theorem touches_enqueueItem {known queued : List FileAnalyse} {db : DB} {item : BatchItem}
    (h : (enqueueItem parseMediaType marshalsTask db item).2 = true) (hNew : item.event ∈ queued) :
    Touches known queued db (enqueueItem parseMediaType marshalsTask db item).1 := by
  rw [(enqueueItem_true h).2]
  refine .foreign (.refl _) (foreignKey_pendingKey _) ?_
  intro p hp
  cases hp
  exact ⟨item.event, hNew, rfl⟩

theorem OrderState.Sound.enqueue {s : OrderState} (h : s.Sound) {i : Nat} {f : Flush}
    (hf : s.flushes[i]? = some f) {item : BatchItem} {rest : List BatchItem}
    (hTodo : f.todo = item :: rest) :
    s.Next parseMediaType (.enqueue i)
      { s with
        repo := { s.repo with db := (enqueueItem parseMediaType marshalsTask s.repo.db item).1 },
        flushes := s.flushes.set i { f with todo := rest },
        queued := if (enqueueItem parseMediaType marshalsTask s.repo.db item).2
          then s.queued ++ [item.event] else s.queued } := by
  have hMem := List.mem_of_getElem? hf
  obtain ⟨hIds, hItems, hSub⟩ := h.flushes f hMem
  have hItem : item ∈ f.items := hSub item (by rw [hTodo]; exact List.mem_cons_self)
  have hFlush : (ids (Flush.events { f with todo := rest })).Nodup ∧
      (∀ item ∈ f.items, item.event ∈ s.consumed) ∧ ∀ item ∈ rest, item ∈ f.items := by
    refine ⟨hIds, hItems, ?_⟩
    intro other hOther
    exact hSub other (by rw [hTodo]; exact List.mem_cons_of_mem _ hOther)
  have hFlushes : ∀ g ∈ s.flushes.set i { f with todo := rest }, (ids g.events).Nodup ∧
      (∀ item ∈ g.items, item.event ∈ s.consumed) ∧ ∀ item ∈ g.todo, item ∈ g.items :=
    Bag.forall_mem_set h.flushes hFlush i
  have hUnsettled : ∀ e ∈ s.unsettled,
      e ∈ (s.flushes.set i { f with todo := rest }).flatMap Flush.events ++ s.failed :=
    fun e he => mem_unsettled_set { f with todo := rest } hf rfl he
  cases hQueued : (enqueueItem parseMediaType marshalsTask s.repo.db item).2 with
  | false =>
    rw [enqueueItem_false hQueued]
    exact ⟨⟨h.store, h.unique, h.merging, hFlushes, h.queued, h.claims⟩, fun _ he => he,
      .refl _, fun e he => .inl (hUnsettled e he), fun _ he => .inl he⟩
  | true =>
    obtain ⟨⟨hMime, hCommits⟩, _⟩ := enqueueItem_true hQueued
    have hMore : ∀ e ∈ s.queued, e ∈ s.queued ++ [item.event] :=
      fun e he => List.mem_append_left _ he
    have hTouch : Touches s.consumed (s.queued ++ [item.event]) s.repo.db
        (enqueueItem parseMediaType marshalsTask s.repo.db item).1 :=
      touches_enqueueItem hQueued (List.mem_append_right _ (List.mem_singleton_self _))
    refine ⟨⟨(h.store.mono (fun _ he => he) hMore).touches hTouch, h.unique, h.merging, hFlushes,
      ?_, ?_⟩, fun _ he => he, hTouch, fun e he => .inl (hUnsettled e he), ?_⟩
    · exact Bag.forall_mem_concat h.queued (hItems item hItem)
    · intro b hb
      obtain ⟨t, e, he, hWrites⟩ := h.claims b hb
      exact ⟨t, e, hMore e he, hWrites⟩
    · refine Bag.forall_mem_concat (fun e he => .inl he) (.inr ⟨?_, ?_⟩)
      · exact hUnsettled _ (mem_unsettled_of_flush hMem (List.mem_map_of_mem hItem))
      · intro hFirst
        refine hFirst f hf item ?_ hMime hCommits
        rw [hTodo]
        rfl

theorem unsettled_eraseIdx {s : OrderState} {i : Nat} {f : Flush} (hf : s.flushes[i]? = some f)
    {e : FileAnalyse} (he : e ∈ s.unsettled) :
    e ∈ (s.flushes.eraseIdx i).flatMap Flush.events ++ s.failed ∨ e ∈ f.events := by
  obtain he | he := List.mem_append.mp he
  · obtain ⟨g, hg, hEvent⟩ := List.mem_flatMap.mp he
    by_cases hSame : g = f
    · exact .inr (hSame ▸ hEvent)
    · exact .inl (List.mem_append_left _
        (List.mem_flatMap.mpr ⟨g, Bag.mem_eraseIdx_of_ne hf hg hSame, hEvent⟩))
  · exact .inl (List.mem_append_right _ he)

theorem OrderState.Sound.finish {s : OrderState} (h : s.Sound) {i : Nat} (fault : Fault)
    {f : Flush} (hf : s.flushes[i]? = some f) {repo : Repository} {failed : List FileAnalyse}
    (hTouch : Touches s.consumed s.queued s.repo.db repo.db)
    (hFailed : ∀ e ∈ s.failed, e ∈ failed)
    (hEvents : ∀ e ∈ f.events, e ∈ failed ∨ Recorded repo.db e) :
    s.Next parseMediaType (.storeBatch i fault)
      { s with repo := repo, flushes := s.flushes.eraseIdx i, failed := failed } where
  sound :=
    ⟨h.store.touches hTouch, h.unique, h.merging,
      fun g hg => h.flushes g (List.mem_of_mem_eraseIdx hg), h.queued, h.claims⟩
  consumed _ he := he
  touches := hTouch
  unsettled := by
    intro e he
    obtain he | he := unsettled_eraseIdx hf he
    · obtain he | he := List.mem_append.mp he
      · exact .inl (List.mem_append_left _ he)
      · exact .inl (List.mem_append_right _ (hFailed e he))
    · exact (hEvents e he).imp (List.mem_append_right _) id
  queued _ he := .inl he

theorem touches_storeBatch {known queued : List FileAnalyse} {items : List BatchItem}
    (hItems : ∀ item ∈ items, item.event ∈ known) (repo : Repository) (fault : Fault) :
    Touches known queued repo.db
      (Storage.storeBatch marshals toLower repo (items.map BatchItem.base) fault).1.db := by
  obtain ⟨ws, hws, hdb⟩ := storeBatch_db marshals toLower repo (items.map BatchItem.base) fault
  rw [hdb]
  refine .analyses hws ?_
  intro a ha
  obtain ⟨item, hItem, rfl⟩ := List.mem_map.mp ha
  exact ⟨item.event, hItems item hItem, item.isRecord_base⟩

theorem recorded_storeBatch {f : Flush} (hNodup : (ids f.events).Nodup) {repo repo' : Repository}
    {fault : Fault}
    (h : Storage.storeBatch marshals toLower repo (f.items.map BatchItem.base) fault =
      (repo', .ok ())) {e : FileAnalyse} (he : e ∈ f.events) : Recorded repo'.db e := by
  obtain ⟨item, hItem, rfl⟩ := List.mem_map.mp he
  have hOk : (Storage.storeBatch marshals toLower repo (f.items.map BatchItem.base) fault).2 =
      .ok () := by rw [h]
  obtain ⟨sets, hPrepare, hSets⟩ := storeBatch_ok marshals toLower hOk
  rw [Flush.events, ids, List.map_map] at hNodup
  rw [h] at hSets
  rw [hSets]
  exact recorded_prepareBatch hPrepare hNodup _ item hItem

theorem OrderState.Sound.storeBatch {s t : OrderState} (h : s.Sound) {i : Nat} {fault : Fault}
    (hStep : orderStep parseMediaType marshalsTask marshals toLower s (.storeBatch i fault) =
      some t) : s.Next parseMediaType (.storeBatch i fault) t := by
  simp only [orderStep] at hStep
  split at hStep
  · cases hStep
  · rename_i f hf
    obtain ⟨hNodup, hItems, _⟩ := h.flushes f (List.mem_of_getElem? hf)
    split at hStep
    · cases hStep
    · rw [mapM_analysis] at hStep
      dsimp only at hStep
      split at hStep
      · rename_i hEmpty
        cases hStep
        have hNone : f.events = [] := by
          rw [Flush.events, List.map_eq_nil_iff.mp hEmpty, List.map_nil]
        refine h.finish fault hf (.refl _) (fun _ he => he) ?_
        intro e he
        rw [hNone] at he
        cases he
      · have hTouch : Touches s.consumed s.queued s.repo.db
            (Storage.storeBatch marshals toLower s.repo (f.items.map BatchItem.base) fault).1.db :=
          touches_storeBatch hItems s.repo fault
        split at hStep
        · rename_i repo hStore
          cases hStep
          rw [hStore] at hTouch
          refine h.finish fault hf hTouch (fun _ he => he) ?_
          intro e he
          exact .inr (recorded_storeBatch hNodup hStore he)
        · rename_i repo err hStore
          cases hStep
          rw [hStore] at hTouch
          refine h.finish fault hf hTouch (fun e he => List.mem_append_left _ he) ?_
          exact fun e he => .inl (List.mem_append_right _ he)

theorem touches_claim {known queued : List FileAnalyse} {task : FileTask} {e : FileAnalyse}
    (he : e ∈ queued) (hId : task.id = e.id.text) (db : DB) :
    Touches known queued db (applyWrites db
      [(pendingKey task, none), (processingKey task, some (.task (toPbFileTask task)))]) := by
  have hErased : Touches known queued db (foreignWrite db (pendingKey task) none) :=
    .foreign (.refl _) (foreignKey_pendingKey task) (by simp)
  have hTask : ∀ p, some (Value.task (toPbFileTask task)) = some (.task p) →
      ∃ e ∈ queued, p.id = e.id.text := by
    intro p hp
    cases hp
    exact ⟨e, he, hId⟩
  exact .foreign hErased (foreignKey_processingKey task) hTask

theorem orderStep_next {s t : OrderState} (h : s.Sound) {action : OrderAction}
    (hStep : orderStep parseMediaType marshalsTask marshals toLower s action = some t) :
    s.Next parseMediaType action t := by
  cases action with
  | flush items =>
    simp only [orderStep] at hStep
    split at hStep
    · cases hStep
      exact h.flush ‹_›
    · cases hStep
  | enqueue i =>
    simp only [orderStep] at hStep
    split at hStep
    · cases hStep
    · rename_i f hf
      split at hStep
      · cases hStep
      · rename_i item rest hTodo
        cases hStep
        exact h.enqueue hf hTodo
  | storeBatch i fault => exact h.storeBatch hStep
  | claim c =>
    simp only [orderStep] at hStep
    split at hStep
    · rename_i hQueued
      split at hStep
      · cases hStep
        exact h.next_of_touches _ (.refl _) h.merging h.claims
      · rename_i body hBody
        cases hStep
        refine h.next_of_touches _ (.refl _) h.merging (Bag.forall_mem_concat h.claims ?_)
        obtain ⟨e, he, hId⟩ := List.mem_map.mp hQueued
        obtain ⟨rfl, _⟩ := markAsProcessing_ok hBody
        exact ⟨c.task, e, he, hId.symm, rfl⟩
    · cases hStep
  | commit i =>
    simp only [orderStep] at hStep
    split at hStep
    · cases hStep
    · rename_i body hBody
      cases hStep
      obtain ⟨task, e, he, hId, hWrites⟩ := h.claims body (List.mem_of_getElem? hBody)
      refine h.next_of_touches _ ?_ h.merging
        fun b hb => h.claims b (List.mem_of_mem_eraseIdx hb)
      rw [hWrites]
      exact touches_claim he hId s.repo.db
  | fetch segment version =>
    simp only [orderStep] at hStep
    split at hStep
    · cases hStep
      exact h.next_of_touches _ (.refl _) h.merging h.claims
    · rename_i a ha
      cases hStep
      refine h.next_of_touches _ (.refl _) (Bag.forall_mem_concat h.merging ?_) h.claims
      obtain ⟨e, he, hRecord⟩ := h.store.fetch ha
      exact ⟨e, he, hRecord.enrich segment version⟩
  | save i fault =>
    simp only [orderStep] at hStep
    split at hStep
    · cases hStep
    · rename_i m hm
      cases hStep
      obtain ⟨e, he, hRecord⟩ := h.merging m (List.mem_of_getElem? hm)
      obtain ⟨ws, hws, hdb⟩ := saveEnriched_db marshals toLower s.repo m fault
      refine h.next_of_touches _ ?_ (fun m' hm' => h.merging m' (List.mem_of_mem_eraseIdx hm'))
        h.claims
      rw [hdb]
      exact .analyses hws (by simpa using ⟨e, he, hRecord⟩)
  | foreign key value =>
    simp only [orderStep] at hStep
    split at hStep
    · rename_i hForeign
      cases hStep
      rw [Bool.and_eq_true, Bool.not_eq_true'] at hForeign
      refine h.next_of_touches _ (.foreign (.refl _) hForeign.1 ?_) h.merging h.claims
      rintro p rfl
      simp [isTask] at hForeign
    · cases hStep

theorem order_sound_of_reachable {s : OrderState}
    (h : (orderMachine parseMediaType marshalsTask marshals toLower).Reachable s) : s.Sound := by
  refine Machine.Reachable.invariant (I := OrderState.Sound) ⟨⟨?_, ?_, ?_⟩, ?_, ?_, ?_, ?_, ?_⟩
    (fun _ _ _ hs hStep => (orderStep_next hs hStep).sound) h
  · intro entry hEntry
    cases hEntry
  · intro id v hv
    cases hv
  · intro k p hGet
    cases hGet
  · intro c hc
    cases hc
  · intro m hm
    cases hm
  · intro f hf
    cases hf
  · intro e he
    cases he
  · intro b hb
    cases hb

/-- A task in the store has the analysis of its file there too. -/
def HasRecord (db : DB) (p : FileTaskPb) : Prop :=
  ∃ id a, p.id = UUID.text id ∧ fetchFullByEntityId db "file-room" id = .ok a ∧ a.entityId = id

theorem Recorded.hasRecord {db : DB} {e : FileAnalyse} (h : Recorded db e) {p : FileTaskPb}
    (hId : p.id = e.id.text) : HasRecord db p := by
  obtain ⟨a, ha, hFetch⟩ := h.fetch
  refine ⟨e.id, a, hId, ?_, ha.entityId_eq⟩
  rw [hFetch, if_pos rfl]

def OrderState.TasksRecorded (s : OrderState) : Prop :=
  ∀ k p, s.repo.db.get? k = some (.task p) → HasRecord s.repo.db p

theorem OrderState.Next.recorded {s t : OrderState} {action : OrderAction}
    (h : s.Next parseMediaType action t) {e : FileAnalyse} (he : e ∈ t.queued)
    (hRecorded : Recorded s.repo.db e) : Recorded t.repo.db e :=
  hRecorded.touches (h.sound.queued e he) h.sound.unique h.touches

theorem OrderState.Next.recorded_of_fetch {s t : OrderState} (hs : s.Sound) {action : OrderAction}
    (h : s.Next parseMediaType action t) {e : FileAnalyse} (he : e ∈ t.queued)
    (hFetch : (fetchFullByEntityId s.repo.db "file-room" e.id).isOk = true) :
    Recorded t.repo.db e := by
  cases hRead : fetchFullByEntityId s.repo.db "file-room" e.id with
  | error err =>
    rw [hRead] at hFetch
    cases hFetch
  | ok a =>
    have hStore := hs.store.mono h.consumed fun _ hq => hq
    exact h.recorded he
      (hStore.recorded_of_fetch h.sound.unique (h.sound.queued e he) hRead)

theorem queued_recorded {s : OrderState}
    (h : (orderMachine parseMediaType marshalsTask marshals toLower).Reaches
      (RecordFirst parseMediaType) s) : ∀ e ∈ s.queued, Recorded s.repo.db e := by
  refine (Machine.Reaches.invariant
    (I := fun s => s.Sound ∧ ∀ e ∈ s.queued, Recorded s.repo.db e) ⟨?_, ?_⟩ ?_ h).2
  · exact order_sound_of_reachable .start
  · intro e he
    cases he
  · rintro s action t ⟨hs, hAll⟩ hFirst hStep
    have hNext := orderStep_next hs hStep
    refine ⟨hNext.sound, ?_⟩
    intro e he
    obtain hOld | ⟨_, hFetch⟩ := hNext.queued e he
    · exact hNext.recorded he (hAll e hOld)
    · exact hNext.recorded_of_fetch hs he (hFetch hFirst)

theorem queued_settles {s : OrderState}
    (h : (orderMachine parseMediaType marshalsTask marshals toLower).Reachable s) :
    ∀ e ∈ s.queued, Recorded s.repo.db e ∨ e ∈ s.unsettled := by
  refine (Machine.Reachable.invariant
    (I := fun s => s.Sound ∧ ∀ e ∈ s.queued, Recorded s.repo.db e ∨ e ∈ s.unsettled)
    ⟨?_, ?_⟩ ?_ h).2
  · exact order_sound_of_reachable .start
  · intro e he
    cases he
  · rintro s action t ⟨hs, hAll⟩ hStep
    have hNext := orderStep_next hs hStep
    refine ⟨hNext.sound, ?_⟩
    intro e he
    obtain hOld | ⟨hNew, _⟩ := hNext.queued e he
    · obtain hRecorded | hUnsettled := hAll e hOld
      · exact .inl (hNext.recorded he hRecorded)
      · exact (hNext.unsettled e hUnsettled).symm
    · exact .inr hNew

end Steps

/-! ## One flush -/

section Uninterrupted

variable (parseMediaType : String → Option String) (marshalsTask : FileTaskPb → Bool)
  (marshals : AnalysisPb → Bool) (toLower : String → String)

theorem enqueueTasks_cons (db : DB) (item : BatchItem) (items : List BatchItem) :
    enqueueTasks parseMediaType marshalsTask db (item :: items) =
      enqueueTasks parseMediaType marshalsTask
        (enqueueItem parseMediaType marshalsTask db item).1 items := by
  rw [enqueueTasks, List.foldl_cons, enqueueItem]
  cases MIME.isAuthorized parseMediaType item.event.rawMimeType with
  | none => rfl
  | some m => rfl

theorem exec_enqueues (items todo : List BatchItem) (fault : Fault) {s : OrderState}
    (hFlush : s.flushes = [{ items := items, todo := todo }]) :
    ∃ t, (orderMachine parseMediaType marshalsTask marshals toLower).exec s
        (List.replicate todo.length (OrderAction.enqueue 0) ++ [OrderAction.storeBatch 0 fault]) =
          some t ∧
      t.repo =
        let queued := { s.repo with db := enqueueTasks parseMediaType marshalsTask s.repo.db todo }
        if items.map BatchItem.base = [] then queued
        else (storeBatch marshals toLower queued (items.map BatchItem.base) fault).1 := by
  induction todo generalizing s with
  | nil =>
    have hGet : s.flushes[0]? = some { items := items, todo := [] } := by rw [hFlush]; rfl
    have hDone : enqueueTasks parseMediaType marshalsTask s.repo.db [] = s.repo.db := rfl
    simp only [List.length_nil, List.replicate_zero, List.nil_append, Machine.exec, orderMachine,
      orderStep, hGet, mapM_analysis, hDone]
    split
    · exact ⟨_, rfl, rfl⟩
    · cases hStore : storeBatch marshals toLower s.repo (items.map BatchItem.base) fault with
      | mk repo result =>
        cases result with
        | ok u => exact ⟨_, rfl, rfl⟩
        | error e => exact ⟨_, rfl, rfl⟩
  | cons item todo ih =>
    have hGet : s.flushes[0]? = some { items := items, todo := item :: todo } := by rw [hFlush]; rfl
    rw [List.length_cons, List.replicate_succ, List.cons_append, Machine.exec]
    simp only [orderMachine, orderStep, hGet, Option.bind_some]
    rw [enqueueTasks_cons]
    refine ih ?_
    rw [hFlush]
    rfl

/-- A flush that nothing interrupts is `processAndStore`. -/
theorem exec_flush {s : OrderState} (hIdle : s.flushes = []) {items : List BatchItem}
    (hAdmits : s.Admits (items.map BatchItem.event)) (fault : Fault) :
    ∃ t, (orderMachine parseMediaType marshalsTask marshals toLower).exec s
        (.flush items :: (List.replicate items.length (OrderAction.enqueue 0) ++
          [OrderAction.storeBatch 0 fault])) = some t ∧
      t.repo =
        (processAndStore parseMediaType marshalsTask marshals toLower s.repo items fault).1 := by
  rw [Machine.exec]
  simp only [orderMachine, orderStep, if_pos hAdmits, Option.bind_some]
  obtain ⟨t, hRun, hRepo⟩ := exec_enqueues parseMediaType marshalsTask marshals toLower
    items items fault
    (s := { s with flushes := s.flushes ++ [{ items := items, todo := items }],
                   consumed := s.consumed ++ items.map BatchItem.event }) (by rw [hIdle]; rfl)
  refine ⟨t, hRun, ?_⟩
  rw [hRepo, processAndStore, mapM_analysis]
  dsimp only
  split <;> rfl

end Uninterrupted

/-! ## A task before its record -/

abbrev taskMachine : Machine OrderState OrderAction :=
  orderMachine some (fun _ => true) (fun _ => true) id

def sampleItem (enqueues : Bool) : BatchItem :=
  { event := { sampleEvent "file-room" with rawMimeType := "application/pdf" }, version := UUID.nil,
    now := 6, enqueues := enqueues }

/-- The event is stored first, and its task is queued when it comes again. -/
def storedFirst : List OrderAction :=
  [.flush [sampleItem false], .enqueue 0, .storeBatch 0 .none, .flush [sampleItem true], .enqueue 0]

end ChatLab.Sink
