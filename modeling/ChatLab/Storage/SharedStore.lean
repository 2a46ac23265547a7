import ChatLab.Foundation.Interleaving
import ChatLab.Storage.AnalysisSearch
import ChatLab.Storage.MessagePages
import ChatLab.Storage.TaskQueue

/-!
# Repositories on one store

The master opens one Badger store and gives it to all of its repositories. They
keep to keys of their own, but their iterators run over the whole store, and the
index of the analyses holds keys that are followed without a look at them. The
iterator of the messages even reads values of others into the buffers that it
has handed out, when it cannot read all entries below its key ahead. Calls run
one after the other here. The users are among the others: all that matters of
them is where they write.
-/

namespace ChatLab.Storage.SharedStore

open Foundation Foundation.Interleaving Foundation.Pagination Foundation.Transactions

inductive Component
  | messages | analyses | tasks | others
deriving DecidableEq

namespace Component

/-- The stems of the keys of a component. -/
def stems : Component → List Key
  | messages => [messageStem]
  | analyses => [analysisStem, indexStem]
  | tasks => [workStem]
  | others => []

def owns (c : Component) (k : Key) : Bool :=
  match c with
  | others => [messages, analyses, tasks].all fun d => !d.stems.any fun stem => stem.isPrefixOf k
  | c => c.stems.any fun stem => stem.isPrefixOf k

end Component

/-- The settings of the repositories. -/
structure Settings where
  wire : Wire
  marshalsAnalysis : AnalysisPb → Bool
  marshalsTask : FileTaskPb → Bool
  toLower : String → String
  engine : Bluge
  limitMessages : Option Int
  badgerLimit : Option Int
  blugeLimit : Nat

inductive Operation
  | storeMessage (m : DiskMessage)
  | getMessages (room : Int) (cursor : Option Key)
  | store (a : Analysis) (fault : Fault)
  | storeBatch (analyses : List Analysis) (fault : Fault)
  | scanAnalysesByRoom (nameSpace : String) (cursor : Option Key)
  | fetchFullByEntityId (nameSpace : String) (entityId : UUID)
  | searchPaginated (query nameSpace : String) (offset : Nat) (outcome : SearchOutcome)
  | searchByScoreRange (scoreName : String) (min max : Float64) (nameSpace : String)
      (outcome : SearchOutcome)
  | enqueueTask (t : FileTask) (committed : Bool)
  | getNextBatch (limit : Int)
  | markAsProcessing (c : TaskClaim) (committed : Bool)
  | foreign (key : Key) (value : Option Value)

inductive Answer
  | storeMessage (e : Except RepositoryError Unit)
  | getMessages (page : Except RepositoryError (List DiskMessage × Key))
  | store (e : Except AnalysisError Unit)
  | scan (page : Except AnalysisError (List Analysis × Option Key))
  | fetch (a : Except AnalysisError Analysis)
  | search (found : List Analysis × Nat × Option SearchError)
  | enqueueTask (ok : Bool)
  | getNextBatch (tasks : Except BatchError (List FileTask))
  | markAsProcessing (e : Except (TxnError TaskError) Unit)
  | foreign

def owner : Operation → Component
  | .storeMessage _ => .messages
  | .getMessages _ _ => .messages
  | .store _ _ => .analyses
  | .storeBatch _ _ => .analyses
  | .scanAnalysesByRoom _ _ => .analyses
  | .fetchFullByEntityId _ _ => .analyses
  | .searchPaginated _ _ _ _ => .analyses
  | .searchByScoreRange _ _ _ _ _ => .analyses
  | .enqueueTask _ _ => .tasks
  | .getNextBatch _ => .tasks
  | .markAsProcessing _ _ => .tasks
  | .foreign _ _ => .others

def run (c : Settings) (o : Operation) (s : Repository) : Repository × Answer :=
  match o with
  | .storeMessage m =>
    match storeMessage c.wire.marshals s.db m with
    | .ok db => ({ s with db := db }, .storeMessage (.ok ()))
    | .error e => (s, .storeMessage (.error e))
  | .getMessages room cursor =>
    (s, .getMessages (getMessages c.wire c.limitMessages s.db room cursor))
  | .store a fault =>
    let (s, e) := store c.marshalsAnalysis c.toLower s a fault
    (s, .store e)
  | .storeBatch analyses fault =>
    let (s, e) := storeBatch c.marshalsAnalysis c.toLower s analyses fault
    (s, .store e)
  | .scanAnalysesByRoom nameSpace cursor =>
    (s, .scan (scanAnalysesByRoom c.badgerLimit s.db nameSpace cursor))
  | .fetchFullByEntityId nameSpace entityId =>
    (s, .fetch (fetchFullByEntityId s.db nameSpace entityId))
  | .searchPaginated query nameSpace offset outcome =>
    (s, .search (searchPaginated c.engine c.blugeLimit s query nameSpace offset outcome))
  | .searchByScoreRange scoreName min max nameSpace outcome =>
    (s, .search (searchByScoreRange c.engine c.toLower c.blugeLimit s scoreName min max nameSpace
      outcome))
  | .enqueueTask t committed =>
    let (db, ok) := enqueueTask c.marshalsTask s.db t committed
    ({ s with db := db }, .enqueueTask ok)
  | .getNextBatch limit => (s, .getNextBatch (getNextBatch s.db limit))
  | .markAsProcessing claim committed =>
    let (db, e) := markTask c.marshalsTask s.db claim committed
    ({ s with db := db }, .markAsProcessing e)
  | .foreign key value =>
    if Component.others.owns key then ({ s with db := foreignWrite s.db key value }, .foreign)
    else (s, .foreign)

/-- The iterator of the messages reads all entries below its key ahead. The other
operations decode a value before they leave its item. -/
def ReadsAhead : Operation → Repository → Prop
  | .getMessages room cursor, s => Prefetched s.db room cursor
  | _, _ => True

/-- What a component can see of the stores. -/
def view (c : Component) (s : Repository) :
    (Key → Option Value) × Option (OrderedMap String Document) :=
  (fun k => if c.owns k then s.db.get? k else none,
    if c = .analyses then some s.documents else none)

/-! ## Keys -/

/-- The stems of different components differ in their first letter. -/
def ofFirst : Option Char → Component
  | some 'm' => .messages
  | some 'a' => .analyses
  | some 'i' => .analyses
  | some 'w' => .tasks
  | _ => .others

theorem ofFirst_stems (c : Component) : ∀ stem ∈ c.stems, stem ≠ [] ∧ ofFirst stem.head? = c := by
  cases c <;> decide

theorem ofFirst_of_stem {c : Component} {stem k : Key} (hStem : stem ∈ c.stems)
    (h : stem.isPrefixOf k = true) : ofFirst k.head? = c := by
  obtain ⟨rest, rfl⟩ := List.isPrefixOf_iff_prefix.mp h
  obtain ⟨hSome, hFirst⟩ := ofFirst_stems c stem hStem
  rw [List.head?_append_of_ne_nil _ hSome]
  exact hFirst

theorem owns_of_stem {c : Component} (stem : Key) {k : Key} (hStem : stem ∈ c.stems)
    (h : stem.isPrefixOf k = true) : c.owns k = true := by
  cases c with
  | others => cases hStem
  | _ => exact List.any_eq_true.mpr ⟨stem, hStem, h⟩

theorem exists_stem_of_owns {c : Component} {k : Key} (hc : c ≠ .others) (h : c.owns k = true) :
    ∃ stem ∈ c.stems, stem.isPrefixOf k = true := by
  cases c with
  | others => exact absurd rfl hc
  | _ => exact List.any_eq_true.mp h

theorem not_owns_others {c : Component} {stem k : Key} (hStem : stem ∈ c.stems)
    (h : stem.isPrefixOf k = true) : Component.others.owns k = false := by
  rw [Component.owns, List.all_eq_false]
  refine ⟨c, ?_, ?_⟩
  · cases c with
    | others => cases hStem
    | _ => decide
  · rw [List.any_eq_true.mpr ⟨stem, hStem, h⟩]
    decide

theorem owns_unique {c d : Component} {k : Key} (hc : c.owns k = true) (hd : d.owns k = true) :
    c = d := by
  by_cases hOthers : c = .others
  · by_cases hBoth : d = .others
    · exact hOthers.trans hBoth.symm
    · obtain ⟨stem, hStem, h⟩ := exists_stem_of_owns hBoth hd
      rw [hOthers, not_owns_others hStem h] at hc
      cases hc
  · obtain ⟨stem, hStem, h⟩ := exists_stem_of_owns hOthers hc
    by_cases hBoth : d = .others
    · rw [hBoth, not_owns_others hStem h] at hd
      cases hd
    · obtain ⟨stem', hStem', h'⟩ := exists_stem_of_owns hBoth hd
      exact (ofFirst_of_stem hStem h).symm.trans (ofFirst_of_stem hStem' h')

theorem workStem_of_pendingStem {k : Key} (h : pendingStem.isPrefixOf k = true) :
    workStem.isPrefixOf k = true :=
  List.isPrefixOf_iff_prefix.mpr
    ((show workStem <+: pendingStem by decide).trans (List.isPrefixOf_iff_prefix.mp h))

/-! ## Views -/

/-- Two stores look the same to a component. -/
structure Alike (c : Component) (s t : Repository) : Prop where
  db : ∀ k, c.owns k = true → s.db.get? k = t.db.get? k
  documents : c = .analyses → s.documents = t.documents

theorem view_eq_iff {c : Component} {s t : Repository} : view c s = view c t ↔ Alike c s t := by
  rw [view, view, Prod.mk.injEq]
  constructor
  · rintro ⟨hDb, hDocuments⟩
    refine ⟨fun k hk => ?_, fun hc => ?_⟩
    · have hKey := congrFun hDb k
      rwa [if_pos hk, if_pos hk] at hKey
    · rw [if_pos hc, if_pos hc] at hDocuments
      exact Option.some.inj hDocuments
  · intro h
    refine ⟨funext fun k => ?_, ?_⟩
    · split
      · exact h.db k ‹_›
      · rfl
    · split
      · exact congrArg some (h.documents ‹_›)
      · rfl

/-- The entries of the index lead to analyses. -/
def PointersInside (s : Repository) : Prop :=
  ∀ k mainKey, indexStem.isPrefixOf k = true → s.db.get? k = some (.pointer mainKey) →
    analysisStem.isPrefixOf mainKey = true

/-! ## Reading under a stem -/

theorem takeWhile_reverseIterator (db : DB) (stem : Key) (cursor : Option Key) :
    ((reverseIterator db stem cursor).takeWhile fun e => stem.isPrefixOf e.1) =
      match cursor with
      | none => scanFrom db stem lastTimestamp
      | some c => (scanFrom db stem c).tail := by
  cases cursor with
  | none => rfl
  | some c =>
    dsimp only
    rw [reverseIterator, scanFrom, seekKey]
    cases hIt : db.descendingFrom (stem ++ c) with
    | nil => rfl
    | cons e rest =>
      cases hHead : stem.isPrefixOf e.1 with
      | true => simp [validForPrefix, hHead]
      | false => simp [validForPrefix, hHead]

theorem scanFrom_congr {db db' : DB} {stem : Key}
    (h : ∀ k, stem.isPrefixOf k = true → db.get? k = db'.get? k) (target : Key) :
    scanFrom db stem target = scanFrom db' stem target := by
  rw [scanFrom_eq, scanFrom_eq, OrderedMap.filter_entries_congr (m := db) (n := db')
    (p := fun k => stem.isPrefixOf k && decide (k ≤ stem ++ target))]
  intro k hk
  rw [Bool.and_eq_true] at hk
  exact h k hk.1

/-- The part of an iterator under its stem does not see the rest of the store. -/
theorem reverseIterator_congr {db db' : DB} {stem : Key}
    (h : ∀ k, stem.isPrefixOf k = true → db.get? k = db'.get? k) (cursor : Option Key) :
    ((reverseIterator db stem cursor).takeWhile fun e => stem.isPrefixOf e.1) =
      (reverseIterator db' stem cursor).takeWhile fun e => stem.isPrefixOf e.1 := by
  rw [takeWhile_reverseIterator, takeWhile_reverseIterator]
  cases cursor with
  | none => exact scanFrom_congr h _
  | some c => exact congrArg List.tail (scanFrom_congr h c)

theorem collectAnalyses_takeWhile (limit : Option Int) (stem : Key) (it : List (Key × Value))
    (acc : List Analysis) (lastKey : Key) :
    collectAnalyses limit stem it acc lastKey =
      collectAnalyses limit stem (it.takeWhile fun e => stem.isPrefixOf e.1) acc lastKey := by
  induction it generalizing acc lastKey with
  | nil => rfl
  | cons e it ih =>
    cases hHead : stem.isPrefixOf e.1 with
    | true => simp only [List.takeWhile_cons, collectAnalyses, hHead, if_true, ih]
    | false => simp only [List.takeWhile_cons, collectAnalyses, hHead, Bool.false_eq_true, if_false]

theorem collectTasks_takeWhile (limit : Int) (it : List (Key × Value)) (acc : List FileTask) :
    collectTasks limit it acc =
      collectTasks limit (it.takeWhile fun e => pendingStem.isPrefixOf e.1) acc := by
  induction it generalizing acc with
  | nil => rfl
  | cons e it ih =>
    cases hHead : pendingStem.isPrefixOf e.1 with
    | true => simp only [List.takeWhile_cons, collectTasks, hHead, if_true, ih]
    | false =>
      simp only [List.takeWhile_cons, collectTasks, hHead, Bool.false_and, Bool.false_eq_true,
        if_false]

section Reads

variable {s t : Repository}

theorem getMessages_congr (h : Alike .messages s t) {room : Int} {cursor : Option Key}
    (hs : Prefetched s.db room cursor) (ht : Prefetched t.db room cursor) (wire : Wire)
    (limit : Option Int) :
    getMessages wire limit s.db room cursor = getMessages wire limit t.db room cursor := by
  have hStem : ∀ k, (roomStem room).isPrefixOf k = true → s.db.get? k = t.db.get? k := fun k hk =>
    h.db k (owns_of_stem messageStem (by decide) (messageStem_of_roomScope hk))
  have hPage : pageEntries limit s.db room cursor = pageEntries limit t.db room cursor :=
    congrArg (takeLimit (pageLimit limit)) (reverseIterator_congr hStem cursor)
  rw [getMessages, getMessages, readMessages_of_prefetched hs, readMessages_of_prefetched ht, hPage]

theorem scanAnalysesByRoom_congr (h : Alike .analyses s t) (limit : Option Int) (nameSpace : String)
    (cursor : Option Key) :
    scanAnalysesByRoom limit s.db nameSpace cursor =
      scanAnalysesByRoom limit t.db nameSpace cursor := by
  have hStem : ∀ k, (namespaceStem nameSpace).isPrefixOf k = true → s.db.get? k = t.db.get? k :=
    fun k hk =>
      h.db k (owns_of_stem analysisStem (by decide) (analysisStem_of_namespaceStem hk))
  rw [scanAnalysesByRoom, scanAnalysesByRoom, collectAnalyses_takeWhile,
    reverseIterator_congr hStem, ← collectAnalyses_takeWhile]

theorem fetchFullByEntityId_congr (h : Alike .analyses s t) (hInside : PointersInside s)
    (nameSpace : String) (entityId : UUID) :
    fetchFullByEntityId s.db nameSpace entityId = fetchFullByEntityId t.db nameSpace entityId := by
  have hIndex : indexStem.isPrefixOf (indexKey entityId) = true :=
    List.isPrefixOf_iff_prefix.mpr (List.prefix_append _ _)
  have hSame := h.db _ (owns_of_stem indexStem (by decide) hIndex)
  rw [fetchFullByEntityId, fetchFullByEntityId, ← hSame]
  split
  · rename_i mainKey hPointer
    have hMain := h.db mainKey
      (owns_of_stem analysisStem (by decide) (hInside _ _ hIndex hPointer))
    rw [hMain]
  · rfl
  · rfl

theorem hydrate_congr (h : Alike .analyses s t) (hInside : PointersInside s) (nameSpace : String)
    (unreadable hits : List String) (results : List Analysis) :
    hydrate s.db nameSpace unreadable hits results =
      hydrate t.db nameSpace unreadable hits results := by
  induction hits generalizing results with
  | nil => rfl
  | cons idStr hits ih => simp only [hydrate, ih, fetchFullByEntityId_congr h hInside]

theorem searchAndHydrate_congr (h : Alike .analyses s t) (hInside : PointersInside s)
    (engine : Bluge) (request : TopNSearch) (query : BlugeQuery) (nameSpace : String)
    (outcome : SearchOutcome) :
    searchAndHydrate engine s request query nameSpace outcome =
      searchAndHydrate engine t request query nameSpace outcome := by
  simp only [searchAndHydrate, h.documents rfl, hydrate_congr h hInside]

theorem getNextBatch_congr (h : Alike .tasks s t) (limit : Int) :
    getNextBatch s.db limit = getNextBatch t.db limit := by
  have hStem : ∀ k, pendingStem.isPrefixOf k = true → s.db.get? k = t.db.get? k := fun k hk =>
    h.db k (owns_of_stem workStem (by decide) (workStem_of_pendingStem hk))
  rw [getNextBatch, getNextBatch, collectTasks_takeWhile, takeWhile_ascendingFrom,
    OrderedMap.filter_entries_congr hStem, ← takeWhile_ascendingFrom, ← collectTasks_takeWhile]

end Reads

/-! ## What an operation does -/

/-- The writes and the answer of an operation. -/
structure Effect where
  writes : List (Key × Option Value)
  documents : List (String × Document)
  answer : Answer

def Effect.apply (e : Effect) (s : Repository) : Repository where
  db := applyWrites s.db e.writes
  documents := s.documents.insertAll e.documents

/-- A write at a key of the component; a pointer leads to an analysis. -/
def Keeps (c : Component) (w : Key × Option Value) : Prop :=
  c.owns w.1 = true ∧
    ∀ mainKey, indexStem.isPrefixOf w.1 = true → w.2 = some (.pointer mainKey) →
      analysisStem.isPrefixOf mainKey = true

structure Effect.Within (e : Effect) (c : Component) : Prop where
  writes : ∀ w ∈ e.writes, Keeps c w
  documents : c ≠ .analyses → e.documents = []

section Effects

variable {settings : Settings} {o : Operation} {s t : Repository}

def Does (settings : Settings) (o : Operation) (s : Repository) (e : Effect) : Prop :=
  run settings o s = (e.apply s, e.answer)

/-- The operation does the same thing on both stores. -/
def DoesSame (settings : Settings) (o : Operation) (s t : Repository) : Prop :=
  ∃ e : Effect, Does settings o s e ∧ Does settings o t e ∧ e.Within (owner o)

theorem within_nothing (c : Component) (answer : Answer) :
    Effect.Within { writes := [], documents := [], answer := answer } c :=
  ⟨nofun, fun _ => rfl⟩

theorem within_one {c : Component} {key : Key} {value : Option Value} (hOwns : c.owns key = true)
    (hPointer : ∀ mainKey, value ≠ some (.pointer mainKey)) (answer : Answer) :
    Effect.Within { writes := [(key, value)], documents := [], answer := answer } c :=
  ⟨List.forall_mem_singleton.mpr ⟨hOwns, fun mainKey _ h => absurd h (hPointer mainKey)⟩,
    fun _ => rfl⟩

/-- An operation that only reads. -/
theorem doesSame_of_reads {answer : Repository → Answer}
    (hRun : ∀ s, run settings o s = (s, answer s)) (hSame : answer s = answer t) :
    DoesSame settings o s t := by
  refine ⟨{ writes := [], documents := [], answer := answer t }, ?_, ?_, within_nothing _ _⟩
  · rw [Does, hRun, hSame]
    rfl
  · rw [Does, hRun]
    rfl

theorem doesSame_storeMessage (m : DiskMessage) : DoesSame settings (.storeMessage m) s t := by
  by_cases hMarshals : settings.wire.marshals (fromDiskMessage m) = true
  · refine ⟨{ writes := [(messageKey m, some (.message (fromDiskMessage m)))], documents := []
              answer := .storeMessage (.ok ()) }, ?_, ?_, ?_⟩
    · simp only [Does, run, storeMessage, hMarshals, if_true]
      rfl
    · simp only [Does, run, storeMessage, hMarshals, if_true]
      rfl
    · refine within_one ?_ (fun mainKey hValue => by cases hValue) _
      exact owns_of_stem messageStem (List.mem_singleton_self _)
        (messageStem_of_roomScope (isPrefixOf_messageKey m))
  · refine ⟨{ writes := [], documents := [], answer := .storeMessage (.error .marshal) }, ?_, ?_,
      within_nothing _ _⟩
    · simp only [Does, run, storeMessage, hMarshals]
      rfl
    · simp only [Does, run, storeMessage, hMarshals]
      rfl

theorem keeps_analysisWrites {a : Analysis} {p : AnalysisPb} {w : Key × Value}
    (h : w ∈ analysisWrites a p) : Keeps .analyses (w.1, some w.2) := by
  have hMain : analysisStem.isPrefixOf a.mainKey = true :=
    isPrefixOf_buildKey _ _ _
  obtain rfl | h := List.mem_cons.mp h
  · exact ⟨owns_of_stem analysisStem (by decide) hMain, fun mainKey _ hValue => by cases hValue⟩
  · obtain rfl := List.mem_singleton.mp h
    refine ⟨owns_of_stem indexStem (by decide)
      (List.isPrefixOf_iff_prefix.mpr (List.prefix_append _ _)), ?_⟩
    rintro mainKey _ hPointer
    cases hPointer
    exact hMain

theorem keeps_of_writesOf {analyses : List Analysis} {sets : List (Key × Value)}
    (h : WritesOf analyses sets) :
    ∀ w ∈ sets.map (fun e => (e.1, some e.2)), Keeps .analyses w := by
  intro w hw
  obtain ⟨e, he, rfl⟩ := List.mem_map.mp hw
  obtain ⟨a, _, p, _, hWrite⟩ := h e he
  exact keeps_analysisWrites hWrite

/-- A commit does the same to every store. -/
theorem commitWrites_same {analyses : List Analysis} {sets : List (Key × Value)}
    (h : WritesOf analyses sets) (documents : List (String × Document)) (fault : Fault) :
    ∃ e : Effect, e.Within .analyses ∧ ∃ result, e.answer = .store result ∧
      ∀ s, commitWrites s sets documents fault = (e.apply s, result) := by
  cases fault with
  | none =>
    refine ⟨⟨_, documents, .store (.ok ())⟩, ⟨keeps_of_writesOf h, fun hc => absurd rfl hc⟩,
      .ok (), rfl, fun s => ?_⟩
    rw [commitWrites, insertAll_eq_applyWrites]
    rfl
  | badger mask =>
    refine ⟨⟨_, [], .store (.error .badger)⟩,
      ⟨keeps_of_writesOf (h.kept mask), fun hc => absurd rfl hc⟩, .error .badger, rfl, fun s => ?_⟩
    rw [commitWrites, insertAll_eq_applyWrites]
    rfl
  | bluge mask =>
    refine ⟨⟨_, OrderedMap.kept mask documents, .store (.error .bluge)⟩,
      ⟨keeps_of_writesOf h, fun hc => absurd rfl hc⟩, .error .bluge, rfl, fun s => ?_⟩
    rw [commitWrites, insertAll_eq_applyWrites]
    rfl

theorem doesSame_store (a : Analysis) (fault : Fault) : DoesSame settings (.store a fault) s t := by
  cases hPb : fromAnalysis a with
  | none =>
    refine ⟨⟨[], [], .store (.error .nilPayload)⟩, ?_, ?_, within_nothing _ _⟩
    · simp only [Does, run, store, hPb]
      rfl
    · simp only [Does, run, store, hPb]
      rfl
  | some p =>
    by_cases hMarshals : settings.marshalsAnalysis p = true
    · have hWrites : WritesOf [a] (analysisWrites a p) := fun w hw =>
        ⟨a, List.mem_singleton_self a, p, hPb, hw⟩
      obtain ⟨e, hWithin, result, hAnswer, hCommit⟩ :=
        commitWrites_same hWrites [documentOf settings.toLower a] fault
      refine ⟨e, ?_, ?_, hWithin⟩
      · simp only [Does, run, store, hPb, hMarshals, if_true, hCommit, hAnswer]
      · simp only [Does, run, store, hPb, hMarshals, if_true, hCommit, hAnswer]
    · refine ⟨⟨[], [], .store (.error (.marshal a.entityId))⟩, ?_, ?_, within_nothing _ _⟩
      · simp only [Does, run, store, hPb, hMarshals]
        rfl
      · simp only [Does, run, store, hPb, hMarshals]
        rfl

theorem doesSame_storeBatch (analyses : List Analysis) (fault : Fault) :
    DoesSame settings (.storeBatch analyses fault) s t := by
  have hWrites := writesOf_prepareBatch settings.marshalsAnalysis analyses
  cases hPrepare : prepareBatch settings.marshalsAnalysis analyses with
  | mk sets failure =>
    rw [hPrepare] at hWrites
    cases failure with
    | some e =>
      refine ⟨⟨_, [], .store (.error e)⟩, ?_, ?_,
        ⟨keeps_of_writesOf (hWrites.kept fault.early), fun hc => absurd rfl hc⟩⟩
      · simp only [Does, run, storeBatch, hPrepare, insertAll_eq_applyWrites]
        rfl
      · simp only [Does, run, storeBatch, hPrepare, insertAll_eq_applyWrites]
        rfl
    | none =>
      obtain ⟨e, hWithin, result, hAnswer, hCommit⟩ :=
        commitWrites_same hWrites (analyses.map (documentOf settings.toLower)) fault
      refine ⟨e, ?_, ?_, hWithin⟩
      · simp only [Does, run, storeBatch, hPrepare, hCommit, hAnswer]
      · simp only [Does, run, storeBatch, hPrepare, hCommit, hAnswer]

theorem doesSame_enqueueTask (task : FileTask) (committed : Bool) :
    DoesSame settings (.enqueueTask task committed) s t := by
  by_cases hCommits : (settings.marshalsTask (toPbFileTask task) && committed) = true
  · refine ⟨⟨[(pendingKey task, some (.task (toPbFileTask task)))], [], .enqueueTask true⟩,
      ?_, ?_, ?_⟩
    · simp only [Does, run, enqueueTask, hCommits, if_true]
      rfl
    · simp only [Does, run, enqueueTask, hCommits, if_true]
      rfl
    · refine within_one ?_ (fun mainKey hValue => by cases hValue) _
      exact owns_of_stem workStem (List.mem_singleton_self _)
        (workStem_of_pendingStem (isPrefixOf_pendingKey task))
  · refine ⟨⟨[], [], .enqueueTask false⟩, ?_, ?_, within_nothing _ _⟩
    · simp only [Does, run, enqueueTask, hCommits]
      rfl
    · simp only [Does, run, enqueueTask, hCommits]
      rfl

theorem keeps_claim (task : FileTask) :
    ∀ w ∈ [(pendingKey task, none), (processingKey task, some (.task (toPbFileTask task)))],
      Keeps .tasks w := by
  refine List.forall_mem_cons.mpr ⟨⟨?_, fun _ _ hValue => by cases hValue⟩,
    List.forall_mem_singleton.mpr ⟨?_, fun _ _ hValue => by cases hValue⟩⟩
  · exact owns_of_stem workStem (by decide) (workStem_of_pendingStem (isPrefixOf_pendingKey task))
  · exact owns_of_stem workStem (by decide) (List.isPrefixOf_iff_prefix.mpr
      ((show workStem <+: "work:processing:".toList by decide).trans (List.prefix_append _ _)))

theorem doesSame_markAsProcessing (h : Alike .tasks s t) (claim : TaskClaim) (committed : Bool) :
    DoesSame settings (.markAsProcessing claim committed) s t := by
  -- the claim looks at the pending key and nowhere else
  have hPending := h.db (pendingKey claim.task) (owns_of_stem workStem (by decide)
    (workStem_of_pendingStem (isPrefixOf_pendingKey claim.task)))
  have hBody : markAsProcessing settings.marshalsTask claim s.db =
      markAsProcessing settings.marshalsTask claim t.db := by
    rw [markAsProcessing, markAsProcessing, hPending]
  cases hAnswer : markAsProcessing settings.marshalsTask claim t.db with
  | error e =>
    rw [hAnswer] at hBody
    refine ⟨⟨[], [], .markAsProcessing (.error (.body e))⟩, ?_, ?_, within_nothing _ _⟩
    · simp only [Does, run, markTask, hBody]
      rfl
    · simp only [Does, run, markTask, hAnswer]
      rfl
  | ok body =>
    rw [hAnswer] at hBody
    obtain ⟨rfl, _⟩ := markAsProcessing_ok hAnswer
    cases committed with
    | false =>
      refine ⟨⟨[], [], .markAsProcessing (.error .commitFailed)⟩, ?_, ?_, within_nothing _ _⟩
      · simp only [Does, run, markTask, hBody]
        rfl
      · simp only [Does, run, markTask, hAnswer]
        rfl
    | true =>
      refine ⟨⟨_, [], .markAsProcessing (.ok ())⟩, ?_, ?_, ⟨keeps_claim claim.task, fun _ => rfl⟩⟩
      · simp only [Does, run, markTask, hBody, if_true]
        rfl
      · simp only [Does, run, markTask, hAnswer, if_true]
        rfl

theorem doesSame_foreign (key : Key) (value : Option Value) :
    DoesSame settings (.foreign key value) s t := by
  by_cases hOwns : Component.others.owns key = true
  · refine ⟨⟨[(key, value)], [], .foreign⟩, ?_, ?_, ?_⟩
    · simp only [Does, run, hOwns, if_true]
      cases value <;> rfl
    · simp only [Does, run, hOwns, if_true]
      cases value <;> rfl
    · refine ⟨List.forall_mem_singleton.mpr ⟨hOwns, fun mainKey hIndex _ => ?_⟩, fun _ => rfl⟩
      have hNot := not_owns_others (c := .analyses) (by decide) hIndex
      rw [hOwns] at hNot
      cases hNot
  · refine ⟨⟨[], [], .foreign⟩, ?_, ?_, within_nothing _ _⟩
    · simp only [Does, run, hOwns]
      rfl
    · simp only [Does, run, hOwns]
      rfl

theorem doesSame (settings : Settings) (hs : PointersInside s) (h : Alike (owner o) s t)
    (hAhead : s = t ∨ ReadsAhead o s ∧ ReadsAhead o t) : DoesSame settings o s t := by
  cases o with
  | storeMessage m => exact doesSame_storeMessage m
  | getMessages room cursor =>
    refine doesSame_of_reads (fun _ => rfl) (congrArg _ ?_)
    obtain rfl | ⟨hs, ht⟩ := hAhead
    · rfl
    · exact getMessages_congr h hs ht _ _
  | store a fault => exact doesSame_store a fault
  | storeBatch analyses fault => exact doesSame_storeBatch analyses fault
  | scanAnalysesByRoom nameSpace cursor =>
    exact doesSame_of_reads (fun _ => rfl)
      (congrArg _ (scanAnalysesByRoom_congr h _ nameSpace cursor))
  | fetchFullByEntityId nameSpace entityId =>
    exact doesSame_of_reads (fun _ => rfl)
      (congrArg _ (fetchFullByEntityId_congr h hs nameSpace entityId))
  | searchPaginated query nameSpace offset outcome =>
    exact doesSame_of_reads (fun _ => rfl) (congrArg _ (searchAndHydrate_congr h hs _ _ _ _ _))
  | searchByScoreRange scoreName min max nameSpace outcome =>
    exact doesSame_of_reads (fun _ => rfl) (congrArg _ (searchAndHydrate_congr h hs _ _ _ _ _))
  | enqueueTask task committed => exact doesSame_enqueueTask task committed
  | getNextBatch limit =>
    exact doesSame_of_reads (fun _ => rfl) (congrArg _ (getNextBatch_congr h limit))
  | markAsProcessing claim committed => exact doesSame_markAsProcessing h claim committed
  | foreign key value => exact doesSame_foreign key value

/-! ## No component notices the others -/

theorem Effect.Within.spares {e : Effect} {c d : Component} (h : e.Within c) (hOther : d ≠ c)
    (s : Repository) : Alike d (e.apply s) s where
  db k hk := by
    refine get?_applyWrites_of_notMem fun hWritten => ?_
    obtain ⟨w, hw, rfl⟩ := List.mem_map.mp hWritten
    exact hOther (owns_unique hk (h.writes w hw).1)
  documents hd := by
    have hNone := h.documents (hd ▸ Ne.symm hOther)
    rw [Effect.apply, hNone]
    rfl

theorem Effect.Within.inside {e : Effect} {c : Component} (h : e.Within c)
    (hs : PointersInside s) : PointersInside (e.apply s) := by
  intro k mainKey hIndex hGet
  obtain hOld | hNew := get?_applyWrites_eq_some hGet
  · exact hs k mainKey hIndex hOld
  · exact (h.writes _ hNew).2 mainKey hIndex rfl

theorem Alike.apply {c : Component} (h : Alike c s t) (e : Effect) :
    Alike c (e.apply s) (e.apply t) where
  db k hk := get?_applyWrites_congr (h.db k hk) e.writes
  documents hc := by rw [Effect.apply, Effect.apply, h.documents hc]

theorem separated (settings : Settings) :
    Separated (run settings) owner view PointersInside ReadsAhead where
  keeps o s hs := by
    obtain ⟨e, hDoes, _, hWithin⟩ := doesSame (o := o) settings hs (view_eq_iff.mp rfl) (.inl rfl)
    rw [hDoes]
    exact hWithin.inside hs
  depends o s t hs _ hAhead hAhead' hView := by
    have hAlike := view_eq_iff.mp hView
    obtain ⟨e, hDoes, hDoes', _⟩ := doesSame settings hs hAlike (.inr ⟨hAhead, hAhead'⟩)
    rw [hDoes, hDoes']
    exact ⟨rfl, view_eq_iff.mpr (hAlike.apply e)⟩
  spares o s i hs hOther := by
    obtain ⟨e, hDoes, _, hWithin⟩ := doesSame (o := o) settings hs (view_eq_iff.mp rfl) (.inl rfl)
    rw [hDoes]
    exact view_eq_iff.mpr (hWithin.spares hOther s)

theorem readsAhead_of_owner (hOwner : owner o ≠ .messages) (s : Repository) : ReadsAhead o s := by
  cases o with
  | getMessages room cursor => exact absurd rfl hOwner
  | _ => trivial

/-- In every sequence of calls the answers to one repository's calls are those
that it would get alone, on any store with the same entries under its keys. For
the messages the iterator of each `GetMessages` has to read all entries below its
key ahead, in both runs. -/
theorem repositories_independent (settings : Settings) (c : Component) (ops : List Operation)
    (hs : PointersInside s) (ht : PointersInside t)
    (hDb : ∀ k, c.owns k = true → s.db.get? k = t.db.get? k)
    (hDocuments : c = .analyses → s.documents = t.documents)
    (hAhead : c = .messages → Throughout (run settings) ReadsAhead ops s ∧
      Throughout (run settings) ReadsAhead (ops.filter fun o => owner o = c) t) :
    ((answers (run settings) ops s).filter fun a => owner a.1 = c) =
      answers (run settings) (ops.filter fun o => owner o = c) t := by
  have hView := view_eq_iff.mpr ⟨hDb, hDocuments⟩
  by_cases hc : c = .messages
  · obtain ⟨hRun, hAlone⟩ := hAhead hc
    have hOwn : ∀ o s, ReadsAhead o s → owner o = c → ReadsAhead o s := fun _ _ h _ => h
    exact (separated settings).answers_filter c ops hs ht hView (hRun.imp hOwn) (hAlone.imp hOwn)
  · have hOwn : ∀ o s, owner o = c → ReadsAhead o s :=
      fun o s hOwner => readsAhead_of_owner (hOwner ▸ hc) s
    exact (separated settings).answers_filter c ops hs ht hView
      (throughout_of_forall hOwn _ _) (throughout_of_forall hOwn _ _)

end Effects

def plainSettings : Settings where
  wire := sampleWire
  marshalsAnalysis _ := true
  marshalsTask _ := true
  toLower := id
  engine := sampleEngine
  limitMessages := none
  badgerLimit := none
  blugeLimit := 10

def chattingStore : Repository := { db := sampleStore, documents := .empty }

def quietStore : Repository := { db := .empty, documents := .empty }

theorem pointersInside_chattingStore : PointersInside chattingStore := by
  intro k mainKey hIndex hGet
  have hEntries : ∀ e ∈ sampleStore.entries, indexStem.isPrefixOf e.1 = false := by decide +kernel
  have hNot := hEntries _ ((OrderedMap.get?_eq_some_iff _).mp hGet)
  rw [hIndex] at hNot
  cases hNot

theorem repositories_independent_chatting :
    ((answers (run plainSettings) [.enqueueTask (queuedTask "a" normal) true,
        .storeMessage (sampleMessage 1 9), .getNextBatch 5] chattingStore).filter
          fun a => owner a.1 = .tasks) =
      answers (run plainSettings)
        [.enqueueTask (queuedTask "a" normal) true, .getNextBatch 5] quietStore ∧
    ((answers (run plainSettings) [.enqueueTask (queuedTask "a" normal) true,
        .storeMessage (sampleMessage 1 9), .getMessages 1 none] chattingStore).filter
          fun a => owner a.1 = .messages) =
      answers (run plainSettings)
        [.storeMessage (sampleMessage 1 9), .getMessages 1 none] chattingStore := by
  refine ⟨repositories_independent plainSettings .tasks [.enqueueTask (queuedTask "a" normal) true,
    .storeMessage (sampleMessage 1 9), .getNextBatch 5] pointersInside_chattingStore
    (fun _ _ _ hGet => by cases hGet) ?_ (fun _ => rfl) (fun hc => by cases hc),
    repositories_independent plainSettings .messages [.enqueueTask (queuedTask "a" normal) true,
    .storeMessage (sampleMessage 1 9), .getMessages 1 none] pointersInside_chattingStore
    pointersInside_chattingStore (fun _ _ => rfl) (fun _ => rfl) ?_⟩
  · intro k hk
    change sampleStore.get? k = none
    by_contra hSome
    obtain ⟨v, hGet⟩ := Option.ne_none_iff_exists'.mp hSome
    have hEntries : ∀ e ∈ sampleStore.entries, messageStem.isPrefixOf e.1 = true := by
      decide +kernel
    have hMessage := hEntries _ ((OrderedMap.get?_eq_some_iff _).mp hGet)
    exact absurd (owns_unique hk (owns_of_stem (c := .messages) messageStem (by decide) hMessage))
      (by decide)
  · intro _
    have hRun : Prefetched (run plainSettings (.storeMessage (sampleMessage 1 9))
        (run plainSettings (.enqueueTask (queuedTask "a" normal) true) chattingStore).1).1.db 1
        none := by decide +kernel
    have hAlone : Prefetched (run plainSettings (.storeMessage (sampleMessage 1 9))
        chattingStore).1.db 1 none := by decide +kernel
    exact ⟨⟨trivial, trivial, hRun, trivial⟩, trivial, hAlone, trivial⟩

end ChatLab.Storage.SharedStore
