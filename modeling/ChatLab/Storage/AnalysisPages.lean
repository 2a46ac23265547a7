import ChatLab.Foundation.Bag
import ChatLab.Storage.AnalysisScan

/-!
# Reading a namespace page by page

A reader follows the cursors of `ScanAnalysesByRoom` from nil until a page
comes without one, while analyses are stored between two pages. Where the keys
that the scan reaches all belong to the namespace, every record of the first
page's store is met once, newest first, and a page comes without a cursor
exactly when nothing older was stored when it was read. A record of another
namespace among those keys makes a page promise a next one that shows it.
-/

namespace ChatLab.Storage

open Foundation Foundation.Decimal Foundation.Lexicographic Foundation.Pagination

/-! ## The records of a namespace -/

/-- The keys that a scan of the namespace can reach. -/
def namespaceScope (nameSpace : String) (k : Key) : Bool :=
  reaches (namespaceStem nameSpace) lastTimestamp k

def mainRecord (nameSpace : String) (e : Key × Value) : Option Analysis :=
  match decodeAnalysis e.2 with
  | .ok a => if a.nameSpace = nameSpace ∧ e.1 = a.mainKey then some a else none
  | .error _ => none

/-- The main records of the namespace, as a reader gets them. -/
def records (nameSpace : String) (db : DB) : List Analysis :=
  db.entries.filterMap (mainRecord nameSpace)

def Value.belongs (nameSpace : String) : Value → Bool
  | .analysis p => decide (p.nameSpace = nameSpace) && decide (0 ≤ unixNano p.atTime)
  | _ => false

/-- The keys that the scan reaches hold records of the namespace, with times
that are not negative. -/
def Unmixed (nameSpace : String) (db : DB) : Prop :=
  ∀ e ∈ db.entries, namespaceScope nameSpace e.1 = true → e.2.belongs nameSpace = true

instance (nameSpace : String) (db : DB) : Decidable (Unmixed nameSpace db) :=
  inferInstanceAs (Decidable (∀ e ∈ db.entries, _))

/-- Before `b` in time, or at the same time with the smaller entity. -/
def Analysis.Older (a b : Analysis) : Prop :=
  unixNano a.atTime < unixNano b.atTime ∨
    unixNano a.atTime = unixNano b.atTime ∧ a.entityId.string < b.entityId.string

instance (a b : Analysis) : Decidable (a.Older b) :=
  inferInstanceAs (Decidable (_ ∨ _))

variable {nameSpace : String} {db : DB} {a b : Analysis}

theorem mem_records : a ∈ records nameSpace db ↔
    a.nameSpace = nameSpace ∧ ∃ v, (a.mainKey, v) ∈ db.entries ∧ decodeAnalysis v = .ok a := by
  rw [records, List.mem_filterMap]
  constructor
  · rintro ⟨⟨k, v⟩, he, hRecord⟩
    simp only [mainRecord] at hRecord
    split at hRecord
    · rename_i hDecode
      split at hRecord
      · rename_i hOwn
        cases hRecord
        obtain ⟨hName, rfl⟩ := hOwn
        exact ⟨hName, v, he, hDecode⟩
      · cases hRecord
    · cases hRecord
  · rintro ⟨hName, v, he, hDecode⟩
    refine ⟨_, he, ?_⟩
    simp only [mainRecord, hDecode, hName, and_self, if_true]

theorem namespaceScope_mainKey (h : a.nameSpace = nameSpace) :
    namespaceScope nameSpace a.mainKey = true := by
  rw [← h, namespaceScope, reaches_iff]
  refine ⟨List.isPrefixOf_iff_prefix.mpr (List.prefix_append _ _), ?_⟩
  exact (append_le_append_iff _ _ _).mpr (timestamp_lt_last a.atTime a.entityId.string).le

theorem mainKey_lt_iff (ha : 0 ≤ unixNano a.atTime) (hb : 0 ≤ unixNano b.atTime)
    (hName : a.nameSpace = b.nameSpace) : a.mainKey < b.mainKey ↔ a.Older b := by
  rw [Analysis.mainKey, Analysis.mainKey, buildKey, buildKey, hName, append_lt_append_iff]
  exact timestamp_lt_iff ha hb _ _

/-- An entry that the scan reaches is the record of an analysis of the namespace. -/
theorem IsRecord.belongs {e : Key × Value} (hRecord : IsRecord a e)
    (hUnmixed : Unmixed nameSpace db)
    (he : e ∈ db.entries) (hScope : namespaceScope nameSpace e.1 = true) :
    a.mainKey = e.1 ∧ a.persisted ∈ records nameSpace db ∧ 0 ≤ unixNano a.atTime := by
  have hOwn := hUnmixed e he hScope
  have hDecode := hRecord.decode
  obtain ⟨p, hp, rfl⟩ := hRecord
  obtain ⟨payload, _, rfl⟩ := Option.map_eq_some_iff.mp hp
  simp only [Value.belongs, Bool.and_eq_true, decide_eq_true_eq] at hOwn
  exact ⟨rfl, mem_records.mpr ⟨hOwn.1, _, he, hDecode⟩, hOwn.2⟩

theorem AnalysesKeyed.nano_nonneg (h : AnalysesKeyed db) (hUnmixed : Unmixed nameSpace db)
    (ha : a ∈ records nameSpace db) : 0 ≤ unixNano a.atTime := by
  obtain ⟨hName, v, he, hDecode⟩ := mem_records.mp ha
  have hScope := namespaceScope_mainKey hName
  obtain ⟨r, hRecord⟩ := h _ he (isPrefixOf_buildKey _ _ _)
  obtain ⟨hKey, _, hNano⟩ := hRecord.belongs hUnmixed he hScope
  rw [← (mainKey_eq_iff.mp hKey).2.1]
  exact hNano

/-! ## One page -/

theorem scanEntries_eq {cursor : Option Key}
    (hCursor : ∀ c ∈ cursor, namespaceStem nameSpace ++ c ∈ db.keys ∧
      namespaceScope nameSpace (namespaceStem nameSpace ++ c) = true) :
    scanEntries db nameSpace cursor =
      unread db (namespaceScope nameSpace) (cursor.map (namespaceStem nameSpace ++ ·)) := by
  cases cursor with
  | none => exact scanFrom_eq_unread db (namespaceStem nameSpace) lastTimestamp
  | some c =>
    obtain ⟨hStored, hScope⟩ := hCursor c rfl
    exact (takeWhile_reverseIterator_some hStored).trans (unread_reaches db hScope)

/-- What a page of the namespace shows of the entries that the reader has not
met yet. -/
structure PageOf (limit : Option Int) (nameSpace : String) (db : DB) (bound : Option Key)
    (analyses : List Analysis) (next : Option Key) : Prop where
  keys : analyses.map Analysis.mainKey =
    (takeLimit (limit.map Int.toNat) (unread db (namespaceScope nameSpace) bound)).map Prod.fst
  shown : ∀ a ∈ analyses, a ∈ records nameSpace db
  more : ∀ c ∈ next, ∃ last,
    (takeLimit (limit.map Int.toNat) (unread db (namespaceScope nameSpace) bound)).getLast? =
      some last ∧ namespaceStem nameSpace ++ c = last.1 ∧
    analyses.length < (unread db (namespaceScope nameSpace) bound).length
  done : next = none →
    takeLimit (limit.map Int.toNat) (unread db (namespaceScope nameSpace) bound) =
      unread db (namespaceScope nameSpace) bound

theorem AnalysesKeyed.pageOf (h : AnalysesKeyed db) (hUnmixed : Unmixed nameSpace db)
    {limit : Option Int} (hLimit : ∀ n ∈ limit, 1 ≤ n) {cursor : Option Key}
    (hCursor : ∀ c ∈ cursor, namespaceStem nameSpace ++ c ∈ db.keys ∧
      namespaceScope nameSpace (namespaceStem nameSpace ++ c) = true) :
    ∃ analyses next, scanAnalysesByRoom limit db nameSpace cursor = .ok (analyses, next) ∧
      PageOf limit nameSpace db (cursor.map (namespaceStem nameSpace ++ ·)) analyses next := by
  obtain ⟨as, next, hPage, hScan, hNext, hDone⟩ := h.scan_page limit nameSpace cursor
  rw [scanEntries_eq hCursor] at hPage hNext hDone
  refine ⟨_, next, hScan, ?_, ?_, ?_, hDone hLimit⟩
  · rw [List.map_map]
    clear hScan hNext hDone
    generalize takeLimit (limit.map Int.toNat) (unread db (namespaceScope nameSpace)
      (cursor.map (namespaceStem nameSpace ++ ·))) = page at hPage
    induction hPage with
    | nil => rfl
    | cons hHead _ ih =>
      obtain ⟨p, _, rfl⟩ := hHead
      rw [List.map_cons, List.map_cons, ih]
      rfl
  · intro b hb
    obtain ⟨a, ha, rfl⟩ := List.mem_map.mp hb
    obtain ⟨e, he, hRecord⟩ := exists_left_of_mem hPage ha
    obtain ⟨hMem, hScope, _⟩ := mem_unread.mp (mem_of_mem_takeLimit he)
    exact (hRecord.belongs hUnmixed hMem hScope).2.1
  · intro c hc
    obtain ⟨last, hLast, hKey, hLess⟩ := hNext c hc
    exact ⟨last, hLast, hKey, by rwa [List.length_map]⟩

theorem PageOf.next_eq_none_iff {limit : Option Int} {bound next : Option Key}
    {analyses : List Analysis} (h : PageOf limit nameSpace db bound analyses next) :
    next = none ↔ ¬ ∃ k ∈ db.keys, namespaceScope nameSpace k = true ∧ (∀ b ∈ bound, k < b) ∧
      ∀ x ∈ analyses.map Analysis.mainKey, k < x := by
  have hLast : next = none ↔
      takeLimit (limit.map Int.toNat) (unread db (namespaceScope nameSpace) bound) =
        unread db (namespaceScope nameSpace) bound := by
    refine ⟨h.done, ?_⟩
    intro hAll
    cases next with
    | none => rfl
    | some c =>
      obtain ⟨_, _, _, hLess⟩ := h.more c rfl
      have hLength := congrArg List.length h.keys
      rw [List.length_map, List.length_map, hAll] at hLength
      omega
  rw [hLast, takeLimit_eq_unread_iff, h.keys]
  simp only [List.forall_mem_map]

/-! ## The reader -/

structure ScanPage where
  -- the store when the page was read
  db : DB
  analyses : List Analysis
  next : Option Key
deriving DecidableEq

structure WalkState where
  repo : Repository
  pages : List ScanPage
deriving DecidableEq

namespace WalkState

variable (s : WalkState)

def delivered : List Analysis := s.pages.flatMap ScanPage.analyses

/-- The cursor of the reader's next call. There is none once a page came
without a cursor. -/
def request : Option (Option Key) :=
  match s.pages.getLast? with
  | none => some none
  | some page => page.next.map some

/-- The keys of the store when the first page was read. -/
def initial : List Key := (s.pages.head?.map fun page => page.db.keys).getD []

def read : List Key := s.delivered.map Analysis.mainKey

end WalkState

inductive WalkAction
  | store (a : Analysis) (fault : Fault)
  | storeBatch (analyses : List Analysis) (fault : Fault)
  | foreign (key : Key) (value : Option Value)
  | page
deriving DecidableEq

section Walk

variable (marshals : AnalysisPb → Bool) (toLower : String → String) (limit : Option Int)
  (nameSpace : String)

def walkStep (s : WalkState) : WalkAction → Option WalkState
  | .store a fault => some { s with repo := (store marshals toLower s.repo a fault).1 }
  | .storeBatch analyses fault =>
    some { s with repo := (storeBatch marshals toLower s.repo analyses fault).1 }
  | .foreign key value =>
    if foreignKey key then
      some { s with repo := { s.repo with db := foreignWrite s.repo.db key value } }
    else none
  | .page =>
    match s.request with
    | none => none
    | some cursor =>
      match scanAnalysesByRoom limit s.repo.db nameSpace cursor with
      | .error _ => some s
      | .ok (analyses, next) => some { s with
          pages := s.pages ++ [{ db := s.repo.db, analyses := analyses, next := next }] }

def walkMachine : Machine WalkState WalkAction where
  start := { repo := { db := .empty, documents := .empty }, pages := [] }
  step := walkStep marshals toLower limit nameSpace

end Walk

/-- Every page is read from a store in which the namespace has its keys for
itself. -/
def ReadsUnmixed (nameSpace : String) (s : WalkState) (a : WalkAction) : Prop :=
  a = .page → Unmixed nameSpace s.repo.db

instance (nameSpace : String) (s : WalkState) (a : WalkAction) :
    Decidable (ReadsUnmixed nameSpace s a) :=
  inferInstanceAs (Decidable (_ → _))

/-! ## What a walk keeps -/

/-- A page fits what was delivered before it: at most the limit, records as
they were stored, and no cursor exactly when nothing older was stored. -/
structure ScanPage.Exact (limit : Option Int) (nameSpace : String) (earlier : List Analysis)
    (page : ScanPage) : Prop where
  bounded : ∀ n ∈ limit, (page.analyses.length : Int) ≤ n
  shown : ∀ a ∈ page.analyses, a ∈ records nameSpace page.db
  ends : page.next = none ↔
    ¬ ∃ a ∈ records nameSpace page.db, ∀ b ∈ earlier ++ page.analyses, a.Older b

structure WalkState.Sound (limit : Option Int) (nameSpace : String) (s : WalkState) : Prop where
  keyed : AnalysesKeyed s.repo.db
  nonneg : ∀ a ∈ s.delivered, a.nameSpace = nameSpace ∧ 0 ≤ unixNano a.atTime
  trail : Trail (namespaceScope nameSpace) s.initial s.read s.read.getLast?
  grown : ∀ k ∈ s.initial, namespaceScope nameSpace k = true → k ∈ s.repo.db.keys
  resumes : ∀ c, s.request = some (some c) →
    s.read.getLast? = some (namespaceStem nameSpace ++ c) ∧
      namespaceStem nameSpace ++ c ∈ s.repo.db.keys
  ended : s.request = none → ∀ k ∈ s.initial, namespaceScope nameSpace k = true → k ∈ s.read
  exact : ∀ i (page : ScanPage), s.pages[i]? = some page →
    page.Exact limit nameSpace ((s.pages.take i).flatMap ScanPage.analyses)

variable {limit : Option Int} {s t : WalkState}

/-- A write keeps the keys that the scan reaches. -/
theorem WalkState.Sound.write (h : s.Sound limit nameSpace) {repo : Repository}
    (hKeyed : AnalysesKeyed repo.db)
    (hGrow : ∀ k ∈ s.repo.db.keys, namespaceScope nameSpace k = true → k ∈ repo.db.keys) :
    WalkState.Sound limit nameSpace { s with repo := repo } where
  keyed := hKeyed
  nonneg := h.nonneg
  trail := h.trail
  grown := fun k hk hScope => hGrow k (h.grown k hk hScope) hScope
  resumes := by
    intro c hc
    obtain ⟨hLast, hStored⟩ := h.resumes c hc
    exact ⟨hLast, hGrow _ hStored (h.trail.inScope _ (List.mem_of_getLast? hLast))⟩
  ended := h.ended
  exact := h.exact

theorem WalkState.pages_eq_nil (h : s.request = some none) : s.pages = [] := by
  rw [WalkState.request] at h
  cases hLast : s.pages.getLast? with
  | none => exact List.getLast?_eq_none_iff.mp hLast
  | some page =>
    rw [hLast] at h
    obtain ⟨c, _, hc⟩ := Option.map_eq_some_iff.mp h
    cases hc

theorem WalkState.Sound.cursor (h : s.Sound limit nameSpace) {cursor : Option Key}
    (hRequest : s.request = some cursor) :
    s.read.getLast? = cursor.map (namespaceStem nameSpace ++ ·) ∧
      ∀ c ∈ cursor, namespaceStem nameSpace ++ c ∈ s.repo.db.keys ∧
        namespaceScope nameSpace (namespaceStem nameSpace ++ c) = true := by
  cases cursor with
  | none =>
    have hNil : s.read = [] := by
      rw [WalkState.read, WalkState.delivered, WalkState.pages_eq_nil hRequest]
      rfl
    rw [hNil]
    exact ⟨rfl, nofun⟩
  | some c =>
    obtain ⟨hLast, hStored⟩ := h.resumes c hRequest
    refine ⟨hLast, ?_⟩
    rintro c' ⟨⟩
    exact ⟨hStored, h.trail.inScope _ (List.mem_of_getLast? hLast)⟩

/-- The state after a page. -/
def WalkState.turn (s : WalkState) (analyses : List Analysis) (next : Option Key) : WalkState :=
  { s with pages := s.pages ++ [{ db := s.repo.db, analyses := analyses, next := next }] }

section Turn

variable {analyses : List Analysis} {next : Option Key}

theorem WalkState.delivered_turn :
    (s.turn analyses next).delivered = s.delivered ++ analyses := by
  simp [WalkState.delivered, WalkState.turn]

theorem WalkState.read_turn :
    (s.turn analyses next).read = s.read ++ analyses.map Analysis.mainKey := by
  rw [WalkState.read, WalkState.delivered_turn, List.map_append]
  rfl

theorem WalkState.request_turn : (s.turn analyses next).request = next.map some := by
  simp [WalkState.request, WalkState.turn]

theorem WalkState.initial_turn (h : s.pages ≠ []) :
    (s.turn analyses next).initial = s.initial := by
  obtain ⟨page, rest, hPages⟩ := List.exists_cons_of_ne_nil h
  simp [WalkState.initial, WalkState.turn, hPages]

/-- The keys of the first page's store are there, and the trail starts with them. -/
theorem WalkState.Sound.started (h : s.Sound limit nameSpace) (analyses : List Analysis)
    (next : Option Key) :
    (∀ k ∈ (s.turn analyses next).initial, namespaceScope nameSpace k = true →
      k ∈ s.repo.db.keys) ∧
    Trail (namespaceScope nameSpace) (s.turn analyses next).initial s.read s.read.getLast? := by
  by_cases hFirst : s.pages = []
  · have hRead : s.read = [] := by
      rw [WalkState.read, WalkState.delivered, hFirst]
      rfl
    have hInitial : (s.turn analyses next).initial = s.repo.db.keys := by
      simp [WalkState.initial, WalkState.turn, hFirst]
    rw [hRead, hInitial]
    exact ⟨fun k hk _ => hk, Trail.start _ nofun⟩
  · rw [WalkState.initial_turn hFirst]
    exact ⟨h.grown, h.trail⟩

theorem PageOf.exact (h : s.Sound limit nameSpace) (hUnmixed : Unmixed nameSpace s.repo.db)
    (hLimit : ∀ n ∈ limit, 1 ≤ n)
    (hPage : PageOf limit nameSpace s.repo.db s.read.getLast? analyses next) :
    ScanPage.Exact limit nameSpace s.delivered
      { db := s.repo.db, analyses := analyses, next := next } := by
  refine ⟨?_, hPage.shown, ?_⟩
  · rintro n rfl
    have hPos := hLimit n rfl
    have hLength := congrArg List.length hPage.keys
    rw [List.length_map, List.length_map, Option.map_some, takeLimit, List.length_take] at hLength
    dsimp only
    omega
  · have hNonneg : ∀ b ∈ s.delivered ++ analyses,
        b.nameSpace = nameSpace ∧ 0 ≤ unixNano b.atTime := by
      intro b hb
      obtain hb | hb := List.mem_append.mp hb
      · exact h.nonneg b hb
      · exact ⟨(mem_records.mp (hPage.shown b hb)).1,
          h.keyed.nano_nonneg hUnmixed (hPage.shown b hb)⟩
    have hOlder : ∀ a ∈ records nameSpace s.repo.db, ∀ b ∈ s.delivered ++ analyses,
        a.mainKey < b.mainKey ↔ a.Older b := by
      intro a ha b hb
      refine mainKey_lt_iff (h.keyed.nano_nonneg hUnmixed ha) (hNonneg b hb).2 ?_
      rw [(mem_records.mp ha).1, (hNonneg b hb).1]
    rw [hPage.next_eq_none_iff]
    refine not_congr ⟨?_, ?_⟩
    · rintro ⟨k, hk, hScope, hBound, hBelow⟩
      obtain ⟨e, he, rfl⟩ := List.mem_map.mp hk
      have hStem := (reaches_iff.mp hScope).1
      obtain ⟨a, hRecord⟩ := h.keyed e he (analysisStem_of_namespaceStem hStem)
      obtain ⟨hKey, hMem, _⟩ := hRecord.belongs hUnmixed he hScope
      refine ⟨a.persisted, hMem, ?_⟩
      intro b hb
      have hKey' : a.persisted.mainKey = e.1 := hKey
      rw [← hOlder _ hMem b hb, hKey']
      obtain hb | hb := List.mem_append.mp hb
      · exact h.trail.below hBound (List.mem_map_of_mem hb)
      · exact hBelow _ (List.mem_map_of_mem hb)
    · rintro ⟨a, ha, hBelow⟩
      obtain ⟨hName, v, he, _⟩ := mem_records.mp ha
      refine ⟨a.mainKey, List.mem_map_of_mem he, namespaceScope_mainKey hName, ?_, ?_⟩
      · intro k hk
        obtain ⟨b, hb, rfl⟩ := List.mem_map.mp (List.mem_of_getLast? hk)
        have hMem := List.mem_append_left analyses hb
        exact (hOlder a ha b hMem).mpr (hBelow b hMem)
      · intro k hk
        obtain ⟨b, hb, rfl⟩ := List.mem_map.mp hk
        have hMem := List.mem_append_right s.delivered hb
        exact (hOlder a ha b hMem).mpr (hBelow b hMem)

theorem WalkState.Sound.turn (h : s.Sound limit nameSpace) (hUnmixed : Unmixed nameSpace s.repo.db)
    (hLimit : ∀ n ∈ limit, 1 ≤ n)
    (hPage : PageOf limit nameSpace s.repo.db s.read.getLast? analyses next) :
    (s.turn analyses next).Sound limit nameSpace := by
  obtain ⟨hGrown, hTrail⟩ := h.started analyses next
  have hLast : ∀ last, (takeLimit (limit.map Int.toNat) (unread s.repo.db (namespaceScope nameSpace)
      s.read.getLast?)).getLast? = some last →
      (s.turn analyses next).read.getLast? = some last.1 := by
    intro last hLast
    rw [WalkState.read_turn, hPage.keys, List.getLast?_append, List.getLast?_map, hLast]
    rfl
  refine ⟨h.keyed, ?_, ?_, hGrown, ?_, ?_, ?_⟩
  · rw [WalkState.delivered_turn]
    intro a ha
    obtain ha | ha := List.mem_append.mp ha
    · exact h.nonneg a ha
    · exact ⟨(mem_records.mp (hPage.shown a ha)).1,
        h.keyed.nano_nonneg hUnmixed (hPage.shown a ha)⟩
  · cases hEnd : (takeLimit (limit.map Int.toNat) (unread s.repo.db (namespaceScope nameSpace)
        s.read.getLast?)).getLast? with
    | none =>
      rw [WalkState.read_turn, hPage.keys, List.getLast?_eq_none_iff.mp hEnd, List.map_nil,
        List.append_nil]
      exact hTrail
    | some last =>
      rw [hLast last hEnd, WalkState.read_turn, hPage.keys]
      exact hTrail.page hGrown rfl hEnd
  · intro c hc
    rw [WalkState.request_turn] at hc
    obtain ⟨c', rfl, hSame⟩ := Option.map_eq_some_iff.mp hc
    cases hSame
    obtain ⟨last, hEnd, hKey, _⟩ := hPage.more c rfl
    refine ⟨hKey ▸ hLast last hEnd, ?_⟩
    have hMem := mem_of_mem_takeLimit (List.mem_of_getLast? hEnd)
    exact hKey ▸ List.mem_map_of_mem (mem_unread.mp hMem).1
  · intro hRequest k hk hScope
    rw [WalkState.request_turn] at hRequest
    have hAll := hPage.done (Option.map_eq_none_iff.mp hRequest)
    rw [WalkState.read_turn, hPage.keys, hAll]
    obtain hRead | hBelow := hTrail.met k hk hScope
    · exact List.mem_append_left _ hRead
    · obtain ⟨e, he, rfl⟩ := List.mem_map.mp (hGrown k hk hScope)
      exact List.mem_append_right _ (List.mem_map_of_mem (mem_unread.mpr ⟨he, hScope, hBelow⟩))
  · intro i page hi
    obtain ⟨hLt, hOld⟩ | ⟨rfl, rfl⟩ := Bag.getElem?_concat_cases hi
    · rw [WalkState.turn, List.take_append_of_le_length hLt.le]
      exact h.exact i page hOld
    · rw [WalkState.turn, List.take_left]
      exact hPage.exact h hUnmixed hLimit

/-- A page is read whenever the walk is not over. -/
theorem WalkState.Sound.page_step (marshals : AnalysisPb → Bool) (toLower : String → String)
    (h : s.Sound limit nameSpace) (hUnmixed : Unmixed nameSpace s.repo.db)
    (hLimit : ∀ n ∈ limit, 1 ≤ n) {cursor : Option Key} (hRequest : s.request = some cursor) :
    ∃ analyses next, PageOf limit nameSpace s.repo.db s.read.getLast? analyses next ∧
      walkStep marshals toLower limit nameSpace s .page = some (s.turn analyses next) := by
  obtain ⟨hBound, hCursor⟩ := h.cursor hRequest
  obtain ⟨analyses, next, hScan, hPage⟩ := h.keyed.pageOf hUnmixed hLimit hCursor
  rw [← hBound] at hPage
  refine ⟨analyses, next, hPage, ?_⟩
  simp only [walkStep, hRequest, hScan]
  rfl

end Turn

theorem mem_keys_foreignWrite {key k : Key} (hKey : foreignKey key = true) (value : Option Value)
    (hScope : namespaceScope nameSpace k = true) (hk : k ∈ db.keys) :
    k ∈ OrderedMap.keys (foreignWrite db key value) := by
  have hNe : k ≠ key := by
    rintro rfl
    have hStem := analysisStem_of_namespaceStem (reaches_iff.mp hScope).1
    simp [foreignKey, hStem] at hKey
  obtain ⟨v, hv⟩ := db.mem_keys_iff.mp hk
  exact (OrderedMap.mem_keys_iff _).mpr ⟨v, (get?_foreignWrite hNe).trans hv⟩

theorem walkStep_sound {marshals : AnalysisPb → Bool} {toLower : String → String}
    (hLimit : ∀ n ∈ limit, 1 ≤ n) {action : WalkAction} (h : s.Sound limit nameSpace)
    (hGuard : ReadsUnmixed nameSpace s action)
    (hStep : walkStep marshals toLower limit nameSpace s action = some t) :
    t.Sound limit nameSpace := by
  cases action with
  | store a fault =>
    cases hStep
    obtain ⟨ws, hws, hdb⟩ := store_db marshals toLower s.repo a fault
    refine h.write (hdb ▸ h.keyed.insertAll hws) ?_
    intro k hk _
    rw [hdb]
    exact (s.repo.db.mem_keys_insertAll ws k).mpr (.inl hk)
  | storeBatch analyses fault =>
    cases hStep
    obtain ⟨ws, hws, hdb⟩ := storeBatch_db marshals toLower s.repo analyses fault
    refine h.write (hdb ▸ h.keyed.insertAll hws) ?_
    intro k hk _
    rw [hdb]
    exact (s.repo.db.mem_keys_insertAll ws k).mpr (.inl hk)
  | foreign key value =>
    rw [walkStep] at hStep
    split at hStep
    · rename_i hKey
      cases hStep
      refine h.write (h.keyed.foreignWrite hKey value) ?_
      exact fun k hk hScope => mem_keys_foreignWrite hKey value hScope hk
    · cases hStep
  | page =>
    have hUnmixed := hGuard rfl
    cases hRequest : s.request with
    | none =>
      simp only [walkStep, hRequest] at hStep
      cases hStep
    | some cursor =>
      obtain ⟨analyses, next, hPage, hTurn⟩ :=
        h.page_step marshals toLower hUnmixed hLimit hRequest
      cases hTurn.symm.trans hStep
      exact h.turn hUnmixed hLimit hPage

theorem walk_sound {marshals : AnalysisPb → Bool} {toLower : String → String}
    (hLimit : ∀ n ∈ limit, 1 ≤ n)
    (h : (walkMachine marshals toLower limit nameSpace).Reaches (ReadsUnmixed nameSpace) s) :
    s.Sound limit nameSpace := by
  refine Machine.Reaches.invariant (I := WalkState.Sound limit nameSpace) ?_
    (fun _ _ _ hs hGuard hStep => walkStep_sound hLimit hs hGuard hStep) h
  refine ⟨?_, ?_, Trail.start _ nofun, ?_, nofun, nofun, ?_⟩
  · exact fun e he => absurd he List.not_mem_nil
  · exact fun a ha => absurd ha List.not_mem_nil
  · exact fun k hk => absurd hk List.not_mem_nil
  · exact fun i page hi => absurd (List.mem_of_getElem? hi) List.not_mem_nil

/-- Without further writes the walk is over after finitely many pages. -/
theorem WalkState.Sound.ends (marshals : AnalysisPb → Bool) (toLower : String → String)
    (h : s.Sound limit nameSpace) (hUnmixed : Unmixed nameSpace s.repo.db)
    (hLimit : ∀ n ∈ limit, 1 ≤ n) :
    ∃ n t, (walkMachine marshals toLower limit nameSpace).exec s (List.replicate n .page) = some t ∧
      t.request = none := by
  -- the measure is the number of entries that the reader has not met
  induction hn : (unread s.repo.db (namespaceScope nameSpace) s.read.getLast?).length
    using Nat.strong_induction_on generalizing s with
  | _ n ih =>
    cases hRequest : s.request with
    | none => exact ⟨0, s, rfl, hRequest⟩
    | some cursor =>
      obtain ⟨analyses, next, hPage, hTurn⟩ :=
        h.page_step marshals toLower hUnmixed hLimit hRequest
      have hNext := h.turn hUnmixed hLimit hPage
      have hFirst : ∀ k, (walkMachine marshals toLower limit nameSpace).exec s
          (List.replicate (k + 1) .page) = (walkMachine marshals toLower limit nameSpace).exec
            (s.turn analyses next) (List.replicate k .page) := by
        intro k
        rw [List.replicate_succ, Machine.exec]
        exact congrArg (Option.bind · _) hTurn
      cases next with
      | none =>
        refine ⟨1, s.turn analyses none, hFirst 0, WalkState.request_turn⟩
      | some c =>
        obtain ⟨last, hLast, hKey, _⟩ := hPage.more c rfl
        have hBound : (s.turn analyses (some c)).read.getLast? = some last.1 := by
          rw [(hNext.resumes c WalkState.request_turn).1, hKey]
        have hShorter := length_unread_lt (mem_of_mem_takeLimit (List.mem_of_getLast? hLast))
        rw [hn, ← hBound] at hShorter
        obtain ⟨k, t, hRun, hEnd⟩ := ih _ hShorter hNext hUnmixed rfl
        exact ⟨k + 1, t, (hFirst k).trans hRun, hEnd⟩

/-- Where every page is read from a store in which the keys that the scan
reaches belong to the namespace, each page fits what was delivered before it,
the analyses come newest first, a walk that is over has met every record of
the first page's store once, and a walk ends once the writes stop. -/
theorem scanAnalysesByRoom_pages (marshals : AnalysisPb → Bool) (toLower : String → String)
    (hLimit : ∀ n ∈ limit, 1 ≤ n)
    (h : (walkMachine marshals toLower limit nameSpace).Reaches (ReadsUnmixed nameSpace) s) :
    (∀ i (page : ScanPage), s.pages[i]? = some page →
      page.Exact limit nameSpace ((s.pages.take i).flatMap ScanPage.analyses)) ∧
    (s.delivered.Pairwise fun a b => b.Older a) ∧
    (s.request = none → ∀ first ∈ s.pages.head?, ∀ a ∈ records nameSpace first.db,
      (s.delivered.map Analysis.mainKey).count a.mainKey = 1) ∧
    (Unmixed nameSpace s.repo.db →
      ∃ n t, (walkMachine marshals toLower limit nameSpace).exec s (List.replicate n .page) =
        some t ∧ t.request = none) := by
  have hSound := walk_sound hLimit h
  have hOrder := hSound.trail.descending
  refine ⟨hSound.exact, ?_, ?_, fun hUnmixed => hSound.ends marshals toLower hUnmixed hLimit⟩
  · refine (List.pairwise_map.mp hOrder).imp_of_mem ?_
    intro a b ha hb hLt
    obtain ⟨haName, haNano⟩ := hSound.nonneg a ha
    obtain ⟨hbName, hbNano⟩ := hSound.nonneg b hb
    exact (mainKey_lt_iff hbNano haNano (hbName.trans haName.symm)).mp hLt
  · intro hOver first hFirst a ha
    obtain ⟨hName, v, he, _⟩ := mem_records.mp ha
    have hInitial : a.mainKey ∈ s.initial := by
      rw [WalkState.initial, Option.mem_def.mp hFirst]
      exact List.mem_map_of_mem he
    have hRead := hSound.ended hOver _ hInitial (namespaceScope_mainKey hName)
    exact List.count_eq_one_of_mem (hOrder.imp fun hLt => hLt.ne') hRead

/-- Stored times lie in range and no stored namespace continues the scanned one
over its colon. -/
def Value.separate (nameSpace : String) : Value → Bool
  | .analysis p => decide (0 ≤ p.atTime) && decide (p.atTime < 2 ^ 63) &&
      !(nameSpace.toList ++ [':']).isPrefixOf p.nameSpace.toList
  | _ => true

def StoredApart (nameSpace : String) (s : WalkState) (_ : WalkAction) : Prop :=
  ∀ e ∈ s.repo.db.entries, e.2.separate nameSpace = true

instance (nameSpace : String) (s : WalkState) (a : WalkAction) :
    Decidable (StoredApart nameSpace s a) :=
  inferInstanceAs (Decidable (∀ e ∈ s.repo.db.entries, _))

/-- The namespace that a record of `x` runs into, with one record of its own. -/
def timedNamespace : String := "x:0000000000000000005"

def timedStore : Repository :=
  (store (fun _ => true) id (store (fun _ => true) id { db := .empty, documents := .empty }
    (sampleAnalysis "x" 5) .none).1 (sampleAnalysis timedNamespace 7) .none).1

def timedPage : ScanPage where
  db := timedStore.db
  analyses := [sampleAnalysis timedNamespace 7]
  next := some
    ((sampleAnalysis timedNamespace 7).mainKey.drop (namespaceStem timedNamespace).length)

def timedWalk : WalkState :=
  ((walkMachine (fun _ => true) id (some 1) timedNamespace).restrict
    (StoredApart timedNamespace)).after
    [.store (sampleAnalysis "x" 5) .none, .store (sampleAnalysis timedNamespace 7) .none, .page,
      .page]

theorem scanAnalysesByRoom_cursor_without_older :
    timedWalk.pages = [timedPage,
        { db := timedStore.db, analyses := [sampleAnalysis "x" 5], next := none }] ∧
      ¬ ∀ (limit : Option Int) (nameSpace : String) (s : WalkState), (∀ n ∈ limit, 1 ≤ n) →
        (walkMachine (fun _ => true) id limit nameSpace).Reaches (StoredApart nameSpace) s →
        ∀ i (page : ScanPage), s.pages[i]? = some page →
          page.Exact limit nameSpace ((s.pages.take i).flatMap ScanPage.analyses) := by
  obtain ⟨hPages, hRecords⟩ :
      timedWalk.pages = [timedPage,
        { db := timedStore.db, analyses := [sampleAnalysis "x" 5], next := none }] ∧
      records timedNamespace timedPage.db = [sampleAnalysis timedNamespace 7] := by
    decide +kernel
  refine ⟨hPages, ?_⟩
  intro hAlways
  have hFirst : timedWalk.pages[0]? = some timedPage := by
    rw [hPages]
    rfl
  have hExact := hAlways (some 1) timedNamespace timedWalk (by simp)
    (Machine.reaches_after_restrict _ _ _) 0 timedPage hFirst
  have hNone : timedPage.next = none := by
    rw [hExact.ends, hRecords]
    rintro ⟨a, ha, hOlder⟩
    obtain rfl := List.mem_singleton.mp ha
    exact absurd (hOlder _ (List.mem_append_right _ (List.mem_singleton_self _))) (by decide)
  cases hNone

def chatWalk : WalkState :=
  ((walkMachine (fun _ => true) id (some 1) "chat").restrict (ReadsUnmixed "chat")).after
    [.store (sampleAnalysis "chat" 5) .none, .store (sampleAnalysis "chat" 7) .none, .page,
      .store (sampleAnalysis "scan" 6) .none, .page]

theorem scanAnalysesByRoom_pages_chat :
    chatWalk.delivered = [sampleAnalysis "chat" 7, sampleAnalysis "chat" 5] ∧
      chatWalk.delivered.Pairwise fun a b => b.Older a := by
  refine ⟨by decide +kernel, ?_⟩
  have hLimit : ∀ n ∈ some (1 : Int), 1 ≤ n := by simp
  exact (scanAnalysesByRoom_pages (fun _ => true) id hLimit
    (Machine.reaches_after_restrict _ _ _)).2.1

end ChatLab.Storage
