import ChatLab.Storage.AnalysisHistory

/-!
# Searching the analysis repository

A search asks the Bluge index for document ids and reads each record by its
entity. Bluge itself is a parameter: how it matches text and compares numbers,
and one fixed ranking of the documents that match. A match whose record cannot
be read is logged and left out, while the total counts all matches. Searches
restricted to a namespace lose nothing by this; the search without a namespace
reads every record under the empty one.
-/

namespace ChatLab.Storage

open Foundation Foundation.Log Foundation.Pagination

/-! ## The index -/

inductive Clause
  | matchContent (query : String)
  | termNamespace (nameSpace : String)
  | numericRange (field : String) (min max : Float64)
deriving DecidableEq

/-- A bare clause, or a boolean query of required clauses. -/
inductive BlugeQuery
  | clause (c : Clause)
  | must (clauses : List Clause)
deriving DecidableEq

/-- `matchesText` is the analysis of query and content, `between` the inclusive
comparison of a numeric field with its bounds. -/
structure Matcher where
  matchesText : String → String → Bool
  between : Float64 → Float64 → Float64 → Bool

def Matcher.clauseMatches (m : Matcher) (doc : Document) : Clause → Bool
  | .matchContent query => m.matchesText query doc.content
  | .termNamespace nameSpace => decide (doc.nameSpace = nameSpace)
  | .numericRange field min max =>
    doc.numeric.any fun f => decide (f.1 = field) && m.between min max f.2

def Matcher.queryMatches (m : Matcher) (doc : Document) : BlugeQuery → Bool
  | .clause c => m.clauseMatches doc c
  | .must clauses => clauses.all (m.clauseMatches doc)

def Matcher.matching (m : Matcher) (documents : OrderedMap String Document) (query : BlugeQuery) :
    List String :=
  (documents.entries.filter fun e => m.queryMatches e.2 query).map Prod.fst

structure Bluge extends Matcher where
  ranking : OrderedMap String Document → BlugeQuery → List String
  ranking_perm : ∀ documents query,
    (ranking documents query).Perm (toMatcher.matching documents query)

structure TopNSearch where
  limit : Nat
  query : BlugeQuery
  offset : Nat
deriving DecidableEq

def Bluge.topN (engine : Bluge) (documents : OrderedMap String Document)
    (request : TopNSearch) : List String :=
  ((engine.ranking documents request.query).drop request.offset).take request.limit

/-! ## The searches -/

inductive SearchError
  | reader | countQuery | countIterator | search | iterator
deriving DecidableEq, Repr

/-- Where a search breaks off. -/
inductive SearchFault
  | none
  | reader | countQuery | countIterator | search
  | iterator (hits : Nat)
deriving DecidableEq

/-- What the index does during a search; the stored fields of the documents
`unreadable` cannot be visited. -/
structure SearchOutcome where
  unreadable : List String
  fault : SearchFault
deriving DecidableEq

def SearchOutcome.clean : SearchOutcome := { unreadable := [], fault := .none }

def hydrate (db : DB) (nameSpace : String) (unreadable : List String) :
    List String → List Analysis → List Analysis
  | [], results => results
  | idStr :: hits, results =>
    if idStr ∈ unreadable then hydrate db nameSpace unreadable hits results
    else
      match UUID.parse idStr.toList with
      | none => hydrate db nameSpace unreadable hits results
      | some msgId =>
        match fetchFullByEntityId db nameSpace msgId with
        | .error _ => hydrate db nameSpace unreadable hits results
        | .ok fullAnalysis => hydrate db nameSpace unreadable hits (results ++ [fullAnalysis])

section Searches

variable (engine : Bluge) (toLower : String → String) (blugeLimit : Nat) (repo : Repository)

def searchAndHydrate (request : TopNSearch) (query : BlugeQuery) (nameSpace : String)
    (outcome : SearchOutcome) : List Analysis × Nat × Option SearchError :=
  let totalCount := (engine.matching repo.documents query).length
  let hits := engine.topN repo.documents request
  let results := fun hits => hydrate repo.db nameSpace outcome.unreadable hits []
  match outcome.fault with
  | .reader => ([], 0, some .reader)
  | .countQuery => ([], 0, some .countQuery)
  | .countIterator => ([], 0, some .countIterator)
  | .search => ([], 0, some .search)
  | .iterator n => (results (hits.take n), (results (hits.take n)).length, some .iterator)
  | .none => (results hits, totalCount, none)

def contentQuery (query nameSpace : String) : BlugeQuery :=
  if nameSpace ≠ "" then .must [.matchContent query, .termNamespace nameSpace]
  else .clause (.matchContent query)

def searchPaginated (query nameSpace : String) (offset : Nat) (outcome : SearchOutcome) :
    List Analysis × Nat × Option SearchError :=
  let finalQuery := contentQuery query nameSpace
  searchAndHydrate engine repo { limit := blugeLimit, query := finalQuery, offset := offset }
    finalQuery nameSpace outcome

def scoreQuery (scoreName : String) (min max : Float64) (nameSpace : String) : BlugeQuery :=
  let range := Clause.numericRange (toLower scoreName) min max
  if nameSpace ≠ "" then .must [range, .termNamespace nameSpace] else .must [range]

def searchByScoreRange (scoreName : String) (min max : Float64) (nameSpace : String)
    (outcome : SearchOutcome) : List Analysis × Nat × Option SearchError :=
  let bq := scoreQuery toLower scoreName min max nameSpace
  searchAndHydrate engine repo { limit := blugeLimit, query := bq, offset := 0 } bq nameSpace
    outcome

end Searches

/-! ## What a search returns -/

/-- The record that a document id leads to under a namespace. -/
def hydrated (db : DB) (nameSpace : String) (idStr : String) : Option Analysis :=
  (UUID.parse idStr.toList).bind fun e => (fetchFullByEntityId db nameSpace e).toOption

theorem hydrate_eq (db : DB) (nameSpace : String) (hits : List String) (results : List Analysis) :
    hydrate db nameSpace [] hits results = results ++ hits.filterMap (hydrated db nameSpace) := by
  induction hits generalizing results with
  | nil => simp [hydrate]
  | cons idStr hits ih =>
    rw [hydrate, if_neg List.not_mem_nil, List.filterMap_cons]
    split
    · rename_i hParse
      simp [hydrated, hParse, ih]
    · rename_i msgId hParse
      split
      · rename_i e hFetch
        simp [hydrated, hParse, hFetch, ih, Except.toOption]
      · rename_i a hFetch
        simp [hydrated, hParse, hFetch, ih, Except.toOption]

theorem searchAndHydrate_clean (engine : Bluge) (repo : Repository) (request : TopNSearch)
    (query : BlugeQuery) (nameSpace : String) :
    searchAndHydrate engine repo request query nameSpace .clean =
      ((engine.topN repo.documents request).filterMap (hydrated repo.db nameSpace),
        (engine.matching repo.documents query).length, none) := by
  simp only [searchAndHydrate, SearchOutcome.clean, hydrate_eq, List.nil_append]

theorem mem_matching {m : Matcher} {documents : OrderedMap String Document} {query : BlugeQuery}
    {idStr : String} : idStr ∈ m.matching documents query ↔
      ∃ doc, documents.get? idStr = some doc ∧ m.queryMatches doc query = true := by
  simp only [Matcher.matching, List.mem_map, List.mem_filter]
  constructor
  · rintro ⟨⟨k, doc⟩, ⟨hEntry, hMatch⟩, rfl⟩
    exact ⟨doc, documents.get?_eq_some_iff.mpr hEntry, hMatch⟩
  · rintro ⟨doc, hGet, hMatch⟩
    exact ⟨(idStr, doc), ⟨documents.get?_eq_some_iff.mp hGet, hMatch⟩, rfl⟩

theorem matching_nodup (m : Matcher) (documents : OrderedMap String Document)
    (query : BlugeQuery) : (m.matching documents query).Nodup := by
  have hSub : (m.matching documents query).Sublist documents.keys :=
    List.filter_sublist.map Prod.fst
  exact hSub.nodup documents.keys_nodup

theorem Bluge.mem_ranking (engine : Bluge) {documents : OrderedMap String Document}
    {query : BlugeQuery} {idStr : String} :
    idStr ∈ engine.ranking documents query ↔
      ∃ doc, documents.get? idStr = some doc ∧ engine.queryMatches doc query = true :=
  (engine.ranking_perm documents query).mem_iff.trans mem_matching

theorem Bluge.mem_topN (engine : Bluge) {documents : OrderedMap String Document}
    {request : TopNSearch} {idStr : String} (h : idStr ∈ engine.topN documents request) :
    ∃ doc, documents.get? idStr = some doc ∧ engine.queryMatches doc request.query = true :=
  engine.mem_ranking.mp (List.mem_of_mem_drop (List.mem_of_mem_take h))

/-! ## Index and records in step -/

section Sync

variable {toLower : String → String} {repo : Repository} {stored : List Analysis}

theorem Contents.document_some (h : Contents toLower repo stored) {idStr : String}
    {doc : Document} (hDoc : repo.documents.get? idStr = some doc) :
    ∃ a, idStr = a.entityId.text ∧ last? Analysis.entityId stored a.entityId = some a ∧
      doc = (documentOf toLower a).2 := by
  rw [h.document] at hDoc
  obtain ⟨a, hLast, rfl⟩ := Option.map_eq_some_iff.mp hDoc
  refine ⟨a, (mem_of_last? hLast).2.symm, ?_, rfl⟩
  exact last?_of_finer (fun _ _ hEntity => congrArg UUID.text hEntity) hLast

theorem Contents.mem_documents_iff (h : Contents toLower repo stored) (idStr : String) :
    idStr ∈ repo.documents.keys ↔ ∃ e : UUID, idStr = e.text ∧ indexKey e ∈ repo.db.keys := by
  rw [OrderedMap.mem_keys_iff]
  constructor
  · rintro ⟨doc, hDoc⟩
    obtain ⟨a, rfl, hLast, _⟩ := h.document_some hDoc
    refine ⟨a.entityId, rfl, (OrderedMap.mem_keys_iff _).mpr ⟨.pointer a.mainKey, ?_⟩⟩
    rw [h.pointer, hLast]
    rfl
  · rintro ⟨e, rfl, hKey⟩
    obtain ⟨v, hv⟩ := (OrderedMap.mem_keys_iff _).mp hKey
    rw [h.pointer] at hv
    obtain ⟨a, hLast, _⟩ := Option.map_eq_some_iff.mp hv
    obtain ⟨ha, rfl⟩ := mem_of_last? hLast
    obtain ⟨b, hb⟩ := exists_last? (fun a : Analysis => a.entityId.text) ha
    refine ⟨(documentOf toLower b).2, ?_⟩
    rw [h.document, hb]
    rfl

theorem Contents.hydrated_eq (h : Contents toLower repo stored) {idStr : String} {doc : Document}
    (hDoc : repo.documents.get? idStr = some doc) (nameSpace : String) :
    ∃ a, idStr = a.entityId.text ∧ last? Analysis.entityId stored a.entityId = some a ∧
      hydrated repo.db nameSpace idStr =
        if doc.nameSpace = nameSpace then some a.persisted else none := by
  obtain ⟨a, rfl, hLast, rfl⟩ := h.document_some hDoc
  refine ⟨a, rfl, hLast, ?_⟩
  have hName : (documentOf toLower a).2.nameSpace = a.nameSpace := rfl
  rw [hydrated, UUID.parse_text, Option.bind_some, h.fetch_some hLast, hName]
  split <;> rfl

theorem map_some_filterMap {α β : Type} {f : α → Option β} {l : List α}
    (h : ∀ x ∈ l, (f x).isSome = true) : (l.filterMap f).map some = l.map f := by
  induction l with
  | nil => rfl
  | cons x l ih =>
    obtain ⟨y, hy⟩ := Option.isSome_iff_exists.mp (h x List.mem_cons_self)
    rw [List.filterMap_cons_some hy, List.map_cons, List.map_cons, hy,
      ih fun z hz => h z (List.mem_cons_of_mem _ hz)]

theorem Contents.hits_hydrate (h : Contents toLower repo stored) (engine : Bluge)
    {request : TopNSearch} {nameSpace : String}
    (hQuery : ∀ doc, engine.queryMatches doc request.query = true → doc.nameSpace = nameSpace) :
    ((engine.topN repo.documents request).filterMap (hydrated repo.db nameSpace)).map some =
      (engine.topN repo.documents request).map (hydrated repo.db nameSpace) := by
  apply map_some_filterMap
  intro idStr hHit
  obtain ⟨doc, hDoc, hMatch⟩ := engine.mem_topN hHit
  obtain ⟨a, _, _, hEq⟩ := h.hydrated_eq hDoc nameSpace
  rw [hEq, if_pos (hQuery doc hMatch)]
  rfl

end Sync

theorem nameSpace_of_contentQuery {m : Matcher} {query nameSpace : String} (h : nameSpace ≠ "")
    {doc : Document} (hMatch : m.queryMatches doc (contentQuery query nameSpace) = true) :
    doc.nameSpace = nameSpace := by
  rw [contentQuery, if_pos h] at hMatch
  simp only [Matcher.queryMatches, Matcher.clauseMatches, List.all_cons, List.all_nil,
    Bool.and_true, Bool.and_eq_true, decide_eq_true_eq] at hMatch
  exact hMatch.2

theorem nameSpace_of_scoreQuery {m : Matcher} {toLower : String → String} {scoreName : String}
    {min max : Float64} {nameSpace : String} (h : nameSpace ≠ "") {doc : Document}
    (hMatch : m.queryMatches doc (scoreQuery toLower scoreName min max nameSpace) = true) :
    doc.nameSpace = nameSpace := by
  rw [scoreQuery, if_pos h] at hMatch
  simp only [Matcher.queryMatches, Matcher.clauseMatches, List.all_cons, List.all_nil,
    Bool.and_true, Bool.and_eq_true, decide_eq_true_eq] at hMatch
  exact hMatch.2

/-- Bluge replaces a document by its id only across batches, so no batch may
hold one entity twice. -/
def DistinctBatch (_ : HistoryState) : StoreCall → Prop
  | .storeBatch analyses _ => (analyses.map Analysis.entityId).Nodup
  | .store _ _ => True
  | .foreign _ _ => True

instance (s : HistoryState) (call : StoreCall) : Decidable (DistinctBatch s call) := by
  cases call with
  | storeBatch analyses fault =>
    exact inferInstanceAs (Decidable ((analyses.map Analysis.entityId).Nodup))
  | store a fault => exact inferInstanceAs (Decidable True)
  | foreign key value => exact inferInstanceAs (Decidable True)

/-- The documents are those of the entities with a pointer, and each describes
the last analysis of its entity. -/
structure HistoryState.InStep (toLower : String → String) (s : HistoryState) : Prop where
  ids : ∀ idStr, idStr ∈ s.repo.documents.keys ↔
    ∃ e : UUID, idStr = e.text ∧ indexKey e ∈ s.repo.db.keys
  documents : ∀ (e : UUID) doc, s.repo.documents.get? e.text = some doc →
    ∃ a k p, s.lastStored e = some a ∧ s.repo.db.get? (indexKey e) = some (.pointer k) ∧
      s.repo.db.get? k = some (.analysis p) ∧ doc.nameSpace = p.nameSpace ∧
      (doc.content, doc.category) = prepareInternalData a ∧
      ∀ f ∈ doc.numeric, ∃ metric, a.scores.get? metric = some f.2 ∧ toLower metric = f.1

section InStep

variable {marshals : AnalysisPb → Bool} {toLower : String → String}

theorem inStep_of_contents {s : HistoryState} (h : Contents toLower s.repo s.stored) :
    s.InStep toLower where
  ids := h.mem_documents_iff
  documents := by
    intro e doc hDoc
    obtain ⟨a, hText, hLast, rfl⟩ := h.document_some hDoc
    obtain rfl := UUID.text_injective hText
    obtain ⟨p, hp, hRecord⟩ := h.get?_mainKey hLast
    refine ⟨a, a.mainKey, p, hLast, ?_, hRecord, ?_, rfl, ?_⟩
    · rw [h.pointer, hLast]
      rfl
    · obtain ⟨payload, _, rfl⟩ := Option.map_eq_some_iff.mp hp
      rfl
    · intro f hf
      obtain ⟨entry, hEntry, rfl⟩ := List.mem_map.mp hf
      exact ⟨entry.1, a.scores.get?_eq_some_iff.mpr hEntry, rfl⟩

def sampleEngine : Bluge where
  matchesText query content := query == content
  between min max x := min ≤ x && x ≤ max
  ranking documents query :=
    Matcher.matching
      { matchesText := fun query content => query == content,
        between := fun min max x => min ≤ x && x ≤ max } documents query
  ranking_perm _ _ := .rfl

theorem movedState_distinct :
    (historyMachine (fun _ => true) id).Reaches DistinctBatch movedState := by
  have hSame : ((historyMachine (fun _ => true) id).restrict DistinctBatch).after movedHistory =
      movedState := by decide +kernel
  rw [← hSame]
  exact Machine.reaches_after_restrict _ _ movedHistory

end InStep

/-! ## The search without a namespace -/

theorem flatMap_pages {α : Type} (l : List α) (size n : Nat) :
    ((List.range n).flatMap fun i => (l.drop (i * size)).take size) = l.take (n * size) := by
  induction n with
  | zero => simp
  | succ n ih =>
    rw [List.range_succ, List.flatMap_append, ih, Nat.succ_mul, List.take_add]
    simp

/-- The analysis is the record that the document stands for. -/
def HistoryState.RecordOf (s : HistoryState) (idStr : String) (a : Analysis) : Prop :=
  ∃ b, idStr = b.entityId.text ∧ s.lastStored b.entityId = some b ∧ a = b.persisted

section Unrestricted

variable (engine : Bluge) (toLower : String → String) (blugeLimit : Nat)

/-- A search answers with as many analyses as its window over the counted
matches has documents, and they are the records of these documents. -/
def HistoryState.Answers (s : HistoryState) (request : TopNSearch)
    (answer : List Analysis × Nat × Option SearchError) : Prop :=
  ∃ results total, answer = (results, total, none) ∧
    results.length = min request.limit (total - request.offset) ∧
    List.Forall₂ s.RecordOf (engine.topN s.repo.documents request) results

def walkPages (repo : Repository) (query : String) (pages : Nat) : List Analysis :=
  (List.range pages).flatMap fun i =>
    (searchPaginated engine blugeLimit repo query "" (i * blugeLimit) .clean).1

/-- Every page is as long as counted, and the walk over the pages comes to an end
with as many distinct analyses as were counted. -/
structure HistoryState.PaginatesCounted (s : HistoryState) (query : String) : Prop where
  page : ∀ offset, s.Answers engine
    { limit := blugeLimit, query := contentQuery query "", offset := offset }
    (searchPaginated engine blugeLimit s.repo query "" offset .clean)
  ends : ∃ pages,
    (searchPaginated engine blugeLimit s.repo query "" 0 .clean).2.1 ≤ pages * blugeLimit
  walk : ∀ pages total,
    (searchPaginated engine blugeLimit s.repo query "" 0 .clean).2.1 = total →
    total ≤ pages * blugeLimit →
    (walkPages engine blugeLimit s.repo query pages).length = total ∧
      (walkPages engine blugeLimit s.repo query pages).Nodup

/-- All documents of the list are filed under the empty namespace. -/
def Unfiled (documents : OrderedMap String Document) (ids : List String) : Prop :=
  ∀ idStr ∈ ids, ∀ doc, documents.get? idStr = some doc → doc.nameSpace = ""

variable {engine toLower blugeLimit} {s : HistoryState}

theorem Bluge.length_topN (documents : OrderedMap String Document) (request : TopNSearch) :
    (engine.topN documents request).length =
      min request.limit ((engine.matching documents request.query).length - request.offset) := by
  rw [Bluge.topN, List.length_take, List.length_drop,
    (engine.ranking_perm documents request.query).length_eq]

theorem map_entityId_of_recordOf {ids : List String} {results : List Analysis}
    (h : List.Forall₂ s.RecordOf ids results) :
    results.map (fun a => a.entityId.text) = ids := by
  induction h with
  | nil => rfl
  | cons hHead _ ih =>
    obtain ⟨b, rfl, _, rfl⟩ := hHead
    rw [List.map_cons, ih]
    rfl

theorem records_of_unfiled (h : Contents toLower s.repo s.stored) {ids : List String}
    (hKeys : ∀ idStr ∈ ids, ∃ doc, s.repo.documents.get? idStr = some doc)
    (hUnfiled : Unfiled s.repo.documents ids) :
    List.Forall₂ s.RecordOf ids (ids.filterMap (hydrated s.repo.db "")) := by
  induction ids with
  | nil => exact .nil
  | cons idStr ids ih =>
    obtain ⟨doc, hDoc⟩ := hKeys idStr List.mem_cons_self
    obtain ⟨a, hText, hLast, hEq⟩ := h.hydrated_eq hDoc ""
    rw [if_pos (hUnfiled idStr List.mem_cons_self doc hDoc)] at hEq
    rw [List.filterMap_cons_some hEq]
    refine .cons ⟨a, hText, hLast, rfl⟩ (ih ?_ ?_)
    · intro d hd
      exact hKeys d (List.mem_cons_of_mem _ hd)
    · intro d hd
      exact hUnfiled d (List.mem_cons_of_mem _ hd)

theorem unfiled_of_length (h : Contents toLower s.repo s.stored) {ids : List String}
    (hLength : (ids.filterMap (hydrated s.repo.db "")).length = ids.length) :
    Unfiled s.repo.documents ids := by
  intro idStr hId doc hDoc
  have hSome := List.filterMap_length_eq_length.mp hLength idStr hId
  obtain ⟨a, _, _, hEq⟩ := h.hydrated_eq hDoc ""
  by_contra hOther
  rw [hEq, if_neg hOther] at hSome
  cases hSome

theorem answers_iff (h : Contents toLower s.repo s.stored) (request : TopNSearch) :
    s.Answers engine request (searchAndHydrate engine s.repo request request.query "" .clean) ↔
      Unfiled s.repo.documents (engine.topN s.repo.documents request) := by
  rw [searchAndHydrate_clean]
  constructor
  · rintro ⟨results, total, hAnswer, hLength, hRecords⟩
    obtain ⟨rfl, _⟩ := Prod.mk.inj hAnswer
    exact unfiled_of_length h hRecords.length_eq.symm
  · intro hUnfiled
    have hRecords := records_of_unfiled h
      (fun idStr hHit => (engine.mem_topN hHit).imp fun _ hDoc => hDoc.1) hUnfiled
    refine ⟨_, _, rfl, ?_, hRecords⟩
    rw [← hRecords.length_eq, Bluge.length_topN]

theorem walkPages_eq (repo : Repository) (query : String) (pages : Nat) :
    walkPages engine blugeLimit repo query pages =
      ((engine.ranking repo.documents (contentQuery query "")).take
        (pages * blugeLimit)).filterMap (hydrated repo.db "") := by
  rw [← flatMap_pages, List.filterMap_flatMap]
  simp only [walkPages, searchPaginated, searchAndHydrate_clean]
  rfl

/-- Each matching document heads the page that starts at its rank. -/
theorem HistoryState.PaginatesCounted.unfiled (h : Contents toLower s.repo s.stored)
    {query : String} (hPages : s.PaginatesCounted engine blugeLimit query) (hPos : 0 < blugeLimit) :
    Unfiled s.repo.documents (engine.matching s.repo.documents (contentQuery query "")) := by
  intro idStr hMatch
  have hPerm := engine.ranking_perm s.repo.documents (contentQuery query "")
  obtain ⟨i, hRank⟩ := List.mem_iff_getElem?.mp (hPerm.mem_iff.mpr hMatch)
  have hPage := (answers_iff h _).mp (hPages.page i)
  apply hPage
  rw [Bluge.topN, List.mem_iff_getElem?]
  refine ⟨0, ?_⟩
  rw [List.getElem?_take_of_lt hPos, List.getElem?_drop]
  exact hRank

theorem walkPages_counted (h : Contents toLower s.repo s.stored) {query : String} {pages : Nat}
    (hUnfiled : Unfiled s.repo.documents (engine.ranking s.repo.documents (contentQuery query "")))
    (hEnough : (engine.ranking s.repo.documents (contentQuery query "")).length ≤
      pages * blugeLimit) :
    (walkPages engine blugeLimit s.repo query pages).length =
        (engine.ranking s.repo.documents (contentQuery query "")).length ∧
      (walkPages engine blugeLimit s.repo query pages).Nodup := by
  have hRecords := records_of_unfiled h
    (fun idStr hRank => (engine.mem_ranking.mp hRank).imp fun _ hDoc => hDoc.1) hUnfiled
  rw [walkPages_eq, List.take_of_length_le hEnough]
  refine ⟨hRecords.length_eq.symm, ?_⟩
  have hPerm := engine.ranking_perm s.repo.documents (contentQuery query "")
  have hNodup := hPerm.nodup_iff.mpr (matching_nodup _ _ _)
  rw [← map_entityId_of_recordOf hRecords] at hNodup
  exact hNodup.of_map _

theorem searchPaginated_total (repo : Repository) (query : String) (offset : Nat) :
    (searchPaginated engine blugeLimit repo query "" offset .clean).2.1 =
      (engine.matching repo.documents (contentQuery query "")).length := by
  rw [searchPaginated, searchAndHydrate_clean]

theorem paginatesCounted_iff (h : Contents toLower s.repo s.stored) (query : String) :
    s.PaginatesCounted engine blugeLimit query ↔
      (blugeLimit = 0 → engine.matching s.repo.documents (contentQuery query "") = []) ∧
        Unfiled s.repo.documents (engine.matching s.repo.documents (contentQuery query "")) := by
  have hPerm := engine.ranking_perm s.repo.documents (contentQuery query "")
  constructor
  · intro hPages
    have hNone : blugeLimit = 0 →
        engine.matching s.repo.documents (contentQuery query "") = [] := by
      rintro rfl
      obtain ⟨pages, hEnd⟩ := hPages.ends
      rw [searchPaginated_total, Nat.mul_zero, Nat.le_zero] at hEnd
      exact List.eq_nil_of_length_eq_zero hEnd
    refine ⟨hNone, ?_⟩
    obtain hZero | hPos := Nat.eq_zero_or_pos blugeLimit
    · rw [hNone hZero]
      exact fun _ hId => absurd hId List.not_mem_nil
    · exact hPages.unfiled h hPos
  · rintro ⟨hNone, hUnfiled⟩
    refine ⟨?_, ?_, ?_⟩
    · intro offset
      refine (answers_iff h _).mpr ?_
      intro idStr hId
      exact hUnfiled idStr (hPerm.mem_iff.mp (List.mem_of_mem_drop (List.mem_of_mem_take hId)))
    · rw [searchPaginated_total]
      obtain hZero | hPos := Nat.eq_zero_or_pos blugeLimit
      · exact ⟨0, by rw [hNone hZero]; exact Nat.zero_le _⟩
      · exact ⟨_, Nat.le_mul_of_pos_right _ hPos⟩
    · intro pages total hTotal hEnough
      rw [searchPaginated_total, ← hPerm.length_eq] at hTotal
      rw [← hTotal] at hEnough ⊢
      exact walkPages_counted h (fun idStr hId => hUnfiled idStr (hPerm.mem_iff.mp hId)) hEnough

end Unrestricted

end ChatLab.Storage
