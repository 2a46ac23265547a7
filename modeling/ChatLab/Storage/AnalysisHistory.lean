import ChatLab.Foundation.Log
import ChatLab.Storage.AnalysisScan

/-!
# What the analysis repository holds after a history of stores

Successful calls leave the repository a function of the list of analyses they
stored: a pointer leads to the key of the last analysis of its entity, a record
is the last analysis with its key, a document the last analysis with its id.
Reads by entity follow. The key of a record also carries time and namespace, so
an entity that is stored again with other ones keeps its former record; when a
scan shows such a record is the second result.
-/

namespace ChatLab.Storage

open Foundation Foundation.Log Foundation.Pagination

/-! ## One analysis in both stores -/

section Put

variable (marshals : AnalysisPb → Bool) (toLower : String → String)

def Repository.put (repo : Repository) (a : Analysis) (p : AnalysisPb) : Repository where
  db := repo.db.insertAll (analysisWrites a p)
  documents := repo.documents.insertAll [documentOf toLower a]

theorem Repository.get?_put (repo : Repository) (a : Analysis) (p : AnalysisPb) (k : Key) :
    (repo.put toLower a p).db.get? k =
      if k = indexKey a.entityId then some (.pointer a.mainKey)
      else if k = a.mainKey then some (.analysis p) else repo.db.get? k := by
  simp only [put, analysisWrites, OrderedMap.insertAll_cons, OrderedMap.insertAll_nil,
    OrderedMap.get?_insert]
  split_ifs <;> rfl

/-- The analyses written one after the other. -/
inductive Written : Repository → List Analysis → Repository → Prop
  | nil (repo : Repository) : Written repo [] repo
  | cons {repo final : Repository} {a : Analysis} {p : AnalysisPb} {rest : List Analysis} :
      fromAnalysis a = some p → Written (repo.put toLower a p) rest final →
      Written repo (a :: rest) final

variable {marshals toLower}

theorem commitWrites_ok {repo : Repository} {sets : List (Key × Value)}
    {documents : List (String × Document)} {fault : Fault}
    (h : (commitWrites repo sets documents fault).2 = .ok ()) :
    (commitWrites repo sets documents fault).1 =
      { db := repo.db.insertAll sets, documents := repo.documents.insertAll documents } := by
  cases fault with
  | none => rfl
  | badger mask => cases h
  | bluge mask => cases h

theorem store_written {repo : Repository} {a : Analysis} {fault : Fault}
    (h : (store marshals toLower repo a fault).2 = .ok ()) :
    Written toLower repo [a] (store marshals toLower repo a fault).1 := by
  unfold store at h ⊢
  split at h
  · cases h
  · rename_i p hp
    split at h
    · rename_i hMarshal
      simp only [hMarshal, if_true]
      rw [commitWrites_ok h]
      exact .cons hp (.nil _)
    · cases h

theorem store_put {repo : Repository} {a : Analysis} {fault : Fault}
    (h : (store marshals toLower repo a fault).2 = .ok ()) :
    ∃ p, fromAnalysis a = some p ∧
      (store marshals toLower repo a fault).1 = repo.put toLower a p := by
  have hWritten := store_written h
  generalize (store marshals toLower repo a fault).1 = final at hWritten
  cases hWritten with
  | cons hp hRest =>
    cases hRest
    exact ⟨_, hp, rfl⟩

theorem written_of_prepareBatch {analyses : List Analysis} {sets : List (Key × Value)}
    (h : prepareBatch marshals analyses = (sets, none)) (repo : Repository) :
    Written toLower repo analyses
      { db := repo.db.insertAll sets,
        documents := repo.documents.insertAll (analyses.map (documentOf toLower)) } := by
  induction analyses generalizing sets repo with
  | nil =>
    cases h
    exact .nil repo
  | cons a rest ih =>
    rw [prepareBatch] at h
    split at h
    · cases h
    · rename_i p hp
      split at h
      · obtain ⟨rfl, hRest⟩ := Prod.mk.inj h
        have hTail := ih (Prod.ext rfl hRest) (repo.put toLower a p)
        rw [OrderedMap.insertAll_append]
        exact .cons hp hTail
      · cases h

theorem storeBatch_written {repo : Repository} {analyses : List Analysis} {fault : Fault}
    (h : (storeBatch marshals toLower repo analyses fault).2 = .ok ()) :
    Written toLower repo analyses (storeBatch marshals toLower repo analyses fault).1 := by
  unfold storeBatch at h ⊢
  split at h
  · cases h
  · rename_i sets hPrepare
    rw [commitWrites_ok h]
    exact written_of_prepareBatch hPrepare repo

end Put

/-! ## Histories -/

/-- The repository, and the analyses of the calls that returned nil, in the
order in which they were written. -/
structure HistoryState where
  repo : Repository
  stored : List Analysis
deriving DecidableEq

inductive StoreCall
  | store (a : Analysis) (fault : Fault)
  | storeBatch (analyses : List Analysis) (fault : Fault)
  | foreign (key : Key) (value : Option Value)
deriving DecidableEq

def HistoryState.succeed (s : HistoryState) (analyses : List Analysis) :
    Repository × Except AnalysisError Unit → Option HistoryState
  | (repo, .ok ()) => some { repo := repo, stored := s.stored ++ analyses }
  | (_, .error _) => none

def HistoryState.lastStored (s : HistoryState) (entityId : UUID) : Option Analysis :=
  last? Analysis.entityId s.stored entityId

section Histories

variable (marshals : AnalysisPb → Bool) (toLower : String → String)

def historyStep (s : HistoryState) : StoreCall → Option HistoryState
  | .store a fault => s.succeed [a] (store marshals toLower s.repo a fault)
  | .storeBatch analyses fault =>
    s.succeed analyses (storeBatch marshals toLower s.repo analyses fault)
  | .foreign key value =>
    if foreignKey key then
      some { s with repo := { s.repo with db := foreignWrite s.repo.db key value } }
    else none

def historyMachine : Machine HistoryState StoreCall where
  start := { repo := { db := .empty, documents := .empty }, stored := [] }
  step := historyStep marshals toLower

variable {marshals toLower}

theorem HistoryState.succeed_some {s t : HistoryState} {analyses : List Analysis}
    {answer : Repository × Except AnalysisError Unit} (h : s.succeed analyses answer = some t) :
    answer.2 = .ok () ∧ t = { repo := answer.1, stored := s.stored ++ analyses } := by
  obtain ⟨repo, outcome⟩ := answer
  cases outcome with
  | error e => cases h
  | ok u =>
    cases h
    exact ⟨rfl, rfl⟩

variable {I : Repository → List Analysis → Prop}

theorem Written.invariant
    (hPut : ∀ repo stored a p, I repo stored → fromAnalysis a = some p →
      I (repo.put toLower a p) (stored ++ [a]))
    {repo final : Repository} {analyses : List Analysis} (h : Written toLower repo analyses final)
    {stored : List Analysis} (hI : I repo stored) : I final (stored ++ analyses) := by
  induction h generalizing stored with
  | nil => rwa [List.append_nil]
  | @cons repo _ a _ _ hp _ ih =>
    rw [List.append_cons]
    exact ih (hPut repo stored a _ hI hp)

/-- What one written analysis and one write of another repository preserve
holds after every history. -/
theorem HistoryState.invariant (hEmpty : I { db := .empty, documents := .empty } [])
    (hPut : ∀ repo stored a p, I repo stored → fromAnalysis a = some p →
      I (repo.put toLower a p) (stored ++ [a]))
    (hForeign : ∀ repo stored key value, I repo stored → foreignKey key = true →
      I { repo with db := foreignWrite repo.db key value } stored)
    {s : HistoryState} (h : (historyMachine marshals toLower).Reachable s) : I s.repo s.stored := by
  refine Machine.Reachable.invariant (I := fun s => I s.repo s.stored) hEmpty ?_ h
  intro s call t hI hStep
  cases call with
  | store a fault =>
    obtain ⟨hOk, rfl⟩ := HistoryState.succeed_some hStep
    exact (store_written hOk).invariant hPut hI
  | storeBatch analyses fault =>
    obtain ⟨hOk, rfl⟩ := HistoryState.succeed_some hStep
    exact (storeBatch_written hOk).invariant hPut hI
  | foreign key value =>
    change historyStep marshals toLower s (.foreign key value) = some t at hStep
    rw [historyStep] at hStep
    split at hStep
    · cases hStep
      exact hForeign _ _ key value hI ‹_›
    · cases hStep

end Histories

/-! ## The contents -/

/-- Both stores as functions of what was stored. -/
structure Contents (toLower : String → String) (repo : Repository) (stored : List Analysis) :
    Prop where
  written : ∀ a ∈ stored, ∃ p, fromAnalysis a = some p
  pointer : ∀ e, repo.db.get? (indexKey e) =
    (last? Analysis.entityId stored e).map fun a => .pointer a.mainKey
  record : ∀ k, analysisStem <+: k → repo.db.get? k =
    (last? Analysis.mainKey stored k).bind fun a => (fromAnalysis a).map .analysis
  document : ∀ id, repo.documents.get? id =
    (last? (fun a => a.entityId.text) stored id).map fun a => (documentOf toLower a).2

theorem not_prefix_indexKey (e : UUID) : ¬ analysisStem <+: indexKey e := by
  rintro ⟨rest, hRest⟩
  exact analysis_ne_index _ _ hRest

theorem prefix_mainKey (a : Analysis) : analysisStem <+: a.mainKey :=
  List.isPrefixOf_iff_prefix.mp (isPrefixOf_buildKey _ _ _)

section Contents

variable {toLower : String → String} {repo : Repository} {stored : List Analysis}

theorem Contents.empty : Contents toLower { db := .empty, documents := .empty } [] where
  written := by
    intro a ha
    cases ha
  pointer e := rfl
  record k _ := rfl
  document id := rfl

theorem Contents.put (h : Contents toLower repo stored) {a : Analysis} {p : AnalysisPb}
    (hp : fromAnalysis a = some p) : Contents toLower (repo.put toLower a p) (stored ++ [a]) where
  written := by
    intro b hb
    obtain hb | hb := List.mem_append.mp hb
    · exact h.written b hb
    · obtain rfl := List.mem_singleton.mp hb
      exact ⟨p, hp⟩
  pointer e := by
    rw [Repository.get?_put, last?_concat, if_neg (mainKey_ne_indexKey a e).symm]
    by_cases hSame : a.entityId = e
    · subst hSame
      rw [if_pos rfl, if_pos rfl]
      rfl
    · rw [if_neg hSame, if_neg fun hKey => hSame (indexKey_injective hKey).symm]
      exact h.pointer e
  record k hStem := by
    have hIndex : k ≠ indexKey a.entityId := by
      rintro rfl
      exact not_prefix_indexKey _ hStem
    rw [Repository.get?_put, last?_concat, if_neg hIndex]
    by_cases hSame : a.mainKey = k
    · rw [if_pos hSame.symm, if_pos hSame]
      change some (Value.analysis p) = (fromAnalysis a).map .analysis
      rw [hp]
      rfl
    · rw [if_neg fun hKey => hSame hKey.symm, if_neg hSame]
      exact h.record k hStem
  document id := by
    have hGet : (repo.put toLower a p).documents.get? id =
        if id = a.entityId.text then some (documentOf toLower a).2
        else repo.documents.get? id := by
      simp only [Repository.put, OrderedMap.insertAll_cons, OrderedMap.insertAll_nil,
        OrderedMap.get?_insert]
      rfl
    rw [hGet, last?_concat]
    by_cases hSame : a.entityId.text = id
    · rw [if_pos hSame.symm, if_pos hSame]
      rfl
    · rw [if_neg fun hKey => hSame hKey.symm, if_neg hSame]
      exact h.document id

theorem Contents.foreign (h : Contents toLower repo stored) {key : Key}
    (hKey : foreignKey key = true) (value : Option Value) :
    Contents toLower { repo with db := foreignWrite repo.db key value } stored := by
  rw [foreignKey, Bool.and_eq_true, Bool.not_eq_true', Bool.not_eq_true'] at hKey
  obtain ⟨hAnalysis, hIndex⟩ := hKey
  refine ⟨h.written, ?_, ?_, h.document⟩
  · intro e
    have hNe : indexKey e ≠ key := by
      rintro rfl
      have hStem : indexStem.isPrefixOf (indexKey e) = true :=
        List.isPrefixOf_iff_prefix.mpr (List.prefix_append _ _)
      rw [hStem] at hIndex
      cases hIndex
    rw [← h.pointer e]
    exact get?_foreignWrite hNe
  · intro k hStem
    have hNe : k ≠ key := by
      rintro rfl
      rw [List.isPrefixOf_iff_prefix.mpr hStem] at hAnalysis
      cases hAnalysis
    rw [← h.record k hStem]
    exact get?_foreignWrite hNe

theorem contents_of_reachable {marshals : AnalysisPb → Bool} {s : HistoryState}
    (h : (historyMachine marshals toLower).Reachable s) : Contents toLower s.repo s.stored :=
  HistoryState.invariant Contents.empty (fun _ _ _ _ hI hp => hI.put hp)
    (fun _ _ _ value hI hKey => hI.foreign hKey value) h

/-! ## Reading by entity -/

theorem entityId_eq_of_mainKey {a b : Analysis} (h : a.mainKey = b.mainKey) :
    a.entityId = b.entityId :=
  (mainKey_eq_iff.mp h).2.2

theorem Contents.fetch_none (h : Contents toLower repo stored) {e : UUID}
    (hLast : last? Analysis.entityId stored e = none) (nameSpace : String) :
    fetchFullByEntityId repo.db nameSpace e = .error (.indexNotFound e) := by
  have hPointer := h.pointer e
  rw [hLast] at hPointer
  rw [fetchFullByEntityId, hPointer]
  rfl

theorem Contents.get?_mainKey (h : Contents toLower repo stored) {e : UUID} {a : Analysis}
    (hLast : last? Analysis.entityId stored e = some a) :
    ∃ p, fromAnalysis a = some p ∧ repo.db.get? a.mainKey = some (.analysis p) := by
  obtain ⟨p, hp⟩ := h.written a (mem_of_last? hLast).1
  have hRecord := h.record a.mainKey (prefix_mainKey a)
  rw [last?_of_finer (fun _ _ => entityId_eq_of_mainKey) hLast, Option.bind_some, hp] at hRecord
  exact ⟨p, hp, hRecord⟩

theorem Contents.fetch_some (h : Contents toLower repo stored) {e : UUID} {a : Analysis}
    (hLast : last? Analysis.entityId stored e = some a) (nameSpace : String) :
    fetchFullByEntityId repo.db nameSpace e =
      if a.nameSpace = nameSpace then .ok a.persisted
      else .error (.securityViolation e nameSpace) := by
  have hPointer := h.pointer e
  rw [hLast] at hPointer
  obtain ⟨p, hp, hRecord⟩ := h.get?_mainKey hLast
  have hDecode : decodeAnalysis (.analysis p) = .ok a.persisted := toAnalysis_of_fromAnalysis hp
  rw [fetchFullByEntityId, hPointer]
  simp only [Option.map_some, hRecord, hDecode]
  rfl

theorem Contents.fetch_ok (h : Contents toLower repo stored) {nameSpace : String} {e : UUID}
    {r : Analysis} (hFetch : fetchFullByEntityId repo.db nameSpace e = .ok r) :
    ∃ a, last? Analysis.entityId stored e = some a ∧ a.entityId = e ∧ a.nameSpace = nameSpace ∧
      r = a.persisted := by
  cases hLast : last? Analysis.entityId stored e with
  | none =>
    rw [h.fetch_none hLast] at hFetch
    cases hFetch
  | some a =>
    rw [h.fetch_some hLast] at hFetch
    split at hFetch
    · rename_i hName
      exact ⟨a, rfl, (mem_of_last? hLast).2, hName, (Except.ok.inj hFetch).symm⟩
    · cases hFetch

theorem Repository.fetch_put (repo : Repository) (toLower : String → String) {a : Analysis}
    {p : AnalysisPb} (hp : fromAnalysis a = some p) (nameSpace : String) :
    fetchFullByEntityId (repo.put toLower a p).db nameSpace a.entityId =
      if a.nameSpace = nameSpace then .ok a.persisted
      else .error (.securityViolation a.entityId nameSpace) := by
  have hPointer : (repo.put toLower a p).db.get? (indexKey a.entityId) =
      some (.pointer a.mainKey) := by
    rw [repo.get?_put, if_pos rfl]
  have hRecord : (repo.put toLower a p).db.get? a.mainKey = some (.analysis p) := by
    rw [repo.get?_put, if_neg (mainKey_ne_indexKey a _), if_pos rfl]
  have hDecode : decodeAnalysis (.analysis p) = .ok a.persisted := toAnalysis_of_fromAnalysis hp
  simp only [fetchFullByEntityId, hPointer, hRecord, hDecode]
  rfl

theorem Contents.fetch_put_of_ne (h : Contents toLower repo stored) {a : Analysis} {p : AnalysisPb}
    (hp : fromAnalysis a = some p) {e : UUID} (hOther : a.entityId ≠ e) (nameSpace : String) :
    fetchFullByEntityId (repo.put toLower a p).db nameSpace e =
      fetchFullByEntityId repo.db nameSpace e := by
  have hSame : last? Analysis.entityId (stored ++ [a]) e = last? Analysis.entityId stored e := by
    rw [last?_concat, if_neg hOther]
  cases hLast : last? Analysis.entityId stored e with
  | none => rw [h.fetch_none hLast, (h.put hp).fetch_none (hSame.trans hLast)]
  | some b => rw [h.fetch_some hLast, (h.put hp).fetch_some (hSame.trans hLast)]

end Contents

/-- Under these stems the other repositories keep messages, users and tasks. -/
def sharedStems : List Key := [messageStem, "user:".toList, "work:".toList]

theorem not_prefix_of_sharedStem {stem : Key} (h : stem ∈ sharedStems) (rest : Key) :
    ¬ stem <+: analysisStem ++ rest ∧ ¬ stem <+: indexStem ++ rest := by
  simp only [sharedStems, List.mem_cons, List.not_mem_nil, or_false] at h
  constructor
  · rintro ⟨x, hx⟩
    obtain rfl | rfl | rfl := h
    · exact ne_of_stems (i := 0) (by decide) (by decide) (by decide) hx
    · exact ne_of_stems (i := 0) (by decide) (by decide) (by decide) hx
    · exact ne_of_stems (i := 0) (by decide) (by decide) (by decide) hx
  · rintro ⟨x, hx⟩
    obtain rfl | rfl | rfl := h
    · exact ne_of_stems (i := 0) (by decide) (by decide) (by decide) hx
    · exact ne_of_stems (i := 0) (by decide) (by decide) (by decide) hx
    · exact ne_of_stems (i := 0) (by decide) (by decide) (by decide) hx

/-- Every write of the other repositories is a step of the history machine. -/
theorem foreignKey_of_sharedStem {stem key : Key} (h : stem ∈ sharedStems) (hKey : stem <+: key) :
    foreignKey key = true := by
  have hNone : ∀ own, (∀ rest, ¬ stem <+: own ++ rest) → own.isPrefixOf key = false := by
    intro own hOwn
    rw [Bool.eq_false_iff]
    intro hPrefix
    obtain ⟨rest, rfl⟩ := List.isPrefixOf_iff_prefix.mp hPrefix
    exact hOwn rest hKey
  rw [foreignKey, hNone analysisStem fun rest => (not_prefix_of_sharedStem h rest).1,
    hNone indexStem fun rest => (not_prefix_of_sharedStem h rest).2]
  rfl

theorem not_prefix_buildKey {stem : Key} (h : stem ∈ indexStem :: sharedStems)
    (nameSpace : String) (atTime : Int) (entityId : UUID) :
    ¬ stem <+: buildKey nameSpace atTime entityId := by
  rw [buildKey_eq]
  obtain rfl | h := List.mem_cons.mp h
  · rintro ⟨rest, hRest⟩
    exact analysis_ne_index _ _ hRest.symm
  · exact (not_prefix_of_sharedStem h _).1

section ReadYourWrites

variable {marshals : AnalysisPb → Bool} {toLower : String → String}

theorem fetchFullByEntityId_reads_last_store {s : HistoryState}
    (h : (historyMachine marshals toLower).Reachable s) :
    (∀ e a, s.lastStored e = some a → ∃ p r, fromAnalysis a = some p ∧ toAnalysis p = .ok r ∧
      fetchFullByEntityId s.repo.db a.nameSpace e = .ok r ∧
      ∀ nameSpace, nameSpace ≠ a.nameSpace →
        fetchFullByEntityId s.repo.db nameSpace e = .error (.securityViolation e nameSpace)) ∧
    (∀ e, s.lastStored e = none → ∀ nameSpace,
      fetchFullByEntityId s.repo.db nameSpace e = .error (.indexNotFound e)) ∧
    (∀ nameSpace atTime e nameSpace' atTime' e',
      buildKey nameSpace atTime e = buildKey nameSpace' atTime' e' ↔
        nameSpace = nameSpace' ∧ unixNano atTime = unixNano atTime' ∧ e = e') ∧
    ∀ stem ∈ indexStem :: sharedStems, ∀ nameSpace atTime e,
      ¬ stem <+: buildKey nameSpace atTime e := by
  have hContents := contents_of_reachable h
  refine ⟨?_, ?_, ?_, ?_⟩
  · intro e a hLast
    obtain ⟨p, hp⟩ := hContents.written a (mem_of_last? hLast).1
    refine ⟨p, a.persisted, hp, toAnalysis_of_fromAnalysis hp, ?_, ?_⟩
    · rw [hContents.fetch_some hLast, if_pos rfl]
    · intro nameSpace hOther
      rw [hContents.fetch_some hLast, if_neg hOther.symm]
  · intro e hNone
    exact hContents.fetch_none hNone
  · intro nameSpace atTime e nameSpace' atTime' e'
    exact buildKey_eq_iff
  · intro stem hStem
    exact not_prefix_buildKey hStem

/-- One entity is stored in a room and stored again later by a batch in another
one; a message is deleted between the two. -/
def movedHistory : List StoreCall :=
  [.store (sampleAnalysis "a:b" 5) .none,
    .foreign "msg:1:x".toList none,
    .storeBatch [sampleAnalysis "c" 6] .none]

def movedState : HistoryState := (historyMachine (fun _ => true) id).after movedHistory

theorem movedState_reachable : (historyMachine (fun _ => true) id).Reachable movedState :=
  Machine.reachable_after movedHistory

theorem fetchFullByEntityId_reads_moved :
    fetchFullByEntityId movedState.repo.db "a:b" UUID.nil =
      .error (.securityViolation UUID.nil "a:b") := by
  obtain ⟨hLast, _⟩ := fetchFullByEntityId_reads_last_store movedState_reachable
  obtain ⟨_, _, _, _, _, hOther⟩ := hLast UUID.nil (sampleAnalysis "c" 6) (by decide +kernel)
  exact hOther "a:b" (by decide)

end ReadYourWrites

/-! ## Former records -/

/-- No entity has two records, and the pointer of an entity leads to the one it has. -/
structure HistoryState.OneRecord (s : HistoryState) : Prop where
  single : ∀ d ∈ s.repo.db.entries, ∀ e ∈ s.repo.db.entries, ∀ a b, IsRecord a d → IsRecord b e →
    a.entityId = b.entityId → d = e
  designated : ∀ e ∈ s.repo.db.entries, ∀ a, IsRecord a e →
    s.repo.db.get? (indexKey a.entityId) = some (.pointer e.1)

/-- The cursors met when the pages of a namespace are followed from the first. -/
inductive Follows (badgerLimit : Option Int) (db : DB) (nameSpace : String) : Option Key → Prop
  | first : Follows badgerLimit db nameSpace none
  | next {cursor : Option Key} {as : List Analysis} {c : Key} :
      Follows badgerLimit db nameSpace cursor →
      scanAnalysesByRoom badgerLimit db nameSpace cursor = .ok (as, some c) →
      Follows badgerLimit db nameSpace (some c)

/-- Every page answers, and what it shows is what a read by entity returns. -/
def HistoryState.ScansCurrent (s : HistoryState) (nameSpace : String) : Prop :=
  ∀ badgerLimit cursor, Follows badgerLimit s.repo.db nameSpace cursor →
    ∃ as next, scanAnalysesByRoom badgerLimit s.repo.db nameSpace cursor = .ok (as, next) ∧
      ∀ a ∈ as, fetchFullByEntityId s.repo.db nameSpace a.entityId = .ok a

/-- The scan of the namespace walks over the key of the analysis. -/
def InScan (nameSpace : String) (a : Analysis) : Prop :=
  namespaceStem nameSpace <+: a.mainKey ∧ a.mainKey ≤ namespaceStem nameSpace ++ lastTimestamp

section Former

variable {marshals : AnalysisPb → Bool} {toLower : String → String} {repo : Repository}
  {stored : List Analysis}

theorem Contents.record_of_mem (h : Contents toLower repo stored) {e : Key × Value}
    (he : e ∈ repo.db.entries) (hStem : analysisStem <+: e.1) :
    ∃ a, last? Analysis.mainKey stored e.1 = some a ∧ IsRecord a e := by
  have hRecord := h.record e.1 hStem
  rw [repo.db.get?_eq_some_iff.mpr he] at hRecord
  obtain ⟨a, hLast, hValue⟩ := Option.bind_eq_some_iff.mp hRecord.symm
  obtain ⟨p, hp, hpe⟩ := Option.map_eq_some_iff.mp hValue
  exact ⟨a, hLast, p, hp, Prod.ext (mem_of_last? hLast).2.symm hpe.symm⟩

theorem Contents.mem_of_stored (h : Contents toLower repo stored) {a : Analysis}
    (ha : a ∈ stored) : ∃ b e, e ∈ repo.db.entries ∧ IsRecord b e ∧ b.mainKey = a.mainKey := by
  obtain ⟨b, hLast⟩ := exists_last? Analysis.mainKey ha
  obtain ⟨hb, hKey⟩ := mem_of_last? hLast
  obtain ⟨p, hp⟩ := h.written b hb
  have hRecord := h.record a.mainKey (prefix_mainKey a)
  rw [hLast, Option.bind_some, hp] at hRecord
  rw [← hKey] at hRecord
  exact ⟨b, (b.mainKey, .analysis p), repo.db.get?_eq_some_iff.mp hRecord, ⟨p, hp, rfl⟩, hKey⟩

theorem IsRecord.key {a : Analysis} {e : Key × Value} (h : IsRecord a e) : e.1 = a.mainKey := by
  obtain ⟨p, _, rfl⟩ := h
  rfl

theorem Contents.stored_of_record (h : Contents toLower repo stored) {a : Analysis}
    {e : Key × Value} (he : e ∈ repo.db.entries) (hRecord : IsRecord a e) :
    ∃ b ∈ stored, b.mainKey = a.mainKey := by
  have hStem : analysisStem <+: e.1 := hRecord.key ▸ prefix_mainKey a
  obtain ⟨b, hLast, _⟩ := h.record_of_mem he hStem
  obtain ⟨hb, hKey⟩ := mem_of_last? hLast
  exact ⟨b, hb, hKey.trans hRecord.key⟩

theorem Contents.keyed (h : Contents toLower repo stored) : AnalysesKeyed repo.db := by
  intro e he hStem
  obtain ⟨a, _, hRecord⟩ := h.record_of_mem he (List.isPrefixOf_iff_prefix.mp hStem)
  exact ⟨a, hRecord⟩

theorem Contents.pointer_of_stored (h : Contents toLower repo stored) {a : Analysis}
    (ha : a ∈ stored) : ∃ b ∈ stored, last? Analysis.entityId stored a.entityId = some b ∧
      b.entityId = a.entityId ∧ repo.db.get? (indexKey a.entityId) = some (.pointer b.mainKey) := by
  obtain ⟨b, hLast⟩ := exists_last? Analysis.entityId ha
  obtain ⟨hb, hEntity⟩ := mem_of_last? hLast
  refine ⟨b, hb, hLast, hEntity, ?_⟩
  rw [h.pointer, hLast]
  rfl

theorem oneRecord_iff {s : HistoryState} (h : Contents toLower s.repo s.stored) :
    s.OneRecord ↔
      ∀ a ∈ s.stored, ∀ b ∈ s.stored, a.entityId = b.entityId → a.mainKey = b.mainKey := by
  constructor
  · intro hOne a ha b hb hEntity
    obtain ⟨a', d, hd, hRecord, hKey⟩ := h.mem_of_stored ha
    obtain ⟨b', e, he, hRecord', hKey'⟩ := h.mem_of_stored hb
    have hSame : a'.entityId = b'.entityId :=
      ((entityId_eq_of_mainKey hKey).trans hEntity).trans (entityId_eq_of_mainKey hKey').symm
    have hEntry := hOne.single d hd e he a' b' hRecord hRecord' hSame
    calc a.mainKey = d.1 := (hRecord.key.trans hKey).symm
      _ = e.1 := congrArg Prod.fst hEntry
      _ = b.mainKey := hRecord'.key.trans hKey'
  · intro hKeys
    have hDesignated : ∀ e ∈ s.repo.db.entries, ∀ a, IsRecord a e →
        s.repo.db.get? (indexKey a.entityId) = some (.pointer e.1) := by
      intro e he a hRecord
      obtain ⟨b, hb, hKey⟩ := h.stored_of_record he hRecord
      obtain ⟨c, hc, _, hEntity, hPointer⟩ := h.pointer_of_stored hb
      rw [← entityId_eq_of_mainKey hKey, hPointer, hKeys c hc b hb hEntity, hKey, hRecord.key]
    refine ⟨?_, hDesignated⟩
    intro d hd e he a b hRecord hRecord' hEntity
    have hd' := hDesignated d hd a hRecord
    rw [hEntity, hDesignated e he b hRecord'] at hd'
    have hKey : e.1 = d.1 := Value.pointer.inj (Option.some.inj hd')
    have hValue : e.2 = d.2 :=
      s.repo.db.value_unique (k := e.1) he (by rw [hKey]; exact hd)
    exact Prod.ext hKey.symm hValue.symm

theorem Follows.seekKey_le {badgerLimit : Option Int} {db : DB} (hKeyed : AnalysesKeyed db)
    {nameSpace : String} {cursor : Option Key} (h : Follows badgerLimit db nameSpace cursor) :
    seekKey (namespaceStem nameSpace) cursor ≤ namespaceStem nameSpace ++ lastTimestamp := by
  induction h with
  | first => exact le_rfl
  | next _ hScan ih =>
    obtain ⟨as, next, _, hAnswer, hNext⟩ := hKeyed.scan badgerLimit nameSpace _
    rw [hScan] at hAnswer
    obtain ⟨_, rfl⟩ := Prod.mk.inj (Except.ok.inj hAnswer)
    obtain ⟨e, he, hKey⟩ := hNext _ rfl
    exact (hKey.trans_le (mem_scanEntries he).2.2).trans ih

theorem scansCurrent_iff {s : HistoryState} (h : Contents toLower s.repo s.stored)
    (nameSpace : String) :
    s.ScansCurrent nameSpace ↔ ∀ a ∈ s.stored, InScan nameSpace a →
      a.nameSpace = nameSpace ∧ ∃ b, s.lastStored a.entityId = some b ∧ b.mainKey = a.mainKey := by
  constructor
  · intro hCurrent a ha hIn
    obtain ⟨b, e, he, hRecord, hKey⟩ := h.mem_of_stored ha
    obtain ⟨as, next, hScan, hShown⟩ :=
      h.keyed.scan_complete he hRecord (hKey ▸ hIn.1) (hKey ▸ hIn.2)
    obtain ⟨as', next', hScan', hFetch⟩ := hCurrent none none .first
    rw [hScan] at hScan'
    obtain ⟨rfl, rfl⟩ := Prod.mk.inj (Except.ok.inj hScan')
    have hRead := hFetch b.persisted hShown
    obtain ⟨c, hc, hLast, hEntity, _⟩ := h.pointer_of_stored ha
    have hEntity' : b.persisted.entityId = a.entityId := entityId_eq_of_mainKey hKey
    rw [hEntity', h.fetch_some hLast] at hRead
    split at hRead
    · rename_i hName
      have hSame : c.persisted.mainKey = b.persisted.mainKey :=
        congrArg Analysis.mainKey (Except.ok.inj hRead)
      have hSameKey : c.mainKey = a.mainKey := hSame.trans hKey
      exact ⟨(mainKey_eq_iff.mp hSameKey).1.symm.trans hName, c, hLast, hSameKey⟩
    · cases hRead
  · intro hStored badgerLimit cursor hFollows
    obtain ⟨as, next, hScan, hShown⟩ := h.keyed.scan_shows badgerLimit nameSpace cursor
    refine ⟨as, next, hScan, ?_⟩
    intro r hr
    obtain ⟨a, e, he, hRecord, rfl⟩ := hShown r hr
    obtain ⟨hEntry, hStem, hSeek⟩ := mem_scanEntries he
    have hPrefix := List.isPrefixOf_iff_prefix.mp hStem
    obtain ⟨b, hLast, hRecord'⟩ := h.record_of_mem hEntry
      (List.isPrefixOf_iff_prefix.mp (analysisStem_of_namespaceStem hStem))
    obtain ⟨hb, hKey⟩ := mem_of_last? hLast
    have hIn : InScan nameSpace b :=
      ⟨hKey ▸ hPrefix, hKey ▸ hSeek.trans (hFollows.seekKey_le h.keyed)⟩
    obtain ⟨hName, c, hCurrent, hSame⟩ := hStored b hb hIn
    -- the last analysis of the entity is the last one with this key
    have hFiner := last?_of_finer (fun _ _ => entityId_eq_of_mainKey) hCurrent
    rw [hSame, hKey, hLast] at hFiner
    obtain rfl := Option.some.inj hFiner
    have hShownIs : a.persisted = b.persisted :=
      Except.ok.inj (hRecord.decode.symm.trans hRecord'.decode)
    have hEntity : b.persisted.entityId = b.entityId := rfl
    rw [hShownIs, hEntity, h.fetch_some hCurrent, if_pos hName]

/-- Stores are upserts exactly as far as keys are repeated: an entity has one
record when all its analyses had one namespace and time, and a namespace shows
only current records when every key that its scan walks over is of that
namespace and is the key of the last analysis of its entity. -/
theorem store_upserts_iff {s : HistoryState}
    (h : (historyMachine marshals toLower).Reachable s) :
    (s.OneRecord ↔
      ∀ a ∈ s.stored, ∀ b ∈ s.stored, a.entityId = b.entityId → a.mainKey = b.mainKey) ∧
    ∀ nameSpace, s.ScansCurrent nameSpace ↔ ∀ a ∈ s.stored, InScan nameSpace a →
      a.nameSpace = nameSpace ∧
        ∃ b, s.lastStored a.entityId = some b ∧ b.mainKey = a.mainKey :=
  ⟨oneRecord_iff (contents_of_reachable h), scansCurrent_iff (contents_of_reachable h)⟩

end Former

/-- The record of the first store stays under its own key. -/
theorem store_not_upsert :
    ¬ ∀ s, (historyMachine (fun _ => true) id).Reachable s →
      s.OneRecord ∧ ∀ nameSpace, s.ScansCurrent nameSpace := by
  intro hAlways
  obtain ⟨_, hScans⟩ := hAlways movedState movedState_reachable
  have hScan : scanAnalysesByRoom none movedState.repo.db "a:b" none =
      .ok ([sampleAnalysis "a:b" 5], none) := by decide +kernel
  obtain ⟨as, next, hAnswer, hFetch⟩ := hScans "a:b" none none .first
  rw [hScan] at hAnswer
  obtain ⟨rfl, rfl⟩ := Prod.mk.inj (Except.ok.inj hAnswer)
  exact absurd (hFetch _ (List.mem_singleton_self _)) (by decide +kernel)

def repeatedState : HistoryState := (historyMachine (fun _ => true) id).after
  [.store (sampleAnalysis "c" 6) .none, .storeBatch [sampleAnalysis "c" 6] .none]

theorem store_upserts_repeated : repeatedState.OneRecord ∧ repeatedState.ScansCurrent "c" := by
  obtain ⟨hOne, hScans⟩ := store_upserts_iff (s := repeatedState) (Machine.reachable_after _)
  have hStored : repeatedState.stored = [sampleAnalysis "c" 6, sampleAnalysis "c" 6] := by
    decide +kernel
  refine ⟨hOne.mpr ?_, (hScans "c").mpr ?_⟩
  · simp [hStored]
  · intro a ha _
    have hSame : a = sampleAnalysis "c" 6 := by simpa [hStored] using ha
    subst hSame
    exact ⟨rfl, sampleAnalysis "c" 6, by decide +kernel, rfl⟩

end ChatLab.Storage
