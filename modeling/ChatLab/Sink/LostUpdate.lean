import ChatLab.Sink.Enrichment
import ChatLab.Storage.AnalysisHistory
import Mathlib.Data.List.Permutation

/-!
# Enrichments of one file by several workers

A segment is merged by a read of the record and a later write of the whole
record. Nothing holds the record between the two. If every read waits until no
other enrichment of the file is under way, the record is the base analysis with
the segments merged in the order of their writes; otherwise a write can undo
another one. All workers share the sink, so any number of them take part.
-/

namespace ChatLab.Sink

open Foundation Foundation.Log ChatLab.Storage

/-- The merged segment, with the version of the analysis left alone. -/
def mergeSegment (a : Analysis) (segment : AnalysisSegment) : Analysis :=
  enrich a segment a.version

/-- A worker between its read and its write. -/
structure Merging where
  segment : AnalysisSegment
  analysis : Analysis
deriving DecidableEq

/-- `done` holds the segments whose `Consume` returned nil with the entity they
were merged into, in the order of the writes. -/
structure EnrichState where
  history : HistoryState
  merging : List Merging
  done : List (UUID × AnalysisSegment)
deriving DecidableEq

inductive EnrichAction
  | fetch (segment : AnalysisSegment) (version : UUID)
  | save (i : Nat)
deriving DecidableEq

def EnrichState.doneFor (s : EnrichState) (e : UUID) : List AnalysisSegment :=
  (s.done.filter fun d => d.1 = e).map Prod.snd

section Runs

variable (marshals : AnalysisPb → Bool) (toLower : String → String)

def enrichStep (s : EnrichState) : EnrichAction → Option EnrichState
  | .fetch segment version =>
    match fetchForEnrichment s.history.repo.db segment with
    | .error _ => none
    | .ok analysis =>
      some { s with merging := s.merging ++
        [{ segment := segment, analysis := enrich analysis segment version }] }
  | .save i =>
    match s.merging[i]? with
    | none => none
    | some m =>
      match saveEnriched marshals toLower s.history.repo m.analysis .none with
      | (_, .error _) => none
      | (repo, .ok ()) =>
        some { history := { repo := repo, stored := s.history.stored ++ [m.analysis] },
               merging := s.merging.eraseIdx i,
               done := s.done ++ [(m.analysis.entityId, m.segment)] }

def enrichMachine (start : HistoryState) : Machine EnrichState EnrichAction where
  start := { history := start, merging := [], done := [] }
  step := enrichStep marshals toLower

end Runs

/-- No read of a file while another enrichment of it is under way. -/
def Exclusive (s : EnrichState) : EnrichAction → Prop
  | .fetch segment _ =>
    ∀ m ∈ s.merging, UUID.parse segment.fileId.toList ≠ some m.analysis.entityId
  | .save _ => True

instance (s : EnrichState) (action : EnrichAction) : Decidable (Exclusive s action) := by
  cases action with
  | fetch segment version =>
    exact inferInstanceAs (Decidable (∀ m ∈ s.merging,
      UUID.parse segment.fileId.toList ≠ some m.analysis.entityId))
  | save i => exact inferInstanceAs (Decidable True)

/-! ## What the record format keeps of a merge -/

theorem mergeMetric_payload {a : Analysis} (h : a.payload.persisted = a.payload)
    (result : AnalysisMetric) :
    (mergeMetric a result).payload.persisted = (mergeMetric a result).payload := by
  rw [mergeMetric]
  split
  · exact h
  · split
    · split
      · exact h
      · exact h
    · split
      · rfl
      · exact h
    · exact h
    · exact h
    · exact h

theorem Payload.persisted_persisted (p : Payload) : p.persisted.persisted = p.persisted := by
  cases p with
  | textPointer t => cases t <;> rfl
  | audioPointer t => cases t <;> rfl
  | filePointer t => cases t <;> rfl
  | absent => rfl
  | text t => rfl
  | audio t => rfl
  | file t => rfl
  | other => rfl

/-- A record that was read back is stored unchanged but for its version. -/
theorem persisted_enrich (a : Analysis) (segment : AnalysisSegment) (version : UUID) :
    (enrich a.persisted segment version).persisted = mergeSegment a.persisted segment := by
  have hPayload : ∀ (metrics : List AnalysisMetric) (b : Analysis),
      b.payload.persisted = b.payload →
      (metrics.foldl mergeMetric b).payload.persisted = (metrics.foldl mergeMetric b).payload := by
    intro metrics
    induction metrics with
    | nil => exact fun b hb => hb
    | cons result rest ih => exact fun b hb => ih _ (mergeMetric_payload hb result)
  have hKept := hPayload segment.metrics a.persisted (Payload.persisted_persisted a.payload)
  rw [mergeSegment, enrich, enrich, Analysis.persisted]
  dsimp only
  rw [hKept]
  rfl

/-! ## Exclusive enrichments -/

section Exclusive

variable {marshals : AnalysisPb → Bool} {toLower : String → String} {start : HistoryState}

/-- The records are the base analyses with the completed segments merged one
after the other, and every worker under way has read the current record. -/
structure EnrichState.Sequential (toLower : String → String) (start : HistoryState)
    (s : EnrichState) : Prop where
  contents : Contents toLower s.history.repo s.history.stored
  records : ∀ nameSpace e b, fetchFullByEntityId start.repo.db nameSpace e = .ok b →
    fetchFullByEntityId s.history.repo.db nameSpace e =
      .ok ((s.doneFor e).foldl mergeSegment b)
  merging : ∀ m ∈ s.merging, ∃ a version,
    fetchFullByEntityId s.history.repo.db a.nameSpace a.entityId = .ok a ∧
      m.analysis = enrich a m.segment version
  apart : (s.merging.map fun m => m.analysis.entityId).Nodup

theorem doneFor_concat (s : EnrichState) (history : HistoryState) (merging : List Merging)
    (e e' : UUID) (segment : AnalysisSegment) :
    EnrichState.doneFor { history := history, merging := merging, done := s.done ++ [(e, segment)] }
      e' = if e = e' then s.doneFor e' ++ [segment] else s.doneFor e' := by
  rw [EnrichState.doneFor, List.filter_append, List.map_append]
  by_cases hSame : e = e'
  · simp [hSame, EnrichState.doneFor]
  · simp [hSame, EnrichState.doneFor]

theorem saveEnriched_ok {repo next : Repository} {a : Analysis} {fault : Fault}
    (h : saveEnriched marshals toLower repo a fault = (next, .ok ())) :
    ∃ p, fromAnalysis a = some p ∧ next = repo.put toLower a p := by
  rw [saveEnriched] at h
  split at h
  · rename_i stored hStore
    obtain rfl := (Prod.mk.inj h).1
    have hOk : (store marshals toLower repo a fault).2 = .ok () := by rw [hStore]
    obtain ⟨p, hp, hPut⟩ := store_put hOk
    rw [hStore] at hPut
    exact ⟨p, hp, hPut⟩
  · cases (Prod.mk.inj h).2

theorem EnrichState.Sequential.fetch {s : EnrichState} (h : s.Sequential toLower start)
    {segment : AnalysisSegment} {version : UUID} {a : Analysis}
    (hFetch : fetchForEnrichment s.history.repo.db segment = .ok a)
    (hExclusive : Exclusive s (.fetch segment version)) :
    EnrichState.Sequential toLower start { s with merging := s.merging ++
      [{ segment := segment, analysis := enrich a segment version }] } := by
  obtain ⟨e, hParse, hRead⟩ := fetchForEnrichment_ok hFetch
  obtain ⟨b, _, hEntity, hName, rfl⟩ := h.contents.fetch_ok hRead
  refine ⟨h.contents, h.records, ?_, ?_⟩
  · refine Bag.forall_mem_concat h.merging ⟨b.persisted, version, ?_, rfl⟩
    have hName' : b.persisted.nameSpace = segment.driveId := hName
    have hEntity' : b.persisted.entityId = e := hEntity
    rw [hName', hEntity']
    exact hRead
  · rw [List.map_append, List.map_singleton]
    refine List.nodup_append.mpr ⟨h.apart, List.nodup_singleton _, ?_⟩
    intro x hx y hy hSame
    obtain ⟨m, hm, rfl⟩ := List.mem_map.mp hx
    obtain rfl := List.mem_singleton.mp hy
    have hMerged : m.analysis.entityId = e :=
      hSame.trans ((enrich_frame b.persisted segment version).1.trans hEntity)
    exact hExclusive m hm (hMerged ▸ hParse)

theorem EnrichState.Sequential.save {s : EnrichState} (h : s.Sequential toLower start) {i : Nat}
    {m : Merging} (hm : s.merging[i]? = some m) {p : AnalysisPb}
    (hp : fromAnalysis m.analysis = some p) :
    EnrichState.Sequential toLower start
      { history := { repo := s.history.repo.put toLower m.analysis p,
                     stored := s.history.stored ++ [m.analysis] },
        merging := s.merging.eraseIdx i,
        done := s.done ++ [(m.analysis.entityId, m.segment)] } := by
  obtain ⟨a, version, hRead, hMerge⟩ := h.merging m (List.mem_of_getElem? hm)
  obtain ⟨hEntity, hName⟩ := enrich_frame a m.segment version
  rw [← hMerge] at hEntity hName
  have hPerm := (Bag.perm_cons_eraseIdx hm).map fun m => m.analysis.entityId
  have hApart := hPerm.nodup_iff.mp h.apart
  rw [List.map_cons, List.nodup_cons] at hApart
  refine ⟨h.contents.put hp, ?_, ?_, hApart.2⟩
  · intro nameSpace e b hBase
    have hOld := h.records nameSpace e b hBase
    rw [doneFor_concat]
    split
    · rename_i hSame
      rw [hEntity] at hSame
      subst hSame
      obtain ⟨last, hLast, _, hNameLast, hFold⟩ := h.contents.fetch_ok hOld
      obtain ⟨last', hLast', _, hNameRead, rfl⟩ := h.contents.fetch_ok hRead
      obtain rfl := Option.some.inj (hLast.symm.trans hLast')
      have hSelf := s.history.repo.fetch_put toLower hp m.analysis.nameSpace
      rw [if_pos rfl, hName, hEntity, ← hNameRead, hNameLast] at hSelf
      rw [hSelf, List.foldl_append, hFold, hMerge, persisted_enrich]
      rfl
    · rename_i hOther
      rw [h.contents.fetch_put_of_ne hp hOther]
      exact hOld
  · intro m' hm'
    obtain ⟨a', version', hRead', hMerge'⟩ := h.merging m' (List.mem_of_mem_eraseIdx hm')
    refine ⟨a', version', ?_, hMerge'⟩
    have hOther : m.analysis.entityId ≠ a'.entityId := by
      intro hSame
      rw [← (enrich_frame a' m'.segment version').1, ← hMerge'] at hSame
      exact hApart.1 (List.mem_map.mpr ⟨m', hm', hSame.symm⟩)
    rw [h.contents.fetch_put_of_ne hp hOther]
    exact hRead'

theorem enrichStep_sequential {s t : EnrichState} {action : EnrichAction}
    (h : s.Sequential toLower start) (hExclusive : Exclusive s action)
    (hStep : enrichStep marshals toLower s action = some t) : t.Sequential toLower start := by
  cases action with
  | fetch segment version =>
    simp only [enrichStep] at hStep
    split at hStep
    · cases hStep
    · rename_i a hFetch
      cases hStep
      exact h.fetch hFetch hExclusive
  | save i =>
    simp only [enrichStep] at hStep
    split at hStep
    · cases hStep
    · rename_i m hm
      split at hStep
      · cases hStep
      · rename_i repo hSave
        cases hStep
        obtain ⟨p, hp, rfl⟩ := saveEnriched_ok hSave
        exact h.save hm hp

/-- The segments of every file are merged one after the other in every run in
which a file is read only while no other enrichment of it is under way. -/
theorem enrichments_sequential_of_exclusive
    (hStart : (historyMachine marshals toLower).Reachable start) {s : EnrichState}
    (h : (enrichMachine marshals toLower start).Reaches Exclusive s) {nameSpace : String}
    {e : UUID} {b : Analysis} (hBase : fetchFullByEntityId start.repo.db nameSpace e = .ok b) :
    fetchFullByEntityId s.history.repo.db nameSpace e =
      .ok ((s.doneFor e).foldl mergeSegment b) := by
  have hSequential : s.Sequential toLower start := by
    refine Machine.Reaches.invariant (I := EnrichState.Sequential toLower start) ⟨?_, ?_, ?_, ?_⟩
      (fun _ _ _ hs hGuard hStep => enrichStep_sequential hs hGuard hStep) h
    · exact contents_of_reachable hStart
    · intro nameSpace e b hBase
      exact hBase
    · intro m hm
      cases hm
    · exact List.nodup_nil
  exact hSequential.records nameSpace e b hBase

end Exclusive

def scoreSegment (metric : Metric) : AnalysisSegment :=
  { driveId := "file-room", fileId := UUID.nil.text,
    metrics := [{ id := some metric, specialistErr := none,
                  resp := some { oneOf := some (.score { score := 1, label := "" }) } }] }

def scoredFile : HistoryState :=
  (historyMachine (fun _ => true) id).after [.store (sampleAnalysis "file-room" 5) .none]

abbrev scoredMachine : Machine EnrichState EnrichAction :=
  enrichMachine (fun _ => true) id scoredFile

theorem scoredFile_fetch : fetchFullByEntityId scoredFile.repo.db "file-room" UUID.nil =
    .ok (sampleAnalysis "file-room" 5) := by decide +kernel

/-- Both workers read the record before either writes it back. -/
def lostRun : List EnrichAction :=
  [.fetch (scoreSegment "toxicity") UUID.nil, .fetch (scoreSegment "business") UUID.nil,
    .save 0, .save 0]

theorem enrichments_lost :
    ¬ ∀ start, (historyMachine (fun _ => true) id).Reachable start →
      ∀ s, (enrichMachine (fun _ => true) id start).Reachable s →
      ∀ nameSpace e b, fetchFullByEntityId start.repo.db nameSpace e = .ok b →
        (∀ m ∈ s.merging, m.analysis.entityId ≠ e) →
        ∃ order : List AnalysisSegment, order.Perm (s.doneFor e) ∧
          fetchFullByEntityId s.history.repo.db nameSpace e = .ok (order.foldl mergeSegment b) := by
  intro hAlways
  -- one evaluation of the run gives all that is needed of its last state
  obtain ⟨hRest, hDone, hOrders⟩ :
      (∀ m ∈ (scoredMachine.after lostRun).merging, m.analysis.entityId ≠ UUID.nil) ∧
      (scoredMachine.after lostRun).doneFor UUID.nil =
        [scoreSegment "toxicity", scoreSegment "business"] ∧
      ∀ order ∈ [scoreSegment "toxicity", scoreSegment "business"].permutations',
        fetchFullByEntityId (scoredMachine.after lostRun).history.repo.db "file-room" UUID.nil ≠
          .ok (order.foldl mergeSegment (sampleAnalysis "file-room" 5)) := by decide +kernel
  obtain ⟨order, hPerm, hFetch⟩ := hAlways scoredFile (Machine.reachable_after _)
    (scoredMachine.after lostRun) (Machine.reachable_after _) "file-room" UUID.nil
    (sampleAnalysis "file-room" 5) scoredFile_fetch hRest
  rw [hDone] at hPerm
  exact hOrders order (List.mem_permutations'.mpr hPerm) hFetch

def turnsRun : List EnrichAction :=
  [.fetch (scoreSegment "toxicity") UUID.nil, .save 0,
    .fetch (scoreSegment "business") UUID.nil, .save 0]

theorem enrichments_sequential_scored :
    fetchFullByEntityId ((scoredMachine.restrict Exclusive).after turnsRun).history.repo.db
        "file-room" UUID.nil =
      .ok ([scoreSegment "toxicity", scoreSegment "business"].foldl mergeSegment
        (sampleAnalysis "file-room" 5)) := by
  have hDone : ((scoredMachine.restrict Exclusive).after turnsRun).doneFor UUID.nil =
      [scoreSegment "toxicity", scoreSegment "business"] := by decide +kernel
  have hRecord := enrichments_sequential_of_exclusive (Machine.reachable_after _)
    (Machine.reaches_after_restrict scoredMachine Exclusive turnsRun) scoredFile_fetch
  rw [hDone] at hRecord
  exact hRecord

end ChatLab.Sink
