import ChatLab.Foundation.WriteBatch
import ChatLab.Storage.AnalysisHistory

/-!
# Batches, single writes and retries

`Store` and `StoreBatch` build keys, record and search document of an analysis
in two places of the source. Both ways are followed here statement by
statement, with a Badger batch that commits its transaction when it is full. A
batch then comes to the same as its analyses one by one, in any order: two
analyses of different entities share no key. But its loop marshals and sets in
turn, so a batch that an analysis breaks off may have committed those before it.
A write that broke off after any part of it is absorbed when it is repeated.
-/

namespace ChatLab.Storage

open Foundation

section Paths

variable (marshals : AnalysisPb → Bool) (toLower : String → String)

/-! ## The two ways to write -/

/-- `upsertSearchIndex`; `Update` replaces the document of the id. -/
def upsertSearchIndex (documents : OrderedMap String Document) (id content : String)
    (metadata : OrderedMap Metric Float64) (category : Category) (nameSpace : String) :
    OrderedMap String Document :=
  documents.insert id
    { content := content, nameSpace := nameSpace, category := category,
      numeric := metadata.entries.map fun e => (toLower e.1, e.2) }

/-- The Badger and the Bluge batch of `StoreBatch` while they are filled. -/
structure Batches where
  writes : WriteBatch (Key × Value)
  updates : List (String × Document)

section Fill

/-! `limit` is what one transaction of Badger takes. -/

variable (limit : TxnLimit (Key × Value))

/-- The two sets and the document; false if a set is refused. -/
def Batches.add (b : Batches) (a : Analysis) (p : AnalysisPb) : Batches × Bool :=
  let mainKey := buildKey a.nameSpace a.atTime a.entityId
  let (fullSearchableText, category) := prepareInternalData a
  let doc : Document :=
    { content := fullSearchableText, nameSpace := a.nameSpace, category := category,
      numeric := a.scores.entries.map fun e => (toLower e.1, e.2) }
  match b.writes.setAll limit
      [(mainKey, .analysis p), (indexKey a.entityId, .pointer mainKey)] with
  | (writes, true) => ({ writes := writes, updates := b.updates ++ [(a.entityId.text, doc)] }, true)
  | (writes, false) => ({ b with writes := writes }, false)

/-- The loop of `StoreBatch`, which ends at the first analysis that fails. -/
def fillBatches : List Analysis → Batches → Batches × Option AnalysisError
  | [], b => (b, none)
  | a :: rest, b =>
    match fromAnalysis a with
    | none => (b, some .nilPayload)
    | some p =>
      if marshals p then
        match b.add toLower limit a p with
        | (b, true) => fillBatches rest b
        | (b, false) => (b, some .badger)
      else (b, some (.marshal a.entityId))

/-- `StoreBatch` whose flushes succeed. The deferred `Cancel` discards the open
transaction and no more. -/
def storeBatchWithin (repo : Repository) (analyses : List Analysis) :
    Repository × Except AnalysisError Unit :=
  match fillBatches marshals toLower limit analyses ⟨.empty, []⟩ with
  | (b, some e) => ({ repo with db := repo.db.insertAll b.writes.committed }, .error e)
  | (b, none) =>
    ({ db := repo.db.insertAll b.writes.sets, documents := repo.documents.insertAll b.updates },
      .ok ())

/-- Every set of these analyses fits into a transaction of its own. -/
def Takes (analyses : List Analysis) : Prop :=
  ∀ a ∈ analyses, ∀ p, fromAnalysis a = some p → ∀ e ∈ analysisWrites a p, limit.fits [e] = true

end Fill

def accepts (a : Analysis) : Bool := (fromAnalysis a).any marshals

/-- `Store` of the analyses one after the other. -/
def storeInTurn (repo : Repository) (analyses : List Analysis) : Repository :=
  analyses.foldl (fun repo a => (store marshals toLower repo a .none).1) repo

variable {marshals toLower}

theorem accepts_iff {a : Analysis} :
    accepts marshals a = true ↔ ∃ p, fromAnalysis a = some p ∧ marshals p = true := by
  rw [accepts, Option.any_eq_true]

variable (toLower) in
/-- Two sets and `upsertSearchIndex`. -/
theorem store_statements {a : Analysis} {p : AnalysisPb} (hp : fromAnalysis a = some p)
    (hMarshals : marshals p = true) (repo : Repository) :
    store marshals toLower repo a .none =
      ({ db := (repo.db.insert a.mainKey (.analysis p)).insert (indexKey a.entityId)
           (.pointer a.mainKey)
         documents := upsertSearchIndex toLower repo.documents a.entityId.text
           (prepareInternalData a).1 a.scores (prepareInternalData a).2 a.nameSpace }, .ok ()) := by
  rw [store, hp]
  simp only [hMarshals, if_true]
  rfl

theorem store_refused {a : Analysis} (h : accepts marshals a = false) (repo : Repository) :
    (store marshals toLower repo a .none).1 = repo := by
  rw [store]
  split
  · rfl
  · rename_i p hp
    rw [accepts, hp, Option.any_some] at h
    rw [h]
    rfl

/-! ## The loop and its result -/

section Loop

variable {limit : TxnLimit (Key × Value)}

variable (toLower) in
theorem exists_add {a : Analysis} {p : AnalysisPb} (hp : fromAnalysis a = some p)
    (hTakes : Takes limit [a]) (b : Batches) :
    ∃ writes, b.add toLower limit a p =
        ({ writes := writes, updates := b.updates ++ [documentOf toLower a] }, true) ∧
      writes.sets = b.writes.sets ++ analysisWrites a p := by
  obtain ⟨writes, hSet, hSets⟩ :=
    b.writes.exists_setAll (hTakes a (List.mem_singleton_self a) p hp)
  refine ⟨writes, ?_, hSets⟩
  have hWrites : analysisWrites a p = [(buildKey a.nameSpace a.atTime a.entityId, .analysis p),
      (indexKey a.entityId, .pointer (buildKey a.nameSpace a.atTime a.entityId))] := rfl
  rw [hWrites] at hSet
  simp only [Batches.add, hSet]
  rfl

variable (marshals toLower) in
/-- What the loop has set and why it ended. -/
theorem fillBatches_eq {analyses : List Analysis} (hTakes : Takes limit analyses) (b : Batches) :
    ∃ filled, fillBatches marshals toLower limit analyses b =
        (filled, (prepareBatch marshals analyses).2) ∧
      filled.writes.sets = b.writes.sets ++ (prepareBatch marshals analyses).1 ∧
      ((prepareBatch marshals analyses).2 = none →
        filled.updates = b.updates ++ analyses.map (documentOf toLower)) := by
  induction analyses generalizing b with
  | nil => exact ⟨b, rfl, (List.append_nil _).symm, fun _ => (List.append_nil _).symm⟩
  | cons a rest ih =>
    have hHead : Takes limit [a] := fun c hc => hTakes c (by simp_all)
    have hRest : Takes limit rest := fun c hc => hTakes c (List.mem_cons_of_mem _ hc)
    cases hp : fromAnalysis a with
    | none =>
      simp only [fillBatches, prepareBatch, hp]
      exact ⟨b, rfl, (List.append_nil _).symm, fun hNone => by cases hNone⟩
    | some p =>
      cases hMarshals : marshals p with
      | false =>
        simp only [fillBatches, prepareBatch, hp, hMarshals, Bool.false_eq_true, if_false]
        exact ⟨b, rfl, (List.append_nil _).symm, fun hNone => by cases hNone⟩
      | true =>
        obtain ⟨writes, hAdd, hSets⟩ := exists_add toLower hp hHead b
        obtain ⟨filled, hFilled, hAll, hUpdates⟩ :=
          ih hRest { writes := writes, updates := b.updates ++ [documentOf toLower a] }
        simp only [fillBatches, prepareBatch, hp, hMarshals, if_true, hAdd]
        refine ⟨filled, hFilled, ?_, fun hNone => ?_⟩
        · rw [hAll, hSets, List.append_assoc]
        · rw [hUpdates hNone, List.append_assoc]
          rfl

variable (toLower) in
/-- Sets that fit into the open transaction leave nothing committed. -/
theorem committed_of_fits {analyses : List Analysis} {b : Batches}
    (h : limit.fits (b.writes.pending ++ (prepareBatch marshals analyses).1) = true) :
    (fillBatches marshals toLower limit analyses b).2 = (prepareBatch marshals analyses).2 ∧
      (fillBatches marshals toLower limit analyses b).1.writes.committed = b.writes.committed := by
  induction analyses generalizing b with
  | nil => exact ⟨rfl, rfl⟩
  | cons a rest ih =>
    cases hp : fromAnalysis a with
    | none =>
      simp only [fillBatches, prepareBatch, hp, and_self]
    | some p =>
      cases hMarshals : marshals p with
      | false =>
        simp only [fillBatches, prepareBatch, hp, hMarshals, Bool.false_eq_true, if_false, and_self]
      | true =>
        simp only [prepareBatch, hp, hMarshals, if_true, ← List.append_assoc] at h
        have hSet := b.writes.setAll_of_fits (limit.initial _ _ h)
        have hAdd : b.add toLower limit a p =
            ({ writes := { b.writes with pending := b.writes.pending ++ analysisWrites a p }
               updates := b.updates ++ [documentOf toLower a] }, true) := by
          have hWrites : analysisWrites a p =
              [(buildKey a.nameSpace a.atTime a.entityId, .analysis p), (indexKey a.entityId,
                .pointer (buildKey a.nameSpace a.atTime a.entityId))] := rfl
          rw [hWrites] at hSet ⊢
          simp only [Batches.add, hSet]
          rfl
        simp only [fillBatches, prepareBatch, hp, hMarshals, if_true, hAdd]
        exact ih h

variable (marshals toLower) in
/-- The limits of the transactions are one way in which a write can fail: what
was committed on the way is what had reached Badger early. -/
theorem storeBatchWithin_eq {analyses : List Analysis} (hTakes : Takes limit analyses)
    (repo : Repository) :
    ∃ fault, storeBatchWithin marshals toLower limit repo analyses =
        storeBatch marshals toLower repo analyses fault ∧
      ((prepareBatch marshals analyses).2 = none → fault = .none) := by
  obtain ⟨filled, hFilled, hSets, hUpdates⟩ :=
    fillBatches_eq marshals toLower hTakes ⟨.empty, []⟩
  have hAll : (prepareBatch marshals analyses).1 =
      filled.writes.committed ++ filled.writes.pending := hSets.symm
  cases hError : (prepareBatch marshals analyses).2 with
  | some e =>
    have hPrepare : prepareBatch marshals analyses =
        (filled.writes.committed ++ filled.writes.pending, some e) := Prod.ext hAll hError
    refine ⟨.badger (List.replicate filled.writes.committed.length true), ?_, nofun⟩
    rw [storeBatchWithin, hFilled, hError, storeBatch, hPrepare]
    simp only [Fault.early, OrderedMap.kept_append]
  | none =>
    have hPrepare : prepareBatch marshals analyses = (filled.writes.sets, none) :=
      Prod.ext hAll hError
    refine ⟨.none, ?_, fun _ => rfl⟩
    rw [storeBatchWithin, hFilled, hError, storeBatch, hPrepare]
    simp only [commitWrites, hUpdates hError, List.nil_append]

end Loop

theorem prepareBatch_accepted {analyses : List Analysis} :
    (prepareBatch marshals analyses).2 = none ↔ ∀ a ∈ analyses, accepts marshals a = true := by
  induction analyses with
  | nil => exact iff_of_true rfl nofun
  | cons a rest ih =>
    rw [List.forall_mem_cons, ← ih, accepts, prepareBatch]
    cases fromAnalysis a with
    | none => simp
    | some p => cases hMarshals : marshals p <;> simp [hMarshals]

variable (toLower) in
/-- A batch that is written comes to its analyses in turn. -/
theorem storeBatch_in_turn {analyses : List Analysis}
    (h : ∀ a ∈ analyses, accepts marshals a = true) (repo : Repository) :
    storeBatch marshals toLower repo analyses .none =
      (storeInTurn marshals toLower repo analyses, .ok ()) := by
  induction analyses generalizing repo with
  | nil => rfl
  | cons a rest ih =>
    obtain ⟨hHead, hRest⟩ := List.forall_mem_cons.mp h
    obtain ⟨p, hp, hMarshals⟩ := accepts_iff.mp hHead
    obtain ⟨sets, hSets⟩ : ∃ sets, prepareBatch marshals rest = (sets, none) :=
      ⟨_, Prod.ext rfl (prepareBatch_accepted.mpr hRest)⟩
    have hTurn := ih hRest (store marshals toLower repo a .none).1
    rw [storeInTurn, List.foldl_cons, ← storeInTurn, ← hTurn, storeBatch, storeBatch, prepareBatch,
      hp, store_statements toLower hp hMarshals]
    simp only [hMarshals, if_true, hSets, commitWrites, OrderedMap.insertAll_append, List.map_cons]
    rfl

/-! ## Order -/

theorem analysisWrites_disjoint {a b : Analysis} (h : a.entityId ≠ b.entityId)
    (p q : AnalysisPb) :
    ((analysisWrites a p).map Prod.fst).Disjoint ((analysisWrites b q).map Prod.fst) := by
  intro k ha hb
  simp only [analysisWrites, List.map_cons, List.map_nil, List.mem_cons, List.not_mem_nil,
    or_false] at ha hb
  obtain rfl | rfl := ha
  · obtain hKey | hKey := hb
    · exact h (entityId_eq_of_mainKey hKey)
    · exact mainKey_ne_indexKey a _ hKey
  · obtain hKey | hKey := hb
    · exact mainKey_ne_indexKey b _ hKey.symm
    · exact h (indexKey_injective hKey)

theorem put_comm {a b : Analysis} (h : a.entityId ≠ b.entityId) (p q : AnalysisPb)
    (repo : Repository) :
    (repo.put toLower a p).put toLower b q = (repo.put toLower b q).put toLower a p := by
  have hDb := repo.db.insertAll_comm (analysisWrites_disjoint h p q)
  have hDocuments : (repo.documents.insertAll [documentOf toLower a]).insertAll
      [documentOf toLower b] = (repo.documents.insertAll [documentOf toLower b]).insertAll
        [documentOf toLower a] := by
    apply OrderedMap.insertAll_comm
    intro id ha hb
    rw [List.map_singleton, List.mem_singleton] at ha hb
    exact h (UUID.text_injective (ha.symm.trans hb))
  rw [Repository.put, Repository.put, Repository.put, Repository.put, hDb, hDocuments]

theorem store_comm {a b : Analysis} (h : a.entityId ≠ b.entityId) (repo : Repository) :
    (store marshals toLower (store marshals toLower repo a .none).1 b .none).1 =
      (store marshals toLower (store marshals toLower repo b .none).1 a .none).1 := by
  cases ha : accepts marshals a with
  | false => rw [store_refused ha, store_refused ha]
  | true =>
    cases hb : accepts marshals b with
    | false => rw [store_refused hb, store_refused hb]
    | true =>
      obtain ⟨p, hp, hMarshals⟩ := accepts_iff.mp ha
      obtain ⟨q, hq, hMarshals'⟩ := accepts_iff.mp hb
      rw [store_statements toLower hp hMarshals, store_statements toLower hq hMarshals',
        store_statements toLower hq hMarshals', store_statements toLower hp hMarshals]
      exact put_comm h p q repo

theorem storeInTurn_perm {analyses order : List Analysis}
    (hDistinct : (analyses.map Analysis.entityId).Nodup) (hOrder : analyses.Perm order)
    (repo : Repository) :
    storeInTurn marshals toLower repo analyses = storeInTurn marshals toLower repo order := by
  refine hOrder.foldl_eq' ?_ repo
  intro a ha b hb repo
  by_cases hSame : a = b
  · rw [hSame]
  · exact store_comm (fun hId => hSame (List.inj_on_of_nodup_map hDistinct ha hb hId)) repo

theorem accepts_of_storeBatch {repo repo' : Repository} {analyses : List Analysis}
    (h : storeBatch marshals toLower repo analyses .none = (repo', .ok ())) :
    ∀ a ∈ analyses, accepts marshals a = true := by
  obtain ⟨sets, hPrepare, _⟩ := storeBatch_ok marshals toLower (congrArg Prod.snd h)
  exact prepareBatch_accepted.mp (congrArg Prod.snd hPrepare)

/-- Any analysis of a batch may count as the last one that it wrote. -/
theorem storeBatch_put {repo repo' : Repository} {analyses : List Analysis}
    (hDistinct : (analyses.map Analysis.entityId).Nodup)
    (h : storeBatch marshals toLower repo analyses .none = (repo', .ok ())) {a : Analysis}
    (ha : a ∈ analyses) :
    ∃ before p, fromAnalysis a = some p ∧ repo' = Repository.put toLower before a p := by
  have hAll := accepts_of_storeBatch h
  obtain ⟨p, hp, hMarshals⟩ := accepts_iff.mp (hAll a ha)
  have hOrder : analyses.Perm (analyses.erase a ++ [a]) :=
    (List.perm_cons_erase ha).trans (List.perm_append_singleton _ _).symm
  rw [storeBatch_in_turn toLower hAll, storeInTurn_perm hDistinct hOrder, storeInTurn,
    List.foldl_append, List.foldl_cons, List.foldl_nil, store_statements toLower hp hMarshals] at h
  exact ⟨_, p, hp, (Prod.mk.inj h).1.symm⟩

end Paths

def numberedId (n : Nat) : UUID :=
  ⟨UUID.digit (n / 16) :: (UUID.nil.digits.drop 1).map fun _ => UUID.digit n, rfl⟩

def namedAnalysis (n : Nat) : Analysis := { sampleAnalysis "c" 1 with entityId := numberedId n }

/-- A record of half a megabyte and the pointer to it. -/
def sampleSize : Key × Value → Nat
  | (_, .analysis _) => 500000
  | _ => 100

/-- The size that a transaction stays below with the default options. -/
def maxBatchSize : Nat := 15 * 67108864 / 100

def sampleLimit : TxnLimit (Key × Value) where
  fits sets := decide ((sets.map sampleSize).sum < maxBatchSize)
  initial l m h := by
    rw [List.map_append, List.sum_append] at h
    have hSum := of_decide_eq_true h
    exact decide_eq_true (by omega)

/-- The last analysis of the batch cannot be marshalled. -/
def brokenBatch : List Analysis :=
  (List.range 25).map namedAnalysis ++ [{ namedAnalysis 25 with summary := "broken" }]

inductive WriteCall
  | store (a : Analysis)
  | storeBatch (analyses : List Analysis)

section Retries

variable (marshals : AnalysisPb → Bool) (toLower : String → String)

def WriteCall.analyses : WriteCall → List Analysis
  | .store a => [a]
  | .storeBatch analyses => analyses

def WriteCall.run (repo : Repository) (fault : Fault) :
    WriteCall → Repository × Except AnalysisError Unit
  | .store a => Storage.store marshals toLower repo a fault
  | .storeBatch analyses => Storage.storeBatch marshals toLower repo analyses fault

/-- Any sets and any documents of the call have reached the stores. -/
def WriteCall.Partial (call : WriteCall) (repo reached : Repository) : Prop :=
  ∃ sets updates,
    reached.db = repo.db.insertAll
      (OrderedMap.kept sets (prepareBatch marshals call.analyses).1) ∧
    reached.documents = repo.documents.insertAll
      (OrderedMap.kept updates (call.analyses.map (documentOf toLower)))

variable {marshals toLower}

theorem store_eq_storeBatch (repo : Repository) (a : Analysis) (fault : Fault) :
    store marshals toLower repo a fault = storeBatch marshals toLower repo [a] fault := by
  rw [store, storeBatch, prepareBatch]
  cases fromAnalysis a with
  | none => simp only [OrderedMap.kept_nil, OrderedMap.insertAll_nil]
  | some p =>
    cases hMarshals : marshals p with
    | false => simp [hMarshals]
    | true => simp [hMarshals, prepareBatch]

theorem WriteCall.run_eq (call : WriteCall) (repo : Repository) (fault : Fault) :
    call.run marshals toLower repo fault =
      Storage.storeBatch marshals toLower repo call.analyses fault := by
  cases call with
  | store a => exact store_eq_storeBatch repo a fault
  | storeBatch analyses => rfl

theorem WriteCall.partial_run (call : WriteCall) (repo : Repository) (fault : Fault) :
    call.Partial marshals toLower repo (call.run marshals toLower repo fault).1 := by
  rw [call.run_eq, Partial, Storage.storeBatch]
  obtain ⟨sets, failure⟩ := prepareBatch marshals call.analyses
  cases failure with
  | some e => exact ⟨fault.early, [], rfl, rfl⟩
  | none =>
    cases fault with
    | none => exact ⟨_, _, by rw [OrderedMap.kept_all]; rfl, by rw [OrderedMap.kept_all]; rfl⟩
    | badger mask => exact ⟨mask, [], rfl, rfl⟩
    | bluge mask => exact ⟨_, mask, by rw [OrderedMap.kept_all]; rfl, rfl⟩

theorem WriteCall.run_ok {call : WriteCall} {repo : Repository}
    (h : (call.run marshals toLower repo .none).2 = .ok ()) :
    ∃ sets, prepareBatch marshals call.analyses = (sets, none) := by
  rw [call.run_eq] at h
  obtain ⟨sets, hPrepare, _⟩ := storeBatch_ok marshals toLower h
  exact ⟨sets, hPrepare⟩

theorem WriteCall.run_of_prepareBatch {call : WriteCall} {sets : List (Key × Value)}
    (h : prepareBatch marshals call.analyses = (sets, none)) (repo : Repository) :
    call.run marshals toLower repo .none =
      ({ db := repo.db.insertAll sets
         documents := repo.documents.insertAll (call.analyses.map (documentOf toLower)) },
        .ok ()) := by
  rw [call.run_eq, Storage.storeBatch, h]
  rfl

theorem WriteCall.Partial.retry {call : WriteCall} {repo reached : Repository}
    (h : call.Partial marshals toLower repo reached)
    (hOk : (call.run marshals toLower reached .none).2 = .ok ()) :
    call.run marshals toLower reached .none = call.run marshals toLower repo .none := by
  obtain ⟨sets, updates, hDb, hDocuments⟩ := h
  obtain ⟨written, hPrepare⟩ := WriteCall.run_ok hOk
  rw [hPrepare] at hDb
  rw [WriteCall.run_of_prepareBatch hPrepare, WriteCall.run_of_prepareBatch hPrepare, hDb,
    hDocuments, OrderedMap.insertAll_kept_insertAll, OrderedMap.insertAll_kept_insertAll]

end Retries

end ChatLab.Storage
