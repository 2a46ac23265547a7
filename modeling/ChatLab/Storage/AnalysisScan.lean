import ChatLab.Foundation.Machine
import ChatLab.Storage.AnalysisRepository
import Mathlib.Data.List.TakeWhile

/-!
# Records of the analysis repository, and the scan of a namespace

Every record under the analysis stem is stored under the key of its own
namespace, time and entity. The scan selects by the bytes of that key and not
by the namespace field, so it can show a record of a namespace whose name runs
over the colon that ends the scanned one. When exactly that happens is the
main result. Search is not covered.
-/

namespace ChatLab.Storage

open Foundation Foundation.Decimal Foundation.Lexicographic Foundation.Pagination

/-! ## What a record keeps of an analysis -/

def Payload.persisted : Payload → Payload
  | .textPointer (some p) => .text p
  | .audioPointer (some p) => .audio p
  | .filePointer (some p) => .file p
  | .other => .absent
  | p => p

def Analysis.persisted (a : Analysis) : Analysis :=
  { a with payload := a.payload.persisted, version := UUID.nil }

theorem Payload.toPayload_toPb {payload : Payload} {p : Option PayloadPb}
    (h : payload.toPb = some p) : (p.map PayloadPb.toPayload).getD .absent = payload.persisted := by
  cases payload with
  | absent => cases h; rfl
  | text t => cases h; rfl
  | textPointer t =>
    cases t with
    | none => cases h
    | some t => cases h; rfl
  | audio t => cases h; rfl
  | audioPointer t =>
    cases t with
    | none => cases h
    | some t => cases h; rfl
  | file t => cases h; rfl
  | filePointer t =>
    cases t with
    | none => cases h
    | some t => cases h; rfl
  | other => cases h; rfl

theorem toAnalysis_of_fromAnalysis {a : Analysis} {p : AnalysisPb} (h : fromAnalysis a = some p) :
    toAnalysis p = .ok a.persisted := by
  obtain ⟨payload, hPayload, rfl⟩ := Option.map_eq_some_iff.mp h
  simp [toAnalysis, Analysis.persisted, Payload.toPayload_toPb hPayload]

/-! ## Keys -/

theorem buildKey_eq (nameSpace : String) (atTime : Int) (entityId : UUID) :
    buildKey nameSpace atTime entityId =
      analysisStem ++ (nameSpace.toList ++ ':' :: (padded 19 (unixNano atTime) ++
        ':' :: entityId.string)) := by
  simp [buildKey, namespaceStem]

theorem isPrefixOf_buildKey (nameSpace : String) (atTime : Int) (entityId : UUID) :
    analysisStem.isPrefixOf (buildKey nameSpace atTime entityId) = true := by
  rw [buildKey_eq]
  exact List.isPrefixOf_iff_prefix.mpr (List.prefix_append _ _)

/-- Read from the right, a key determines its three fields: neither the time
nor the entity contains a colon, whatever the namespace does. -/
theorem buildKey_eq_iff {nameSpace nameSpace' : String} {atTime atTime' : Int}
    {entityId entityId' : UUID} :
    buildKey nameSpace atTime entityId = buildKey nameSpace' atTime' entityId' ↔
      nameSpace = nameSpace' ∧ unixNano atTime = unixNano atTime' ∧ entityId = entityId' := by
  constructor
  · intro h
    rw [buildKey_eq, buildKey_eq] at h
    have hFields := List.append_cancel_left h
    rw [← List.cons_append, ← List.cons_append, ← List.append_assoc, ← List.append_assoc] at hFields
    obtain ⟨hFront, hEntity⟩ := lastField_injective (UUID.colon_notMem_string _)
      (UUID.colon_notMem_string _) hFields
    obtain ⟨hName, hTime⟩ := lastField_injective (colon_notMem_padded _ _)
      (colon_notMem_padded _ _) hFront
    exact ⟨String.toList_inj.mp hName, padded_injective 19 hTime, UUID.string_injective hEntity⟩
  · rintro ⟨hName, hTime, hEntity⟩
    rw [buildKey, buildKey, hName, hTime, hEntity]

theorem mainKey_eq_iff {a b : Analysis} :
    a.mainKey = b.mainKey ↔
      a.nameSpace = b.nameSpace ∧ unixNano a.atTime = unixNano b.atTime ∧
        a.entityId = b.entityId :=
  buildKey_eq_iff

theorem indexKey_injective : Function.Injective indexKey := by
  intro a b h
  exact UUID.string_injective (List.append_cancel_left h)

theorem mainKey_ne_indexKey (a : Analysis) (entityId : UUID) : a.mainKey ≠ indexKey entityId := by
  rw [Analysis.mainKey, buildKey_eq]
  exact analysis_ne_index _ _

/-! ## Records -/

theorem exists_left_of_mem {α β : Type} {R : α → β → Prop} {l : List α} {r : List β}
    (h : List.Forall₂ R l r) {b : β} (hb : b ∈ r) : ∃ a ∈ l, R a b := by
  induction h with
  | nil => cases hb
  | cons hHead _ ih =>
    obtain rfl | hb := List.mem_cons.mp hb
    · exact ⟨_, List.mem_cons_self, hHead⟩
    · obtain ⟨a, ha, hR⟩ := ih hb
      exact ⟨a, List.mem_cons_of_mem _ ha, hR⟩

def IsRecord (a : Analysis) (e : Key × Value) : Prop :=
  ∃ p, fromAnalysis a = some p ∧ e = (a.mainKey, .analysis p)

theorem IsRecord.decode {a : Analysis} {e : Key × Value} (h : IsRecord a e) :
    decodeAnalysis e.2 = .ok a.persisted := by
  obtain ⟨p, hp, rfl⟩ := h
  exact toAnalysis_of_fromAnalysis hp

def AnalysesKeyed (db : DB) : Prop :=
  ∀ e ∈ db.entries, analysisStem.isPrefixOf e.1 = true → ∃ a, IsRecord a e

def WritesOf (analyses : List Analysis) (sets : List (Key × Value)) : Prop :=
  ∀ w ∈ sets, ∃ a ∈ analyses, ∃ p, fromAnalysis a = some p ∧ w ∈ analysisWrites a p

theorem WritesOf.kept {analyses : List Analysis} {sets : List (Key × Value)}
    (h : WritesOf analyses sets) (mask : List Bool) :
    WritesOf analyses (OrderedMap.kept mask sets) :=
  fun w hw => h w (OrderedMap.mem_of_mem_kept hw)

theorem writesOf_prepareBatch (marshals : AnalysisPb → Bool) (analyses : List Analysis) :
    WritesOf analyses (prepareBatch marshals analyses).1 := by
  induction analyses with
  | nil => intro w hw; cases hw
  | cons a rest ih =>
    intro w hw
    rw [prepareBatch] at hw
    split at hw
    · cases hw
    · rename_i p hp
      split at hw
      · obtain hw | hw := List.mem_append.mp hw
        · exact ⟨a, List.mem_cons_self, p, hp, hw⟩
        · obtain ⟨b, hb, hWrite⟩ := ih w hw
          exact ⟨b, List.mem_cons_of_mem _ hb, hWrite⟩
      · cases hw

theorem commitWrites_db (repo : Repository) {analyses : List Analysis} {sets : List (Key × Value)}
    (h : WritesOf analyses sets) (documents : List (String × Document)) (fault : Fault) :
    ∃ ws, WritesOf analyses ws ∧
      (commitWrites repo sets documents fault).1.db = repo.db.insertAll ws := by
  cases fault with
  | none => exact ⟨sets, h, rfl⟩
  | badger mask => exact ⟨_, h.kept mask, rfl⟩
  | bluge mask => exact ⟨sets, h, rfl⟩

variable (marshals : AnalysisPb → Bool) (toLower : String → String)

theorem store_db (repo : Repository) (a : Analysis) (fault : Fault) :
    ∃ ws, WritesOf [a] ws ∧ (store marshals toLower repo a fault).1.db = repo.db.insertAll ws := by
  have hNone : WritesOf [a] [] := fun w hw => by cases hw
  rw [store]
  split
  · exact ⟨[], hNone, rfl⟩
  · rename_i p hp
    split
    · exact commitWrites_db repo (fun w hw => ⟨a, List.mem_singleton_self a, p, hp, hw⟩) _ fault
    · exact ⟨[], hNone, rfl⟩

theorem storeBatch_db (repo : Repository) (analyses : List Analysis) (fault : Fault) :
    ∃ ws, WritesOf analyses ws ∧
      (storeBatch marshals toLower repo analyses fault).1.db = repo.db.insertAll ws := by
  have hWrites := writesOf_prepareBatch marshals analyses
  rw [storeBatch]
  split
  · rename_i sets e hPrepare
    rw [hPrepare] at hWrites
    exact ⟨_, hWrites.kept _, rfl⟩
  · rename_i sets hPrepare
    rw [hPrepare] at hWrites
    exact commitWrites_db repo hWrites _ fault

theorem storeBatch_ok {repo : Repository} {analyses : List Analysis} {fault : Fault}
    (h : (storeBatch marshals toLower repo analyses fault).2 = .ok ()) :
    ∃ sets, prepareBatch marshals analyses = (sets, none) ∧
      (storeBatch marshals toLower repo analyses fault).1.db = repo.db.insertAll sets := by
  cases hPrepare : prepareBatch marshals analyses with
  | mk sets failure =>
    cases failure with
    | some e => simp [storeBatch, hPrepare] at h
    | none =>
      refine ⟨sets, rfl, ?_⟩
      simp only [storeBatch, hPrepare] at h ⊢
      cases fault with
      | none => rfl
      | badger mask => cases h
      | bluge mask => cases h

theorem AnalysesKeyed.insertAll {db : DB} (h : AnalysesKeyed db) {analyses : List Analysis}
    {ws : List (Key × Value)} (hws : WritesOf analyses ws) : AnalysesKeyed (db.insertAll ws) := by
  intro e he hStem
  obtain he | he := db.mem_of_mem_insertAll he
  · exact h e he hStem
  · obtain ⟨a, _, p, hp, hWrite⟩ := hws e he
    obtain rfl | hWrite := List.mem_cons.mp hWrite
    · exact ⟨a, p, hp, rfl⟩
    · obtain rfl := List.mem_singleton.mp hWrite
      obtain ⟨rest, hRest⟩ := List.isPrefixOf_iff_prefix.mp hStem
      exact absurd hRest (analysis_ne_index _ _)

/-! ## Writes of the other repositories -/

def foreignWrite (db : DB) (key : Key) : Option Value → DB
  | some v => db.insert key v
  | none => db.erase key

def foreignKey (key : Key) : Bool := !analysisStem.isPrefixOf key && !indexStem.isPrefixOf key

theorem get?_foreignWrite {db : DB} {key k : Key} {v : Option Value} (h : k ≠ key) :
    (foreignWrite db key v).get? k = db.get? k := by
  cases v with
  | some v => exact db.get?_insert_of_ne v h
  | none => exact db.get?_erase_of_ne h

theorem AnalysesKeyed.foreignWrite {db : DB} (h : AnalysesKeyed db) {key : Key}
    (hKey : foreignKey key = true) (v : Option Value) : AnalysesKeyed (foreignWrite db key v) := by
  intro e he hStem
  have hNe : e.1 ≠ key := by
    rintro rfl
    simp [foreignKey, hStem] at hKey
  have hGet := (OrderedMap.get?_eq_some_iff _).mpr he
  rw [get?_foreignWrite hNe] at hGet
  exact h e (db.get?_eq_some_iff.mp hGet) hStem

/-! ## One scan -/

theorem collectAnalyses_none {stem : Key} {it : List (Key × Value)} {analyses : List Analysis}
    (h : List.Forall₂ (fun e a => decodeAnalysis e.2 = .ok a)
      (it.takeWhile fun e => stem.isPrefixOf e.1) analyses) (acc : List Analysis) (lastKey : Key) :
    collectAnalyses none stem it acc lastKey =
      .ok (acc ++ analyses, lastSuffix stem lastKey (it.takeWhile fun e => stem.isPrefixOf e.1),
        false) := by
  induction it generalizing analyses acc lastKey with
  | nil =>
    cases h
    simp [collectAnalyses]
  | cons e it ih =>
    obtain ⟨k, v⟩ := e
    cases hStem : stem.isPrefixOf k with
    | false =>
      rw [List.takeWhile_cons_of_neg (by simp [hStem])] at h ⊢
      cases h
      simp [collectAnalyses, hStem]
    | true =>
      rw [List.takeWhile_cons_of_pos (by simpa using hStem)] at h ⊢
      cases h with
      | @cons _ a _ rest hHead hTail =>
        simp only [collectAnalyses, hStem, if_true, Option.any_none, Bool.false_eq_true, if_false]
        rw [hHead, lastSuffix_cons]
        simpa using ih hTail (acc ++ [a]) (k.drop stem.length)

theorem collectAnalyses_some (n : Int) {stem : Key} {it : List (Key × Value)}
    {analyses : List Analysis} (h : List.Forall₂ (fun e a => decodeAnalysis e.2 = .ok a)
      (it.takeWhile fun e => stem.isPrefixOf e.1) analyses) (acc : List Analysis) (lastKey : Key) :
    collectAnalyses (some n) stem it acc lastKey =
      .ok (acc ++ analyses.take (n.toNat - acc.length),
        lastSuffix stem lastKey
          ((it.takeWhile fun e => stem.isPrefixOf e.1).take (n.toNat - acc.length)),
        decide (n.toNat - acc.length < analyses.length)) := by
  induction it generalizing analyses acc lastKey with
  | nil =>
    cases h
    simp [collectAnalyses]
  | cons e it ih =>
    obtain ⟨k, v⟩ := e
    cases hStem : stem.isPrefixOf k with
    | false =>
      rw [List.takeWhile_cons_of_neg (by simp [hStem])] at h ⊢
      cases h
      simp [collectAnalyses, hStem]
    | true =>
      rw [List.takeWhile_cons_of_pos (by simpa using hStem)] at h ⊢
      cases h with
      | @cons _ a _ rest hHead hTail =>
        by_cases hFull : n ≤ acc.length
        · have hZero : n.toNat - acc.length = 0 := by omega
          simp [collectAnalyses, hStem, hFull, hZero]
        · have hNext : n.toNat - acc.length = n.toNat - (acc ++ [a]).length + 1 := by
            rw [List.length_append, List.length_singleton]
            omega
          simp only [collectAnalyses, hStem, if_true, Option.any_some, hFull, decide_false,
            Bool.false_eq_true, if_false]
          rw [hHead, hNext, List.take_succ_cons, List.take_succ_cons, lastSuffix_cons]
          simpa using ih hTail (acc ++ [a]) (k.drop stem.length)

def scanEntries (db : DB) (nameSpace : String) (cursor : Option Key) : List (Key × Value) :=
  (reverseIterator db (namespaceStem nameSpace) cursor).takeWhile fun e =>
    (namespaceStem nameSpace).isPrefixOf e.1

theorem mem_scanEntries {db : DB} {nameSpace : String} {cursor : Option Key} {e : Key × Value}
    (h : e ∈ scanEntries db nameSpace cursor) :
    e ∈ db.entries ∧ (namespaceStem nameSpace).isPrefixOf e.1 = true ∧
      e.1 ≤ seekKey (namespaceStem nameSpace) cursor := by
  obtain ⟨hEntry, hSeek⟩ := mem_reverseIterator ((List.takeWhile_sublist _).subset h)
  have hStem := List.mem_takeWhile_imp (p := fun e : Key × Value =>
    (namespaceStem nameSpace).isPrefixOf e.1) h
  exact ⟨hEntry, hStem, hSeek⟩

theorem analysisStem_of_namespaceStem {nameSpace : String} {k : Key}
    (h : (namespaceStem nameSpace).isPrefixOf k = true) : analysisStem.isPrefixOf k = true := by
  have hName := List.isPrefixOf_iff_prefix.mp h
  exact List.isPrefixOf_iff_prefix.mpr ((List.prefix_append _ _).trans hName)

theorem AnalysesKeyed.exists_records {db : DB} (h : AnalysesKeyed db) (nameSpace : String)
    (cursor : Option Key) :
    ∃ as, List.Forall₂ (fun e a => IsRecord a e) (scanEntries db nameSpace cursor) as := by
  have hAll : ∀ e ∈ scanEntries db nameSpace cursor, ∃ a, IsRecord a e := by
    intro e he
    obtain ⟨hEntry, hStem, _⟩ := mem_scanEntries he
    exact h e hEntry (analysisStem_of_namespaceStem hStem)
  revert hAll
  generalize scanEntries db nameSpace cursor = entries
  intro hAll
  induction entries with
  | nil => exact ⟨[], .nil⟩
  | cons e entries ih =>
    obtain ⟨a, ha⟩ := hAll e List.mem_cons_self
    obtain ⟨as, has⟩ := ih fun d hd => hAll d (List.mem_cons_of_mem _ hd)
    exact ⟨a :: as, .cons ha has⟩

/-- A scan shows a page of the entries under its stem, and returns the last key
of the page exactly when it left an entry out. -/
theorem AnalysesKeyed.scan_page {db : DB} (h : AnalysesKeyed db) (limit : Option Int)
    (nameSpace : String) (cursor : Option Key) :
    ∃ as next, List.Forall₂ (fun e a => IsRecord a e)
        (takeLimit (limit.map Int.toNat) (scanEntries db nameSpace cursor)) as ∧
      scanAnalysesByRoom limit db nameSpace cursor = .ok (as.map Analysis.persisted, next) ∧
      (∀ c ∈ next, ∃ last,
        (takeLimit (limit.map Int.toNat) (scanEntries db nameSpace cursor)).getLast? = some last ∧
        namespaceStem nameSpace ++ c = last.1 ∧ as.length < (scanEntries db nameSpace cursor).length) ∧
      ((∀ n ∈ limit, 1 ≤ n) → next = none →
        takeLimit (limit.map Int.toNat) (scanEntries db nameSpace cursor) =
          scanEntries db nameSpace cursor) := by
  obtain ⟨all, hAll⟩ := h.exists_records nameSpace cursor
  have hLength := hAll.length_eq
  have hDecode : List.Forall₂ (fun e a => decodeAnalysis e.2 = .ok a)
      (scanEntries db nameSpace cursor) (all.map Analysis.persisted) :=
    List.forall₂_map_right_iff.mpr (hAll.imp fun _ _ hRecord => hRecord.decode)
  have hPage : List.Forall₂ (fun e a => IsRecord a e)
      (takeLimit (limit.map Int.toNat) (scanEntries db nameSpace cursor))
      (takeLimit (limit.map Int.toNat) all) := by
    cases limit with
    | none => exact hAll
    | some n => exact List.forall₂_take _ hAll
  have hCollect : collectAnalyses limit (namespaceStem nameSpace)
      (reverseIterator db (namespaceStem nameSpace) cursor) [] [] =
        .ok ((takeLimit (limit.map Int.toNat) all).map Analysis.persisted,
          lastSuffix (namespaceStem nameSpace) []
            (takeLimit (limit.map Int.toNat) (scanEntries db nameSpace cursor)),
          decide ((takeLimit (limit.map Int.toNat) all).length < all.length)) := by
    cases limit with
    | none =>
      have hMore : decide (all.length < all.length) = false := decide_eq_false (by omega)
      rw [Option.map_none, takeLimit, takeLimit, hMore]
      exact collectAnalyses_none hDecode [] []
    | some n =>
      have hMore : decide (n.toNat < (all.map Analysis.persisted).length) =
          decide ((all.take n.toNat).length < all.length) := by
        apply decide_eq_decide.mpr
        rw [List.length_map, List.length_take]
        omega
      rw [collectAnalyses_some n hDecode [] [], Option.map_some, takeLimit, takeLimit, ← hMore,
        List.map_take]
      rfl
  have hNone : takeLimit (limit.map Int.toNat) all = [] → (∀ n ∈ limit, 1 ≤ n) →
      takeLimit (limit.map Int.toNat) (scanEntries db nameSpace cursor) =
        scanEntries db nameSpace cursor := by
    intro hEmpty hLimit
    cases limit with
    | none => rfl
    | some n =>
      have hPos := hLimit n rfl
      obtain hZero | hNil := List.take_eq_nil_iff.mp hEmpty
      · omega
      · rw [hNil, List.length_nil] at hLength
        rw [List.length_eq_zero_iff.mp hLength]
        exact List.take_nil
  rw [scanAnalysesByRoom, hCollect]
  simp only [List.map_eq_nil_iff]
  by_cases hEmpty : takeLimit (limit.map Int.toNat) all = []
  · rw [if_pos hEmpty]
    exact ⟨_, none, hPage, rfl, fun c hc => absurd hc (Option.not_mem_none c),
      fun hLimit _ => hNone hEmpty hLimit⟩
  · rw [if_neg hEmpty]
    by_cases hMore : (takeLimit (limit.map Int.toNat) all).length < all.length
    · rw [if_pos (decide_eq_true hMore)]
      refine ⟨_, _, hPage, rfl, ?_, fun _ hNext => by cases hNext⟩
      rintro c ⟨⟩
      cases hLast :
        (takeLimit (limit.map Int.toNat) (scanEntries db nameSpace cursor)).getLast? with
      | none =>
        have hLengths := hPage.length_eq
        rw [List.getLast?_eq_none_iff.mp hLast, List.length_nil] at hLengths
        exact absurd (List.length_eq_zero_iff.mp hLengths.symm) hEmpty
      | some last =>
        obtain ⟨rest, hSplit⟩ := takeLimit_append (limit.map Int.toNat)
          (scanEntries db nameSpace cursor)
        have hMem : last ∈ scanEntries db nameSpace cursor :=
          hSplit ▸ List.mem_append_left rest (List.mem_of_getLast? hLast)
        exact ⟨last, rfl, append_lastSuffix hLast (mem_scanEntries hMem).2.1 [], hLength ▸ hMore⟩
    · rw [if_neg (by rwa [decide_eq_true_eq])]
      refine ⟨_, none, hPage, rfl, fun c hc => absurd hc (Option.not_mem_none c), ?_⟩
      intro _ _
      have hLengths := hPage.length_eq
      obtain ⟨rest, hSplit⟩ := takeLimit_append (limit.map Int.toNat)
        (scanEntries db nameSpace cursor)
      have hRest := congrArg List.length hSplit
      rw [List.length_append] at hRest
      rw [List.length_eq_zero_iff.mp (by omega : rest.length = 0), List.append_nil] at hSplit
      exact hSplit.symm

theorem AnalysesKeyed.scan {db : DB} (h : AnalysesKeyed db) (limit : Option Int)
    (nameSpace : String) (cursor : Option Key) :
    ∃ as next, List.Forall₂ (fun e a => IsRecord a e)
        (takeLimit (limit.map Int.toNat) (scanEntries db nameSpace cursor)) as ∧
      scanAnalysesByRoom limit db nameSpace cursor = .ok (as.map Analysis.persisted, next) ∧
      ∀ c ∈ next, ∃ e ∈ scanEntries db nameSpace cursor, namespaceStem nameSpace ++ c = e.1 := by
  obtain ⟨as, next, hPage, hScan, hNext, _⟩ := h.scan_page limit nameSpace cursor
  refine ⟨as, next, hPage, hScan, ?_⟩
  intro c hc
  obtain ⟨last, hLast, hKey, _⟩ := hNext c hc
  obtain ⟨rest, hSplit⟩ := takeLimit_append (limit.map Int.toNat) (scanEntries db nameSpace cursor)
  exact ⟨last, hSplit ▸ List.mem_append_left rest (List.mem_of_getLast? hLast), hKey⟩

theorem AnalysesKeyed.scan_shows {db : DB} (h : AnalysesKeyed db) (limit : Option Int)
    (nameSpace : String) (cursor : Option Key) :
    ∃ as next, scanAnalysesByRoom limit db nameSpace cursor = .ok (as, next) ∧
      ∀ b ∈ as, ∃ a, ∃ e ∈ scanEntries db nameSpace cursor, IsRecord a e ∧ b = a.persisted := by
  obtain ⟨as, next, hRecords, hScan, _⟩ := h.scan limit nameSpace cursor
  refine ⟨_, next, hScan, ?_⟩
  intro b hb
  obtain ⟨a, ha, rfl⟩ := List.mem_map.mp hb
  obtain ⟨rest, hSplit⟩ := takeLimit_append (limit.map Int.toNat) (scanEntries db nameSpace cursor)
  obtain ⟨e, he, hRecord⟩ := exists_left_of_mem hRecords ha
  exact ⟨a, e, hSplit ▸ List.mem_append_left rest he, hRecord, rfl⟩

/-- The scan without limit and cursor shows every record below the sentinel. -/
theorem AnalysesKeyed.scan_complete {db : DB} (h : AnalysesKeyed db) {nameSpace : String}
    {e : Key × Value} (he : e ∈ db.entries) {a : Analysis} (hRecord : IsRecord a e)
    (hStem : namespaceStem nameSpace <+: a.mainKey)
    (hSeek : a.mainKey ≤ namespaceStem nameSpace ++ lastTimestamp) :
    ∃ as next, scanAnalysesByRoom none db nameSpace none = .ok (as, next) ∧ a.persisted ∈ as := by
  obtain ⟨as, next, hRecords, hScan, _⟩ := h.scan none nameSpace none
  have hWalked : e ∈ scanEntries db nameSpace none := by
    rw [scanEntries, takeWhile_reverseIterator_none, scanFrom_eq, List.mem_reverse,
      List.mem_filter]
    obtain ⟨p, _, rfl⟩ := hRecord
    rw [Bool.and_eq_true, decide_eq_true_eq]
    exact ⟨he, List.isPrefixOf_iff_prefix.mpr hStem, hSeek⟩
  obtain ⟨b, hb, hRecord'⟩ := exists_left_of_mem hRecords.flip hWalked
  have hSame : a.persisted = b.persisted :=
    Except.ok.inj (hRecord.decode.symm.trans (IsRecord.decode hRecord'))
  exact ⟨_, next, hScan, hSame ▸ List.mem_map_of_mem hb⟩

/-! ## Runs of the repository -/

structure ScanState where
  repo : Repository
  issued : List (String × Key)
deriving DecidableEq

inductive ScanAction
  | store (a : Analysis) (fault : Fault)
  | storeBatch (analyses : List Analysis) (fault : Fault)
  | foreign (key : Key) (value : Option Value)
  | scan (badgerLimit : Option Int) (nameSpace : String) (cursor : Option Key)
deriving DecidableEq

def ScanState.Offers (s : ScanState) (nameSpace : String) (cursor : Option Key) : Prop :=
  ∀ c ∈ cursor, (nameSpace, c) ∈ s.issued

instance (s : ScanState) (nameSpace : String) (cursor : Option Key) :
    Decidable (s.Offers nameSpace cursor) :=
  inferInstanceAs (Decidable (∀ c ∈ cursor, (nameSpace, c) ∈ s.issued))

section Runs

def scanStep (s : ScanState) : ScanAction → Option ScanState
  | .store a fault => some { s with repo := (store marshals toLower s.repo a fault).1 }
  | .storeBatch analyses fault =>
    some { s with repo := (storeBatch marshals toLower s.repo analyses fault).1 }
  | .foreign key value =>
    if foreignKey key then
      some { s with repo := { s.repo with db := foreignWrite s.repo.db key value } }
    else none
  | .scan badgerLimit nameSpace cursor =>
    if s.Offers nameSpace cursor then
      match scanAnalysesByRoom badgerLimit s.repo.db nameSpace cursor with
      | .error _ => some s
      | .ok (_, next) =>
        some { s with issued := next.toList.map (fun c => (nameSpace, c)) ++ s.issued }
    else none

def scanMachine : Machine ScanState ScanAction where
  start := { repo := { db := .empty, documents := .empty }, issued := [] }
  step := scanStep marshals toLower

end Runs

variable {marshals toLower}

structure ScanState.Sound (s : ScanState) : Prop where
  keyed : AnalysesKeyed s.repo.db
  issued : ∀ i ∈ s.issued,
    namespaceStem i.1 ++ i.2 ≤ namespaceStem i.1 ++ lastTimestamp

theorem ScanState.Sound.seekKey_le {s : ScanState} (h : s.Sound) {nameSpace : String}
    {cursor : Option Key} (hOffer : s.Offers nameSpace cursor) :
    seekKey (namespaceStem nameSpace) cursor ≤ namespaceStem nameSpace ++ lastTimestamp := by
  cases cursor with
  | none => exact le_rfl
  | some c => exact h.issued (nameSpace, c) (hOffer c rfl)

theorem scanStep_sound {s t : ScanState} {action : ScanAction} (h : s.Sound)
    (hStep : scanStep marshals toLower s action = some t) : t.Sound := by
  cases action with
  | store a fault =>
    cases hStep
    obtain ⟨ws, hws, hdb⟩ := store_db marshals toLower s.repo a fault
    exact ⟨hdb ▸ h.keyed.insertAll hws, h.issued⟩
  | storeBatch analyses fault =>
    cases hStep
    obtain ⟨ws, hws, hdb⟩ := storeBatch_db marshals toLower s.repo analyses fault
    exact ⟨hdb ▸ h.keyed.insertAll hws, h.issued⟩
  | foreign key value =>
    rw [scanStep] at hStep
    split at hStep
    · cases hStep
      exact ⟨h.keyed.foreignWrite ‹_› value, h.issued⟩
    · cases hStep
  | scan badgerLimit nameSpace cursor =>
    rw [scanStep] at hStep
    split at hStep
    · rename_i hOffer
      obtain ⟨as, next, _, hScan, hNext⟩ := h.keyed.scan badgerLimit nameSpace cursor
      rw [hScan] at hStep
      cases hStep
      refine ⟨h.keyed, ?_⟩
      intro i hi
      obtain hi | hi := List.mem_append.mp hi
      · obtain ⟨c, hc, rfl⟩ := List.mem_map.mp hi
        obtain ⟨e, he, hEq⟩ := hNext c (Option.mem_toList.mp hc)
        rw [hEq]
        exact (mem_scanEntries he).2.2.trans (h.seekKey_le hOffer)
      · exact h.issued i hi
    · cases hStep

theorem sound_of_reachable {s : ScanState} (h : (scanMachine marshals toLower).Reachable s) :
    s.Sound := by
  refine Machine.Reachable.invariant (I := ScanState.Sound) ⟨?_, ?_⟩
    (fun _ _ _ hs hStep => scanStep_sound hs hStep) h
  · intro e he
    cases he
  · intro i hi
    cases hi

/-! ## Isolation -/

/-- Every scan of the namespace that a caller can make answers, and only with
analyses of the namespace. -/
def ScanState.Isolated (s : ScanState) (nameSpace : String) : Prop :=
  ∀ badgerLimit cursor, s.Offers nameSpace cursor →
    ∃ as next, scanAnalysesByRoom badgerLimit s.repo.db nameSpace cursor = .ok (as, next) ∧
      ∀ a ∈ as, a.nameSpace = nameSpace

/-- An analysis of another namespace whose key extends the scanned stem by no
more than the nineteen nines. -/
def Intrudes (nameSpace : String) (a : Analysis) : Prop :=
  a.nameSpace ≠ nameSpace ∧ namespaceStem nameSpace <+: a.mainKey ∧
    a.mainKey ≤ namespaceStem nameSpace ++ lastTimestamp

theorem isolated_of_not_intrudes {s : ScanState} (h : s.Sound) {nameSpace : String}
    (hNone : ∀ e ∈ s.repo.db.entries, ∀ a, IsRecord a e → ¬ Intrudes nameSpace a) :
    s.Isolated nameSpace := by
  intro badgerLimit cursor hOffer
  obtain ⟨as, next, hScan, hShown⟩ := h.keyed.scan_shows badgerLimit nameSpace cursor
  refine ⟨as, next, hScan, ?_⟩
  intro b hb
  obtain ⟨a, e, he, hRecord, rfl⟩ := hShown b hb
  obtain ⟨hEntry, hStem, hSeek⟩ := mem_scanEntries he
  by_contra hOther
  refine hNone e hEntry a hRecord ⟨hOther, ?_⟩
  obtain ⟨p, _, rfl⟩ := hRecord
  exact ⟨List.isPrefixOf_iff_prefix.mp hStem, hSeek.trans (h.seekKey_le hOffer)⟩

theorem not_intrudes_of_isolated {s : ScanState} (h : s.Sound) {nameSpace : String}
    (hIsolated : s.Isolated nameSpace) {e : Key × Value} (he : e ∈ s.repo.db.entries)
    {a : Analysis} (hRecord : IsRecord a e) : ¬ Intrudes nameSpace a := by
  rintro ⟨hOther, hStem, hSeek⟩
  obtain ⟨as, next, hScan, hShown⟩ := h.keyed.scan_complete he hRecord hStem hSeek
  obtain ⟨as', next', hScan', hAll⟩ := hIsolated none none (by simp [ScanState.Offers])
  rw [hScan] at hScan'
  obtain ⟨rfl, rfl⟩ := Prod.mk.inj (Except.ok.inj hScan')
  exact hOther (hAll a.persisted hShown)

/-- Which namespaces can intrude: one that continues the scanned name over its
colon, or one that the scanned name continues by a timestamp. -/
theorem Intrudes.names {nameSpace : String} {a : Analysis} (h : Intrudes nameSpace a) :
    (∃ rest, a.nameSpace.toList = nameSpace.toList ++ ':' :: rest) ∨
      nameSpace.toList = a.nameSpace.toList ++ ':' :: padded 19 (unixNano a.atTime) := by
  obtain ⟨hOther, ⟨rest, hRest⟩, _⟩ := h
  rw [Analysis.mainKey, buildKey_eq, namespaceStem, List.append_assoc, List.append_assoc] at hRest
  have hFields := List.append_cancel_left hRest
  have hNames : nameSpace.toList ≠ a.nameSpace.toList :=
    fun hEq => hOther (String.toList_inj.mp hEq.symm)
  obtain ⟨x, hx, hTail⟩ | ⟨x, hx, hTail⟩ := List.append_eq_append_iff.mp hFields
  · cases x with
    | nil => exact absurd (by simpa using hx.symm) hNames
    | cons c x =>
      obtain ⟨rfl, _⟩ := List.cons.inj hTail
      exact .inl ⟨x, hx⟩
  · cases x with
    | nil => exact absurd (by simpa using hx) hNames
    | cons c x =>
      rw [List.cons_append] at hTail
      obtain ⟨rfl, hAfter⟩ := List.cons.inj hTail
      -- the rest of the key has one colon, so the scanned name ends before it
      have hColons := congrArg (List.count ':') hAfter
      rw [List.count_append, List.count_append, List.count_cons_self, List.singleton_append,
        List.count_cons_self, List.count_eq_zero.mpr (colon_notMem_padded 19 (unixNano a.atTime)),
        List.count_eq_zero.mpr (UUID.colon_notMem_string a.entityId)] at hColons
      have hNone : ':' ∉ x := List.count_eq_zero.mp (by omega)
      obtain ⟨hTime, _⟩ := field_injective (colon_notMem_padded _ _) hNone hAfter
      exact .inr (by rw [hx, hTime])

/-- A scan shows only analyses of its namespace exactly when no stored analysis
of another namespace has a key that continues the scanned stem by at most the
nineteen nines. -/
theorem scanAnalysesByRoom_isolated_iff {s : ScanState}
    (h : (scanMachine marshals toLower).Reachable s) (nameSpace : String) :
    s.Isolated nameSpace ↔
      ∀ e ∈ s.repo.db.entries, ∀ a, IsRecord a e → ¬ Intrudes nameSpace a := by
  have hSound := sound_of_reachable h
  constructor
  · intro hIsolated e he a hRecord
    exact not_intrudes_of_isolated hSound hIsolated he hRecord
  · exact isolated_of_not_intrudes hSound

def sampleAnalysis (nameSpace : String) (atTime : Int) : Analysis :=
  { id := UUID.nil, entityId := UUID.nil, nameSpace := nameSpace, atTime := atTime, summary := "s",
    tags := [], scores := .empty, payload := .absent, version := UUID.nil }

def chatRoomState : ScanState :=
  { repo := (store (fun _ => true) id { db := .empty, documents := .empty }
      (sampleAnalysis "chat:1" 5) .none).1,
    issued := [] }

theorem chatRoomState_reachable : (scanMachine (fun _ => true) id).Reachable chatRoomState := by
  have hRun : (scanMachine (fun _ => true) id).exec (scanMachine (fun _ => true) id).start
      [.store (sampleAnalysis "chat:1" 5) .none] = some chatRoomState := rfl
  exact Machine.reachable_of_exec hRun

theorem scanAnalysesByRoom_not_isolated :
    ¬ ∀ s : ScanState, (scanMachine (fun _ => true) id).Reachable s →
      ∀ nameSpace, s.Isolated nameSpace := by
  intro hAlways
  have hScan : scanAnalysesByRoom none chatRoomState.repo.db "chat" none =
      .ok ([sampleAnalysis "chat:1" 5], none) := by decide +kernel
  obtain ⟨as, next, hAnswer, hAll⟩ :=
    hAlways chatRoomState chatRoomState_reachable "chat" none none (by decide)
  rw [hScan] at hAnswer
  obtain ⟨rfl, rfl⟩ := Prod.mk.inj (Except.ok.inj hAnswer)
  exact absurd (hAll _ (List.mem_singleton_self _)) (by decide)

theorem scanAnalysesByRoom_isolated_chat : chatRoomState.Isolated "chat:1" := by
  refine (scanAnalysesByRoom_isolated_iff chatRoomState_reachable "chat:1").mpr ?_
  rintro e he a ⟨p, _, rfl⟩ ⟨hOther, _⟩
  have hKeys : a.mainKey = (sampleAnalysis "chat:1" 5).mainKey ∨
      a.mainKey = indexKey UUID.nil := by
    have hMem : a.mainKey ∈ chatRoomState.repo.db.keys := List.mem_map_of_mem he
    have hAll : chatRoomState.repo.db.keys =
        [(sampleAnalysis "chat:1" 5).mainKey, indexKey UUID.nil] := by decide +kernel
    simpa [hAll] using hMem
  obtain hKey | hKey := hKeys
  · exact hOther (mainKey_eq_iff.mp hKey).1
  · exact mainKey_ne_indexKey a UUID.nil hKey

end ChatLab.Storage
