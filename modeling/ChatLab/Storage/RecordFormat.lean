import ChatLab.Storage.RepeatedWrites

/-!
# The record of an analysis

`fromAnalysis` and `ToAnalysis` carry every field but the version, for which
the message has no field. A payload may be a value or a pointer; the record
and the search document of a pointer are those of the value behind it. Only
the search side tests for a typed nil: the record side dereferences it.
-/

namespace ChatLab.Storage

open Foundation

/-! ## The round trip -/

/-- No payload, or one that is no pointer. -/
def Payload.isValue : Payload → Bool
  | .absent | .text _ | .audio _ | .file _ => true
  | _ => false

theorem Payload.persisted_of_isValue {p : Payload} (h : p.isValue = true) : p.persisted = p := by
  cases p with
  | absent | text _ | audio _ | file _ => rfl
  | textPointer _ | audioPointer _ | filePointer _ | other => cases h

theorem Payload.toPb_of_isValue {p : Payload} (h : p.isValue = true) : ∃ pb, p.toPb = some pb := by
  cases p with
  | absent | text _ | audio _ | file _ => exact ⟨_, rfl⟩
  | textPointer _ | audioPointer _ | filePointer _ | other => cases h

theorem fromAnalysis_of_isValue {a : Analysis} (h : a.payload.isValue = true) :
    ∃ p, fromAnalysis a = some p ∧ toAnalysis p = .ok { a with version := UUID.nil } := by
  obtain ⟨pb, hPb⟩ := Payload.toPb_of_isValue h
  have hFrom : ∃ p, fromAnalysis a = some p := by
    rw [fromAnalysis, hPb]
    exact ⟨_, rfl⟩
  obtain ⟨p, hp⟩ := hFrom
  refine ⟨p, hp, ?_⟩
  rw [toAnalysis_of_fromAnalysis hp, Analysis.persisted, Payload.persisted_of_isValue h]

/-- A record returns all fields of its analysis but the version, which comes
back as the zero UUID. -/
theorem record_lossless_iff {a : Analysis} (h : a.payload.isValue = true) :
    (∃ p, fromAnalysis a = some p ∧ toAnalysis p = .ok { a with version := UUID.nil }) ∧
      ((∃ p, fromAnalysis a = some p ∧ toAnalysis p = .ok a) ↔ a.version = UUID.nil) := by
  obtain ⟨p, hp, hBack⟩ := fromAnalysis_of_isValue h
  refine ⟨⟨p, hp, hBack⟩, ?_⟩
  constructor
  · rintro ⟨q, hq, hSame⟩
    obtain rfl := Option.some.inj (hp.symm.trans hq)
    have hEq := Except.ok.inj (hBack.symm.trans hSame)
    exact (congrArg Analysis.version hEq).symm
  · intro hVersion
    refine ⟨p, hp, ?_⟩
    rw [hBack, ← hVersion]

theorem record_lossless_unversioned :
    ∃ p, fromAnalysis (sampleAnalysis "c" 1) = some p ∧
      toAnalysis p = .ok (sampleAnalysis "c" 1) :=
  (record_lossless_iff (a := sampleAnalysis "c" 1) rfl).2.mpr rfl

def versionedAnalysis : Analysis := { sampleAnalysis "c" 1 with version := numberedId 1 }

theorem record_loses_version :
    ¬ ∀ a : Analysis, a.payload.isValue = true →
      ∃ p, fromAnalysis a = some p ∧ toAnalysis p = .ok a := by
  intro hAlways
  obtain ⟨p, hp, hBack⟩ := hAlways versionedAnalysis rfl
  have hEq := Except.ok.inj ((toAnalysis_of_fromAnalysis hp).symm.trans hBack)
  exact absurd (congrArg Analysis.version hEq) (by decide)

/-! ## Pointers -/

/-- What a pointer leads to, if it is not nil. -/
def Payload.pointee : Payload → Option Payload
  | .textPointer p => p.map .text
  | .audioPointer p => p.map .audio
  | .filePointer p => p.map .file
  | _ => none

def Payload.isPointer : Payload → Bool
  | .textPointer _ | .audioPointer _ | .filePointer _ => true
  | _ => false

def Payload.isNil : Payload → Bool
  | .textPointer none | .audioPointer none | .filePointer none => true
  | _ => false

theorem Payload.toPb_eq_none_iff {p : Payload} : p.toPb = none ↔ p.isNil = true := by
  cases p with
  | textPointer p | audioPointer p | filePointer p => cases p <;> simp [toPb, isNil]
  | absent | text _ | audio _ | file _ | other => simp [toPb, isNil]

theorem fromAnalysis_eq_none_iff {a : Analysis} :
    fromAnalysis a = none ↔ a.payload.isNil = true := by
  rw [fromAnalysis, Option.map_eq_none_iff, Payload.toPb_eq_none_iff]

theorem Payload.toPb_pointee {p v : Payload} (h : p.pointee = some v) : v.toPb = p.toPb := by
  cases p with
  | textPointer p | audioPointer p | filePointer p =>
    obtain ⟨value, rfl, rfl⟩ := Option.map_eq_some_iff.mp h
    rfl
  | absent | text _ | audio _ | file _ | other => cases h

section Stored

variable (marshals : AnalysisPb → Bool) (toLower : String → String)

/-- Neither call panics over the analysis, and both do with a pointer what they
do with the value behind it. -/
structure Analysis.StoredAlike (a : Analysis) : Prop where
  store_returns : ∀ repo fault, (store marshals toLower repo a fault).2 ≠ .error .nilPayload
  storeBatch_returns : ∀ repo before after fault,
    (∀ b ∈ before ++ after, b.payload.isNil = false) →
    (storeBatch marshals toLower repo (before ++ a :: after) fault).2 ≠ .error .nilPayload
  store_value : ∀ v, a.payload.pointee = some v → ∀ repo fault,
    store marshals toLower repo a fault = store marshals toLower repo { a with payload := v } fault
  storeBatch_value : ∀ v, a.payload.pointee = some v → ∀ repo before after fault,
    storeBatch marshals toLower repo (before ++ a :: after) fault =
      storeBatch marshals toLower repo (before ++ { a with payload := v } :: after) fault

variable {marshals toLower}

theorem fromAnalysis_pointee {a : Analysis} {v : Payload} (h : a.payload.pointee = some v) :
    fromAnalysis { a with payload := v } = fromAnalysis a := by
  rw [fromAnalysis, fromAnalysis, Payload.toPb_pointee h]

theorem documentOf_pointee {a : Analysis} {v : Payload} (h : a.payload.pointee = some v) :
    documentOf toLower { a with payload := v } = documentOf toLower a := by
  have hText : prepareInternalData { a with payload := v } = prepareInternalData a := by
    obtain ⟨_, _, _, _, _, _, _, payload, _⟩ := a
    cases payload with
    | textPointer p | audioPointer p | filePointer p =>
      obtain ⟨value, rfl, rfl⟩ := Option.map_eq_some_iff.mp h
      rfl
    | absent | text _ | audio _ | file _ | other => cases h
  rw [documentOf, documentOf, hText]

theorem prepareBatch_pointee {a : Analysis} {v : Payload} (h : a.payload.pointee = some v)
    (before after : List Analysis) :
    prepareBatch marshals (before ++ { a with payload := v } :: after) =
      prepareBatch marshals (before ++ a :: after) := by
  induction before with
  | nil =>
    rw [List.nil_append, List.nil_append, prepareBatch, prepareBatch, fromAnalysis_pointee h]
    rfl
  | cons b before ih => rw [List.cons_append, List.cons_append, prepareBatch, prepareBatch, ih]

variable (marshals) in
theorem prepareBatch_ne_nilPayload {analyses : List Analysis}
    (h : ∀ a ∈ analyses, a.payload.isNil = false) :
    (prepareBatch marshals analyses).2 ≠ some .nilPayload := by
  induction analyses with
  | nil => simp [prepareBatch]
  | cons a rest ih =>
    obtain ⟨hHead, hRest⟩ := List.forall_mem_cons.mp h
    rw [prepareBatch]
    split
    · rename_i hNone
      rw [fromAnalysis_eq_none_iff.mp hNone] at hHead
      cases hHead
    · split
      · exact ih hRest
      · simp

theorem commitWrites_ne_nilPayload (repo : Repository) (sets : List (Key × Value))
    (documents : List (String × Document)) (fault : Fault) :
    (commitWrites repo sets documents fault).2 ≠ .error .nilPayload := by
  cases fault <;> simp [commitWrites]

theorem storeBatch_ne_nilPayload {analyses : List Analysis}
    (h : ∀ a ∈ analyses, a.payload.isNil = false) (repo : Repository) (fault : Fault) :
    (storeBatch marshals toLower repo analyses fault).2 ≠ .error .nilPayload := by
  have hPrepare := prepareBatch_ne_nilPayload marshals h
  rw [storeBatch]
  split
  · rename_i e hError
    rw [hError] at hPrepare
    rintro ⟨⟩
    exact hPrepare rfl
  · exact commitWrites_ne_nilPayload _ _ _ _

theorem storeBatch_pointee {a : Analysis} {v : Payload} (h : a.payload.pointee = some v)
    (repo : Repository) (before after : List Analysis) (fault : Fault) :
    storeBatch marshals toLower repo (before ++ a :: after) fault =
      storeBatch marshals toLower repo (before ++ { a with payload := v } :: after) fault := by
  have hDocuments : (before ++ { a with payload := v } :: after).map (documentOf toLower) =
      (before ++ a :: after).map (documentOf toLower) := by
    rw [List.map_append, List.map_append, List.map_cons, List.map_cons, documentOf_pointee h]
  rw [storeBatch, storeBatch, prepareBatch_pointee h, hDocuments]

theorem storedAlike_of_not_isNil {a : Analysis} (h : a.payload.isNil = false) :
    a.StoredAlike marshals toLower where
  store_returns repo fault := by
    rw [store_eq_storeBatch]
    exact storeBatch_ne_nilPayload (by simpa using h) repo fault
  storeBatch_returns repo before after fault hOthers := by
    refine storeBatch_ne_nilPayload ?_ repo fault
    intro b hb
    obtain hb | hb := List.mem_append.mp hb
    · exact hOthers b (List.mem_append_left _ hb)
    · obtain rfl | hb := List.mem_cons.mp hb
      · exact h
      · exact hOthers b (List.mem_append_right _ hb)
  store_value v hv repo fault := by
    rw [store_eq_storeBatch, store_eq_storeBatch]
    exact storeBatch_pointee hv repo [] [] fault
  storeBatch_value v hv repo before after fault := storeBatch_pointee hv repo before after fault

theorem store_panics {a : Analysis} (h : a.payload.isNil = true) (repo : Repository)
    (fault : Fault) : (store marshals toLower repo a fault).2 = .error .nilPayload := by
  rw [store, fromAnalysis_eq_none_iff.mpr h]

/-- A pointer is stored like the value behind it, and without a panic, exactly
if there is a value behind it. -/
theorem pointer_stored_alike_iff {a : Analysis} (hPointer : a.payload.isPointer = true) :
    a.StoredAlike marshals toLower ↔ ∃ v, a.payload.pointee = some v := by
  have hNil : a.payload.isNil = false ↔ ∃ v, a.payload.pointee = some v := by
    cases hPayload : a.payload with
    | textPointer p | audioPointer p | filePointer p =>
      cases p <;> simp [Payload.isNil, Payload.pointee]
    | absent | text _ | audio _ | file _ | other =>
      rw [hPayload] at hPointer
      cases hPointer
  rw [← hNil]
  constructor
  · intro hAlike
    rw [Bool.eq_false_iff]
    intro hIsNil
    exact hAlike.store_returns { db := .empty, documents := .empty } .none (store_panics hIsNil _ _)
  · exact storedAlike_of_not_isNil

end Stored

def pointerAnalysis (p : Option TextContent) : Analysis :=
  { sampleAnalysis "c" 1 with payload := .textPointer p }

theorem pointer_stored_alike_text :
    (pointerAnalysis (some { content := "t" })).StoredAlike (fun _ => true) id :=
  (pointer_stored_alike_iff rfl).mpr ⟨.text { content := "t" }, rfl⟩

theorem nil_pointer_panics :
    ¬ ∀ a : Analysis, a.payload.isPointer = true → a.StoredAlike (fun _ => true) id := by
  intro hAlways
  have hAlike := hAlways (pointerAnalysis none) rfl
  exact hAlike.store_returns { db := .empty, documents := .empty } .none rfl

end ChatLab.Storage
