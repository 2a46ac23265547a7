import ChatLab.Services.AnalyzerService
import ChatLab.Storage.AnalysisScan

/-!
# The type of a queued file

Two functions classify the raw type of a file. `IsAuthorized` parses it as a
media type, so that case, surrounding white space and parameters make no
difference; `ToMIME` compares it as it is. The sink queues a task by the first
and the task carries what the second made of the same text: the constant for
the constant's own spelling, and `Unknown` for every other accepted one.
-/

namespace ChatLab.Sink

open Foundation Services Storage

/-! ## `mime.ParseMediaType` -/

/-- The rune functions that the parser uses, and whether the text behind the
media type parses as parameters. -/
structure MediaText where
  toLower : Char → Char
  isSpace : Char → Bool
  acceptsParams : List Char → Bool

def isTokenChar (c : Char) : Bool :=
  decide (0x20 < c.val) && decide (c.val < 0x7f) && !"()<>@,;:\\\"/[]?=".toList.contains c

/-- A token, or two of them with a slash between. -/
def checkMediaTypeDisposition (s : List Char) : Bool :=
  match s.takeWhile isTokenChar, s.dropWhile isTokenChar with
  | [], _ => false
  | _ :: _, [] => true
  | _ :: _, c :: rest => c = '/' && rest ≠ [] && rest.all isTokenChar

def trimSpace (isSpace : Char → Bool) (s : List Char) : List Char :=
  ((s.dropWhile isSpace).reverse.dropWhile isSpace).reverse

def MediaText.parseMediaType (t : MediaText) (v : String) : Option String :=
  let base := v.toList.takeWhile (· ≠ ';')
  let mediatype := trimSpace t.isSpace (base.map t.toLower)
  if checkMediaTypeDisposition mediatype && t.acceptsParams (v.toList.dropWhile (· ≠ ';')) then
    some (String.ofList mediatype)
  else none

/-- The characters of the media types that the program names. -/
def mediaAlphabet : List Char := "abcdefghijklmnopqrstuvwxyz0123456789/-".toList

/-- Lower-case letters, digits, slash and hyphen are their own lower case and
no white space. -/
def MediaText.Plain (t : MediaText) : Prop :=
  ∀ c ∈ mediaAlphabet, t.toLower c = c ∧ t.isSpace c = false

instance (t : MediaText) : Decidable t.Plain :=
  decidable_of_iff ((mediaAlphabet.all fun c => t.toLower c = c && !t.isSpace c) = true)
    (by simp [MediaText.Plain])

theorem trimSpace_of_plain {isSpace : Char → Bool} {s : List Char}
    (h : ∀ c ∈ s, isSpace c = false) : trimSpace isSpace s = s := by
  have hFront : ∀ l : List Char, (∀ c ∈ l, isSpace c = false) → l.dropWhile isSpace = l := by
    intro l hl
    cases l with
    | nil => rfl
    | cons c l =>
      rw [List.dropWhile_cons_of_neg]
      rw [hl c List.mem_cons_self]
      exact Bool.false_ne_true
  rw [trimSpace, hFront s h, hFront s.reverse fun c hc => h c (List.mem_reverse.mp hc),
    List.reverse_reverse]

namespace MediaText

variable {t : MediaText}

/-- A media type spelt as the program names it parses as itself, or not at all. -/
theorem parseMediaType_text (h : t.Plain) (m : MIME) :
    t.parseMediaType m.text = none ∨ t.parseMediaType m.text = some m.text := by
  have hChars : m.text.toList.all (fun c => mediaAlphabet.contains c && c != ';') = true := by
    cases m with
    | _ => decide
  have hText : ∀ c ∈ m.text.toList, c ∈ mediaAlphabet ∧ c ≠ ';' := by
    intro c hc
    have hc := List.all_eq_true.mp hChars c hc
    rw [Bool.and_eq_true, List.contains_iff_mem, bne_iff_ne] at hc
    exact hc
  have hBase : m.text.toList.takeWhile (· ≠ ';') = m.text.toList := by
    apply List.takeWhile_eq_self_iff.mpr
    intro c hc
    exact decide_eq_true (hText c hc).2
  have hLower : m.text.toList.map t.toLower = m.text.toList := by
    rw [List.map_congr_left fun c hc => (h c (hText c hc).1).1]
    exact List.map_id' _
  have hTrim : trimSpace t.isSpace m.text.toList = m.text.toList :=
    trimSpace_of_plain fun c hc => (h c (hText c hc).1).2
  simp only [parseMediaType, hBase, hLower, hTrim, String.ofList_toList]
  split
  · exact .inr rfl
  · exact .inl rfl

end MediaText

/-! ## The two classifications -/

theorem text_injective {m k : MIME} (h : m.text = k.text) : m = k := by
  have hAll : ∀ m k : MIME, m.text = k.text → m = k := by
    intro m k
    cases m with
    | _ => cases k with
      | _ => decide
  exact hAll m k h

theorem isAuthorized_some {parse : String → Option String} {raw : String} {m : MIME}
    (h : MIME.isAuthorized parse raw = some m) :
    parse raw = some m.text ∧
      m ∈ [MIME.audioMPEG, .audioWAV, .audioXAIFF, .applicationPDF, .imagePNG, .imageJPEG,
        .imageGIF] := by
  have hFirst : ∀ candidates, MIME.firstMatch parse raw candidates = some m →
      m ∈ candidates ∧ parse raw = some m.text := by
    intro candidates hFound
    refine ⟨List.mem_of_find?_eq_some hFound, ?_⟩
    have hMatch := List.find?_some hFound
    rw [MIME.matches?] at hMatch
    split at hMatch
    · cases hMatch
    · rename_i mt hParse
      rw [hParse, of_decide_eq_true hMatch]
  rw [MIME.isAuthorized, Option.or_eq_some_iff, Option.or_eq_some_iff] at h
  obtain hAudio | ⟨_, hPDF | ⟨_, hImage⟩⟩ := h
  · obtain ⟨hMem, hParse⟩ := hFirst _ hAudio
    exact ⟨hParse,
      List.mem_append_left [MIME.applicationPDF, .imagePNG, .imageJPEG, .imageGIF] hMem⟩
  · obtain ⟨hMem, hParse⟩ := hFirst _ hPDF
    obtain rfl := List.mem_singleton.mp hMem
    exact ⟨hParse, by decide⟩
  · obtain ⟨hMem, hParse⟩ := hFirst _ hImage
    exact ⟨hParse, List.mem_append_right [MIME.audioMPEG, .audioWAV, .audioXAIFF, .applicationPDF]
      hMem⟩

theorem toMIME_of_ne_unknown {raw : String} (h : MIME.toMIME raw ≠ .unknown) :
    raw = (MIME.toMIME raw).text := by
  rw [MIME.toMIME] at h ⊢
  cases hFind : [MIME.audioMPEG, .audioWAV, .audioXAIFF, .applicationPDF, .imagePNG, .imageJPEG,
      .imageGIF, .videoMP4].find? fun k => raw = k.text with
  | none =>
    rw [hFind] at h
    exact absurd rfl h
  | some k =>
    have hText := List.find?_some hFind
    exact of_decide_eq_true hText

/-- The effective type of an accepted file is its type exactly when the raw
type is spelt as the program names it, and unknown otherwise. -/
theorem toMIME_of_isAuthorized {t : MediaText} (hPlain : t.Plain) {raw : String} {m : MIME}
    (h : MIME.isAuthorized t.parseMediaType raw = some m) :
    (MIME.toMIME raw = m ↔ raw = m.text) ∧ (raw ≠ m.text → MIME.toMIME raw = .unknown) := by
  obtain ⟨hParse, hMem⟩ := isAuthorized_some h
  have hKnown : ∀ k ∈ [MIME.audioMPEG, .audioWAV, .audioXAIFF, .applicationPDF, .imagePNG,
      .imageJPEG, .imageGIF], k ≠ .unknown ∧ MIME.toMIME k.text = k := by decide
  obtain ⟨hNe, hSelf⟩ := hKnown m hMem
  refine ⟨⟨?_, ?_⟩, ?_⟩
  · rintro rfl
    exact toMIME_of_ne_unknown hNe
  · rintro rfl
    exact hSelf
  · intro hOther
    by_contra hClassified
    have hText := toMIME_of_ne_unknown hClassified
    rw [hText] at hParse
    obtain hNone | hSome := MediaText.parseMediaType_text hPlain (MIME.toMIME raw)
    · rw [hNone] at hParse
      cases hParse
    · rw [hSome] at hParse
      exact hOther (hText.trans (Option.some.inj hParse))

/-! ## The queue -/

variable {parse : String → Option String} {marshalsTask : FileTaskPb → Bool}
  {marshals : AnalysisPb → Bool} {toLower : String → String}

theorem mem_enqueueTasks {db : DB} {items : List BatchItem} {e : Key × Value}
    (h : e ∈ (enqueueTasks parse marshalsTask db items).entries) :
    e ∈ db.entries ∨ ∃ item ∈ items,
      (∃ m, MIME.isAuthorized parse item.event.rawMimeType = some m) ∧
        e.2 = .task (toPbFileTask item.task) := by
  induction items generalizing db with
  | nil => exact .inl h
  | cons item items ih =>
    obtain hOld | ⟨later, hLater, hQueued⟩ := ih h
    · cases hType : MIME.isAuthorized parse item.event.rawMimeType with
      | none =>
        simp only [hType] at hOld
        exact .inl hOld
      | some m =>
        simp only [hType, enqueueTask] at hOld
        split at hOld
        · obtain rfl | ⟨hOld, _⟩ := (db.mem_insert _ _ e).mp hOld
          · exact .inr ⟨item, List.mem_cons_self, ⟨m, hType⟩, rfl⟩
          · exact .inl hOld
        · exact .inl hOld
    · exact .inr ⟨later, List.mem_cons_of_mem item hLater, hQueued⟩

theorem task_of_processAndStore {repo : Repository} {items : List BatchItem} {fault : Fault}
    {e : Key × Value} {p : FileTaskPb}
    (h : e ∈ (processAndStore parse marshalsTask marshals toLower repo items fault).1.db.entries)
    (hTask : e.2 = .task p) :
    e ∈ repo.db.entries ∨ ∃ item ∈ items,
      (∃ m, MIME.isAuthorized parse item.event.rawMimeType = some m) ∧
        p = toPbFileTask item.task := by
  have hQueue : ∀ e ∈ (enqueueTasks parse marshalsTask repo.db items).entries, e.2 = .task p →
      e ∈ repo.db.entries ∨ ∃ item ∈ items,
        (∃ m, MIME.isAuthorized parse item.event.rawMimeType = some m) ∧
          p = toPbFileTask item.task := by
    intro e he hTask
    obtain hOld | ⟨item, hItem, hType, hValue⟩ := mem_enqueueTasks he
    · exact .inl hOld
    · exact .inr ⟨item, hItem, hType, Value.task.inj (hTask.symm.trans hValue)⟩
  rw [processAndStore] at h
  split at h
  · exact .inl h
  · rename_i allAnalyses _
    dsimp only at h
    split at h
    · exact hQueue e h hTask
    · obtain ⟨ws, hws, hdb⟩ := storeBatch_db marshals toLower
        { repo with db := enqueueTasks parse marshalsTask repo.db items } allAnalyses fault
      rw [hdb] at h
      obtain hOld | hNew := OrderedMap.mem_of_mem_insertAll _ h
      · exact hQueue e hOld hTask
      · obtain ⟨a, _, q, _, hWrite⟩ := hws e hNew
        obtain rfl | hWrite := List.mem_cons.mp hWrite
        · cases hTask
        · obtain rfl := List.mem_singleton.mp hWrite
          cases hTask

/-- An accepted raw type is classified as its constant by `ToMIME` exactly when
it is spelt as that constant, and as unknown otherwise. A task that the sink
queues for a file from the analyzer service carries that classification. -/
theorem queued_type_iff (t : MediaText) (hPlain : t.Plain) :
    (∀ raw m, MIME.isAuthorized t.parseMediaType raw = some m →
      (MIME.toMIME raw = m ↔ raw = m.text) ∧ (raw ≠ m.text → MIME.toMIME raw = .unknown)) ∧
    ∀ (marshalsTask : FileTaskPb → Bool) (marshals : AnalysisPb → Bool)
      (toLower : String → String) (repo : Repository) (items : List BatchItem) (fault : Fault),
      (∀ item ∈ items, ∃ request id, item.event = toEvent request id) →
      ∀ e ∈ (processAndStore t.parseMediaType marshalsTask marshals toLower repo items
        fault).1.db.entries, ∀ p, e.2 = .task p → e ∈ repo.db.entries ∨
        ∃ m, MIME.isAuthorized t.parseMediaType p.rawMimeType = some m ∧
          (p.effectiveMimeType = m.text ↔ p.rawMimeType = m.text) ∧
          (p.rawMimeType ≠ m.text → p.effectiveMimeType = MIME.unknown.text) := by
  refine ⟨fun raw m => toMIME_of_isAuthorized hPlain, ?_⟩
  intro marshalsTask marshals toLower repo items fault hItems e he p hTask
  refine (task_of_processAndStore he hTask).imp_right ?_
  rintro ⟨item, hItem, ⟨m, hType⟩, rfl⟩
  obtain ⟨request, id, hEvent⟩ := hItems item hItem
  have hRaw : (toPbFileTask item.task).rawMimeType = item.event.rawMimeType := rfl
  have hEffective : (toPbFileTask item.task).effectiveMimeType =
      (MIME.toMIME item.event.rawMimeType).text := by
    rw [toPbFileTask, BatchItem.task, hEvent]
    rfl
  obtain ⟨hSame, hUnknown⟩ := toMIME_of_isAuthorized hPlain hType
  rw [hRaw, hEffective]
  refine ⟨m, hType, ⟨?_, ?_⟩, ?_⟩
  · exact fun hText => hSame.mp (text_injective hText)
  · exact fun hText => congrArg MIME.text (hSame.mpr hText)
  · exact fun hOther => congrArg MIME.text (hUnknown hOther)

/-- The ASCII part of the rune functions, without parameters. -/
def asciiMedia : MediaText where
  toLower := Char.toLower
  isSpace c := decide (c.val ∈ [9, 10, 11, 12, 13, 32])
  acceptsParams rest := rest.isEmpty

def shoutedRequest : FileAnalyzerRequest where
  path := "/a.png"
  driveId := "d"
  size := 1
  attributes := 0
  mimeType := "IMAGE/PNG"
  magicBytes := []
  scannedAt := 5
  sourceType := .localFixed

def shoutedItem : BatchItem where
  event := toEvent shoutedRequest UUID.nil
  version := UUID.nil
  now := 7
  enqueues := true

theorem queued_type_unknown :
    shoutedRequest.validate = [] ∧
      MIME.isAuthorized asciiMedia.parseMediaType "IMAGE/PNG" = some .imagePNG ∧
      MIME.toMIME "IMAGE/PNG" = .unknown ∧
      (processAndStore asciiMedia.parseMediaType (fun _ => true) (fun _ => true) id
        { db := .empty, documents := .empty } [shoutedItem] .none).1.db.get?
          (pendingKey shoutedItem.task) =
        some (.task { toPbFileTask shoutedItem.task with effectiveMimeType := "unknown" }) := by
  decide +kernel

theorem queued_type_iff_png :
    MIME.toMIME "IMAGE/PNG" = .unknown ∧ MIME.toMIME "image/png" = .imagePNG := by
  obtain ⟨hTypes, _⟩ := queued_type_iff asciiMedia (by decide)
  exact ⟨(hTypes "IMAGE/PNG" .imagePNG (by decide +kernel)).2 (by decide),
    (hTypes "image/png" .imagePNG (by decide +kernel)).1.mpr rfl⟩

end ChatLab.Sink
