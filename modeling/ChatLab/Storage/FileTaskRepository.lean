import ChatLab.Foundation.Transactions
import ChatLab.Storage.Database

/-!
# Queued file tasks

The sink writes a task under its priority, creation time and identifier. A
worker claims it in one transaction that moves it to a key of its identifier
alone. What a read of the store answers beyond found and not found is up to
the environment.
-/

namespace ChatLab.Storage

open Foundation Foundation.Decimal Foundation.Transactions

/-- `Priority` is an int; only the two named values are ever used. -/
abbrev Priority := Int

def high : Priority := 0

def normal : Priority := 1

structure FileTask where
  id : String
  driveId : String
  path : String
  rawMimeType : String
  effectiveMimeType : MIME
  size : UInt64
  priority : Priority
  createdAt : Int
  retryCount : Int
deriving DecidableEq

def toPbPriority (p : Priority) : PriorityPb :=
  if p = high then .high else .normal

def toPbFileTask (t : FileTask) : FileTaskPb where
  id := t.id
  driveId := t.driveId
  path := t.path
  rawMimeType := t.rawMimeType
  effectiveMimeType := t.effectiveMimeType.text
  size := t.size
  prior := toPbPriority t.priority
  createdAt := t.createdAt
  retryCount := Int32.ofInt t.retryCount

/-- `Priority(p.Prior)`: the enum numbers are those of the constants. -/
def PriorityPb.toPriority : PriorityPb → Priority
  | .high => 0
  | .normal => 1

def fromPbFileTask (p : FileTaskPb) : FileTask where
  id := p.id
  driveId := p.driveId
  path := p.path
  rawMimeType := p.rawMimeType
  effectiveMimeType := MIME.toMIME p.effectiveMimeType
  size := p.size
  priority := p.prior.toPriority
  createdAt := p.createdAt
  retryCount := p.retryCount.toInt

/-- `work:pending:%d:%d:%s`. -/
def pendingKey (t : FileTask) : Key :=
  pendingStem ++ (decimal t.priority ++ ':' :: (decimal (unixNano t.createdAt) ++
    ':' :: t.id.toList))

section Enqueue

variable (marshals : FileTaskPb → Bool)

/-- `EnqueueTask`; `committed` is whether the transaction went through. -/
def enqueueTask (db : DB) (t : FileTask) (committed : Bool) : DB × Bool :=
  if marshals (toPbFileTask t) && committed then
    (db.insert (pendingKey t) (.task (toPbFileTask t)), true)
  else (db, false)

end Enqueue

/-! ## Reading the next tasks -/

inductive BatchError
  | unmarshal
deriving DecidableEq, Repr

def collectTasks (limit : Int) : List (Key × Value) → List FileTask →
    Except BatchError (List FileTask)
  | [], tasks => .ok tasks
  | (k, v) :: it, tasks =>
    if pendingStem.isPrefixOf k && decide ((tasks.length : Int) < limit) then
      match v with
      | .task p => collectTasks limit it (tasks ++ [fromPbFileTask p])
      | _ => .error .unmarshal
    else .ok tasks

def getNextBatch (db : DB) (limit : Int) : Except BatchError (List FileTask) :=
  collectTasks limit (db.ascendingFrom pendingStem) []

/-! ## Claiming a task -/

/-- `work:processing:%s`. -/
def processingKey (t : FileTask) : Key := "work:processing:".toList ++ t.id.toList

inductive TaskError
  | marshal
  | noLongerPending
deriving DecidableEq, Repr

/-- A call of `MarkAsProcessing`; `readFault` is whether `Get` answers with an
error other than the missing key. -/
structure TaskClaim where
  task : FileTask
  readFault : Bool
deriving DecidableEq

section Claim

variable (marshals : FileTaskPb → Bool)

/-- The transaction of `MarkAsProcessing`. The source returns only when the
error is the missing key, so any other error of the read lets it go on. -/
def markAsProcessing (c : TaskClaim) (db : DB) : Except TaskError (Body Key Value) :=
  if marshals (toPbFileTask c.task) then
    if c.readFault = false ∧ db.get? (pendingKey c.task) = none then .error .noLongerPending
    else .ok {
      reads := [pendingKey c.task]
      writes := [(pendingKey c.task, none),
        (processingKey c.task, some (.task (toPbFileTask c.task)))] }
  else .error .marshal

end Claim

theorem pending_ne_processing (t u : FileTask) : pendingKey t ≠ processingKey u :=
  ne_of_stems (i := 6) (by decide) (by decide) (by decide)

theorem markAsProcessing_ok {marshals : FileTaskPb → Bool} {c : TaskClaim} {db : DB}
    {b : Body Key Value} (h : markAsProcessing marshals c db = .ok b) :
    b = { reads := [pendingKey c.task]
          writes := [(pendingKey c.task, none),
            (processingKey c.task, some (.task (toPbFileTask c.task)))] } ∧
      (c.readFault = true ∨ (db.get? (pendingKey c.task)).isSome = true) := by
  rw [markAsProcessing] at h
  split at h
  · split at h
    · cases h
    · rename_i hFound
      refine ⟨(Except.ok.inj h).symm, ?_⟩
      cases hFault : c.readFault with
      | true => exact Or.inl rfl
      | false =>
        cases hGet : db.get? (pendingKey c.task) with
        | none => exact absurd ⟨hFault, hGet⟩ hFound
        | some v => exact Or.inr rfl
  · cases h

/-- Claiming is a claim of the pending key: it needs an entry there and leaves none. -/
theorem markAsProcessing_isClaim (marshals : FileTaskPb → Bool) :
    IsClaim (markAsProcessing marshals) (fun c => pendingKey c.task)
      (fun v => v.isSome = true) (fun _ => none) where
  reads c db b h := by
    obtain ⟨rfl, _⟩ := markAsProcessing_ok h
    exact List.mem_singleton_self _
  leaves c db b h n := by
    obtain ⟨rfl, _⟩ := markAsProcessing_ok h
    simp only [applyWrites, List.foldl_cons, List.foldl_nil]
    rw [OrderedMap.get?_insert_of_ne _ _ (pending_ne_processing _ _), OrderedMap.get?_erase_self]
  taken _ := by simp
  frame c db b h c' hKey := by
    obtain ⟨rfl, _⟩ := markAsProcessing_ok h
    simp [hKey, pending_ne_processing]

end ChatLab.Storage
