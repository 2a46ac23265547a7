import ChatLab.Storage.FileTaskRepository
import ChatLab.Transfer.Scanner

/-!
# Claiming queued files

A file transfer worker claims each task of its batch and sends a download
request for it when the claim returned without error. Any number of claims
may be under way: each has read its snapshot and commits later. The batches
themselves do not matter here, since a claim may be made for any task.
-/

namespace ChatLab.Workers

open Foundation Foundation.Transactions Storage Transfer

abbrev ClaimState := TxnState Key Value TaskClaim TaskError

abbrev ClaimAction := TxnAction TaskClaim

/-- What the worker sends to the downloader after `MarkAsProcessing`. -/
def dispatch (task : FileTask) : Except (TxnError TaskError) Unit → Option FileDownloaderRequest
  | .ok () => some { driveId := task.driveId, fileId := task.id, path := task.path }
  | .error _ => none

/-- The calls for one pending entry that returned nil. -/
def grants (s : ClaimState) (entry : Key) : List TaskClaim :=
  (winners s).filter fun c => pendingKey c.task = entry

def dispatches (s : ClaimState) (entry : Key) : List FileDownloaderRequest :=
  (s.returned.filter fun p => pendingKey p.1.task = entry).filterMap fun p =>
    dispatch p.1.task p.2

/-- A read that fails for another reason than a missing key fails only while
the entry is there. -/
def ReadsHonestly (c : TaskClaim) (db : DB) : Prop :=
  c.readFault = true → (db.get? (pendingKey c.task)).isSome = true

instance (c : TaskClaim) (db : DB) : Decidable (ReadsHonestly c db) :=
  inferInstanceAs (Decidable (_ → _))

section Claims

variable (options : BadgerOptions) (marshals : FileTaskPb → Bool)

def claimMachine (db : DB) : Machine ClaimState ClaimAction :=
  txnMachine options.detectConflicts (markAsProcessing marshals) db

/-- Without conflict detection, a claim of an entry begins only when no other
claim of it is between its snapshot and its commit. -/
def ClaimsApart (s : ClaimState) (a : ClaimAction) : Prop :=
  Apart options.detectConflicts (fun c : TaskClaim => pendingKey c.task) ReadsHonestly s a

instance (s : ClaimState) (a : ClaimAction) : Decidable (ClaimsApart options s a) :=
  inferInstanceAs (Decidable (Apart _ _ _ _ _))

end Claims

theorem length_dispatches (s : ClaimState) (entry : Key) :
    (dispatches s entry).length = (grants s entry).length := by
  rw [dispatches, grants, winners]
  induction s.returned with
  | nil => rfl
  | cons p rest ih =>
    obtain ⟨c, result⟩ := p
    by_cases hEntry : pendingKey c.task = entry
    · cases result with
      | ok u => simpa [hEntry, dispatch] using ih
      | error e => simpa [hEntry, dispatch] using ih
    · cases result with
      | ok u => simpa [hEntry, dispatch] using ih
      | error e => simpa [hEntry, dispatch] using ih

/-- With conflict detection every interleaving is safe; without it, those in
which the claims of an entry do not overlap. -/
theorem grants_le_one {options : BadgerOptions} {marshals : FileTaskPb → Bool} {db : DB}
    {s : ClaimState}
    (h : (claimMachine options marshals db).Reaches (ClaimsApart options) s) (entry : Key) :
    (grants s entry).length ≤ 1 := by
  have hTrusted : ∀ c (m : DB) b, ReadsHonestly c m → markAsProcessing marshals c m = .ok b →
      (m.get? (pendingKey c.task)).isSome = true := by
    intro c m b hRead hOk
    obtain ⟨_, hFault | hFound⟩ := markAsProcessing_ok hOk
    · exact hRead hFault
    · exact hFound
  obtain ⟨hOnce, _⟩ := claimed_once (markAsProcessing_isClaim marshals) hTrusted h
  apply winners_filter_le_one hOnce (k := entry)
  intro c hEntry
  exact of_decide_eq_true hEntry

/-- On the database as the master opens it, in every run in which the claims
of one entry do not overlap, at most one of them returns nil, and at most one
download is requested for the entry. -/
theorem task_claimed_once {marshals : FileTaskPb → Bool} {db : DB} {s : ClaimState}
    (h : (claimMachine buildBadgerOpts marshals db).Reaches (ClaimsApart buildBadgerOpts) s)
    (entry : Key) : (grants s entry).length ≤ 1 ∧ (dispatches s entry).length ≤ 1 := by
  have hGrants := grants_le_one h entry
  refine ⟨hGrants, ?_⟩
  rw [length_dispatches]
  exact hGrants

/-! ## One entry, two claims -/

def sampleTask : FileTask where
  id := "a"
  driveId := "d"
  path := "/a.pdf"
  rawMimeType := "application/pdf"
  effectiveMimeType := .applicationPDF
  size := 1
  priority := normal
  createdAt := 5
  retryCount := 0

def sampleClaim : TaskClaim where
  task := sampleTask
  readFault := false

def sampleQueue : DB := OrderedMap.empty.insert (pendingKey sampleTask) (.task (toPbFileTask sampleTask))

abbrev sampleClaims : Machine ClaimState ClaimAction :=
  claimMachine buildBadgerOpts (fun _ => true) sampleQueue

/-- Two claims read the entry before either commits: both return nil and the
file is requested twice. -/
theorem task_claimed_twice :
    ∃ s, sampleClaims.Reachable s ∧ (grants s (pendingKey sampleTask)).length = 2 ∧
      (dispatches s (pendingKey sampleTask)).length = 2 :=
  ⟨sampleClaims.after [.begin sampleClaim, .begin sampleClaim, .commit 0 false, .commit 0 false],
    Machine.reachable_after _, by decide +kernel, by decide +kernel⟩

def sequentialClaims : ClaimState :=
  (sampleClaims.restrict (ClaimsApart buildBadgerOpts)).after
    [.begin sampleClaim, .commit 0 false, .begin sampleClaim]

theorem task_claimed_once_sequential :
    sequentialClaims.returned.length = 2 ∧
      (grants sequentialClaims (pendingKey sampleTask)).length = 1 ∧
      (dispatches sequentialClaims (pendingKey sampleTask)).length ≤ 1 :=
  ⟨by decide +kernel, by decide +kernel,
    (task_claimed_once (Machine.reaches_after_restrict sampleClaims (ClaimsApart buildBadgerOpts) _)
      (pendingKey sampleTask)).2⟩

end ChatLab.Workers
