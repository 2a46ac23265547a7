import Mathlib.Algebra.Order.Group.Multiset
import Mathlib.Algebra.Group.Prod
import Mathlib.Tactic.Abel
import ChatLab.Foundation.Bag
import ChatLab.Workers.FileScanner

/-!
# What a scan finds

A directory tree is the listing of its root, with the listings of the readable
subdirectories inside. What a tree is worth is a ledger: the requests its
authorized files call for, the number of its readable directories and one unit
of `scanWG`. Every queued directory and every worker owes the ledger of the
subtrees it still has to visit; a step pays a part of it or moves it on, so
what was paid and what is owed add up to the ledger of the root throughout.
-/

namespace ChatLab.Workers

open Foundation

/-- The entries of a directory, with the listings of those it can enter. -/
inductive Listing
  | nil
  | leaf (entry : DirEntry) (rest : Listing)
  | unreadable (entry : DirEntry) (rest : Listing)
  | folder (entry : DirEntry) (sub rest : Listing)

namespace Listing

def entries : Listing → List DirEntry
  | nil => []
  | leaf entry rest => entry :: rest.entries
  | unreadable entry rest => entry :: rest.entries
  | folder entry _ rest => entry :: rest.entries

/-- The number of readable directories below this one. -/
def folders : Listing → Nat
  | nil => 0
  | leaf _ rest => rest.folders
  | unreadable _ rest => rest.folders
  | folder _ sub rest => sub.folders + 1 + rest.folders

end Listing

def FileAnalyzerRequest.untimed (r : FileAnalyzerRequest) : FileAnalyzerRequest :=
  { r with scannedAt := 0 }

namespace Scanner

variable (c : Scanner)

/-- A regular file with readable information and an authorized MIME type. -/
def authorizedFile (path : String) (entry : DirEntry) : Option FileAnalyzerRequest :=
  match entry.type, entry.info with
  | .regular, some size =>
    let magicBytes := (c.fs.sniff path).getD []
    if (MIME.isAuthorized c.parseMediaType (c.detect magicBytes)).isSome then
      some { path := path, driveId := c.driveId, size := UInt64.ofInt size, attributes := 0,
             mimeType := c.detect magicBytes, magicBytes := magicBytes, scannedAt := 0,
             sourceType := .localFixed }
    else none
  | _, _ => none

/-- The requests that the files of a listing call for, up to the time of the scan. -/
def requests (dir : String) : Listing → List FileAnalyzerRequest
  | .nil => []
  | .leaf entry rest =>
    (c.authorizedFile (c.join dir entry.name) entry).toList ++ requests dir rest
  | .unreadable _ rest => requests dir rest
  | .folder entry sub rest => requests (c.join dir entry.name) sub ++ requests dir rest

/-- The listing is what the file system has below the directory. -/
def Below (dir : String) : Listing → Prop
  | .nil => True
  | .leaf entry rest => entry.type ≠ .directory ∧ Below dir rest
  | .unreadable entry rest => entry.type = .directory ∧
      c.fs.readDir (c.join dir entry.name) = none ∧ Below dir rest
  | .folder entry sub rest => entry.type = .directory ∧
      c.fs.readDir (c.join dir entry.name) = some sub.entries ∧
      Below (c.join dir entry.name) sub ∧ Below dir rest

/-- The tree of a path; none if it cannot be read as a directory. -/
def Tree (path : String) : Option Listing → Prop
  | none => c.fs.readDir path = none
  | some l => c.fs.readDir path = some l.entries ∧ c.Below path l

def treeRequests (path : String) (t : Option Listing) : List FileAnalyzerRequest :=
  t.elim [] (c.requests path)

def treeFolders (t : Option Listing) : Nat := t.elim 0 fun l => l.folders + 1

/-- A scan without further calls of `TriggerScan`. -/
def WithoutTrigger (_ : ScanState) : ScanAction → Prop
  | .trigger _ => False
  | _ => True

instance (s : ScanState) (a : ScanAction) : Decidable (WithoutTrigger s a) :=
  match a with
  | .trigger _ => inferInstanceAs (Decidable False)
  | .sendRoot _ | .handRoot _ _ | .receive _ | .readDir _ | .nextEntry _ _ | .sendDir _
  | .handDir _ _ | .sendFile _ => inferInstanceAs (Decidable True)

end Scanner

/-! ## Ledgers -/

abbrev Ledger := Multiset FileAnalyzerRequest × ℕ × ℤ

/-- A worker with the listings that it still has to go through. -/
inductive Visit
  | idle
  | opening (dir : String) (t : Option Listing)
  | listing (dir : String) (l : Listing)
  | sendingDir (dir path : String) (t : Option Listing) (l : Listing)
  | sendingFile (dir : String) (req : FileAnalyzerRequest) (l : Listing)

def Visit.worker : Visit → ScanWorker
  | idle => .idle
  | opening dir _ => .opening dir
  | listing dir l => .listing dir l.entries
  | sendingDir dir path _ l => .sendingDir dir path l.entries
  | sendingFile dir req l => .sendingFile dir req l.entries

section Owed

variable (c : Scanner)

def Visit.Valid : Visit → Prop
  | idle => True
  | opening dir t => c.Tree dir t
  | listing dir l => c.Below dir l
  | sendingDir dir path t l => c.Tree path t ∧ c.Below dir l
  | sendingFile dir _ l => c.Below dir l

def owedTree (p : String × Option Listing) : Ledger :=
  (c.treeRequests p.1 p.2, Scanner.treeFolders p.2, 1)

def owedListing (dir : String) (l : Listing) : Ledger := (c.requests dir l, l.folders, 1)

def Visit.owed : Visit → Ledger
  | idle => 0
  | opening dir t => owedTree c (dir, t)
  | listing dir l => owedListing c dir l
  | sendingDir dir path t l => owedTree c (path, t) + owedListing c dir l
  | sendingFile dir req l => ({req.untimed}, 0, 0) + owedListing c dir l

/-- What the state has paid, when it has scanned so many directories. -/
def ScanState.paid (s : ScanState) (scanned : Nat) : Ledger :=
  (s.fileChan.map FileAnalyzerRequest.untimed, scanned, -s.scanWG)

/-- The state with the trees of its queue and of its workers; paid and owed
make up the total. -/
structure Accounts (total : Ledger) (s : ScanState) (scanned : Nat)
    (queue : List (String × Option Listing)) (visits : List Visit) : Prop where
  dirChan : s.dirChan = queue.map Prod.fst
  workers : s.workers = visits.map Visit.worker
  callers : s.callers = []
  trees : ∀ p ∈ queue, c.Tree p.1 p.2
  valid : ∀ v ∈ visits, v.Valid c
  counted : s.counters.dirsScanned = UInt64.ofNat scanned
  balance : s.paid scanned + (queue.map (owedTree c)).sum + (visits.map (Visit.owed c)).sum = total

end Owed

/-! ## What a step pays -/

section Steps

variable {c : Scanner} {total : Ledger} {s s' : ScanState} {scanned scanned' : Nat}
  {queue queue' : List (String × Option Listing)} {visits : List Visit}

theorem Accounts.visit_of_worker (h : Accounts c total s scanned queue visits) {i : Nat}
    {w : ScanWorker} (hi : s.workers[i]? = some w) : ∃ v, visits[i]? = some v ∧ v.worker = w := by
  rw [h.workers, List.getElem?_map] at hi
  exact Option.map_eq_some_iff.mp hi

theorem Accounts.valid_of_get (h : Accounts c total s scanned queue visits) {i : Nat} {v : Visit}
    (hi : visits[i]? = some v) : v.Valid c :=
  h.valid v (List.mem_of_getElem? hi)

/-- One worker moves on, and the queue and the payments change to match. -/
theorem Accounts.replace (h : Accounts c total s scanned queue visits) {i : Nat} {v w : Visit}
    (hv : visits[i]? = some v) (hWorkers : s'.workers = s.workers.set i w.worker)
    (hDirChan : s'.dirChan = queue'.map Prod.fst) (hCallers : s'.callers = s.callers)
    (hTrees : ∀ p ∈ queue', c.Tree p.1 p.2) (hValid : w.Valid c)
    (hCounted : s'.counters.dirsScanned = UInt64.ofNat scanned')
    (hBalance : s'.paid scanned' + (queue'.map (owedTree c)).sum + w.owed c =
      s.paid scanned + (queue.map (owedTree c)).sum + v.owed c) :
    Accounts c total s' scanned' queue' (visits.set i w) where
  dirChan := hDirChan
  workers := by rw [hWorkers, h.workers, List.map_set]
  callers := hCallers.trans h.callers
  trees := hTrees
  valid := Bag.forall_mem_set h.valid hValid i
  counted := hCounted
  balance := by
    have hSum := Bag.sum_map_set (Visit.owed c) hv w
    apply add_right_cancel (b := v.owed c)
    calc s'.paid scanned' + (queue'.map (owedTree c)).sum +
          ((visits.set i w).map (Visit.owed c)).sum + v.owed c
        = s'.paid scanned' + (queue'.map (owedTree c)).sum +
            (v.owed c + ((visits.set i w).map (Visit.owed c)).sum) := by abel
      _ = s'.paid scanned' + (queue'.map (owedTree c)).sum + w.owed c +
            (visits.map (Visit.owed c)).sum := by rw [hSum]; abel
      _ = s.paid scanned + (queue.map (owedTree c)).sum + (visits.map (Visit.owed c)).sum +
            v.owed c := by rw [hBalance]; abel
      _ = total + v.owed c := by rw [h.balance]

theorem Visit.eq_idle {v : Visit} (h : v.worker = .idle) : v = idle := by
  cases v with
  | idle => rfl
  | opening | listing | sendingDir | sendingFile => cases h

theorem Visit.eq_opening {v : Visit} {dir : String} (h : v.worker = .opening dir) :
    ∃ t, v = opening dir t := by
  cases v with
  | opening _ t =>
    cases h
    exact ⟨t, rfl⟩
  | idle | listing | sendingDir | sendingFile => cases h

theorem Visit.eq_listing {v : Visit} {dir : String} {rest : List DirEntry}
    (h : v.worker = .listing dir rest) : ∃ l, v = listing dir l ∧ l.entries = rest := by
  cases v with
  | listing _ l =>
    cases h
    exact ⟨l, rfl, rfl⟩
  | idle | opening | sendingDir | sendingFile => cases h

theorem Visit.eq_sendingDir {v : Visit} {dir path : String} {rest : List DirEntry}
    (h : v.worker = .sendingDir dir path rest) :
    ∃ t l, v = sendingDir dir path t l ∧ l.entries = rest := by
  cases v with
  | sendingDir _ _ t l =>
    cases h
    exact ⟨t, l, rfl, rfl⟩
  | idle | opening | listing | sendingFile => cases h

theorem Visit.eq_sendingFile {v : Visit} {dir : String} {req : FileAnalyzerRequest}
    {rest : List DirEntry} (h : v.worker = .sendingFile dir req rest) :
    ∃ l, v = sendingFile dir req l ∧ l.entries = rest := by
  cases v with
  | sendingFile _ _ l =>
    cases h
    exact ⟨l, rfl, rfl⟩
  | idle | opening | listing | sendingDir => cases h

theorem Accounts.receive (h : Accounts c total s scanned queue visits) {i : Nat} {dir : String}
    {rest : List String} (hi : s.workers[i]? = some .idle) (hQueue : s.dirChan = dir :: rest) :
    ∃ queue' visits', Accounts c total
      { s with dirChan := rest, workers := s.workers.set i (.opening dir) } scanned queue'
      visits' := by
  obtain ⟨v, hv, hWorker⟩ := h.visit_of_worker hi
  obtain rfl := Visit.eq_idle hWorker
  obtain ⟨⟨_, t⟩, queue, rfl, rfl, rfl⟩ := List.map_eq_cons_iff.mp (h.dirChan.symm.trans hQueue)
  refine ⟨queue, _, h.replace (w := .opening _ t) hv rfl rfl rfl
    (fun p hp => h.trees p (List.mem_cons_of_mem _ hp)) (h.trees _ List.mem_cons_self) h.counted ?_⟩
  simp only [List.map_cons, List.sum_cons, Visit.owed, ScanState.paid]
  abel

theorem Accounts.send (h : Accounts c total s scanned queue visits) {i : Nat}
    {dir path : String} {rest : List DirEntry}
    (hi : s.workers[i]? = some (.sendingDir dir path rest)) :
    ∃ queue' visits', Accounts c total
      { s with dirChan := s.dirChan ++ [path], workers := s.workers.set i (.listing dir rest) }
      scanned queue' visits' := by
  obtain ⟨v, hv, hWorker⟩ := h.visit_of_worker hi
  obtain ⟨t, l, rfl, rfl⟩ := Visit.eq_sendingDir hWorker
  obtain ⟨hTree, hBelow⟩ := h.valid_of_get hv
  refine ⟨queue ++ [(path, t)], _, h.replace (w := .listing dir l) hv rfl ?_ rfl ?_ hBelow
    h.counted ?_⟩
  · rw [h.dirChan, List.map_append]
    rfl
  · exact Bag.forall_mem_concat h.trees hTree
  · simp only [List.map_append, List.map_cons, List.map_nil, List.sum_append, List.sum_cons,
      List.sum_nil, Visit.owed, ScanState.paid]
    abel

theorem Accounts.sendFile (h : Accounts c total s scanned queue visits) {i : Nat}
    {dir : String} {req : FileAnalyzerRequest} {rest : List DirEntry}
    (hi : s.workers[i]? = some (.sendingFile dir req rest))
    (hWorkers : s'.workers = s.workers.set i (.listing dir rest))
    (hSent : s'.fileChan = s.fileChan ++ [req]) (hDirChan : s'.dirChan = s.dirChan)
    (hCallers : s'.callers = s.callers) (hWG : s'.scanWG = s.scanWG)
    (hCounter : s'.counters.dirsScanned = s.counters.dirsScanned) :
    ∃ visits', Accounts c total s' scanned queue visits' := by
  obtain ⟨v, hv, hWorker⟩ := h.visit_of_worker hi
  obtain ⟨l, rfl, rfl⟩ := Visit.eq_sendingFile hWorker
  have hBelow : c.Below dir l := h.valid_of_get hv
  refine ⟨_, h.replace (w := .listing dir l) hv hWorkers (hDirChan.trans h.dirChan) hCallers
    h.trees hBelow (hCounter.trans h.counted) ?_⟩
  have hPaid : s'.paid scanned = s.paid scanned + ({req.untimed}, 0, 0) := by
    simp only [ScanState.paid, hSent, hWG, List.map_append]
    refine Prod.ext ?_ (Prod.ext ?_ ?_)
    · exact (Multiset.coe_add _ _).symm
    · rfl
    · exact (add_zero _).symm
  rw [hPaid]
  simp only [Visit.owed]
  abel

theorem Accounts.readFails (h : Accounts c total s scanned queue visits) {i : Nat} {dir : String}
    (hi : s.workers[i]? = some (.opening dir)) (hRead : c.fs.readDir dir = none) :
    ∃ visits', Accounts c total { s with
      scanWG := s.scanWG - 1
      workers := s.workers.set i .idle
      counters := { s.counters with errorCount := s.counters.errorCount + 1 } }
      scanned queue visits' := by
  obtain ⟨v, hv, hWorker⟩ := h.visit_of_worker hi
  obtain ⟨t, rfl⟩ := Visit.eq_opening hWorker
  have hTree : c.Tree dir t := h.valid_of_get hv
  cases t with
  | none =>
    refine ⟨_, h.replace (w := .idle) hv rfl h.dirChan rfl h.trees trivial h.counted ?_⟩
    refine Prod.ext ?_ (Prod.ext ?_ ?_)
    · simp [ScanState.paid, Visit.owed, owedTree, Scanner.treeRequests]
    · simp [ScanState.paid, Visit.owed, owedTree, Scanner.treeFolders]
    · simp [ScanState.paid, Visit.owed, owedTree]
      ring
  | some l => cases hRead.symm.trans hTree.1

theorem Accounts.readDir (h : Accounts c total s scanned queue visits) {i : Nat} {dir : String}
    {entries : List DirEntry} (hi : s.workers[i]? = some (.opening dir))
    (hRead : c.fs.readDir dir = some entries) :
    ∃ visits', Accounts c total { s with
      workers := s.workers.set i (.listing dir entries)
      counters := { s.counters with dirsScanned := s.counters.dirsScanned + 1 } }
      (scanned + 1) queue visits' := by
  obtain ⟨v, hv, hWorker⟩ := h.visit_of_worker hi
  obtain ⟨t, rfl⟩ := Visit.eq_opening hWorker
  have hTree : c.Tree dir t := h.valid_of_get hv
  cases t with
  | none => cases hRead.symm.trans hTree
  | some l =>
    obtain ⟨hListed, hBelow⟩ := hTree
    obtain rfl : entries = l.entries := Option.some.inj (hRead.symm.trans hListed)
    refine ⟨_, h.replace (w := .listing dir l) hv rfl h.dirChan rfl h.trees hBelow ?_ ?_⟩
    · simp only [h.counted]
      exact (UInt64.ofNat_add _ _).symm
    · refine Prod.ext ?_ (Prod.ext ?_ ?_)
      · simp [ScanState.paid, Visit.owed, owedTree, owedListing, Scanner.treeRequests]
      · simp [ScanState.paid, Visit.owed, owedTree, owedListing, Scanner.treeFolders]
        omega
      · simp [ScanState.paid, Visit.owed, owedTree, owedListing]

theorem processFile_untimed {path : String} {entry : DirEntry} (hType : entry.type = .regular)
    (now : Int) : c.authorizedFile path entry =
      (c.processFile path entry now).map FileAnalyzerRequest.untimed := by
  simp only [Scanner.authorizedFile, Scanner.processFile, hType]
  cases entry.info with
  | none => rfl
  | some size =>
    simp only
    cases MIME.isAuthorized c.parseMediaType (c.detect ((c.fs.sniff path).getD [])) with
    | none => rfl
    | some mime => rfl

theorem authorizedFile_of_ne {path : String} {entry : DirEntry} (hType : entry.type ≠ .regular) :
    c.authorizedFile path entry = none := by
  rw [Scanner.authorizedFile]
  split
  · contradiction
  · rfl

/-- The next entry is no directory. -/
theorem Accounts.visitLeaf (h : Accounts c total s scanned queue visits) {i : Nat} {dir : String}
    {entry : DirEntry} {rest : Listing} (now : Int)
    (hv : visits[i]? = some (.listing dir (.leaf entry rest))) :
    ∃ visits', Accounts c total (c.visitEntry s i dir entry rest.entries now) scanned queue
      visits' := by
  obtain ⟨hType, hBelow⟩ : c.Below dir (.leaf entry rest) := h.valid_of_get hv
  have hSkip : entry.type ≠ .regular → ∀ s' : ScanState, s'.paid scanned = s.paid scanned →
      s'.workers = s.workers.set i (.listing dir rest.entries) → s'.dirChan = s.dirChan →
      s'.callers = s.callers → s'.counters.dirsScanned = s.counters.dirsScanned →
      ∃ visits', Accounts c total s' scanned queue visits' := by
    intro hOther s' hPaid hWorkers hDirChan hCallers hCounter
    refine ⟨_, h.replace (w := .listing dir rest) hv hWorkers (hDirChan.trans h.dirChan) hCallers
      h.trees hBelow (hCounter.trans h.counted) ?_⟩
    rw [hPaid]
    simp [Visit.owed, owedListing, Scanner.requests, Listing.folders, authorizedFile_of_ne hOther]
  cases hEntry : entry.type with
  | directory => exact absurd hEntry hType
  | symlink =>
    simp only [Scanner.visitEntry, hEntry]
    exact hSkip (by rw [hEntry]; decide) _ rfl rfl rfl rfl rfl
  | other =>
    simp only [Scanner.visitEntry, hEntry]
    exact hSkip (by rw [hEntry]; decide) _ rfl rfl rfl rfl rfl
  | regular =>
    have hFile : c.authorizedFile (c.join dir entry.name) entry = _ :=
      processFile_untimed hEntry now
    simp only [Scanner.visitEntry, hEntry]
    cases hReq : c.processFile (c.join dir entry.name) entry now with
    | none =>
      rw [hReq] at hFile
      refine ⟨_, h.replace (w := .listing dir rest) hv rfl h.dirChan rfl h.trees hBelow h.counted ?_⟩
      simp [ScanState.paid, Visit.owed, owedListing, Scanner.requests, Listing.folders, hFile]
    | some req =>
      rw [hReq] at hFile
      refine ⟨_, h.replace (w := .sendingFile dir req rest) hv rfl h.dirChan rfl h.trees hBelow
        h.counted ?_⟩
      simp [ScanState.paid, Visit.owed, owedListing, Scanner.requests, Listing.folders, hFile]

/-- The next entry is a directory, readable or not: it is announced before it is sent. -/
theorem Accounts.visitDir (h : Accounts c total s scanned queue visits) {i : Nat} {dir : String}
    {entry : DirEntry} {t : Option Listing} {l rest : Listing} (now : Int)
    (hv : visits[i]? = some (.listing dir l)) (hType : entry.type = .directory)
    (hTree : c.Tree (c.join dir entry.name) t) (hBelow : c.Below dir rest)
    (hOwed : owedListing c dir l + (0, 0, 1) =
      owedTree c (c.join dir entry.name, t) + owedListing c dir rest) :
    ∃ visits', Accounts c total (c.visitEntry s i dir entry rest.entries now) scanned queue
      visits' := by
  simp only [Scanner.visitEntry, hType]
  refine ⟨_, h.replace (w := .sendingDir dir (c.join dir entry.name) t rest) hv rfl h.dirChan rfl
    h.trees ⟨hTree, hBelow⟩ h.counted ?_⟩
  have hPaid : ({ s with
      scanWG := s.scanWG + 1
      workers := s.workers.set i (.sendingDir dir (c.join dir entry.name) rest.entries) } :
        ScanState).paid scanned + (0, 0, 1) = s.paid scanned := by
    refine Prod.ext ?_ (Prod.ext ?_ ?_)
    · exact add_zero _
    · rfl
    · simp [ScanState.paid]
  simp only [Visit.owed]
  rw [← hOwed, ← hPaid]
  abel

theorem Accounts.finish (h : Accounts c total s scanned queue visits) {i : Nat} {dir : String}
    (hi : s.workers[i]? = some (.listing dir [])) :
    ∃ visits', Accounts c total
      { s with scanWG := s.scanWG - 1, workers := s.workers.set i .idle } scanned queue visits' := by
  obtain ⟨v, hv, hWorker⟩ := h.visit_of_worker hi
  obtain ⟨l, rfl, hEntries⟩ := Visit.eq_listing hWorker
  cases l with
  | leaf | unreadable | folder => cases hEntries
  | nil =>
    refine ⟨_, h.replace (w := .idle) hv rfl h.dirChan rfl h.trees trivial h.counted ?_⟩
    refine Prod.ext ?_ (Prod.ext ?_ ?_)
    · simp [ScanState.paid, Visit.owed, owedListing, Scanner.requests]
    · simp [ScanState.paid, Visit.owed, owedListing, Listing.folders]
    · simp [ScanState.paid, Visit.owed, owedListing]
      ring

theorem Accounts.nextEntry (h : Accounts c total s scanned queue visits) {i : Nat} {dir : String}
    {entry : DirEntry} {rest : List DirEntry}
    (hi : s.workers[i]? = some (.listing dir (entry :: rest))) (now : Int) :
    ∃ visits', Accounts c total (c.visitEntry s i dir entry rest now) scanned queue visits' := by
  obtain ⟨v, hv, hWorker⟩ := h.visit_of_worker hi
  obtain ⟨l, rfl, hEntries⟩ := Visit.eq_listing hWorker
  have hBelow : c.Below dir l := h.valid_of_get hv
  cases l with
  | nil => cases hEntries
  | leaf e l =>
    obtain ⟨rfl, rfl⟩ := List.cons.inj hEntries
    exact h.visitLeaf now hv
  | unreadable e l =>
    obtain ⟨rfl, rfl⟩ := List.cons.inj hEntries
    obtain ⟨hType, hRead, hRest⟩ := hBelow
    refine h.visitDir (t := none) now hv hType hRead hRest ?_
    simp [owedTree, owedListing, Scanner.treeRequests, Scanner.treeFolders, Scanner.requests,
      Listing.folders]
  | folder e sub l =>
    obtain ⟨rfl, rfl⟩ := List.cons.inj hEntries
    obtain ⟨hType, hRead, hSub, hRest⟩ := hBelow
    refine h.visitDir (t := some sub) now hv hType ⟨hRead, hSub⟩ hRest ?_
    simp [owedTree, owedListing, Scanner.treeRequests, Scanner.treeFolders, Scanner.requests,
      Listing.folders]

/-- Every step keeps the balance. -/
theorem Accounts.step (h : Accounts c total s scanned queue visits) {a : ScanAction}
    (hNoTrigger : Scanner.WithoutTrigger s a) (hStep : c.scanStep s a = some s') :
    ∃ scanned' queue' visits', Accounts c total s' scanned' queue' visits' := by
  have hNoCaller : ∀ (k : Nat) (root : String), s.callers[k]? ≠ some root := by
    intro k root
    simp [h.callers]
  cases Scanner.steps_of_scanStep hStep with
  | trigger root => exact hNoTrigger.elim
  | sendRoot k root hk _ => exact absurd hk (hNoCaller k root)
  | handRoot k j root hk _ _ => exact absurd hk (hNoCaller k root)
  | receive i dir queue hi hQueue => exact ⟨scanned, h.receive hi hQueue⟩
  | readFails i dir hi hRead => exact ⟨scanned, queue, h.readFails hi hRead⟩
  | readDir i dir entries hi hRead => exact ⟨scanned + 1, queue, h.readDir hi hRead⟩
  | finish i now dir hi => exact ⟨scanned, queue, h.finish hi⟩
  | nextEntry i now dir entry rest hi => exact ⟨scanned, queue, h.nextEntry hi now⟩
  | sendDir i dir path rest hi _ => exact ⟨scanned, h.send hi⟩
  | handDir i j dir path rest hi hj hEmpty =>
    -- the handover is a send followed by the receive of the other worker
    obtain ⟨queue', visits', hSent⟩ := h.send hi
    have hOther : i ≠ j := by
      rintro rfl
      rw [hi] at hj
      cases hj
    have hIdle : (s.workers.set i (.listing dir rest))[j]? = some .idle := by
      rw [List.getElem?_set_ne hOther, hj]
    obtain ⟨queue'', visits'', hTaken⟩ := hSent.receive hIdle (by rw [hEmpty]; rfl)
    refine ⟨scanned, queue'', visits'', ?_⟩
    rwa [← hEmpty] at hTaken
  | sendFile i dir req rest hi => exact ⟨scanned, queue, h.sendFile hi rfl rfl rfl rfl rfl rfl⟩

end Steps

/-! ## The whole scan -/

section Scan

variable {c : Scanner} {n : Nat} {root : String} {t : Option Listing} {s : ScanState}

def treeLedger (c : Scanner) (root : String) (t : Option Listing) : Ledger :=
  (c.treeRequests root t, Scanner.treeFolders t, 0)

theorem accounts_of_reaches (hTree : c.Tree root t)
    (h : (c.scanMachine n [root]).Reaches Scanner.WithoutTrigger s) :
    ∃ scanned queue visits, Accounts c (treeLedger c root t) s scanned queue visits := by
  refine Machine.Reaches.invariant
    (I := fun s => ∃ scanned queue visits, Accounts c (treeLedger c root t) s scanned queue visits)
    ?_ ?_ h
  · refine ⟨0, [(root, t)], List.replicate n .idle, ?_⟩
    constructor
    · rfl
    · rw [List.map_replicate]
      rfl
    · rfl
    · exact fun p hp => List.mem_singleton.mp hp ▸ hTree
    · exact fun v hv => List.eq_of_mem_replicate hv ▸ trivial
    · rfl
    · have hIdle : ((List.replicate n Visit.idle).map (Visit.owed c)).sum = 0 := by
        rw [List.map_replicate, List.sum_replicate]
        exact nsmul_zero n
      rw [hIdle]
      refine Prod.ext ?_ (Prod.ext ?_ ?_)
      · simp [ScanState.paid, Scanner.scanMachine, Scanner.start, treeLedger, owedTree]
      · simp [ScanState.paid, Scanner.scanMachine, Scanner.start, treeLedger, owedTree]
      · simp [ScanState.paid, Scanner.scanMachine, Scanner.start, treeLedger, owedTree]
  · rintro s a s' ⟨scanned, queue, visits, hs⟩ hNoTrigger hStep
    exact hs.step hNoTrigger hStep

/-- Nothing is owed without a unit of `scanWG`. -/
def Counted (x : Ledger) : Prop := 0 ≤ x.2.2 ∧ (x.2.2 = 0 → x = 0)

theorem Counted.sum {l : List Ledger} (h : ∀ x ∈ l, Counted x) : Counted l.sum := by
  induction l with
  | nil => exact ⟨le_refl _, fun _ => rfl⟩
  | cons x l ih =>
    obtain ⟨hx, hxZero⟩ := h x List.mem_cons_self
    obtain ⟨hl, hlZero⟩ := ih fun y hy => h y (List.mem_cons_of_mem _ hy)
    rw [List.sum_cons]
    refine ⟨add_nonneg hx hl, fun hZero => ?_⟩
    have hSum : x.2.2 + l.sum.2.2 = 0 := hZero
    rw [hxZero (by omega), hlZero (by omega), add_zero]

theorem Counted.of_pos {x : Ledger} (h : 0 < x.2.2) : Counted x :=
  ⟨h.le, fun hZero => absurd hZero h.ne'⟩

theorem Visit.owed_counted (v : Visit) : Counted (v.owed c) := by
  cases v with
  | idle => exact ⟨le_refl _, fun _ => rfl⟩
  | opening dir t => exact Counted.of_pos Int.one_pos
  | listing dir l => exact Counted.of_pos Int.one_pos
  | sendingDir dir path t l => exact Counted.of_pos (Int.add_pos Int.one_pos Int.one_pos)
  | sendingFile dir req l => exact Counted.of_pos (Int.add_pos_of_nonneg_of_pos le_rfl Int.one_pos)

/-- In every scan of a finite tree by any number of workers the counter never
is negative; whenever it is zero, the requests sent are those of the
authorized files of the tree, each once, and the scanned directories are its
readable ones. -/
theorem scan_exact (hTree : c.Tree root t)
    (h : (c.scanMachine n [root]).Reaches Scanner.WithoutTrigger s) :
    0 ≤ s.scanWG ∧ (s.scanWG = 0 →
      (s.fileChan.map FileAnalyzerRequest.untimed).Perm (c.treeRequests root t) ∧
        s.counters.dirsScanned = UInt64.ofNat (Scanner.treeFolders t)) := by
  obtain ⟨scanned, queue, visits, hs⟩ := accounts_of_reaches hTree h
  have hQueue : Counted (queue.map (owedTree c)).sum := by
    apply Counted.sum
    intro x hx
    obtain ⟨p, _, rfl⟩ := List.mem_map.mp hx
    exact Counted.of_pos Int.one_pos
  have hVisits : Counted (visits.map (Visit.owed c)).sum := by
    apply Counted.sum
    intro x hx
    obtain ⟨v, _, rfl⟩ := List.mem_map.mp hx
    exact v.owed_counted
  have hUnits : -s.scanWG + (queue.map (owedTree c)).sum.2.2 +
      (visits.map (Visit.owed c)).sum.2.2 = 0 :=
    congrArg (fun x : Ledger => x.2.2) hs.balance
  have hQueueUnits := hQueue.1
  have hVisitUnits := hVisits.1
  refine ⟨by omega, fun hZero => ?_⟩
  have hBalance := hs.balance
  rw [hQueue.2 (by omega), hVisits.2 (by omega), add_zero, add_zero] at hBalance
  constructor
  · exact Multiset.coe_eq_coe.mp (congrArg Prod.fst hBalance)
  · rw [hs.counted]
    exact congrArg UInt64.ofNat (congrArg (fun x : Ledger => x.2.1) hBalance)

end Scan

/-! ## A small tree -/

def pdfEntry (name : String) : DirEntry := { name := name, type := .regular, info := some 7 }

def dirEntry (name : String) : DirEntry := { name := name, type := .directory, info := some 0 }

/-- A directory `/d` with a link, a file, a subdirectory that holds another
file, and one that cannot be read. -/
def sampleScanner : Scanner where
  fs :=
    { readDir := fun path =>
        if path = "/d" then
          some [{ name := "link", type := .symlink, info := none }, pdfEntry "a", dirEntry "sub",
            dirEntry "locked"]
        else if path = "/d/sub" then some [pdfEntry "b"]
        else none
      sniff := fun _ => some [37, 80, 68, 70] }
  join := fun dir name => dir ++ "/" ++ name
  detect := fun _ => "application/pdf"
  parseMediaType := some
  driveId := "drive"
  bufferSize := 1

def sampleTree : Listing :=
  .leaf { name := "link", type := .symlink, info := none } (.leaf (pdfEntry "a")
    (.folder (dirEntry "sub") (.leaf (pdfEntry "b") .nil) (.unreadable (dirEntry "locked") .nil)))

theorem sampleTree_holds : sampleScanner.Tree "/d" (some sampleTree) := by
  refine ⟨rfl, by decide, by decide, rfl, ?_, ⟨by decide, trivial⟩, rfl, ?_, trivial⟩
  · decide +kernel
  · decide +kernel

def sampleScan : ScanState :=
  ((sampleScanner.scanMachine 2 ["/d"]).restrict Scanner.WithoutTrigger).after
    [.receive 0, .readDir 0, .nextEntry 0 5, .nextEntry 0 5, .sendFile 0, .nextEntry 0 6, .sendDir 0,
      .receive 1, .nextEntry 0 7, .readDir 1, .sendDir 0, .nextEntry 1 8, .nextEntry 0 9,
      .receive 0, .sendFile 1, .readDir 0, .nextEntry 1 9]

theorem scan_exact_sample :
    sampleScan.scanWG = 0 ∧
      (sampleScan.fileChan.map FileAnalyzerRequest.untimed).Perm
        (sampleScanner.treeRequests "/d" (some sampleTree)) ∧
      (sampleScanner.treeRequests "/d" (some sampleTree)).length = 2 ∧
      sampleScan.counters.dirsScanned = 2 := by
  have hDone : sampleScan.scanWG = 0 := by decide +kernel
  obtain ⟨hSent, hDirs⟩ := (scan_exact sampleTree_holds (Machine.reaches_after_restrict
    (sampleScanner.scanMachine 2 ["/d"]) Scanner.WithoutTrigger _)).2 hDone
  exact ⟨hDone, hSent, by decide +kernel, hDirs⟩

end ChatLab.Workers
