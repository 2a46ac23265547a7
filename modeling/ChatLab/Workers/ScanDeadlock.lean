import ChatLab.Foundation.Bag
import ChatLab.Workers.ScanExact

/-!
# When a scan can deadlock

The workers are the only readers of the channel that they feed. With every
worker in a send to the full channel nothing moves any more. Such a state can
be reached as soon as one readable directory has a subdirectory, because
`TriggerScan` may be called for it often enough to occupy every worker and to
fill the channel. It needs two announced directories for each worker and one
for each place in the channel, so fewer never block.
-/

namespace ChatLab.Workers

open Foundation

namespace Scanner

variable (c : Scanner)

/-- Directories are queued or being listed, and neither a worker nor a waiting
call of `TriggerScan` can take a step. -/
def Deadlocked (s : ScanState) : Prop :=
  (s.dirChan ≠ [] ∨ ∃ w ∈ s.workers, w ≠ .idle) ∧
    ∀ a, WithoutTrigger s a → c.scanStep s a = none

/-- No readable directory has a subdirectory. -/
def Flat : Prop :=
  ∀ dir entries, c.fs.readDir dir = some entries → ∀ e ∈ entries, e.type ≠ .directory

/-- The step announces a directory, by `scanWG.Add(1)`. -/
def Announces (s : ScanState) : ScanAction → Prop
  | .trigger _ => True
  | .nextEntry i _ => ∃ dir entry rest, s.workers[i]? = some (.listing dir (entry :: rest)) ∧
      entry.type = .directory
  | _ => False

/-- A directory is announced only while fewer than two for each worker and one
for each place in the channel would be unfinished with it. -/
def FewAnnounced (n : Nat) (s : ScanState) (a : ScanAction) : Prop :=
  Announces s a → s.scanWG + 1 < 2 * n + c.bufferSize

end Scanner

/-! ## The shape of a deadlock -/

section Shape

variable {c : Scanner} {s : ScanState}

theorem enabled_of_busy {i : Nat} {w : ScanWorker} (hi : s.workers[i]? = some w) (hIdle : w ≠ .idle)
    (hSending : ∀ dir path rest, w ≠ .sendingDir dir path rest) :
    ∃ a, Scanner.WithoutTrigger s a ∧ c.scanStep s a ≠ none := by
  cases w with
  | idle => exact absurd rfl hIdle
  | sendingDir dir path rest => exact absurd rfl (hSending dir path rest)
  | opening dir =>
    refine ⟨.readDir i, trivial, ?_⟩
    cases hRead : c.fs.readDir dir with
    | none => simp [Scanner.scanStep, hi, hRead]
    | some entries => simp [Scanner.scanStep, hi, hRead]
  | listing dir rest =>
    refine ⟨.nextEntry i 0, trivial, ?_⟩
    cases rest with
    | nil => simp [Scanner.scanStep, hi]
    | cons entry rest => simp [Scanner.scanStep, hi]
  | sendingFile dir req rest =>
    refine ⟨.sendFile i, trivial, ?_⟩
    simp [Scanner.scanStep, hi]

/-- In a deadlock every worker is sending a subdirectory, and the channel is full. -/
theorem Deadlocked.blocked (h : c.Deadlocked s) {w : ScanWorker} (hw : w ∈ s.workers) :
    (∃ dir path rest, w = .sendingDir dir path rest) ∧ c.bufferSize ≤ s.dirChan.length := by
  obtain ⟨hWork, hStuck⟩ := h
  have hBlocked : ∀ v ∈ s.workers, v ≠ .idle → ∃ dir path rest, v = .sendingDir dir path rest := by
    intro v hv hBusy
    obtain ⟨j, hj⟩ := List.getElem?_of_mem hv
    by_contra hOther
    obtain ⟨a, ha, hEnabled⟩ := enabled_of_busy (c := c) hj hBusy
      (fun dir path rest hEq => hOther ⟨dir, path, rest, hEq⟩)
    exact hEnabled (hStuck a ha)
  obtain ⟨i, hi⟩ := List.getElem?_of_mem hw
  have hBusy : w ≠ .idle := by
    rintro rfl
    cases hQueue : s.dirChan with
    | cons dir rest =>
      have hReceive := hStuck (.receive i) trivial
      simp [Scanner.scanStep, hi, hQueue] at hReceive
    | nil =>
      -- somebody is busy, so its send would meet the idle worker
      obtain hNonempty | ⟨v, hv, hvBusy⟩ := hWork
      · exact hNonempty hQueue
      · obtain ⟨dir, path, rest, rfl⟩ := hBlocked v hv hvBusy
        obtain ⟨j, hj⟩ := List.getElem?_of_mem hv
        have hHand := hStuck (.handDir j i) trivial
        simp [Scanner.scanStep, hi, hj, hQueue] at hHand
  obtain ⟨dir, path, rest, rfl⟩ := hBlocked w hw hBusy
  refine ⟨⟨dir, path, rest, rfl⟩, ?_⟩
  have hSend := hStuck (.sendDir i) trivial
  simp only [Scanner.scanStep, hi] at hSend
  split at hSend
  · cases hSend
  · omega

/-- Conversely such a state is a deadlock, whoever else waits to send. -/
theorem deadlocked_of_blocked (hSome : s.workers ≠ [])
    (hAll : ∀ w ∈ s.workers, ∃ dir path rest, w = .sendingDir dir path rest)
    (hFull : c.bufferSize ≤ s.dirChan.length) : c.Deadlocked s := by
  have hSending : ∀ i w, s.workers[i]? = some w →
      ∃ dir path rest, w = ScanWorker.sendingDir dir path rest :=
    fun i w hi => hAll w (List.mem_of_getElem? hi)
  refine ⟨Or.inr ?_, ?_⟩
  · obtain ⟨w, hw⟩ := List.exists_mem_of_ne_nil _ hSome
    obtain ⟨dir, path, rest, rfl⟩ := hAll w hw
    exact ⟨_, hw, nofun⟩
  · intro a ha
    by_contra hEnabled
    obtain ⟨u, hStep⟩ := Option.ne_none_iff_exists'.mp hEnabled
    -- every step takes an idle worker, room in the channel, or a worker that lists
    have hOther : ∀ (i : Nat) (w : ScanWorker), s.workers[i]? = some w →
        (∀ dir path rest, w ≠ ScanWorker.sendingDir dir path rest) → False := by
      intro i w hi hw
      obtain ⟨dir, path, rest, hEq⟩ := hSending i w hi
      exact hw dir path rest hEq
    cases Scanner.steps_of_scanStep hStep with
    | trigger root => exact ha.elim
    | sendRoot k root _ hRoom => omega
    | handRoot k j root _ hj _ => exact hOther j _ hj nofun
    | receive i dir queue hi _ => exact hOther i _ hi nofun
    | readFails i dir hi _ => exact hOther i _ hi nofun
    | readDir i dir entries hi _ => exact hOther i _ hi nofun
    | finish i now dir hi => exact hOther i _ hi nofun
    | nextEntry i now dir entry rest hi => exact hOther i _ hi nofun
    | sendDir i dir path rest _ hRoom => omega
    | handDir i j dir path rest _ hj _ => exact hOther j _ hj nofun
    | sendFile i dir req rest hi => exact hOther i _ hi nofun

end Shape

/-! ## Runs that cannot deadlock -/

section Safe

variable {c : Scanner} {n : Nat} {s t : ScanState} {a : ScanAction}

/-- The announced directories that a worker has to finish or to pass on. -/
def ScanWorker.units : ScanWorker → ℤ
  | .idle => 0
  | .sendingDir _ _ _ => 2
  | _ => 1

structure ScanState.Counted (n : Nat) (s : ScanState) : Prop where
  workers : s.workers.length = n
  scanWG : s.scanWG = s.callers.length + s.dirChan.length + (s.workers.map ScanWorker.units).sum

theorem ScanState.Counted.set (h : s.Counted n) {i : Nat} {w w' : ScanWorker}
    (hi : s.workers[i]? = some w) (hWorkers : t.workers = s.workers.set i w')
    (hUnits : t.scanWG - t.callers.length - t.dirChan.length - w'.units =
      s.scanWG - s.callers.length - s.dirChan.length - w.units) : t.Counted n where
  workers := by rw [hWorkers, List.length_set, h.workers]
  scanWG := by
    have hSum := Bag.sum_map_set ScanWorker.units hi w'
    have hBefore := h.scanWG
    rw [hWorkers]
    omega

theorem visitEntry_counted (h : s.Counted n) {i : Nat} {dir : String} {entry : DirEntry}
    {rest : List DirEntry} (hi : s.workers[i]? = some (.listing dir (entry :: rest))) (now : Int) :
    (c.visitEntry s i dir entry rest now).Counted n := by
  rw [Scanner.visitEntry]
  split
  · refine h.set hi rfl ?_
    simp only [ScanWorker.units]
    omega
  · split
    · exact h.set hi rfl rfl
    · exact h.set hi rfl rfl
  · exact h.set hi rfl rfl
  · exact h.set hi rfl rfl

theorem length_eraseIdx_add_one {α : Type} {l : List α} {k : Nat} {x : α} (h : l[k]? = some x) :
    (l.eraseIdx k).length + 1 = l.length := by
  simpa using (Bag.perm_cons_eraseIdx h).length_eq.symm

theorem scanStep_counted (h : s.Counted n) (hStep : c.scanStep s a = some t) : t.Counted n := by
  cases Scanner.steps_of_scanStep hStep with
  | trigger root =>
    refine ⟨h.workers, ?_⟩
    rw [h.scanWG, List.length_append]
    simp only [List.length_singleton]
    omega
  | sendRoot k root hk _ =>
    have hLength := length_eraseIdx_add_one hk
    refine ⟨h.workers, ?_⟩
    rw [h.scanWG, List.length_append]
    simp only [List.length_singleton]
    omega
  | handRoot k j root hk hj _ =>
    have hLength := length_eraseIdx_add_one hk
    refine h.set hj rfl ?_
    simp only [ScanWorker.units]
    omega
  | receive i dir queue hi hQueue =>
    refine h.set hi rfl ?_
    simp only [ScanWorker.units, hQueue, List.length_cons]
    omega
  | readFails i dir hi _ =>
    refine h.set hi rfl ?_
    simp only [ScanWorker.units]
    omega
  | readDir i dir entries hi _ => exact h.set hi rfl rfl
  | finish i now dir hi =>
    refine h.set hi rfl ?_
    simp only [ScanWorker.units]
    omega
  | nextEntry i now dir entry rest hi => exact visitEntry_counted h hi now
  | sendDir i dir path rest hi _ =>
    refine h.set hi rfl ?_
    simp only [ScanWorker.units, List.length_append, List.length_singleton]
    omega
  | handDir i j dir path rest hi hj hEmpty =>
    have hOther : i ≠ j := by
      rintro rfl
      rw [hi] at hj
      cases hj
    have hSent : ScanState.Counted n
        { s with dirChan := [path], workers := s.workers.set i (.listing dir rest) } := by
      refine h.set hi rfl ?_
      simp only [ScanWorker.units, hEmpty, List.length_singleton, List.length_nil]
      omega
    refine hSent.set (i := j) (w := .idle) (by rw [List.getElem?_set_ne hOther, hj]) rfl ?_
    simp only [ScanWorker.units, hEmpty, List.length_singleton, List.length_nil]
    omega
  | sendFile i dir req rest hi => exact h.set hi rfl rfl

theorem counted_of_reaches {guard : ScanState → ScanAction → Prop}
    (h : (c.scanMachine n []).Reaches guard s) : s.Counted n := by
  refine Machine.Reaches.invariant (I := ScanState.Counted n) ?_
    (fun _ _ _ hs _ hStep => scanStep_counted hs hStep) h
  refine ⟨List.length_replicate, ?_⟩
  simp [Scanner.scanMachine, Scanner.start, ScanWorker.units]

theorem visitEntry_scanWG {i : Nat} {dir : String} {entry : DirEntry} {rest : List DirEntry}
    (hType : entry.type ≠ .directory) (now : Int) :
    (c.visitEntry s i dir entry rest now).scanWG = s.scanWG := by
  rw [Scanner.visitEntry]
  split
  · contradiction
  · split <;> rfl
  · rfl
  · rfl

theorem scanWG_le_of_step (hStep : c.scanStep s a = some t) (hQuiet : ¬ Scanner.Announces s a) :
    t.scanWG ≤ s.scanWG := by
  cases Scanner.steps_of_scanStep hStep with
  | trigger root => exact absurd trivial hQuiet
  | readFails i dir _ _ => exact Int.sub_le_self _ (by decide)
  | finish i now dir _ => exact Int.sub_le_self _ (by decide)
  | nextEntry i now dir entry rest hi =>
    refine (visitEntry_scanWG (fun hType => hQuiet ?_) now).le
    exact ⟨dir, entry, rest, hi, hType⟩
  | _ => exact le_rfl

theorem scanWG_of_announces (hStep : c.scanStep s a = some t)
    (hAnnounces : Scanner.Announces s a) : t.scanWG = s.scanWG + 1 := by
  cases a with
  | trigger root =>
    cases hStep
    rfl
  | nextEntry i now =>
    obtain ⟨dir, entry, rest, hi, hType⟩ := hAnnounces
    simp only [Scanner.scanStep, hi, Scanner.visitEntry, hType] at hStep
    cases hStep
    rfl
  | sendRoot | handRoot | receive | readDir | sendDir | handDir | sendFile =>
    exact hAnnounces.elim

/-- A deadlock needs two announced directories for each worker and one for each
place in the channel. -/
theorem deadlock_units (hn : 1 ≤ n) (hCounted : s.Counted n) (h : c.Deadlocked s) :
    2 * n + c.bufferSize ≤ s.scanWG := by
  have hUnits : (s.workers.map ScanWorker.units).sum = s.workers.length * 2 := by
    have hEach : ∀ u ∈ s.workers.map ScanWorker.units, u = 2 := by
      intro u hu
      obtain ⟨w, hw, rfl⟩ := List.mem_map.mp hu
      obtain ⟨⟨dir, path, rest, rfl⟩, _⟩ := Deadlocked.blocked h hw
      rfl
    rw [List.sum_eq_card_nsmul _ 2 hEach, List.length_map, nsmul_eq_mul]
  obtain ⟨w, hw⟩ : ∃ w, w ∈ s.workers := by
    apply List.exists_mem_of_length_pos
    rw [hCounted.workers]
    exact hn
  obtain ⟨_, hFull⟩ := Deadlocked.blocked h hw
  have hBalance := hCounted.scanWG
  rw [hUnits, hCounted.workers] at hBalance
  omega

theorem not_deadlocked_of_few (hn : 1 ≤ n)
    (h : (c.scanMachine n []).Reaches (c.FewAnnounced n) s) : ¬ c.Deadlocked s := by
  have hFew : s.scanWG < 2 * n + c.bufferSize := by
    refine Machine.Reaches.invariant (I := fun s => s.scanWG < (2 * n + c.bufferSize : ℤ)) ?_ ?_ h
    · simp only [Scanner.scanMachine, Scanner.start, List.length_nil]
      omega
    · intro s a t hLess hGuard hStep
      by_cases hAnnounces : Scanner.Announces s a
      · rw [scanWG_of_announces hStep hAnnounces]
        exact hGuard hAnnounces
      · exact lt_of_le_of_lt (scanWG_le_of_step hStep hAnnounces) hLess
  intro hDead
  exact absurd (deadlock_units hn (counted_of_reaches h) hDead) (not_le.mpr hFew)

/-- A worker that has no subdirectory to send. -/
def ScanWorker.NoDir : ScanWorker → Prop
  | .idle => True
  | .opening _ => True
  | .listing _ rest => ∀ e ∈ rest, e.type ≠ .directory
  | .sendingDir _ _ _ => False
  | .sendingFile _ _ rest => ∀ e ∈ rest, e.type ≠ .directory

theorem noDir_set (h : ∀ w ∈ s.workers, w.NoDir) {i : Nat} {w : ScanWorker} (hw : w.NoDir) :
    ∀ v ∈ s.workers.set i w, v.NoDir :=
  Bag.forall_mem_set h hw i

theorem scanStep_noDir (hFlat : c.Flat) (h : ∀ w ∈ s.workers, w.NoDir)
    (hStep : c.scanStep s a = some t) : ∀ w ∈ t.workers, w.NoDir := by
  cases Scanner.steps_of_scanStep hStep with
  | trigger root => exact h
  | sendRoot k root _ _ => exact h
  | handRoot k j root _ _ _ => exact noDir_set h trivial
  | receive i dir queue _ _ => exact noDir_set h trivial
  | readFails i dir _ _ => exact noDir_set h trivial
  | readDir i dir entries _ hRead => exact noDir_set h (hFlat dir entries hRead)
  | finish i now dir _ => exact noDir_set h trivial
  | nextEntry i now dir entry rest hi =>
    have hEntries : ∀ e ∈ entry :: rest, e.type ≠ .directory := h _ (List.mem_of_getElem? hi)
    have hRest : ∀ e ∈ rest, e.type ≠ .directory :=
      fun e he => hEntries e (List.mem_cons_of_mem _ he)
    rw [Scanner.visitEntry]
    split
    · exact absurd ‹_› (hEntries entry List.mem_cons_self)
    · split
      · exact noDir_set h hRest
      · exact noDir_set h hRest
    · exact noDir_set h hRest
    · exact noDir_set h hRest
  | sendDir i dir path rest hi _ => exact (h _ (List.mem_of_getElem? hi)).elim
  | handDir i j dir path rest hi _ _ => exact (h _ (List.mem_of_getElem? hi)).elim
  | sendFile i dir req rest hi =>
    have hRest : ∀ e ∈ rest, e.type ≠ .directory := h _ (List.mem_of_getElem? hi)
    exact noDir_set h hRest

theorem not_deadlocked_of_flat (hn : 1 ≤ n) (hFlat : c.Flat)
    (h : (c.scanMachine n []).Reachable s) : ¬ c.Deadlocked s := by
  have hNoDir : ∀ w ∈ s.workers, w.NoDir := by
    refine Machine.Reachable.invariant (I := fun s => ∀ w ∈ s.workers, w.NoDir) ?_
      (fun _ _ _ hs hStep => scanStep_noDir hFlat hs hStep) h
    exact fun w hw => List.eq_of_mem_replicate hw ▸ trivial
  intro hDead
  obtain ⟨w, hw⟩ : ∃ w, w ∈ s.workers := by
    apply List.exists_mem_of_length_pos
    rw [(counted_of_reaches h).workers]
    exact hn
  obtain ⟨⟨dir, path, rest, rfl⟩, _⟩ := Deadlocked.blocked hDead hw
  exact hNoDir _ hw

end Safe

/-! ## A run into a deadlock -/

section Reached

variable {c : Scanner} {n : Nat} {s : ScanState} {dir : String} {entry : DirEntry}
  {skipped rest : List DirEntry}

/-- A run reaches the state in which one worker has moved on alone. -/
def Leads (c : Scanner) (n : Nat) (s : ScanState) (i : Nat) (w : ScanWorker) : Prop :=
  ∃ t, (c.scanMachine n []).Reachable t ∧ t.dirChan = s.dirChan ∧ t.callers = s.callers ∧
    t.workers = s.workers.set i w

theorem Leads.of_step (hs : (c.scanMachine n []).Reachable s) {a : ScanAction} {t : ScanState}
    (hStep : c.scanStep s a = some t) {i : Nat} {w : ScanWorker} (hDirChan : t.dirChan = s.dirChan)
    (hCallers : t.callers = s.callers) (hWorkers : t.workers = s.workers.set i w) : Leads c n s i w :=
  ⟨t, hs.next hStep, hDirChan, hCallers, hWorkers⟩

theorem Leads.trans {i : Nat} {v w : ScanWorker} (hi : i < s.workers.length) (h : Leads c n s i v)
    (hNext : ∀ t, (c.scanMachine n []).Reachable t → t.workers[i]? = some v → Leads c n t i w) :
    Leads c n s i w := by
  obtain ⟨t, ht, hDirChan, hCallers, hWorkers⟩ := h
  have hv : t.workers[i]? = some v := by rw [hWorkers, List.getElem?_set_self hi]
  obtain ⟨u, hu, hDirChan', hCallers', hWorkers'⟩ := hNext t ht hv
  refine ⟨u, hu, hDirChan'.trans hDirChan, hCallers'.trans hCallers, ?_⟩
  rw [hWorkers', hWorkers, List.set_set]

/-- Whatever an entry other than a directory is, the worker comes to list the rest. -/
theorem leads_rest (hEntry : entry.type ≠ .directory) (hs : (c.scanMachine n []).Reachable s)
    {i : Nat} (hi : s.workers[i]? = some (.listing dir (entry :: rest))) :
    Leads c n s i (.listing dir rest) := by
  have hStep : c.scanStep s (.nextEntry i 0) = some (c.visitEntry s i dir entry rest 0) := by
    simp only [Scanner.scanStep, hi]
  cases hType : entry.type with
  | directory => exact absurd hType hEntry
  | symlink =>
    simp only [Scanner.visitEntry, hType] at hStep
    exact Leads.of_step hs hStep rfl rfl rfl
  | other =>
    simp only [Scanner.visitEntry, hType] at hStep
    exact Leads.of_step hs hStep rfl rfl rfl
  | regular =>
    cases hReq : c.processFile (c.join dir entry.name) entry 0 with
    | none =>
      simp only [Scanner.visitEntry, hType, hReq] at hStep
      exact Leads.of_step hs hStep rfl rfl rfl
    | some req =>
      simp only [Scanner.visitEntry, hType, hReq] at hStep
      refine Leads.trans (List.getElem?_eq_some_iff.mp hi).1
        (Leads.of_step hs hStep rfl rfl rfl) ?_
      intro t ht hSending
      have hSend : c.scanStep t (.sendFile i) = some { t with
          fileChan := t.fileChan ++ [req]
          workers := t.workers.set i (.listing dir rest)
          counters := { t.counters with
            scannerBytes := t.counters.scannerBytes + req.size
            filesFound := t.counters.filesFound + 1 } } := by
        simp only [Scanner.scanStep, hSending]
      exact Leads.of_step ht hSend rfl rfl rfl

/-- A listing worker gets to its first subdirectory. -/
theorem leads_sendingDir (hSkipped : ∀ e ∈ skipped, e.type ≠ .directory)
    (hEntry : entry.type = .directory) (hs : (c.scanMachine n []).Reachable s) {i : Nat}
    (hi : s.workers[i]? = some (.listing dir (skipped ++ entry :: rest))) :
    Leads c n s i (.sendingDir dir (c.join dir entry.name) rest) := by
  induction skipped generalizing s with
  | nil =>
    have hStep : c.scanStep s (.nextEntry i 0) = some (c.visitEntry s i dir entry rest 0) := by
      simp only [Scanner.scanStep, hi, List.nil_append]
    simp only [Scanner.visitEntry, hEntry] at hStep
    exact Leads.of_step hs hStep rfl rfl rfl
  | cons e skipped ih =>
    refine Leads.trans (List.getElem?_eq_some_iff.mp hi).1
      (leads_rest (hSkipped e List.mem_cons_self) hs hi) ?_
    intro t ht hListing
    exact ih (fun e he => hSkipped e (List.mem_cons_of_mem _ he)) ht hListing

/-- A root is given to an idle worker, which comes to send its first subdirectory. -/
theorem leads_occupied (hRead : c.fs.readDir dir = some (skipped ++ entry :: rest))
    (hSkipped : ∀ e ∈ skipped, e.type ≠ .directory) (hEntry : entry.type = .directory)
    (hs : (c.scanMachine n []).Reachable s) (hEmpty : s.dirChan = []) (hCallers : s.callers = [])
    {i : Nat} (hi : s.workers[i]? = some .idle) :
    Leads c n s i (.sendingDir dir (c.join dir entry.name) rest) := by
  have hTrigger : c.scanStep s (.trigger dir) =
      some { s with scanWG := s.scanWG + 1, callers := [dir] } := by
    simp only [Scanner.scanStep, hCallers, List.nil_append]
  have hHand : c.scanStep { s with scanWG := s.scanWG + 1, callers := [dir] } (.handRoot 0 i) =
      some { s with
        scanWG := s.scanWG + 1, callers := [], workers := s.workers.set i (.opening dir) } := by
    simp [Scanner.scanStep, hi, hEmpty]
  have hTriggered : (c.scanMachine n []).Reachable
      { s with scanWG := s.scanWG + 1, callers := [dir] } :=
    hs.next (a := .trigger dir) hTrigger
  have hOpen : Leads c n s i (.opening dir) :=
    ⟨_, hTriggered.next (a := .handRoot 0 i) hHand, rfl, hCallers.symm, rfl⟩
  refine hOpen.trans (List.getElem?_eq_some_iff.mp hi).1 ?_
  intro t ht hOpening
  have hList : c.scanStep t (.readDir i) = some { t with
      workers := t.workers.set i (.listing dir (skipped ++ entry :: rest))
      counters := { t.counters with dirsScanned := t.counters.dirsScanned + 1 } } := by
    simp only [Scanner.scanStep, hOpening, hRead]
  refine (Leads.of_step ht hList rfl rfl rfl).trans (List.getElem?_eq_some_iff.mp hOpening).1 ?_
  exact fun u hu hListing => leads_sendingDir hSkipped hEntry hu hListing

/-- Worker after worker is occupied. -/
theorem reach_occupied (hRead : c.fs.readDir dir = some (skipped ++ entry :: rest))
    (hSkipped : ∀ e ∈ skipped, e.type ≠ .directory) (hEntry : entry.type = .directory) :
    ∀ k m, k + m = n → ∃ s, (c.scanMachine n []).Reachable s ∧ s.dirChan = [] ∧ s.callers = [] ∧
      s.workers = List.replicate k (.sendingDir dir (c.join dir entry.name) rest) ++
        List.replicate m .idle := by
  intro k
  induction k with
  | zero =>
    rintro m rfl
    rw [Nat.zero_add]
    exact ⟨_, Machine.Reaches.start, rfl, rfl, rfl⟩
  | succ k ih =>
    intro m hm
    obtain ⟨s, hs, hEmpty, hCallers, hWorkers⟩ := ih (m + 1) (by omega)
    have hIdle : s.workers[k]? = some .idle := by
      rw [hWorkers, List.getElem?_append_right (by simp)]
      simp
    obtain ⟨t, ht, hEmpty', hCallers', hWorkers'⟩ :=
      leads_occupied hRead hSkipped hEntry hs hEmpty hCallers hIdle
    refine ⟨t, ht, hEmpty'.trans hEmpty, hCallers'.trans hCallers, ?_⟩
    rw [hWorkers', hWorkers, List.set_append_right _ _ (by simp), List.length_replicate,
      Nat.sub_self, List.replicate_succ (n := m), List.set_cons_zero,
      List.replicate_succ' (n := k), List.append_assoc]
    rfl

/-- Then the channel is filled with roots. -/
theorem reach_full (dir : String) {w : ScanWorker} (hs : (c.scanMachine n []).Reachable s)
    (hEmpty : s.dirChan = []) (hCallers : s.callers = []) (hw : s.workers = List.replicate n w) :
    ∀ m ≤ c.bufferSize, ∃ t, (c.scanMachine n []).Reachable t ∧ t.callers = [] ∧
      t.dirChan = List.replicate m dir ∧ t.workers = List.replicate n w := by
  intro m
  induction m with
  | zero => exact fun _ => ⟨s, hs, hCallers, hEmpty, hw⟩
  | succ m ih =>
    intro hm
    obtain ⟨t, ht, hCallers, hQueue, hWorkers⟩ := ih (by omega)
    have hTrigger : c.scanStep t (.trigger dir) =
        some { t with scanWG := t.scanWG + 1, callers := [dir] } := by
      simp only [Scanner.scanStep, hCallers, List.nil_append]
    have hTriggered : (c.scanMachine n []).Reachable
        { t with scanWG := t.scanWG + 1, callers := [dir] } :=
      ht.next (a := .trigger dir) hTrigger
    have hSend : c.scanStep { t with scanWG := t.scanWG + 1, callers := [dir] } (.sendRoot 0) =
        some { t with
          scanWG := t.scanWG + 1, callers := [], dirChan := List.replicate m dir ++ [dir] } := by
      simp [Scanner.scanStep, hQueue]
      omega
    refine ⟨_, hTriggered.next (a := .sendRoot 0) hSend, rfl, ?_, hWorkers⟩
    rw [List.replicate_succ']

theorem deadlock_of_subdirectory (hn : 1 ≤ n)
    (hRead : c.fs.readDir dir = some (skipped ++ entry :: rest))
    (hSkipped : ∀ e ∈ skipped, e.type ≠ .directory) (hEntry : entry.type = .directory) :
    ∃ s, (c.scanMachine n []).Reachable s ∧ c.Deadlocked s := by
  obtain ⟨s, hs, hEmpty, hCallers, hWorkers⟩ :=
    reach_occupied hRead hSkipped hEntry n 0 (Nat.add_zero n)
  rw [List.replicate_zero, List.append_nil] at hWorkers
  obtain ⟨t, ht, hCallers', hQueue, hWorkers'⟩ :=
    reach_full dir hs hEmpty hCallers hWorkers c.bufferSize le_rfl
  refine ⟨t, ht, deadlocked_of_blocked ?_ ?_ ?_⟩
  · rw [hWorkers']
    exact List.ne_nil_of_length_pos (by rw [List.length_replicate]; exact hn)
  · intro w hw
    rw [hWorkers'] at hw
    exact ⟨_, _, _, List.eq_of_mem_replicate hw⟩
  · rw [hQueue, List.length_replicate]

end Reached

/-- With at least one worker, no sequence of roots leads to a deadlock exactly
if no readable directory has a subdirectory; and on any file system no run
does in which fewer than two directories for each worker and one for each
place in the channel are announced and unfinished at any time. -/
theorem scan_deadlock_free_iff {c : Scanner} {n : Nat} (hn : 1 ≤ n) :
    ((∀ s, (c.scanMachine n []).Reachable s → ¬ c.Deadlocked s) ↔ c.Flat) ∧
      ∀ s, (c.scanMachine n []).Reaches (c.FewAnnounced n) s → ¬ c.Deadlocked s := by
  refine ⟨⟨?_, ?_⟩, fun s hs => not_deadlocked_of_few hn hs⟩
  · intro hFree dir entries hRead e he hType
    have hFound : (entries.find? fun e => e.type = .directory).isSome = true :=
      List.find?_isSome.mpr ⟨e, he, decide_eq_true hType⟩
    obtain ⟨first, hFirst⟩ := Option.isSome_iff_exists.mp hFound
    obtain ⟨hDirectory, skipped, rest, rfl, hSkipped⟩ := List.find?_eq_some_iff_append.mp hFirst
    obtain ⟨s, hs, hDead⟩ := deadlock_of_subdirectory hn hRead
      (fun e he hDir => by simpa [hDir] using hSkipped e he) (of_decide_eq_true hDirectory)
    exact hFree s hs hDead
  · exact fun hFlat s hs => not_deadlocked_of_flat hn hFlat hs

/-! ## One root and one worker -/

/-- One worker and one place in the channel: of the two subdirectories of `/d`
the first fills the channel and the worker is stuck with the second. -/
theorem scan_deadlocks :
    ∃ s, (sampleScanner.scanMachine 1 []).Reachable s ∧ sampleScanner.Deadlocked s ∧
      s.dirChan = ["/d/sub"] ∧ s.workers = [.sendingDir "/d" "/d/locked" []] := by
  let s := (sampleScanner.scanMachine 1 []).after
    [.trigger "/d", .sendRoot 0, .receive 0, .readDir 0, .nextEntry 0 5, .nextEntry 0 5, .sendFile 0,
      .nextEntry 0 6, .sendDir 0, .nextEntry 0 7]
  have hQueue : s.dirChan = ["/d/sub"] := by decide +kernel
  have hWorkers : s.workers = [.sendingDir "/d" "/d/locked" []] := by decide +kernel
  refine ⟨s, Machine.reachable_after _, deadlocked_of_blocked ?_ ?_ ?_, hQueue, hWorkers⟩
  · rw [hWorkers]
    exact List.cons_ne_nil _ _
  · intro w hw
    rw [hWorkers] at hw
    exact ⟨_, _, _, List.mem_singleton.mp hw⟩
  · rw [hQueue]
    exact le_rfl

def flatScanner : Scanner :=
  { sampleScanner with
    fs := { sampleScanner.fs with readDir := fun _ => some [pdfEntry "a", pdfEntry "b"] } }

theorem scan_deadlock_free_flat :
    flatScanner.Flat ∧
      ∀ s, (flatScanner.scanMachine 3 []).Reachable s → ¬ flatScanner.Deadlocked s := by
  have hFlat : flatScanner.Flat := by
    intro dir entries hRead e he
    obtain rfl := Option.some.inj hRead
    revert e
    decide
  exact ⟨hFlat, (scan_deadlock_free_iff (by decide)).1.mpr hFlat⟩

end ChatLab.Workers
