import Bridge.Learning.History

/-!
# Two modules, one file

`BridgeServer` has a learning module of its own and, inside its `WebSocketBridge`, a second one.
Both are made with the default path, so both load the same file and both write their **whole**
history to it. Whatever is written last is what the file says.
-/

namespace Bridge.Learning

open Lib List Option

/-- The module of the server itself, or the one of its `WebSocketBridge`. -/
inductive Side where
  | server
  | ws
  deriving DecidableEq

/-- Where `shutdown` is. -/
inductive Shutdown where
  | idle
  -- `wsbridge.shutdown()`: the `close` of the socket server
  | closing
  -- `orchestrator.shutdown()`
  | stopping
  -- `learningModule.saveToPersistence()`, the call of this index
  | saving (i : Nat)
  -- the `close` of the HTTP server
  | closingServer
  | exited (code : Nat)
  deriving DecidableEq

structure Server where
  server : Module
  ws : Module
  disk : Disk
  isDistributed : Bool
  shutdown : Shutdown

namespace Server

def module (s : Server) : Side → Module
  | .server => s.server
  | .ws => s.ws

def setModule (s : Server) (m : Module) : Side → Server
  | .server => { s with server := m }
  | .ws => { s with ws := m }

/-- `shutdown` goes on to the save of its own module. -/
def save (s : Server) : Server :=
  { s with server := s.server.startSave .save, shutdown := .saving s.server.calls.length }

/-- What `shutdown` awaits settles. -/
def proceed (s : Server) (ok : Bool) : Option Server :=
  match s.shutdown with
  | .closing =>
    let s' := { s with ws := s.ws.destroy }
    if s.isDistributed then some { s' with shutdown := .stopping } else some s'.save
  | .stopping => if ok then some s.save else some { s with shutdown := .exited 1 }
  | .saving i =>
    match s.server.calls[i]? with
    | some .done => some { s with server := s.server.destroy, shutdown := .closingServer }
    | some .rejected => some { s with shutdown := .exited 1 }
    | _ => none
  | .closingServer => some { s with shutdown := .exited 0 }
  | .idle => none
  | .exited _ => none

inductive Step where
  | act (side : Side) (a : Action)
  | shutdown
  | proceed (ok : Bool)

def running (s : Server) : Bool :=
  match s.shutdown with
  | .exited _ => false
  | _ => true

def step (s : Server) : Step → Option Server
  | .act side a =>
    if s.running then
      ((s.module side).act s.disk a).map fun r => { s with disk := r.2 }.setModule r.1 side
    else none
  | .shutdown => if s.shutdown = .idle then some { s with shutdown := .closing } else none
  | .proceed ok => s.proceed ok

end Server

def File.entries : File → List Entry
  | .data d => d.feedbackHistory
  | .absent => []
  | .corrupt => []

def File.feedback (f : File) : List Feedback := f.entries.map Entry.feedback

def Module.ready (f : File) : Module :=
  { (match f with
      | .data d => Module.new.install d
      | .absent => Module.new.loadPatterns
      | .corrupt => Module.new.loadPatterns) with
    autoSave := true
    calls := [.done] }

def Server.ready (d : Disk) (isDistributed : Bool) : Server where
  server := .ready d.file
  ws := .ready d.file
  disk := d
  isDistributed := isDistributed
  shutdown := .idle

/-! ## What the saves write -/

/-- The points of a call that does not touch the history, in a module whose history is the array of
reference `r`: a save writes a history that begins with `l`. -/
def Pc.Saves (r : Nat) (l : List Entry) : Pc → Prop
  | .analyze => True
  | .done => True
  | .access .save sn => sn.feedbackHistory = r
  | .mkdir .save sn => sn.feedbackHistory = r
  | .backup .save sn => sn.feedbackHistory = r
  | .write .save text => l <+: text.feedbackHistory
  | _ => False

def Pc.saving : Pc → Bool
  | .access .. => true
  | .mkdir .. => true
  | .backup .. => true
  | .write .. => true
  | _ => false

variable {m : Module} {d : Disk}

theorem exec_saves {inp : Input} {pc : Pc} {nx : Next} {l h : List Entry}
    (hread : m.arrays.read m.feedbackHistory = some h) (hl : l <+: h)
    (hpc : pc.Saves m.feedbackHistory l) (hok : inp.ok = true) (hnx : pc.exec m d inp = some nx) :
    Same m nx.module ∧ nx.pc.Saves m.feedbackHistory l ∧
      (nx.disk.file = d.file ∨ l <+: nx.disk.file.entries) := by
  cases pc with
  | analyze =>
    cases hnx
    refine ⟨?_, trivial, .inl rfl⟩
    split
    · exact ⟨rfl, rfl, rfl, rfl⟩
    · exact .refl
  | access c sn =>
    cases c with
    | save =>
      simp only [Pc.exec] at hnx
      split at hnx <;> cases hnx <;> exact ⟨.refl, hpc, .inl rfl⟩
    | exportToCSV o => cases hpc
  | mkdir c sn =>
    cases c with
    | save =>
      simp only [Pc.exec, hok, if_true] at hnx
      cases hnx
      exact ⟨.refl, hpc, .inl rfl⟩
    | exportToCSV o => cases hpc
  | backup c sn =>
    cases c with
    | save =>
      cases hnx
      refine ⟨.refl, ?_, .inl rfl⟩
      show l <+: (m.arrays.read sn.feedbackHistory).getD []
      rw [show sn.feedbackHistory = m.feedbackHistory from hpc, hread]
      exact hl
    | exportToCSV o => cases hpc
  | write c text =>
    cases c with
    | save =>
      simp only [Pc.exec, hok, if_true] at hnx
      cases hnx
      exact ⟨.refl, trivial, .inr hpc⟩
    | exportToCSV o => cases hpc
  | done => simp [Pc.exec] at hnx
  | _ => cases hpc

namespace Module

/-- The history begins with `l`, and so does what the saves under way write. -/
structure Saving (m : Module) (l : List Entry) : Prop where
  read : ∃ h, m.arrays.read m.feedbackHistory = some h ∧ l <+: h
  calls : ∀ pc ∈ m.calls, pc.Saves m.feedbackHistory l

variable {l : List Entry}

theorem Saving.startSave (h : m.Saving l) : (m.startSave .save).Saving l := by
  refine ⟨h.read, fun pc hpc => ?_⟩
  rcases mem_append.mp hpc with hpc | hpc
  · exact h.calls pc hpc
  · cases mem_singleton.mp hpc
    exact (rfl : m.feedbackHistory = m.feedbackHistory)

theorem Saving.destroy (h : m.Saving l) : m.destroy.Saving l :=
  Saving.startSave (m := { m with autoSave := false }) ⟨h.read, h.calls⟩

theorem Saving.step {i : Nat} {inp : Input} {pc : Pc} {nx : Next} (h : m.Saving l)
    (hpc : m.calls[i]? = some pc) (hok : inp.ok = true) (hnx : pc.exec m d inp = some nx) :
    Saving { nx.module with calls := m.calls.set i nx.pc } l ∧
      (nx.disk.file = d.file ∨ l <+: nx.disk.file.entries) := by
  obtain ⟨history, hread, hl⟩ := h.read
  obtain ⟨hs, hsaves, hfile⟩ :=
    exec_saves hread hl (h.calls pc (mem_of_getElem? hpc)) hok hnx
  refine ⟨⟨?_, fun q hq => ?_⟩, hfile⟩
  · rw [hs.arrays, hs.feedbackHistory]
    exact h.read
  · rw [hs.feedbackHistory]
    rcases mem_or_eq_of_mem_set hq with hq | rfl
    · exact h.calls q hq
    · exact hsaves

variable {f : Feedback}

theorem recordFeedback_calls : (m.recordFeedback f).calls = m.calls ++ [.analyze] :=
  congrArg (· ++ [Pc.analyze]) updatePatterns_calls

theorem recordFeedback_recorded : (m.recordFeedback f).recorded = m.recorded ++ [f] :=
  Same.updatePatterns.recorded

theorem recordFeedback_feedbackHistory : (m.recordFeedback f).feedbackHistory = m.feedbackHistory :=
  Same.updatePatterns.feedbackHistory

theorem read_recordFeedback (hread : m.arrays.read m.feedbackHistory = some l) :
    (m.recordFeedback f).arrays.read (m.recordFeedback f).feedbackHistory =
      some (l ++ [f.entry]) := by
  have harrays : (m.recordFeedback f).arrays =
      m.arrays.write m.feedbackHistory (m.history ++ [f.entry]) := Same.updatePatterns.arrays
  have hhistory : m.history = l := by rw [history, hread]; rfl
  rw [harrays, recordFeedback_feedbackHistory, hhistory]
  exact Heap.read_write_self hread

theorem Saving.recordFeedback (h : m.Saving l) : (m.recordFeedback f).Saving l := by
  obtain ⟨history, hread, hl⟩ := h.read
  refine ⟨⟨_, read_recordFeedback hread, hl.trans (prefix_append _ _)⟩, fun pc hpc => ?_⟩
  rw [recordFeedback_calls] at hpc
  rw [recordFeedback_feedbackHistory]
  rcases mem_append.mp hpc with hpc | hpc
  · exact h.calls pc hpc
  · cases mem_singleton.mp hpc
    trivial

theorem read_ready (f : File) : (ready f).arrays.read (ready f).feedbackHistory =
    some f.entries := by
  cases f with
  | data d =>
    have hi := installed_install (m := new) (d := d)
    show (new.install d).arrays.read (new.install d).feedbackHistory = some d.feedbackHistory
    rw [hi.arrays, hi.feedbackHistory]
    exact Heap.read_alloc_next
  | absent => rfl
  | corrupt => rfl

theorem recorded_ready (f : File) : (ready f).recorded = [] := by
  cases f with
  | data d => exact installed_install.recorded
  | absent | corrupt => exact Same.loadPatterns.recorded

end Module

namespace Server

/-! ## What the file keeps -/

/-- The runs in which no file operation and no component fails and nothing is exported. Feedback may
be recorded, and the intervals may fire, at any time. -/
def Calm (_ : Server) : Step → Prop
  | .act _ (.step _ inp) => inp.ok = true
  | .act _ (.recordFeedback _) => True
  | .act _ .autoSave => True
  | .act _ _ => False
  | .shutdown => True
  | .proceed ok => ok = true

/-- The invariant: everything written begins with what was loaded. -/
structure Keeping (l : List Entry) (s : Server) : Prop where
  saving : ∀ side, (s.module side).Saving l
  file : l <+: s.disk.file.entries

section Step

variable {l : List Entry} {s s' : Server}

theorem module_setModule {side other : Side} :
    (s.setModule m side).module other = if other = side then m else s.module other := by
  cases side <;> cases other <;> rfl

variable {side : Side}

theorem shutdown_setModule : (s.setModule m side).shutdown = s.shutdown := by
  cases side <;> rfl

theorem disk_setModule : (s.setModule m side).disk = s.disk := by
  cases side <;> rfl

theorem Keeping.setModule (h : Keeping l s) (side : Side) (hm : m.Saving l)
    (hd : l <+: d.file.entries) : Keeping l ({ s with disk := d }.setModule m side) := by
  refine ⟨fun other => ?_, ?_⟩
  · rw [module_setModule]
    split_ifs
    · exact hm
    · exact h.saving other
  · rw [disk_setModule]
    exact hd

theorem Keeping.act {a : Action} (h : Keeping l s) (ha : s.Calm (.act side a))
    (hs : s.step (.act side a) = some s') : Keeping l s' := by
  have hm := h.saving side
  simp only [step] at hs
  split at hs
  · obtain ⟨r, hact, rfl⟩ := map_eq_some_iff.mp hs
    cases a with
    | step i inp =>
      simp only [Module.act] at hact
      split at hact
      · cases hact
      · rename_i pc hpc
        obtain ⟨nx, hnx, rfl⟩ := map_eq_some_iff.mp hact
        obtain ⟨hm', hfile⟩ := hm.step hpc ha hnx
        refine h.setModule side hm' ?_
        rcases hfile with hfile | hfile
        · exact hfile ▸ h.file
        · exact hfile
    | recordFeedback f =>
      cases hact
      exact h.setModule side hm.recordFeedback h.file
    | autoSave =>
      simp only [Module.act] at hact
      split at hact <;> cases hact
      exact h.setModule side hm.startSave h.file
    | _ => cases ha
  · cases hs

theorem Keeping.save (h : Keeping l s) : Keeping l s.save := by
  refine ⟨fun side => ?_, h.file⟩
  cases side with
  | server => exact (h.saving .server).startSave
  | ws => exact h.saving .ws

theorem Keeping.proceed (h : Keeping l s) (hs : s.proceed true = some s') : Keeping l s' := by
  simp only [Server.proceed] at hs
  split at hs
  · have hws : Keeping l { s with ws := s.ws.destroy } :=
      h.setModule .ws (h.saving .ws).destroy h.file
    split at hs <;> cases hs
    · exact ⟨hws.saving, hws.file⟩
    · exact hws.save
  · cases hs
    exact h.save
  · split at hs <;> cases hs
    · have hserver : Keeping l { s with server := s.server.destroy } :=
        h.setModule .server (h.saving .server).destroy h.file
      exact ⟨hserver.saving, hserver.file⟩
    · exact ⟨h.saving, h.file⟩
  · cases hs
    exact ⟨h.saving, h.file⟩
  · cases hs
  · cases hs

/-- **Nothing that was loaded gets lost.** -/
theorem Keeping.step {a : Step} (h : Keeping l s) (ha : s.Calm a) (hs : s.step a = some s') :
    Keeping l s' := by
  cases a with
  | act side a => exact h.act ha hs
  | shutdown =>
    simp only [Server.step] at hs
    split at hs <;> cases hs
    exact ⟨h.saving, h.file⟩
  | proceed ok =>
    cases (ha : ok = true)
    exact h.proceed hs

end Step

theorem keeping_ready (d : Disk) (isDistributed : Bool) :
    Keeping d.file.entries (ready d isDistributed) := by
  refine ⟨fun side => ⟨⟨d.file.entries, ?_, prefix_rfl⟩, fun pc hpc => ?_⟩, prefix_rfl⟩
  · cases side <;> exact Module.read_ready d.file
  · have hdone : pc = .done := by cases side <;> exact mem_singleton.mp hpc
    rw [hdone]
    trivial

/-! ## What the file may lose

An interval has fired before any feedback, and the text of that save, computed already, is the last
to be written. -/

section Run

variable {s : Server} {side : Side} {cs cs' : List Pc}

/-- A call of a module has come to `pc`. -/
def callAt (s : Server) (side : Side) (cs cs' : List Pc) (pc : Pc) (d : Disk) : Server :=
  { s with disk := d }.setModule { s.module side with calls := cs ++ pc :: cs' } side

theorem callAt_self {pc : Pc} (hcalls : (s.module side).calls = cs ++ pc :: cs') :
    s.callAt side cs cs' pc s.disk = s := by
  cases side with
  | server | ws => rw [callAt, ← hcalls]; rfl

theorem callAt_step (pc pc' : Pc) (d d' : Disk) (hrun : s.running = true)
    (hexec : ∀ calls, pc.exec { s.module side with calls := calls } d ⟨true, false⟩ =
      some ⟨{ s.module side with calls := calls }, d', pc'⟩) :
    Reaches step Calm (s.callAt side cs cs' pc d) (s.callAt side cs cs' pc' d') := by
  refine Reaches.single (a := .act side (.step cs.length ⟨true, false⟩)) rfl ?_
  have hget : (cs ++ pc :: cs')[cs.length]? = some pc := by simp
  have hset : (cs ++ pc :: cs').set cs.length pc' = cs ++ pc' :: cs' := by simp
  cases side with
  | server =>
    show (if s.running then _ else none) = _
    rw [if_pos hrun]
    show Option.map _ (Module.act { s.server with calls := cs ++ pc :: cs' } d _) = _
    simp only [Module.act, hget]
    rw [show Pc.exec { s.server with calls := cs ++ pc :: cs' } d ⟨true, false⟩ pc = _ from
      hexec (cs ++ pc :: cs'), map_some, hset]
    rfl
  | ws =>
    show (if s.running then _ else none) = _
    rw [if_pos hrun]
    show Option.map _ (Module.act { s.ws with calls := cs ++ pc :: cs' } d _) = _
    simp only [Module.act, hget]
    rw [show Pc.exec { s.ws with calls := cs ++ pc :: cs' } d ⟨true, false⟩ pc = _ from
      hexec (cs ++ pc :: cs'), map_some, hset]
    rfl

variable (s side cs cs')

/-- A save can come to its `writeFile`, whatever else is under way. -/
theorem reaches_write (sn : Snapshot) (hrun : s.running = true)
    (hcalls : (s.module side).calls = cs ++ .access .save sn :: cs') :
    Reaches step Calm s (s.callAt side cs cs' (.write .save ((s.module side).text sn))
      { s.disk with dir := true }) := by
  have hbackup : Reaches step Calm s
      (s.callAt side cs cs' (.backup .save sn) { s.disk with dir := true }) := by
    by_cases hdir : s.disk.dir = true
    · have hd : ({ s.disk with dir := true } : Disk) = s.disk := by rw [← hdir]
      rw [hd]
      nth_rewrite 1 [← callAt_self hcalls]
      exact callAt_step _ _ _ _ hrun fun calls => by simp [Pc.exec, hdir]
    · have hmkdir : Reaches step Calm s (s.callAt side cs cs' (.mkdir .save sn) s.disk) := by
        nth_rewrite 1 [← callAt_self hcalls]
        exact callAt_step _ _ _ _ hrun fun calls => by simp [Pc.exec, hdir]
      exact hmkdir.trans (callAt_step _ _ _ _ hrun fun calls => by simp [Pc.exec])
  exact hbackup.trans (callAt_step _ _ _ _ hrun fun calls => rfl)

theorem reaches_done (text : LearningData) (d : Disk) (hrun : s.running = true) :
    Reaches step Calm (s.callAt side cs cs' (.write .save text) d)
      (s.callAt side cs cs' .done { d with file := .data text }) :=
  callAt_step _ _ _ _ hrun fun calls => by simp [Pc.exec]

theorem reaches_saved {sn : Snapshot} (hrun : s.running = true)
    (hcalls : (s.module side).calls = cs ++ .access .save sn :: cs') :
    ∃ d, Reaches step Calm s (s.callAt side cs cs' .done d) :=
  ⟨_, (reaches_write s side cs cs' _ hrun hcalls).trans (reaches_done s side cs cs' _ _ hrun)⟩

variable {s side cs cs'}

def Finished (s : Server) : Prop :=
  s.shutdown = .exited 0 ∧ ∀ side, ∀ pc ∈ (s.module side).calls, pc.saving = false

theorem reaches_recorded (fs : List (Side × Feedback)) : ∀ {s : Server}, s.shutdown = .idle →
    ∃ s', Reaches step Calm s s' ∧ s'.shutdown = .idle ∧ s'.disk = s.disk ∧ ∀ side,
      (s'.module side).recorded =
        (s.module side).recorded ++ (fs.filter fun x => x.1 = side).map Prod.snd ∧
      ∃ n, (s'.module side).calls = (s.module side).calls ++ replicate n .analyze := by
  induction fs with
  | nil =>
    intro s hidle
    exact ⟨s, .refl, hidle, rfl, fun side => ⟨by simp, 0, by simp⟩⟩
  | cons x fs ih =>
    intro s hidle
    obtain ⟨side, g⟩ := x
    have hrun : s.running = true := by rw [running, hidle]
    have hstep : s.step (.act side (.recordFeedback g)) =
        some (s.setModule ((s.module side).recordFeedback g) side) := by
      show (if s.running then _ else none) = _
      rw [if_pos hrun]
      rfl
    obtain ⟨s', hs', hsd, hdisk, hm⟩ :=
      ih (s := s.setModule ((s.module side).recordFeedback g) side)
        (by rw [shutdown_setModule, hidle])
    refine ⟨s', (Reaches.single (a := .act side (.recordFeedback g)) trivial hstep).trans hs', hsd,
      hdisk.trans disk_setModule, fun other => ?_⟩
    obtain ⟨hrec, n, hcalls⟩ := hm other
    rw [module_setModule] at hrec hcalls
    by_cases hside : other = side
    · subst hside
      rw [if_pos rfl] at hrec hcalls
      refine ⟨?_, n + 1, ?_⟩
      · rw [hrec, Module.recordFeedback_recorded]
        simp
      · rw [hcalls, Module.recordFeedback_calls, append_assoc]
        rfl
    · rw [if_neg hside] at hrec hcalls
      exact ⟨by simpa [Ne.symm hside] using hrec, n, hcalls⟩

theorem begin_shutdown (hidle : s.shutdown = .idle) : Reaches step Calm s { s with
      server := s.server.startSave .save
      ws := s.ws.destroy
      shutdown := .saving s.server.calls.length } := by
  have hclose : Reaches step Calm s { s with shutdown := .closing } :=
    .single (a := .shutdown) trivial (if_pos hidle)
  refine hclose.trans ?_
  by_cases hdist : s.isDistributed = true
  · have hstop : Reaches step Calm { s with shutdown := .closing }
        { s with ws := s.ws.destroy, shutdown := .stopping } :=
      .single (a := .proceed true) rfl (if_pos hdist)
    exact hstop.trans (.single (a := .proceed true) rfl rfl)
  · exact .single (a := .proceed true) rfl (if_neg hdist)

theorem proceed_saved {i : Nat} (hsd : s.shutdown = .saving i)
    (hdone : s.server.calls[i]? = some .done) : s.proceed true =
      some { s with server := s.server.destroy, shutdown := .closingServer } := by
  simp only [proceed, hsd, hdone]

/-- **A save that was about to write before the shutdown can be the last to do so.** -/
theorem exists_finished {text : LearningData} (hidle : s.shutdown = .idle)
    (hcalls : s.server.calls = .done :: .write .save text :: cs)
    (hcs : ∀ pc ∈ cs ++ s.ws.calls, pc.saving = false) :
    ∃ s', Reaches step Calm s s' ∧ s'.Finished ∧
      (∀ side, (s'.module side).recorded = (s.module side).recorded) ∧
      s'.disk.file = .data text := by
  let s₁ : Server := { s with
    server := s.server.startSave .save
    ws := s.ws.destroy
    shutdown := .saving s.server.calls.length }
  have hbegin : Reaches step Calm s s₁ := begin_shutdown hidle
  -- the other saves come to their end first
  obtain ⟨d₂, hws⟩ := reaches_saved s₁ .ws s.ws.calls [] rfl rfl
  obtain ⟨d₃, hserver⟩ := reaches_saved (s₁.callAt .ws s.ws.calls [] .done d₂) .server
    s.server.calls [] rfl rfl
  let s₃ := (s₁.callAt .ws s.ws.calls [] .done d₂).callAt .server s.server.calls [] .done d₃
  let s₄ : Server := { s₃ with server := s₃.server.destroy, shutdown := .closingServer }
  have hproceed : s₃.proceed true = some s₄ := proceed_saved rfl getElem?_concat_length
  obtain ⟨d₅, hlast⟩ := reaches_saved s₄ .server (s.server.calls ++ [.done]) [] rfl rfl
  let s₅ := s₄.callAt .server (s.server.calls ++ [.done]) [] .done d₅
  have hcalls₅ : (s₅.module .server).calls =
      [.done] ++ .write .save text :: (cs ++ [.done, .done]) := by
    show (s.server.calls ++ [.done]) ++ [.done] = _
    rw [hcalls]
    simp
  have hwrite := reaches_done s₅ .server [.done] (cs ++ [.done, .done]) text d₅ rfl
  rw [show d₅ = s₅.disk from rfl, callAt_self hcalls₅] at hwrite
  let s₆ := s₅.callAt .server [.done] (cs ++ [.done, .done]) .done { d₅ with file := .data text }
  have hexit : Reaches step Calm s₆ { s₆ with shutdown := .exited 0 } :=
    .single (a := .proceed true) rfl rfl
  have hrun := hbegin.trans (hws.trans hserver)
  have hrun' := (hrun.trans (.single (a := .proceed true) rfl hproceed)).trans hlast
  refine ⟨_, (hrun'.trans hwrite).trans hexit, ⟨rfl, fun side pc hpc => ?_⟩, ?_, rfl⟩
  · have hmem : pc = .done ∨ pc ∈ cs ++ s.ws.calls := by
      cases side with
      | server =>
        replace hpc : pc ∈ [.done] ++ .done :: (cs ++ [.done, .done]) := hpc
        grind
      | ws =>
        replace hpc : pc ∈ s.ws.calls ++ [.done] := hpc
        grind
    rcases hmem with rfl | hmem
    · rfl
    · exact hcs pc hmem
  · intro side
    cases side <;> rfl

end Run

/-- `s` is where a server may be once the feedback `fs` has been recorded in its modules and it has
shut down. -/
def AfterShutdown (d : Disk) (isDistributed : Bool) (fs : List (Side × Feedback)) (s : Server) :
    Prop :=
  Reaches step Calm (ready d isDistributed) s ∧ s.Finished ∧
    ∀ side, (s.module side).recorded = (fs.filter fun x => x.1 = side).map Prod.snd

theorem exists_stale (d : Disk) (isDistributed : Bool) (fs : List (Side × Feedback)) :
    ∃ s, AfterShutdown d isDistributed fs s ∧ s.disk.file.entries = d.file.entries := by
  let s₁ : Server := { ready d isDistributed with server := (Module.ready d.file).startSave .save }
  have hfire : Reaches step Calm (ready d isDistributed) s₁ :=
    .single (a := .act .server .autoSave) trivial rfl
  let sn : Snapshot := ⟨(Module.ready d.file).patterns, (Module.ready d.file).feedbackHistory⟩
  have hwrite := reaches_write s₁ .server [.done] [] sn rfl rfl
  obtain ⟨s₃, hrecord, hidle, -, hm⟩ := reaches_recorded fs (s := s₁.callAt .server [.done] []
    (.write .save (s₁.server.text sn)) { s₁.disk with dir := true }) rfl
  obtain ⟨hrec, n, hcalls⟩ := hm .server
  obtain ⟨hrecw, nw, hcallsw⟩ := hm .ws
  obtain ⟨s, hs, hfin, hsame, hfile⟩ := exists_finished hidle hcalls (fun pc hpc => by
    rcases mem_append.mp hpc with hpc | hpc
    · rw [eq_of_mem_replicate hpc]
      rfl
    · replace hpc : pc ∈ s₃.ws.calls := hpc
      rw [show s₃.ws.calls = [.done] ++ replicate nw .analyze from hcallsw] at hpc
      rcases mem_append.mp hpc with hpc | hpc
      · rw [mem_singleton.mp hpc]
        rfl
      · rw [eq_of_mem_replicate hpc]
        rfl)
  refine ⟨s, ⟨((hfire.trans hwrite).trans hrecord).trans hs, hfin, fun side => ?_⟩, ?_⟩
  · rw [hsame, (hm side).1]
    cases side <;> exact congrArg (· ++ _) (Module.recorded_ready d.file)
  · rw [hfile]
    show ((Module.ready d.file).arrays.read _).getD [] = _
    rw [Module.read_ready]
    rfl

/-- After the shutdown the file is sure to hold what was loaded from it, and no more. -/
theorem sure_iff (d : Disk) (isDistributed : Bool) (fs : List (Side × Feedback))
    (least : Feedback → Nat) :
    (∀ s, AfterShutdown d isDistributed fs s → ∀ f, least f ≤ s.disk.file.feedback.count f) ↔
      ∀ f, least f ≤ d.file.feedback.count f := by
  constructor
  · intro h f
    obtain ⟨s, hs, hfile⟩ := exists_stale d isDistributed fs
    have hsure := h s hs f
    rwa [File.feedback, hfile] at hsure
  · intro h s hs f
    have hkept := hs.1.invariant (Keeping d.file.entries) (keeping_ready d isDistributed)
      Keeping.step
    exact (h f).trans ((hkept.file.map Entry.feedback).sublist.count_le f)

/-- **When the file contains the feedback of both modules**, as often as it was recorded and
whatever the order of the writes: if it was in the file the modules were loaded from as often, and
not recorded at all if it is to be there once more. -/
theorem shutdown_keeps_feedback_iff (d : Disk) (isDistributed : Bool)
    (fs : List (Side × Feedback)) : ((∀ s, AfterShutdown d isDistributed fs s →
        ∀ f, (fs.map Prod.snd).count f ≤ s.disk.file.feedback.count f) ↔
      ∀ f, (fs.map Prod.snd).count f ≤ d.file.feedback.count f) ∧
    ((∀ s, AfterShutdown d isDistributed fs s →
        ∀ f, d.file.feedback.count f + (fs.map Prod.snd).count f ≤ s.disk.file.feedback.count f) ↔
      fs = []) := by
  refine ⟨sure_iff d isDistributed fs _, (sure_iff d isDistributed fs _).trans ?_⟩
  constructor
  · intro h
    by_contra hne
    obtain ⟨x, hx⟩ := exists_mem_of_ne_nil fs hne
    have hnone := h x.2
    have hpos : 0 < (fs.map Prod.snd).count x.2 := count_pos_iff.mpr (mem_map_of_mem hx)
    omega
  · rintro rfl f
    simp

def Step.record (x : Side × Feedback) : Step := .act x.1 (.recordFeedback x.2)

/-- The pending operation of call `i` of a module succeeds. -/
def Step.ok (side : Side) (i : Nat) : Step := .act side (.step i ⟨true, false⟩)

theorem last_writer_wins : (∃ s, exec step (ready ⟨true, .absent⟩ false)
        [.record (.server, ⟨"a", true, 1, .claude, none⟩),
          .record (.ws, ⟨"b", true, 1, .gemini, none⟩), .shutdown, .proceed true, .ok .server 2,
          .ok .server 2, .ok .server 2, .proceed true, .ok .server 3, .ok .server 3,
          .ok .server 3, .ok .ws 2, .ok .ws 2, .ok .ws 2, .proceed true] = some s ∧
      s.Finished ∧
      s.disk.file.feedback = [⟨"b", true, 1, .gemini, none⟩]) ∧
    (∃ s, exec step (ready ⟨true, .absent⟩ false) [.record (.server, ⟨"a", true, 1, .claude, none⟩),
          .record (.ws, ⟨"b", true, 1, .gemini, none⟩), .shutdown, .proceed true, .ok .ws 2,
          .ok .ws 2, .ok .ws 2, .ok .server 2, .ok .server 2, .ok .server 2, .proceed true,
          .ok .server 3, .ok .server 3, .ok .server 3, .proceed true] = some s ∧
      s.Finished ∧
      s.disk.file.feedback = [⟨"a", true, 1, .claude, none⟩]) :=
  ⟨⟨_, rfl, ⟨rfl, fun side => by cases side <;> decide⟩, rfl⟩,
    ⟨_, rfl, ⟨rfl, fun side => by cases side <;> decide⟩, rfl⟩⟩

end Server

end Bridge.Learning
