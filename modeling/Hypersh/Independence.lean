import Mathlib.Data.List.FinRange
import Hypersh.Transduction
import Hypersh.Callbacks
import Hypersh.Blocks
import Hypersh.Footprint
import Hypersh.Timeline
import Hypersh.Control
import Hypersh.Writers
import Hypersh.System
import Hypersh.Relocation
import Hypersh.Statistics

/-!
Two recordings, one after an earlier history and one on a plugin installed anew. A start
resets every variable the callbacks and the stop report read but the region of interest,
which keeps what the last mode or reset request of the earlier recording stored, and a
callback queued by the earlier recording that has not run yet still runs.
-/
namespace Hypersh.Independence
open Callbacks Blocks Footprint Control Transduction
variable {n : Nat}

/-- A plugin installed anew. The magic address has its own command. -/
def reinstalled (before : Trace n) : Trace n := (install n).setMagic before.globals.magic

/-- What a start on a plugin installed anew becomes after a history: the writers lie
further on, the region of interest is left and so are the callbacks still queued. -/
def leftOver (before fresh : Trace n) : Trace n :=
  { (Relocation.trace before.nextWriter fresh).setRoi before.globals.roiCr3 with
    pending := before.pending }

/-! What a history leaves behind. -/

theorem effect_blocknum (globals : Globals) (thread : ThreadData) (invocation : Invocation)
    (result : Effect) (done : effect globals thread invocation = .ok result) :
    result.1.blocknum = thread.blocknum := by
  cases invocation with
  | exec callback userdata cpu =>
      rw [exec_written globals cpu userdata thread callback result done]
      cases callback <;> rfl
  | mem callback userdata cpu access =>
      cases done
      rw [mem_written globals cpu userdata access thread callback]
      cases callback <;> rfl

theorem between_blocknum (entry : Timeline.Entry) (happened : Timeline.Between) :
    (Timeline.between entry happened).1.vcpu.data.blocknum = entry.vcpu.data.blocknum := by
  cases happened with
  | idle =>
      dsimp only [Timeline.between, Timeline.Entry.update, Timeline.Entry.setData, vcpuIdleCb]
      split <;> rfl
  | resume =>
      dsimp only [Timeline.between, Timeline.Entry.update, Timeline.Entry.setData, vcpuResumeCb]
      split <;> rfl
  | _ => rfl

theorem step_blocknum (entry next : Timeline.Entry) (event : Timeline.Event) (calls : List Call)
    (taken : Timeline.step entry event = .ok (next, calls)) :
    next.vcpu.data.blocknum = entry.vcpu.data.blocknum := by
  cases event with
  | invoke invocation =>
      exact effect_blocknum _ _ invocation _ (Timeline.step_invoke entry next invocation calls taken).1
  | between happened =>
      have kept := between_blocknum entry happened
      rwa [Except.ok.inj taken] at kept

theorem run_blocknum (vcpu : Fin n) (events : List (System.Event n)) (final : Trace n)
    (actions : List (Action n)) (done : run System.step (install n) events = .ok (final, actions)) :
    (final.threads vcpu).data.blocknum = 0 := by
  rcases System.run_projects vcpu events final actions done with ⟨timeline, ran⟩
  exact run_invariant Timeline.step (fun entry => entry.vcpu.data.blocknum = 0)
    (fun entry event next emitted zero taken =>
      (step_blocknum entry next event emitted taken).trans zero)
    Timeline.fresh _ timeline _ rfl ran

theorem run_files (events : List (System.Event n)) (final : Trace n) (actions : List (Action n))
    (done : run System.step (install n) events = .ok (final, actions)) :
    final.recording = false → final.traceFiles = [] := by
  apply run_invariant System.step (fun trace => trace.recording = false → trace.traceFiles = [])
    _ (install n) final events actions (fun _ => rfl) done
  intro trace event next emitted empty taken stopped
  cases System.step_turnover trace next event emitted taken with
  | kept flag _ _ files _ => rw [files, empty (flag ▸ stopped)]
  | opened _ flag _ _ _ =>
      rw [flag] at stopped
      contradiction
  | closed _ _ _ files _ => exact files

theorem reset_forgets (threadid : UInt64) (thread : ThreadData) (zero : thread.blocknum = 0) :
    threadDataReset threadid thread = threadDataReset threadid installed := by
  rw [threadDataReset, zero]
  rfl

theorem start_forgets (path : String) (answers : Answers n) (before : Trace n)
    (zero : ∀ vcpu, (before.threads vcpu).data.blocknum = 0) (files : before.traceFiles = []) :
    startIn path answers before =
      (leftOver before (startIn path answers (reinstalled before)).1,
        (startIn path answers (reinstalled before)).2.map (Relocation.action before.nextWriter)) := by
  let moved := Relocation.trace before.nextWriter (reinstalled before)
  have numbered : moved.nextWriter = before.nextWriter := Nat.zero_add _
  have threads : (threadDataResetAll before).threads = (threadDataResetAll moved).threads := by
    funext vcpu
    exact congrArg (fun data => Vcpu.mk data []) (reset_forgets _ _ (zero vcpu))
  have opened : (openFiles (threadDataResetAll before)).threads =
      (openFiles (threadDataResetAll moved)).threads := by
    simp only [openFiles, threads]
    rw [show (threadDataResetAll moved).nextWriter = before.nextWriter from numbered]
    rfl
  have listed : (openFiles (threadDataResetAll before)).traceFiles =
      (openFiles (threadDataResetAll moved)).traceFiles := files
  have counted : (openFiles (threadDataResetAll before)).nextWriter =
      (openFiles (threadDataResetAll moved)).nextWriter := congrArg (· + n) numbered.symm
  have there := Relocation.start_in before.nextWriter path answers (reinstalled before)
  have states := congrArg Prod.fst there
  have told := congrArg Prod.snd there
  dsimp only at states told
  refine Prod.ext ?_ ?_
  · rw [leftOver, ← states]
    simp only [startIn, Trace.beginRecording, Trace.setMode, Trace.setRoi, opened, listed, counted]
    rfl
  · rw [← told]
    simp only [startIn, numbered, moved]
    rfl

/-! The two recordings. -/

def startBy (issuer : Fin n) (answers : Answers n) (dir : Option String) : System.Event n :=
  .control (.command issuer answers (.start dir))

def conduct (before : Trace n) (events : List (System.Event n)) :
    Except Fault (List (Action n)) :=
  (run System.step before events).map Prod.snd

/-- The start leaves the variables of the callbacks and of the stop report as it leaves
them on a plugin installed anew, but for where the writers lie. -/
def SameVariables (before : Trace n) (start : System.Event n) : Prop :=
  ∀ begun opened fresh opened', System.step before start = .ok (begun, opened) →
    System.step (reinstalled before) start = .ok (fresh, opened') →
      begun.globals = fresh.globals ∧
        ∀ vcpu, begun.threads vcpu = Relocation.entry before.nextWriter (fresh.threads vcpu)

/-- The start and whatever comes after it go as they go on a plugin installed anew, but
for where the writers lie. -/
def SameConduct (before : Trace n) (start : System.Event n) : Prop :=
  ∀ later, conduct before (start :: later) =
    (conduct (reinstalled before) (start :: later)).map
      (List.map (Relocation.action before.nextWriter))

def reported : Action n → Option BlockCount
  | .hotBlocks _ blocks => some blocks
  | _ => none

/-- The tables each hot-block report can print. -/
def tables (actions : List (Action n)) : List (Set BlockCount) :=
  (actions.filterMap reported).map fun blocks => {rows | Table blocks rows}

def SameReports (before : Trace n) (start : System.Event n) : Prop :=
  ∀ later, (conduct before (start :: later)).map tables =
    (conduct (reinstalled before) (start :: later)).map tables

theorem tables_append (front back : List (Action n)) :
    tables (front ++ back) = tables front ++ tables back := by
  rw [tables, tables, tables, List.filterMap_append, List.map_append]

theorem relocated_tables (shift : Nat) (actions : List (Action n)) :
    tables (actions.map (Relocation.action shift)) = tables actions := by
  have seen : ∀ action : Action n, reported (Relocation.action shift action) = reported action := by
    intro action
    cases action <;> rfl
  rw [tables, tables, List.filterMap_map]
  exact congrArg (List.map _) (congrArg (fun read => actions.filterMap read) (funext seen))

theorem SameConduct.reports {before : Trace n} {start : System.Event n}
    (conducted : SameConduct before start) : SameReports before start := by
  intro later
  rw [conducted later]
  cases conduct (reinstalled before) (start :: later) with
  | error fault => rfl
  | ok actions => exact congrArg Except.ok (relocated_tables before.nextWriter actions)

theorem started_in (issuer : Fin n) (answers : Answers n) (dir : Option String)
    (before : Trace n) (result : Trace n × List (Action n)) (stopped : before.recording = false)
    (started : System.step before (startBy issuer answers dir) = .ok result) :
    ∃ path, ∀ trace : Trace n, trace.recording = false →
      System.step trace (startBy issuer answers dir) = .ok (startIn path answers trace) := by
  simp only [startBy, System.step, Control.step, perform, recorderStart, stopped,
    Bool.false_eq_true, ↓reduceIte] at started
  split at started
  · rename_i path
    refine ⟨path, fun trace idle => ?_⟩
    simp only [startBy, System.step, Control.step, perform, recorderStart, idle,
      Bool.false_eq_true, ↓reduceIte]
  · rename_i temp made
    refine ⟨temp, fun trace idle => ?_⟩
    simp only [startBy, System.step, Control.step, perform, recorderStart, idle, made,
      Bool.false_eq_true, ↓reduceIte]
  · contradiction

structure Forgetful (before : Trace n) (start : System.Event n)
    (fresh : Trace n × List (Action n)) : Prop where
  here : System.step before start =
    .ok (leftOver before fresh.1, fresh.2.map (Relocation.action before.nextWriter))
  anew : System.step (reinstalled before) start = .ok fresh
  clear : fresh.1.globals.roiCr3 = 0
  idle : fresh.1.pending = []
  recording : fresh.1.recording = true
  present : ∀ vcpu, ∃ writer, fresh.1.output vcpu = some writer
  unseen : ∀ vcpu, (fresh.1.threads vcpu).blockCnt = []
  uncounted : ∀ vcpu, (fresh.1.threads vcpu).data.icountReported = 0

theorem begins_forgetful (history : List (System.Event n))
    (before : Trace n) (earlier : List (Action n))
    (reached : run System.step (install n) history = .ok (before, earlier))
    (stopped : before.recording = false) (issuer : Fin n) (answers : Answers n)
    (dir : Option String) (result : Trace n × List (Action n))
    (started : System.step before (startBy issuer answers dir) = .ok result) :
    ∃ fresh, Forgetful before (startBy issuer answers dir) fresh := by
  obtain ⟨path, starts⟩ := started_in issuer answers dir before result stopped started
  have here := starts before stopped
  rw [start_forgets path answers before
    (fun vcpu => run_blocknum vcpu history before earlier reached)
    (run_files history before earlier reached stopped)] at here
  exact ⟨_, here, starts (reinstalled before) rfl, rfl, rfl, rfl, fun _ => ⟨_, rfl⟩, fun _ => rfl,
    fun _ => rfl⟩

section
variable {before : Trace n} {start : System.Event n} {fresh : Trace n × List (Action n)}

theorem Forgetful.present_after (begun : Forgetful before start fresh) (vcpu : Fin n) :
    ∃ writer, (leftOver before fresh.1).output vcpu = some writer := by
  obtain ⟨writer, present⟩ := begun.present vcpu
  exact ⟨writer + before.nextWriter, congrArg (Option.map (· + before.nextWriter)) present⟩

theorem Forgetful.left_nothing (begun : Forgetful before start fresh)
    (zero : before.globals.roiCr3 = 0) (empty : before.pending = []) :
    leftOver before fresh.1 = Relocation.trace before.nextWriter fresh.1 := by
  have roi : before.globals.roiCr3 = fresh.1.globals.roiCr3 := zero.trans begun.clear.symm
  have queue : before.pending = fresh.1.pending := empty.trans begun.idle.symm
  rw [leftOver, roi, queue]
  rfl

theorem Forgetful.conducted (begun : Forgetful before start fresh)
    (zero : before.globals.roiCr3 = 0) (empty : before.pending = []) :
    SameConduct before start := by
  intro later
  have first := begun.here
  rw [begun.left_nothing zero empty] at first
  simp only [conduct, run, first, begun.anew, Relocation.run_relocated]
  cases run System.step fresh.1 later with
  | error fault => rfl
  | ok rest => simp [Relocation.outcome, Except.map]

theorem Forgetful.conduct_later (begun : Forgetful before start fresh)
    (agree : SameConduct before start) (later : List (System.Event n)) (left right : Trace n)
    (old new : List (Action n))
    (ranOld : run System.step (leftOver before fresh.1) later = .ok (left, old))
    (ranNew : run System.step fresh.1 later = .ok (right, new)) :
    old = new.map (Relocation.action before.nextWriter) := by
  have equal := agree later
  rw [conduct, conduct, run_cons_ok _ _ _ _ _ _ _ _ begun.here ranOld,
    run_cons_ok _ _ _ _ _ _ _ _ begun.anew ranNew] at equal
  have lists := Except.ok.inj equal
  rw [List.map_append] at lists
  exact List.append_cancel_left lists

theorem Forgetful.reports_later (begun : Forgetful before start fresh)
    (agree : SameReports before start) (later : List (System.Event n)) (left right : Trace n)
    (old new : List (Action n))
    (ranOld : run System.step (leftOver before fresh.1) later = .ok (left, old))
    (ranNew : run System.step fresh.1 later = .ok (right, new)) : tables old = tables new := by
  have equal := agree later
  rw [conduct, conduct, run_cons_ok _ _ _ _ _ _ _ _ begun.here ranOld,
    run_cons_ok _ _ _ _ _ _ _ _ begun.anew ranNew] at equal
  have lists := Except.ok.inj equal
  rw [tables_append, tables_append, relocated_tables] at lists
  exact List.append_cancel_left lists

end

/-! A callback left over. -/

/-- A full quota, reported with the last instruction unless a reset comes in between. -/
def fullQuota (vcpu : Fin n) : List (System.Event n) :=
  [.invoke vcpu (.exec .countInsns flowControlFF ⟨false, 0⟩), .control (.deferred 0),
   .invoke vcpu (.exec .countInsns 1 ⟨false, 0⟩)]

theorem count_insns_step (trace : Trace n) (vcpu : Fin n) (writer : Nat) (count : UInt64)
    (present : trace.output vcpu = some writer) :
    ∃ next, System.step trace (.invoke vcpu (.exec .countInsns count ⟨false, 0⟩)) =
        .ok (next, (tbExecCountInsns count (trace.threads vcpu).data).2.map (.call vcpu writer)) ∧
      next.output vcpu = some writer ∧ next.pending = trace.pending ∧
      (next.threads vcpu).data = (tbExecCountInsns count (trace.threads vcpu).data).1 := by
  have kept : (tbExecCountInsns count (trace.threads vcpu).data).1.output = some writer := by
    rw [← present]
    unfold tbExecCountInsns
    dsimp only
    split <;> rfl
  refine ⟨System.setVcpu trace vcpu ⟨(tbExecCountInsns count (trace.threads vcpu).data).1,
    (trace.threads vcpu).blockCnt⟩, ?_, ?_, rfl, ?_⟩
  · simp only [System.step, invoke, effect, execEffect, countBlock, Except.map, System.callback,
      System.deliver, present]
  · simp [System.setVcpu, Trace.output, kept]
  · simp [System.setVcpu]

theorem full_quota_reports (trace : Trace n) (vcpu : Fin n) (writer : Nat)
    (present : trace.output vcpu = some writer) (empty : trace.pending = [])
    (zero : (trace.threads vcpu).data.icountReported = 0) :
    ∃ final, run System.step trace (fullQuota vcpu) =
      .ok (final, [.call vcpu writer (.instructionCount (flowControlFF + 1))]) := by
  obtain ⟨first, taken, still, queue, data⟩ :=
    count_insns_step trace vcpu writer flowControlFF present
  obtain ⟨last, reached, -, -, -⟩ := count_insns_step first vcpu writer 1 still
  have nothing : System.step first (.control (.deferred 0)) = .ok (first, []) := by
    simp [System.step, Control.step, queue, empty]
  have full : (tbExecCountInsns flowControlFF (trace.threads vcpu).data).2 = [] ∧
      (first.threads vcpu).data.icountReported = flowControlFF := by
    rw [data]
    unfold tbExecCountInsns
    simp only [zero, UInt64.zero_add, UInt64.lt_irrefl, if_false, and_self]
  have exceeded : (tbExecCountInsns 1 (first.threads vcpu).data).2 =
      [.instructionCount (flowControlFF + 1)] := by
    unfold tbExecCountInsns
    dsimp only
    rw [full.2, if_pos (by decide)]
  rw [full.1] at taken
  rw [exceeded] at reached
  exact ⟨last, run_cons_ok _ _ _ _ _ _ _ _ taken (run_cons_ok _ _ _ _ _ _ _ _ nothing
    ((run_singleton _ _ _).trans reached))⟩

theorem full_quota_reset (trace : Trace n) (vcpu owner : Fin n) (writer : Nat)
    (rest : List (Deferred n)) (present : trace.output vcpu = some writer)
    (queued : trace.pending = .reset owner :: rest)
    (zero : (trace.threads vcpu).data.icountReported = 0) :
    ∃ final, run System.step trace (fullQuota vcpu) = .ok (final, []) := by
  obtain ⟨first, taken, still, queue, data⟩ :=
    count_insns_step trace vcpu writer flowControlFF present
  have cleared : System.step first (.control (.deferred 0)) =
      .ok (resetCallback (first.dequeue 0), []) := by
    simp [System.step, Control.step, queue, queued, runDeferred]
  obtain ⟨last, reached, -, -, -⟩ :=
    count_insns_step (resetCallback (first.dequeue 0)) vcpu writer 1 still
  have full : (tbExecCountInsns flowControlFF (trace.threads vcpu).data).2 = [] := by
    unfold tbExecCountInsns
    simp only [zero, UInt64.zero_add, UInt64.lt_irrefl, if_false]
  rw [full] at taken
  exact ⟨last, run_cons_ok _ _ _ _ _ _ _ _ taken (run_cons_ok _ _ _ _ _ _ _ _ cleared
    ((run_singleton _ _ _).trans reached))⟩

theorem Forgetful.queue_empty {before : Trace n} {start : System.Event n}
    {fresh : Trace n × List (Action n)} (begun : Forgetful before start fresh)
    (positive : 0 < n) (agree : SameConduct before start) : before.pending = [] := by
  have nothing : run System.step fresh.1 [.control (.deferred 0)] = .ok (fresh.1, []) := by
    simp [run_singleton, System.step, Control.step, begun.idle]
  have silent : ∀ next actions, System.step (leftOver before fresh.1) (.control (.deferred 0)) =
      .ok (next, actions) → actions = [] := by
    intro next actions taken
    exact begun.conduct_later agree _ next fresh.1 actions []
      ((run_singleton _ _ _).trans taken) nothing
  have queue : (leftOver before fresh.1).pending = before.pending := rfl
  cases waiting : before.pending with
  | nil => rfl
  | cons callback rest =>
      rw [waiting] at queue
      cases callback with
      | modeSwitch request cpuIndex =>
          obtain ⟨writer, present⟩ := begun.present_after cpuIndex
          have switched : System.step (leftOver before fresh.1) (.control (.deferred 0)) =
              .ok (((leftOver before fresh.1).dequeue 0).setMode request.mode,
                [.call cpuIndex writer (.magic request.simOpt),
                 .setSlomoRate request.slomoRate]) := by
            simp only [System.step, Control.step, queue, List.getElem?_cons_zero, runDeferred,
              doModeSwitch, callOutput, show ((leftOver before fresh.1).dequeue 0).output cpuIndex =
                some writer from present, Except.map]
          exact absurd (silent _ _ switched) (List.cons_ne_nil _ _)
      | stop =>
          have shown : (stopCallback ((leftOver before fresh.1).dequeue 0)).2 = [] :=
            silent _ _ (Statistics.stop_step (leftOver before fresh.1) 0 (by rw [queue]; rfl))
          have last : Action.setSlomoRate 1 ∈
              (stopCallback ((leftOver before fresh.1).dequeue 0)).2 := by
            simp [stopCallback]
          rw [shown] at last
          exact absurd last List.not_mem_nil
      | reset owner =>
          obtain ⟨writer, present⟩ := begun.present ⟨0, positive⟩
          obtain ⟨later, still⟩ := begun.present_after ⟨0, positive⟩
          obtain ⟨right, told⟩ := full_quota_reports fresh.1 ⟨0, positive⟩ writer present begun.idle
            (begun.uncounted _)
          obtain ⟨left, quiet⟩ := full_quota_reset (leftOver before fresh.1) ⟨0, positive⟩ owner later
            rest still queue (begun.uncounted _)
          exact absurd (begun.conduct_later agree _ left right _ _ quiet told)
            (List.cons_ne_nil _ _).symm

/-! A region of interest left over. -/

theorem table_length (blocks rows : BlockCount) (table : Table blocks rows) :
    rows.length = min 10 blocks.length := by
  obtain ⟨sorted, arranged, rfl⟩ := table
  rw [List.length_take, arranged.perm.length_eq]

theorem tables_differ : {rows | Table [(0, 1)] rows} ≠ {rows | Table [] rows} := by
  intro same
  have none_ : ([] : BlockCount) ∈ {rows : BlockCount | Table [] rows} :=
    ⟨[], ⟨.refl _, List.Pairwise.nil⟩, rfl⟩
  rw [← same] at none_
  exact absurd (table_length _ _ none_) (by decide)

theorem stop_reported (trace : Trace n) (positive : 0 < n) :
    (stopCallback trace).2.filterMap reported = [(trace.threads ⟨0, positive⟩).blockCnt] := by
  have closing : ((List.finRange n).flatMap (Writers.stopActions trace)).filterMap reported = [] := by
    rw [List.filterMap_flatMap, List.flatMap_eq_nil_iff]
    intro threadid _
    unfold Writers.stopActions
    cases trace.output threadid with
    | none => split <;> rfl
    | some writer => split <;> rfl
  rw [Writers.stop_callback_read reported trace (fun _ => rfl) rfl (fun _ => rfl) (fun _ _ => rfl),
    closing]
  obtain ⟨m, rfl⟩ : ∃ m, n = m + 1 := ⟨n - 1, by omega⟩
  rw [List.finRange_succ]
  rfl

def oneHotBlock (positive : 0 < n) (answers : Answers n) (pageDirectory : UInt64) :
    List (System.Event n) :=
  [.invoke ⟨0, positive⟩ (.exec .hotBlocks 0 ⟨false, pageDirectory⟩),
   .control (.command ⟨0, positive⟩ answers .stop), .control (.deferred 0)]

theorem one_hot_block_reported (trace : Trace n) (positive : 0 < n) (answers : Answers n)
    (pageDirectory : UInt64) (writer : Nat) (recording : trace.recording = true)
    (idle : trace.pending = []) (present : trace.output ⟨0, positive⟩ = some writer)
    (unseen : (trace.threads ⟨0, positive⟩).blockCnt = []) :
    ∃ final actions, run System.step trace (oneHotBlock positive answers pageDirectory) =
        .ok (final, actions) ∧
      actions.filterMap reported =
        [if pageDirectory = trace.globals.roiCr3 then [(0, 1)] else []] := by
  let vcpu : Fin n := ⟨0, positive⟩
  let counted : Vcpu := ⟨(trace.threads vcpu).data,
    tbExecHotBlocks trace.globals ⟨false, pageDirectory⟩ 0 (trace.threads vcpu).blockCnt⟩
  let hot := System.setVcpu trace vcpu counted
  have first : System.step trace (.invoke vcpu (.exec .hotBlocks 0 ⟨false, pageDirectory⟩)) =
      .ok (hot, []) := by
    simp [System.step, invoke, effect, execEffect, countBlock, Except.map, System.callback,
      System.deliver, present, vcpu, hot, counted]
  have still : hot.output vcpu = some writer := by
    rw [← present]
    simp [hot, counted, System.setVcpu, Trace.output, vcpu]
  have second : System.step hot (.control (.command vcpu answers .stop)) =
      .ok (hot.defer .stop, [.call vcpu writer .end]) := by
    have going : hot.recording = true := recording
    simp [System.step, Control.step, perform, recorderStop, going, callOutput, still, Except.map]
  have third := Statistics.stop_step (hot.defer .stop) 0 (by
    rw [show (hot.defer .stop).pending = trace.pending ++ [.stop] from rfl, idle]
    rfl)
  have blocks : (((hot.defer .stop).dequeue 0).threads vcpu).blockCnt =
      if pageDirectory = trace.globals.roiCr3 then [(0, 1)] else [] := by
    simp [hot, counted, System.setVcpu, Trace.defer, Trace.dequeue, tbExecHotBlocks, unseen, vcpu,
      bump]
  have report := stop_reported ((hot.defer .stop).dequeue 0) positive
  rw [blocks] at report
  generalize stopCallback ((hot.defer .stop).dequeue 0) = closed at third report
  refine ⟨_, _, run_cons_ok _ _ _ _ _ _ _ _ first (run_cons_ok _ _ _ _ _ _ _ _ second
    ((run_singleton _ _ _).trans third)), ?_⟩
  rw [List.nil_append, List.filterMap_append, report]
  rfl

theorem Forgetful.reports {before : Trace n} {start : System.Event n}
    {fresh : Trace n × List (Action n)} (begun : Forgetful before start fresh)
    (positive : 0 < n) (empty : before.pending = []) (agree : SameReports before start) :
    before.globals.roiCr3 = 0 := by
  let idle : Answers n := ⟨0, none, fun _ => true⟩
  obtain ⟨later, still⟩ := begun.present_after ⟨0, positive⟩
  obtain ⟨writer, present⟩ := begun.present ⟨0, positive⟩
  obtain ⟨left, old, ranOld, hot⟩ := one_hot_block_reported (leftOver before fresh.1) positive idle
    before.globals.roiCr3 later begun.recording empty still (begun.unseen _)
  obtain ⟨right, new, ranNew, cold⟩ := one_hot_block_reported fresh.1 positive idle
    before.globals.roiCr3 writer begun.recording begun.idle present (begun.unseen _)
  have same := begun.reports_later agree _ left right old new ranOld ranNew
  by_contra nonzero
  rw [tables, tables, hot, cold, begun.clear, if_neg nonzero,
    if_pos (show before.globals.roiCr3 = (leftOver before fresh.1).globals.roiCr3 from rfl)] at same
  exact tables_differ (List.cons.inj same).1

/-- After every history that has ended in a stop: a new recording begins as on a plugin
installed anew exactly when no region of interest is left over, goes on so exactly when
no queued callback is left over either, and without one reports the same hot blocks
exactly when no region of interest is left over. -/
theorem recording_independent_iff (history : List (System.Event n)) (before : Trace n)
    (earlier : List (Action n))
    (reached : run System.step (install n) history = .ok (before, earlier))
    (stopped : before.recording = false) (issuer : Fin n) (answers : Answers n)
    (dir : Option String) (result : Trace n × List (Action n))
    (started : System.step before (startBy issuer answers dir) = .ok result) :
    (SameVariables before (startBy issuer answers dir) ↔ before.globals.roiCr3 = 0) ∧
      (SameConduct before (startBy issuer answers dir) ↔
        before.globals.roiCr3 = 0 ∧ before.pending = []) ∧
      (before.pending = [] →
        (SameReports before (startBy issuer answers dir) ↔ before.globals.roiCr3 = 0)) := by
  have positive : 0 < n := issuer.pos
  obtain ⟨fresh, begun⟩ := begins_forgetful history before earlier reached stopped issuer answers
    dir result started
  refine ⟨⟨?_, ?_⟩, ⟨?_, ?_⟩, fun empty => ⟨?_, ?_⟩⟩
  · intro variables_
    have kept : (leftOver before fresh.1).globals = fresh.1.globals :=
      (variables_ _ _ _ _ begun.here begun.anew).1
    exact (congrArg (fun globals : Globals => globals.roiCr3) kept).trans begun.clear
  · intro zero begun' opened fresh' opened' first second
    obtain ⟨rfl, rfl⟩ := Prod.mk.inj (Except.ok.inj (begun.here.symm.trans first))
    have reached := congrArg Prod.fst (Except.ok.inj (begun.anew.symm.trans second))
    dsimp only at reached
    rw [← reached]
    refine ⟨?_, fun vcpu => rfl⟩
    rw [show (leftOver before fresh.1).globals =
      { fresh.1.globals with roiCr3 := before.globals.roiCr3 } from rfl, zero, ← begun.clear]
  · intro conducted
    have empty := begun.queue_empty positive conducted
    exact ⟨begun.reports positive empty conducted.reports, empty⟩
  · exact fun nothing => begun.conducted nothing.1 nothing.2
  · exact begun.reports positive empty
  · exact fun zero => (begun.conducted zero empty).reports

def recorded (pageDirectory : UInt64) : List (System.Event 1) :=
  [startBy vcpu₀ ⟨0, none, fun _ => true⟩ (some "d"),
   .control (.command vcpu₀ ⟨pageDirectory, none, fun _ => true⟩ (.mode "detailed")),
   .control (.command vcpu₀ ⟨0, none, fun _ => true⟩ .stop), .control (.deferred 0)]

theorem recorded_independent :
    ∃ before earlier, run System.step (install 1) (recorded 0) = .ok (before, earlier) ∧
      SameConduct before (startBy 0 ⟨0, none, fun _ => true⟩ (some "e")) := by
  obtain ⟨-, conducted, -⟩ := recording_independent_iff (recorded 0) _ _ rfl rfl 0
    ⟨0, none, fun _ => true⟩ (some "e") _ rfl
  exact ⟨_, _, rfl, conducted.mpr ⟨rfl, rfl⟩⟩

/-- The recording leaves its region of interest to the next one, where a block of that
process in fast-forward mode is hot. -/
theorem roi_left_over :
    ∃ before earlier, run System.step (install 1) (recorded 0x5000) = .ok (before, earlier) ∧
      before.recording = false ∧ before.pending = [] ∧
      let second := startBy 0 ⟨0, none, fun _ => true⟩ (some "e") ::
        oneHotBlock Nat.one_pos ⟨0, none, fun _ => true⟩ 0x5000
      (conduct before second).map tables = .ok [{rows | Table [(0, 1)] rows}] ∧
        (conduct (reinstalled before) second).map tables = .ok [{rows | Table [] rows}] ∧
        {rows | Table [(0, 1)] rows} ≠ {rows | Table [] rows} :=
  ⟨_, _, rfl, rfl, rfl, rfl, rfl, tables_differ⟩

end Hypersh.Independence
