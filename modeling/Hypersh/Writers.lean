import Mathlib.Data.List.FinRange
import Hypersh.Transduction
import Hypersh.Callbacks
import Hypersh.Blocks
import Hypersh.Control

/-!
The writers behind `thread_data[i].output`. They exist exactly while `recording`
is true, but only some commands look at the flag, and a stop clears it before
mode switches that are still queued have run.
-/
namespace Hypersh.Writers
open Callbacks Control Transduction
variable {n : Nat}

/-- Every vcpu has a writer while recording and none has one otherwise. -/
structure Owned (trace : Trace n) : Prop where
  open_ : trace.recording = true → ∀ vcpu, (trace.output vcpu).isSome = true
  closed : trace.recording = false → ∀ vcpu, trace.output vcpu = none

inductive Lifetime (before after : Trace n) : Prop where
  | kept (flag : after.recording = before.recording)
      (same : ∀ vcpu, after.output vcpu = before.output vcpu)
  | opened (idle : before.recording = false) (flag : after.recording = true)
      (fresh : ∀ vcpu, after.output vcpu = some (before.nextWriter + vcpu.val))
  | closed (flag : after.recording = false) (gone : ∀ vcpu, after.output vcpu = none)

inductive Move where
  | made (writer : Nat)
  | dropped (writer : Nat)
  deriving DecidableEq, Repr

def move : Action n → Option Move
  | .newWriter _ writer _ _ => some (.made writer)
  | .deleteWriter _ writer => some (.dropped writer)
  | _ => none

def madeFrom (n first : Nat) : List Move :=
  (List.finRange n).map fun vcpu => .made (first + vcpu.val)

def droppedAll (trace : Trace n) : List Move :=
  (List.finRange n).filterMap fun vcpu => (trace.output vcpu).map .dropped

/-- What a step can do to the writers and the flag, with the writers made and dropped on
the way. -/
inductive Turnover (before after : Trace n) (actions : List (Action n)) : Prop where
  | kept (flag : after.recording = before.recording)
      (same : ∀ vcpu, after.output vcpu = before.output vcpu)
      (counter : after.nextWriter = before.nextWriter)
      (files : after.traceFiles = before.traceFiles) (quiet : actions.filterMap move = [])
  | opened (idle : before.recording = false) (flag : after.recording = true)
      (fresh : ∀ vcpu, after.output vcpu = some (before.nextWriter + vcpu.val))
      (counter : after.nextWriter = before.nextWriter + n)
      (made : actions.filterMap move = madeFrom n before.nextWriter)
  | closed (flag : after.recording = false) (gone : ∀ vcpu, after.output vcpu = none)
      (counter : after.nextWriter = before.nextWriter) (files : after.traceFiles = [])
      (dropped : actions.filterMap move = droppedAll before)

theorem turnover_lifetime (before after : Trace n) (actions : List (Action n))
    (turnover : Turnover before after actions) : Lifetime before after := by
  cases turnover with
  | kept flag same _ _ _ => exact Lifetime.kept flag same
  | opened idle flag fresh _ _ => exact Lifetime.opened idle flag fresh
  | closed flag gone _ _ _ => exact Lifetime.closed flag gone

theorem turnover_refl (trace : Trace n) (actions : List (Action n))
    (quiet : actions.filterMap move = []) : Turnover trace trace actions :=
  Turnover.kept rfl (fun _ => rfl) rfl rfl quiet

theorem call_moves_nothing (vcpu : Fin n) (call : Call) (trace : Trace n) (action : Action n)
    (sent : callOutput vcpu call trace = .ok action) : move action = none := by
  unfold callOutput at sent
  split at sent
  · contradiction
  · cases sent
    rfl

theorem call_kept (vcpu : Fin n) (call : Call) (trace before next : Trace n)
    (view : Action n → Trace n × List (Action n)) (actions : List (Action n))
    (flag : ∀ action, (view action).1.recording = before.recording)
    (same : ∀ action vcpu, (view action).1.output vcpu = before.output vcpu)
    (counter : ∀ action, (view action).1.nextWriter = before.nextWriter)
    (files : ∀ action, (view action).1.traceFiles = before.traceFiles)
    (quiet : ∀ action, move action = none → (view action).2.filterMap move = [])
    (done : (callOutput vcpu call trace).map view = .ok (next, actions)) :
    Turnover before next actions := by
  rcases map_ok _ view (next, actions) done with ⟨action, sent, seen⟩
  have reached : (view action).1 = next := congrArg Prod.fst seen
  have made : (view action).2 = actions := congrArg Prod.snd seen
  rw [← reached, ← made]
  exact Turnover.kept (flag action) (same action) (counter action) (files action)
    (quiet action (call_moves_nothing vcpu call trace action sent))

theorem single_quiet (action : Action n) (still : move action = none) :
    [action].filterMap move = [] :=
  List.filterMap_cons_none still

theorem open_actions_moves (dir : String) (answers : Answers n) (threadid : Fin n)
    (writer : Nat) :
    (openActions dir answers threadid writer none).filterMap move = [.made writer] := by
  unfold openActions
  split <;> rfl

theorem start_in_moves (dir : String) (answers : Answers n) (trace : Trace n) :
    (startIn dir answers trace).2.filterMap move = madeFrom n trace.nextWriter := by
  have opened : ((List.finRange n).flatMap fun threadid =>
      openActions dir answers threadid (trace.nextWriter + threadid.val) none).filterMap move =
        madeFrom n trace.nextWriter := by
    rw [List.filterMap_flatMap, madeFrom, List.map_eq_flatMap]
    exact congrArg (fun each => (List.finRange n).flatMap each)
      (funext fun threadid => open_actions_moves dir answers threadid _)
  have files : ∀ names : List String,
      (names.map (Action.mkfifo : String → Action n)).filterMap move = [] := by
    intro names
    rw [List.filterMap_map, List.filterMap_eq_nil_iff]
    exact fun _ _ => rfl
  unfold startIn
  dsimp only
  rw [List.filterMap_append, List.filterMap_append, List.filterMap_append, files]
  exact (congrArg (· ++ []) opened).trans (List.append_nil _)

theorem start_turnover (dir : Option String) (answers : Answers n) (trace next : Trace n)
    (actions : List (Action n)) (done : recorderStart dir answers trace = .ok (next, actions)) :
    Turnover trace next actions := by
  unfold recorderStart at done
  cases flag : trace.recording
  · simp only [flag, Bool.false_eq_true, ↓reduceIte] at done
    have opened : ∀ path, startIn path answers trace = (next, actions) →
        Turnover trace next actions := by
      intro path same
      have reached : (startIn path answers trace).1 = next := congrArg Prod.fst same
      have made := start_in_moves path answers trace
      rw [same] at made
      rw [← reached]
      exact Turnover.opened flag rfl (fun _ => rfl) rfl made
    split at done
    · exact opened _ (Except.ok.inj done)
    · exact opened _ (Except.ok.inj done)
    · contradiction
  · simp only [flag, ↓reduceIte] at done
    cases done
    exact turnover_refl trace _ rfl

theorem gmm_turnover (vcpu : Fin n) (cmdStr : String) (segment arg1 : UInt64)
    (trace next : Trace n) (actions : List (Action n))
    (done : recorderGmm vcpu cmdStr segment arg1 trace = .ok (next, actions)) :
    Turnover trace next actions := by
  have sent : ∀ call, ((callOutput vcpu call trace).map fun sent => (trace, [sent])) =
      .ok (next, actions) → Turnover trace next actions := fun call taken =>
    call_kept vcpu call trace trace next _ actions (fun _ => rfl) (fun _ _ => rfl) (fun _ => rfl)
      (fun _ => rfl) single_quiet taken
  unfold recorderGmm at done
  dsimp only at done
  split_ifs at done
  · exact sent _ done
  · exact sent _ done
  · exact sent _ done
  · exact sent _ done
  · cases done
    exact turnover_refl trace _ rfl
  · exact sent _ done
  · cases done
    exact turnover_refl trace _ rfl
  · cases done
    exact turnover_refl trace _ rfl

theorem switch_turnover (request : Request) (cpuIndex : Fin n) (before trace next : Trace n)
    (actions : List (Action n)) (flag : trace.recording = before.recording)
    (same : ∀ vcpu, trace.output vcpu = before.output vcpu)
    (counter : trace.nextWriter = before.nextWriter) (files : trace.traceFiles = before.traceFiles)
    (done : doModeSwitch request cpuIndex trace = .ok (next, actions)) :
    Turnover before next actions :=
  call_kept cpuIndex _ trace before next _ actions (fun _ => flag) (fun _ vcpu => same vcpu)
    (fun _ => counter) (fun _ => files)
    (fun _ still => (List.filterMap_cons_none still).trans (single_quiet _ rfl)) done

theorem assert_open_cases (answers : Answers n) (trace : Trace n) (threadid : Fin n)
    (rest : List (Fin n)) (actions : List (Action n))
    (taken : assertOpen answers trace (threadid :: rest) = .ok actions) :
    ∃ asked later, callOutput threadid .isOpen trace = .ok asked ∧
      assertOpen answers trace rest = .ok later ∧ actions = asked :: later := by
  unfold assertOpen at taken
  split at taken
  · contradiction
  · rename_i asked called
    split at taken
    · obtain ⟨later, tail, rfl⟩ := map_ok _ _ _ taken
      exact ⟨asked, later, called, tail, rfl⟩
    · contradiction

theorem assert_open_quiet (answers : Answers n) (trace : Trace n) (vcpus : List (Fin n))
    (actions : List (Action n)) (taken : assertOpen answers trace vcpus = .ok actions) :
    actions.filterMap move = [] := by
  induction vcpus generalizing actions with
  | nil =>
      cases taken
      rfl
  | cons threadid rest ih =>
      obtain ⟨asked, later, called, tail, rfl⟩ :=
        assert_open_cases answers trace threadid rest actions taken
      rw [List.filterMap_cons_none (call_moves_nothing threadid _ trace asked called)]
      exact ih later tail

theorem turnover_silent (before next : Trace n) (actions said : List (Action n))
    (turnover : Turnover before next actions)
    (same : said.filterMap move = actions.filterMap move) : Turnover before next said := by
  cases turnover with
  | kept flag outputs counter files quiet =>
      exact Turnover.kept flag outputs counter files (same.trans quiet)
  | opened idle flag fresh counter made =>
      exact Turnover.opened idle flag fresh counter (same.trans made)
  | closed flag gone counter files dropped =>
      exact Turnover.closed flag gone counter files (same.trans dropped)

theorem mode_turnover (vcpu : Fin n) (modeStr : String) (answers : Answers n)
    (trace next : Trace n) (actions : List (Action n))
    (done : recorderMode vcpu modeStr answers trace = .ok (next, actions)) :
    Turnover trace next actions := by
  unfold recorderMode at done
  split at done
  · cases done
    exact turnover_refl trace _ rfl
  · split at done
    · cases done
      exact turnover_refl trace _ rfl
    · split at done
      · cases done
        exact turnover_refl trace _ rfl
      · split at done
        · split at done
          · contradiction
          · rename_i asked opened
            rcases map_ok _ _ _ done with ⟨⟨reached, sent⟩, switched, seen⟩
            rcases Prod.mk.inj seen with ⟨rfl, rfl⟩
            apply turnover_silent trace reached sent
            · exact switch_turnover .detailed vcpu trace (trace.setRoi answers.pageDirectory) reached
                sent rfl (fun _ => rfl) rfl rfl switched
            · rw [List.filterMap_append, List.filterMap_append, List.filterMap_append,
                assert_open_quiet answers trace _ asked opened]
              exact List.append_nil _
        · cases done
          exact Turnover.kept rfl (fun _ => rfl) rfl rfl rfl

def stopActions (trace : Trace n) (threadid : Fin n) : List (Action n) :=
  closeActions threadid (trace.output threadid) ++
    if trace.globals.currentMode = .detailed then
      [.vcpuInfo threadid (statistics (trace.threads threadid).data)]
    else []

theorem stop_actions_moves (trace : Trace n) (threadid : Fin n) :
    (stopActions trace threadid).filterMap move =
      ((trace.output threadid).map Move.dropped).toList := by
  unfold stopActions
  cases trace.output threadid with
  | none => split <;> rfl
  | some writer => split <;> rfl

theorem stop_callback_read {Item : Type} (read : Action n → Option Item) (trace : Trace n)
    (unlink : ∀ path, read (.unlink path) = none) (rate : read (.setSlomoRate 1) = none)
    (info : ∀ text, read (.info text) = none)
    (vcpuInfo : ∀ vcpu text, read (.vcpuInfo vcpu text) = none) :
    (stopCallback trace).2.filterMap read =
      ((List.finRange n).flatMap (stopActions trace)).filterMap read ++
        ((List.finRange n).take 1).flatMap fun threadid =>
          (read (.hotBlocks threadid (trace.threads threadid).blockCnt)).toList := by
  have files : (trace.traceFiles.map (Action.unlink : String → Action n)).filterMap read = [] := by
    rw [List.filterMap_map, List.filterMap_eq_nil_iff]
    exact fun path _ => unlink path
  have last : [Action.setSlomoRate 1, .info "Successfully reset trace."].filterMap read = [] := by
    rw [List.filterMap_cons_none rate, List.filterMap_cons_none (info _), List.filterMap_nil]
  have hot : ∀ threadid : Fin n, [Action.vcpuInfo threadid "Hot blocks:",
      .hotBlocks threadid (trace.threads threadid).blockCnt].filterMap read =
      (read (.hotBlocks threadid (trace.threads threadid).blockCnt)).toList := by
    intro threadid
    rw [List.filterMap_cons_none (vcpuInfo _ _)]
    cases found : read (.hotBlocks threadid (trace.threads threadid).blockCnt) with
    | none => rw [List.filterMap_cons_none found]; rfl
    | some item => rw [List.filterMap_cons_some found]; rfl
  unfold stopCallback
  dsimp only
  rw [List.filterMap_append, List.filterMap_append, List.filterMap_append, files, last,
    List.append_nil, List.append_nil, List.filterMap_flatMap (l := (List.finRange n).take 1),
    funext hot]
  rfl

theorem stop_callback_closing {Item : Type} (read : Action n → Option Item) (trace : Trace n)
    (unlink : ∀ path, read (.unlink path) = none) (rate : read (.setSlomoRate 1) = none)
    (info : ∀ text, read (.info text) = none)
    (vcpuInfo : ∀ vcpu text, read (.vcpuInfo vcpu text) = none)
    (hotBlocks : ∀ vcpu blocks, read (.hotBlocks vcpu blocks) = none) :
    (stopCallback trace).2.filterMap read =
      ((List.finRange n).flatMap (stopActions trace)).filterMap read := by
  have hot : (((List.finRange n).take 1).flatMap fun threadid => (read (.hotBlocks threadid
      (trace.threads threadid).blockCnt)).toList) = [] := by
    rw [List.flatMap_eq_nil_iff]
    intro threadid _
    rw [hotBlocks]
    rfl
  rw [stop_callback_read read trace unlink rate info vcpuInfo, hot, List.append_nil]

theorem stop_callback_moves (trace : Trace n) :
    (stopCallback trace).2.filterMap move = droppedAll trace := by
  rw [stop_callback_closing move trace (fun _ => rfl) rfl (fun _ => rfl) (fun _ _ => rfl)
    (fun _ _ => rfl), List.filterMap_flatMap, funext (stop_actions_moves trace), droppedAll,
    List.filterMap_eq_flatMap_toList]

theorem deferred_turnover (callback : Deferred n) (before trace next : Trace n)
    (actions : List (Action n)) (flag : trace.recording = before.recording)
    (same : ∀ vcpu, trace.output vcpu = before.output vcpu)
    (counter : trace.nextWriter = before.nextWriter) (files : trace.traceFiles = before.traceFiles)
    (done : runDeferred callback trace = .ok (next, actions)) : Turnover before next actions := by
  cases callback with
  | modeSwitch request cpuIndex =>
      exact switch_turnover request cpuIndex before trace next actions flag same counter files done
  | reset cpuIndex =>
      cases done
      exact Turnover.kept flag same counter files rfl
  | stop =>
      cases done
      refine Turnover.closed rfl (fun _ => rfl) counter rfl ?_
      have dropped := stop_callback_moves trace
      rw [droppedAll, funext fun vcpu => congrArg (Option.map Move.dropped) (same vcpu)] at dropped
      exact dropped

theorem step_turnover (trace next : Trace n) (event : Event n) (actions : List (Action n))
    (taken : step trace event = .ok (next, actions)) : Turnover trace next actions := by
  cases event with
  | deferred index =>
      simp only [step] at taken
      split at taken
      · cases taken
        exact turnover_refl trace _ rfl
      · exact deferred_turnover _ trace (trace.dequeue index) next actions rfl (fun _ => rfl) rfl rfl
          taken
  | command vcpu answers command =>
      cases command with
      | start dir => exact start_turnover dir answers trace next actions taken
      | mode modeStr => exact mode_turnover vcpu modeStr answers trace next actions taken
      | gmm cmdStr segment arg1 =>
          exact gmm_turnover vcpu cmdStr segment arg1 trace next actions taken
      | magic address =>
          cases taken
          exact Turnover.kept rfl (fun _ => rfl) rfl rfl rfl
      | stop =>
          simp only [step, perform, recorderStop] at taken
          split at taken
          · cases taken
            exact turnover_refl trace _ rfl
          · exact call_kept vcpu _ trace trace next _ actions (fun _ => rfl) (fun _ _ => rfl)
              (fun _ => rfl) (fun _ => rfl) single_quiet taken
      | reset =>
          simp only [step, perform, recorderReset] at taken
          split at taken
          · cases taken
            exact turnover_refl trace _ rfl
          · cases taken
            exact Turnover.kept rfl (fun _ => rfl) rfl rfl rfl

theorem install_owned (n : Nat) : Owned (install n) where
  open_ := fun flag => nomatch flag
  closed := fun _ _ => rfl

theorem lifetime_owned (trace next : Trace n) (owned : Owned trace)
    (lifetime : Lifetime trace next) : Owned next := by
  cases lifetime with
  | kept flag same =>
      constructor
      · intro recording vcpu
        rw [same]
        exact owned.open_ (flag ▸ recording) vcpu
      · intro stopped vcpu
        rw [same]
        exact owned.closed (flag ▸ stopped) vcpu
  | opened idle flag fresh =>
      constructor
      · intro _ vcpu
        rw [fresh]
        rfl
      · intro stopped
        rw [flag] at stopped
        contradiction
  | closed flag gone =>
      constructor
      · intro recording
        rw [flag] at recording
        contradiction
      · intro _
        exact gone

theorem step_owned (trace next : Trace n) (event : Event n) (actions : List (Action n))
    (owned : Owned trace) (taken : step trace event = .ok (next, actions)) : Owned next :=
  lifetime_owned trace next owned
    (turnover_lifetime trace next actions (step_turnover trace next event actions taken))

/-! Where a missing writer is used. -/

/-- The gmm commands that call the writer in the given mode. -/
def gmmCalls (mode : Mode) (cmdStr : String) : Bool :=
  cmdStr == "create" || cmdStr == "assign" || cmdStr == "delete" ||
    ((cmdStr == "message" || cmdStr == "sync") && mode == .detailed)

/-- The commands and callbacks that do not look at the flag run while it is set. -/
def Covered (trace : Trace n) : Event n → Prop
  | .command _ _ (.gmm cmdStr _ _) =>
      gmmCalls trace.globals.currentMode cmdStr = true → trace.recording = true
  | .command _ _ _ => True
  | .deferred index =>
      match trace.pending[index]? with
      | some (.modeSwitch _ _) => trace.recording = true
      | _ => True

/-- A call dies of the null pointer exactly when nothing is being recorded. -/
theorem call_output_null (vcpu : Fin n) (call : Call) (trace : Trace n) (owned : Owned trace) :
    callOutput vcpu call trace = .error .nullOutput ↔ trace.recording = false := by
  unfold callOutput
  cases flag : trace.recording
  · simp [owned.closed flag vcpu]
  · rcases Option.isSome_iff_exists.mp (owned.open_ flag vcpu) with ⟨writer, present⟩
    simp [present]

theorem gmm_null (vcpu : Fin n) (cmdStr : String) (segment arg1 : UInt64) (trace : Trace n)
    (owned : Owned trace) :
    recorderGmm vcpu cmdStr segment arg1 trace = .error .nullOutput ↔
      gmmCalls trace.globals.currentMode cmdStr = true ∧ trace.recording = false := by
  unfold recorderGmm gmmCalls
  dsimp only
  split_ifs <;> simp_all [map_error_iff, call_output_null]

theorem switch_null (request : Request) (cpuIndex : Fin n) (trace : Trace n)
    (owned : Owned trace) :
    doModeSwitch request cpuIndex trace = .error .nullOutput ↔ trace.recording = false := by
  rw [doModeSwitch, map_error_iff]
  exact call_output_null cpuIndex _ trace owned

theorem assert_open_null (answers : Answers n) (trace : Trace n) (owned : Owned trace)
    (recording : trace.recording = true) (vcpus : List (Fin n)) :
    assertOpen answers trace vcpus ≠ .error .nullOutput := by
  induction vcpus with
  | nil => exact fun dead => nomatch dead
  | cons threadid rest ih =>
      intro dead
      unfold assertOpen at dead
      cases asked : callOutput threadid .isOpen trace with
      | error fault =>
          simp only [asked, Except.error.injEq] at dead
          rw [dead, call_output_null threadid _ trace owned, recording] at asked
          contradiction
      | ok action =>
          simp only [asked] at dead
          split at dead
          · exact ih ((map_error_iff _ _ _).mp dead)
          · cases Except.error.inj dead

theorem mode_not_null (vcpu : Fin n) (modeStr : String) (answers : Answers n) (trace : Trace n)
    (owned : Owned trace) : recorderMode vcpu modeStr answers trace ≠ .error .nullOutput := by
  intro dead
  unfold recorderMode at dead
  cases recording : trace.recording
  · simp [recording] at dead
  · simp only [recording, Bool.not_true, Bool.false_eq_true, ↓reduceIte] at dead
    split at dead
    · contradiction
    · split at dead
      · contradiction
      · split at dead
        · split at dead
          · rename_i fault failed
            rw [Except.error.inj dead] at failed
            exact assert_open_null answers trace owned recording _ failed
          · have roi : Owned (trace.setRoi answers.pageDirectory) := ⟨owned.open_, owned.closed⟩
            have stopped := (switch_null .detailed vcpu _ roi).mp ((map_error_iff _ _ _).mp dead)
            rw [show (trace.setRoi answers.pageDirectory).recording = trace.recording from rfl,
              recording] at stopped
            contradiction
        · contradiction

theorem start_not_null (dir : Option String) (answers : Answers n) (trace : Trace n) :
    recorderStart dir answers trace ≠ .error .nullOutput := by
  intro dead
  unfold recorderStart at dead
  split at dead
  · contradiction
  · split at dead
    · contradiction
    · contradiction
    · cases Except.error.inj dead

theorem stop_not_null (vcpu : Fin n) (trace : Trace n) (owned : Owned trace) :
    recorderStop vcpu trace ≠ .error .nullOutput := by
  intro dead
  unfold recorderStop at dead
  cases recording : trace.recording
  · simp [recording] at dead
  · simp only [recording, Bool.not_true, Bool.false_eq_true, ↓reduceIte, map_error_iff] at dead
    rw [call_output_null vcpu _ trace owned, recording] at dead
    contradiction

/-- A step uses a missing writer exactly when it is not covered. -/
theorem step_null_iff (trace : Trace n) (event : Event n) (owned : Owned trace) :
    step trace event ≠ .error .nullOutput ↔ Covered trace event := by
  cases event with
  | deferred index =>
      simp only [step, Covered]
      cases queued : trace.pending[index]? with
      | none => simp
      | some callback =>
          cases callback with
          | reset cpuIndex => simp [runDeferred]
          | stop => simp [runDeferred]
          -- The only queued callback that goes through the pointer.
          | modeSwitch request cpuIndex =>
              have dequeued : Owned (trace.dequeue index) := ⟨owned.open_, owned.closed⟩
              have null := switch_null request cpuIndex (trace.dequeue index) dequeued
              rw [show (trace.dequeue index).recording = trace.recording from rfl] at null
              simp [runDeferred, null]
  | command vcpu answers command =>
      cases command with
      | gmm cmdStr segment arg1 =>
          have null := gmm_null vcpu cmdStr segment arg1 trace owned
          simp [step, perform, Covered, null]
      | start dir => simpa [step, perform, Covered] using start_not_null dir answers trace
      | mode modeStr =>
          simpa [step, perform, Covered] using mode_not_null vcpu modeStr answers trace owned
      | stop => simpa [step, perform, Covered] using stop_not_null vcpu trace owned
      | reset =>
          simp only [step, perform, Covered, recorderReset]
          split <;> simp
      | magic address => simp [step, perform, Covered, setMagicCommand]

/-- From installation on, no command and no deferred callback uses a missing writer
exactly when every gmm command that calls one and every queued mode switch runs
while recording. -/
theorem writers_present_iff (n : Nat) (events : List (Event n)) :
    run step (install n) events ≠ .error .nullOutput ↔ Along step Covered (install n) events :=
  run_avoids_iff step .nullOutput Covered Owned
    (fun trace event next actions owned taken => step_owned trace next event actions owned taken)
    (fun trace event owned => step_null_iff trace event owned)
    (install n) events (install_owned n)

/-- `trace gmm create` before any start. -/
theorem gmm_before_start :
    run step (install 1) [.command 0 ⟨0, none, fun _ => true⟩ (.gmm "create" 0x1000 64)] =
      .error .nullOutput :=
  rfl

-- A stop that completes before the queued mode switch has run.
example : run step (install 1)
    [.command 0 ⟨0, none, fun _ => true⟩ (.start (some "d")),
     .command 0 ⟨0, none, fun _ => true⟩ (.mode "cacheonly"),
     .command 0 ⟨0, none, fun _ => true⟩ .stop, .deferred 1, .deferred 0] =
    .error .nullOutput :=
  rfl

end Hypersh.Writers
