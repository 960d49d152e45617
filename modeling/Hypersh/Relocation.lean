import Mathlib.Data.List.FinRange
import Mathlib.Logic.Function.Basic
import Hypersh.Transduction
import Hypersh.Callbacks
import Hypersh.Blocks
import Hypersh.Control
import Hypersh.System

/-!
The addresses of the writers. The plugin compares its `output` pointers with NULL and
calls through them, and never looks at them otherwise: a plugin whose writers lie further
on does the same things to those.
-/
namespace Hypersh.Relocation
open Callbacks Blocks Control Transduction
variable {n : Nat} (shift : Nat)

def thread (data : ThreadData) : ThreadData := { data with output := data.output.map (· + shift) }

def entry (vcpu : Vcpu) : Vcpu := { vcpu with data := thread shift vcpu.data }

def trace (state : Trace n) : Trace n :=
  { state with
    threads := fun vcpu => entry shift (state.threads vcpu)
    nextWriter := state.nextWriter + shift }

def action : Action n → Action n
  | .call vcpu writer call => .call vcpu (writer + shift) call
  | .newWriter vcpu writer filename response => .newWriter vcpu (writer + shift) filename response
  | .deleteWriter vcpu writer => .deleteWriter vcpu (writer + shift)
  | other => other

def outcome (result : Outcome n) : Outcome n :=
  result.map fun done => (trace shift done.1, done.2.map (action shift))

/-! Callbacks inside blocks. -/

def effect (result : Effect) : Effect := (thread shift result.1, result.2)

theorem sync_reported (data : ThreadData) :
    syncReported (thread shift data) = effect shift (syncReported data) := by
  unfold syncReported
  rw [apply_ite (effect shift)]
  rfl

theorem branch_cacheonly (userdata : UInt64) (data : ThreadData) :
    tbExecBranchCacheonly userdata (thread shift data) =
      (tbExecBranchCacheonly userdata data).map (effect shift) := by
  have synced := sync_reported shift (clearBranch (consumePending data))
  unfold tbExecBranchCacheonly
  dsimp only
  rw [apply_ite (Except.map (effect shift)), apply_ite (Except.map (effect shift)),
    show clearBranch (consumePending (thread shift data)) =
      thread shift (clearBranch (consumePending data)) from rfl, synced]
  rfl

theorem cross_roi (globals : Globals) (cpu : Cpu) (data : ThreadData) :
    crossRoi globals cpu (thread shift data) = effect shift (crossRoi globals cpu data) := by
  unfold crossRoi
  rw [apply_ite (effect shift), apply_ite (effect shift), apply_ite (effect shift)]
  rfl

theorem branch_detailed (globals : Globals) (cpu : Cpu) (data : ThreadData) :
    tbExecBranchDetailed globals cpu (thread shift data) =
      (tbExecBranchDetailed globals cpu data).map (effect shift) := by
  unfold tbExecBranchDetailed
  dsimp only
  rw [apply_ite (Except.map (effect shift)), apply_ite (Except.map (effect shift)), cross_roi]
  rfl

theorem count_detailed (globals : Globals) (cpu : Cpu) (data : ThreadData) :
    countDetailed globals cpu (thread shift data) =
      thread shift (countDetailed globals cpu data) := by
  unfold countDetailed
  rw [apply_ite (thread shift)]
  rfl

theorem sync_detailed (data : ThreadData) :
    syncDetailed (thread shift data) = effect shift (syncDetailed data) := by
  unfold syncDetailed
  rw [apply_ite (effect shift)]
  rfl

theorem update_pc (globals : Globals) (cpu : Cpu) (vaddr : UInt64) (data : ThreadData) :
    insnExecUpdatePc globals cpu vaddr (thread shift data) =
      effect shift (insnExecUpdatePc globals cpu vaddr data) := by
  unfold insnExecUpdatePc
  dsimp only
  rw [apply_ite (effect shift)]
  refine if_congr Iff.rfl rfl ?_
  rw [show { thread shift data with pc := vaddr } = thread shift { data with pc := vaddr } from rfl,
    count_detailed, sync_detailed]
  rfl

theorem exec (globals : Globals) (cpu : Cpu) (userdata : UInt64) (data : ThreadData)
    (callback : ExecCallback) :
    execEffect globals cpu userdata (thread shift data) callback =
      (execEffect globals cpu userdata data callback).map (effect shift) := by
  cases callback with
  | branchCacheonly => exact branch_cacheonly shift userdata data
  | branchDetailed => exact branch_detailed shift globals cpu data
  | updatePc => exact congrArg Except.ok (update_pc shift globals cpu userdata data)
  | countInsns =>
      refine congrArg Except.ok ?_
      unfold tbExecCountInsns
      dsimp only
      rw [apply_ite (effect shift)]
      rfl
  | pause =>
      refine congrArg Except.ok ?_
      unfold insnExecPause
      rw [apply_ite (effect shift)]
      rfl
  | cmpxchg =>
      refine congrArg Except.ok ?_
      unfold insnExecCmpxchg
      rw [apply_ite (effect shift)]
      rfl
  | _ => rfl

theorem send_cacheonly (access : Access) (pcRamAddr : UInt64) (data : ThreadData) :
    memSendCacheonly access pcRamAddr (thread shift data) =
      effect shift (memSendCacheonly access pcRamAddr data) := by
  have kept := sync_reported shift data
  have consumed := sync_reported shift (consumePending data)
  unfold memSendCacheonly
  dsimp only
  by_cases none_ : data.icountCacheonlyPending = 0
  · rw [if_neg (not_not_intro (show (thread shift data).icountCacheonlyPending = 0 from none_)),
      if_neg (not_not_intro none_)]
    dsimp only
    rw [kept]
    rfl
  · rw [if_pos (show (thread shift data).icountCacheonlyPending ≠ 0 from none_), if_pos none_]
    dsimp only
    rw [show consumePending (thread shift data) = thread shift (consumePending data) from rfl,
      consumed]
    rfl

theorem toggle_capture (data : ThreadData) :
    toggleCapture (thread shift data) = thread shift (toggleCapture data) := by
  unfold toggleCapture
  rw [apply_ite (thread shift)]
  rfl

theorem count_access (globals : Globals) (cpu : Cpu) (access : Access) (data : ThreadData) :
    countAccess globals cpu access (thread shift data) =
      thread shift (countAccess globals cpu access data) := by
  unfold countAccess
  rw [apply_ite (thread shift), apply_ite (thread shift)]
  rfl

theorem send_detailed (globals : Globals) (cpu : Cpu) (access : Access) (data : ThreadData) :
    memSendDetailed globals cpu access (thread shift data) =
      effect shift (memSendDetailed globals cpu access data) := by
  unfold memSendDetailed
  dsimp only
  split
  · rw [toggle_capture, count_access]
    rfl
  · rw [count_access]
    rfl

theorem mem (globals : Globals) (cpu : Cpu) (userdata : UInt64) (access : Access)
    (data : ThreadData) (callback : MemCallback) :
    memEffect globals cpu userdata access (thread shift data) callback =
      effect shift (memEffect globals cpu userdata access data callback) := by
  cases callback with
  | updatePc => rfl
  | sendCacheonly => exact send_cacheonly shift access userdata data
  | sendDetailed => exact send_detailed shift globals cpu access data

theorem invoked (globals : Globals) (vcpu : Vcpu) (invocation : Invocation) :
    invoke globals (entry shift vcpu) invocation =
      (invoke globals vcpu invocation).map fun done => (entry shift done.1, done.2) := by
  have both : Blocks.effect globals (thread shift vcpu.data) invocation =
      (Blocks.effect globals vcpu.data invocation).map (effect shift) := by
    cases invocation with
    | exec callback userdata cpu => exact exec shift globals cpu userdata vcpu.data callback
    | mem callback userdata cpu access =>
        exact congrArg Except.ok (mem shift globals cpu userdata access vcpu.data callback)
  simp only [invoke, entry, both]
  cases Blocks.effect globals vcpu.data invocation <;> rfl

/-! Calls through the pointers. -/

theorem output (vcpu : Fin n) (state : Trace n) :
    (trace shift state).output vcpu = (state.output vcpu).map (· + shift) := rfl

theorem call_output (vcpu : Fin n) (call : Call) (state : Trace n) :
    callOutput vcpu call (trace shift state) =
      (callOutput vcpu call state).map (action shift) := by
  unfold callOutput
  rw [output]
  cases state.output vcpu <;> rfl

theorem deliver (vcpu : Fin n) (calls : List Call) (state : Trace n) :
    System.deliver vcpu calls (trace shift state) =
      (System.deliver vcpu calls state).map (List.map (action shift)) := by
  unfold System.deliver
  rw [output]
  cases state.output vcpu with
  | none => cases calls <;> rfl
  | some writer =>
      refine congrArg Except.ok ?_
      rw [List.map_map]
      rfl

theorem set_vcpu (state : Trace n) (vcpu : Fin n) (kept : Vcpu) :
    System.setVcpu (trace shift state) vcpu (entry shift kept) =
      trace shift (System.setVcpu state vcpu kept) := by
  have threads : Function.update (fun vcpu => entry shift (state.threads vcpu)) vcpu (entry shift kept) =
      fun other => entry shift (Function.update state.threads vcpu kept other) := by
    funext other
    by_cases own : other = vcpu
    · subst own
      rw [Function.update_self, Function.update_self]
    · rw [Function.update_of_ne own, Function.update_of_ne own]
  exact congrArg (fun threads => { trace shift state with threads := threads }) threads

theorem callback (vcpu : Fin n) (state : Trace n) (kept : Vcpu) (calls : List Call) :
    System.callback vcpu (trace shift state) (entry shift kept) calls =
      outcome shift (System.callback vcpu state kept calls) := by
  unfold System.callback
  rw [deliver, set_vcpu]
  cases System.deliver vcpu calls state <;> rfl

theorem update (vcpu : Fin n) (state : Trace n) (result : Effect) :
    System.update vcpu (trace shift state) (effect shift result) =
      outcome shift (System.update vcpu state result) :=
  callback shift vcpu state ⟨result.1, (state.threads vcpu).blockCnt⟩ result.2

theorem flush_all (pageDirectory : UInt64) (state : Trace n) (vcpus : List (Fin n)) :
    System.flushAll pageDirectory (trace shift state) vcpus =
      (System.flushAll pageDirectory state vcpus).map (List.map (action shift)) := by
  induction vcpus with
  | nil => rfl
  | cons vcpu rest ih =>
      unfold System.flushAll
      rw [call_output, ih]
      cases callOutput vcpu (.flushICache pageDirectory) state with
      | error fault => rfl
      | ok flushed => cases System.flushAll pageDirectory state rest <;> rfl

/-! Commands and queued callbacks. -/

theorem do_mode_switch (request : Request) (cpuIndex : Fin n) (state : Trace n) :
    doModeSwitch request cpuIndex (trace shift state) =
      outcome shift (doModeSwitch request cpuIndex state) := by
  unfold doModeSwitch
  rw [call_output]
  cases callOutput cpuIndex (.magic request.simOpt) state <;> rfl

theorem assert_open (answers : Answers n) (state : Trace n) (vcpus : List (Fin n)) :
    assertOpen answers (trace shift state) vcpus =
      (assertOpen answers state vcpus).map (List.map (action shift)) := by
  induction vcpus with
  | nil => rfl
  | cons vcpu rest ih =>
      unfold assertOpen
      rw [call_output, ih]
      cases callOutput vcpu .isOpen state with
      | error fault => rfl
      | ok asked =>
          dsimp only [Except.map]
          split
          · cases assertOpen answers state rest <;> rfl
          · rfl

theorem open_actions (dir : String) (answers : Answers n) (vcpu : Fin n) (writer : Nat) :
    openActions dir answers vcpu (writer + shift) none =
      (openActions dir answers vcpu writer none).map (action shift) := by
  unfold openActions
  rw [List.map_append, List.map_append]
  cases answers.isOpen vcpu <;> rfl

theorem start_in (dir : String) (answers : Answers n) (state : Trace n) :
    startIn dir answers (trace shift state) =
      (trace shift (startIn dir answers state).1,
        (startIn dir answers state).2.map (action shift)) := by
  have numbered : ∀ vcpu : Fin n, state.nextWriter + shift + vcpu.val =
      state.nextWriter + vcpu.val + shift := fun vcpu => Nat.add_right_comm _ _ _
  have opened : (List.finRange n).flatMap (fun vcpu =>
      openActions dir answers vcpu (state.nextWriter + shift + vcpu.val) none) =
      ((List.finRange n).flatMap fun vcpu =>
        openActions dir answers vcpu (state.nextWriter + vcpu.val) none).map (action shift) := by
    rw [List.map_flatMap]
    refine List.flatMap_congr fun vcpu _ => ?_
    rw [numbered, open_actions]
  refine Prod.ext ?_ ?_
  · have next : state.nextWriter + shift + n = state.nextWriter + n + shift :=
      Nat.add_right_comm _ _ _
    simp only [startIn, openFiles, threadDataResetAll, Trace.beginRecording, Trace.setMode, trace,
      next, numbered]
    rfl
  · unfold startIn
    dsimp only
    rw [List.map_append, List.map_append, List.map_append, List.map_map]
    exact congrArg (fun opening => _ ++ opening ++ [.registerCallbacks, .tbFlush]) opened

theorem start (dir : Option String) (answers : Answers n) (state : Trace n) :
    recorderStart dir answers (trace shift state) =
      outcome shift (recorderStart dir answers state) := by
  unfold recorderStart
  rw [apply_ite (outcome shift)]
  refine if_congr Iff.rfl rfl ?_
  split <;> first | exact congrArg Except.ok (start_in shift _ answers state) | rfl

theorem gmm (vcpu : Fin n) (cmdStr : String) (segment arg1 : UInt64) (state : Trace n) :
    recorderGmm vcpu cmdStr segment arg1 (trace shift state) =
      outcome shift (recorderGmm vcpu cmdStr segment arg1 state) := by
  have send : ∀ call, (callOutput vcpu call (trace shift state)).map
        (fun sent => (trace shift state, [sent])) =
      outcome shift ((callOutput vcpu call state).map fun sent => (state, [sent])) := by
    intro call
    rw [call_output]
    cases callOutput vcpu call state <;> rfl
  unfold recorderGmm
  dsimp only
  simp only [send, apply_ite (outcome shift)]
  rfl

theorem mode (vcpu : Fin n) (modeStr : String) (answers : Answers n) (state : Trace n) :
    recorderMode vcpu modeStr answers (trace shift state) =
      outcome shift (recorderMode vcpu modeStr answers state) := by
  unfold recorderMode
  rw [apply_ite (outcome shift)]
  refine if_congr Iff.rfl rfl ?_
  cases requestOf modeStr with
  | none => rfl
  | some request =>
      dsimp only
      rw [apply_ite (outcome shift)]
      refine if_congr Iff.rfl rfl ?_
      cases request with
      | detailed =>
          dsimp only
          rw [assert_open]
          cases assertOpen answers state (List.finRange n) with
          | error fault => rfl
          | ok asked =>
              have switched := do_mode_switch shift .detailed vcpu (state.setRoi answers.pageDirectory)
              dsimp only [Except.map]
              rw [show (trace shift state).setRoi answers.pageDirectory =
                trace shift (state.setRoi answers.pageDirectory) from rfl, switched]
              cases doModeSwitch .detailed vcpu (state.setRoi answers.pageDirectory) with
              | error fault => rfl
              | ok done => simp [outcome, Except.map, action]
      | fastforward => rfl
      | cacheonly => rfl

theorem stop (vcpu : Fin n) (state : Trace n) :
    recorderStop vcpu (trace shift state) = outcome shift (recorderStop vcpu state) := by
  unfold recorderStop
  rw [apply_ite (outcome shift), call_output]
  refine if_congr Iff.rfl rfl ?_
  cases callOutput vcpu .end state <;> rfl

theorem reset (vcpu : Fin n) (answers : Answers n) (state : Trace n) :
    recorderReset vcpu answers (trace shift state) =
      outcome shift (recorderReset vcpu answers state) := by
  unfold recorderReset
  rw [apply_ite (outcome shift)]
  rfl

theorem stop_callback (state : Trace n) :
    stopCallback (trace shift state) =
      (trace shift (stopCallback state).1, (stopCallback state).2.map (action shift)) := by
  have closed : (List.finRange n).flatMap (Writers.stopActions (trace shift state)) =
      ((List.finRange n).flatMap (Writers.stopActions state)).map (action shift) := by
    rw [List.map_flatMap]
    refine List.flatMap_congr fun vcpu _ => ?_
    unfold Writers.stopActions
    rw [output, List.map_append, apply_ite (List.map (action shift))]
    cases state.output vcpu <;> rfl
  have printed : ((List.finRange n).take 1).flatMap (fun vcpu =>
      [Action.vcpuInfo vcpu "Hot blocks:", .hotBlocks vcpu (state.threads vcpu).blockCnt]) =
      (((List.finRange n).take 1).flatMap fun vcpu =>
        [Action.vcpuInfo vcpu "Hot blocks:",
          .hotBlocks vcpu (state.threads vcpu).blockCnt]).map (action shift) := by
    rw [List.map_flatMap]
    rfl
  have removed : state.traceFiles.map (Action.unlink : String → Action n) =
      (state.traceFiles.map .unlink).map (action shift) := by
    rw [List.map_map]
    rfl
  refine Prod.ext rfl ?_
  unfold stopCallback
  dsimp only
  rw [List.map_append, List.map_append, List.map_append, ← printed, ← removed]
  exact congrArg (fun closing => closing ++ _ ++ _ ++ _) closed

theorem run_deferred (queued : Deferred n) (state : Trace n) :
    runDeferred queued (trace shift state) = outcome shift (runDeferred queued state) := by
  cases queued with
  | modeSwitch request cpuIndex => exact do_mode_switch shift request cpuIndex state
  | reset cpuIndex => rfl
  | stop => exact congrArg Except.ok (stop_callback shift state)

theorem control (state : Trace n) (event : Control.Event n) :
    Control.step (trace shift state) event = outcome shift (Control.step state event) := by
  cases event with
  | command vcpu answers command =>
      cases command with
      | start dir => exact start shift dir answers state
      | mode modeStr => exact mode shift vcpu modeStr answers state
      | stop => exact stop shift vcpu state
      | reset => exact reset shift vcpu answers state
      | gmm cmdStr segment argument => exact gmm shift vcpu cmdStr segment argument state
      | magic address => rfl
  | deferred index =>
      have same : (trace shift state).pending = state.pending := rfl
      simp only [Control.step, same]
      cases state.pending[index]? with
      | none => rfl
      | some queued => exact run_deferred shift queued (state.dequeue index)

/-! The whole plugin. -/

theorem step (state : Trace n) (event : System.Event n) :
    System.step (trace shift state) event = outcome shift (System.step state event) := by
  cases event with
  | control event => exact control shift state event
  | invoke vcpu invocation =>
      have same : (trace shift state).globals = state.globals := rfl
      have own : (trace shift state).threads vcpu = entry shift (state.threads vcpu) := rfl
      simp only [System.step, same, own, invoked]
      cases invoke state.globals (state.threads vcpu) invocation with
      | error fault => rfl
      | ok done => exact callback shift vcpu state done.1 done.2
  | idle vcpu =>
      have idled : vcpuIdleCb state.globals (thread shift (state.threads vcpu).data) =
          effect shift (vcpuIdleCb state.globals (state.threads vcpu).data) := by
        unfold vcpuIdleCb
        dsimp only
        rw [apply_ite (effect shift)]
        rfl
      exact (congrArg (System.update vcpu (trace shift state)) idled).trans (update shift vcpu state _)
  | resume vcpu =>
      have resumed : vcpuResumeCb (thread shift (state.threads vcpu).data) =
          effect shift (vcpuResumeCb (state.threads vcpu).data) := by
        unfold vcpuResumeCb
        rw [apply_ite (effect shift)]
        rfl
      exact (congrArg (System.update vcpu (trace shift state)) resumed).trans
        (update shift vcpu state _)
  | interrupt vcpu =>
      exact update shift vcpu state (vcpuInterruptCb state.globals (state.threads vcpu).data)
  | interruptRet vcpu =>
      exact update shift vcpu state (vcpuInterruptRetCb state.globals (state.threads vcpu).data)
  | syscall vcpu num pageDirectory =>
      simp only [System.step, System.vcpuSyscallCb, apply_ite (outcome shift), flush_all]
      refine if_congr Iff.rfl rfl (if_congr Iff.rfl ?_ rfl)
      cases System.flushAll pageDirectory state (List.finRange n) <;> rfl

/-- Nothing the plugin does depends on where its writers lie. -/
theorem run_relocated (state : Trace n) (events : List (System.Event n)) :
    run System.step (trace shift state) events = outcome shift (run System.step state events) := by
  have seen : ∀ result : Outcome n, glimpse (trace shift) (some ∘ action shift) result =
      outcome shift result := by
    intro result
    simp only [glimpse, outcome, List.filterMap_eq_map]
  have whole := run_glimpse System.step System.step (trace shift) (some ∘ action shift)
    (fun event : System.Event n => [event]) (fun _ => True) (fun _ => True)
    (fun state event _ _ => by rw [seen, run_singleton, step]) (fun _ _ _ _ _ _ _ => trivial)
    state events trivial fun _ _ => trivial
  rw [List.flatMap_singleton', seen] at whole
  exact whole.symm

end Hypersh.Relocation
