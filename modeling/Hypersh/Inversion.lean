import Mathlib.Data.List.FinRange
import Hypersh.Transduction
import Hypersh.Callbacks
import Hypersh.Blocks
import Hypersh.Footprint
import Hypersh.Control
import Hypersh.Writers
import Hypersh.System

/-!
Everything a step of the plugin can be to the resources of a recording: its writers
and fifos, the mode and the rate of the machine. Most steps only call writers that
are there; the others are a mode switch, a start and the callback of a stop.
-/
namespace Hypersh.Inversion
open Callbacks Blocks Footprint Control Transduction
variable {n : Nat}

def plainCall : Call → Bool
  | .abort | .magic _ => false
  | _ => true

/-- An action that only prints or uses a writer its vcpu holds. -/
def Plain (trace : Trace n) : Action n → Prop
  | .call vcpu writer call => trace.output vcpu = some writer ∧ plainCall call = true
  | .info _ | .error _ | .vcpuInfo _ _ | .vcpuError _ _ | .hotBlocks _ _ => True
  | .newWriter _ _ _ _ | .deleteWriter _ _ | .mkfifo _ | .unlink _ | .setSlomoRate _
  | .registerCallbacks | .tbFlush => False

/-- The states agree on the resources of the recording. -/
structure Alike (before after : Trace n) : Prop where
  recording : after.recording = before.recording
  mode : after.globals.currentMode = before.globals.currentMode
  output : ∀ vcpu, after.output vcpu = before.output vcpu
  files : after.traceFiles = before.traceFiles
  counter : after.nextWriter = before.nextWriter

/-- The kinds of steps; `queued` says that a queued callback runs. -/
inductive Happened (queued : Bool) (before after : Trace n) (actions : List (Action n)) :
    Prop where
  | plain (alike : Alike before after) (plain : ∀ action ∈ actions, Plain before action)
  -- A switch by command is followed by a flush, one by callback has been preceded by it.
  | switched (request : Request) (vcpu : Fin n) (writer : Nat) (asked : List (Action n))
      (held : before.output vcpu = some writer) (alike : Alike (before.setMode request.mode) after)
      (plain : ∀ action ∈ asked, Plain before action)
      (said : actions = asked ++ [.call vcpu writer (.magic request.simOpt),
        .setSlomoRate request.slomoRate] ++ if queued then [] else [.tbFlush])
  | started (dir : String) (answers : Answers n) (now : queued = false)
      (idle : before.recording = false) (same : startIn dir answers before = (after, actions))
  | stopped (index : Nat) (later : queued = true)
      (same : stopCallback (before.dequeue index) = (after, actions))

def queued : System.Event n → Bool
  | .control (.deferred _) => true
  | _ => false

theorem alike_refl (trace : Trace n) : Alike trace trace :=
  ⟨rfl, rfl, fun _ => rfl, rfl, rfl⟩

theorem happened_nothing (late : Bool) (trace : Trace n) (actions : List (Action n))
    (plain : ∀ action ∈ actions, Plain trace action) : Happened late trace trace actions :=
  .plain (alike_refl trace) plain

theorem plain_nil (trace : Trace n) : ∀ action ∈ ([] : List (Action n)), Plain trace action :=
  fun _ absent => absurd absent List.not_mem_nil

theorem plain_single (trace : Trace n) (only : Action n) (plain : Plain trace only) :
    ∀ action ∈ [only], Plain trace action := by
  intro action member
  rw [List.mem_singleton.mp member]
  exact plain

theorem call_plain (vcpu : Fin n) (call : Call) (trace : Trace n) (action : Action n)
    (usual : plainCall call = true) (sent : callOutput vcpu call trace = .ok action) :
    Plain trace action := by
  obtain ⟨writer, held, rfl⟩ := System.call_output_sent vcpu call trace action sent
  exact ⟨held, usual⟩

theorem call_happened (vcpu : Fin n) (call : Call) (trace after next : Trace n)
    (actions : List (Action n)) (usual : plainCall call = true) (alike : Alike trace after)
    (done : ((callOutput vcpu call trace).map fun sent => (after, [sent])) = .ok (next, actions)) :
    Happened false trace next actions := by
  obtain ⟨action, sent, same⟩ := map_ok _ _ _ done
  obtain ⟨rfl, rfl⟩ := Prod.mk.inj same
  exact .plain alike (plain_single trace action (call_plain vcpu call trace action usual sent))

/-! Control commands. -/

theorem start_happened (dir : Option String) (answers : Answers n) (trace next : Trace n)
    (actions : List (Action n)) (taken : recorderStart dir answers trace = .ok (next, actions)) :
    Happened false trace next actions := by
  cases idle : trace.recording with
  | true =>
      obtain ⟨rfl, rfl⟩ := System.start_refused dir answers trace next actions idle taken
      exact happened_nothing _ next _ (plain_single next _ trivial)
  | false =>
      unfold recorderStart at taken
      rw [idle, if_neg Bool.false_ne_true] at taken
      split at taken
      · exact .started _ answers rfl idle (Except.ok.inj taken)
      · exact .started _ answers rfl idle (Except.ok.inj taken)
      · contradiction

theorem gmm_happened (vcpu : Fin n) (cmdStr : String) (segment arg1 : UInt64)
    (trace next : Trace n) (actions : List (Action n))
    (taken : recorderGmm vcpu cmdStr segment arg1 trace = .ok (next, actions)) :
    Happened false trace next actions := by
  have sent : ∀ call, plainCall call = true →
      ((callOutput vcpu call trace).map fun sent => (trace, [sent])) = .ok (next, actions) →
        Happened false trace next actions :=
    fun call usual done =>
      call_happened vcpu call trace trace next actions usual (alike_refl trace) done
  unfold recorderGmm at taken
  dsimp only at taken
  split_ifs at taken
  · exact sent _ rfl taken
  · exact sent _ rfl taken
  · exact sent _ rfl taken
  · exact sent _ rfl taken
  · cases taken
    exact happened_nothing _ trace _ (plain_nil trace)
  · exact sent _ rfl taken
  · cases taken
    exact happened_nothing _ trace _ (plain_nil trace)
  · cases taken
    exact happened_nothing _ trace _ (plain_single trace _ trivial)

theorem assert_open_plain (answers : Answers n) (trace : Trace n) (vcpus : List (Fin n))
    (actions : List (Action n)) (taken : assertOpen answers trace vcpus = .ok actions) :
    ∀ action ∈ actions, Plain trace action := by
  induction vcpus generalizing actions with
  | nil =>
      cases taken
      exact plain_nil trace
  | cons threadid rest ih =>
      obtain ⟨asked, later, called, tail, rfl⟩ :=
        Writers.assert_open_cases answers trace threadid rest actions taken
      rintro action (_ | ⟨_, member⟩)
      · exact call_plain threadid .isOpen trace asked rfl called
      · exact ih later tail action member

/-- What a mode switch does and says when it takes effect. -/
theorem switch_said (request : Request) (vcpu : Fin n) (trace next : Trace n)
    (actions : List (Action n)) (taken : doModeSwitch request vcpu trace = .ok (next, actions)) :
    ∃ writer, trace.output vcpu = some writer ∧ next = trace.setMode request.mode ∧
      actions = [.call vcpu writer (.magic request.simOpt), .setSlomoRate request.slomoRate] := by
  obtain ⟨sent, called, same⟩ := map_ok _ _ _ taken
  obtain ⟨rfl, rfl⟩ := Prod.mk.inj same
  obtain ⟨writer, held, rfl⟩ := System.call_output_sent vcpu _ trace sent called
  exact ⟨writer, held, rfl, rfl⟩

theorem mode_happened (vcpu : Fin n) (modeStr : String) (answers : Answers n)
    (trace next : Trace n) (actions : List (Action n))
    (taken : recorderMode vcpu modeStr answers trace = .ok (next, actions)) :
    Happened false trace next actions := by
  unfold recorderMode at taken
  split at taken
  · cases taken
    exact happened_nothing _ trace _ (plain_single trace _ trivial)
  · split at taken
    · cases taken
      exact happened_nothing _ trace _ (plain_single trace _ trivial)
    · split at taken
      · cases taken
        exact happened_nothing _ trace _ (plain_nil trace)
      · split at taken
        · split at taken
          · contradiction
          · rename_i asked opened
            obtain ⟨⟨reached, sent⟩, switched, same⟩ := map_ok _ _ _ taken
            obtain ⟨rfl, rfl⟩ := Prod.mk.inj same
            obtain ⟨writer, held, rfl, rfl⟩ :=
              switch_said .detailed vcpu _ reached sent switched
            refine .switched .detailed vcpu writer
              (asked ++ [.info ("CR3: " ++ hexText answers.pageDirectory)]) held
              ⟨rfl, rfl, fun _ => rfl, rfl, rfl⟩ ?_ rfl
            intro action member
            rcases List.mem_append.mp member with early | last
            · exact assert_open_plain answers trace _ asked opened action early
            · exact plain_single trace (.info _) trivial action last
        · cases taken
          exact .plain ⟨rfl, rfl, fun _ => rfl, rfl, rfl⟩ (plain_nil trace)

theorem deferred_happened (index : Nat) (callback : Deferred n) (trace next : Trace n)
    (actions : List (Action n))
    (taken : runDeferred callback (trace.dequeue index) = .ok (next, actions)) :
    Happened true trace next actions := by
  cases callback with
  | modeSwitch request vcpu =>
      obtain ⟨writer, held, rfl, rfl⟩ := switch_said request vcpu _ next actions taken
      exact .switched request vcpu writer [] held ⟨rfl, rfl, fun _ => rfl, rfl, rfl⟩
        (plain_nil trace) rfl
  | reset cpuIndex =>
      cases taken
      exact .plain ⟨rfl, rfl, fun _ => rfl, rfl, rfl⟩ (plain_nil trace)
  | stop => exact .stopped index rfl (Except.ok.inj taken)

theorem control_happened (event : Control.Event n) (trace next : Trace n)
    (actions : List (Action n)) (taken : Control.step trace event = .ok (next, actions)) :
    Happened (queued (.control event)) trace next actions := by
  cases event with
  | deferred index =>
      simp only [Control.step] at taken
      split at taken
      · cases taken
        exact happened_nothing _ trace _ (plain_nil trace)
      · exact deferred_happened index _ trace next actions taken
  | command vcpu answers command =>
      cases command with
      | start dir => exact start_happened dir answers trace next actions taken
      | mode modeStr => exact mode_happened vcpu modeStr answers trace next actions taken
      | gmm cmdStr segment arg1 =>
          exact gmm_happened vcpu cmdStr segment arg1 trace next actions taken
      | magic address =>
          cases taken
          exact .plain ⟨rfl, rfl, fun _ => rfl, rfl, rfl⟩ (plain_single trace _ trivial)
      | stop =>
          simp only [Control.step, perform, recorderStop] at taken
          split at taken
          · cases taken
            exact happened_nothing _ trace _ (plain_single trace _ trivial)
          · exact call_happened vcpu .end trace (trace.defer .stop) next actions rfl
              ⟨rfl, rfl, fun _ => rfl, rfl, rfl⟩ taken
      | reset =>
          simp only [Control.step, perform, recorderReset] at taken
          split at taken
          · cases taken
            exact happened_nothing _ trace _ (plain_single trace _ trivial)
          · cases taken
            exact .plain ⟨rfl, rfl, fun _ => rfl, rfl, rfl⟩ (plain_nil trace)

/-! Callbacks of the vcpus. -/

theorem exec_plain (callback : ExecCallback) (call : Call) (may : mayCall callback call = true) :
    plainCall call = true := by
  cases call with
  | abort => cases callback <;> contradiction
  | magic option => cases callback <;> contradiction
  | _ => rfl

theorem mem_plain (callback : MemCallback) (call : Call) (may : memMayCall callback call = true) :
    plainCall call = true := by
  cases call with
  | abort => cases callback <;> contradiction
  | magic option => cases callback <;> contradiction
  | _ => rfl

theorem effect_plain (globals : Globals) (thread : ThreadData) (invocation : Invocation)
    (result : Effect) (done : effect globals thread invocation = .ok result) :
    ∀ call ∈ result.2, plainCall call = true := by
  intro call member
  cases invocation with
  | exec called userdata cpu =>
      have may := exec_may_call globals cpu userdata thread called result done
      exact exec_plain called call (List.all_eq_true.mp may call member)
  | mem called userdata cpu access =>
      cases done
      have may := mem_may_call globals cpu userdata access thread called
      exact mem_plain called call (List.all_eq_true.mp may call member)

theorem deliver_plain (owner : Fin n) (calls : List Call) (trace : Trace n)
    (sent : List (Action n)) (usual : ∀ call ∈ calls, plainCall call = true)
    (delivered : System.deliver owner calls trace = .ok sent) :
    ∀ action ∈ sent, Plain trace action := by
  unfold System.deliver at delivered
  split at delivered
  · rename_i writer held
    cases delivered
    intro action member
    obtain ⟨call, from_, rfl⟩ := List.mem_map.mp member
    exact ⟨held, usual call from_⟩
  · cases delivered
    exact plain_nil trace
  · contradiction

def Quiet (before after : Trace n) (actions : List (Action n)) : Prop :=
  Alike before after ∧ ∀ action ∈ actions, Plain before action

theorem quiet_nothing (trace : Trace n) (actions : List (Action n))
    (plain : ∀ action ∈ actions, Plain trace action) : Quiet trace trace actions :=
  ⟨alike_refl trace, plain⟩

theorem callback_quiet (owner : Fin n) (trace next : Trace n) (entry : Vcpu)
    (calls : List Call) (actions : List (Action n))
    (kept : entry.data.output = (trace.threads owner).data.output)
    (usual : ∀ call ∈ calls, plainCall call = true)
    (taken : System.callback owner trace entry calls = .ok (next, actions)) :
    Quiet trace next actions := by
  obtain ⟨sent, delivered, same⟩ := map_ok _ _ _ taken
  obtain ⟨rfl, rfl⟩ := Prod.mk.inj same
  refine ⟨⟨rfl, rfl, ?_, rfl, rfl⟩, deliver_plain owner calls trace sent usual delivered⟩
  intro vcpu
  by_cases own : owner = vcpu
  · obtain rfl := own
    simp [Trace.output, System.setVcpu, kept]
  · simp [Trace.output, System.setVcpu, Function.update_of_ne (Ne.symm own)]

theorem flush_all_plain (pageDirectory : UInt64) (trace : Trace n) (vcpus : List (Fin n))
    (actions : List (Action n)) (taken : System.flushAll pageDirectory trace vcpus = .ok actions) :
    ∀ action ∈ actions, Plain trace action := by
  induction vcpus generalizing actions with
  | nil =>
      cases taken
      exact plain_nil trace
  | cons threadid rest ih =>
      obtain ⟨flushed, later, called, tail, rfl⟩ :=
        System.flush_all_cases pageDirectory trace threadid rest actions taken
      rintro action (_ | ⟨_, member⟩)
      · exact call_plain threadid _ trace flushed rfl called
      · exact ih later tail action member

theorem syscall_quiet (num : Int) (pageDirectory : UInt64) (trace next : Trace n)
    (actions : List (Action n))
    (taken : System.vcpuSyscallCb num pageDirectory trace = .ok (next, actions)) :
    Quiet trace next actions := by
  unfold System.vcpuSyscallCb at taken
  split at taken
  · cases taken
    exact quiet_nothing trace _ (plain_nil trace)
  · split at taken
    · obtain ⟨flushed, all, same⟩ := map_ok _ _ _ taken
      obtain ⟨rfl, rfl⟩ := Prod.mk.inj same
      exact quiet_nothing trace _ (flush_all_plain pageDirectory trace _ flushed all)
    · cases taken
      exact quiet_nothing trace _ (plain_nil trace)

theorem outside_quiet (owner : Fin n) (trace next : Trace n) (effect : Effect)
    (actions : List (Action n)) (kept : effect.1.output = (trace.threads owner).data.output)
    (usual : effect.2.all plainCall = true)
    (taken : System.update owner trace effect = .ok (next, actions)) :
    Quiet trace next actions :=
  callback_quiet owner trace next _ _ actions kept (List.all_eq_true.mp usual) taken

theorem guest_quiet (event : System.Event n) (trace next : Trace n) (actions : List (Action n))
    (guest : ∀ control, event ≠ .control control)
    (taken : System.step trace event = .ok (next, actions)) : Quiet trace next actions := by
  cases event with
  | control event => exact absurd rfl (guest event)
  | invoke owner invocation =>
      obtain ⟨entry, calls, ran, called⟩ :=
        System.invoke_cases owner trace next invocation actions taken
      have done := invoke_effect _ _ _ _ _ ran
      exact callback_quiet owner trace next entry calls actions
        (System.effect_output _ _ invocation _ done) (effect_plain _ _ invocation _ done) called
  | idle owner =>
      apply outside_quiet owner trace next _ actions _ _ taken
      · unfold vcpuIdleCb
        dsimp only
        split <;> rfl
      · unfold vcpuIdleCb
        dsimp only
        split_ifs <;> rfl
  | resume owner =>
      apply outside_quiet owner trace next _ actions _ _ taken
      · unfold vcpuResumeCb
        split <;> rfl
      · unfold vcpuResumeCb
        split <;> rfl
  | interrupt owner =>
      apply outside_quiet owner trace next _ actions rfl _ taken
      unfold vcpuInterruptCb
      split <;> rfl
  | interruptRet owner =>
      apply outside_quiet owner trace next _ actions rfl _ taken
      unfold vcpuInterruptRetCb
      split <;> rfl
  | syscall owner num pageDirectory =>
      exact syscall_quiet num pageDirectory trace next actions taken

theorem step_happened (event : System.Event n) (trace next : Trace n) (actions : List (Action n))
    (taken : System.step trace event = .ok (next, actions)) :
    Happened (queued event) trace next actions := by
  by_cases control : ∃ command, event = .control command
  · obtain ⟨command, rfl⟩ := control
    exact control_happened command trace next actions taken
  · obtain ⟨alike, plain⟩ := guest_quiet event trace next actions
      (fun command same => control ⟨command, same⟩) taken
    exact .plain alike plain

end Hypersh.Inversion
