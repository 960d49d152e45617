import Mathlib.Data.List.FinRange
import Hypersh.Transduction
import Hypersh.Callbacks
import Hypersh.Blocks
import Hypersh.Footprint
import Hypersh.Timeline
import Hypersh.Control
import Hypersh.Writers

/-!
The whole plugin: control commands, queued callbacks and the callbacks of every
vcpu, in any order. Seen from one vcpu each of its steps is a run of that vcpu's
timeline.
-/
namespace Hypersh.System
open Callbacks Blocks Footprint Control Transduction
open Writers (stopActions)
variable {n : Nat}

inductive Event (n : Nat) where
  | control (event : Control.Event n)
  | invoke (vcpu : Fin n) (invocation : Invocation)
  | idle (vcpu : Fin n)
  | resume (vcpu : Fin n)
  | interrupt (vcpu : Fin n)
  | interruptRet (vcpu : Fin n)
  | syscall (vcpu : Fin n) (num : Int) (pageDirectory : UInt64)

/-- A callback's calls through its vcpu's `output` pointer. -/
def deliver (vcpu : Fin n) (calls : List Call) (trace : Trace n) :
    Except Fault (List (Action n)) :=
  -- A callback that makes no call never uses the pointer.
  match calls, trace.output vcpu with
  | calls, some writer => .ok (calls.map (Action.call vcpu writer))
  | [], none => .ok []
  | _ :: _, none => .error .nullOutput

def setVcpu (trace : Trace n) (vcpu : Fin n) (entry : Vcpu) : Trace n :=
  { trace with threads := Function.update trace.threads vcpu entry }

def callback (vcpu : Fin n) (trace : Trace n) (entry : Vcpu) (calls : List Call) : Outcome n :=
  (deliver vcpu calls trace).map fun sent => (setVcpu trace vcpu entry, sent)

def update (vcpu : Fin n) (trace : Trace n) (effect : Effect) : Outcome n :=
  callback vcpu trace { trace.threads vcpu with data := effect.1 } effect.2

def flushAll (pageDirectory : UInt64) (trace : Trace n) :
    List (Fin n) → Except Fault (List (Action n))
  | [] => .ok []
  | threadid :: rest =>
      match callOutput threadid (.flushICache pageDirectory) trace with
      | .error fault => .error fault
      | .ok flushed => (flushAll pageDirectory trace rest).map (flushed :: ·)

def syscallIsExec (num : Int) : Bool := num == 59 || num == 322

/-- `vcpu_syscall_cb` of host/trace/callbacks.cc. -/
def vcpuSyscallCb (num : Int) (pageDirectory : UInt64) (trace : Trace n) : Outcome n :=
  if trace.globals.currentMode ≠ .detailed then .ok (trace, [])
  else if syscallIsExec num then
    (flushAll pageDirectory trace (List.finRange n)).map fun flushed => (trace, flushed)
  else .ok (trace, [])

def step : Step (Trace n) (Event n) (Action n) Fault :=
  fun trace event =>
    match event with
    | .control event => Control.step trace event
    | .invoke vcpu invocation =>
        match invoke trace.globals (trace.threads vcpu) invocation with
        | .error fault => .error fault
        | .ok (entry, calls) => callback vcpu trace entry calls
    | .idle vcpu => update vcpu trace (vcpuIdleCb trace.globals (trace.threads vcpu).data)
    | .resume vcpu => update vcpu trace (vcpuResumeCb (trace.threads vcpu).data)
    | .interrupt vcpu =>
        update vcpu trace (vcpuInterruptCb trace.globals (trace.threads vcpu).data)
    | .interruptRet vcpu =>
        update vcpu trace (vcpuInterruptRetCb trace.globals (trace.threads vcpu).data)
    | .syscall _ num pageDirectory => vcpuSyscallCb num pageDirectory trace

def Event.begins (trace : Trace n) : Event n → Bool
  | .control event => event.begins trace
  | _ => false

/-! One vcpu's view. -/

def view (vcpu : Fin n) (trace : Trace n) : Timeline.Entry := ⟨trace.globals, trace.threads vcpu⟩

def seen (vcpu : Fin n) : Action n → Option Call
  | .call owner _ call => if owner = vcpu then some call else none
  | _ => none

/-- The calls on the vcpu's stream. -/
def written (vcpu : Fin n) (actions : List (Action n)) : List Call := actions.filterMap (seen vcpu)

def Projects (vcpu : Fin n) (before after : Trace n) (actions : List (Action n)) : Prop :=
  ∃ events, run Timeline.step (view vcpu before) events =
    .ok (view vcpu after, actions.filterMap (seen vcpu))

def Continues (vcpu : Fin n) (before after : Trace n) (actions : List (Action n)) : Prop :=
  ∃ events, (∀ event ∈ events, event.isStart = false) ∧
    run Timeline.step (view vcpu before) events =
      .ok (view vcpu after, actions.filterMap (seen vcpu))

/-- What commands and system calls are to any vcpu: changes of the globals and calls on
its writer that leave its entry alone. -/
def commanded : Timeline.Event → Bool
  | .between (.mode _) | .between (.roi _) | .between (.magic _) | .between (.notice _) => true
  | _ => false

def Commanded (vcpu : Fin n) (before after : Trace n) (actions : List (Action n)) : Prop :=
  ∃ events, (∀ event ∈ events, commanded event = true) ∧
    run Timeline.step (view vcpu before) events =
      .ok (view vcpu after, actions.filterMap (seen vcpu))

theorem commanded_silent (vcpu : Fin n) (before after : Trace n) (actions : List (Action n))
    (same : view vcpu after = view vcpu before) (quiet : actions.filterMap (seen vcpu) = []) :
    Commanded vcpu before after actions := by
  rw [Commanded, same, quiet]
  exact ⟨[], fun _ absent => absurd absent List.not_mem_nil, rfl⟩

theorem commanded_between (vcpu : Fin n) (before after : Trace n) (actions : List (Action n))
    (happened : Timeline.Between) (command : commanded (.between happened) = true)
    (here : Timeline.between (view vcpu before) happened =
      (view vcpu after, actions.filterMap (seen vcpu))) : Commanded vcpu before after actions := by
  refine ⟨[.between happened], fun event member => List.mem_singleton.mp member ▸ command, ?_⟩
  rw [run_singleton, ← here]
  rfl

theorem commanded_append (vcpu : Fin n) (before middle after : Trace n)
    (early late : List (Action n)) (first : Commanded vcpu before middle early)
    (second : Commanded vcpu middle after late) : Commanded vcpu before after (early ++ late) := by
  rcases first with ⟨front, before, ran⟩
  rcases second with ⟨back, after, went⟩
  refine ⟨front ++ back, List.forall_mem_append.mpr ⟨before, after⟩, ?_⟩
  rw [List.filterMap_append]
  exact run_append_ok _ _ _ _ _ _ _ _ ran went

theorem call_output_sent (vcpu : Fin n) (call : Call) (trace : Trace n) (action : Action n)
    (sent : callOutput vcpu call trace = .ok action) :
    ∃ writer, trace.output vcpu = some writer ∧ action = .call vcpu writer call := by
  unfold callOutput at sent
  split at sent
  · contradiction
  · rename_i writer present
    exact ⟨writer, present, (Except.ok.inj sent).symm⟩

theorem commanded_call (vcpu owner : Fin n) (notice : Timeline.Notice) (trace : Trace n)
    (action : Action n) (sent : callOutput owner notice.call trace = .ok action) :
    Commanded vcpu trace trace [action] := by
  rcases call_output_sent owner notice.call trace action sent with ⟨writer, -, rfl⟩
  by_cases own : owner = vcpu
  · apply commanded_between vcpu trace trace _ (.notice notice) rfl
    simp [seen, own, Timeline.between]
  · apply commanded_silent vcpu trace trace _ rfl
    simp [seen, own]

theorem own_actions {Seen : Type} (actions : Fin n → List (Action n))
    (pick : Action n → Option Seen) (own : Fin n)
    (others : ∀ other, other ≠ own → (actions other).filterMap pick = []) :
    ((List.finRange n).flatMap actions).filterMap pick = (actions own).filterMap pick := by
  have single : ∀ vcpus : List (Fin n), vcpus.Nodup → own ∈ vcpus →
      vcpus.flatMap (fun vcpu => (actions vcpu).filterMap pick) = (actions own).filterMap pick := by
    intro vcpus
    induction vcpus with
    | nil => exact fun _ member => absurd member List.not_mem_nil
    | cons first rest ih =>
        intro distinct member
        rcases List.nodup_cons.mp distinct with ⟨absent, later⟩
        rw [List.flatMap_cons]
        rcases List.mem_cons.mp member with rfl | member
        · have silent : rest.flatMap (fun vcpu => (actions vcpu).filterMap pick) = [] := by
            rw [List.flatMap_eq_nil_iff]
            intro vcpu member
            exact others vcpu fun same => absent (same ▸ member)
          rw [silent, List.append_nil]
        · rw [others first fun same => absent (same ▸ member), ih later member, List.nil_append]
  rw [List.filterMap_flatMap]
  exact single _ (List.nodup_finRange n) (List.mem_finRange own)

/-! Control commands, one after the other. -/

theorem silent_map {Item : Type} (vcpu : Fin n) (action : Item → Action n) (items : List Item)
    (silent : ∀ item, seen vcpu (action item) = none) :
    (items.map action).filterMap (seen vcpu) = [] := by
  rw [List.filterMap_map, List.filterMap_eq_nil_iff]
  exact fun item _ => silent item

theorem open_actions_seen (vcpu : Fin n) (dir : String) (answers : Answers n)
    (threadid : Fin n) (writer : Nat) :
    (openActions dir answers threadid writer none).filterMap (seen vcpu) =
      if threadid = vcpu then [.isOpen] else [] := by
  unfold openActions
  by_cases own : threadid = vcpu
  · split <;> simp [closeActions, seen, own, List.filterMap_cons]
  · split <;> simp [closeActions, seen, own]

theorem start_in_seen (vcpu : Fin n) (dir : String) (answers : Answers n) (trace : Trace n) :
    (startIn dir answers trace).2.filterMap (seen vcpu) = [.isOpen] := by
  have opened := own_actions (fun threadid =>
    openActions dir answers threadid (trace.nextWriter + threadid.val) none) (seen vcpu) vcpu
    fun other apart => by rw [open_actions_seen, if_neg apart]
  rw [open_actions_seen, if_pos rfl] at opened
  have files := silent_map vcpu Action.mkfifo
    ((List.finRange n).flatMap fun threadid => [siftName dir threadid, responseName dir threadid])
    fun _ => rfl
  unfold startIn
  dsimp only
  rw [List.filterMap_append, List.filterMap_append, List.filterMap_append, files]
  exact congrArg (· ++ []) opened

theorem start_timeline (vcpu : Fin n) (dir : Option String) (answers : Answers n)
    (trace next : Trace n) (actions : List (Action n)) (idle : trace.recording = false)
    (taken : recorderStart dir answers trace = .ok (next, actions)) :
    run Timeline.step (view vcpu trace)
        [.between (.start (UInt64.ofNat vcpu.val) (trace.nextWriter + vcpu.val))] =
      .ok (view vcpu next, actions.filterMap (seen vcpu)) := by
  have started : ∀ path, run Timeline.step (view vcpu trace)
        [.between (.start (UInt64.ofNat vcpu.val) (trace.nextWriter + vcpu.val))] =
      .ok (view vcpu (startIn path answers trace).1,
        (startIn path answers trace).2.filterMap (seen vcpu)) := by
    intro path
    rw [run_singleton, start_in_seen]
    rfl
  unfold recorderStart at taken
  rw [idle, if_neg Bool.false_ne_true] at taken
  split at taken
  · cases taken
    exact started _
  · cases taken
    exact started _
  · contradiction

theorem start_refused (dir : Option String) (answers : Answers n) (trace next : Trace n)
    (actions : List (Action n)) (busy : trace.recording = true)
    (taken : recorderStart dir answers trace = .ok (next, actions)) :
    next = trace ∧ actions = [.error "already recording."] := by
  unfold recorderStart at taken
  rw [if_pos busy] at taken
  cases taken
  exact ⟨rfl, rfl⟩

theorem switch_commanded (vcpu cpuIndex : Fin n) (request : Request) (trace next : Trace n)
    (actions : List (Action n))
    (taken : doModeSwitch request cpuIndex trace = .ok (next, actions)) :
    Commanded vcpu trace next actions := by
  rcases map_ok _ _ _ taken with ⟨sent, called, same⟩
  rcases Prod.mk.inj same with ⟨rfl, rfl⟩
  apply commanded_append vcpu trace trace _ [sent] [.setSlomoRate request.slomoRate]
  · exact commanded_call vcpu cpuIndex (.magic request.simOpt) trace sent called
  · exact commanded_between vcpu trace _ _ (.mode request.mode) rfl rfl

theorem roi_commanded (vcpu : Fin n) (trace : Trace n) (pageDirectory : UInt64) :
    Commanded vcpu trace (trace.setRoi pageDirectory) [] :=
  commanded_between vcpu trace _ [] (.roi pageDirectory) rfl rfl

theorem assert_open_commanded (vcpu : Fin n) (answers : Answers n) (trace : Trace n)
    (vcpus : List (Fin n)) (actions : List (Action n))
    (taken : assertOpen answers trace vcpus = .ok actions) : Commanded vcpu trace trace actions := by
  induction vcpus generalizing actions with
  | nil =>
      cases taken
      exact commanded_silent vcpu trace trace [] rfl rfl
  | cons threadid rest ih =>
      obtain ⟨asked, later, called, tail, rfl⟩ :=
        Writers.assert_open_cases answers trace threadid rest actions taken
      exact commanded_append vcpu trace trace trace [asked] later
        (commanded_call vcpu threadid .isOpen trace asked called) (ih later tail)

theorem mode_commanded (vcpu issuer : Fin n) (modeStr : String) (answers : Answers n)
    (trace next : Trace n) (actions : List (Action n))
    (taken : recorderMode issuer modeStr answers trace = .ok (next, actions)) :
    Commanded vcpu trace next actions := by
  unfold recorderMode at taken
  split at taken
  · cases taken
    exact commanded_silent vcpu trace trace _ rfl rfl
  · split at taken
    · cases taken
      exact commanded_silent vcpu trace trace _ rfl rfl
    · split at taken
      · cases taken
        exact commanded_silent vcpu trace trace _ rfl rfl
      · split at taken
        · split at taken
          · contradiction
          · rename_i asked opened
            rcases map_ok _ _ _ taken with ⟨⟨reached, sent⟩, switched, same⟩
            rcases Prod.mk.inj same with ⟨rfl, rfl⟩
            -- The assertions and the region of interest come before the switch.
            have switching := switch_commanded vcpu issuer .detailed _ reached sent switched
            have flushed := commanded_append vcpu _ _ reached sent [.tbFlush] switching
              (commanded_silent vcpu reached reached [.tbFlush] rfl rfl)
            have announced := commanded_append vcpu _ _ reached
              [.info ("CR3: " ++ hexText answers.pageDirectory)] _
              (commanded_between vcpu trace _ _ (.roi answers.pageDirectory) rfl rfl) flushed
            have whole := commanded_append vcpu trace trace reached asked _
              (assert_open_commanded vcpu answers trace _ asked opened) announced
            simpa only [List.append_assoc] using whole
        · cases taken
          exact roi_commanded vcpu trace answers.pageDirectory

theorem gmm_commanded (vcpu issuer : Fin n) (cmdStr : String) (segment arg1 : UInt64)
    (trace next : Trace n) (actions : List (Action n))
    (taken : recorderGmm issuer cmdStr segment arg1 trace = .ok (next, actions)) :
    Commanded vcpu trace next actions := by
  have sent : ∀ notice : Timeline.Notice,
      ((callOutput issuer notice.call trace).map fun sent => (trace, [sent])) =
        .ok (next, actions) → Commanded vcpu trace next actions := by
    intro notice called
    rcases map_ok _ _ _ called with ⟨action, done, same⟩
    rcases Prod.mk.inj same with ⟨rfl, rfl⟩
    exact commanded_call vcpu issuer notice trace action done
  have quiet : ∀ said : List (Action n), said.filterMap (seen vcpu) = [] →
      (Except.ok (trace, said) : Outcome n) = .ok (next, actions) →
      Commanded vcpu trace next actions := by
    intro said silent same
    rcases Prod.mk.inj (Except.ok.inj same) with ⟨rfl, rfl⟩
    exact commanded_silent vcpu trace trace said rfl silent
  unfold recorderGmm at taken
  dsimp only at taken
  split_ifs at taken
  · exact sent (.gmmCommand 0 segment arg1) taken
  · exact sent (.gmmCommand 1 segment arg1) taken
  · exact sent (.gmmCommand 2 segment arg1) taken
  · exact sent (.sendGMMUserMessage 10 segment arg1) taken
  · exact quiet _ rfl taken
  · exact sent (.sendGMMUserMessage 35 0 0) taken
  · exact quiet _ rfl taken
  · exact quiet _ rfl taken

theorem stop_commanded (vcpu issuer : Fin n) (trace next : Trace n) (actions : List (Action n))
    (taken : recorderStop issuer trace = .ok (next, actions)) :
    Commanded vcpu trace next actions := by
  unfold recorderStop at taken
  split at taken
  · cases taken
    exact commanded_silent vcpu trace trace _ rfl rfl
  · rcases map_ok _ _ _ taken with ⟨action, done, same⟩
    rcases Prod.mk.inj same with ⟨rfl, rfl⟩
    exact commanded_append vcpu trace trace _ [action] []
      (commanded_call vcpu issuer .end trace action done) (commanded_silent vcpu _ _ [] rfl rfl)

theorem reset_commanded (vcpu issuer : Fin n) (answers : Answers n) (trace next : Trace n)
    (actions : List (Action n))
    (taken : recorderReset issuer answers trace = .ok (next, actions)) :
    Commanded vcpu trace next actions := by
  unfold recorderReset at taken
  split at taken
  · cases taken
    exact commanded_silent vcpu trace trace _ rfl rfl
  · cases taken
    exact roi_commanded vcpu trace answers.pageDirectory

theorem stop_actions_seen (vcpu threadid : Fin n) (trace : Trace n) :
    (stopActions trace threadid).filterMap (seen vcpu) =
      if threadid = vcpu then (closeFile (trace.threads threadid).data).2 else [] := by
  have printed : (if trace.globals.currentMode = .detailed then
      [Action.vcpuInfo threadid (statistics (trace.threads threadid).data)]
      else []).filterMap (seen vcpu) = [] := by
    split
    · rfl
    · rfl
  unfold stopActions
  rw [List.filterMap_append, printed, List.append_nil]
  unfold Trace.output closeFile
  cases (trace.threads threadid).data.output with
  | none => split <;> rfl
  | some writer =>
      by_cases own : threadid = vcpu
      · simp [closeActions, seen, own, List.filterMap_cons]
      · simp [closeActions, seen, own]

theorem stop_callback_seen (vcpu : Fin n) (trace : Trace n) :
    (stopCallback trace).2.filterMap (seen vcpu) = (closeFile (trace.threads vcpu).data).2 := by
  have closing := own_actions (stopActions trace) (seen vcpu) vcpu fun other apart => by
    rw [stop_actions_seen, if_neg apart]
  rw [stop_actions_seen, if_pos rfl] at closing
  rw [Writers.stop_callback_closing (seen vcpu) trace (fun _ => rfl) rfl (fun _ => rfl)
    (fun _ _ => rfl) (fun _ _ => rfl)]
  exact closing

theorem stop_callback_timeline (vcpu : Fin n) (trace : Trace n) :
    run Timeline.step (view vcpu trace) [.between .closed] =
      .ok (view vcpu (stopCallback trace).1,
        (stopCallback trace).2.filterMap (seen vcpu)) := by
  rw [run_singleton, stop_callback_seen]
  rfl

/-! Callbacks of the vcpus. -/

theorem deliver_seen (vcpu owner : Fin n) (calls : List Call) (trace : Trace n)
    (sent : List (Action n)) (delivered : deliver owner calls trace = .ok sent) :
    sent.filterMap (seen vcpu) = if owner = vcpu then calls else [] := by
  cases present : trace.output owner with
  | none =>
      cases calls with
      | nil =>
          simp only [deliver, present, Except.ok.injEq] at delivered
          rw [← delivered]
          split <;> rfl
      | cons call rest => simp [deliver, present] at delivered
  | some writer =>
      have whole : calls.map (Action.call owner writer) = sent := by
        simpa [deliver, present] using delivered
      rw [← whole]
      by_cases own : owner = vcpu
      · have all : seen vcpu ∘ Action.call owner writer = some := by
          funext call
          exact if_pos own
        rw [if_pos own, List.filterMap_map, all, List.filterMap_some]
      · rw [if_neg own]
        exact silent_map vcpu _ calls fun call => if_neg own

theorem view_own (owner : Fin n) (trace : Trace n) (entry : Vcpu) :
    view owner (setVcpu trace owner entry) = ⟨trace.globals, entry⟩ := by
  simp [view, setVcpu]

theorem view_other (vcpu owner : Fin n) (trace : Trace n) (entry : Vcpu) (apart : owner ≠ vcpu) :
    view vcpu (setVcpu trace owner entry) = view vcpu trace := by
  simp [view, setVcpu, Function.update_of_ne (Ne.symm apart)]

/-- A callback is seen by its own vcpu and by no other. -/
theorem callback_timeline (vcpu owner : Fin n) (trace next : Trace n) (entry : Vcpu)
    (calls : List Call) (actions : List (Action n)) (event : Timeline.Event)
    (here : Timeline.step (view owner trace) event = .ok (⟨trace.globals, entry⟩, calls))
    (taken : callback owner trace entry calls = .ok (next, actions)) :
    run Timeline.step (view vcpu trace) (if owner = vcpu then [event] else []) =
      .ok (view vcpu next, actions.filterMap (seen vcpu)) := by
  rcases map_ok _ _ _ taken with ⟨sent, delivered, same⟩
  rcases Prod.mk.inj same with ⟨rfl, rfl⟩
  rw [deliver_seen vcpu owner calls trace sent delivered]
  -- The entry and the writer are both the owner's.
  by_cases own : owner = vcpu
  · rcases own with rfl
    rw [if_pos rfl, if_pos rfl, run_singleton, here, view_own]
  · rw [if_neg own, if_neg own, view_other vcpu owner trace entry own]
    rfl

theorem update_timeline (vcpu owner : Fin n) (trace next : Trace n) (effect : Effect)
    (actions : List (Action n)) (happened : Timeline.Between)
    (here : Timeline.between (view owner trace) happened = (view owner trace).update effect)
    (taken : update owner trace effect = .ok (next, actions)) :
    run Timeline.step (view vcpu trace)
        (if owner = vcpu then [.between happened] else []) =
      .ok (view vcpu next, actions.filterMap (seen vcpu)) :=
  callback_timeline vcpu owner trace next _ _ actions (.between happened) (congrArg Except.ok here)
    taken

theorem flush_all_cases (pageDirectory : UInt64) (trace : Trace n) (threadid : Fin n)
    (rest : List (Fin n)) (actions : List (Action n))
    (taken : flushAll pageDirectory trace (threadid :: rest) = .ok actions) :
    ∃ flushed later, callOutput threadid (.flushICache pageDirectory) trace = .ok flushed ∧
      flushAll pageDirectory trace rest = .ok later ∧ actions = flushed :: later := by
  unfold flushAll at taken
  split at taken
  · contradiction
  · rename_i flushed called
    obtain ⟨later, tail, rfl⟩ := map_ok _ _ _ taken
    exact ⟨flushed, later, called, tail, rfl⟩

theorem flush_all_commanded (vcpu : Fin n) (pageDirectory : UInt64) (trace : Trace n)
    (vcpus : List (Fin n)) (actions : List (Action n))
    (taken : flushAll pageDirectory trace vcpus = .ok actions) :
    Commanded vcpu trace trace actions := by
  induction vcpus generalizing actions with
  | nil =>
      cases taken
      exact commanded_silent vcpu trace trace [] rfl rfl
  | cons threadid rest ih =>
      obtain ⟨flushed, later, called, tail, rfl⟩ :=
        flush_all_cases pageDirectory trace threadid rest actions taken
      exact commanded_append vcpu trace trace trace [flushed] later
        (commanded_call vcpu threadid (.flushICache pageDirectory) trace flushed called)
        (ih later tail)

theorem syscall_commanded (vcpu : Fin n) (num : Int) (pageDirectory : UInt64)
    (trace next : Trace n) (actions : List (Action n))
    (taken : vcpuSyscallCb num pageDirectory trace = .ok (next, actions)) :
    Commanded vcpu trace next actions := by
  unfold vcpuSyscallCb at taken
  split at taken
  · cases taken
    exact commanded_silent vcpu trace trace [] rfl rfl
  · split at taken
    · rcases map_ok _ _ _ taken with ⟨flushed, all, same⟩
      rcases Prod.mk.inj same with ⟨rfl, rfl⟩
      exact flush_all_commanded vcpu pageDirectory trace _ flushed all
    · cases taken
      exact commanded_silent vcpu trace trace [] rfl rfl

/-! Everything a step is to one vcpu. -/

def DeferredBecomes (callback : Option (Deferred n)) (events : List Timeline.Event) : Prop :=
  match callback with
  | some (.reset _) => events = [.between .reset]
  | some .stop => events = [.between .closed]
  | _ => ∀ happened ∈ events, commanded happened = true

/-- The timeline events that stand for an event of the plugin: the callbacks of the
vcpu itself, what a start and the callbacks of a reset and a stop do to every entry,
and otherwise commands. -/
def Becomes (vcpu : Fin n) (trace : Trace n) (event : Event n) (events : List Timeline.Event) :
    Prop :=
  match event with
  | .invoke owner invocation => events = if owner = vcpu then [.invoke invocation] else []
  | .idle owner => events = if owner = vcpu then [.between .idle] else []
  | .resume owner => events = if owner = vcpu then [.between .resume] else []
  | .interrupt owner => events = if owner = vcpu then [.between .interrupt] else []
  | .interruptRet owner => events = if owner = vcpu then [.between .interruptRet] else []
  | .syscall _ _ _ => ∀ happened ∈ events, commanded happened = true
  | .control (.command _ _ (.start _)) => events =
      if trace.recording then []
      else [.between (.start (UInt64.ofNat vcpu.val) (trace.nextWriter + vcpu.val))]
  | .control (.command _ _ _) => ∀ happened ∈ events, commanded happened = true
  | .control (.deferred index) => DeferredBecomes trace.pending[index]? events

theorem control_becomes (vcpu : Fin n) (event : Control.Event n) (trace next : Trace n)
    (actions : List (Action n)) (taken : Control.step trace event = .ok (next, actions)) :
    ∃ events, Becomes vcpu trace (.control event) events ∧
      run Timeline.step (view vcpu trace) events =
        .ok (view vcpu next, actions.filterMap (seen vcpu)) := by
  cases event with
  | command issuer answers command =>
      cases command with
      | start dir =>
          refine ⟨_, rfl, ?_⟩
          cases flag : trace.recording with
          | false => exact start_timeline vcpu dir answers trace next actions flag taken
          | true =>
              obtain ⟨rfl, rfl⟩ := start_refused dir answers trace next actions flag taken
              rfl
      | mode modeStr => exact mode_commanded vcpu issuer modeStr answers trace next actions taken
      | stop => exact stop_commanded vcpu issuer trace next actions taken
      | reset => exact reset_commanded vcpu issuer answers trace next actions taken
      | gmm cmdStr segment arg1 =>
          exact gmm_commanded vcpu issuer cmdStr segment arg1 trace next actions taken
      | magic address =>
          cases taken
          exact commanded_between vcpu trace _ _ (.magic address) rfl rfl
  | deferred index =>
      have becomes : ∀ callback : Option (Deferred n), trace.pending[index]? = callback →
          ∃ events, DeferredBecomes callback events ∧
            run Timeline.step (view vcpu trace) events =
              .ok (view vcpu next, actions.filterMap (seen vcpu)) := by
        rintro callback present
        simp only [Control.step, present] at taken
        cases callback with
        | none =>
            cases taken
            exact commanded_silent vcpu trace trace [] rfl rfl
        | some callback =>
            cases callback with
            | modeSwitch request cpuIndex =>
                exact switch_commanded vcpu cpuIndex request (trace.dequeue index) next actions taken
            | reset cpuIndex =>
                cases taken
                exact ⟨_, rfl, run_singleton _ _ _⟩
            | stop =>
                cases taken
                exact ⟨_, rfl, stop_callback_timeline vcpu (trace.dequeue index)⟩
      exact becomes _ rfl

theorem invoke_cases (owner : Fin n) (trace next : Trace n) (invocation : Invocation)
    (actions : List (Action n))
    (taken : step trace (.invoke owner invocation) = .ok (next, actions)) :
    ∃ entry calls, invoke trace.globals (trace.threads owner) invocation = .ok (entry, calls) ∧
      callback owner trace entry calls = .ok (next, actions) := by
  simp only [step] at taken
  split at taken
  · contradiction
  · rename_i entry calls ran
    exact ⟨entry, calls, ran, taken⟩

theorem step_becomes (vcpu : Fin n) (trace next : Trace n) (event : Event n)
    (actions : List (Action n)) (taken : step trace event = .ok (next, actions)) :
    ∃ events, Becomes vcpu trace event events ∧
      run Timeline.step (view vcpu trace) events =
        .ok (view vcpu next, actions.filterMap (seen vcpu)) := by
  cases event with
  | control event => exact control_becomes vcpu event trace next actions taken
  | invoke owner invocation =>
      obtain ⟨entry, calls, ran, called⟩ := invoke_cases owner trace next invocation actions taken
      refine ⟨_, rfl, callback_timeline vcpu owner trace next entry calls actions
        (.invoke invocation) ?_ called⟩
      simp only [Timeline.step, view, ran, Except.map]
  | idle owner => exact ⟨_, rfl, update_timeline vcpu owner trace next _ actions .idle rfl taken⟩
  | resume owner =>
      exact ⟨_, rfl, update_timeline vcpu owner trace next _ actions .resume rfl taken⟩
  | interrupt owner =>
      exact ⟨_, rfl, update_timeline vcpu owner trace next _ actions .interrupt rfl taken⟩
  | interruptRet owner =>
      exact ⟨_, rfl, update_timeline vcpu owner trace next _ actions .interruptRet rfl taken⟩
  | syscall owner num pageDirectory =>
      exact syscall_commanded vcpu num pageDirectory trace next actions taken

def settled : Timeline.Event → Bool
  | .invoke _ => false
  | .between (.start _ _) => false
  | .between _ => true

theorem commanded_settled (event : Timeline.Event) (command : commanded event = true) :
    settled event = true := by
  unfold commanded at command
  split at command
  all_goals first | rfl | contradiction

theorem becomes_settled (vcpu : Fin n) (trace : Trace n) (event : Event n)
    (events : List Timeline.Event) (outside : ∀ owner invocation, event ≠ .invoke owner invocation)
    (going : event.begins trace = false) (becomes : Becomes vcpu trace event events) :
    ∀ happened ∈ events, settled happened = true := by
  have single : ∀ (owner : Fin n) (one : Timeline.Event), settled one = true →
      events = (if owner = vcpu then [one] else []) →
        ∀ happened ∈ events, settled happened = true := by
    rintro owner one still rfl happened member
    split at member
    · rw [List.mem_singleton.mp member]
      exact still
    · exact absurd member List.not_mem_nil
  have commands : (∀ happened ∈ events, commanded happened = true) →
      ∀ happened ∈ events, settled happened = true :=
    fun all happened member => commanded_settled happened (all happened member)
  cases event with
  | invoke owner invocation => exact absurd rfl (outside owner invocation)
  | idle owner => exact single owner _ rfl becomes
  | resume owner => exact single owner _ rfl becomes
  | interrupt owner => exact single owner _ rfl becomes
  | interruptRet owner => exact single owner _ rfl becomes
  | syscall owner num pageDirectory => exact commands becomes
  | control event =>
      cases event with
      | command issuer answers command =>
          cases command with
          | start dir =>
              have busy : trace.recording = true := by
                simpa [Event.begins, Control.Event.begins] using going
              simp only [Becomes, busy, if_true] at becomes
              rw [becomes]
              exact fun happened absent => absurd absent List.not_mem_nil
          | mode _ | stop | reset | gmm _ _ _ | magic _ => exact commands becomes
      | deferred index =>
          simp only [Becomes, DeferredBecomes] at becomes
          split at becomes
          · rw [becomes]
            exact fun happened member => List.mem_singleton.mp member ▸ rfl
          · rw [becomes]
            exact fun happened member => List.mem_singleton.mp member ▸ rfl
          · exact commands becomes

theorem settled_start (event : Timeline.Event) (still : settled event = true) :
    event.isStart = false := by
  cases event with
  | invoke invocation => contradiction
  | between happened => cases happened <;> first | rfl | contradiction

theorem becomes_start (vcpu : Fin n) (trace : Trace n) (event : Event n)
    (events : List Timeline.Event) (going : event.begins trace = false)
    (becomes : Becomes vcpu trace event events) :
    ∀ happened ∈ events, happened.isStart = false := by
  by_cases inside : ∃ owner invocation, event = .invoke owner invocation
  · obtain ⟨owner, invocation, rfl⟩ := inside
    intro happened member
    rw [show events = _ from becomes] at member
    split at member
    · rw [List.mem_singleton.mp member]
      rfl
    · exact absurd member List.not_mem_nil
  · have outside : ∀ owner invocation, event ≠ .invoke owner invocation :=
      fun owner invocation same => inside ⟨owner, invocation, same⟩
    exact fun happened member => settled_start happened
      (becomes_settled vcpu trace event events outside going becomes happened member)

theorem becomes_begun (vcpu : Fin n) (trace : Trace n) (event : Event n)
    (events : List Timeline.Event) (going : event.begins trace = true)
    (becomes : Becomes vcpu trace event events) :
    events = [.between (.start (UInt64.ofNat vcpu.val) (trace.nextWriter + vcpu.val))] := by
  unfold Event.begins Control.Event.begins at going
  split at going
  · split at going
    · have idle : trace.recording = false := by simpa using going
      simpa [Becomes, idle] using becomes
    · contradiction
  · contradiction

/-- All that a step can be to one vcpu: a callback of its own inside a block, a start, or
things that happen between blocks. -/
theorem step_cases (vcpu : Fin n) (trace next : Trace n) (event : Event n)
    (actions : List (Action n)) (taken : step trace event = .ok (next, actions)) :
    (∃ invocation, event = .invoke vcpu invocation ∧
      Timeline.step (view vcpu trace) (.invoke invocation) =
        .ok (view vcpu next, actions.filterMap (seen vcpu))) ∨
    (event.begins trace = true ∧ ∃ threadid writer,
      Timeline.step (view vcpu trace) (.between (.start threadid writer)) =
        .ok (view vcpu next, actions.filterMap (seen vcpu))) ∨
    (event.begins trace = false ∧ (∀ invocation, event ≠ .invoke vcpu invocation) ∧
      ∃ events, (∀ happened ∈ events, settled happened = true) ∧
        run Timeline.step (view vcpu trace) events =
          .ok (view vcpu next, actions.filterMap (seen vcpu))) := by
  obtain ⟨events, becomes, ran⟩ := step_becomes vcpu trace next event actions taken
  by_cases inside : ∃ owner invocation, event = .invoke owner invocation
  · obtain ⟨owner, invocation, rfl⟩ := inside
    rw [show events = _ from becomes] at ran
    by_cases own : owner = vcpu
    · obtain rfl := own
      rw [if_pos rfl, run_singleton] at ran
      exact .inl ⟨invocation, rfl, ran⟩
    · rw [if_neg own] at ran
      refine .inr (.inr ⟨rfl, fun other same => own (Event.invoke.inj same).1, [], ?_, ran⟩)
      exact fun happened absent => absurd absent List.not_mem_nil
  · have outside : ∀ owner invocation, event ≠ .invoke owner invocation :=
      fun owner invocation same => inside ⟨owner, invocation, same⟩
    cases going : event.begins trace with
    | true =>
        rw [becomes_begun vcpu trace event events going becomes, run_singleton] at ran
        exact .inr (.inl ⟨rfl, _, _, ran⟩)
    | false =>
        have still := becomes_settled vcpu trace event events outside going becomes
        exact .inr (.inr ⟨rfl, outside vcpu, events, still, ran⟩)

theorem step_continues (vcpu : Fin n) (trace next : Trace n) (event : Event n)
    (actions : List (Action n)) (going : event.begins trace = false)
    (taken : step trace event = .ok (next, actions)) : Continues vcpu trace next actions := by
  obtain ⟨events, becomes, ran⟩ := step_becomes vcpu trace next event actions taken
  exact ⟨events, becomes_start vcpu trace event events going becomes, ran⟩

theorem step_projects (vcpu : Fin n) (trace next : Trace n) (event : Event n)
    (actions : List (Action n)) (taken : step trace event = .ok (next, actions)) :
    Projects vcpu trace next actions := by
  obtain ⟨events, -, ran⟩ := step_becomes vcpu trace next event actions taken
  exact ⟨events, ran⟩

/-- Whatever the commands, callbacks and vcpus do from installation on, each vcpu's
entry and stream come from a run of its own timeline. -/
theorem run_projects (vcpu : Fin n) (events : List (Event n)) (final : Trace n)
    (actions : List (Action n)) (done : run step (install n) events = .ok (final, actions)) :
    ∃ timeline, run Timeline.step Timeline.fresh timeline =
      .ok (view vcpu final, actions.filterMap (seen vcpu)) :=
  run_refines step Timeline.step (view vcpu) (seen vcpu)
    (fun trace event next taken emitted => step_projects vcpu trace next event taken emitted)
    (install n) final events actions done

/-! Callbacks leave the `output` pointers alone. -/

theorem effect_output (globals : Globals) (thread : ThreadData) (invocation : Invocation)
    (result : Effect) (done : effect globals thread invocation = .ok result) :
    result.1.output = thread.output := by
  cases invocation with
  | exec called userdata cpu =>
      rw [exec_written globals cpu userdata thread called result done]
      cases called <;> rfl
  | mem called userdata cpu access =>
      cases done
      rw [mem_written globals cpu userdata access thread called]
      cases called <;> rfl

theorem deliver_moves (owner : Fin n) (calls : List Call) (trace : Trace n)
    (sent : List (Action n)) (delivered : deliver owner calls trace = .ok sent) :
    sent.filterMap Writers.move = [] := by
  unfold deliver at delivered
  split at delivered
  · cases delivered
    rw [List.filterMap_map, List.filterMap_eq_nil_iff]
    exact fun _ _ => rfl
  · cases delivered
    rfl
  · contradiction

theorem callback_turnover (owner : Fin n) (trace next : Trace n) (entry : Vcpu)
    (calls : List Call) (actions : List (Action n))
    (kept : entry.data.output = (trace.threads owner).data.output)
    (taken : callback owner trace entry calls = .ok (next, actions)) :
    Writers.Turnover trace next actions := by
  rcases map_ok _ _ _ taken with ⟨sent, delivered, same⟩
  rcases Prod.mk.inj same with ⟨rfl, rfl⟩
  apply Writers.Turnover.kept
  · rfl
  · intro vcpu
    by_cases own : owner = vcpu
    · rcases own with rfl
      simp [Trace.output, setVcpu, kept]
    · simp [Trace.output, setVcpu, Function.update_of_ne (Ne.symm own)]
  · rfl
  · rfl
  · exact deliver_moves owner calls trace sent delivered

theorem update_turnover (owner : Fin n) (trace next : Trace n) (effect : Effect)
    (actions : List (Action n)) (kept : effect.1.output = (trace.threads owner).data.output)
    (taken : update owner trace effect = .ok (next, actions)) :
    Writers.Turnover trace next actions :=
  callback_turnover owner trace next _ _ actions kept taken

theorem flush_all_moves (pageDirectory : UInt64) (trace : Trace n) (vcpus : List (Fin n))
    (actions : List (Action n)) (taken : flushAll pageDirectory trace vcpus = .ok actions) :
    actions.filterMap Writers.move = [] := by
  induction vcpus generalizing actions with
  | nil =>
      cases taken
      rfl
  | cons threadid rest ih =>
      obtain ⟨flushed, later, called, tail, rfl⟩ :=
        flush_all_cases pageDirectory trace threadid rest actions taken
      rw [List.filterMap_cons_none (Writers.call_moves_nothing threadid _ trace flushed called)]
      exact ih later tail

theorem syscall_turnover (num : Int) (pageDirectory : UInt64) (trace next : Trace n)
    (actions : List (Action n))
    (taken : vcpuSyscallCb num pageDirectory trace = .ok (next, actions)) :
    Writers.Turnover trace next actions := by
  unfold vcpuSyscallCb at taken
  split at taken
  · cases taken
    exact Writers.turnover_refl trace _ rfl
  · split at taken
    · rcases map_ok _ _ _ taken with ⟨flushed, all, same⟩
      rcases Prod.mk.inj same with ⟨rfl, rfl⟩
      exact Writers.turnover_refl trace _ (flush_all_moves pageDirectory trace _ flushed all)
    · cases taken
      exact Writers.turnover_refl trace _ rfl

theorem step_turnover (trace next : Trace n) (event : Event n) (actions : List (Action n))
    (taken : step trace event = .ok (next, actions)) : Writers.Turnover trace next actions := by
  cases event with
  | control event => exact Writers.step_turnover trace next event actions taken
  | invoke owner invocation =>
      obtain ⟨entry, calls, ran, called⟩ := invoke_cases owner trace next invocation actions taken
      have kept := effect_output _ _ invocation _ (invoke_effect _ _ _ _ _ ran)
      exact callback_turnover owner trace next entry calls actions kept called
  | idle owner =>
      apply update_turnover owner trace next _ actions _ taken
      unfold vcpuIdleCb
      dsimp only
      split <;> rfl
  | resume owner =>
      apply update_turnover owner trace next _ actions _ taken
      unfold vcpuResumeCb
      split <;> rfl
  | interrupt owner => exact update_turnover owner trace next _ actions rfl taken
  | interruptRet owner => exact update_turnover owner trace next _ actions rfl taken
  | syscall owner num pageDirectory =>
      exact syscall_turnover num pageDirectory trace next actions taken

theorem step_owned (trace next : Trace n) (event : Event n) (actions : List (Action n))
    (owned : Writers.Owned trace) (taken : step trace event = .ok (next, actions)) :
    Writers.Owned next :=
  Writers.lifetime_owned trace next owned
    (Writers.turnover_lifetime trace next actions (step_turnover trace next event actions taken))

/-- In every reachable state the writers exist exactly while recording. -/
theorem run_owned (events : List (Event n)) (final : Trace n) (actions : List (Action n))
    (done : run step (install n) events = .ok (final, actions)) : Writers.Owned final :=
  run_invariant step Writers.Owned
    (fun trace event next emitted owned taken => step_owned trace next event emitted owned taken)
    (install n) final events actions (Writers.install_owned n) done

end Hypersh.System
