import Mathlib.Data.List.Basic
import Hypersh.Transduction
import Hypersh.Callbacks
import Hypersh.Blocks
import Hypersh.Footprint
import Hypersh.Timeline
import Hypersh.Records
import Hypersh.Control
import Hypersh.System

/-!
Captures: what a vcpu writes of its instructions depends on how many magic stores it
has made since the start, and on nothing else that commands, resets and other vcpus
may have done in between.
-/
namespace Hypersh.Captures
open Callbacks Blocks Records Control Transduction

/-- The callback is that of a store which starts or ends a capture. -/
def flips (globals : Globals) : Invocation → Bool
  | .mem .sendDetailed _ cpu access => magicStore globals (cpu, access)
  | _ => false

def beginsInsn (globals : Globals) : Invocation → Bool
  | .exec .pcNext _ cpu => inRoi globals cpu
  | _ => false

theorem crossing_plain (globals : Globals) (cpu : Cpu) (marks : Marks) :
    (crossing globals cpu marks).count .aborted = 0 ∧
      (crossing globals cpu marks).count .begun = 0 := by
  unfold crossing
  split_ifs <;> exact ⟨rfl, rfl⟩

theorem mark_parity (globals : Globals) (marks : Marks) (invocation : Invocation) :
    (mark globals marks invocation).1.capturing = (marks.capturing ^^ flips globals invocation) ∧
    (mark globals marks invocation).2.count .aborted =
      (if flips globals invocation then 1 else 0) ∧
    (mark globals marks invocation).2.count .begun =
      if beginsInsn globals invocation && !marks.capturing then 1 else 0 := by
  cases invocation with
  | exec callback userdata cpu =>
      cases callback with
      | pcNext =>
          refine ⟨(Bool.xor_false _).symm, ?_, ?_⟩
          · unfold mark
            dsimp only
            split <;> rfl
          · unfold mark beginsInsn
            dsimp only
            split <;> rfl
      | branchDetailed =>
          obtain ⟨aborted, begun⟩ := crossing_plain globals cpu marks
          exact ⟨(Bool.xor_false _).symm, aborted, begun⟩
      | _ => exact ⟨(Bool.xor_false _).symm, rfl, rfl⟩
  | mem callback userdata cpu access =>
      cases callback with
      | sendDetailed =>
          by_cases magic : magicStore globals (cpu, access) = true
          · simp only [mark, flips, magic, Bool.xor_true]
            exact ⟨rfl, rfl, rfl⟩
          · simp only [mark, flips, Bool.eq_false_of_not_eq_true magic, Bool.xor_false]
            exact ⟨rfl, rfl, rfl⟩
      | updatePc | sendCacheonly => exact ⟨(Bool.xor_false _).symm, rfl, rfl⟩

/-! One event on one vcpu's timeline. -/

def aborts (calls : List Call) : Nat := (calls.filterMap record).count .aborted

def begins (calls : List Call) : Nat := (calls.filterMap record).count .begun

theorem between_captures (entry : Timeline.Entry) (happened : Timeline.Between)
    (other : (Timeline.Event.between happened).isStart = false) :
    (Timeline.between entry happened).1.vcpu.data.capturing = entry.vcpu.data.capturing := by
  cases happened with
  | start threadid writer => contradiction
  | idle =>
      dsimp only [Timeline.between, Timeline.Entry.update, Timeline.Entry.setData, vcpuIdleCb]
      split <;> rfl
  | resume =>
      dsimp only [Timeline.between, Timeline.Entry.update, Timeline.Entry.setData, vcpuResumeCb]
      split <;> rfl
  | closed | mode _ | roi _ | magic _ | reset | notice _ | interrupt | interruptRet => rfl

theorem between_writes (entry : Timeline.Entry) (happened : Timeline.Between) :
    aborts (Timeline.between entry happened).2 = 0 ∧
      begins (Timeline.between entry happened).2 = 0 := by
  have only := between_only entry happened
  rw [aborts, begins, between_recorded]
  constructor
  · rw [List.count_eq_zero]
    intro aborted
    rcases only .aborted aborted with same | same | same <;> contradiction
  · rw [List.count_eq_zero]
    intro begun
    rcases only .begun begun with same | same | same <;> contradiction

theorem invoke_captures (entry next : Timeline.Entry) (invocation : Invocation) (calls : List Call)
    (taken : Timeline.step entry (.invoke invocation) = .ok (next, calls)) :
    next.vcpu.data.capturing =
        (entry.vcpu.data.capturing ^^ flips entry.globals invocation) ∧
      aborts calls = (if flips entry.globals invocation then 1 else 0) ∧
      begins calls =
        if beginsInsn entry.globals invocation && !entry.vcpu.data.capturing then 1 else 0 := by
  obtain ⟨done, -⟩ := Timeline.step_invoke entry next invocation calls taken
  have parity := mark_parity entry.globals (marksOf entry.vcpu.data) invocation
  rw [effect_marked _ _ _ _ done] at parity
  exact parity

theorem aborts_append (early late : List Call) :
    aborts (early ++ late) = aborts early + aborts late := by
  rw [aborts, List.filterMap_append, List.count_append]
  rfl

theorem begins_append (early late : List Call) :
    begins (early ++ late) = begins early + begins late := by
  rw [begins, List.filterMap_append, List.count_append]
  rfl

theorem settled_captures (events : List Timeline.Event) (entry final : Timeline.Entry)
    (calls : List Call) (settled : ∀ event ∈ events, System.settled event = true)
    (done : run Timeline.step entry events = .ok (final, calls)) :
    final.vcpu.data.capturing = entry.vcpu.data.capturing ∧ aborts calls = 0 ∧ begins calls = 0 := by
  apply along_relates Timeline.step (fun _ event => System.settled event = true)
    (fun entry calls final => final.vcpu.data.capturing = entry.vcpu.data.capturing ∧
      aborts calls = 0 ∧ begins calls = 0)
    (fun entry => ⟨rfl, rfl, rfl⟩) _ _ entry final events calls
    (along_all Timeline.step _ entry events settled) done
  · rintro entry middle final early late ⟨first, abortedFirst, begunFirst⟩ ⟨second, aborted, begun⟩
    rw [aborts_append, begins_append, abortedFirst, begunFirst, aborted, begun]
    exact ⟨second.trans first, rfl, rfl⟩
  · intro entry event next emitted here taken
    cases event with
    | invoke invocation => contradiction
    | between happened =>
        have flag := between_captures entry happened (System.settled_start _ here)
        have writes := between_writes entry happened
        obtain ⟨rfl, rfl⟩ := Timeline.step_between entry next happened emitted taken
        exact ⟨flag, writes⟩

/-! One event of the plugin. -/

variable {n : Nat}

def own (vcpu : Fin n) (asked : Globals → Invocation → Bool) (trace : Trace n) :
    System.Event n → Bool
  | .invoke owner invocation => decide (owner = vcpu) && asked trace.globals invocation
  | _ => false

theorem step_captures (vcpu : Fin n) (trace next : Trace n) (event : System.Event n)
    (actions : List (Action n)) (taken : System.step trace event = .ok (next, actions)) :
    (next.threads vcpu).data.capturing = (if event.begins trace then false
      else (trace.threads vcpu).data.capturing ^^ own vcpu flips trace event) ∧
    aborts (System.written vcpu actions) = (if own vcpu flips trace event then 1 else 0) ∧
    begins (System.written vcpu actions) =
      if own vcpu beginsInsn trace event && !(trace.threads vcpu).data.capturing then 1 else 0 := by
  have asked : ∀ (asked : Globals → Invocation → Bool) invocation,
      own vcpu asked trace (.invoke vcpu invocation) = asked trace.globals invocation := by
    intro asked invocation
    simp [own]
  have none_ : (∀ invocation, event ≠ .invoke vcpu invocation) →
      ∀ asked, own vcpu asked trace event = false := by
    intro others asked
    cases event with
    | invoke owner invocation =>
        have apart : owner ≠ vcpu := fun same => others invocation (same ▸ rfl)
        simp [own, apart]
    | _ => rfl
  obtain ⟨invocation, rfl, ran⟩ | ⟨going, threadid, writer, ran⟩ | ⟨going, others, events, still, ran⟩ :=
    System.step_cases vcpu trace next event actions taken
  · rw [asked, asked]
    exact invoke_captures _ _ invocation _ ran
  · have others : ∀ invocation, event ≠ .invoke vcpu invocation := by
      rintro invocation rfl
      contradiction
    obtain ⟨started, calls⟩ := Timeline.step_between _ _ _ _ ran
    rw [going, none_ others, none_ others, System.written, calls]
    exact ⟨congrArg (fun entry => entry.vcpu.data.capturing) started, rfl, rfl⟩
  · obtain ⟨kept, aborted, begun⟩ := settled_captures events _ _ _ still ran
    rw [going, none_ others, none_ others]
    exact ⟨kept.trans (Bool.xor_false _).symm, aborted, begun⟩

/-! Runs. -/

def noteStores (vcpu : Fin n) (trace : Trace n) (event : System.Event n) (_ : List (Action n))
    (stores : Nat) : Nat :=
  if event.begins trace then 0
  else if own vcpu flips trace event then stores + 1 else stores

def Parity (vcpu : Fin n) (watched : Trace n × Nat) : Prop :=
  (watched.1.threads vcpu).data.capturing = decide (watched.2 % 2 = 1)

theorem step_parity (vcpu : Fin n) (before after : Trace n × Nat) (event : System.Event n)
    (actions : List (Action n)) (parity : Parity vcpu before)
    (taken : watch System.step (noteStores vcpu) before event = .ok (after, actions)) :
    Parity vcpu after := by
  obtain ⟨stepped, noted⟩ := (watch_iff _ _ _ _ _ _).mp taken
  obtain ⟨flag, -, -⟩ := step_captures vcpu before.1 after.1 event actions stepped
  rw [Parity, flag, noted, noteStores, parity]
  cases event.begins before.1 with
  | true => rfl
  | false =>
      rw [if_neg Bool.false_ne_true, if_neg Bool.false_ne_true]
      cases own vcpu flips before.1 event with
      | false => exact Bool.xor_false _
      | true =>
          rw [Bool.xor_true, if_pos rfl, ← decide_not, decide_eq_decide]
          omega

theorem run_parity (vcpu : Fin n) (events : List (System.Event n)) (final : Trace n × Nat)
    (actions : List (Action n))
    (done : run (watch System.step (noteStores vcpu)) (install n, 0) events =
      .ok (final, actions)) : Parity vcpu final := by
  have first : Parity vcpu (install n, 0) := rfl
  exact run_invariant _ (Parity vcpu)
    (fun before event after emitted parity taken =>
      step_parity vcpu before after event emitted parity taken) _ _ events actions first done

theorem cmpxchg_synced (vcpu : Fin n) (trace next : Trace n) (userdata : UInt64) (cpu : Cpu)
    (actions : List (Action n)) (awake : (trace.threads vcpu).data.idle = false)
    (taken : System.step trace (.invoke vcpu (.exec .cmpxchg userdata cpu)) = .ok (next, actions)) :
    System.written vcpu actions = if (trace.threads vcpu).data.capturing then [] else [.sync] := by
  obtain ⟨events, becomes, ran⟩ := System.step_becomes vcpu trace next _ actions taken
  rw [show events = _ from becomes, if_pos rfl, run_singleton] at ran
  obtain ⟨done, -⟩ := Timeline.step_invoke _ _ _ _ ran
  have same : insnExecCmpxchg (trace.threads vcpu).data =
      ((next.threads vcpu).data, System.written vcpu actions) := Except.ok.inj done
  have calls : (insnExecCmpxchg (trace.threads vcpu).data).2 = System.written vcpu actions :=
    congrArg Prod.snd same
  rw [← calls, insnExecCmpxchg, awake]
  cases (trace.threads vcpu).data.capturing <;> rfl

structure ByParity (vcpu : Fin n) (trace : Trace n) (stores : Nat) (event : System.Event n)
    (calls : List Call) : Prop where
  begun : begins calls =
    if own vcpu beginsInsn trace event ∧ stores % 2 = 0 then 1 else 0
  synced : ∀ userdata cpu, event = .invoke vcpu (.exec .cmpxchg userdata cpu) →
    (trace.threads vcpu).data.idle = false →
      calls = if stores % 2 = 0 then [.sync] else []
  aborted : aborts calls = if own vcpu flips trace event then 1 else 0

/-- The callbacks of an instruction instrumented for detailed mode that have to do with
captures: one beginning, one for every access and one more for a cmpxchg. -/
structure Instrumented (tb : Tb) (index : Nat) (insn : Insn) : Prop where
  begins : (insnHooks .detailed tb index).countP (fun hook => hook.1 = .pcNext) = 1
  cmpxchg : (insnHooks .detailed tb index).countP (fun hook => hook.1 = .cmpxchg) =
    if insn.isCmpxchg then 1 else 0
  accesses : memHooks .detailed tb index = [(.sendDetailed, 0)]

theorem insn_instrumented (tb : Tb) (index : Nat) (insn : Insn)
    (fetched : tb.insns[index]? = some insn) : Instrumented tb index insn := by
  refine ⟨?_, ?_, mem_hooks_detailed tb index insn fetched⟩
  · rw [insn_hooks_detailed tb index insn fetched]
    split_ifs <;> rfl
  · rw [insn_hooks_detailed tb index insn fetched]
    split_ifs <;> rfl

/-- On every vcpu and after any run, an instruction is begun inside the region of
interest, and a cmpxchg synchronises, exactly after an even number of magic stores
since the start; each magic store aborts one instruction and nothing else does. -/
theorem captures_by_parity (vcpu : Fin n) :
    (∀ tb index insn, tb.insns[index]? = some insn → Instrumented tb index insn) ∧
    ∀ events trace stores past, run (watch System.step (noteStores vcpu)) (install n, 0) events =
      .ok ((trace, stores), past) → ∀ event next actions,
        System.step trace event = .ok (next, actions) →
          ByParity vcpu trace stores event (System.written vcpu actions) := by
  refine ⟨insn_instrumented, fun events trace stores past done event next actions taken => ?_⟩
  have parity : (trace.threads vcpu).data.capturing = decide (stores % 2 = 1) :=
    run_parity vcpu events (trace, stores) past done
  obtain ⟨-, aborted, begun⟩ := step_captures vcpu trace next event actions taken
  refine ⟨?_, ?_, aborted⟩
  · rw [begun, parity]
    cases own vcpu beginsInsn trace event with
    | false => rfl
    | true =>
        rcases Nat.mod_two_eq_zero_or_one stores with even | odd
        · simp [even]
        · simp [odd]
  · rintro userdata cpu rfl awake
    rw [cmpxchg_synced vcpu trace next userdata cpu actions awake taken, parity]
    rcases Nat.mod_two_eq_zero_or_one stores with even | odd
    · simp [even]
    · simp [odd]

/-- After one magic store an instruction is not begun. -/
theorem captured_insn_skipped :
    ∃ trace past next actions, run (watch System.step (noteStores vcpu₀)) (install 1, 0)
        [.control (.command vcpu₀ ⟨0, none, fun _ => true⟩ (.start (some "/d"))),
          .invoke vcpu₀ (.mem .sendDetailed 0 ⟨false, 1⟩ ⟨0, 0x40, true⟩)] =
      .ok ((trace, 1), past) ∧
      System.step trace (.invoke vcpu₀ (.exec .pcNext 0x1004 ⟨false, 1⟩)) = .ok (next, actions) ∧
      begins (System.written vcpu₀ actions) = 0 := by
  obtain ⟨trace, past, next, actions, ran, taken⟩ : ∃ trace past next actions,
      run (watch System.step (noteStores vcpu₀)) (install 1, 0)
        [.control (.command vcpu₀ ⟨0, none, fun _ => true⟩ (.start (some "/d"))),
          .invoke vcpu₀ (.mem .sendDetailed 0 ⟨false, 1⟩ ⟨0, 0x40, true⟩)] =
        .ok ((trace, 1), past) ∧
      System.step trace (.invoke vcpu₀ (.exec .pcNext 0x1004 ⟨false, 1⟩)) =
        .ok (next, actions) := ⟨_, _, _, _, rfl, rfl⟩
  have begun := ((captures_by_parity vcpu₀).2 _ _ 1 _ ran _ _ _ taken).begun
  rw [if_neg (fun odd => absurd odd.2 (by decide))] at begun
  exact ⟨trace, past, next, actions, ran, taken, begun⟩

end Hypersh.Captures
