import Mathlib.Data.List.Basic
import Mathlib.Algebra.Group.Nat.Defs
import Mathlib.Tactic.SplitIfs
import Hypersh.Transduction
import Hypersh.Callbacks
import Hypersh.Blocks
import Hypersh.Footprint
import Hypersh.Timeline

/-!
Flow control of detailed mode. `flowcontrol_target` is the count at which the
next Sync is due, so it has to stay within `FlowControl` above the instructions
counted. A reset takes the count back to zero and leaves the target where it was.
-/
namespace Hypersh.FlowControl
open Callbacks Blocks Footprint Timeline Transduction

structure Window (thread : ThreadData) : Prop where
  lower : thread.icountDetailed ≤ thread.flowcontrolTarget
  upper : thread.flowcontrolTarget.toNat ≤ thread.icountDetailed.toNat + flowControl.toNat

def counts (entry : Entry) : Event → Bool
  | .invoke (.exec .updatePc _ _) => !entry.vcpu.data.idle
  | _ => false

/-- Instructions counted since the stream last got a Sync, or since it began. -/
def sinceSync (entry : Entry) (event : Event) (calls : List Call) (since : Nat) : Nat :=
  match event with
  | .between (.start _ _) => 0
  | _ => if .sync ∈ calls then 0 else if counts entry event then since + 1 else since

/-- What a callback can do to the count and the target, with whether it counts an
instruction and whether it writes a Sync. -/
inductive Flow : UInt64 × UInt64 → UInt64 × UInt64 → Bool → Bool → Prop where
  | still (count target : UInt64) (synced : Bool) :
      Flow (count, target) (count, target) false synced
  | caughtUp (count target : UInt64) :
      Flow (count, target) (count, count + flowControl) false true
  | counted (count target : UInt64) (due : ¬ target < count + 1) :
      Flow (count, target) (count + 1, target) true false
  | overran (count target : UInt64) (due : target < count + 1) :
      Flow (count, target) (count + 1, target + flowControl) true true

def counters (thread : ThreadData) : UInt64 × UInt64 :=
  (thread.icountDetailed, thread.flowcontrolTarget)

theorem flow_still (before after : ThreadData) (calls : List Call)
    (same : counters after = counters before) :
    Flow (counters before) (counters after) false (decide (.sync ∈ calls)) := by
  rw [same]
  exact Flow.still _ _ _

theorem sync_detailed_flow (count target : UInt64) (bumped : ThreadData)
    (counted : counters bumped = (count + 1, target)) :
    Flow (count, target) (counters (syncDetailed bumped).1) true
      (decide (.sync ∈ .instructionEnd :: (syncDetailed bumped).2)) := by
  have detailed : bumped.icountDetailed = count + 1 := congrArg Prod.fst counted
  have limit : bumped.flowcontrolTarget = target := congrArg Prod.snd counted
  unfold syncDetailed
  rw [detailed, limit]
  by_cases due : target < count + 1
  · rw [if_pos due]
    simpa [counters, detailed] using Flow.overran count target due
  · rw [if_neg due]
    simpa [counted] using Flow.counted count target due

theorem update_pc_flow (globals : Globals) (cpu : Cpu) (vaddr : UInt64) (thread : ThreadData) :
    Flow (counters thread) (counters (insnExecUpdatePc globals cpu vaddr thread).1) (!thread.idle)
      (decide (.sync ∈ (insnExecUpdatePc globals cpu vaddr thread).2)) := by
  unfold insnExecUpdatePc
  cases idle : thread.idle
  · apply sync_detailed_flow
    -- Whichever statistic is bumped, the count goes up by one and the target stays.
    dsimp only [countDetailed]
    split_ifs <;> rfl
  · exact Flow.still _ _ _

theorem cmpxchg_flow (thread : ThreadData) :
    Flow (counters thread) (counters (insnExecCmpxchg thread).1) false
      (decide (.sync ∈ (insnExecCmpxchg thread).2)) := by
  unfold insnExecCmpxchg
  split
  · exact Flow.caughtUp _ _
  · exact Flow.still _ _ _

theorem pause_flow (thread : ThreadData) :
    Flow (counters thread) (counters (insnExecPause thread).1) false
      (decide (.sync ∈ (insnExecPause thread).2)) := by
  unfold insnExecPause
  split
  · exact Flow.still _ _ _
  · exact Flow.caughtUp _ _

theorem exec_still (globals : Globals) (cpu : Cpu) (userdata : UInt64) (thread : ThreadData)
    (callback : ExecCallback) (result : Effect)
    (other : callback ≠ .updatePc ∧ callback ≠ .pause ∧ callback ≠ .cmpxchg)
    (done : execEffect globals cpu userdata thread callback = .ok result) :
    counters result.1 = counters thread := by
  rw [exec_written globals cpu userdata thread callback result done]
  cases callback with
  | updatePc | pause | cmpxchg => simp at other
  | _ => rfl

theorem mem_still (globals : Globals) (cpu : Cpu) (userdata : UInt64) (access : Access)
    (thread : ThreadData) (callback : MemCallback) :
    counters (memEffect globals cpu userdata access thread callback).1 = counters thread := by
  rw [mem_written globals cpu userdata access thread callback]
  cases callback <;> rfl

theorem effect_flow (entry : Entry) (invocation : Invocation) (result : Effect)
    (done : effect entry.globals entry.vcpu.data invocation = .ok result) :
    Flow (counters entry.vcpu.data) (counters result.1) (counts entry (.invoke invocation))
      (decide (.sync ∈ result.2)) := by
  cases invocation with
  | mem callback userdata cpu access =>
      cases done
      exact flow_still _ _ _ (mem_still _ _ _ _ _ callback)
  | exec callback userdata cpu =>
      by_cases moving : callback ≠ .updatePc ∧ callback ≠ .pause ∧ callback ≠ .cmpxchg
      · have quiet : counts entry (.invoke (.exec callback userdata cpu)) = false := by
          cases callback <;> first | rfl | exact absurd rfl moving.1
        rw [quiet]
        exact flow_still _ _ _ (exec_still _ _ _ _ callback _ moving done)
      · cases callback with
        | updatePc => cases done; exact update_pc_flow _ _ _ _
        | pause => cases done; exact pause_flow _
        | cmpxchg => cases done; exact cmpxchg_flow _
        | _ => simp at moving

theorem between_still (entry : Entry) (happened : Between) (kept : happened ≠ .reset)
    (running : ∀ threadid writer, happened ≠ .start threadid writer) :
    counters (between entry happened).1.vcpu.data = counters entry.vcpu.data := by
  cases happened with
  | start threadid writer => exact absurd rfl (running threadid writer)
  | reset => exact absurd rfl kept
  | idle =>
      dsimp only [between, Entry.update, Entry.setData, vcpuIdleCb]
      split_ifs <;> rfl
  | resume =>
      dsimp only [between, Entry.update, Entry.setData, vcpuResumeCb]
      split_ifs <;> rfl
  | _ => rfl

/-- The Sync that is due comes before the quota is used up. -/
structure Paced (since : Nat) (pair : UInt64 × UInt64) : Prop where
  lower : pair.1 ≤ pair.2
  quota : since + pair.2.toNat ≤ pair.1.toNat + flowControl.toNat

theorem paced_window (since : Nat) (thread : ThreadData) (paced : Paced since (counters thread)) :
    Window thread ∧ since ≤ flowControl.toNat := by
  have lower : thread.icountDetailed.toNat ≤ thread.flowcontrolTarget.toNat := paced.lower
  have quota : since + thread.flowcontrolTarget.toNat ≤
    thread.icountDetailed.toNat + flowControl.toNat := paced.quota
  constructor
  · exact ⟨paced.lower, by omega⟩
  · omega

theorem paced_mono (early late : Nat) (pair : UInt64 × UInt64) (fewer : early ≤ late)
    (paced : Paced late pair) : Paced early pair :=
  ⟨paced.lower, Nat.le_trans (Nat.add_le_add_right fewer _) paced.quota⟩

theorem paced_zero : Paced 0 (0, 0) where
  lower := UInt64.le_refl 0
  quota := by decide

theorem flow_paced (before after : UInt64 × UInt64) (counted synced : Bool) (since : Nat)
    (flow : Flow before after counted synced)
    (room : before.1.toNat + flowControl.toNat < 2 ^ 64) (paced : Paced since before) :
    Paced (if synced then 0 else if counted then since + 1 else since) after := by
  rcases paced with ⟨lower, quota⟩
  have limit : flowControl.toNat = 1000 := rfl
  cases flow with
  | still count target synced =>
      apply paced_mono _ since _ _ ⟨lower, quota⟩
      cases synced <;> simp
  | caughtUp count target =>
      have sum : (count + flowControl).toNat = count.toNat + 1000 := by
        rw [UInt64.toNat_add, limit]
        exact Nat.mod_eq_of_lt (by simp_all)
      constructor
      · simp only [UInt64.le_iff_toNat_le, sum]
        omega
      · simp only [↓reduceIte, sum, limit]
        omega
  | counted count target due =>
      have next : (count + 1).toNat = count.toNat + 1 := by
        rw [UInt64.toNat_add]
        exact Nat.mod_eq_of_lt (by simp_all; omega)
      constructor
      · exact UInt64.not_lt.mp due
      · simp only [Bool.false_eq_true, ↓reduceIte, next]
        simp only at quota
        omega
  | overran count target due =>
      have next : (count + 1).toNat = count.toNat + 1 := by
        rw [UInt64.toNat_add]
        exact Nat.mod_eq_of_lt (by simp_all; omega)
      -- The target is passed by one exactly.
      have reached : target.toNat = count.toNat := by
        rw [UInt64.lt_iff_toNat_lt, next] at due
        rw [UInt64.le_iff_toNat_le] at lower
        simp only at lower
        omega
      have sum : (target + flowControl).toNat = target.toNat + 1000 := by
        rw [UInt64.toNat_add, limit]
        exact Nat.mod_eq_of_lt (by simp_all)
      constructor
      · rw [UInt64.le_iff_toNat_le, next, sum]
        omega
      · simp only [↓reduceIte, next, sum]
        omega

/-- A reset keeps the promise when the old target is still reachable from zero
within the quota; counting and setting the target must not wrap. -/
def Keeps (watched : Entry × Nat) : Event → Prop
  | .between .reset => watched.2 + watched.1.vcpu.data.flowcontrolTarget.toNat ≤ flowControl.toNat
  | .between _ => True
  | .invoke _ => watched.1.vcpu.data.icountDetailed.toNat + flowControl.toNat < 2 ^ 64

instance decidableKeeps (watched : Entry × Nat) : ∀ event, Decidable (Keeps watched event)
  | .between .reset => inferInstanceAs (Decidable (_ ≤ _))
  | .invoke _ => inferInstanceAs (Decidable (_ < _))
  | .between (.start _ _) | .between .closed | .between (.mode _) | .between (.roi _)
  | .between (.magic _) | .between (.notice _) | .between .idle | .between .resume
  | .between .interrupt | .between .interruptRet => inferInstanceAs (Decidable True)

theorem between_paced (watched : Entry × Nat) (happened : Between)
    (paced : Paced watched.2 (counters watched.1.vcpu.data))
    (keeps : Keeps watched (.between happened)) :
    Paced (sinceSync watched.1 (.between happened) (between watched.1 happened).2 watched.2)
      (counters (between watched.1 happened).1.vcpu.data) := by
  by_cases begun : ∃ threadid writer, happened = .start threadid writer
  · rcases begun with ⟨threadid, writer, rfl⟩
    exact paced_zero
  · by_cases zeroed : happened = .reset
    · subst zeroed
      constructor
      · exact UInt64.zero_le
      · exact Nat.le_trans keeps (Nat.le_add_left _ _)
    -- Neither counter moves and the Syncs outside blocks only shorten the wait.
    · rw [between_still _ happened zeroed fun _ _ same => begun ⟨_, _, same⟩]
      apply paced_mono _ watched.2 _ _ paced
      cases happened with
      | start threadid writer => exact Nat.zero_le _
      | _ =>
          dsimp only [sinceSync]
          split
          · exact Nat.zero_le _
          · exact Nat.le_refl _

theorem step_paced (watched next : Entry × Nat) (event : Event) (calls : List Call)
    (paced : Paced watched.2 (counters watched.1.vcpu.data)) (keeps : Keeps watched event)
    (taken : watch step sinceSync watched event = .ok (next, calls)) :
    Paced next.2 (counters next.1.vcpu.data) := by
  rcases (watch_iff _ _ _ _ _ _).mp taken with ⟨stepped, noted⟩
  rw [noted]
  cases event with
  | between happened =>
      have same : between watched.1 happened = (next.1, calls) := Except.ok.inj stepped
      have paced' := between_paced watched happened paced keeps
      rwa [same] at paced'
  | invoke invocation =>
      have flow := effect_flow watched.1 invocation _ (step_invoke _ _ _ _ stepped).1
      simpa [sinceSync] using flow_paced _ _ _ _ watched.2 flow keeps paced

/-- In every run whose resets keep the promise, the two counters stay in their
window and no more than `FlowControl` instructions go by without a Sync. -/
theorem flow_control_never_suspended (events : List Event) (final : Entry) (since : Nat)
    (calls : List Call) (keeps : Along (watch step sinceSync) Keeps (fresh, 0) events)
    (done : run (watch step sinceSync) (fresh, 0) events = .ok ((final, since), calls)) :
    Window final.vcpu.data ∧ since ≤ flowControl.toNat := by
  apply paced_window
  apply along_invariant (watch step sinceSync) Keeps
    (fun watched => Paced watched.2 (counters watched.1.vcpu.data))
    (fun watched event next emitted paced kept taken =>
      step_paced watched next event emitted paced kept taken)
    (fresh, 0) (final, since) events calls keeps paced_zero done

def pauseInsns : List Insn := [⟨0x1000, 0x1002, 0x9000, false⟩]

theorem pause_insns_nonempty : pauseInsns ≠ [] := List.cons_ne_nil _ _

def pauseStarted : List Started := [⟨⟨false, 0⟩, []⟩]

theorem pause_started_bounded : pauseStarted.length ≤ pauseInsns.length := Nat.le_refl 1

def pauseBlock : BlockRun where
  tb :=
    { insns := pauseInsns
      vaddr := 0x1000
      ramAddr := 0x9000
      haddr := 0x7f0000009000
      nextPc := 0x1002
      page2 := none
      isBranch := false
      isPause := true
      nonempty := pause_insns_nonempty }
  cpu := ⟨false, 0⟩
  started := pauseStarted
  bounded := pause_started_bounded

def pausedOnce : List Event :=
  [.between (.start 0 0), .between (.mode .detailed), .between .resume] ++
    Moment.events (.block .detailed pauseBlock)

theorem paused_once_regulated :
    ∃ final since calls,
      run (watch step sinceSync) (fresh, 0) pausedOnce = .ok ((final, since), calls) ∧
        Window final.vcpu.data ∧ since ≤ flowControl.toNat := by
  rcases map_ok (run (watch step sinceSync) (fresh, 0) pausedOnce) (fun _ => ()) () rfl with
    ⟨⟨⟨final, since⟩, calls⟩, done, -⟩
  exact ⟨final, since, calls, done,
    flow_control_never_suspended pausedOnce final since calls (by decide) done⟩

/-- One pause and a reset are enough: the target stays at 1001 while the count
starts again from zero. -/
theorem reset_suspends_flow_control :
    ∃ final calls, run step fresh (pausedOnce ++ [.between .reset]) = .ok (final, calls) ∧
      ¬ Window final.vcpu.data := by
  rcases map_ok (run step fresh (pausedOnce ++ [.between .reset]))
    (fun result => counters result.1.vcpu.data) (0, 1001) rfl with ⟨⟨final, calls⟩, done, seen⟩
  refine ⟨final, calls, done, ?_⟩
  intro window
  have count : final.vcpu.data.icountDetailed = 0 := congrArg Prod.fst seen
  have target : final.vcpu.data.flowcontrolTarget = 1001 := congrArg Prod.snd seen
  have upper := window.upper
  rw [count, target] at upper
  exact absurd upper (by decide)

end Hypersh.FlowControl
