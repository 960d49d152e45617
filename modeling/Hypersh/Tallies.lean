import Mathlib.Data.List.Nodup
import Hypersh.Transduction
import Hypersh.Callbacks
import Hypersh.Blocks
import Hypersh.Footprint
import Hypersh.Timeline
import Hypersh.Control
import Hypersh.Writers
import Hypersh.System

/-!
What a vcpu's statistics should say: the events since the last start or completed
reset, counted beside the plugin in any of its runs.
-/
namespace Hypersh.Tallies
open Callbacks Blocks Footprint Control Transduction

/-- Instructions that are not idle by where they run, accesses of user code and
executed blocks. `earlier` are the blocks between the start and the last reset. -/
structure Tally where
  process : Nat
  kernel : Nat
  elsewhere : Nat
  loads : Nat
  stores : Nat
  blocks : UInt64 → Nat
  earlier : UInt64 → Nat

def Tally.begun : Tally := ⟨0, 0, 0, 0, 0, fun _ => 0, fun _ => 0⟩

def Tally.restarted (tally : Tally) : Tally :=
  { Tally.begun with earlier := fun block => tally.earlier block + tally.blocks block }

/-- An instruction with the page directory of the region of interest is the process's
own or the kernel's on its behalf. -/
def Tally.instruction (globals : Globals) (cpu : Cpu) (idle : Bool) (tally : Tally) : Tally :=
  if idle then tally
  else if cpu.pageDirectory = globals.roiCr3 then
    if cpu.inKernel then { tally with kernel := tally.kernel + 1 }
    else { tally with process := tally.process + 1 }
  else { tally with elsewhere := tally.elsewhere + 1 }

def Tally.access (globals : Globals) (cpu : Cpu) (access : Access) (tally : Tally) : Tally :=
  if !cpu.inKernel && cpu.pageDirectory == globals.roiCr3 then
    if access.isStore then { tally with stores := tally.stores + 1 }
    else { tally with loads := tally.loads + 1 }
  else tally

def Tally.block (globals : Globals) (cpu : Cpu) (vaddr : UInt64) (tally : Tally) : Tally :=
  if cpu.pageDirectory = globals.roiCr3 then
    { tally with blocks := fun block => tally.blocks block + if vaddr = block then 1 else 0 }
  else tally

def Tally.invoke (globals : Globals) (idle : Bool) (tally : Tally) : Invocation → Tally
  | .exec .updatePc _ cpu => tally.instruction globals cpu idle
  | .exec .hotBlocks vaddr cpu => tally.block globals cpu vaddr
  | .mem .sendDetailed _ cpu access => tally.access globals cpu access
  | _ => tally

/-! The counters of an entry. -/

structure Counters where
  user : UInt64
  other : UInt64
  detailed : UInt64
  loads : UInt64
  stores : UInt64
  deriving DecidableEq, Repr

def countersOf (thread : ThreadData) : Counters :=
  ⟨thread.icountUser, thread.icountOther, thread.icountDetailed, thread.loads, thread.stores⟩

/-- What the counters hold of a tally: user instructions are told by their page
directory alone. -/
def Tally.counters (tally : Tally) : Counters :=
  ⟨UInt64.ofNat (tally.process + tally.kernel), UInt64.ofNat tally.elsewhere,
    UInt64.ofNat (tally.process + tally.kernel + tally.elsewhere),
    UInt64.ofNat tally.loads, UInt64.ofNat tally.stores⟩

theorem ofNat_succ (count : Nat) : UInt64.ofNat (count + 1) = UInt64.ofNat count + 1 :=
  UInt64.ofNat_add count 1

theorem sync_detailed_counters (thread : ThreadData) :
    countersOf (syncDetailed thread).1 = countersOf thread := by
  unfold syncDetailed countersOf
  split <;> rfl

theorem instruction_counters (globals : Globals) (cpu : Cpu) (vaddr : UInt64) (thread : ThreadData)
    (tally : Tally) (counted : countersOf thread = tally.counters) :
    countersOf (insnExecUpdatePc globals cpu vaddr thread).1 =
      (tally.instruction globals cpu thread.idle).counters := by
  obtain ⟨user, other, detailed, loads, stores⟩ := Counters.mk.inj counted
  unfold insnExecUpdatePc Tally.instruction
  dsimp only
  cases asleep : thread.idle with
  | true => exact counted
  | false =>
      rw [if_neg Bool.false_ne_true, if_neg Bool.false_ne_true, sync_detailed_counters]
      unfold countDetailed
      by_cases inside : cpu.pageDirectory = globals.roiCr3
      · rw [if_pos inside, if_pos inside]
        cases cpu.inKernel with
        | true =>
            rw [if_pos rfl]
            simp only [countersOf, Tally.counters, user, other, detailed, loads, stores,
              ← Nat.add_assoc, Nat.add_right_comm _ 1, ofNat_succ]
        | false =>
            rw [if_neg Bool.false_ne_true]
            simp only [countersOf, Tally.counters, user, other, detailed, loads, stores,
              Nat.add_right_comm _ 1, ofNat_succ]
      · rw [if_neg inside, if_neg inside]
        simp only [countersOf, Tally.counters, user, other, detailed, loads, stores,
          ← Nat.add_assoc, ofNat_succ]

theorem access_counters (globals : Globals) (cpu : Cpu) (access : Access) (thread : ThreadData)
    (tally : Tally) (counted : countersOf thread = tally.counters) :
    countersOf (countAccess globals cpu access thread) =
      (tally.access globals cpu access).counters := by
  obtain ⟨user, other, detailed, loads, stores⟩ := Counters.mk.inj counted
  unfold countAccess Tally.access
  split
  · split
    · simp only [countersOf, Tally.counters, user, other, detailed, loads, stores, ofNat_succ]
    · simp only [countersOf, Tally.counters, user, other, detailed, loads, stores, ofNat_succ]
  · exact counted

theorem toggle_counters (thread : ThreadData) :
    countersOf (toggleCapture thread) = countersOf thread := by
  unfold toggleCapture
  split <;> rfl

theorem send_detailed_counters (globals : Globals) (cpu : Cpu) (access : Access)
    (thread : ThreadData) (tally : Tally) (counted : countersOf thread = tally.counters) :
    countersOf (memSendDetailed globals cpu access thread).1 =
      (tally.access globals cpu access).counters := by
  unfold memSendDetailed
  dsimp only
  split
  · exact access_counters globals cpu access _ tally ((toggle_counters thread).trans counted)
  · exact access_counters globals cpu access thread tally counted

theorem block_counters (globals : Globals) (cpu : Cpu) (vaddr : UInt64) (tally : Tally) :
    (tally.block globals cpu vaddr).counters = tally.counters := by
  unfold Tally.block
  split <;> rfl

theorem invoke_counters (globals : Globals) (thread : ThreadData) (invocation : Invocation)
    (result : Effect) (tally : Tally) (done : effect globals thread invocation = .ok result)
    (counted : countersOf thread = tally.counters) :
    countersOf result.1 = (tally.invoke globals thread.idle invocation).counters := by
  cases invocation with
  | exec callback userdata cpu =>
      have footprint := exec_written globals cpu userdata thread callback result done
      cases callback with
      | updatePc =>
          cases done
          exact instruction_counters globals cpu userdata thread tally counted
      | hotBlocks =>
          cases done
          exact counted.trans (block_counters globals cpu userdata tally).symm
      | _ =>
          rw [footprint]
          exact counted
  | mem callback userdata cpu access =>
      have footprint := mem_written globals cpu userdata access thread callback
      cases done
      cases callback with
      | sendDetailed => exact send_detailed_counters globals cpu access thread tally counted
      | updatePc | sendCacheonly =>
          rw [footprint]
          exact counted

/-! The map of block counters. -/

def blockCount (block : UInt64) : BlockCount → UInt64
  | [] => 0
  | (known, count) :: rest => if known = block then count else blockCount block rest

theorem bump_count (address block : UInt64) (blocks : BlockCount) :
    blockCount block (bump address blocks) =
      blockCount block blocks + if address = block then 1 else 0 := by
  induction blocks with
  | nil =>
      simp only [bump, blockCount]
      split <;> rfl
  | cons first rest ih =>
      obtain ⟨known, count⟩ := first
      by_cases here : known = address
      · by_cases asked : known = block
        · simp [bump, blockCount, here, ← asked]
        · simp [bump, blockCount, ← here, asked]
      · by_cases asked : known = block
        · obtain rfl := asked
          simp [bump, blockCount, here, Ne.symm here]
        · simpa [bump, blockCount, here, asked] using ih

theorem bump_keys (address : UInt64) (blocks : BlockCount) (key : UInt64) :
    key ∈ (bump address blocks).map Prod.fst ↔ key = address ∨ key ∈ blocks.map Prod.fst := by
  induction blocks with
  | nil => simp [bump]
  | cons first rest ih =>
      obtain ⟨known, count⟩ := first
      by_cases here : known = address
      · simp [bump, here]
      · rw [bump, if_neg here, List.map_cons, List.mem_cons, ih, List.map_cons, List.mem_cons]
        exact or_left_comm

theorem bump_distinct (address : UInt64) (blocks : BlockCount)
    (distinct : (blocks.map Prod.fst).Nodup) : ((bump address blocks).map Prod.fst).Nodup := by
  induction blocks with
  | nil => simp [bump]
  | cons first rest ih =>
      obtain ⟨known, count⟩ := first
      obtain ⟨absent, later⟩ := List.nodup_cons.mp distinct
      by_cases here : known = address
      · rw [bump, if_pos here]
        exact distinct
      · rw [bump, if_neg here]
        refine List.nodup_cons.mpr ⟨fun member => ?_, ih later⟩
        rcases (bump_keys address rest known).mp member with same | member
        · exact here same
        · exact absent member

theorem row_count (blocks : BlockCount) (row : UInt64 × UInt64)
    (distinct : (blocks.map Prod.fst).Nodup) (member : row ∈ blocks) :
    row.2 = blockCount row.1 blocks := by
  induction blocks with
  | nil => exact absurd member List.not_mem_nil
  | cons first rest ih =>
      obtain ⟨absent, later⟩ := List.nodup_cons.mp distinct
      rcases List.mem_cons.mp member with rfl | member
      · exact (if_pos rfl).symm
      · have apart : first.1 ≠ row.1 := by
          intro same
          rw [same] at absent
          exact absent (List.mem_map_of_mem member)
        rw [blockCount, if_neg apart]
        exact ih later member

/-- The map has a row for every executed block, with the count that 64 bits hold. -/
structure Counts (blocks : BlockCount) (executions : UInt64 → Nat) : Prop where
  distinct : (blocks.map Prod.fst).Nodup
  known : ∀ block, block ∈ blocks.map Prod.fst ↔ 0 < executions block
  counted : ∀ block, blockCount block blocks = UInt64.ofNat (executions block)

theorem nothing_counts : Counts [] fun _ => 0 where
  distinct := List.nodup_nil
  known := fun _ => ⟨fun absent => absurd absent List.not_mem_nil, fun some_ => absurd some_ (by decide)⟩
  counted := fun _ => rfl

theorem bump_counts (vaddr : UInt64) (blocks : BlockCount) (executions : UInt64 → Nat)
    (counts : Counts blocks executions) :
    Counts (bump vaddr blocks) fun block => executions block + if vaddr = block then 1 else 0 where
  distinct := bump_distinct vaddr blocks counts.distinct
  known := by
    intro block
    rw [bump_keys, counts.known]
    by_cases here : vaddr = block
    · simp [here]
    · simp [here, Ne.symm here]
  counted := by
    intro block
    rw [bump_count, counts.counted]
    by_cases here : vaddr = block
    · rw [if_pos here, if_pos here, ofNat_succ]
    · simp [here]

theorem row_counted (blocks : BlockCount) (executions : UInt64 → Nat)
    (counts : Counts blocks executions) (row : UInt64 × UInt64) (member : row ∈ blocks) :
    row.2.toNat = executions row.1 % UInt64.size := by
  rw [row_count blocks row counts.distinct member, counts.counted]
  exact UInt64.toNat_ofNat'

/-! One vcpu. -/

/-- All executions of a block since the start. -/
def Tally.executions (tally : Tally) (block : UInt64) : Nat :=
  tally.earlier block + tally.blocks block

/-- The entry's statistics are those of the tally, its block counters those of all
blocks since the start. -/
structure Tallied (vcpu : Vcpu) (tally : Tally) : Prop where
  counters : countersOf vcpu.data = tally.counters
  blocks : Counts vcpu.blockCnt tally.executions

theorem invoke_blocks (globals : Globals) (idle : Bool) (invocation : Invocation)
    (blocks : BlockCount) (tally : Tally) (counts : Counts blocks tally.executions) :
    Counts (countBlock globals blocks invocation)
      (tally.invoke globals idle invocation).executions := by
  have same : ∀ other : Tally, other.earlier = tally.earlier → other.blocks = tally.blocks →
      Counts blocks other.executions := by
    intro other earlier since
    unfold Tally.executions
    rw [earlier, since]
    exact counts
  cases invocation with
  | exec callback userdata cpu =>
      cases callback with
      | hotBlocks =>
          unfold countBlock tbExecHotBlocks Tally.invoke Tally.block
          dsimp only
          split
          · have bumped := bump_counts userdata blocks _ counts
            simp only [Tally.executions, Nat.add_assoc] at bumped
            exact bumped
          · exact counts
      | updatePc =>
          apply same <;>
          · unfold Tally.invoke Tally.instruction
            dsimp only
            split_ifs <;> rfl
      | _ => exact counts
  | mem callback userdata cpu access =>
      cases callback with
      | sendDetailed =>
          apply same <;>
          · unfold Tally.invoke Tally.access
            dsimp only
            split_ifs <;> rfl
      | updatePc | sendCacheonly => exact counts

theorem invoke_tallied (entry next : Timeline.Entry) (invocation : Invocation)
    (calls : List Call) (tally : Tally) (tallied : Tallied entry.vcpu tally)
    (taken : Timeline.step entry (.invoke invocation) = .ok (next, calls)) :
    Tallied next.vcpu (tally.invoke entry.globals entry.vcpu.data.idle invocation) := by
  obtain ⟨done, -⟩ := Timeline.step_invoke entry next invocation calls taken
  have counters := invoke_counters _ _ _ _ tally done tallied.counters
  obtain ⟨⟨result, seen⟩, invoked, same⟩ := map_ok _ _ _ taken
  obtain ⟨rfl, rfl⟩ := Prod.mk.inj same
  obtain ⟨effect, -, rest⟩ := map_ok _ _ _ invoked
  obtain ⟨rfl, rfl⟩ := Prod.mk.inj rest
  exact ⟨counters, invoke_blocks _ _ invocation _ tally tallied.blocks⟩

def quiet : Timeline.Event → Bool
  | .between .reset => false
  | event => System.settled event

theorem commanded_quiet (event : Timeline.Event) (command : System.commanded event = true) :
    quiet event = true := by
  unfold System.commanded at command
  split at command
  all_goals first | rfl | contradiction

theorem between_tallied (entry : Timeline.Entry) (happened : Timeline.Between) (tally : Tally)
    (still : quiet (.between happened) = true) (tallied : Tallied entry.vcpu tally) :
    Tallied (Timeline.between entry happened).1.vcpu tally := by
  have idled : ∀ thread, countersOf (vcpuIdleCb entry.globals thread).1 = countersOf thread := by
    intro thread
    unfold vcpuIdleCb countersOf
    dsimp only
    split <;> rfl
  have resumed : ∀ thread, countersOf (vcpuResumeCb thread).1 = countersOf thread := by
    intro thread
    unfold vcpuResumeCb countersOf
    split <;> rfl
  cases happened with
  | start threadid writer => contradiction
  | reset => contradiction
  | idle => exact ⟨(idled _).trans tallied.counters, tallied.blocks⟩
  | resume => exact ⟨(resumed _).trans tallied.counters, tallied.blocks⟩
  | closed | mode _ | roi _ | magic _ | notice _ | interrupt | interruptRet =>
      exact ⟨tallied.counters, tallied.blocks⟩

theorem quiet_tallied (events : List Timeline.Event) (entry final : Timeline.Entry)
    (calls : List Call) (tally : Tally) (still : ∀ event ∈ events, quiet event = true)
    (done : run Timeline.step entry events = .ok (final, calls))
    (tallied : Tallied entry.vcpu tally) : Tallied final.vcpu tally := by
  apply along_invariant Timeline.step (fun _ event => quiet event = true)
    (fun entry => Tallied entry.vcpu tally) _ entry final events calls
    (along_all Timeline.step _ entry events still) tallied done
  intro entry event next emitted tallied here taken
  cases event with
  | invoke invocation => contradiction
  | between happened =>
      obtain ⟨rfl, -⟩ := Timeline.step_between entry next happened emitted taken
      exact between_tallied entry happened tally here tallied

theorem begun_tallied (entry : Timeline.Entry) (threadid : UInt64) (writer : Nat) :
    Tallied (Timeline.between entry (.start threadid writer)).1.vcpu Tally.begun := by
  have opened : ∀ thread, countersOf (openFile writer (threadDataReset threadid thread)).1 =
      Tally.begun.counters := fun thread => rfl
  exact ⟨opened _, nothing_counts⟩

theorem restarted_tallied (entry : Timeline.Entry) (tally : Tally)
    (tallied : Tallied entry.vcpu tally) :
    Tallied (Timeline.between entry .reset).1.vcpu tally.restarted :=
  have moved : tally.restarted.executions = tally.executions := rfl
  ⟨rfl, moved ▸ tallied.blocks⟩

/-! Runs of the plugin. -/

variable {n : Nat}

def Tally.deferred (tally : Tally) : Option (Deferred n) → Tally
  | some (.reset _) => tally.restarted
  | _ => tally

/-- The vcpu's tally along a run. -/
def note (vcpu : Fin n) (trace : Trace n) (event : System.Event n) (_ : List (Action n))
    (tally : Tally) : Tally :=
  match event with
  | .invoke owner invocation =>
      if owner = vcpu then
        tally.invoke trace.globals (trace.threads vcpu).data.idle invocation
      else tally
  | .control (.command _ _ (.start _)) => if trace.recording then tally else Tally.begun
  | .control (.deferred index) => tally.deferred trace.pending[index]?
  | _ => tally

theorem nothing_tallied (entry final : Timeline.Entry) (calls : List Call) (tally : Tally)
    (done : run Timeline.step entry [] = .ok (final, calls)) (tallied : Tallied entry.vcpu tally) :
    Tallied final.vcpu tally :=
  quiet_tallied [] entry final calls tally (fun _ absent => absurd absent List.not_mem_nil) done
    tallied

theorem single_tallied (entry final : Timeline.Entry) (happened : Timeline.Between)
    (calls : List Call) (tally : Tally)
    (done : run Timeline.step entry [.between happened] = .ok (final, calls))
    (tallied : Tallied (Timeline.between entry happened).1.vcpu tally) :
    Tallied final.vcpu tally := by
  rw [run_singleton] at done
  obtain ⟨rfl, -⟩ := Timeline.step_between entry final happened calls done
  exact tallied

theorem deferred_tallied (callback : Option (Deferred n)) (events : List Timeline.Event)
    (entry final : Timeline.Entry) (calls : List Call) (tally : Tally)
    (becomes : System.DeferredBecomes callback events)
    (done : run Timeline.step entry events = .ok (final, calls))
    (tallied : Tallied entry.vcpu tally) : Tallied final.vcpu (tally.deferred callback) := by
  have commands : (∀ happened ∈ events, System.commanded happened = true) →
      Tallied final.vcpu tally := fun all => quiet_tallied events entry final calls tally
    (fun happened member => commanded_quiet happened (all happened member)) done tallied
  cases callback with
  | none => exact commands becomes
  | some callback =>
      cases callback with
      | modeSwitch request owner => exact commands becomes
      | reset owner =>
          obtain rfl := becomes
          exact single_tallied entry final .reset calls _ done (restarted_tallied entry tally tallied)
      | stop =>
          obtain rfl := becomes
          exact single_tallied entry final .closed calls _ done
            (between_tallied entry .closed tally rfl tallied)

theorem step_tallied (vcpu : Fin n) (trace next : Trace n) (event : System.Event n)
    (actions : List (Action n)) (tally : Tally) (tallied : Tallied (trace.threads vcpu) tally)
    (taken : System.step trace event = .ok (next, actions)) :
    Tallied (next.threads vcpu) (note vcpu trace event actions tally) := by
  obtain ⟨events, becomes, ran⟩ := System.step_becomes vcpu trace next event actions taken
  have commands : (∀ happened ∈ events, System.commanded happened = true) →
      Tallied (next.threads vcpu) tally := fun all => quiet_tallied events _ _ _ tally
    (fun happened member => commanded_quiet happened (all happened member)) ran tallied
  have single : ∀ (owner : Fin n) (one : Timeline.Between), quiet (.between one) = true →
      events = (if owner = vcpu then [.between one] else []) →
        Tallied (next.threads vcpu) tally := by
    rintro owner one silent rfl
    split at ran
    · exact single_tallied _ _ one _ tally ran (between_tallied _ one tally silent tallied)
    · exact nothing_tallied _ _ _ tally ran tallied
  cases event with
  | invoke owner invocation =>
      rw [show events = _ from becomes] at ran
      unfold note
      dsimp only
      by_cases own : owner = vcpu
      · rw [if_pos own, run_singleton] at ran
        rw [if_pos own]
        exact invoke_tallied _ _ invocation _ tally tallied ran
      · rw [if_neg own] at ran
        rw [if_neg own]
        exact nothing_tallied _ _ _ tally ran tallied
  | idle owner => exact single owner _ rfl becomes
  | resume owner => exact single owner _ rfl becomes
  | interrupt owner => exact single owner _ rfl becomes
  | interruptRet owner => exact single owner _ rfl becomes
  | syscall owner num pageDirectory => exact commands becomes
  | control event =>
      cases event with
      | command issuer answers command =>
          cases command with
          | start dir =>
              rw [show events = _ from becomes] at ran
              unfold note
              dsimp only
              cases busy : trace.recording with
              | true =>
                  rw [busy, if_pos rfl] at ran
                  exact nothing_tallied _ _ _ tally ran tallied
              | false =>
                  rw [busy, if_neg Bool.false_ne_true] at ran
                  exact single_tallied _ _ _ _ _ ran (begun_tallied _ _ _)
          | mode _ | stop | reset | gmm _ _ _ | magic _ => exact commands becomes
      | deferred index => exact deferred_tallied _ events _ _ _ tally becomes ran tallied

theorem run_tallied (vcpu : Fin n) (events : List (System.Event n)) (trace : Trace n)
    (tally : Tally) (actions : List (Action n))
    (done : run (watch System.step (note vcpu)) (install n, Tally.begun) events =
      .ok ((trace, tally), actions)) : Tallied (trace.threads vcpu) tally := by
  have first : Tallied ((install n).threads vcpu) Tally.begun :=
    ⟨rfl, nothing_counts⟩
  refine run_invariant _ (fun watched => Tallied (watched.1.threads vcpu) watched.2)
    (fun before event after emitted tallied taken => ?_) _ _ events actions first done
  obtain ⟨stepped, noted⟩ := (watch_iff _ _ _ _ _ _).mp taken
  rw [noted]
  exact step_tallied vcpu before.1 after.1 event emitted before.2 tallied stepped

end Hypersh.Tallies
