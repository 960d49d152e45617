import Mathlib.Data.List.Basic
import Mathlib.Algebra.GroupWithZero.Nat
import Hypersh.Transduction
import Hypersh.Callbacks
import Hypersh.Blocks
import Hypersh.Footprint

/-!
The CacheOnly records of blocks instrumented in `ModeMemory` against a reference
that knows nothing of the per-vcpu fields: every started instruction followed by
its accesses, and one branch outcome when the block after a started branch is
entered. The pending count is the only thing that numbers the records.
-/
namespace Hypersh.CacheOnly
open Callbacks Blocks Footprint Transduction

/-- A CacheOnly record as it is written, and one of the reference with a true count. -/
structure Record (Count : Type) where
  icount : Count
  type : CacheOnlyType
  eip : UInt64
  address : UInt64
  deriving DecidableEq, Repr

def Record.stored (record : Record Nat) : Record UInt64 :=
  { record with icount := UInt64.ofNat record.icount }

def Record.said (record : Record UInt64) : Record Nat :=
  { record with icount := record.icount.toNat }

theorem stored_said_iff (record : Record Nat) :
    record.stored.said = record ↔ record.icount < UInt64.size := by
  obtain ⟨icount, type, eip, address⟩ := record
  simp only [Record.stored, Record.said, Record.mk.injEq, and_true, UInt64.toNat_ofNat']
  exact ⟨fun same => same ▸ Nat.mod_lt _ (by decide), Nat.mod_eq_of_lt⟩

def record : Call → Option (Record UInt64)
  | .cacheOnly icount type eip address => some ⟨icount, type, eip, address⟩
  | _ => none

def records (calls : List Call) : List (Record UInt64) := calls.filterMap record

/-- Reference events: an instruction is started, or something is recorded. -/
inductive Event where
  | started
  | happened (type : CacheOnlyType) (eip address : UInt64)
  deriving DecidableEq, Repr

def accessEvent (insn : Insn) (access : Cpu × Access) : Event :=
  .happened (if access.2.isStore then .memWrite else .memRead) insn.vaddr access.2.vaddr

def insnEvents (entry : Insn × Started) : List Event :=
  .started :: entry.2.accesses.map (accessEvent entry.1)

def branchEvents (previous : Option BlockRun) (block : BlockRun) : List Event :=
  match previous with
  | none => []
  | some before =>
      if before.branched then
        [.happened (if block.tb.vaddr = before.tb.nextPc then .branchNotTaken else .branchTaken)
          before.tb.lastInsn.vaddr block.tb.vaddr]
      else []

def reference : Option BlockRun → List BlockRun → List Event
  | _, [] => []
  | previous, block :: rest =>
      branchEvents previous block ++ block.executed.flatMap insnEvents ++
        reference (some block) rest

/-- Each record is numbered with the instructions started since the one before. -/
def number : Nat → List Event → List (Record Nat)
  | _, [] => []
  | count, .started :: rest => number (count + 1) rest
  | count, .happened type eip address :: rest => ⟨count, type, eip, address⟩ :: number 0 rest

def leftover : Nat → List Event → Nat
  | count, [] => count
  | count, .started :: rest => leftover (count + 1) rest
  | _, .happened _ _ _ :: rest => leftover 0 rest

theorem number_append (count : Nat) (front back : List Event) :
    number count (front ++ back) = number count front ++ number (leftover count front) back := by
  induction front generalizing count with
  | nil => rfl
  | cons event rest ih =>
      cases event with
      | started => exact ih (count + 1)
      | happened type eip address => exact congrArg (List.cons _) (ih 0)

theorem leftover_append (count : Nat) (front back : List Event) :
    leftover count (front ++ back) = leftover (leftover count front) back := by
  induction front generalizing count with
  | nil => rfl
  | cons event rest ih =>
      cases event with
      | started => exact ih (count + 1)
      | happened type eip address => exact ih 0

/-- The vcpu has recorded the reference events so far: its records are the
numbered ones and its pending count is what the last record left over, as 64 bits count. -/
structure Recorded (count : Nat) (events : List Event) (calls : List Call)
    (thread : ThreadData) : Prop where
  numbered : records calls = (number count events).map Record.stored
  pending : thread.icountCacheonlyPending = UInt64.ofNat (leftover count events)

theorem records_append (front back : List Call) :
    records (front ++ back) = records front ++ records back :=
  List.filterMap_append

theorem Recorded.append {count : Nat} {front back : List Event} {early late : List Call}
    {middle final : ThreadData} (first : Recorded count front early middle)
    (second : Recorded (leftover count front) back late final) :
    Recorded count (front ++ back) (early ++ late) final where
  numbered := by
    rw [records_append, first.numbered, second.numbered, number_append, List.map_append]
  pending := by rw [leftover_append, second.pending]

def SameBranch (before after : ThreadData) : Prop :=
  after.brAddr = before.brAddr ∧ after.brFallthrough = before.brFallthrough

theorem SameBranch.trans {first second third : ThreadData} (early : SameBranch first second)
    (late : SameBranch second third) : SameBranch first third :=
  ⟨late.1.trans early.1, late.2.trans early.2⟩

theorem sync_reported_silent (thread : ThreadData) :
    records (syncReported thread).2 = [] ∧
      (syncReported thread).1.icountCacheonlyPending = thread.icountCacheonlyPending ∧
      SameBranch thread (syncReported thread).1 := by
  unfold syncReported
  split
  · exact ⟨rfl, rfl, rfl, rfl⟩
  · exact ⟨rfl, rfl, rfl, rfl⟩

theorem mem_send_cacheonly_exact (access : Access) (ramAddr : UInt64) (thread : ThreadData) :
    records (memSendCacheonly access ramAddr thread).2 =
        [⟨thread.icountCacheonlyPending, if access.isStore then .memWrite else .memRead,
          thread.pc, access.vaddr⟩] ∧
      (memSendCacheonly access ramAddr thread).1.icountCacheonlyPending = 0 ∧
      SameBranch thread (memSendCacheonly access ramAddr thread).1 := by
  unfold memSendCacheonly
  by_cases none_ : thread.icountCacheonlyPending = 0
  · obtain ⟨silent, kept, branch⟩ := sync_reported_silent thread
    simp only [none_, ne_eq, not_true_eq_false, ↓reduceIte, records_append, silent]
    exact ⟨rfl, kept.trans none_, branch⟩
  · simp only [none_, ne_eq, not_false_eq_true, ↓reduceIte, records_append]
    obtain ⟨silent, kept, branch⟩ := sync_reported_silent (consumePending thread)
    rw [silent]
    exact ⟨rfl, kept, branch⟩

theorem access_recorded (globals : Globals) (insn : Insn) (access : Cpu × Access)
    (count : Nat) (vcpu : Vcpu) (pending : vcpu.data.icountCacheonlyPending = UInt64.ofNat count) :
    ∃ next calls, run (invoke globals) vcpu (accessInvocations
        [(.updatePc, insn.vaddr), (.sendCacheonly, insn.ramAddr)] access) = .ok (next, calls) ∧
      Recorded count [accessEvent insn access] calls next.data ∧
      SameBranch vcpu.data next.data := by
  let updated := (memUpdatePc insn.vaddr vcpu.data).1
  obtain ⟨sent, consumed, branch⟩ := mem_send_cacheonly_exact access.2 insn.ramAddr updated
  refine ⟨⟨(memSendCacheonly access.2 insn.ramAddr updated).1, vcpu.blockCnt⟩,
    (memSendCacheonly access.2 insn.ramAddr updated).2, ?_, ⟨?_, consumed⟩, branch⟩
  · simp [run, accessInvocations, invoke, effect, memEffect, countBlock, Except.map, updated,
      memUpdatePc]
  · rw [sent, show updated.icountCacheonlyPending = UInt64.ofNat count from pending]
    rfl

theorem accesses_recorded (globals : Globals) (insn : Insn) (accesses : List (Cpu × Access))
    (count : Nat) (vcpu : Vcpu) (pending : vcpu.data.icountCacheonlyPending = UInt64.ofNat count) :
    ∃ next calls, run (invoke globals) vcpu (accesses.flatMap (accessInvocations
        [(.updatePc, insn.vaddr), (.sendCacheonly, insn.ramAddr)])) = .ok (next, calls) ∧
      Recorded count (accesses.map (accessEvent insn)) calls next.data ∧
      SameBranch vcpu.data next.data := by
  induction accesses generalizing count vcpu with
  | nil => exact ⟨vcpu, [], rfl, ⟨rfl, pending⟩, rfl, rfl⟩
  | cons access rest ih =>
      obtain ⟨middle, early, taken, first, kept⟩ :=
        access_recorded globals insn access count vcpu pending
      obtain ⟨final, late, tail, second, kept'⟩ := ih _ middle first.pending
      exact ⟨final, early ++ late, run_append_ok _ _ _ _ _ _ _ _ taken tail,
        first.append second, kept.trans kept'⟩

theorem insn_recorded (globals : Globals) (tb : Tb) (index : Nat) (insn : Insn)
    (started : Started) (count : Nat) (vcpu : Vcpu) (fetched : tb.insns[index]? = some insn)
    (pending : vcpu.data.icountCacheonlyPending = UInt64.ofNat count) :
    ∃ next calls, run (invoke globals) vcpu (insnInvocations .memory tb index started) =
        .ok (next, calls) ∧
      Recorded count (insnEvents (insn, started)) calls next.data ∧
      next.data.brAddr =
        (if tb.isBranch ∧ tb.lastIndex = index then tb.lastInsn.vaddr else vcpu.data.brAddr) ∧
      next.data.brFallthrough = vcpu.data.brFallthrough := by
  -- The counter runs before the branch callbacks and both before the accesses.
  obtain ⟨begun, early, before, counted, branch, fallthrough⟩ : ∃ begun calls,
      run (invoke globals) vcpu (execInvocations (insnHooks .memory tb index) started.cpu) =
        .ok (begun, calls) ∧
      Recorded count [.started] calls begun.data ∧
      begun.data.brAddr =
        (if tb.isBranch ∧ tb.lastIndex = index then tb.lastInsn.vaddr else vcpu.data.brAddr) ∧
      begun.data.brFallthrough = vcpu.data.brFallthrough := by
    rw [insn_hooks_memory tb index insn fetched]
    by_cases last : tb.isBranch = true ∧ tb.lastIndex = index
    · refine ⟨{ vcpu with data := { vcpu.data with
          icountCacheonlyPending := vcpu.data.icountCacheonlyPending + 1
          brAddr := tb.lastInsn.vaddr } },
        [.translate tb.lastInsn.vaddr tb.lastInsn.ramAddr], ?_, ⟨rfl, ?_⟩, ?_, rfl⟩
      · rw [if_pos last]
        rfl
      · simp [leftover, pending]
      · rw [if_pos last]
    · refine ⟨{ vcpu with data := { vcpu.data with
          icountCacheonlyPending := vcpu.data.icountCacheonlyPending + 1 } },
        [], ?_, ⟨rfl, ?_⟩, ?_, rfl⟩
      · rw [if_neg last]
        rfl
      · simp [leftover, pending]
      · rw [if_neg last]
  obtain ⟨final, late, after, recorded, same⟩ :=
    accesses_recorded globals insn started.accesses _ begun counted.pending
  refine ⟨final, early ++ late, ?_, counted.append recorded, same.1.trans branch,
    same.2.trans fallthrough⟩
  rw [insnInvocations, mem_hooks_memory tb index insn fetched]
  exact run_append_ok _ _ _ _ _ _ _ _ before after

theorem body_recorded (globals : Globals) (block : BlockRun) (count : Nat) (events : List Event)
    (before : List Call) (vcpu : Vcpu) (recorded : Recorded count events before vcpu.data)
    (clear : vcpu.data.brAddr = 0)
    (fallthrough : block.tb.isBranch = true → vcpu.data.brFallthrough = block.tb.nextPc) :
    ∃ final calls, run (invoke globals) vcpu (block.body .memory) = .ok (final, calls) ∧
      Recorded count (events ++ block.executed.flatMap insnEvents) (before ++ calls) final.data ∧
      Awaiting (some block) final.data := by
  obtain ⟨final, calls, done, recorded', address, kept⟩ := body_rule globals .memory block
    (fun index current calls =>
      Recorded count (events ++ (block.executed.take index).flatMap insnEvents) calls current.data ∧
      current.data.brAddr = branchAt block.tb index ∧
      current.data.brFallthrough = vcpu.data.brFallthrough)
    (by
      rintro index insn started current calls fetched begun ⟨held, address, kept⟩
      obtain ⟨next, later, taken, recorded', branch, same⟩ :=
        insn_recorded globals block.tb index insn started _ current fetched held.pending
      refine ⟨next, later, taken, ?_, ?_, same.trans kept⟩
      · rw [executed_take_succ block index insn started fetched begun, List.flatMap_append,
          List.flatMap_singleton, ← List.append_assoc]
        exact held.append recorded'
      · rw [branch, address, branch_at_succ block.tb index insn fetched])
    vcpu before ⟨by simpa using recorded, by simpa [branchAt] using clear, rfl⟩
  refine ⟨final, calls, done, by simpa only [executed_take_all] using recorded', ?_, ?_⟩
  · rw [address, branch_at_end]
  · rintro _ ⟨⟩ branched
    rw [kept]
    exact fallthrough (by simp_all [BlockRun.branched])

theorem branch_cacheonly_silent (ramAddr : UInt64) (thread : ThreadData)
    (clear : thread.brAddr = 0) : tbExecBranchCacheonly ramAddr thread = .ok (thread, []) := by
  rw [tbExecBranchCacheonly, if_pos clear]

theorem branch_cacheonly_exact (ramAddr : UInt64) (thread : ThreadData)
    (waiting : thread.brAddr ≠ 0) (fallthrough : thread.brFallthrough ≠ 0) :
    ∃ next calls, tbExecBranchCacheonly ramAddr thread = .ok (next, calls) ∧
      records calls = [⟨thread.icountCacheonlyPending,
        if thread.brTarget = thread.brFallthrough then .branchNotTaken else .branchTaken,
        thread.brAddr, thread.brTarget⟩] ∧
      next.icountCacheonlyPending = 0 ∧ next.brAddr = 0 := by
  rw [tbExecBranchCacheonly, if_neg waiting, if_neg fallthrough]
  let sent := clearBranch (consumePending thread)
  have synced := sync_reported_silent sent
  refine ⟨(syncReported sent).1, _ ++ (syncReported sent).2, rfl, ?_, synced.2.1, synced.2.2.1⟩
  rw [records_append, synced.1]
  rfl

/-- Block entry runs the branch sender on the updated target and stores the
block's own fall-through only afterwards. -/
theorem entry_run (globals : Globals) (block : BlockRun) (vcpu : Vcpu) (next : ThreadData)
    (calls : List Call)
    (sent : tbExecBranchCacheonly block.tb.lastInsn.ramAddr
      (tbExecUpdateTarget block.tb.vaddr vcpu.data).1 = .ok (next, calls)) :
    ∃ blocks, run (invoke globals) vcpu (block.entry .memory) = .ok
      (⟨if block.tb.isBranch then (tbExecUpdateFallthrough block.tb.nextPc next).1 else next,
        blocks⟩, calls) := by
  refine ⟨tbExecHotBlocks globals block.cpu block.tb.vaddr vcpu.blockCnt, ?_⟩
  rw [BlockRun.entry, entry_hooks_memory]
  have quiet : (tbExecUpdateTarget block.tb.vaddr vcpu.data).2 = [] := rfl
  have quiet' : (tbExecUpdateFallthrough block.tb.nextPc next).2 = [] := rfl
  cases branch : block.tb.isBranch <;>
    simp [run, execInvocations, invoke, effect, execEffect, countBlock, sent, quiet, quiet',
      Except.map]

theorem entry_recorded (globals : Globals) (previous : Option BlockRun) (block : BlockRun)
    (nonzero : ∀ before, previous = some before → before.tb.Nonzero)
    (count : Nat) (vcpu : Vcpu) (pending : vcpu.data.icountCacheonlyPending = UInt64.ofNat count)
    (awaiting : Awaiting previous vcpu.data) :
    ∃ next calls, run (invoke globals) vcpu (block.entry .memory) = .ok (next, calls) ∧
      Recorded count (branchEvents previous block) calls next.data ∧
      next.data.brAddr = 0 ∧
      (block.tb.isBranch = true → next.data.brFallthrough = block.tb.nextPc) := by
  -- However the sender ends, the block's own fall-through is stored after it.
  have finish : ∀ (sent : ThreadData) (calls : List Call),
      tbExecBranchCacheonly block.tb.lastInsn.ramAddr
        (tbExecUpdateTarget block.tb.vaddr vcpu.data).1 = .ok (sent, calls) →
      Recorded count (branchEvents previous block) calls sent → sent.brAddr = 0 →
      ∃ next calls, run (invoke globals) vcpu (block.entry .memory) = .ok (next, calls) ∧
        Recorded count (branchEvents previous block) calls next.data ∧
        next.data.brAddr = 0 ∧
        (block.tb.isBranch = true → next.data.brFallthrough = block.tb.nextPc) := by
    intro sent calls taken recorded clear
    rcases entry_run globals block vcpu sent calls taken with ⟨blocks, done⟩
    refine ⟨_, calls, done, ?_⟩
    cases branch : block.tb.isBranch
    · exact ⟨recorded, clear, fun absurd_ => nomatch absurd_⟩
    · exact ⟨⟨recorded.numbered, recorded.pending⟩, clear, fun _ => rfl⟩
  cases previous with
  | none =>
      exact finish _ [] (branch_cacheonly_silent _ _ awaiting.address)
        ⟨rfl, pending⟩ awaiting.address
  | some before =>
      by_cases branched : before.branched = true
      · have address : vcpu.data.brAddr = before.tb.lastInsn.vaddr := by
          simpa [Option.filter, branched] using awaiting.address
        have fallthrough := awaiting.fallthrough before rfl branched
        have isBranch : before.tb.isBranch = true := by
          simp_all [BlockRun.branched]
        have known := nonzero before rfl isBranch
        let updated := (tbExecUpdateTarget block.tb.vaddr vcpu.data).1
        have address' : updated.brAddr = before.tb.lastInsn.vaddr := address
        have fallthrough' : updated.brFallthrough = before.tb.nextPc := fallthrough
        have pending' : updated.icountCacheonlyPending = UInt64.ofNat count := pending
        rcases branch_cacheonly_exact block.tb.lastInsn.ramAddr updated
          (by rw [address']; exact known.1) (by rw [fallthrough']; exact known.2) with
          ⟨next, calls, taken, sent, consumed, clear⟩
        apply finish next calls taken _ clear
        constructor
        · rw [sent, address', fallthrough', pending', branchEvents, if_pos branched]
          rfl
        · rw [consumed, branchEvents, if_pos branched]
          rfl
      · have clear : vcpu.data.brAddr = 0 := by
          simpa [Option.filter, branched] using awaiting.address
        exact finish _ [] (branch_cacheonly_silent _ _ clear)
          ⟨by simp [branchEvents, branched, number, records],
            by rw [branchEvents, if_neg branched]; exact pending⟩ clear

theorem block_recorded (globals : Globals) (previous : Option BlockRun) (block : BlockRun)
    (nonzero : ∀ before, previous = some before → before.tb.Nonzero)
    (count : Nat) (vcpu : Vcpu) (pending : vcpu.data.icountCacheonlyPending = UInt64.ofNat count)
    (awaiting : Awaiting previous vcpu.data) :
    ∃ next calls, run (invoke globals) vcpu (block.invocations .memory) = .ok (next, calls) ∧
      Recorded count (branchEvents previous block ++ block.executed.flatMap insnEvents) calls
        next.data ∧
      Awaiting (some block) next.data := by
  rcases entry_recorded globals previous block nonzero count vcpu pending awaiting with
    ⟨entered, early, first, recorded, clear, fallthrough⟩
  rcases body_recorded globals block count _ early entered recorded clear fallthrough with
    ⟨final, late, second, recorded', awaiting'⟩
  exact ⟨final, early ++ late, run_append_ok _ _ _ _ _ _ _ _ first second, recorded', awaiting'⟩

theorem blocks_recorded (globals : Globals) (previous : Option BlockRun) (blocks : List BlockRun)
    (nonzeroBefore : ∀ before, previous = some before → before.tb.Nonzero)
    (nonzero : ∀ block ∈ blocks, block.tb.Nonzero)
    (count : Nat) (vcpu : Vcpu) (pending : vcpu.data.icountCacheonlyPending = UInt64.ofNat count)
    (awaiting : Awaiting previous vcpu.data) :
    ∃ final calls, run (invoke globals) vcpu
        (blocks.flatMap (BlockRun.invocations .memory)) = .ok (final, calls) ∧
      Recorded count (reference previous blocks) calls final.data := by
  induction blocks generalizing previous count vcpu with
  | nil => exact ⟨vcpu, [], rfl, rfl, pending⟩
  -- The block just executed becomes the one whose branch may be pending.
  | cons block rest ih =>
      rcases block_recorded globals previous block nonzeroBefore count vcpu pending awaiting with
        ⟨middle, early, first, recorded, awaiting'⟩
      have here := nonzero block List.mem_cons_self
      rcases ih (some block) (by rintro _ ⟨⟩; exact here)
        (fun later member => nonzero later (List.mem_cons_of_mem block member)) _ middle
        recorded.pending awaiting' with ⟨final, late, second, recorded'⟩
      refine ⟨final, early ++ late, ?_, recorded.append recorded'⟩
      rw [List.flatMap_cons]
      exact run_append_ok _ _ _ _ _ _ _ _ first second

/-! The same counting at every point between two callbacks. -/

def toldOf (calls : List Call) : Nat := ((records calls).map fun record => record.icount.toNat).sum

theorem told_silent (calls : List Call) (silent : records calls = []) : toldOf calls = 0 := by
  rw [toldOf, silent]
  rfl

theorem told_append (early late : List Call) :
    toldOf (early ++ late) = toldOf early + toldOf late := by
  rw [toldOf, records_append, List.map_append, List.sum_append]
  rfl

def startsInsn : Invocation → Bool
  | .exec .countInsn _ _ => true
  | _ => false

theorem quiet_conserves (result : Effect) (thread : ThreadData) (silent : records result.2 = [])
    (kept : result.1.icountCacheonlyPending = thread.icountCacheonlyPending) :
    toldOf result.2 + result.1.icountCacheonlyPending.toNat =
      thread.icountCacheonlyPending.toNat := by
  rw [told_silent _ silent, kept, Nat.zero_add]

theorem branch_cacheonly_conserves (ramAddr : UInt64) (thread : ThreadData) (result : Effect)
    (sent : tbExecBranchCacheonly ramAddr thread = .ok result) :
    toldOf result.2 + result.1.icountCacheonlyPending.toNat =
      thread.icountCacheonlyPending.toNat := by
  rcases branch_cacheonly_cases ramAddr thread result sent with ⟨-, rfl⟩ | ⟨-, -, rfl⟩
  · exact Nat.zero_add _
  · have synced := sync_reported_silent (clearBranch (consumePending thread))
    rw [told_append, told_silent _ synced.1, synced.2.1]
    simp [toldOf, records, record, consumePending, clearBranch, List.filterMap_cons]

theorem mem_send_cacheonly_conserves (access : Access) (ramAddr : UInt64) (thread : ThreadData) :
    toldOf (memSendCacheonly access ramAddr thread).2 +
        (memSendCacheonly access ramAddr thread).1.icountCacheonlyPending.toNat =
      thread.icountCacheonlyPending.toNat := by
  have sent := mem_send_cacheonly_exact access ramAddr thread
  simp [toldOf, sent.1, sent.2.1]

theorem exec_conserves (globals : Globals) (cpu : Cpu) (userdata : UInt64)
    (thread : ThreadData) (callback : ExecCallback) (result : Effect)
    (other : callback ≠ .countInsn)
    (done : execEffect globals cpu userdata thread callback = .ok result) :
    toldOf result.2 + result.1.icountCacheonlyPending.toNat =
      thread.icountCacheonlyPending.toNat := by
  by_cases sender : callback = .branchCacheonly
  · subst sender
    exact branch_cacheonly_conserves userdata thread result done
  · apply quiet_conserves
    · apply unread record _ _ (exec_may_call globals cpu userdata thread callback result done)
      intro call may
      cases call with
      | cacheOnly icount type eip address => cases callback <;> contradiction
      | _ => rfl
    · rw [exec_written globals cpu userdata thread callback result done]
      cases callback with
      | countInsn => exact absurd rfl other
      | branchCacheonly => exact absurd rfl sender
      | _ => rfl

theorem mem_conserves (globals : Globals) (cpu : Cpu) (userdata : UInt64) (access : Access)
    (thread : ThreadData) (callback : MemCallback) :
    toldOf (memEffect globals cpu userdata access thread callback).2 +
        (memEffect globals cpu userdata access thread callback).1.icountCacheonlyPending.toNat =
      thread.icountCacheonlyPending.toNat := by
  by_cases sender : callback = .sendCacheonly
  · subst sender
    exact mem_send_cacheonly_conserves access userdata thread
  · apply quiet_conserves
    · apply unread record _ _ (mem_may_call globals cpu userdata access thread callback)
      intro call may
      cases call with
      | cacheOnly icount type eip address => cases callback <;> contradiction
      | _ => rfl
    · rw [mem_written globals cpu userdata access thread callback]
      cases callback with
      | sendCacheonly => exact absurd rfl sender
      | updatePc | sendDetailed => rfl

/-- Every callback of the plugin leaves told and pending counts alone, counts one
instruction, or moves the pending count into a record. Only counting can run over. -/
theorem effect_conserves (globals : Globals) (thread : ThreadData) (invocation : Invocation)
    (result : Effect) (done : effect globals thread invocation = .ok result) :
    ∃ wraps, toldOf result.2 + result.1.icountCacheonlyPending.toNat + wraps * UInt64.size =
      thread.icountCacheonlyPending.toNat + [invocation].countP startsInsn := by
  cases invocation with
  | mem callback userdata cpu access =>
      cases done
      refine ⟨0, ?_⟩
      rw [Nat.zero_mul]
      exact mem_conserves globals cpu userdata access thread callback
  | exec callback userdata cpu =>
      by_cases counter : callback = .countInsn
      · subst counter
        cases done
        refine ⟨(thread.icountCacheonlyPending.toNat + 1) / UInt64.size, ?_⟩
        have counted : (thread.icountCacheonlyPending + 1).toNat =
            (thread.icountCacheonlyPending.toNat + 1) % UInt64.size := UInt64.toNat_add _ _
        rw [show toldOf (insnExecCountInsn thread).2 = 0 from rfl,
          show (insnExecCountInsn thread).1.icountCacheonlyPending =
            thread.icountCacheonlyPending + 1 from rfl, counted, Nat.zero_add, Nat.mul_comm]
        exact Nat.mod_add_div _ _
      · have none_ : [Invocation.exec callback userdata cpu].countP startsInsn = 0 := by
          cases callback <;> first | rfl | contradiction
        refine ⟨0, ?_⟩
        rw [none_, Nat.zero_mul]
        exact exec_conserves globals cpu userdata thread callback result counter done

theorem run_conserves (globals : Globals) (vcpu final : Vcpu) (invocations : List Invocation)
    (calls : List Call) (done : run (invoke globals) vcpu invocations = .ok (final, calls)) :
    ∃ wraps, toldOf calls + final.data.icountCacheonlyPending.toNat + wraps * UInt64.size =
      vcpu.data.icountCacheonlyPending.toNat + invocations.countP startsInsn := by
  induction invocations generalizing vcpu calls with
  | nil =>
      cases done
      exact ⟨0, by simp [toldOf, records]⟩
  | cons invocation rest ih =>
      obtain ⟨next, early, late, first, tail, rfl⟩ := (run_cons_iff _ _ _ _ _ _).mp done
      obtain ⟨here, one⟩ := effect_conserves globals vcpu.data invocation _
        (invoke_effect _ _ _ _ _ first)
      obtain ⟨there, others⟩ := ih next late tail
      refine ⟨here + there, ?_⟩
      dsimp only at one
      rw [told_append, Nat.add_mul, ← List.singleton_append, List.countP_append]
      omega

theorem insn_starts_once (tb : Tb) (index : Nat) (insn : Insn) (started : Started)
    (fetched : tb.insns[index]? = some insn) :
    (insnInvocations .memory tb index started).countP startsInsn = 1 := by
  have silent : ∀ access,
      (accessInvocations (memHooks .memory tb index) access).countP startsInsn = 0 := by
    intro access
    rw [mem_hooks_memory tb index insn fetched]
    rfl
  rw [insnInvocations, insn_hooks_memory tb index insn fetched, List.countP_append,
    List.countP_flatMap]
  by_cases last : tb.isBranch = true ∧ tb.lastIndex = index <;>
    simp [last, execInvocations, startsInsn, List.countP_cons, Function.comp_def, silent]

theorem block_starts (block : BlockRun) :
    (block.invocations .memory).countP startsInsn = block.started.length := by
  have entry : (block.entry .memory).countP startsInsn = 0 := by
    rw [BlockRun.entry, entry_hooks_memory]
    cases block.tb.isBranch <;> rfl
  have body : ∀ (rest : List Started) (index : Nat),
      index + rest.length ≤ block.tb.insns.length →
      ((rest.zipIdx index).flatMap fun entry =>
        insnInvocations .memory block.tb entry.2 entry.1).countP startsInsn = rest.length := by
    intro rest
    induction rest with
    | nil => intros; rfl
    | cons started rest ih =>
        intro index bound
        simp only [List.length_cons] at bound
        have fetched := List.getElem?_eq_getElem (show index < block.tb.insns.length by omega)
        rw [List.zipIdx_cons, List.flatMap_cons, List.countP_append,
          insn_starts_once block.tb index _ started fetched, ih (index + 1) (by omega),
          List.length_cons, Nat.add_comm]
  rw [BlockRun.invocations, List.countP_append, entry, BlockRun.body,
    body block.started 0 (by simpa using block.bounded), Nat.zero_add]

/-- A vcpu in `ModeMemory` with nothing pending sends exactly the reference records,
their icounts modulo 2 to the 64. They say what the reference says exactly when none
counts that many instructions. At every point between two callbacks the icounts sent and
the pending count add up to the instructions started, but for multiples of 2 to the 64. -/
theorem cacheonly_stream_exact (globals : Globals) (vcpu : Vcpu) (blocks : List BlockRun)
    (noBranch : vcpu.data.brAddr = 0) (nonePending : vcpu.data.icountCacheonlyPending = 0)
    (nonzero : ∀ block ∈ blocks, block.tb.Nonzero) :
    ∃ final calls,
      run (invoke globals) vcpu (blocks.flatMap (BlockRun.invocations .memory)) =
        .ok (final, calls) ∧
      records calls = (number 0 (reference none blocks)).map Record.stored ∧
      ((records calls).map Record.said = number 0 (reference none blocks) ↔
        ∀ record ∈ number 0 (reference none blocks), record.icount < UInt64.size) ∧
      final.data.icountCacheonlyPending = UInt64.ofNat (leftover 0 (reference none blocks)) ∧
      (∀ front back, blocks.flatMap (BlockRun.invocations .memory) = front ++ back →
        ∃ middle early wraps, run (invoke globals) vcpu front = .ok (middle, early) ∧
          toldOf early + middle.data.icountCacheonlyPending.toNat + wraps * UInt64.size =
            front.countP startsInsn) ∧
      ∀ block : BlockRun,
        (block.invocations .memory).countP startsInsn = block.started.length := by
  obtain ⟨final, calls, done, recorded⟩ := blocks_recorded globals none blocks
    (fun _ absent => nomatch absent) nonzero 0 vcpu nonePending (awaiting_none vcpu.data noBranch)
  refine ⟨final, calls, done, recorded.numbered, ?_, recorded.pending, ?_, block_starts⟩
  · have each := List.map_inj_left (l := number 0 (reference none blocks))
      (f := Record.said ∘ Record.stored) (g := id)
    rw [List.map_id] at each
    rw [recorded.numbered, List.map_map, each]
    exact forall_congr' fun record => forall_congr' fun _ => stored_said_iff record
  · intro front back split_
    rw [split_] at done
    obtain ⟨middle, early, _, first, -, -⟩ := (run_append_iff _ _ _ _ _ _).mp done
    obtain ⟨wraps, sum⟩ := run_conserves globals vcpu middle front early first
    refine ⟨middle, early, wraps, first, ?_⟩
    rw [sum, nonePending]
    exact Nat.zero_add _

def jumpedThroughMemory : List BlockRun :=
  [jumpBlock 0x1000 0x9000 [⟨0x5000, 0xd000, false⟩], jumpBlock 0x2000 0xa000 []]

theorem jumped_through_memory_exact :
    ∃ final calls,
      run (invoke ⟨.memory, 0, 0⟩) ⟨installed, []⟩
          (jumpedThroughMemory.flatMap (BlockRun.invocations .memory)) = .ok (final, calls) ∧
      (records calls).map Record.said = number 0 (reference none jumpedThroughMemory) := by
  obtain ⟨final, calls, done, -, said, -⟩ :=
    cacheonly_stream_exact ⟨.memory, 0, 0⟩ ⟨installed, []⟩ jumpedThroughMemory rfl rfl (by
      intro block member
      simp only [jumpedThroughMemory, List.mem_cons, List.not_mem_nil, or_false] at member
      obtain rfl | rfl := member
      · exact fun _ => ⟨by decide, by decide⟩
      · exact fun _ => ⟨by decide, by decide⟩)
  exact ⟨final, calls, done, said.mpr (by decide)⟩

example : number 0 (reference none jumpedThroughMemory) =
    [⟨1, .memRead, 0x1000, 0x5000⟩, ⟨0, .branchTaken, 0x1000, 0x2000⟩] := by decide

/-! A count that runs over. -/

/-- Many instructions that touch no memory, and a jump through memory. -/
def waited (times : Nat) : List BlockRun :=
  List.replicate times (straightBlock 0x1000 0x9000 0) ++
    [jumpBlock 0x2000 0xa000 [⟨0x5000, 0xd000, false⟩]]

theorem waited_reference (times : Nat) (previous : Option BlockRun)
    (straight : ∀ before, previous = some before → before.branched = false) :
    reference previous (waited times) =
      List.replicate (times + 1) .started ++ [.happened .memRead 0x2000 0x5000] := by
  have quiet : ∀ block, branchEvents previous block = [] := by
    intro block
    unfold branchEvents
    split
    · rfl
    · rename_i before
      rw [if_neg (by rw [straight before rfl]; exact Bool.false_ne_true)]
  induction times generalizing previous with
  | zero => simp [waited, reference, quiet, BlockRun.executed, jumpBlock, insnEvents, accessEvent]
  | succ times ih =>
      have last : ∀ before, some (straightBlock 0x1000 0x9000 0) = some before →
          before.branched = false := by
        rintro _ ⟨⟩
        rfl
      have rest := ih (some (straightBlock 0x1000 0x9000 0)) last fun block => rfl
      rw [waited] at rest
      rw [waited, List.replicate_succ, List.cons_append, reference, rest, quiet]
      rfl

theorem number_started (times count : Nat) (rest : List Event) :
    number count (List.replicate times .started ++ rest) = number (count + times) rest := by
  induction times generalizing count with
  | zero => rfl
  | succ times ih =>
      rw [List.replicate_succ, List.cons_append, number, ih (count + 1), Nat.add_right_comm]
      rfl

theorem waited_nonzero (times : Nat) : ∀ block ∈ waited times, block.tb.Nonzero := by
  intro block member
  obtain straight | jump := List.mem_append.mp member
  · obtain rfl := List.eq_of_mem_replicate straight
    exact fun branch => nomatch branch
  · obtain rfl := List.mem_singleton.mp jump
    exact fun _ => ⟨by decide, by decide⟩

/-- After 2 to the 64 instructions without a record, the next one says 1. -/
theorem record_runs_over :
    installed.brAddr = 0 ∧ installed.icountCacheonlyPending = 0 ∧
      (∀ block ∈ waited UInt64.size, block.tb.Nonzero) ∧
      ∃ final calls,
        run (invoke ⟨.memory, 0, 0⟩) ⟨installed, []⟩
            ((waited UInt64.size).flatMap (BlockRun.invocations .memory)) = .ok (final, calls) ∧
        (records calls).map Record.said = [⟨1, .memRead, 0x2000, 0x5000⟩] ∧
        number 0 (reference none (waited UInt64.size)) =
          [⟨UInt64.size + 1, .memRead, 0x2000, 0x5000⟩] := by
  have numbered : number 0 (reference none (waited UInt64.size)) =
      [⟨UInt64.size + 1, .memRead, 0x2000, 0x5000⟩] := by
    rw [waited_reference _ none (fun _ absent => nomatch absent), number_started, Nat.zero_add,
      number, number]
  obtain ⟨final, calls, done, recorded⟩ := blocks_recorded ⟨.memory, 0, 0⟩ none
    (waited UInt64.size) (fun _ absent => nomatch absent) (waited_nonzero _) 0 ⟨installed, []⟩ rfl
    (awaiting_none installed rfl)
  refine ⟨rfl, rfl, waited_nonzero _, final, calls, done, ?_, numbered⟩
  rw [recorded.numbered, numbered]
  decide

end Hypersh.CacheOnly
