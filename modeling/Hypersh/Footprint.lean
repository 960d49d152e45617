import Mathlib.Data.List.Basic
import Hypersh.Transduction
import Hypersh.Callbacks
import Hypersh.Blocks

/-!
What a callback of a block can write and whom it can call. Every view of an entry
that reads none of the fields a callback writes is the same before and after it.
-/
namespace Hypersh.Footprint
open Callbacks Blocks

/-- The fields a block or instruction callback writes, taken from `after`. -/
def written (before after : ThreadData) : ExecCallback → ThreadData
  | .countInsns =>
      { before with icount := after.icount, icountReported := after.icountReported }
  | .countInsn => { before with icountCacheonlyPending := after.icountCacheonlyPending }
  | .branch => { before with brAddr := after.brAddr }
  | .pause | .cmpxchg => { before with flowcontrolTarget := after.flowcontrolTarget }
  | .updateTarget => { before with brTarget := after.brTarget, tbVaddr1 := after.tbVaddr1 }
  | .updateFallthrough => { before with brFallthrough := after.brFallthrough }
  | .branchCacheonly =>
      { before with
        brAddr := after.brAddr
        brFallthrough := after.brFallthrough
        icountCacheonly := after.icountCacheonly
        icountCacheonlyPending := after.icountCacheonlyPending
        icountReported := after.icountReported }
  | .updatePc =>
      { before with
        pc := after.pc
        icountDetailed := after.icountDetailed
        icountUser := after.icountUser
        icountOther := after.icountOther
        flowcontrolTarget := after.flowcontrolTarget }
  | .branchDetailed =>
      { before with
        brAddr := after.brAddr
        brFallthrough := after.brFallthrough
        idle := after.idle }
  | .vaddr2 => { before with tbVaddr2 := after.tbVaddr2 }
  | .hotBlocks | .branchRamAddr | .tbItlb | .tbItlb2 | .pcNext | .insnItlb | .sendIcache
  | .sendIcache2 => before

def memWritten (before after : ThreadData) : MemCallback → ThreadData
  | .updatePc => { before with pc := after.pc }
  | .sendCacheonly =>
      { before with
        icountCacheonly := after.icountCacheonly
        icountCacheonlyPending := after.icountCacheonlyPending
        icountReported := after.icountReported }
  | .sendDetailed =>
      { before with
        loads := after.loads
        stores := after.stores
        capturing := after.capturing
        captureNextAddr1 := after.captureNextAddr1
        captureNextAddr2 := after.captureNextAddr2
        capturedAddr1 := after.capturedAddr1
        capturedAddr2 := after.capturedAddr2 }

def mayCall : ExecCallback → Call → Bool
  | .countInsns, .instructionCount _ => true
  | .pause, .sync | .cmpxchg, .sync => true
  | .branchRamAddr, .translate _ _ => true
  | .branchCacheonly, .translate _ _ | .branchCacheonly, .cacheOnly _ .branchTaken _ _
  | .branchCacheonly, .cacheOnly _ .branchNotTaken _ _ | .branchCacheonly, .sync => true
  | .tbItlb, .translate _ _ | .tbItlb2, .translate _ _ | .insnItlb, .translate _ _ => true
  | .updatePc, .instructionEnd | .updatePc, .sync => true
  | .pcNext, .instructionBegin _ _ _ _ => true
  | .branchDetailed, .vcpuResume | .branchDetailed, .vcpuIdle
  | .branchDetailed, .instructionEnd | .branchDetailed, .instructionBranch _ => true
  | .sendIcache, .sendICache _ _ _ | .sendIcache2, .sendICache _ _ _ => true
  | _, _ => false

def memMayCall : MemCallback → Call → Bool
  | .sendCacheonly, .translate _ _ | .sendCacheonly, .cacheOnly _ .memRead _ _
  | .sendCacheonly, .cacheOnly _ .memWrite _ _ | .sendCacheonly, .sync => true
  | .sendDetailed, .instructionAbort | .sendDetailed, .translate _ _
  | .sendDetailed, .instructionMem _ => true
  | _, _ => false

theorem exec_written (globals : Globals) (cpu : Cpu) (userdata : UInt64) (thread : ThreadData)
    (callback : ExecCallback) (result : Effect)
    (done : execEffect globals cpu userdata thread callback = .ok result) :
    result.1 = written thread result.1 callback := by
  cases callback with
  | branchCacheonly =>
      rcases branch_cacheonly_cases userdata thread result done with ⟨-, rfl⟩ | ⟨-, -, rfl⟩
      · rfl
      · unfold syncReported
        split <;> rfl
  | branchDetailed =>
      rcases branch_detailed_cases globals cpu thread result done with ⟨-, rfl⟩ | ⟨-, -, rfl⟩
      · rfl
      · unfold crossRoi
        cases inRoi globals cpu <;> cases thread.idle <;> rfl
  | countInsns =>
      cases done
      dsimp only [tbExecCountInsns]
      split_ifs <;> rfl
  | pause =>
      cases done
      dsimp only [insnExecPause]
      split_ifs <;> rfl
  | cmpxchg =>
      cases done
      dsimp only [insnExecCmpxchg]
      split_ifs <;> rfl
  | updatePc =>
      cases done
      dsimp only [insnExecUpdatePc, syncDetailed, countDetailed]
      split_ifs <;> rfl
  | _ =>
      cases done
      rfl

theorem mem_written (globals : Globals) (cpu : Cpu) (userdata : UInt64) (access : Access)
    (thread : ThreadData) (callback : MemCallback) :
    (memEffect globals cpu userdata access thread callback).1 =
      memWritten thread (memEffect globals cpu userdata access thread callback).1 callback := by
  cases callback with
  | updatePc => rfl
  | sendCacheonly =>
      dsimp only [memEffect, memSendCacheonly, syncReported]
      split_ifs <;> rfl
  | sendDetailed =>
      dsimp only [memEffect, memSendDetailed, countAccess, toggleCapture]
      split_ifs <;> rfl

theorem sync_reported_may_call (thread : ThreadData) :
    (syncReported thread).2.all (mayCall .branchCacheonly) = true := by
  unfold syncReported
  split
  · rfl
  · rfl

theorem exec_may_call (globals : Globals) (cpu : Cpu) (userdata : UInt64) (thread : ThreadData)
    (callback : ExecCallback) (result : Effect)
    (done : execEffect globals cpu userdata thread callback = .ok result) :
    result.2.all (mayCall callback) = true := by
  cases callback with
  | branchCacheonly =>
      rcases branch_cacheonly_cases userdata thread result done with ⟨-, rfl⟩ | ⟨-, -, rfl⟩
      · rfl
      · rw [List.all_append, sync_reported_may_call]
        split <;> rfl
  | branchDetailed =>
      rcases branch_detailed_cases globals cpu thread result done with ⟨-, rfl⟩ | ⟨-, -, rfl⟩
      · rfl
      · unfold crossRoi
        cases inRoi globals cpu <;> cases thread.idle <;> rfl
  | countInsns =>
      cases done
      dsimp only [tbExecCountInsns]
      split_ifs <;> rfl
  | pause =>
      cases done
      dsimp only [insnExecPause]
      split_ifs <;> rfl
  | cmpxchg =>
      cases done
      dsimp only [insnExecCmpxchg]
      split_ifs <;> rfl
  | updatePc =>
      cases done
      dsimp only [insnExecUpdatePc, syncDetailed, countDetailed]
      split_ifs <;> rfl
  | tbItlb | tbItlb2 | insnItlb | pcNext | sendIcache | sendIcache2 =>
      cases done
      dsimp only [tbExecItlb, tbExecItlb2, insnExecItlb, insnExecPcNext, tbExecSendIcache,
        tbExecSendIcache2]
      split_ifs <;> rfl
  | _ =>
      cases done
      rfl

theorem mem_may_call (globals : Globals) (cpu : Cpu) (userdata : UInt64) (access : Access)
    (thread : ThreadData) (callback : MemCallback) :
    (memEffect globals cpu userdata access thread callback).2.all (memMayCall callback) = true := by
  cases callback with
  | updatePc => rfl
  | sendCacheonly =>
      dsimp only [memEffect, memSendCacheonly, syncReported]
      split_ifs <;> rfl
  | sendDetailed =>
      dsimp only [memEffect, memSendDetailed]
      split_ifs <;> rfl

/-- A reader of calls that knows none of those a callback can make finds nothing. -/
theorem unread {Seen : Type} (pick : Call → Option Seen) (may : Call → Bool) (calls : List Call)
    (only : calls.all may = true) (blind : ∀ call, may call = true → pick call = none) :
    calls.filterMap pick = [] := by
  rw [List.filterMap_eq_nil_iff]
  intro call member
  exact blind call (List.all_eq_true.mp only call member)

end Hypersh.Footprint
