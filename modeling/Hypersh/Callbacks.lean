import Mathlib.Data.List.Basic

/-!
The per-vcpu callbacks of host/trace/callbacks.cc as functions of one
`thread_data` entry. A call on the entry's `Sift::Writer` is recorded in the
order it is made; delivering the calls through the `output` pointer belongs to
the plugin's own state. `bbv*`, `wr_size` and the commented-out capture code
are read by no callback and are left out.
-/
namespace Hypersh

def firstVcpu : Fin 2 := ⟨0, Nat.two_pos⟩
def secondVcpu : Fin 2 := ⟨1, Nat.one_lt_two⟩

end Hypersh

namespace Hypersh.Callbacks

inductive Mode where
  | unknown
  | icount
  | memory
  | detailed
  | stop
  deriving DecidableEq, Repr

inductive CacheOnlyType where
  | memRead
  | memWrite
  | branchTaken
  | branchNotTaken
  deriving DecidableEq, Repr

inductive SimOpt where
  | instrumentFastforward
  | instrumentWarmup
  | instrumentDetailed
  deriving DecidableEq, Repr

/-- One method call on a `Sift::Writer`, with the arguments the plugin passes.
`magic` stands for `Magic(SIM_CMD_INSTRUMENT_MODE, option, 0)`. -/
inductive Call where
  | instructionCount (icount : UInt64)
  | cacheOnly (icount : UInt64) (type : CacheOnlyType) (eip address : UInt64)
  | translate (vaddr paddr : UInt64)
  | instructionBegin (pc size : UInt64) (predicate executed : Bool)
  | instructionEnd
  | instructionAbort
  | instructionMem (vaddr : UInt64)
  | instructionBranch (taken : Bool)
  | sync
  | vcpuIdle
  | vcpuResume
  | sendICache (vaddr haddr pgd : UInt64)
  | flushICache (pgd : UInt64)
  | magic (option : SimOpt)
  | gmmCommand (code : Nat) (segment argument : UInt64)
  | sendGMMUserMessage (type : Nat) (payload1 payload2 : UInt64)
  | isOpen
  | «end»
  | abort
  deriving DecidableEq, Repr

/-- Ways the process dies: a failed `assert`, a method call through a null
`output`, or a libc call on a null argument. -/
inductive Fault where
  | assertion
  | nullOutput
  | nullArgument
  deriving DecidableEq, Repr

structure ThreadData where
  output : Option Nat
  threadNum : UInt64
  pc : UInt64
  brAddr : UInt64
  brTarget : UInt64
  brFallthrough : UInt64
  tbVaddr1 : UInt64
  tbVaddr2 : UInt64
  blocknum : UInt64
  icount : UInt64
  icountCacheonly : UInt64
  icountCacheonlyPending : UInt64
  icountDetailed : UInt64
  icountReported : UInt64
  flowcontrolTarget : UInt64
  loads : UInt64
  stores : UInt64
  idle : Bool
  enabled : Bool
  capturing : Bool
  captureNextAddr1 : Bool
  captureNextAddr2 : Bool
  capturedAddr1 : UInt64
  capturedAddr2 : UInt64
  icountOther : UInt64
  icountUser : UInt64
  deriving DecidableEq, Repr

def flowControlFF : UInt64 := 100000
def flowControl : UInt64 := 1000

structure Globals where
  currentMode : Mode
  roiCr3 : UInt64
  magic : UInt64
  deriving DecidableEq, Repr

/-- What the emulator answers while a callback runs: `qemu_plugin_in_kernel`
and `qemu_plugin_page_directory`. -/
structure Cpu where
  inKernel : Bool
  pageDirectory : UInt64
  deriving DecidableEq, Repr

structure Access where
  vaddr : UInt64
  paddr : UInt64
  isStore : Bool
  deriving DecidableEq, Repr

def inRoi (globals : Globals) (cpu : Cpu) : Bool :=
  globals.roiCr3 == 0 || (!cpu.inKernel && cpu.pageDirectory == globals.roiCr3)

abbrev Effect := ThreadData × List Call

/-! Block and instruction callbacks, in the order of the source. -/

def tbExecCountInsns (count : UInt64) (thread : ThreadData) : Effect :=
  let thread := { thread with icount := thread.icount + count }
  let thread := { thread with icountReported := thread.icountReported + count }
  if flowControlFF < thread.icountReported then
    ({ thread with icountReported := 0 }, [.instructionCount thread.icountReported])
  else (thread, [])

/-- `block_cnt[threadid]`: the list has the rows of the map, its order says nothing of
the order in which an `unordered_map` iterates. -/
abbrev BlockCount := List (UInt64 × UInt64)

-- `block_cnt[threadid][address] ++` inserts a zero first where the key is new.
def bump (address : UInt64) : BlockCount → BlockCount
  | [] => [(address, 1)]
  | (known, count) :: rest =>
      if known = address then (known, count + 1) :: rest
      else (known, count) :: bump address rest

def tbExecHotBlocks (globals : Globals) (cpu : Cpu) (vaddr : UInt64)
    (blocks : BlockCount) : BlockCount :=
  if cpu.pageDirectory = globals.roiCr3 then bump vaddr blocks else blocks

def insnExecCountInsn (thread : ThreadData) : Effect :=
  ({ thread with icountCacheonlyPending := thread.icountCacheonlyPending + 1 }, [])

def insnExecBranch (vaddr : UInt64) (thread : ThreadData) : Effect :=
  ({ thread with brAddr := vaddr }, [])

def insnExecPause (thread : ThreadData) : Effect :=
  if thread.idle then (thread, [])
  else ({ thread with flowcontrolTarget := thread.icountDetailed + flowControl }, [.sync])

-- The captured addresses are written by commented-out code only, so a capturing
-- vcpu simply does not synchronise here.
def insnExecCmpxchg (thread : ThreadData) : Effect :=
  if !thread.idle && !thread.capturing then
    ({ thread with flowcontrolTarget := thread.icountDetailed + flowControl }, [.sync])
  else (thread, [])

def insnExecBranchRamAddr (ramAddr : UInt64) (thread : ThreadData) : Effect :=
  (thread, [.translate thread.brAddr ramAddr])

def memUpdatePc (vaddr : UInt64) (thread : ThreadData) : Effect :=
  ({ thread with pc := vaddr }, [])

def consumePending (thread : ThreadData) : ThreadData :=
  { thread with
    icountCacheonly := thread.icountCacheonly + thread.icountCacheonlyPending
    icountReported := thread.icountReported + thread.icountCacheonlyPending
    icountCacheonlyPending := 0 }

/-- The tail both cache-only senders share: a full quota is synchronised. -/
def syncReported (thread : ThreadData) : Effect :=
  if flowControlFF < thread.icountReported then
    ({ thread with icountReported := 0 }, [.sync])
  else (thread, [])

def memSendCacheonly (access : Access) (pcRamAddr : UInt64) (thread : ThreadData) : Effect :=
  let type := if access.isStore then CacheOnlyType.memWrite else .memRead
  let icountPending := thread.icountCacheonlyPending
  let translated := [Call.translate access.vaddr access.paddr]
  let pc := thread.pc
  let (thread, translated) :=
    -- The pc is translated only with a nonzero count; the record itself always goes out.
    if icountPending ≠ 0 then
      (consumePending thread, translated ++ [.translate pc pcRamAddr])
    else (thread, translated)
  let (thread, synced) := syncReported thread
  (thread, translated ++ [.cacheOnly icountPending type pc access.vaddr] ++ synced)

def tbExecUpdateTarget (vaddr : UInt64) (thread : ThreadData) : Effect :=
  ({ thread with brTarget := vaddr, tbVaddr1 := vaddr }, [])

def tbExecUpdateFallthrough (nextPc : UInt64) (thread : ThreadData) : Effect :=
  ({ thread with brFallthrough := nextPc }, [])

def clearBranch (thread : ThreadData) : ThreadData :=
  { thread with brAddr := 0, brFallthrough := 0 }

def tbExecBranchCacheonly (pcRamAddr : UInt64) (thread : ThreadData) :
    Except Fault Effect :=
  if thread.brAddr = 0 then .ok (thread, [])
  -- `assert(br_fallthrough != 0)`
  else if thread.brFallthrough = 0 then .error .assertion
  else
    let icountPending := thread.icountCacheonlyPending
    let type := if thread.brTarget = thread.brFallthrough then CacheOnlyType.branchNotTaken
      else .branchTaken
    let sent := [Call.translate thread.brTarget pcRamAddr,
      .cacheOnly icountPending type thread.brAddr thread.brTarget]
    let (thread, synced) := syncReported (clearBranch (consumePending thread))
    .ok (thread, sent ++ synced)

/-- All an accepted branch sender of `ModeMemory` can have done. -/
theorem branch_cacheonly_cases (pcRamAddr : UInt64) (thread : ThreadData) (effect : Effect)
    (sent : tbExecBranchCacheonly pcRamAddr thread = .ok effect) :
    (thread.brAddr = 0 ∧ effect = (thread, [])) ∨
    (thread.brAddr ≠ 0 ∧ thread.brFallthrough ≠ 0 ∧ effect =
      ((syncReported (clearBranch (consumePending thread))).1,
        [.translate thread.brTarget pcRamAddr,
         .cacheOnly thread.icountCacheonlyPending
           (if thread.brTarget = thread.brFallthrough then .branchNotTaken else .branchTaken)
           thread.brAddr thread.brTarget] ++
        (syncReported (clearBranch (consumePending thread))).2)) := by
  unfold tbExecBranchCacheonly at sent
  by_cases clear : thread.brAddr = 0
  · rw [if_pos clear] at sent
    exact Or.inl ⟨clear, (Except.ok.inj sent).symm⟩
  · by_cases fallthrough : thread.brFallthrough = 0
    · rw [if_neg clear, if_pos fallthrough] at sent
      contradiction
    · rw [if_neg clear, if_neg fallthrough] at sent
      exact Or.inr ⟨clear, fallthrough, (Except.ok.inj sent).symm⟩

def tbExecItlb (globals : Globals) (cpu : Cpu) (ramAddr : UInt64) (thread : ThreadData) :
    Effect :=
  (thread, if inRoi globals cpu then [.translate thread.tbVaddr1 ramAddr] else [])

def tbExecItlb2 (globals : Globals) (cpu : Cpu) (ramAddr : UInt64) (thread : ThreadData) :
    Effect :=
  (thread, if inRoi globals cpu then [.translate thread.tbVaddr2 ramAddr] else [])

/-- The counters of a non-idle instruction: `icount_detailed`, and user or other
by page directory alone. -/
def countDetailed (globals : Globals) (cpu : Cpu) (thread : ThreadData) : ThreadData :=
  if cpu.pageDirectory = globals.roiCr3 then
    { thread with
      icountDetailed := thread.icountDetailed + 1
      icountUser := thread.icountUser + 1 }
  else
    { thread with
      icountDetailed := thread.icountDetailed + 1
      icountOther := thread.icountOther + 1 }

def syncDetailed (thread : ThreadData) : Effect :=
  if thread.flowcontrolTarget < thread.icountDetailed then
    ({ thread with flowcontrolTarget := thread.flowcontrolTarget + flowControl }, [.sync])
  else (thread, [])

def insnExecUpdatePc (globals : Globals) (cpu : Cpu) (vaddr : UInt64) (thread : ThreadData) :
    Effect :=
  -- InstructionEnd is sent before anything else, idle or not.
  let thread := { thread with pc := vaddr }
  if thread.idle then (thread, [.instructionEnd])
  else
    let (thread, synced) := syncDetailed (countDetailed globals cpu thread)
    (thread, .instructionEnd :: synced)

def insnExecPcNext (globals : Globals) (cpu : Cpu) (pcNext : UInt64) (thread : ThreadData) :
    Effect :=
  (thread, if inRoi globals cpu && !thread.capturing
    then [.instructionBegin thread.pc (pcNext - thread.pc) false true] else [])

def insnExecItlb (globals : Globals) (cpu : Cpu) (ramAddr : UInt64) (thread : ThreadData) :
    Effect :=
  (thread, if inRoi globals cpu then [.translate thread.pc ramAddr] else [])

def toggleCapture (thread : ThreadData) : ThreadData :=
  if thread.capturing then { thread with capturing := false }
  else { thread with
    capturing := true
    captureNextAddr1 := false
    captureNextAddr2 := false
    capturedAddr1 := 0
    capturedAddr2 := 0 }

def countAccess (globals : Globals) (cpu : Cpu) (access : Access) (thread : ThreadData) :
    ThreadData :=
  if !cpu.inKernel && cpu.pageDirectory == globals.roiCr3 then
    if access.isStore then { thread with stores := thread.stores + 1 }
    else { thread with loads := thread.loads + 1 }
  else thread

def memSendDetailed (globals : Globals) (cpu : Cpu) (access : Access) (thread : ThreadData) :
    Effect :=
  let (thread, aborted) :=
    if inRoi globals cpu && access.vaddr == globals.magic && access.isStore then
      (toggleCapture thread, [Call.instructionAbort])
    else (thread, [])
  -- A magic store aborts the instruction and is still sent as an access.
  (countAccess globals cpu access thread,
    aborted ++ [.translate access.vaddr access.paddr, .instructionMem access.vaddr])

def crossRoi (globals : Globals) (cpu : Cpu) (thread : ThreadData) : Effect :=
  if inRoi globals cpu then
    if thread.idle then ({ thread with idle := false }, [.vcpuResume]) else (thread, [])
  else
    if thread.idle then (thread, [])
    else ({ thread with idle := true }, [.instructionEnd, .vcpuIdle])

def tbExecBranchDetailed (globals : Globals) (cpu : Cpu) (thread : ThreadData) :
    Except Fault Effect :=
  if thread.brAddr = 0 then .ok (thread, [])
  -- `assert(br_fallthrough != 0)`
  else if thread.brFallthrough = 0 then .error .assertion
  else
    let taken := thread.brTarget != thread.brFallthrough
    let (thread, moved) := crossRoi globals cpu thread
    .ok (clearBranch thread, moved ++ [.instructionBranch taken])

theorem branch_detailed_cases (globals : Globals) (cpu : Cpu) (thread : ThreadData)
    (effect : Effect) (sent : tbExecBranchDetailed globals cpu thread = .ok effect) :
    (thread.brAddr = 0 ∧ effect = (thread, [])) ∨
    (thread.brAddr ≠ 0 ∧ thread.brFallthrough ≠ 0 ∧ effect =
      (clearBranch (crossRoi globals cpu thread).1,
        (crossRoi globals cpu thread).2 ++
          [.instructionBranch (thread.brTarget != thread.brFallthrough)])) := by
  unfold tbExecBranchDetailed at sent
  by_cases clear : thread.brAddr = 0
  · rw [if_pos clear] at sent
    exact Or.inl ⟨clear, (Except.ok.inj sent).symm⟩
  · by_cases fallthrough : thread.brFallthrough = 0
    · rw [if_neg clear, if_pos fallthrough] at sent
      contradiction
    · rw [if_neg clear, if_neg fallthrough] at sent
      exact Or.inr ⟨clear, fallthrough, (Except.ok.inj sent).symm⟩

def icachePgd (cpu : Cpu) : UInt64 := if cpu.inKernel then 0 else cpu.pageDirectory

def tbExecSendIcache (globals : Globals) (cpu : Cpu) (haddr : UInt64) (thread : ThreadData) :
    Effect :=
  (thread, if inRoi globals cpu then [.sendICache thread.tbVaddr1 haddr (icachePgd cpu)] else [])

def tbExecVaddr2 (vaddr2 : UInt64) (thread : ThreadData) : Effect :=
  ({ thread with tbVaddr2 := vaddr2 }, [])

def tbExecSendIcache2 (globals : Globals) (cpu : Cpu) (haddr : UInt64) (thread : ThreadData) :
    Effect :=
  (thread, if inRoi globals cpu then [.sendICache thread.tbVaddr2 haddr (icachePgd cpu)] else [])

/-! Callbacks the emulator makes outside blocks. -/

-- Neither interrupt callback looks at `idle` or at the region of interest.
def vcpuInterruptCb (globals : Globals) (thread : ThreadData) : Effect :=
  (thread, if globals.currentMode = .detailed then [.instructionEnd] else [])

def vcpuInterruptRetCb (globals : Globals) (thread : ThreadData) : Effect :=
  (thread, if globals.currentMode = .detailed then [.instructionEnd] else [])

def vcpuIdleCb (globals : Globals) (thread : ThreadData) : Effect :=
  let ended := if globals.currentMode = .detailed then [Call.instructionEnd] else []
  if thread.idle then (thread, ended)
  else ({ thread with idle := true }, ended ++ [.vcpuIdle])

def vcpuResumeCb (thread : ThreadData) : Effect :=
  if thread.idle then ({ thread with idle := false }, [.vcpuResume]) else (thread, [])

/-! What host/trace/control.cc writes into one entry. -/

def installed : ThreadData where
  output := none
  threadNum := 0
  pc := 0
  brAddr := 0
  brTarget := 0
  brFallthrough := 0
  tbVaddr1 := 0
  tbVaddr2 := 0
  blocknum := 0
  icount := 0
  icountCacheonly := 0
  icountCacheonlyPending := 0
  icountDetailed := 0
  icountReported := 0
  flowcontrolTarget := 0
  loads := 0
  stores := 0
  idle := false
  enabled := false
  capturing := false
  captureNextAddr1 := false
  captureNextAddr2 := false
  capturedAddr1 := 0
  capturedAddr2 := 0
  icountOther := 0
  icountUser := 0

/-- `thread_data_reset` on one entry: everything but `blocknum`. -/
def threadDataReset (threadid : UInt64) (thread : ThreadData) : ThreadData :=
  { thread with
    threadNum := threadid
    output := none
    pc := 0
    brAddr := 0
    brTarget := 0
    brFallthrough := 0
    tbVaddr1 := 0
    tbVaddr2 := 0
    icount := 0
    icountCacheonly := 0
    icountCacheonlyPending := 0
    icountDetailed := 0
    icountReported := 0
    flowcontrolTarget := 0
    loads := 0
    stores := 0
    icountUser := 0
    icountOther := 0
    enabled := true
    idle := true
    capturing := false
    captureNextAddr1 := false
    captureNextAddr2 := false
    capturedAddr1 := 0
    capturedAddr2 := 0 }

/-- The body of the loop in the callback `recorder_reset` queues. -/
def resetCounters (thread : ThreadData) : ThreadData :=
  { thread with
    icount := 0
    icountCacheonly := 0
    icountCacheonlyPending := 0
    icountDetailed := 0
    icountReported := 0
    loads := 0
    stores := 0
    icountUser := 0
    icountOther := 0 }

def closeFile (thread : ThreadData) : Effect :=
  ({ thread with output := none }, if thread.output.isSome then [.abort] else [])

/-- `openFile` with the writer that `new` returned. -/
def openFile (writer : Nat) (thread : ThreadData) : Effect :=
  if thread.output.isSome then
    let (thread, closed) := closeFile thread
    ({ thread with blocknum := thread.blocknum + 1, output := some writer }, closed ++ [.isOpen])
  else ({ thread with output := some writer }, [.isOpen])

end Hypersh.Callbacks
