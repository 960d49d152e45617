import Mathlib.Data.List.Basic
import Hypersh.Transduction
import Hypersh.Callbacks

/-!
`vcpu_tb_trans_cb` registers callbacks on a translation block; the emulator then
invokes them in registration order: block callbacks at block entry, instruction
callbacks before the instruction, memory callbacks after each access.
-/
namespace Hypersh.Blocks
open Callbacks

inductive ExecCallback where
  | hotBlocks
  | countInsns
  | countInsn
  | branch
  | pause
  | cmpxchg
  | branchRamAddr
  | updateTarget
  | updateFallthrough
  | branchCacheonly
  | tbItlb
  | tbItlb2
  | updatePc
  | pcNext
  | insnItlb
  | branchDetailed
  | sendIcache
  | vaddr2
  | sendIcache2
  deriving DecidableEq, Repr

inductive MemCallback where
  | updatePc
  | sendCacheonly
  | sendDetailed
  deriving DecidableEq, Repr

structure Insn where
  vaddr : UInt64
  next : UInt64
  ramAddr : UInt64
  isCmpxchg : Bool
  deriving DecidableEq, Repr

/-- What `tb_vaddr2`, `tb_ram_addr2` and `tb_haddr2` answer for a block on two
pages. The source asserts that the host address is not null. -/
structure SecondPage where
  vaddr : UInt64
  ramAddr : UInt64
  haddr : UInt64
  haddr_nonnull : haddr ≠ 0

/-- A translation block. The emulator translates at least one instruction; the
source relies on it whenever it uses the last `insn` (`assert(insn)`). -/
structure Tb where
  insns : List Insn
  vaddr : UInt64
  ramAddr : UInt64
  haddr : UInt64
  nextPc : UInt64
  page2 : Option SecondPage
  isBranch : Bool
  isPause : Bool
  nonempty : insns ≠ []

def Tb.lastInsn (tb : Tb) : Insn := tb.insns.getLast tb.nonempty

def Tb.lastIndex (tb : Tb) : Nat := tb.insns.length - 1

inductive Registration where
  | tbExec (callback : ExecCallback) (userdata : UInt64)
  | insnExec (index : Nat) (callback : ExecCallback) (userdata : UInt64)
  | mem (index : Nat) (callback : MemCallback) (userdata : UInt64)
  deriving DecidableEq, Repr

def registerMemory (insn : Insn) (index : Nat) : List Registration :=
  [.insnExec index .countInsn 0,
   .mem index .updatePc insn.vaddr,
   .mem index .sendCacheonly insn.ramAddr]

def registerDetailed (insn : Insn) (index : Nat) : List Registration :=
  [.insnExec index .updatePc insn.vaddr,
   .insnExec index .insnItlb insn.ramAddr,
   .insnExec index .pcNext insn.next,
   .mem index .sendDetailed 0] ++
  if insn.isCmpxchg then [.insnExec index .cmpxchg 0] else []

def registerPage2 (page : SecondPage) : List Registration :=
  [.tbExec .vaddr2 page.vaddr,
   .tbExec .tbItlb2 page.ramAddr,
   .tbExec .sendIcache2 page.haddr]

def vcpuTbTransCb (currentMode : Mode) (tb : Tb) : List Registration :=
  .tbExec .hotBlocks tb.vaddr ::
  match currentMode with
  | .icount => [.tbExec .countInsns (UInt64.ofNat tb.insns.length)]
  | .memory =>
      tb.insns.zipIdx.flatMap (fun entry => registerMemory entry.1 entry.2) ++
      [.tbExec .updateTarget tb.vaddr,
       .tbExec .branchCacheonly tb.lastInsn.ramAddr] ++
      if tb.isBranch then
        [.insnExec tb.lastIndex .branch tb.lastInsn.vaddr,
         .insnExec tb.lastIndex .branchRamAddr tb.lastInsn.ramAddr,
         .tbExec .updateFallthrough tb.nextPc]
      else []
  | .detailed =>
      tb.insns.zipIdx.flatMap (fun entry => registerDetailed entry.1 entry.2) ++
      [.tbExec .updateTarget tb.vaddr,
       .tbExec .branchDetailed 0,
       .tbExec .tbItlb tb.ramAddr,
       .tbExec .sendIcache tb.haddr] ++
      (match tb.page2 with
       | some page => registerPage2 page
       | none => []) ++
      (if tb.isPause then [.insnExec tb.lastIndex .pause 0] else []) ++
      if tb.isBranch then
        [.insnExec tb.lastIndex .branch tb.lastInsn.vaddr,
         .tbExec .updateFallthrough tb.nextPc]
      else []
  -- `default: break;`
  | .unknown | .stop => []

def Registration.entryHook : Registration → Option (ExecCallback × UInt64)
  | .tbExec callback userdata => some (callback, userdata)
  | _ => none

def Registration.insnHook (at_ : Nat) : Registration → Option (ExecCallback × UInt64)
  | .insnExec index callback userdata => if index = at_ then some (callback, userdata) else none
  | _ => none

def Registration.memHook (at_ : Nat) : Registration → Option (MemCallback × UInt64)
  | .mem index callback userdata => if index = at_ then some (callback, userdata) else none
  | _ => none

def entryHooks (mode : Mode) (tb : Tb) : List (ExecCallback × UInt64) :=
  (vcpuTbTransCb mode tb).filterMap Registration.entryHook

def insnHooks (mode : Mode) (tb : Tb) (index : Nat) : List (ExecCallback × UInt64) :=
  (vcpuTbTransCb mode tb).filterMap (Registration.insnHook index)

def memHooks (mode : Mode) (tb : Tb) (index : Nat) : List (MemCallback × UInt64) :=
  (vcpuTbTransCb mode tb).filterMap (Registration.memHook index)

/-- A loop over the instructions contributes to one instruction's hooks exactly
what its own pass registers. -/
theorem hooks_of_pass {Hook : Type} (pass : Insn → Nat → List Registration)
    (hook : Registration → Option Hook) (index start : Nat) (own : Insn → List Hook)
    (local_ : ∀ insn i, (pass insn i).filterMap hook = if i = index then own insn else [])
    (insns : List Insn) :
    ((insns.zipIdx start).flatMap (fun entry => pass entry.1 entry.2)).filterMap hook =
      if start ≤ index then (insns[index - start]?).elim [] own else [] := by
  -- The index of the pass that is looked for is compared with the start of the rest.
  induction insns generalizing start with
  | nil => simp
  | cons insn rest ih =>
      rw [List.zipIdx_cons, List.flatMap_cons, List.filterMap_append, local_, ih]
      rcases Nat.lt_trichotomy start index with below | same | above
      · have shift : index - start = (index - (start + 1)) + 1 := by omega
        simp [Nat.ne_of_lt below, Nat.le_of_lt below, Nat.succ_le_of_lt below, shift]
      · subst same
        simp [show ¬ start + 1 ≤ start by omega]
      · simp [Nat.ne_of_gt above, Nat.not_le_of_gt above,
          show ¬ start + 1 ≤ index by omega]

theorem hooks_of_pass_none {Hook : Type} (pass : Insn → Nat → List Registration)
    (hook : Registration → Option Hook)
    (silent : ∀ insn i, (pass insn i).filterMap hook = []) (entries : List (Insn × Nat)) :
    (entries.flatMap (fun entry => pass entry.1 entry.2)).filterMap hook = [] := by
  induction entries with
  | nil => rfl
  | cons entry rest ih => rw [List.flatMap_cons, List.filterMap_append, silent, ih]; rfl

theorem entry_hooks_memory (tb : Tb) : entryHooks .memory tb =
    [(.hotBlocks, tb.vaddr), (.updateTarget, tb.vaddr),
     (.branchCacheonly, tb.lastInsn.ramAddr)] ++
    if tb.isBranch then [(.updateFallthrough, tb.nextPc)] else [] := by
  have silent := hooks_of_pass_none registerMemory Registration.entryHook
    (fun _ _ => rfl) tb.insns.zipIdx
  cases branch : tb.isBranch <;>
    simp [entryHooks, vcpuTbTransCb, silent, branch, Registration.entryHook, List.filterMap_cons]

def page2Hooks (tb : Tb) : List (ExecCallback × UInt64) :=
  match tb.page2 with
  | some page => [(.vaddr2, page.vaddr), (.tbItlb2, page.ramAddr), (.sendIcache2, page.haddr)]
  | none => []

theorem entry_hooks_detailed (tb : Tb) : entryHooks .detailed tb =
    [(.hotBlocks, tb.vaddr), (.updateTarget, tb.vaddr), (.branchDetailed, 0),
     (.tbItlb, tb.ramAddr), (.sendIcache, tb.haddr)] ++ page2Hooks tb ++
    if tb.isBranch then [(.updateFallthrough, tb.nextPc)] else [] := by
  have silent := hooks_of_pass_none registerDetailed Registration.entryHook
    (fun insn _ => by cases h : insn.isCmpxchg <;> simp [registerDetailed, h,
      Registration.entryHook, List.filterMap_cons]) tb.insns.zipIdx
  cases branch : tb.isBranch <;> cases pause : tb.isPause <;> cases page : tb.page2 <;>
    simp [entryHooks, vcpuTbTransCb, silent, branch, pause, page, page2Hooks, registerPage2,
      Registration.entryHook, List.filterMap_cons]

theorem insn_hooks_memory (tb : Tb) (index : Nat) (insn : Insn)
    (present : tb.insns[index]? = some insn) : insnHooks .memory tb index =
    (.countInsn, 0) :: if tb.isBranch ∧ tb.lastIndex = index then
      [(.branch, tb.lastInsn.vaddr), (.branchRamAddr, tb.lastInsn.ramAddr)] else [] := by
  have pass := hooks_of_pass registerMemory (Registration.insnHook index) index 0
    (fun _ => [(.countInsn, 0)])
    (fun _ i => by by_cases same : i = index <;>
      simp [registerMemory, Registration.insnHook, List.filterMap_cons, same]) tb.insns
  by_cases branch : tb.isBranch = true <;> by_cases last : tb.lastIndex = index <;>
    simp [insnHooks, vcpuTbTransCb, List.filterMap_cons, Registration.insnHook, pass, present,
      branch, last]

theorem mem_hooks_memory (tb : Tb) (index : Nat) (insn : Insn)
    (present : tb.insns[index]? = some insn) : memHooks .memory tb index =
    [(.updatePc, insn.vaddr), (.sendCacheonly, insn.ramAddr)] := by
  have pass := hooks_of_pass registerMemory (Registration.memHook index) index 0
    (fun insn => [(.updatePc, insn.vaddr), (.sendCacheonly, insn.ramAddr)])
    (fun _ i => by by_cases same : i = index <;>
      simp [registerMemory, Registration.memHook, List.filterMap_cons, same]) tb.insns
  cases branch : tb.isBranch <;>
    simp [memHooks, vcpuTbTransCb, List.filterMap_cons, Registration.memHook, pass, present,
      branch]

theorem last_hooks {Hook : Type} (hook : Registration → Option Hook) (ends : Bool)
    (registered : List Registration) (hooks : List Hook) (here : Prop) [Decidable here]
    (found : registered.filterMap hook = if here then hooks else []) :
    (if ends then registered else []).filterMap hook = if ends ∧ here then hooks else [] := by
  cases ends with
  | false => simp
  | true => simpa using found

theorem insn_hook_last (last index : Nat) (callback : ExecCallback) (userdata : UInt64) :
    [Registration.insnExec last callback userdata].filterMap (Registration.insnHook index) =
      if last = index then [(callback, userdata)] else [] := by
  by_cases same : last = index
  · simp [Registration.insnHook, same]
  · simp [Registration.insnHook, same]

theorem page2_quiet {Hook : Type} (hook : Registration → Option Hook) (page2 : Option SecondPage)
    (silent : ∀ callback userdata, hook (.tbExec callback userdata) = none) :
    (match page2 with
      | some page => registerPage2 page
      | none => []).filterMap hook = [] := by
  cases page2 with
  | none => rfl
  | some page => simp [registerPage2, silent]

theorem insn_hooks_detailed (tb : Tb) (index : Nat) (insn : Insn)
    (present : tb.insns[index]? = some insn) : insnHooks .detailed tb index =
    [(.updatePc, insn.vaddr), (.insnItlb, insn.ramAddr), (.pcNext, insn.next)] ++
    (if insn.isCmpxchg then [(.cmpxchg, 0)] else []) ++
    (if tb.isPause ∧ tb.lastIndex = index then [(.pause, 0)] else []) ++
    if tb.isBranch ∧ tb.lastIndex = index then [(.branch, tb.lastInsn.vaddr)] else [] := by
  have pass := hooks_of_pass registerDetailed (Registration.insnHook index) index 0
    (fun insn => [(.updatePc, insn.vaddr), (.insnItlb, insn.ramAddr), (.pcNext, insn.next)] ++
      if insn.isCmpxchg then [(.cmpxchg, 0)] else [])
    (fun insn i => by cases h : insn.isCmpxchg <;> by_cases same : i = index <;>
      simp [registerDetailed, Registration.insnHook, List.filterMap_cons, same, h]) tb.insns
  rw [if_pos (Nat.zero_le index), Nat.sub_zero, present] at pass
  have page := page2_quiet (Registration.insnHook index) tb.page2 fun _ _ => rfl
  have pause := last_hooks _ tb.isPause _ _ _ (insn_hook_last tb.lastIndex index .pause 0)
  have branch := last_hooks _ tb.isBranch
    [.insnExec tb.lastIndex .branch tb.lastInsn.vaddr, .tbExec .updateFallthrough tb.nextPc] _ _
    (insn_hook_last tb.lastIndex index .branch tb.lastInsn.vaddr)
  unfold insnHooks vcpuTbTransCb
  dsimp only
  rw [List.filterMap_cons_none rfl, List.filterMap_append, List.filterMap_append,
    List.filterMap_append, List.filterMap_append, pass, page, pause, branch]
  simp [Registration.insnHook, List.filterMap_cons]

theorem mem_hooks_detailed (tb : Tb) (index : Nat) (insn : Insn)
    (present : tb.insns[index]? = some insn) : memHooks .detailed tb index =
    [(.sendDetailed, 0)] := by
  have pass := hooks_of_pass registerDetailed (Registration.memHook index) index 0
    (fun _ => [(.sendDetailed, 0)])
    (fun insn i => by cases h : insn.isCmpxchg <;> by_cases same : i = index <;>
      simp [registerDetailed, Registration.memHook, List.filterMap_cons, same, h]) tb.insns
  rw [if_pos (Nat.zero_le index), Nat.sub_zero, present] at pass
  have page := page2_quiet (Registration.memHook index) tb.page2 fun _ _ => rfl
  have quiet : ∀ (ends : Bool) (registered : List Registration),
      registered.filterMap (Registration.memHook index) = [] →
        (if ends then registered else []).filterMap (Registration.memHook index) = [] := by
    intro ends registered silent
    cases ends with
    | false => rfl
    | true => exact silent
  unfold memHooks vcpuTbTransCb
  dsimp only
  rw [List.filterMap_cons_none rfl, List.filterMap_append, List.filterMap_append,
    List.filterMap_append, List.filterMap_append, pass, page, quiet tb.isPause _ rfl,
    quiet tb.isBranch _ rfl]
  rfl

/-! Executing a translated block. -/

/-- What the callbacks of one vcpu own: its `thread_data` entry and its
`block_cnt` map. -/
structure Vcpu where
  data : ThreadData
  blockCnt : BlockCount
  deriving DecidableEq, Repr

inductive Invocation where
  | exec (callback : ExecCallback) (userdata : UInt64) (cpu : Cpu)
  | mem (callback : MemCallback) (userdata : UInt64) (cpu : Cpu) (access : Access)
  deriving DecidableEq, Repr

def execEffect (globals : Globals) (cpu : Cpu) (userdata : UInt64) (thread : ThreadData) :
    ExecCallback → Except Fault Effect
  | .hotBlocks => .ok (thread, [])
  | .countInsns => .ok (tbExecCountInsns userdata thread)
  | .countInsn => .ok (insnExecCountInsn thread)
  | .branch => .ok (insnExecBranch userdata thread)
  | .pause => .ok (insnExecPause thread)
  | .cmpxchg => .ok (insnExecCmpxchg thread)
  | .branchRamAddr => .ok (insnExecBranchRamAddr userdata thread)
  | .updateTarget => .ok (tbExecUpdateTarget userdata thread)
  | .updateFallthrough => .ok (tbExecUpdateFallthrough userdata thread)
  | .branchCacheonly => tbExecBranchCacheonly userdata thread
  | .tbItlb => .ok (tbExecItlb globals cpu userdata thread)
  | .tbItlb2 => .ok (tbExecItlb2 globals cpu userdata thread)
  | .updatePc => .ok (insnExecUpdatePc globals cpu userdata thread)
  | .pcNext => .ok (insnExecPcNext globals cpu userdata thread)
  | .insnItlb => .ok (insnExecItlb globals cpu userdata thread)
  | .branchDetailed => tbExecBranchDetailed globals cpu thread
  | .sendIcache => .ok (tbExecSendIcache globals cpu userdata thread)
  | .vaddr2 => .ok (tbExecVaddr2 userdata thread)
  | .sendIcache2 => .ok (tbExecSendIcache2 globals cpu userdata thread)

def memEffect (globals : Globals) (cpu : Cpu) (userdata : UInt64) (access : Access)
    (thread : ThreadData) : MemCallback → Effect
  | .updatePc => memUpdatePc userdata thread
  | .sendCacheonly => memSendCacheonly access userdata thread
  | .sendDetailed => memSendDetailed globals cpu access thread

def effect (globals : Globals) (thread : ThreadData) : Invocation → Except Fault Effect
  | .exec callback userdata cpu => execEffect globals cpu userdata thread callback
  | .mem callback userdata cpu access => .ok (memEffect globals cpu userdata access thread callback)

/-- Only `tb_exec_hot_blocks` touches the block counters. -/
def countBlock (globals : Globals) (blocks : BlockCount) : Invocation → BlockCount
  | .exec .hotBlocks vaddr cpu => tbExecHotBlocks globals cpu vaddr blocks
  | _ => blocks

def invoke (globals : Globals) : Transduction.Step Vcpu Invocation Call Fault :=
  fun vcpu invocation =>
    (effect globals vcpu.data invocation).map fun result =>
      (⟨result.1, countBlock globals vcpu.blockCnt invocation⟩, result.2)

theorem invoke_effect (globals : Globals) (vcpu next : Vcpu) (invocation : Invocation)
    (calls : List Call) (taken : invoke globals vcpu invocation = .ok (next, calls)) :
    effect globals vcpu.data invocation = .ok (next.data, calls) := by
  cases done : effect globals vcpu.data invocation with
  | error fault => simp [invoke, done, Except.map] at taken
  | ok result =>
      simp only [invoke, done, Except.map, Except.ok.injEq, Prod.mk.injEq] at taken
      rw [← taken.1, ← taken.2]

structure Started where
  cpu : Cpu
  accesses : List (Cpu × Access)
  deriving DecidableEq, Repr

/-- One execution of a block. A block left early starts only some of its
instructions, and the last one started may miss some of its accesses. -/
structure BlockRun where
  tb : Tb
  cpu : Cpu
  started : List Started
  bounded : started.length ≤ tb.insns.length

def execInvocations (hooks : List (ExecCallback × UInt64)) (cpu : Cpu) : List Invocation :=
  hooks.map fun hook => .exec hook.1 hook.2 cpu

def accessInvocations (hooks : List (MemCallback × UInt64)) (access : Cpu × Access) :
    List Invocation :=
  hooks.map fun hook => .mem hook.1 hook.2 access.1 access.2

def insnInvocations (mode : Mode) (tb : Tb) (index : Nat) (started : Started) :
    List Invocation :=
  execInvocations (insnHooks mode tb index) started.cpu ++
    started.accesses.flatMap (accessInvocations (memHooks mode tb index))

def BlockRun.entry (mode : Mode) (block : BlockRun) : List Invocation :=
  execInvocations (entryHooks mode block.tb) block.cpu

def BlockRun.body (mode : Mode) (block : BlockRun) : List Invocation :=
  block.started.zipIdx.flatMap fun entry => insnInvocations mode block.tb entry.2 entry.1

def BlockRun.invocations (mode : Mode) (block : BlockRun) : List Invocation :=
  block.entry mode ++ block.body mode

def BlockRun.executed (block : BlockRun) : List (Insn × Started) :=
  block.tb.insns.zip block.started

def BlockRun.branched (block : BlockRun) : Bool :=
  block.tb.isBranch && block.started.length == block.tb.insns.length

/-- Addresses the branch callbacks can tell from "no branch pending". -/
def Tb.Nonzero (tb : Tb) : Prop :=
  tb.isBranch = true → tb.lastInsn.vaddr ≠ 0 ∧ tb.nextPc ≠ 0

/-- The thread entry waits for the outcome of the branch, if any, that ended the
block executed before. -/
structure Awaiting (previous : Option BlockRun) (thread : ThreadData) : Prop where
  address : thread.brAddr =
    (previous.filter BlockRun.branched).elim 0 fun before => before.tb.lastInsn.vaddr
  fallthrough : ∀ before, previous = some before → before.branched = true →
    thread.brFallthrough = before.tb.nextPc

theorem awaiting_none (thread : ThreadData) (clear : thread.brAddr = 0) :
    Awaiting none thread where
  address := clear
  fallthrough := fun _ absent => nomatch absent

/-- The pending branch address once `index` instructions of the block have been
started, when none was pending on entry. -/
def branchAt (tb : Tb) (index : Nat) : UInt64 :=
  if tb.isBranch ∧ tb.lastIndex < index then tb.lastInsn.vaddr else 0

theorem branch_at_succ (tb : Tb) (index : Nat) (insn : Insn)
    (fetched : tb.insns[index]? = some insn) :
    branchAt tb (index + 1) =
      if tb.isBranch ∧ tb.lastIndex = index then tb.lastInsn.vaddr else branchAt tb index := by
  obtain ⟨bound, -⟩ := List.getElem?_eq_some_iff.mp fetched
  have inside : index ≤ tb.lastIndex := by
    unfold Tb.lastIndex
    omega
  have last : tb.lastIndex < index + 1 ↔ tb.lastIndex = index := by omega
  have before : ¬ tb.lastIndex < index := Nat.not_lt_of_le inside
  simp [branchAt, last, before]

theorem branch_at_end (block : BlockRun) :
    branchAt block.tb block.started.length =
      ((some block).filter BlockRun.branched).elim 0 fun before => before.tb.lastInsn.vaddr := by
  -- Started to the end and past the last index are the same, as blocks are not empty.
  have whole : (block.started.length == block.tb.insns.length) =
      decide (block.tb.lastIndex < block.started.length) := by
    have some_ := List.length_pos_iff.mpr block.tb.nonempty
    have bounded := block.bounded
    rw [Bool.eq_iff_iff, beq_iff_eq, decide_eq_true_eq]
    unfold Tb.lastIndex
    omega
  by_cases branch : block.tb.isBranch = true <;>
    by_cases last : block.tb.lastIndex < block.started.length <;>
    simp [branchAt, BlockRun.branched, Option.filter, whole, branch, last]

theorem started_fetched (block : BlockRun) (entry : Started × Nat)
    (begun : entry ∈ block.started.zipIdx) : ∃ insn, block.tb.insns[entry.2]? = some insn := by
  have inside := List.snd_lt_of_mem_zipIdx begun
  have bounded := block.bounded
  exact ⟨_, List.getElem?_eq_getElem (by omega)⟩

theorem executed_take_succ (block : BlockRun) (index : Nat) (insn : Insn) (started : Started)
    (fetched : block.tb.insns[index]? = some insn)
    (begun : block.started[index]? = some started) :
    block.executed.take (index + 1) = block.executed.take index ++ [(insn, started)] := by
  have paired : block.executed[index]? = some (insn, started) := by
    simp [BlockRun.executed, List.getElem?_zip_eq_some, fetched, begun]
  rw [List.take_add_one, paired]
  rfl

theorem executed_take_all (block : BlockRun) :
    block.executed.take block.started.length = block.executed := by
  apply List.take_of_length_le
  rw [BlockRun.executed, List.length_zip]
  exact Nat.min_le_right _ _

/-- Body rule: what each started instruction carries forward, the whole body
reaches. -/
theorem body_rule (globals : Globals) (mode : Mode) (block : BlockRun)
    (holds : Nat → Vcpu → List Call → Prop)
    (advance : ∀ index insn started vcpu before,
      block.tb.insns[index]? = some insn → block.started[index]? = some started →
      holds index vcpu before → ∃ next calls,
        Transduction.run (invoke globals) vcpu (insnInvocations mode block.tb index started) =
          .ok (next, calls) ∧ holds (index + 1) next (before ++ calls))
    (vcpu : Vcpu) (before : List Call) (start : holds 0 vcpu before) :
    ∃ final calls, Transduction.run (invoke globals) vcpu (block.body mode) = .ok (final, calls) ∧
      holds block.started.length final (before ++ calls) := by
  -- Induction on the instructions left; `holds` is carried at the index reached.
  have suffixes : ∀ (rest : List Started) (index : Nat) (vcpu : Vcpu) (before : List Call),
      block.started.drop index = rest → index ≤ block.started.length → holds index vcpu before →
      ∃ final calls, Transduction.run (invoke globals) vcpu ((rest.zipIdx index).flatMap
          fun entry => insnInvocations mode block.tb entry.2 entry.1) = .ok (final, calls) ∧
        holds block.started.length final (before ++ calls) := by
    intro rest
    induction rest with
    | nil =>
        intro index vcpu before left inside held
        have ended : index = block.started.length :=
          Nat.le_antisymm inside (List.drop_eq_nil_iff.mp left)
        exact ⟨vcpu, [], rfl, by simpa [← ended] using held⟩
    | cons started rest ih =>
        intro index vcpu before left inside held
        have begun : block.started[index]? = some started := by
          rw [← List.head?_drop, left]
          rfl
        obtain ⟨bound, -⟩ := List.getElem?_eq_some_iff.mp begun
        have fetched := List.getElem?_eq_getElem (Nat.lt_of_lt_of_le bound block.bounded)
        have left' : block.started.drop (index + 1) = rest := by
          rw [← List.tail_drop, left]
          rfl
        obtain ⟨next, calls, taken, held'⟩ :=
          advance index _ started vcpu before fetched begun held
        obtain ⟨final, later, tail, done⟩ := ih (index + 1) next _ left' bound held'
        refine ⟨final, calls ++ later, ?_, by simpa only [List.append_assoc] using done⟩
        rw [List.zipIdx_cons, List.flatMap_cons]
        exact Transduction.run_append_ok _ _ _ _ _ _ _ _ taken tail
  exact suffixes block.started 0 vcpu before rfl (Nat.zero_le _) start

def jumpBlock (vaddr ramAddr : UInt64) (accesses : List Access) : BlockRun where
  tb :=
    { insns := [⟨vaddr, vaddr + 2, ramAddr, false⟩]
      vaddr := vaddr
      ramAddr := ramAddr
      haddr := ramAddr
      nextPc := vaddr + 2
      page2 := none
      isBranch := true
      isPause := false
      nonempty := List.cons_ne_nil _ _ }
  cpu := ⟨false, 0⟩
  started := [⟨⟨false, 0⟩, accesses.map fun access => (⟨false, 0⟩, access)⟩]
  bounded := Nat.le_refl 1

def straightBlock (vaddr ramAddr : UInt64) (length : Nat) : BlockRun where
  tb :=
    { insns := (List.range (length + 1)).map fun index =>
        ⟨vaddr + 4 * UInt64.ofNat index, vaddr + 4 * UInt64.ofNat (index + 1),
          ramAddr + 4 * UInt64.ofNat index, false⟩
      vaddr := vaddr
      ramAddr := ramAddr
      haddr := ramAddr
      nextPc := vaddr + 4 * UInt64.ofNat (length + 1)
      page2 := none
      isBranch := false
      isPause := false
      nonempty := by simp }
  cpu := ⟨false, 0⟩
  started := List.replicate (length + 1) ⟨⟨false, 0⟩, []⟩
  bounded := by simp

end Hypersh.Blocks
