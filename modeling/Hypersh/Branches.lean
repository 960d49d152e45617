import Mathlib.Data.List.Basic
import Hypersh.Transduction
import Hypersh.Callbacks
import Hypersh.Blocks
import Hypersh.Footprint
import Hypersh.Timeline

/-!
Branch records across trace modes. The three branch fields form a machine of
their own that every callback simulates: instrumented blocks consume the pending
branch on entry, fast-forward blocks neither set nor clear it.
-/
namespace Hypersh.Branches
open Callbacks Blocks Footprint Timeline Transduction

structure Branch where
  address : UInt64
  target : UInt64
  fallthrough : UInt64
  deriving DecidableEq, Repr

def branchOf (thread : ThreadData) : Branch :=
  ⟨thread.brAddr, thread.brTarget, thread.brFallthrough⟩

/-- What a branch record tells: the detailed one has no address. -/
inductive BranchRecord where
  | cacheOnly (taken : Bool) (eip address : UInt64)
  | detailed (taken : Bool)
  deriving DecidableEq, Repr

def branchRecord : Call → Option BranchRecord
  | .cacheOnly _ .branchTaken eip address => some (.cacheOnly true eip address)
  | .cacheOnly _ .branchNotTaken eip address => some (.cacheOnly false eip address)
  | .instructionBranch taken => some (.detailed taken)
  | _ => none

def Branch.taken (branch : Branch) : Bool := branch.target != branch.fallthrough

def settle (branch : Branch) (written : BranchRecord) :
    Except Fault (Branch × List BranchRecord) :=
  if branch.address = 0 then .ok (branch, [])
  else if branch.fallthrough = 0 then .error .assertion
  else .ok (⟨0, branch.target, 0⟩, [written])

theorem settle_waiting (branch : Branch) (written : BranchRecord) (waiting : branch.address ≠ 0)
    (fallthrough : branch.fallthrough ≠ 0) :
    settle branch written = .ok (⟨0, branch.target, 0⟩, [written]) := by
  rw [settle, if_neg waiting, if_neg fallthrough]

def track : Step Branch Invocation BranchRecord Fault :=
  fun branch invocation =>
    match invocation with
    | .exec .branch vaddr _ => .ok ({ branch with address := vaddr }, [])
    | .exec .updateTarget vaddr _ => .ok ({ branch with target := vaddr }, [])
    | .exec .updateFallthrough nextPc _ => .ok ({ branch with fallthrough := nextPc }, [])
    | .exec .branchCacheonly _ _ =>
        settle branch (.cacheOnly branch.taken branch.address branch.target)
    | .exec .branchDetailed _ _ => settle branch (.detailed branch.taken)
    | _ => .ok (branch, [])

def Unseen (thread : ThreadData) (result : Effect) : Prop :=
  branchOf result.1 = branchOf thread ∧ result.2.filterMap branchRecord = []

theorem sync_reported_unseen (thread : ThreadData) : Unseen thread (syncReported thread) := by
  unfold syncReported
  split
  · exact ⟨rfl, rfl⟩
  · exact ⟨rfl, rfl⟩

theorem mem_unseen (globals : Globals) (cpu : Cpu) (userdata : UInt64) (access : Access)
    (thread : ThreadData) (callback : MemCallback) :
    Unseen thread (memEffect globals cpu userdata access thread callback) := by
  constructor
  · rw [mem_written globals cpu userdata access thread callback]
    cases callback <;> rfl
  · apply unread branchRecord _ _ (mem_may_call globals cpu userdata access thread callback)
    intro call may
    cases call with
    | cacheOnly icount type eip address =>
        cases type with
        | memRead | memWrite => rfl
        | branchTaken | branchNotTaken => cases callback <;> contradiction
    | instructionBranch taken => cases callback <;> contradiction
    | _ => rfl

theorem branch_cacheonly_tracked (ramAddr : UInt64) (cpu : Cpu) (thread : ThreadData)
    (result : Effect) (done : tbExecBranchCacheonly ramAddr thread = .ok result) :
    track (branchOf thread) (.exec .branchCacheonly ramAddr cpu) =
      .ok (branchOf result.1, result.2.filterMap branchRecord) := by
  rcases branch_cacheonly_cases ramAddr thread result done with
    ⟨clear, rfl⟩ | ⟨waiting, fallthrough, rfl⟩
  · exact if_pos clear
  · have synced := sync_reported_unseen (clearBranch (consumePending thread))
    rw [List.filterMap_append, synced.1, synced.2]
    have settled := settle_waiting (branchOf thread)
      (.cacheOnly (branchOf thread).taken thread.brAddr thread.brTarget) waiting fallthrough
    rw [show track (branchOf thread) (.exec .branchCacheonly ramAddr cpu) = _ from settled]
    by_cases same : thread.brTarget = thread.brFallthrough
    · simp [branchOf, Branch.taken, same, branchRecord, clearBranch, consumePending,
        List.filterMap_cons]
    · simp [branchOf, Branch.taken, same, branchRecord, clearBranch, consumePending,
        List.filterMap_cons]

theorem branch_detailed_tracked (globals : Globals) (cpu : Cpu) (userdata : UInt64)
    (thread : ThreadData) (result : Effect)
    (done : tbExecBranchDetailed globals cpu thread = .ok result) :
    track (branchOf thread) (.exec .branchDetailed userdata cpu) =
      .ok (branchOf result.1, result.2.filterMap branchRecord) := by
  rcases branch_detailed_cases globals cpu thread result done with
    ⟨clear, rfl⟩ | ⟨waiting, fallthrough, rfl⟩
  · exact if_pos clear
  · have settled := settle_waiting (branchOf thread) (.detailed (branchOf thread).taken)
      waiting fallthrough
    rw [show track (branchOf thread) (.exec .branchDetailed userdata cpu) = _ from settled]
    unfold crossRoi
    cases inRoi globals cpu <;> cases thread.idle <;> rfl

def unrelated (callback : ExecCallback) : Bool :=
  match callback with
  | .branch | .updateTarget | .updateFallthrough | .branchCacheonly | .branchDetailed => false
  | _ => true

theorem track_unrelated (branch : Branch) (callback : ExecCallback) (userdata : UInt64) (cpu : Cpu)
    (other : unrelated callback = true) :
    track branch (.exec callback userdata cpu) = .ok (branch, []) := by
  cases callback <;> first | rfl | contradiction

theorem exec_unseen (globals : Globals) (cpu : Cpu) (userdata : UInt64) (thread : ThreadData)
    (callback : ExecCallback) (result : Effect) (other : unrelated callback = true)
    (done : execEffect globals cpu userdata thread callback = .ok result) :
    Unseen thread result := by
  constructor
  · rw [exec_written globals cpu userdata thread callback result done]
    cases callback with
    | branch | updateTarget | updateFallthrough | branchCacheonly | branchDetailed => contradiction
    | _ => rfl
  · apply unread branchRecord _ _ (exec_may_call globals cpu userdata thread callback result done)
    intro call may
    cases call with
    | cacheOnly icount type eip address => cases callback <;> contradiction
    | instructionBranch taken => cases callback <;> contradiction
    | _ => rfl

theorem exec_tracked (globals : Globals) (cpu : Cpu) (userdata : UInt64) (thread : ThreadData)
    (callback : ExecCallback) (result : Effect)
    (done : execEffect globals cpu userdata thread callback = .ok result) :
    track (branchOf thread) (.exec callback userdata cpu) =
      .ok (branchOf result.1, result.2.filterMap branchRecord) := by
  cases other : unrelated callback with
  | true =>
      have unseen := exec_unseen globals cpu userdata thread callback result other done
      rw [unseen.1, unseen.2]
      exact track_unrelated _ callback userdata cpu other
  | false =>
      cases callback with
      | branchCacheonly => exact branch_cacheonly_tracked userdata cpu thread result done
      | branchDetailed => exact branch_detailed_tracked globals cpu userdata thread result done
      | branch | updateTarget | updateFallthrough =>
          cases done
          rfl
      | _ => contradiction

theorem invoke_tracked (globals : Globals) (vcpu next : Vcpu) (invocation : Invocation)
    (calls : List Call) (taken : invoke globals vcpu invocation = .ok (next, calls)) :
    track (branchOf vcpu.data) invocation =
      .ok (branchOf next.data, calls.filterMap branchRecord) := by
  have done := invoke_effect globals vcpu next invocation calls taken
  cases invocation with
  | exec callback userdata cpu => exact exec_tracked _ _ _ _ callback _ done
  | mem callback userdata cpu access =>
      have unseen := mem_unseen globals cpu userdata access vcpu.data callback
      have same := Except.ok.inj done
      rw [same] at unseen
      rw [unseen.1, unseen.2]
      rfl

theorem run_tracked (globals : Globals) (vcpu final : Vcpu) (invocations : List Invocation)
    (calls : List Call) (done : run (invoke globals) vcpu invocations = .ok (final, calls)) :
    run track (branchOf vcpu.data) invocations =
      .ok (branchOf final.data, calls.filterMap branchRecord) := by
  have matched := run_simulates (invoke globals) track (fun vcpu => branchOf vcpu.data)
    (fun invocation => [invocation]) branchRecord
    (fun state input next emitted taken => by
      rw [run_singleton]
      exact invoke_tracked globals state next input emitted taken)
    vcpu final invocations calls done
  rwa [List.flatMap_singleton'] at matched

/-! Whole blocks. -/

def instrumented : Mode → Bool
  | .memory | .detailed => true
  | _ => false

def entryRecord (mode : Mode) (block : BlockRun) (branch : Branch) : BranchRecord :=
  if mode = .memory then
    .cacheOnly (block.tb.vaddr != branch.fallthrough) branch.address block.tb.vaddr
  else .detailed (block.tb.vaddr != branch.fallthrough)

/-- Entering an instrumented block consumes the pending branch, writing one record
for it, and then stores the block's own fall-through. -/
theorem entry_track (mode : Mode) (block : BlockRun) (branch final : Branch)
    (written : List BranchRecord) (active : instrumented mode = true)
    (done : run track branch (block.entry mode) = .ok (final, written)) :
    final.address = 0 ∧ (block.tb.isBranch = true → final.fallthrough = block.tb.nextPc) ∧
      written = if branch.address = 0 then [] else [entryRecord mode block branch] := by
  cases mode with
  | memory =>
      rw [BlockRun.entry, entry_hooks_memory] at done
      by_cases waiting : branch.address = 0 <;> by_cases fall : branch.fallthrough = 0 <;>
        cases ends : block.tb.isBranch <;>
        simp [execInvocations, run, track, settle, waiting, fall, ends] at done <;>
        simp [← done.1, ← done.2, waiting, entryRecord, Branch.taken]
  | detailed =>
      rw [BlockRun.entry, entry_hooks_detailed] at done
      by_cases waiting : branch.address = 0 <;> by_cases fall : branch.fallthrough = 0 <;>
        cases ends : block.tb.isBranch <;> cases page : block.tb.page2 <;>
        simp [execInvocations, run, track, settle, waiting, fall, ends, page2Hooks, page] at done <;>
        simp [← done.1, ← done.2, waiting, entryRecord, Branch.taken]
  | _ => contradiction

/-- What a callback of the block's body can be to the branch machine: nothing, or
the branch that ends the block. -/
def BodyStep (tb : Tb) (invocation : Invocation) : Prop :=
  (∀ branch, track branch invocation = .ok (branch, [])) ∨
  (tb.isBranch = true ∧ ∃ cpu, invocation = .exec .branch tb.lastInsn.vaddr cpu)

theorem insn_hook_unrelated (mode : Mode) (tb : Tb) (index : Nat) (insn : Insn)
    (fetched : tb.insns[index]? = some insn) (hook : ExecCallback × UInt64)
    (member : hook ∈ insnHooks mode tb index) :
    unrelated hook.1 = true ∨ (tb.isBranch = true ∧ hook = (.branch, tb.lastInsn.vaddr)) := by
  cases mode with
  | memory =>
      rw [insn_hooks_memory tb index insn fetched] at member
      simp only [List.mem_cons, List.mem_ite_nil_right, List.not_mem_nil, or_false] at member
      rcases member with rfl | ⟨last, rfl | rfl⟩
      · exact Or.inl rfl
      · exact Or.inr ⟨last.1, rfl⟩
      · exact Or.inl rfl
  | detailed =>
      rw [insn_hooks_detailed tb index insn fetched] at member
      simp only [List.mem_append, List.mem_cons, List.mem_ite_nil_right, List.not_mem_nil,
        or_false] at member
      rcases member with (((rfl | rfl | rfl) | ⟨-, rfl⟩) | ⟨-, rfl⟩) | ⟨last, rfl⟩
      · exact Or.inl rfl
      · exact Or.inl rfl
      · exact Or.inl rfl
      · exact Or.inl rfl
      · exact Or.inl rfl
      · exact Or.inr ⟨last.1, rfl⟩
  | icount | unknown | stop => contradiction

theorem body_steps (mode : Mode) (block : BlockRun) (invocation : Invocation)
    (member : invocation ∈ block.body mode) : BodyStep block.tb invocation := by
  rw [BlockRun.body, List.mem_flatMap] at member
  rcases member with ⟨⟨started, index⟩, begun, member⟩
  obtain ⟨insn, fetched⟩ := started_fetched block _ begun
  rw [insnInvocations, List.mem_append] at member
  rcases member with exec | access
  · rcases List.mem_map.mp exec with ⟨hook, hooked, rfl⟩
    rcases insn_hook_unrelated mode block.tb index insn fetched hook hooked
      with other | ⟨branch, rfl⟩
    · exact Or.inl fun state => track_unrelated state hook.1 hook.2 started.cpu other
    · exact Or.inr ⟨branch, started.cpu, rfl⟩
  · rcases List.mem_flatMap.mp access with ⟨_, _, hooked⟩
    rcases List.mem_map.mp hooked with ⟨hook, _, rfl⟩
    exact Or.inl fun state => rfl

theorem body_track (tb : Tb) (invocations : List Invocation)
    (steps : ∀ invocation ∈ invocations, BodyStep tb invocation) (branch final : Branch)
    (written : List BranchRecord) (done : run track branch invocations = .ok (final, written)) :
    written = [] ∧ final.fallthrough = branch.fallthrough ∧
      (final.address = branch.address ∨
        (tb.isBranch = true ∧ final.address = tb.lastInsn.vaddr)) := by
  induction invocations generalizing branch written with
  | nil =>
      cases done
      exact ⟨rfl, rfl, Or.inl rfl⟩
  | cons invocation rest ih =>
      rcases (run_cons_iff _ _ _ _ _ _).mp done with ⟨next, early, late, first, tail, rfl⟩
      rcases ih (fun later member => steps later (List.mem_cons_of_mem _ member)) next late tail
        with ⟨rfl, fallthrough, address⟩
      rcases steps invocation List.mem_cons_self with quiet | ⟨isBranch, cpu, rfl⟩
      · rw [quiet branch] at first
        cases first
        exact ⟨rfl, fallthrough, address⟩
      · cases first
        rcases address with kept | set
        · exact ⟨rfl, fallthrough, Or.inr ⟨isBranch, kept⟩⟩
        · exact ⟨rfl, fallthrough, Or.inr set⟩

theorem uninstrumented_track (mode : Mode) (block : BlockRun) (branch : Branch)
    (passive : instrumented mode = false) :
    run track branch (block.entry mode) = .ok (branch, []) := by
  cases mode with
  | memory | detailed => contradiction
  | icount | unknown | stop => rfl

theorem block_leaves (mode : Mode) (block : BlockRun) (branch final : Branch)
    (written : List BranchRecord)
    (done : run track branch (block.invocations mode) = .ok (final, written)) :
    if instrumented mode then
      final.address ≠ 0 → block.tb.isBranch = true ∧ final.address = block.tb.lastInsn.vaddr ∧
        final.fallthrough = block.tb.nextPc
    else final.address = branch.address ∨
      (block.tb.isBranch = true ∧ final.address = block.tb.lastInsn.vaddr) := by
  rcases (run_append_iff _ _ _ _ _ _).mp done with ⟨middle, early, late, first, second, rfl⟩
  rcases body_track block.tb _ (body_steps mode block) middle final late second with
    ⟨-, fallthrough, address⟩
  cases active : instrumented mode
  · rw [uninstrumented_track mode block branch active] at first
    cases first
    simpa using address
  · rcases entry_track mode block branch middle early active first with ⟨clear, own, -⟩
    simp only [↓reduceIte]
    intro pending
    rcases address with kept | ⟨isBranch, set⟩
    · exact absurd (kept.trans clear) pending
    · exact ⟨isBranch, set, fallthrough.trans (own isBranch)⟩

/-! Runs under any sequence of modes. -/

def remember (_ : Entry) (moment : Moment) (_ : List Call) (last : Option (Mode × BlockRun)) :
    Option (Mode × BlockRun) :=
  match moment with
  | .block mode ran => some (mode, ran)
  | .between _ => last

/-- No branch is pending when an instrumented block follows one that is not. -/
def Chained (watched : Entry × Option (Mode × BlockRun)) : Moment → Prop
  | .between _ => True
  | .block mode _ => instrumented mode = true →
      (watched.2.any fun last => !instrumented last.1) = true → watched.1.vcpu.data.brAddr = 0

instance decidableChained (watched : Entry × Option (Mode × BlockRun)) :
    ∀ moment, Decidable (Chained watched moment)
  | .between _ => inferInstanceAs (Decidable True)
  | .block _ _ => inferInstanceAs (Decidable (_ → _ → _))

/-- A pending branch belongs to the block executed last, if that was instrumented. -/
def Fresh (watched : Entry × Option (Mode × BlockRun)) : Prop :=
  watched.1.vcpu.data.brAddr ≠ 0 → ∃ mode last, watched.2 = some (mode, last) ∧
    (instrumented mode = true → last.tb.isBranch = true ∧
      watched.1.vcpu.data.brAddr = last.tb.lastInsn.vaddr ∧
      watched.1.vcpu.data.brFallthrough = last.tb.nextPc)

theorem between_branch (entry : Entry) (happened : Between) :
    branchOf (between entry happened).1.vcpu.data = branchOf entry.vcpu.data ∨
      (between entry happened).1.vcpu.data.brAddr = 0 := by
  cases happened with
  | start threadid writer => exact Or.inr rfl
  | idle =>
      apply Or.inl
      dsimp only [between, Entry.update, Entry.setData, vcpuIdleCb]
      split_ifs <;> rfl
  | resume =>
      apply Or.inl
      dsimp only [between, Entry.update, Entry.setData, vcpuResumeCb]
      split_ifs <;> rfl
  | _ => exact Or.inl rfl

theorem stride_fresh (watched next : Entry × Option (Mode × BlockRun)) (moment : Moment)
    (calls : List Call) (fresh_ : Fresh watched)
    (taken : watch stride remember watched moment = .ok (next, calls)) : Fresh next := by
  rcases (watch_iff _ _ _ _ _ _).mp taken with ⟨stepped, noted⟩
  intro pending
  cases moment with
  | between happened =>
      rw [stride_between] at stepped
      have same : between watched.1 happened = (next.1, calls) := Except.ok.inj stepped
      -- A start clears the pending branch; a mode switch leaves it as it is.
      rcases between_branch watched.1 happened with kept | dropped
      · rw [same] at kept
        have address : next.1.vcpu.data.brAddr = watched.1.vcpu.data.brAddr :=
          congrArg Branch.address kept
        have fallthrough : next.1.vcpu.data.brFallthrough = watched.1.vcpu.data.brFallthrough :=
          congrArg Branch.fallthrough kept
        rw [address, fallthrough, noted]
        exact fresh_ (address ▸ pending)
      · rw [same] at dropped
        contradiction
  | block mode block =>
      have ran := run_tracked _ _ _ _ _ (stride_block _ _ _ _ _ stepped).1
      refine ⟨mode, block, noted, ?_⟩
      intro active
      have left := block_leaves mode block _ _ _ ran
      rw [if_pos active] at left
      exact left pending

def Immediate (last : Option (Mode × BlockRun)) (thread : ThreadData) (mode : Mode)
    (entered : BlockRun) (written : BranchRecord) : Prop :=
  ∃ before, last.map Prod.snd = some before ∧ before.tb.isBranch = true ∧
    thread.brAddr = before.tb.lastInsn.vaddr ∧ thread.brFallthrough = before.tb.nextPc ∧
    written = entryRecord mode entered
      ⟨before.tb.lastInsn.vaddr, entered.tb.vaddr, before.tb.nextPc⟩

/-- In every run in which no branch is pending when an instrumented block follows
a fast-forward one, a branch record written at block entry belongs to the last
instruction of the block executed immediately before. -/
theorem branch_records_immediate (moments : List Moment) (mode : Mode) (entered : BlockRun)
    (final : Entry) (last : Option (Mode × BlockRun)) (calls : List Call)
    (chained : Along (watch stride remember) Chained (fresh, none)
      (moments ++ [.block mode entered]))
    (done : run (watch stride remember) (fresh, none) moments = .ok ((final, last), calls))
    (next : Vcpu) (early : List Call)
    (entry : run (invoke final.globals) final.vcpu (entered.entry mode) = .ok (next, early)) :
    ∀ written ∈ early.filterMap branchRecord,
      Immediate last final.vcpu.data mode entered written := by
  intro written member
  have tracked := run_tracked _ _ _ _ _ entry
  rcases (along_append _ _ _ _ _ _ _ done).mp chained with ⟨-, here, -⟩
  have fresh_ : Fresh (final, last) := run_invariant (watch stride remember) Fresh
    (fun state input next emitted holds taken => stride_fresh state next input emitted holds taken)
    (fresh, none) (final, last) moments calls (fun pending => absurd rfl pending) done
  by_cases active : instrumented mode = true
  · rcases entry_track mode entered _ _ _ active tracked with ⟨-, -, exact_⟩
    rw [exact_] at member
    by_cases pending : (branchOf final.vcpu.data).address = 0
    · rw [if_pos pending] at member
      contradiction
    · rw [if_neg pending, List.mem_singleton] at member
      rcases fresh_ pending with ⟨before, block, rfl, own⟩
      -- A block of another mode in between would have made the pending branch an older one.
      have same : instrumented before = true := by
        by_contra passive
        exact pending (here active (by simpa using passive))
      rcases own same with ⟨isBranch, address, fallthrough⟩
      refine ⟨block, rfl, isBranch, address, fallthrough, ?_⟩
      rw [member, ← address, ← fallthrough]
      rfl
  · rw [uninstrumented_track mode entered _ (by simpa using active)] at tracked
    have none_ := congrArg (fun result => result.2) (Except.ok.inj tracked)
    rw [show early.filterMap branchRecord = [] from none_.symm] at member
    contradiction

def jumpedOnce : List Moment :=
  [.between (.start 0 0), .between (.mode .memory), .block .memory (jumpBlock 0x1000 0x9000 [])]

theorem jumped_once_immediate :
    ∃ final last calls next early,
      run (watch stride remember) (fresh, none) jumpedOnce = .ok ((final, last), calls) ∧
      run (invoke final.globals) final.vcpu ((jumpBlock 0x2000 0xa000 []).entry .memory) =
        .ok (next, early) ∧
      ∀ written ∈ early.filterMap branchRecord,
        Immediate last final.vcpu.data .memory (jumpBlock 0x2000 0xa000 []) written := by
  rcases map_ok (run (watch stride remember) (fresh, none) jumpedOnce)
    (fun result => (run (invoke result.1.1.globals) result.1.1.vcpu
      ((jumpBlock 0x2000 0xa000 []).entry .memory)).map fun _ => ()) (.ok ()) rfl with
    ⟨⟨⟨final, last⟩, calls⟩, done, seen⟩
  rcases map_ok _ _ _ seen with ⟨⟨next, early⟩, entry, -⟩
  exact ⟨final, last, calls, next, early, done, entry,
    branch_records_immediate jumpedOnce .memory (jumpBlock 0x2000 0xa000 []) final last calls
      (by decide) done next early entry⟩

/-- One fast-forward block in between, and the record made on return names the
jump executed two blocks ago. -/
theorem stale_branch_recorded :
    ∃ final last calls next early written,
      run (watch stride remember) (fresh, none) (jumpedOnce ++ [.between (.mode .icount),
        .block .icount (jumpBlock 0x2000 0xa000 []), .between (.mode .memory)]) =
          .ok ((final, last), calls) ∧
      run (invoke final.globals) final.vcpu ((jumpBlock 0x3000 0xb000 []).entry .memory) =
        .ok (next, early) ∧
      written ∈ early.filterMap branchRecord ∧
      ¬ Immediate last final.vcpu.data .memory (jumpBlock 0x3000 0xb000 []) written := by
  rcases map_ok (run (watch stride remember) (fresh, none) (jumpedOnce ++
      [.between (.mode .icount), .block .icount (jumpBlock 0x2000 0xa000 []),
        .between (.mode .memory)]))
    (fun result => (branchOf result.1.1.vcpu.data, result.1.2,
      (run (invoke result.1.1.globals) result.1.1.vcpu
        ((jumpBlock 0x3000 0xb000 []).entry .memory)).map fun entered =>
          entered.2.filterMap branchRecord))
    (⟨0x1000, 0x1000, 0x1002⟩, some (.icount, jumpBlock 0x2000 0xa000 []),
      .ok [.cacheOnly true 0x1000 0x3000]) rfl with ⟨⟨⟨final, last⟩, calls⟩, done, seen⟩
  rcases map_ok _ _ _ (congrArg (fun view => view.2.2) seen) with ⟨⟨next, early⟩, entry, written⟩
  refine ⟨final, last, calls, next, early, _, done, entry, written ▸ List.mem_singleton_self _, ?_⟩
  rintro ⟨before, same, -, address, -⟩
  have block : last = some (.icount, jumpBlock 0x2000 0xa000 []) := congrArg (fun view => view.2.1) seen
  have pending : final.vcpu.data.brAddr = 0x1000 := congrArg (fun view => view.1.address) seen
  rw [block] at same
  cases same
  rw [pending] at address
  exact absurd address (by decide)

end Hypersh.Branches
