import Mathlib.Data.List.Basic
import Mathlib.Tactic.SplitIfs
import Hypersh.Transduction
import Hypersh.Callbacks
import Hypersh.Blocks
import Hypersh.Footprint
import Hypersh.Timeline
import Hypersh.Detailed

/-!
Code-address translations. The virtual half of a Translate record is read from
the entry when it is written, the physical half was registered with the callback
when the block was translated. Here each pair is put beside the address that
backs its virtual half.
-/
namespace Hypersh.Translations
open Callbacks Blocks Footprint Timeline Transduction

/-- What the emulator answers for the addresses of a block is what backs them. -/
structure Backed (ram : UInt64 → UInt64) (tb : Tb) : Prop where
  insns : ∀ insn ∈ tb.insns, insn.ramAddr = ram insn.vaddr
  block : tb.ramAddr = ram tb.vaddr
  page2 : ∀ page, tb.page2 = some page → page.ramAddr = ram page.vaddr

structure CodeTranslation where
  vaddr : UInt64
  paddr : UInt64
  backing : UInt64
  deriving DecidableEq, Repr

def CodeTranslation.Right (translation : CodeTranslation) : Prop :=
  translation.paddr = translation.backing

def translation : Call → Option (UInt64 × UInt64)
  | .translate vaddr paddr => some (vaddr, paddr)
  | _ => none

/-- The translations of code addresses a callback writes: the memory callbacks
first translate the accessed data. -/
def codePairs : Invocation → List Call → List (UInt64 × UInt64)
  | .exec _ _ _, calls => calls.filterMap translation
  -- `Translate(vaddr, paddr)` of the accessed address always comes first.
  | .mem _ _ _ _, calls => (calls.filterMap translation).drop 1

def codeTranslations (ram : UInt64 → UInt64) (invocation : Invocation) (calls : List Call) :
    List CodeTranslation :=
  (codePairs invocation calls).map fun pair => ⟨pair.1, pair.2, ram pair.1⟩

def observe (globals : Globals) (ram : UInt64 → UInt64) :
    Step Vcpu Invocation CodeTranslation Fault :=
  fun vcpu invocation => (invoke globals vcpu invocation).map fun result =>
    (result.1, codeTranslations ram invocation result.2)

theorem observe_effect (globals : Globals) (ram : UInt64 → UInt64) (vcpu next : Vcpu)
    (invocation : Invocation) (outputs : List CodeTranslation)
    (taken : observe globals ram vcpu invocation = .ok (next, outputs)) :
    ∃ calls, effect globals vcpu.data invocation = .ok (next.data, calls) ∧
      outputs = codeTranslations ram invocation calls := by
  rcases map_ok _ _ _ taken with ⟨⟨reached, calls⟩, done, same⟩
  rcases Prod.mk.inj same with ⟨rfl, rfl⟩
  exact ⟨calls, invoke_effect _ _ _ _ _ done, rfl⟩

def untranslating (callback : ExecCallback) : Bool :=
  match callback with
  | .branchRamAddr | .branchCacheonly | .tbItlb | .tbItlb2 | .insnItlb => false
  | _ => true

theorem untranslating_none (globals : Globals) (cpu : Cpu) (userdata : UInt64)
    (thread : ThreadData) (callback : ExecCallback) (result : Effect)
    (quiet : untranslating callback = true)
    (done : execEffect globals cpu userdata thread callback = .ok result) :
    result.2.filterMap translation = [] := by
  apply unread translation _ _ (exec_may_call globals cpu userdata thread callback result done)
  intro call may
  cases call with
  | translate vaddr paddr => cases callback <;> contradiction
  | _ => rfl

theorem observe_hook (globals : Globals) (ram : UInt64 → UInt64) (cpu : Cpu) (vcpu final : Vcpu)
    (hook : ExecCallback × UInt64) (hooks : List (ExecCallback × UInt64))
    (outputs : List CodeTranslation)
    (done : run (observe globals ram) vcpu (execInvocations (hook :: hooks) cpu) =
      .ok (final, outputs)) :
    ∃ next calls late, execEffect globals cpu hook.2 vcpu.data hook.1 = .ok (next.data, calls) ∧
      run (observe globals ram) next (execInvocations hooks cpu) = .ok (final, late) ∧
      outputs = codeTranslations ram (.exec hook.1 hook.2 cpu) calls ++ late := by
  rcases (run_cons_iff _ _ _ _ _ _).mp done with ⟨next, early, late, first, tail, rfl⟩
  rcases observe_effect _ _ _ _ _ _ first with ⟨calls, effected, rfl⟩
  exact ⟨next, calls, late, effected, tail, rfl⟩

theorem quiet_hooks (globals : Globals) (ram : UInt64 → UInt64) (cpu : Cpu) (vcpu final : Vcpu)
    (hooks : List (ExecCallback × UInt64)) (outputs : List CodeTranslation)
    (quiet : ∀ hook ∈ hooks, untranslating hook.1 = true)
    (done : run (observe globals ram) vcpu (execInvocations hooks cpu) = .ok (final, outputs)) :
    outputs = [] := by
  induction hooks generalizing vcpu outputs with
  | nil =>
      cases done
      rfl
  | cons hook rest ih =>
      rcases observe_hook globals ram cpu vcpu final hook rest outputs done with
        ⟨next, calls, late, effected, tail, rfl⟩
      have none_ := untranslating_none _ _ _ _ hook.1 _ (quiet hook List.mem_cons_self) effected
      rw [ih next late (fun other member => quiet other (List.mem_cons_of_mem hook member)) tail]
      simp [codeTranslations, codePairs, show calls.filterMap translation = [] from none_]

/-- The one translation block entry writes in `ModeMemory`: the branch target with
the physical address of the block's last instruction. -/
theorem entry_memory_translations (globals : Globals) (ram : UInt64 → UInt64) (block : BlockRun)
    (vcpu final : Vcpu) (outputs : List CodeTranslation)
    (done : run (observe globals ram) vcpu (block.entry .memory) = .ok (final, outputs)) :
    outputs = if vcpu.data.brAddr = 0 then []
      else [⟨block.tb.vaddr, block.tb.lastInsn.ramAddr, ram block.tb.vaddr⟩] := by
  simp only [BlockRun.entry, entry_hooks_memory, List.cons_append, List.nil_append] at done
  rcases observe_hook _ _ _ _ _ _ _ _ done with ⟨counted, calls₁, late₁, first, done₁, rfl⟩
  rcases observe_hook _ _ _ _ _ _ _ _ done₁ with ⟨aimed, calls₂, late₂, second, done₂, rfl⟩
  rcases observe_hook _ _ _ _ _ _ _ _ done₂ with ⟨sent, calls₃, late₃, third, done₃, rfl⟩
  rcases Prod.mk.inj (Except.ok.inj first) with ⟨data₁, rfl⟩
  rcases Prod.mk.inj (Except.ok.inj second) with ⟨data₂, rfl⟩
  rw [← data₁] at data₂
  have quiet : late₃ = [] := by
    apply quiet_hooks _ _ _ _ _ _ _ _ done₃
    intro hook member
    simp only [List.mem_ite_nil_right, List.mem_singleton] at member
    rw [member.2]
    rfl
  -- The target is the entered block, the physical address that of its last instruction.
  have address : aimed.data.brAddr = vcpu.data.brAddr := by rw [← data₂]
  have target : aimed.data.brTarget = block.tb.vaddr := by rw [← data₂]
  rcases branch_cacheonly_cases _ _ _ third with ⟨clear, same⟩ | ⟨waiting, -, same⟩
  · rw [address] at clear
    rw [if_pos clear, quiet, (Prod.mk.inj same).2]
    rfl
  · rw [address] at waiting
    rw [if_neg waiting, quiet, (Prod.mk.inj same).2, target]
    have synced : (syncReported (clearBranch (consumePending aimed.data))).2.filterMap
        translation = [] := by
      unfold syncReported
      split <;> rfl
    simp [codeTranslations, codePairs, synced, List.filterMap_cons, translation]

theorem branch_detailed_vaddr1 (globals : Globals) (cpu : Cpu) (thread : ThreadData)
    (result : Effect) (done : tbExecBranchDetailed globals cpu thread = .ok result) :
    result.1.tbVaddr1 = thread.tbVaddr1 := by
  rcases branch_detailed_cases globals cpu thread result done with ⟨-, rfl⟩ | ⟨-, -, rfl⟩
  · rfl
  · unfold crossRoi
    cases inRoi globals cpu <;> cases thread.idle <;> rfl

theorem itlb_right (ram : UInt64 → UInt64) (callback : ExecCallback) (userdata : UInt64) (cpu : Cpu)
    (inside : Bool) (vaddr : UInt64) (calls : List Call)
    (sent : calls = if inside then [.translate vaddr userdata] else [])
    (backed : userdata = ram vaddr) :
    ∀ output ∈ codeTranslations ram (.exec callback userdata cpu) calls, output.Right := by
  intro output member
  cases inside
  · simp [sent, codeTranslations, codePairs] at member
  · simp only [sent, ↓reduceIte, codeTranslations, codePairs, List.filterMap_cons, translation,
      List.filterMap_nil, List.map_cons, List.map_nil, List.mem_singleton] at member
    rw [member]
    exact backed

theorem page2_translations (globals : Globals) (ram : UInt64 → UInt64) (block : BlockRun)
    (backed : Backed ram block.tb) (vcpu final : Vcpu) (rest : List (ExecCallback × UInt64))
    (quiet : ∀ hook ∈ rest, untranslating hook.1 = true) (outputs : List CodeTranslation)
    (done : run (observe globals ram) vcpu
      (execInvocations (page2Hooks block.tb ++ rest) block.cpu) = .ok (final, outputs)) :
    ∀ output ∈ outputs, output.Right := by
  unfold page2Hooks at done
  cases second : block.tb.page2 with
  | none =>
      rw [second] at done
      rw [quiet_hooks _ _ _ _ _ rest outputs quiet done]
      exact fun _ absent => absurd absent List.not_mem_nil
  | some page =>
      simp only [second, List.cons_append, List.nil_append] at done
      rcases observe_hook _ _ _ _ _ _ _ _ done with ⟨stored, calls₁, late₁, first, done₁, rfl⟩
      rcases observe_hook _ _ _ _ _ _ _ _ done₁ with ⟨sent, calls₂, late₂, looked, done₂, rfl⟩
      rcases Prod.mk.inj (Except.ok.inj first) with ⟨data₁, rfl⟩
      rcases Prod.mk.inj (Except.ok.inj looked) with ⟨-, calls⟩
      have silent : late₂ = [] := by
        apply quiet_hooks _ _ _ _ _ _ _ _ done₂
        intro hook member
        rcases List.mem_cons.mp member with rfl | later
        · rfl
        · exact quiet hook later
      have right := itlb_right ram .tbItlb2 page.ramAddr block.cpu (inRoi globals block.cpu)
        stored.data.tbVaddr2 calls₂ calls.symm (by rw [← data₁]; exact backed.page2 page second)
      simpa [silent, codeTranslations, codePairs, tbExecVaddr2] using right

theorem entry_detailed_translations (globals : Globals) (ram : UInt64 → UInt64)
    (block : BlockRun) (backed : Backed ram block.tb) (vcpu final : Vcpu)
    (outputs : List CodeTranslation)
    (done : run (observe globals ram) vcpu (block.entry .detailed) = .ok (final, outputs)) :
    ∀ output ∈ outputs, output.Right := by
  simp only [BlockRun.entry, entry_hooks_detailed, List.cons_append, List.nil_append] at done
  rcases observe_hook _ _ _ _ _ _ _ _ done with ⟨counted, calls₁, late₁, first, done₁, rfl⟩
  rcases observe_hook _ _ _ _ _ _ _ _ done₁ with ⟨aimed, calls₂, late₂, second, done₂, rfl⟩
  rcases observe_hook _ _ _ _ _ _ _ _ done₂ with ⟨sent, calls₃, late₃, third, done₃, rfl⟩
  rcases observe_hook _ _ _ _ _ _ _ _ done₃ with ⟨looked, calls₄, late₄, fourth, done₄, rfl⟩
  rcases observe_hook _ _ _ _ _ _ _ _ done₄ with ⟨lined, calls₅, late₅, fifth, done₅, rfl⟩
  rcases Prod.mk.inj (Except.ok.inj first) with ⟨-, rfl⟩
  rcases Prod.mk.inj (Except.ok.inj second) with ⟨data₂, rfl⟩
  rcases Prod.mk.inj (Except.ok.inj fourth) with ⟨-, calls⟩
  have here : sent.data.tbVaddr1 = block.tb.vaddr := by
    rw [show sent.data.tbVaddr1 = aimed.data.tbVaddr1 from branch_detailed_vaddr1 _ _ _ _ third,
      ← data₂]
  have branchless := untranslating_none _ _ _ _ .branchDetailed _ rfl third
  have lineless := untranslating_none _ _ _ _ .sendIcache _ rfl fifth
  have own := itlb_right ram .tbItlb block.tb.ramAddr block.cpu (inRoi globals block.cpu)
    sent.data.tbVaddr1 calls₄ calls.symm (by rw [here]; exact backed.block)
  have page := page2_translations globals ram block backed lined final
    (if block.tb.isBranch then [(.updateFallthrough, block.tb.nextPc)] else []) (by
      intro hook member
      simp only [List.mem_ite_nil_right, List.mem_singleton] at member
      rw [member.2]
      rfl) late₅ done₅
  intro output member
  simp only [codeTranslations, codePairs, show calls₃.filterMap translation = [] from branchless,
    show calls₅.filterMap translation = [] from lineless, List.filterMap_nil, List.map_nil,
    List.nil_append] at member
  rcases List.mem_append.mp member with early | late
  · exact own output early
  · exact page output late

/-! Instructions. -/

theorem observe_access (globals : Globals) (ram : UInt64 → UInt64) (vcpu final : Vcpu)
    (access : Cpu × Access) (hook : MemCallback × UInt64) (hooks : List (MemCallback × UInt64))
    (outputs : List CodeTranslation)
    (done : run (observe globals ram) vcpu (accessInvocations (hook :: hooks) access) =
      .ok (final, outputs)) :
    ∃ next late, next.data = (memEffect globals access.1 hook.2 access.2 vcpu.data hook.1).1 ∧
      run (observe globals ram) next (accessInvocations hooks access) = .ok (final, late) ∧
      outputs = codeTranslations ram (.mem hook.1 hook.2 access.1 access.2)
        (memEffect globals access.1 hook.2 access.2 vcpu.data hook.1).2 ++ late := by
  rcases (run_cons_iff _ _ _ _ _ _).mp done with ⟨next, early, late, first, tail, rfl⟩
  rcases observe_effect _ _ _ _ _ _ first with ⟨calls, effected, rfl⟩
  have same := Except.ok.inj effected
  refine ⟨next, late, ?_, tail, ?_⟩
  · rw [same]
  · rw [same]

theorem send_detailed_pairs (globals : Globals) (cpu : Cpu) (userdata : UInt64) (access : Access)
    (thread : ThreadData) :
    codePairs (.mem .sendDetailed userdata cpu access)
      (memSendDetailed globals cpu access thread).2 = [] := by
  dsimp only [memSendDetailed]
  split_ifs <;> rfl

theorem send_cacheonly_pairs (cpu : Cpu) (ramAddr : UInt64) (access : Access)
    (thread : ThreadData) :
    codePairs (.mem .sendCacheonly ramAddr cpu access) (memSendCacheonly access ramAddr thread).2 =
      if thread.icountCacheonlyPending = 0 then [] else [(thread.pc, ramAddr)] := by
  have synced : ∀ other, (syncReported other).2.filterMap translation = [] := by
    intro other
    unfold syncReported
    split <;> rfl
  unfold memSendCacheonly codePairs
  by_cases none_ : thread.icountCacheonlyPending = 0
  · simp [none_, synced, translation, List.filterMap_cons]
  · simp [none_, synced, translation, List.filterMap_cons]

theorem access_memory_translations (globals : Globals) (ram : UInt64 → UInt64) (insn : Insn)
    (backed : insn.ramAddr = ram insn.vaddr) (access : Cpu × Access) (vcpu final : Vcpu)
    (outputs : List CodeTranslation)
    (done : run (observe globals ram) vcpu (accessInvocations
      [(.updatePc, insn.vaddr), (.sendCacheonly, insn.ramAddr)] access) = .ok (final, outputs)) :
    ∀ output ∈ outputs, output.Right := by
  rcases observe_access _ _ _ _ _ _ _ _ done with ⟨placed, late₁, data₁, done₁, rfl⟩
  rcases observe_access _ _ _ _ _ _ _ _ done₁ with ⟨sent, late₂, -, done₂, rfl⟩
  cases done₂
  have pairs := send_cacheonly_pairs access.1 insn.ramAddr access.2 placed.data
  have here : placed.data.pc = insn.vaddr := by rw [data₁]; rfl
  intro output member
  have written : output ∈ codeTranslations ram
      (.mem .sendCacheonly insn.ramAddr access.1 access.2)
      (memSendCacheonly access.2 insn.ramAddr placed.data).2 := by
    simpa [codeTranslations, codePairs, memEffect, memUpdatePc] using member
  rw [codeTranslations, pairs, here] at written
  split at written
  · contradiction
  · simp only [List.map_cons, List.map_nil, List.mem_singleton] at written
    rw [written]
    exact backed

theorem insn_memory_translations (globals : Globals) (ram : UInt64 → UInt64) (tb : Tb)
    (backed : Backed ram tb) (index : Nat) (insn : Insn) (started : Started)
    (fetched : tb.insns[index]? = some insn) (vcpu final : Vcpu)
    (outputs : List CodeTranslation)
    (done : run (observe globals ram) vcpu (insnInvocations .memory tb index started) =
      .ok (final, outputs)) :
    ∀ output ∈ outputs, output.Right := by
  rw [insnInvocations, insn_hooks_memory tb index insn fetched,
    mem_hooks_memory tb index insn fetched] at done
  rcases (run_append_iff _ _ _ _ _ _).mp done with ⟨begun, early, late, exec, accesses, rfl⟩
  have own := backed.insns insn (List.mem_of_getElem? fetched)
  have data := run_groups_all (observe globals ram) _ CodeTranslation.Right started.accesses
    (fun access _ state final outputs ran =>
      access_memory_translations globals ram insn own access state final outputs ran)
    begun final late accesses
  have code : ∀ output ∈ early, output.Right := by
    rcases observe_hook _ _ _ _ _ _ _ _ exec with ⟨counted, calls₁, late₁, first, exec₁, rfl⟩
    rcases Prod.mk.inj (Except.ok.inj first) with ⟨-, rfl⟩
    by_cases last : tb.isBranch = true ∧ tb.lastIndex = index
    · rw [if_pos last] at exec₁
      rcases observe_hook _ _ _ _ _ _ _ _ exec₁ with ⟨aimed, calls₂, late₂, second, exec₂, rfl⟩
      rcases observe_hook _ _ _ _ _ _ _ _ exec₂ with ⟨sent, calls₃, late₃, third, exec₃, rfl⟩
      cases exec₃
      rcases Prod.mk.inj (Except.ok.inj second) with ⟨data₂, rfl⟩
      rcases Prod.mk.inj (Except.ok.inj third) with ⟨-, rfl⟩
      have here : aimed.data.brAddr = tb.lastInsn.vaddr := by rw [← data₂]
      intro output member
      simp only [codeTranslations, codePairs, List.filterMap_nil, List.map_nil, List.nil_append,
        List.filterMap_cons, translation, List.map_cons, List.append_nil, List.mem_singleton,
        here] at member
      rw [member]
      exact backed.insns tb.lastInsn (List.getLast_mem tb.nonempty)
    · rw [if_neg last] at exec₁
      cases exec₁
      exact fun _ absent => absurd absent List.not_mem_nil
  intro output member
  rcases List.mem_append.mp member with before | after
  · exact code output before
  · exact data output after

theorem insn_detailed_translations (globals : Globals) (ram : UInt64 → UInt64) (tb : Tb)
    (backed : Backed ram tb) (index : Nat) (insn : Insn) (started : Started)
    (fetched : tb.insns[index]? = some insn) (vcpu final : Vcpu)
    (outputs : List CodeTranslation)
    (done : run (observe globals ram) vcpu (insnInvocations .detailed tb index started) =
      .ok (final, outputs)) :
    ∀ output ∈ outputs, output.Right := by
  rw [insnInvocations, insn_hooks_detailed tb index insn fetched,
    mem_hooks_detailed tb index insn fetched] at done
  simp only [List.cons_append, List.nil_append] at done
  rcases (run_append_iff _ _ _ _ _ _).mp done with ⟨begun, early, late, exec, accesses, rfl⟩
  have data : ∀ output ∈ late, output.Right := by
    apply run_groups_all (observe globals ram) _ CodeTranslation.Right started.accesses _
      begun final late accesses
    intro access _ state final outputs ran
    rcases observe_access _ _ _ _ _ _ _ _ ran with ⟨sent, late₁, -, ran₁, rfl⟩
    cases ran₁
    have pairs := send_detailed_pairs globals access.1 0 access.2 state.data
    rw [codeTranslations, memEffect, pairs]
    exact fun _ absent => absurd absent List.not_mem_nil
  have code : ∀ output ∈ early, output.Right := by
    rcases observe_hook _ _ _ _ _ _ _ _ exec with ⟨placed, calls₁, late₁, first, exec₁, rfl⟩
    rcases observe_hook _ _ _ _ _ _ _ _ exec₁ with ⟨looked, calls₂, late₂, second, exec₂, rfl⟩
    -- `pc` is written before the instruction's own translation reads it.
    have here : placed.data.pc = insn.vaddr := by
      rw [← show (insnExecUpdatePc globals started.cpu insn.vaddr vcpu.data).1 = placed.data from
        congrArg Prod.fst (Except.ok.inj first)]
      exact (Detailed.update_pc_piece globals started.cpu insn.vaddr vcpu.data ⟨[], none⟩).2
    have silent := untranslating_none _ _ _ _ .updatePc _ rfl first
    rcases Prod.mk.inj (Except.ok.inj second) with ⟨-, calls⟩
    have quiet : late₂ = [] := by
      apply quiet_hooks _ _ _ _ _ _ _ _ exec₂
      intro hook member
      simp only [List.mem_cons, List.mem_append, List.mem_ite_nil_right, List.not_mem_nil,
        or_false] at member
      rcases member with rfl | (⟨-, rfl⟩ | ⟨-, rfl⟩) | ⟨-, rfl⟩
      · rfl
      · rfl
      · rfl
      · rfl
    have own := itlb_right ram .insnItlb insn.ramAddr started.cpu (inRoi globals started.cpu)
      placed.data.pc calls₂ calls.symm
      (by rw [here]; exact backed.insns insn (List.mem_of_getElem? fetched))
    simpa [quiet, codeTranslations, codePairs, show calls₁.filterMap translation = [] from silent]
      using own
  intro output member
  rcases List.mem_append.mp member with before | after
  · exact code output before
  · exact data output after

theorem body_translations (globals : Globals) (ram : UInt64 → UInt64) (mode : Mode)
    (block : BlockRun) (backed : Backed ram block.tb) (vcpu final : Vcpu)
    (outputs : List CodeTranslation)
    (done : run (observe globals ram) vcpu (block.body mode) = .ok (final, outputs)) :
    ∀ output ∈ outputs, output.Right := by
  apply run_groups_all (observe globals ram) _ CodeTranslation.Right block.started.zipIdx _
    vcpu final outputs done
  rintro ⟨started, index⟩ begun state final outputs ran
  obtain ⟨insn, fetched⟩ := started_fetched block _ begun
  cases mode with
  | memory =>
      exact insn_memory_translations globals ram block.tb backed index insn started fetched state
        final outputs ran
  | detailed =>
      exact insn_detailed_translations globals ram block.tb backed index _ started fetched state
        final outputs ran
  | icount | unknown | stop =>
      have nothing : started.accesses.flatMap (accessInvocations []) = [] :=
        List.flatMap_eq_nil_iff.mpr fun _ _ => rfl
      have empty : run (observe globals ram) state
        (started.accesses.flatMap (accessInvocations [])) = .ok (final, outputs) := ran
      rw [nothing] at empty
      cases empty
      exact fun _ absent => absurd absent List.not_mem_nil

theorem block_translations_iff (globals : Globals) (ram : UInt64 → UInt64) (mode : Mode)
    (block : BlockRun) (backed : Backed ram block.tb) (vcpu final : Vcpu)
    (outputs : List CodeTranslation)
    (done : run (observe globals ram) vcpu (block.invocations mode) = .ok (final, outputs)) :
    (∀ output ∈ outputs, output.Right) ↔
      (mode = .memory → vcpu.data.brAddr ≠ 0 → block.tb.lastInsn.ramAddr = block.tb.ramAddr) := by
  rcases (run_append_iff _ _ _ _ _ _).mp done with ⟨entered, early, late, entry, body, rfl⟩
  have inside := body_translations globals ram mode block backed entered final late body
  have outside : (∀ output ∈ early, output.Right) ↔ (mode = .memory → vcpu.data.brAddr ≠ 0 →
      block.tb.lastInsn.ramAddr = block.tb.ramAddr) := by
    cases mode with
    | memory =>
        rw [entry_memory_translations globals ram block vcpu entered early entry, backed.block]
        by_cases clear : vcpu.data.brAddr = 0
        · simp [clear]
        · simp [clear, CodeTranslation.Right]
    | detailed =>
        have right := entry_detailed_translations globals ram block backed vcpu entered early entry
        simpa using right
    | icount | unknown | stop =>
        have quiet : early = [] := by
          apply quiet_hooks globals ram block.cpu vcpu entered _ early _ entry
          intro hook member
          simp [entryHooks, vcpuTbTransCb, Registration.entryHook] at member
          rcases member with rfl | rfl <;> rfl
        simp [quiet]
  constructor
  · intro right
    exact outside.mp fun output member => right output (List.mem_append_left _ member)
  · intro aligned output member
    rcases List.mem_append.mp member with before | after
    · exact outside.mpr aligned output before
    · exact inside output after

/-! Runs. -/

/-- A block is executed while `ram` backs the addresses; other things may happen
between blocks. -/
inductive Scene where
  | between (happened : Between)
  | block (mode : Mode) (ran : BlockRun) (ram : UInt64 → UInt64) (backed : Backed ram ran.tb)

def scene : Step Entry Scene CodeTranslation Fault :=
  fun entry now =>
    match now with
    | .between happened => .ok ((between entry happened).1, [])
    | .block mode ran ram _ =>
        (run (observe entry.globals ram) entry.vcpu (ran.invocations mode)).map fun result =>
          (⟨entry.globals, result.1⟩, result.2)

/-- The branch sender of `ModeMemory` finds nothing to send, or the block's last
instruction where its first one is. -/
def Aligned (entry : Entry) : Scene → Prop
  | .between _ => True
  | .block mode ran _ _ => mode = .memory → entry.vcpu.data.brAddr ≠ 0 →
      ran.tb.lastInsn.ramAddr = ran.tb.ramAddr

theorem scene_translations_iff (entry next : Entry) (now : Scene)
    (outputs : List CodeTranslation) (taken : scene entry now = .ok (next, outputs)) :
    (∀ output ∈ outputs, output.Right) ↔ Aligned entry now := by
  cases now with
  | between happened =>
      cases taken
      simp [Aligned]
  | block mode ran ram backed =>
      rcases map_ok _ _ _ taken with ⟨⟨vcpu, emitted⟩, done, same⟩
      rcases Prod.mk.inj same with ⟨-, rfl⟩
      exact block_translations_iff entry.globals ram mode ran backed entry.vcpu vcpu emitted done

/-- Every code translation of a run is right exactly when every block of
`ModeMemory` that is entered with a pending branch has its last instruction backed
where its start is. -/
theorem code_translations_right_iff (entry final : Entry) (scenes : List Scene)
    (outputs : List CodeTranslation) (done : run scene entry scenes = .ok (final, outputs)) :
    (∀ output ∈ outputs, output.Right) ↔ Along scene Aligned entry scenes :=
  run_all_iff scene Aligned CodeTranslation.Right
    (fun state now next emitted taken => scene_translations_iff state next now emitted taken)
    entry final scenes outputs done

def shifted (vaddr : UInt64) : UInt64 := vaddr + 0x8000

theorem jump_block_backed (vaddr : UInt64) (accesses : List Access) :
    Backed shifted (jumpBlock vaddr (shifted vaddr) accesses).tb where
  insns := by simp [jumpBlock]
  block := rfl
  page2 := fun _ absent => nomatch absent

theorem straight_block_backed (vaddr : UInt64) (length : Nat) :
    Backed shifted (straightBlock vaddr (shifted vaddr) length).tb where
  insns := by
    intro insn member
    rcases List.mem_map.mp member with ⟨index, -, rfl⟩
    simp only [shifted]
    grind
  block := rfl
  page2 := fun _ absent => nomatch absent

def jumpThen (length : Nat) : List Scene :=
  [.between (.start 0 0), .between (.mode .memory),
   .block .memory (jumpBlock 0x1000 (shifted 0x1000) []) shifted (jump_block_backed 0x1000 []),
   .block .memory (straightBlock 0x2000 (shifted 0x2000) length) shifted
     (straight_block_backed 0x2000 length)]

theorem single_instruction_right :
    ∃ final outputs, run scene fresh (jumpThen 0) = .ok (final, outputs) ∧
      ((∀ output ∈ outputs, output.Right) ↔ Along scene Aligned fresh (jumpThen 0)) := by
  rcases map_ok (run scene fresh (jumpThen 0)) (fun _ => ()) () rfl with
    ⟨⟨final, outputs⟩, done, -⟩
  exact ⟨final, outputs, done, code_translations_right_iff fresh final (jumpThen 0) outputs done⟩

/-- With a second instruction in the block its start is translated to the address
of that instruction. -/
theorem target_translated_to_last_insn :
    ∃ final outputs, run scene fresh (jumpThen 1) = .ok (final, outputs) ∧
      ⟨0x2000, 0xa004, 0xa000⟩ ∈ outputs ∧ ¬ ∀ output ∈ outputs, output.Right := by
  rcases map_ok (run scene fresh (jumpThen 1)) (fun result => result.2)
    [⟨0x1000, 0x9000, 0x9000⟩, ⟨0x2000, 0xa004, 0xa000⟩] rfl with ⟨⟨final, outputs⟩, done, seen⟩
  have wrong : (⟨0x2000, 0xa004, 0xa000⟩ : CodeTranslation) ∈ outputs := by
    rw [show outputs = _ from seen]
    exact List.mem_cons_of_mem _ List.mem_cons_self
  refine ⟨final, outputs, done, wrong, ?_⟩
  intro right
  exact absurd (right _ wrong) (by unfold CodeTranslation.Right; decide)

end Hypersh.Translations
