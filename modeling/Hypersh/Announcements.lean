import Mathlib.Data.List.Basic
import Mathlib.Tactic.SplitIfs
import Hypersh.Transduction
import Hypersh.Callbacks
import Hypersh.Blocks
import Hypersh.Footprint
import Hypersh.Timeline
import Hypersh.CacheOnly
import Hypersh.Precedence

/-!
Translations before cache-only memory records. The accessed address is translated with
every record. The program counter is translated with a record that has something to
report, which the first of an instruction has unless the pending count ran over.
-/
namespace Hypersh.Announcements
open Callbacks Blocks Footprint Timeline Transduction Precedence
open CacheOnly (startsInsn branch_cacheonly_silent)

/-- What a cache-only read or write names. -/
structure AccessRecord where
  pc : UInt64
  address : UInt64
  deriving DecidableEq, Repr

def accessRecord : Call → Option AccessRecord
  | .cacheOnly _ .memRead pc address | .cacheOnly _ .memWrite pc address => some ⟨pc, address⟩
  | _ => none

def Translated (past : List Call) (vaddr : UInt64) : Prop := ∃ paddr, .translate vaddr paddr ∈ past

def Announced (part : AccessRecord → UInt64) (past : List Call) (call : Call) : Prop :=
  ∀ record ∈ accessRecord call, Translated past (part record)

theorem translated_append (past later : List Call) (vaddr : UInt64) :
    Translated (past ++ later) vaddr ↔ Translated past vaddr ∨ Translated later vaddr := by
  simp only [Translated, List.mem_append, exists_or]

theorem announced_lasting (part : AccessRecord → UInt64) : Lasting (Announced part) := by
  intro past front call announced record recorded
  exact (translated_append past front _).mpr (.inr (announced record recorded))

theorem silent_announced (part : AccessRecord → UInt64) (past : List Call) (call : Call)
    (silent : accessRecord call = none) : Announced part past call := by
  intro record recorded
  rw [silent] at recorded
  contradiction

theorem silent_justified (part : AccessRecord → UInt64) (calls : List Call)
    (silent : ∀ call ∈ calls, accessRecord call = none) : Justified (Announced part) calls :=
  justified_unneeded _ calls fun call member past =>
    silent_announced part past call (silent call member)

theorem access_record (icount pc address : UInt64) (isStore : Bool) :
    accessRecord (.cacheOnly icount (if isStore then .memWrite else .memRead) pc address) =
      some ⟨pc, address⟩ := by
  cases isStore <;> rfl

/-! One callback. -/

theorem exec_silent (globals : Globals) (cpu : Cpu) (userdata : UInt64) (thread : ThreadData)
    (callback : ExecCallback) (result : Effect)
    (done : execEffect globals cpu userdata thread callback = .ok result) :
    ∀ call ∈ result.2, accessRecord call = none := by
  intro call member
  have may := List.all_eq_true.mp
    (exec_may_call globals cpu userdata thread callback result done) call member
  cases call with
  | cacheOnly icount type pc address =>
      cases type with
      | branchTaken | branchNotTaken => rfl
      | memRead | memWrite => cases callback <;> contradiction
  | _ => rfl

theorem sync_reported_silent (thread : ThreadData) :
    ∀ call ∈ (syncReported thread).2, accessRecord call = none := by
  unfold syncReported
  split
  · intro call member
    rw [List.mem_singleton.mp member]
    rfl
  · exact fun call absent => absurd absent List.not_mem_nil

def translations (access : Access) (ramAddr : UInt64) (thread : ThreadData) : List Call :=
  .translate access.vaddr access.paddr ::
    if thread.icountCacheonlyPending ≠ 0 then [.translate thread.pc ramAddr] else []

theorem mem_send_cacheonly_shape (access : Access) (ramAddr : UInt64) (thread : ThreadData) :
    ∃ synced, (memSendCacheonly access ramAddr thread).2 = translations access ramAddr thread ++
        .cacheOnly thread.icountCacheonlyPending (if access.isStore then .memWrite else .memRead)
          thread.pc access.vaddr :: synced ∧
      ∀ call ∈ synced, accessRecord call = none := by
  by_cases pending : thread.icountCacheonlyPending ≠ 0
  · refine ⟨(syncReported (consumePending thread)).2, ?_, sync_reported_silent _⟩
    simp only [memSendCacheonly, translations, if_pos pending, List.cons_append, List.nil_append]
  · refine ⟨(syncReported thread).2, ?_, sync_reported_silent _⟩
    simp only [memSendCacheonly, translations, if_neg pending, List.cons_append, List.nil_append]

theorem translations_silent (access : Access) (ramAddr : UInt64) (thread : ThreadData) :
    ∀ call ∈ translations access ramAddr thread, accessRecord call = none := by
  intro call member
  unfold translations at member
  obtain rfl | member := List.mem_cons.mp member
  · rfl
  · split at member
    · rw [List.mem_singleton.mp member]
      rfl
    · exact absurd member List.not_mem_nil

theorem mem_send_justified (part : AccessRecord → UInt64) (access : Access) (ramAddr : UInt64)
    (thread : ThreadData) (past : List Call)
    (announced : Translated (past ++ translations access ramAddr thread)
      (part ⟨thread.pc, access.vaddr⟩)) :
    Justified (fun later => Announced part (past ++ later))
      (memSendCacheonly access ramAddr thread).2 := by
  obtain ⟨synced, shape, silent⟩ := mem_send_cacheonly_shape access ramAddr thread
  rw [shape, justified_append, justified_cons]
  refine ⟨?_, ?_, ?_⟩
  · apply justified_unneeded
    exact fun call member front =>
      silent_announced part _ call (translations_silent access ramAddr thread call member)
  · intro record recorded
    rw [access_record] at recorded
    obtain rfl := Option.some.inj recorded
    rw [List.append_nil]
    exact announced
  · apply justified_unneeded
    exact fun call member front => silent_announced part _ call (silent call member)

theorem address_translated (access : Access) (ramAddr : UInt64) (thread : ThreadData)
    (past : List Call) : Translated (past ++ translations access ramAddr thread) access.vaddr := by
  apply (translated_append past _ access.vaddr).mpr
  exact .inr ⟨access.paddr, List.mem_cons_self⟩

theorem pc_translated (access : Access) (ramAddr : UInt64) (thread : ThreadData) (past : List Call)
    (known : thread.icountCacheonlyPending ≠ 0 ∨ Translated past thread.pc) :
    Translated (past ++ translations access ramAddr thread) thread.pc := by
  apply (translated_append past _ thread.pc).mpr
  obtain pending | before := known
  · refine .inr ⟨ramAddr, ?_⟩
    rw [translations, if_pos pending]
    exact List.mem_cons_of_mem _ (List.mem_singleton_self _)
  · exact .inl before

theorem mem_silent (globals : Globals) (cpu : Cpu) (userdata : UInt64) (access : Access)
    (thread : ThreadData) (callback : MemCallback) (other : callback ≠ .sendCacheonly) :
    ∀ call ∈ (memEffect globals cpu userdata access thread callback).2,
      accessRecord call = none := by
  intro call member
  have may := List.all_eq_true.mp
    (mem_may_call globals cpu userdata access thread callback) call member
  cases call with
  | cacheOnly icount type pc address => cases callback <;> contradiction
  | _ => rfl

def sends : Invocation → Bool
  | .mem .sendCacheonly _ _ _ => true
  | _ => false

theorem effect_silent (globals : Globals) (thread : ThreadData) (invocation : Invocation)
    (result : Effect) (other : sends invocation = false)
    (done : effect globals thread invocation = .ok result) :
    ∀ call ∈ result.2, accessRecord call = none := by
  cases invocation with
  | exec callback userdata cpu => exact exec_silent globals cpu userdata thread callback result done
  | mem callback userdata cpu access =>
      have unsent : callback ≠ .sendCacheonly := by
        rintro rfl
        contradiction
      obtain rfl := Except.ok.inj done
      exact mem_silent globals cpu userdata access thread callback unsent

theorem execs_unsent (hooks : List (ExecCallback × UInt64)) (cpu : Cpu) :
    ∀ invocation ∈ execInvocations hooks cpu, sends invocation = false := by
  intro invocation member
  obtain ⟨hook, -, rfl⟩ := List.mem_map.mp member
  rfl

theorem unsent_silent (globals : Globals) (invocations : List Invocation) (vcpu final : Vcpu)
    (calls : List Call) (others : ∀ invocation ∈ invocations, sends invocation = false)
    (done : run (invoke globals) vcpu invocations = .ok (final, calls)) :
    ∀ call ∈ calls, accessRecord call = none := by
  induction invocations generalizing vcpu calls with
  | nil =>
      cases done
      exact fun call absent => absurd absent List.not_mem_nil
  | cons invocation rest ih =>
      obtain ⟨next, early, late, first, tail, rfl⟩ := (run_cons_iff _ _ _ _ _ _).mp done
      have effected := invoke_effect globals vcpu next invocation early first
      have here := effect_silent globals vcpu.data invocation _
        (others invocation List.mem_cons_self) effected
      have there := ih next late
        (fun later member => others later (List.mem_cons_of_mem invocation member)) tail
      exact List.forall_mem_append.mpr ⟨here, there⟩

/-! The address of every record. -/

theorem effect_addresses (globals : Globals) (thread : ThreadData) (invocation : Invocation)
    (result : Effect) (done : effect globals thread invocation = .ok result) :
    Justified (Announced AccessRecord.address) result.2 := by
  cases sent : sends invocation with
  | true =>
      unfold sends at sent
      split at sent
      · rename_i ramAddr cpu access
        obtain rfl := Except.ok.inj done
        exact mem_send_justified AccessRecord.address access ramAddr thread []
          (address_translated access ramAddr thread [])
      · contradiction
  | false =>
      exact silent_justified _ _ (effect_silent globals thread invocation result sent done)

theorem between_silent (entry : Entry) (happened : Between) :
    ∀ call ∈ (between entry happened).2, accessRecord call = none := by
  have quiet : (between entry happened).2.all (fun call => (accessRecord call).isNone) = true := by
    cases happened with
    | notice notice => cases notice <;> rfl
    | closed =>
        dsimp only [between, Entry.update, closeFile]
        split <;> rfl
    | idle =>
        dsimp only [between, Entry.update, vcpuIdleCb]
        split_ifs <;> rfl
    | resume =>
        dsimp only [between, Entry.update, vcpuResumeCb]
        split <;> rfl
    | interrupt | interruptRet =>
        dsimp only [between, Entry.update, vcpuInterruptCb, vcpuInterruptRetCb]
        split <;> rfl
    | start _ _ | mode _ | roi _ | magic _ | reset => rfl
  intro call member
  exact Option.isNone_iff_eq_none.mp (List.all_eq_true.mp quiet call member)

/-- Whatever happens, in any order, an address is translated before it is recorded. -/
theorem run_addresses (events : List Timeline.Event) (entry final : Entry) (calls : List Call)
    (done : run Timeline.step entry events = .ok (final, calls)) :
    Justified (Announced AccessRecord.address) calls := by
  apply along_relates Timeline.step (fun _ _ => True)
    (fun _ calls _ => Justified (Announced AccessRecord.address) calls) _ _ _ entry final events
    calls (along_all Timeline.step (fun _ => True) entry events fun _ _ => trivial) done
  · exact fun _ => justified_nil _
  · exact fun _ _ _ early late first second =>
      justified_join _ (announced_lasting _) early late first second
  · intro entry event next emitted _ taken
    cases event with
    | invoke invocation =>
        obtain ⟨effected, -⟩ := step_invoke entry next invocation emitted taken
        exact effect_addresses entry.globals entry.vcpu.data invocation _ effected
    | between happened =>
        obtain ⟨-, rfl⟩ := step_between entry next happened emitted taken
        exact silent_justified _ _ (between_silent entry happened)

/-! The program counter of a record of an instrumented instruction. -/

/-- Counting an instruction does not take the pending count over its end. -/
def Room (vcpu : Vcpu) (invocation : Invocation) : Prop :=
  startsInsn invocation = true → vcpu.data.icountCacheonlyPending + 1 ≠ 0

instance (vcpu : Vcpu) (invocation : Invocation) : Decidable (Room vcpu invocation) :=
  inferInstanceAs (Decidable (startsInsn invocation = true →
    vcpu.data.icountCacheonlyPending + 1 ≠ 0))

/-- One access: the program counter is stored, then the record is sent. -/
theorem access_justified (globals : Globals) (vaddr ramAddr : UInt64) (access : Cpu × Access)
    (vcpu next : Vcpu) (past calls : List Call)
    (known : vcpu.data.icountCacheonlyPending ≠ 0 ∨ Translated past vaddr)
    (done : run (invoke globals) vcpu
      (accessInvocations [(.updatePc, vaddr), (.sendCacheonly, ramAddr)] access) =
        .ok (next, calls)) :
    Justified (fun later => Announced AccessRecord.pc (past ++ later)) calls ∧
      (next.data.icountCacheonlyPending ≠ 0 ∨ Translated (past ++ calls) vaddr) := by
  let updated := (memUpdatePc vaddr vcpu.data).1
  have reached : run (invoke globals) vcpu
      (accessInvocations [(.updatePc, vaddr), (.sendCacheonly, ramAddr)] access) =
        .ok (⟨(memSendCacheonly access.2 ramAddr updated).1, vcpu.blockCnt⟩,
          (memSendCacheonly access.2 ramAddr updated).2) := by
    simp [run, accessInvocations, invoke, effect, memEffect, countBlock, Except.map, updated,
      memUpdatePc]
  obtain ⟨-, rfl⟩ := Prod.mk.inj (Except.ok.inj (reached.symm.trans done))
  have translated := pc_translated access.2 ramAddr updated past known
  refine ⟨mem_send_justified AccessRecord.pc access.2 ramAddr updated past translated, .inr ?_⟩
  obtain ⟨synced, shape, -⟩ := mem_send_cacheonly_shape access.2 ramAddr updated
  rw [shape, ← List.append_assoc]
  exact (translated_append _ _ vaddr).mpr (.inl translated)

theorem accesses_justified (globals : Globals) (vaddr ramAddr : UInt64)
    (accesses : List (Cpu × Access)) (vcpu final : Vcpu) (calls : List Call)
    (pending : vcpu.data.icountCacheonlyPending ≠ 0)
    (done : run (invoke globals) vcpu (accesses.flatMap
      (accessInvocations [(.updatePc, vaddr), (.sendCacheonly, ramAddr)])) = .ok (final, calls)) :
    Justified (Announced AccessRecord.pc) calls := by
  have stepped := (run_expand _ _ _ _ _ _).mp done
  exact run_justified (Announced AccessRecord.pc) _
    (fun reached past => reached.data.icountCacheonlyPending ≠ 0 ∨ Translated past vaddr)
    (fun reached past access next emitted known taken =>
      access_justified globals vaddr ramAddr access reached next past emitted known taken)
    vcpu final [] accesses calls (.inl pending) stepped

theorem insn_justified (globals : Globals) (tb : Tb) (index : Nat) (insn : Insn)
    (started : Started) (fetched : tb.insns[index]? = some insn) (vcpu final : Vcpu)
    (calls : List Call)
    (room : Along (invoke globals) Room vcpu (insnInvocations .memory tb index started))
    (done : run (invoke globals) vcpu (insnInvocations .memory tb index started) =
      .ok (final, calls)) : Justified (Announced AccessRecord.pc) calls := by
  rw [insnInvocations, insn_hooks_memory tb index insn fetched,
    mem_hooks_memory tb index insn fetched] at room done
  obtain ⟨begun, early, late, before, after, rfl⟩ := (run_append_iff _ _ _ _ _ _).mp done
  have silent := unsent_silent globals _ vcpu begun early (execs_unsent _ started.cpu) before
  -- The counter runs first, and the branch callbacks leave the count alone.
  have counted : begun.data.icountCacheonlyPending = vcpu.data.icountCacheonlyPending + 1 := by
    split at before
    · cases before
      rfl
    · cases before
      rfl
  have pending : begun.data.icountCacheonlyPending ≠ 0 := by
    rw [counted]
    exact room.1 rfl
  apply justified_join _ (announced_lasting _)
  · exact silent_justified _ early silent
  · exact accesses_justified globals insn.vaddr insn.ramAddr started.accesses begun final late
      pending after

theorem other_modes_unsent (mode : Mode) (block : BlockRun) (other : mode ≠ .memory) :
    ∀ invocation ∈ block.invocations mode, sends invocation = false := by
  intro invocation member
  obtain entered | inside := List.mem_append.mp member
  · exact execs_unsent _ _ invocation entered
  · obtain ⟨⟨started, index⟩, begun, member⟩ := List.mem_flatMap.mp inside
    obtain ⟨insn, fetched⟩ := started_fetched block _ begun
    obtain exec | access := List.mem_append.mp member
    · exact execs_unsent _ _ invocation exec
    · obtain ⟨_, -, hooked⟩ := List.mem_flatMap.mp access
      obtain ⟨hook, registered, rfl⟩ := List.mem_map.mp hooked
      cases mode with
      | memory => exact absurd rfl other
      | detailed =>
          rw [mem_hooks_detailed block.tb index insn fetched] at registered
          rw [List.mem_singleton.mp registered]
          rfl
      | icount | unknown | stop => exact absurd registered List.not_mem_nil

theorem body_justified (globals : Globals) (block : BlockRun) (vcpu final : Vcpu)
    (calls : List Call) (room : Along (invoke globals) Room vcpu (block.body .memory))
    (done : run (invoke globals) vcpu (block.body .memory) = .ok (final, calls)) :
    Justified (Announced AccessRecord.pc) calls := by
  apply along_groups_closed (invoke globals) Room
    (fun entry : Started × Nat => insnInvocations .memory block.tb entry.2 entry.1)
    (Justified (Announced AccessRecord.pc)) (justified_nil _)
    (justified_join _ (announced_lasting _)) block.started.zipIdx _ vcpu final calls room done
  rintro ⟨started, index⟩ begun reached next emitted here taken
  obtain ⟨insn, fetched⟩ := started_fetched block _ begun
  exact insn_justified globals block.tb index insn started fetched reached next emitted here taken

theorem block_justified (globals : Globals) (mode : Mode) (block : BlockRun) (vcpu final : Vcpu)
    (calls : List Call) (room : Along (invoke globals) Room vcpu (block.invocations mode))
    (done : run (invoke globals) vcpu (block.invocations mode) = .ok (final, calls)) :
    Justified (Announced AccessRecord.pc) calls := by
  by_cases instrumented : mode = .memory
  · obtain rfl := instrumented
    obtain ⟨entered, early, late, before, after, rfl⟩ := (run_append_iff _ _ _ _ _ _).mp done
    have silent := unsent_silent globals _ vcpu entered early (execs_unsent _ block.cpu) before
    obtain ⟨-, inside⟩ := (along_append _ _ _ _ _ _ _ before).mp room
    apply justified_join _ (announced_lasting _)
    · exact silent_justified _ early silent
    · exact body_justified globals block entered final late inside after
  · have silent := unsent_silent globals _ vcpu final calls
      (other_modes_unsent mode block instrumented) done
    exact silent_justified _ calls silent

/-! Whole runs, blocks in one piece. -/

def Roomy (entry : Entry) : Moment → Prop
  | .block mode block => Along (invoke entry.globals) Room entry.vcpu (block.invocations mode)
  | .between _ => True

theorem run_pcs (moments : List Moment) (entry final : Entry) (calls : List Call)
    (roomy : Along stride Roomy entry moments)
    (done : run stride entry moments = .ok (final, calls)) :
    Justified (Announced AccessRecord.pc) calls := by
  apply along_relates stride Roomy
    (fun _ calls _ => Justified (Announced AccessRecord.pc) calls) _ _ _ entry final moments
    calls roomy done
  · exact fun _ => justified_nil _
  · exact fun _ _ _ early late first second =>
      justified_join _ (announced_lasting _) early late first second
  · intro entry moment next emitted room taken
    cases moment with
    | between happened =>
        rw [stride_between] at taken
        have silent := between_silent entry happened
        rw [show between entry happened = _ from Except.ok.inj taken] at silent
        exact silent_justified _ emitted silent
    | block mode block =>
        obtain ⟨ran, -⟩ := stride_block entry next mode block emitted taken
        exact block_justified entry.globals mode block entry.vcpu next.vcpu emitted room ran

/-- From any state, and so from any start on, the address of a cache-only memory record is
translated before the record, and its program counter is, as long as no instruction takes
the pending count over its 64 bits. -/
theorem records_announced (moments : List Moment) (entry final : Entry) (calls : List Call)
    (done : run stride entry moments = .ok (final, calls)) :
    Justified (Announced AccessRecord.address) calls ∧
      (Along stride Roomy entry moments → Justified (Announced AccessRecord.pc) calls) := by
  have events := (run_moments entry final moments calls).mpr done
  exact ⟨run_addresses _ entry final calls events,
    fun roomy => run_pcs moments entry final calls roomy done⟩

instance (entry : Entry) : ∀ moment, Decidable (Roomy entry moment)
  | .block mode block => inferInstanceAs
      (Decidable (Along (invoke entry.globals) Room entry.vcpu (block.invocations mode)))
  | .between _ => inferInstanceAs (Decidable True)

def accessBlock (accesses : List Access) : BlockRun :=
  { straightBlock 0x2000 0xa000 0 with
    started := [⟨⟨false, 0⟩, accesses.map fun access => (⟨false, 0⟩, access)⟩]
    bounded := (straightBlock 0x2000 0xa000 0).bounded }

def instrumenting : List Moment := [.between (.start 0 0), .between (.mode .memory)]

def copied : List Moment :=
  instrumenting ++ [.block .memory (accessBlock [⟨0x5000, 0xb000, false⟩, ⟨0x6000, 0xc000, true⟩])]

theorem copied_announced :
    ∃ final calls, run stride fresh copied = .ok (final, calls) ∧
      Justified (Announced AccessRecord.address) calls ∧
      Justified (Announced AccessRecord.pc) calls := by
  obtain ⟨final, calls, done⟩ : ∃ final calls, run stride fresh copied = .ok (final, calls) :=
    ⟨_, _, rfl⟩
  obtain ⟨addresses, pcs⟩ := records_announced copied fresh final calls done
  exact ⟨final, calls, done, addresses, pcs (by decide)⟩

structure Counted (count : Nat) (entry : Entry) : Prop where
  pending : entry.vcpu.data.icountCacheonlyPending = UInt64.ofNat count
  noBranch : entry.vcpu.data.brAddr = 0
  reported : entry.vcpu.data.icountReported = 0

def straight : Moment := .block .memory (straightBlock 0x1000 0x9000 0)

theorem straight_counted (count : Nat) (entry : Entry) (counted : Counted count entry) :
    ∃ next, stride entry straight = .ok (next, []) ∧ Counted (count + 1) next := by
  obtain ⟨pending, noBranch, reported⟩ := counted
  have silent : tbExecBranchCacheonly 0x9000 (tbExecUpdateTarget 0x1000 entry.vcpu.data).1 =
      .ok ((tbExecUpdateTarget 0x1000 entry.vcpu.data).1, []) :=
    branch_cacheonly_silent 0x9000 _ noBranch
  have invocations : (straightBlock 0x1000 0x9000 0).invocations .memory =
      [.exec .hotBlocks 0x1000 ⟨false, 0⟩, .exec .updateTarget 0x1000 ⟨false, 0⟩,
        .exec .branchCacheonly 0x9000 ⟨false, 0⟩, .exec .countInsn 0 ⟨false, 0⟩] := rfl
  refine ⟨⟨entry.globals, ⟨(insnExecCountInsn (tbExecUpdateTarget 0x1000 entry.vcpu.data).1).1,
    tbExecHotBlocks entry.globals ⟨false, 0⟩ 0x1000 entry.vcpu.blockCnt⟩⟩, ?_, ?_, noBranch, reported⟩
  · rw [stride, straight, Moment.events, run_invoke, invocations]
    simp only [run, invoke, effect, execEffect, Except.map, countBlock, silent]
    rfl
  · rw [UInt64.ofNat_add, ← pending]
    rfl

theorem straights_counted (times count : Nat) (entry : Entry) (counted : Counted count entry) :
    ∃ final, run stride entry (List.replicate times straight) = .ok (final, []) ∧
      Counted (count + times) final := by
  induction times generalizing count entry with
  | zero => exact ⟨entry, rfl, counted⟩
  | succ times ih =>
      obtain ⟨next, taken, following⟩ := straight_counted count entry counted
      obtain ⟨final, ran, reached⟩ := ih (count + 1) next following
      refine ⟨final, run_cons_ok _ _ _ _ _ _ _ _ taken ran, ?_⟩
      rw [Nat.add_assoc, Nat.add_comm 1] at reached
      exact reached

theorem mem_send_unreported (access : Access) (ramAddr : UInt64) (thread : ThreadData)
    (none_ : thread.icountCacheonlyPending = 0) (reported : thread.icountReported = 0) :
    memSendCacheonly access ramAddr thread =
      (thread, [.translate access.vaddr access.paddr,
        .cacheOnly 0 (if access.isStore then .memWrite else .memRead) thread.pc access.vaddr]) := by
  have quota : ¬ flowControlFF < thread.icountReported := by
    rw [reported]
    decide
  have quiet : syncReported thread = (thread, []) := if_neg quota
  simp only [memSendCacheonly, none_, ne_eq, not_true_eq_false, if_false, quiet]
  rfl

/-- The instruction that takes the count over its end reports nothing. -/
theorem access_unreported (entry : Entry) (counted : Counted (2 ^ 64 - 1) entry) :
    ∃ next, stride entry (.block .memory (accessBlock [⟨0x5000, 0xb000, false⟩])) =
      .ok (next, [.translate 0x5000 0xb000, .cacheOnly 0 .memRead 0x2000 0x5000]) := by
  obtain ⟨pending, noBranch, reported⟩ := counted
  have silent : tbExecBranchCacheonly 0xa000 (tbExecUpdateTarget 0x2000 entry.vcpu.data).1 =
      .ok ((tbExecUpdateTarget 0x2000 entry.vcpu.data).1, []) :=
    branch_cacheonly_silent 0xa000 _ noBranch
  have invocations : (accessBlock [⟨0x5000, 0xb000, false⟩]).invocations .memory =
      [.exec .hotBlocks 0x2000 ⟨false, 0⟩, .exec .updateTarget 0x2000 ⟨false, 0⟩,
        .exec .branchCacheonly 0xa000 ⟨false, 0⟩, .exec .countInsn 0 ⟨false, 0⟩,
        .mem .updatePc 0x2000 ⟨false, 0⟩ ⟨0x5000, 0xb000, false⟩,
        .mem .sendCacheonly 0xa000 ⟨false, 0⟩ ⟨0x5000, 0xb000, false⟩] := rfl
  let updated := (memUpdatePc 0x2000
    (insnExecCountInsn (tbExecUpdateTarget 0x2000 entry.vcpu.data).1).1).1
  have wrapped : updated.icountCacheonlyPending = 0 := by
    show entry.vcpu.data.icountCacheonlyPending + 1 = 0
    rw [pending]
    rfl
  have sent := mem_send_unreported ⟨0x5000, 0xb000, false⟩ 0xa000 updated wrapped reported
  refine ⟨⟨entry.globals, ⟨updated,
    tbExecHotBlocks entry.globals ⟨false, 0⟩ 0x2000 entry.vcpu.blockCnt⟩⟩, ?_⟩
  rw [stride, Moment.events, run_invoke, invocations]
  simp only [run, invoke, effect, execEffect, memEffect, Except.map, countBlock, silent]
  rw [show memSendCacheonly ⟨0x5000, 0xb000, false⟩ 0xa000 _ = _ from sent]
  rfl

/-- After 2 to the 64 less one instructions that record nothing, the next one records an
access with a program counter that was never translated. -/
theorem pc_unannounced :
    ∃ final calls, run stride fresh (instrumenting ++ List.replicate (2 ^ 64 - 1) straight ++
        [.block .memory (accessBlock [⟨0x5000, 0xb000, false⟩])]) = .ok (final, calls) ∧
      ¬ Justified (Announced AccessRecord.pc) calls := by
  obtain ⟨entry, done, counted⟩ : ∃ entry, run stride fresh instrumenting = .ok (entry, [.isOpen]) ∧
      Counted 0 entry := ⟨_, rfl, rfl, rfl, rfl⟩
  obtain ⟨middle, ran, reached⟩ := straights_counted (2 ^ 64 - 1) 0 entry counted
  rw [Nat.zero_add] at reached
  obtain ⟨final, taken⟩ := access_unreported middle reached
  have whole := run_append_ok _ _ _ _ _ _ _ _ (run_append_ok _ _ _ _ _ _ _ _ done ran)
    ((run_singleton _ _ _).trans taken)
  refine ⟨final, _, whole, fun justified => ?_⟩
  obtain ⟨paddr, member⟩ := justified [.isOpen, .translate 0x5000 0xb000]
    (.cacheOnly 0 .memRead 0x2000 0x5000) [] rfl ⟨0x2000, 0x5000⟩ rfl
  simp at member

end Hypersh.Announcements
