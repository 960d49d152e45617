import Mathlib.Data.Set.Card
import Hypersh.Transduction
import Hypersh.Callbacks
import Hypersh.Blocks
import Hypersh.Timeline
import Hypersh.Control
import Hypersh.System
import Hypersh.Tallies
import Hypersh.Statistics
import Hypersh.Ranking

/-!
The hot blocks a stop prints, against the executions of every block since the last
start. The counters have 64 bits; among equal counts the table may choose.
-/
namespace Hypersh.HotBlocks
open Callbacks Blocks Control Tallies Statistics Ranking Transduction
variable {n : Nat}

/-! What is to be counted. -/

def executes : Invocation → Option (UInt64 × Cpu)
  | .exec .hotBlocks vaddr cpu => some (vaddr, cpu)
  | _ => none

def hot (hook : ExecCallback × UInt64) : Bool := hook.1 == .hotBlocks

theorem exec_executes (hooks : List (ExecCallback × UInt64)) (cpu : Cpu) :
    (execInvocations hooks cpu).filterMap executes =
      (hooks.filter hot).map fun hook => (hook.2, cpu) := by
  induction hooks with
  | nil => rfl
  | cons hook rest ih =>
      obtain ⟨callback, userdata⟩ := hook
      have here : (execInvocations ((callback, userdata) :: rest) cpu).filterMap executes =
          (executes (.exec callback userdata cpu)).toList ++
            (execInvocations rest cpu).filterMap executes := by
        cases callback <;> rfl
      rw [here, ih]
      cases callback <;> rfl

theorem entry_hooks_hot (mode : Mode) (tb : Tb) :
    (entryHooks mode tb).filter hot = [(.hotBlocks, tb.vaddr)] := by
  cases mode with
  | icount | unknown | stop => rfl
  | memory =>
      rw [entry_hooks_memory]
      cases tb.isBranch <;> rfl
  | detailed =>
      rw [entry_hooks_detailed, page2Hooks]
      cases tb.isBranch <;> cases tb.page2 <;> rfl

theorem insn_hooks_cold (mode : Mode) (tb : Tb) (index : Nat) (insn : Insn)
    (present : tb.insns[index]? = some insn) : (insnHooks mode tb index).filter hot = [] := by
  cases mode with
  | icount | unknown | stop => rfl
  | memory =>
      rw [insn_hooks_memory tb index insn present]
      split <;> rfl
  | detailed =>
      rw [insn_hooks_detailed tb index insn present]
      split <;> split <;> split <;> rfl

theorem block_executes_once (mode : Mode) (block : BlockRun) :
    (block.invocations mode).filterMap executes = [(block.tb.vaddr, block.cpu)] := by
  have body : (block.body mode).filterMap executes = [] := by
    rw [BlockRun.body, List.filterMap_flatMap, List.flatMap_eq_nil_iff]
    rintro ⟨started, index⟩ begun
    obtain ⟨insn, present⟩ := started_fetched block _ begun
    have accesses : (started.accesses.flatMap
        (accessInvocations (memHooks mode block.tb index))).filterMap executes = [] := by
      rw [List.filterMap_flatMap, List.flatMap_eq_nil_iff]
      intro access _
      rw [accessInvocations, List.filterMap_map, List.filterMap_eq_nil_iff]
      exact fun hook _ => rfl
    rw [insnInvocations, List.filterMap_append, exec_executes,
      insn_hooks_cold mode block.tb index insn present, accesses]
    rfl
  rw [BlockRun.invocations, List.filterMap_append, body, BlockRun.entry, exec_executes,
    entry_hooks_hot]
  rfl

def executed (globals : Globals) (executions : UInt64 → Nat) (invocation : Invocation) :
    UInt64 → Nat :=
  match executes invocation with
  | some (vaddr, cpu) =>
      if cpu.pageDirectory = globals.roiCr3 then
        fun block => executions block + if vaddr = block then 1 else 0
      else executions
  | none => executions

/-- The executions of the vcpu's blocks along a run, since the last start. -/
def note (vcpu : Fin n) (trace : Trace n) (event : System.Event n) (_ : List (Action n))
    (executions : UInt64 → Nat) : UInt64 → Nat :=
  match event with
  | .invoke owner invocation =>
      if owner = vcpu then executed trace.globals executions invocation else executions
  | event => if event.begins trace then fun _ => 0 else executions

/-! What is counted. -/

theorem invoke_counts (globals : Globals) (blocks : BlockCount) (executions : UInt64 → Nat)
    (invocation : Invocation) (counts : Counts blocks executions) :
    Counts (countBlock globals blocks invocation) (executed globals executions invocation) := by
  cases invocation with
  | mem callback userdata cpu access => exact counts
  | exec callback userdata cpu =>
      cases callback with
      | hotBlocks =>
          simp only [countBlock, tbExecHotBlocks, executed, executes]
          split
          · exact bump_counts userdata blocks executions counts
          · exact counts
      | _ => exact counts

theorem settled_blocks (events : List Timeline.Event) (entry final : Timeline.Entry)
    (calls : List Call) (still : ∀ event ∈ events, System.settled event = true)
    (done : run Timeline.step entry events = .ok (final, calls)) :
    final.vcpu.blockCnt = entry.vcpu.blockCnt := by
  apply along_invariant Timeline.step (fun _ event => System.settled event = true)
    (fun reached => reached.vcpu.blockCnt = entry.vcpu.blockCnt) _ entry final events calls
    (along_all Timeline.step _ entry events still) rfl done
  intro reached event next emitted same here taken
  cases event with
  | invoke invocation => contradiction
  | between happened =>
      obtain ⟨rfl, -⟩ := Timeline.step_between reached next happened emitted taken
      rw [← same]
      cases happened <;> first | rfl | contradiction

theorem step_counts (vcpu : Fin n) (trace next : Trace n) (event : System.Event n)
    (actions : List (Action n)) (executions : UInt64 → Nat)
    (counts : Counts (trace.threads vcpu).blockCnt executions)
    (taken : System.step trace event = .ok (next, actions)) :
    Counts (next.threads vcpu).blockCnt (note vcpu trace event actions executions) := by
  obtain ⟨invocation, rfl, ran⟩ | ⟨going, threadid, writer, ran⟩ | ⟨going, others, events, still, ran⟩ :=
    System.step_cases vcpu trace next event actions taken
  · obtain ⟨⟨entry, calls⟩, invoked, same⟩ := map_ok _ _ _ ran
    obtain ⟨effect, -, reached⟩ := map_ok _ _ _ invoked
    obtain ⟨rfl, rfl⟩ := Prod.mk.inj reached
    have blocks := congrArg (fun result => result.1.vcpu.blockCnt) same
    rw [show (next.threads vcpu).blockCnt = _ from blocks.symm, note, if_pos rfl]
    exact invoke_counts trace.globals _ executions invocation counts
  · obtain ⟨begun, -⟩ := Timeline.step_between _ _ _ _ ran
    have blocks := congrArg (fun entry => entry.vcpu.blockCnt) begun
    have noted : note vcpu trace event actions executions = fun _ => 0 := by
      cases event with
      | invoke owner invocation => contradiction
      | _ => exact if_pos going
    rw [show (next.threads vcpu).blockCnt = [] from blocks, noted]
    exact nothing_counts
  · have noted : note vcpu trace event actions executions = executions := by
      cases event with
      | invoke owner invocation =>
          have apart : owner ≠ vcpu := fun same => others invocation (same ▸ rfl)
          exact if_neg apart
      | control happened =>
          refine if_neg ?_
          rw [going]
          exact Bool.false_ne_true
      | _ => rfl
    rw [show (next.threads vcpu).blockCnt = _ from settled_blocks events _ _ _ still ran, noted]
    exact counts

theorem run_counts (vcpu : Fin n) (events : List (System.Event n)) (trace : Trace n)
    (executions : UInt64 → Nat) (actions : List (Action n))
    (done : run (watch System.step (note vcpu)) (install n, fun _ => 0) events =
      .ok ((trace, executions), actions)) : Counts (trace.threads vcpu).blockCnt executions := by
  refine run_invariant _ (fun watched => Counts (watched.1.threads vcpu).blockCnt watched.2)
    (fun before event after emitted counts taken => ?_) _ _ events actions nothing_counts done
  obtain ⟨stepped, noted⟩ := (watch_iff _ _ _ _ _ _).mp taken
  rw [noted]
  exact step_counts vcpu before.1 after.1 event emitted before.2 counts stepped

/-! What is printed. -/

/-- Ten of the executed blocks or all of them, the most executed ones, each with its
count. -/
structure TopTen (executions count : UInt64 → Nat) (rows : BlockCount) : Prop where
  length : rows.length = min 10 (Set.ncard {block | 0 < executions block})
  distinct : (rows.map Prod.fst).Nodup
  executed : ∀ row ∈ rows, 0 < executions row.1
  falling : rows.Pairwise higher
  counted : ∀ row ∈ rows, row.2.toNat = count row.1
  others : ∀ block, 0 < executions block → block ∉ rows.map Prod.fst →
    ∀ row ∈ rows, count block ≤ count row.1

theorem known_blocks (blocks : BlockCount) (executions : UInt64 → Nat)
    (counts : Counts blocks executions) :
    {block | 0 < executions block} = {block | block ∈ blocks.map Prod.fst} := by
  ext block
  exact (counts.known block).symm

theorem best_top_ten (blocks best : BlockCount) (executions : UInt64 → Nat)
    (counts : Counts blocks executions) (top : Best higher 10 blocks best) :
    TopTen executions (fun block => executions block % UInt64.size) best where
  length := by
    rw [top.length, known_blocks blocks executions counts,
      keys_card Prod.fst blocks counts.distinct]
  distinct := subperm_distinct Prod.fst blocks best top.chosen counts.distinct
  executed := by
    intro row printed
    have member := top.chosen.subset printed
    exact (counts.known row.1).mp (List.mem_map_of_mem member)
  falling := top.falling
  counted := fun row printed =>
    row_counted blocks executions counts row (top.chosen.subset printed)
  others := by
    intro block some_ absent row printed
    obtain ⟨left, member, rfl⟩ := List.mem_map.mp ((counts.known block).mpr some_)
    have unprinted : left ∉ best := fun also => absent (List.mem_map_of_mem also)
    have below : left.2 ≤ row.2 := top.others left member unprinted row printed
    have chosen := top.chosen.subset printed
    rw [← row_counted blocks executions counts left member,
      ← row_counted blocks executions counts row chosen]
    exact UInt64.le_iff_toNat_le.mp below

theorem table_best (blocks rows : BlockCount) (table : Table blocks rows) :
    Best higher 10 blocks rows := by
  obtain ⟨sorted, arranged, rfl⟩ := table
  exact take_best higher 10 blocks sorted arranged

theorem true_top_ten_iff (blocks best : BlockCount) (executions : UInt64 → Nat)
    (counts : Counts blocks executions) (top : Best higher 10 blocks best) :
    TopTen executions executions best ↔ ∀ block, executions block < UInt64.size := by
  have report := best_top_ten blocks best executions counts top
  constructor
  · intro exact_ block
    by_cases some_ : 0 < executions block
    · have member := (counts.known block).mpr some_
      by_cases printed : block ∈ best.map Prod.fst
      · obtain ⟨row, taken, rfl⟩ := List.mem_map.mp printed
        rw [← exact_.counted row taken]
        exact row.2.toNat_lt
      · -- Some block is printed, and its true count is a number of 64 bits.
        have several := List.length_pos_of_mem member
        rw [List.length_map] at several
        have length := top.length
        obtain ⟨row, first⟩ := List.exists_mem_of_length_pos (l := best) (by omega)
        have below := exact_.others block some_ printed row first
        rw [← exact_.counted row first] at below
        exact Nat.lt_of_le_of_lt below row.2.toNat_lt
    · rw [Nat.eq_zero_of_not_pos some_]
      decide
  · intro fits
    have same : (fun block => executions block % UInt64.size) = executions :=
      funext fun block => Nat.mod_eq_of_lt (fits block)
    rw [same] at report
    exact report

/-- In any run, a stop prints for the first vcpu the ten most executed of the blocks
executed since the start, counted modulo 2 to the 64, and the true ones when none was
executed that often, in whatever order equal counts stand. Under any instrumentation an
execution reports itself once. -/
theorem hot_blocks_top_ten (vcpu : Fin n) (events : List (System.Event n)) (trace : Trace n)
    (executions : UInt64 → Nat) (past : List (Action n))
    (done : run (watch System.step (note vcpu)) (install n, fun _ => 0) events =
      .ok ((trace, executions), past)) (first : vcpu.val = 0) (index : Nat) (next : Trace n)
    (actions : List (Action n)) (queued : trace.pending[index]? = some .stop)
    (stopped : System.step trace (.control (.deferred index)) = .ok (next, actions)) :
    ∃ blocks, (∀ map, .hotBlocks vcpu map ∈ actions ↔ map = blocks) ∧
      (∃ rows, Table blocks rows) ∧
      (∀ rows, Table blocks rows →
        TopTen executions (fun block => executions block % UInt64.size) rows ∧
        (TopTen executions executions rows ↔ ∀ block, executions block < UInt64.size)) ∧
      ∀ mode (block : BlockRun),
        (block.invocations mode).filterMap executes = [(block.tb.vaddr, block.cpu)] := by
  have counts := run_counts vcpu events trace executions past done
  have closed : stopCallback (trace.dequeue index) = (next, actions) :=
    Except.ok.inj ((stop_step trace index queued).symm.trans stopped)
  have maps := stop_map_iff (trace.dequeue index) vcpu
  rw [closed] at maps
  obtain ⟨sorted, arranged⟩ := sort_map_exists (trace.threads vcpu).blockCnt
  refine ⟨(trace.threads vcpu).blockCnt, fun map => ?_, ⟨_, sorted, arranged, rfl⟩,
    fun rows table => ?_, block_executes_once⟩
  · rw [maps]
    exact ⟨fun printed => printed.2, fun same => ⟨first, same⟩⟩
  · have best := table_best _ rows table
    exact ⟨best_top_ten _ rows executions counts best,
      true_top_ten_iff _ rows executions counts best⟩

theorem hot_block_top :
    ∃ trace executions past next actions blocks,
      run (watch System.step (note vcpu₀)) (install 1, fun _ => 0)
        (entry ++ [hotBlock, order .stop]) = .ok ((trace, executions), past) ∧
      System.step trace (.control (.deferred 0)) = .ok (next, actions) ∧
      (∀ map, .hotBlocks vcpu₀ map ∈ actions ↔ map = blocks) ∧
      ∀ rows, Table blocks rows →
        TopTen executions (fun block => executions block % UInt64.size) rows := by
  obtain ⟨trace, executions, past, next, actions, ran, queued, taken⟩ :
      ∃ trace executions past next actions,
        run (watch System.step (note vcpu₀)) (install 1, fun _ => 0)
          (entry ++ [hotBlock, order .stop]) = .ok ((trace, executions), past) ∧
        trace.pending[0]? = some .stop ∧
        System.step trace (.control (.deferred 0)) = .ok (next, actions) :=
    ⟨_, _, _, _, _, rfl, rfl, rfl⟩
  obtain ⟨blocks, printed, -, top, -⟩ := hot_blocks_top_ten vcpu₀ _ trace executions past ran rfl 0
    next actions queued taken
  exact ⟨trace, executions, past, next, actions, blocks, ran, taken, printed,
    fun rows table => (top rows table).1⟩

theorem hot_block_again (trace : Trace 1) (executions : UInt64 → Nat)
    (inside : trace.globals.roiCr3 = 0x3000) :
    ∃ next, watch System.step (note vcpu₀) (trace, executions) hotBlock =
        .ok ((next, fun block => executions block + if 0x1000 = block then 1 else 0), []) ∧
      next.globals = trace.globals ∧ next.pending = trace.pending := by
  have delivered : System.deliver vcpu₀ [] trace = .ok [] := by
    unfold System.deliver
    cases trace.output vcpu₀ <;> rfl
  have counted : note vcpu₀ trace hotBlock [] executions =
      fun block => executions block + if 0x1000 = block then 1 else 0 := by
    simp only [note, hotBlock, executed, executes, inside, if_true]
  refine ⟨System.setVcpu trace vcpu₀ ⟨(trace.threads vcpu₀).data,
    tbExecHotBlocks trace.globals ⟨false, 0x3000⟩ 0x1000 (trace.threads vcpu₀).blockCnt⟩,
    (watch_iff _ _ _ _ _ _).mpr ⟨?_, counted.symm⟩, rfl, rfl⟩
  simp only [System.step, hotBlock, invoke, effect, execEffect, Except.map, System.callback,
    delivered, countBlock]

theorem hot_blocks_again (times : Nat) (trace : Trace 1) (executions : UInt64 → Nat)
    (inside : trace.globals.roiCr3 = 0x3000) :
    ∃ final, run (watch System.step (note vcpu₀)) (trace, executions)
        (List.replicate times hotBlock) =
        .ok ((final, fun block => executions block + if 0x1000 = block then times else 0), []) ∧
      final.pending = trace.pending := by
  induction times generalizing trace executions with
  | zero =>
      refine ⟨trace, ?_, rfl⟩
      simp [run]
  | succ times ih =>
      obtain ⟨next, taken, globals, queue⟩ := hot_block_again trace executions inside
      obtain ⟨final, ran, pending⟩ := ih next _ (globals ▸ inside)
      refine ⟨final, ?_, pending.trans queue⟩
      rw [List.replicate_succ, run_cons_ok _ _ _ _ _ _ _ _ taken ran]
      have sum : (fun block => executions block + (if (0x1000 : UInt64) = block then 1 else 0) +
          if 0x1000 = block then times else 0) =
          fun block => executions block + if 0x1000 = block then times + 1 else 0 := by
        funext block
        split <;> omega
      rw [sum]
      rfl

/-- Executed 2 to the 64 times, a block is printed with the count zero. -/
theorem hot_block_runs_over :
    ∃ trace executions past next actions blocks,
      run (watch System.step (note vcpu₀)) (install 1, fun _ => 0)
        (entry ++ [order .stop] ++ List.replicate UInt64.size hotBlock) =
          .ok ((trace, executions), past) ∧
      trace.pending[0]? = some .stop ∧
      System.step trace (.control (.deferred 0)) = .ok (next, actions) ∧
      .hotBlocks vcpu₀ blocks ∈ actions ∧ (∃ rows, Table blocks rows) ∧
      ∀ rows, Table blocks rows → ¬ TopTen executions executions rows := by
  obtain ⟨trace, past, ran, queued, inside⟩ : ∃ trace past,
      run (watch System.step (note vcpu₀)) (install 1, fun _ => 0) (entry ++ [order .stop]) =
        .ok ((trace, fun _ => 0), past) ∧
      trace.pending[0]? = some .stop ∧ trace.globals.roiCr3 = 0x3000 := ⟨_, _, rfl, rfl, rfl⟩
  obtain ⟨final, again, pending⟩ := hot_blocks_again UInt64.size trace (fun _ => 0) inside
  have done := run_append_ok _ _ _ _ _ _ _ _ ran again
  have waiting : final.pending[0]? = some .stop := by rw [pending, queued]
  have counts := run_counts vcpu₀ _ final _ _ done
  obtain ⟨sorted, arranged⟩ := sort_map_exists (final.threads vcpu₀).blockCnt
  refine ⟨final, _, _, _, _, _, done, waiting, stop_step final 0 waiting,
    (stop_map_iff (final.dequeue 0) vcpu₀ _).mpr ⟨rfl, rfl⟩, ⟨_, sorted, arranged, rfl⟩,
    fun rows table exact_ => ?_⟩
  have fits := (true_top_ten_iff _ rows _ counts (table_best _ rows table)).mp exact_ 0x1000
  simp at fits

end Hypersh.HotBlocks
