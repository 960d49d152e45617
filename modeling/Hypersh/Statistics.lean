import Mathlib.Data.List.Nodup
import Mathlib.Data.Set.Card
import Hypersh.Transduction
import Hypersh.Callbacks
import Hypersh.Blocks
import Hypersh.Footprint
import Hypersh.Timeline
import Hypersh.Control
import Hypersh.Writers
import Hypersh.System
import Hypersh.Numerals
import Hypersh.Ranking
import Hypersh.Tallies

/-!
The statistics a stop prints, against the tally of what happened since the last start
or completed reset. Block counters go on through a reset, and user instructions are
told from others by their page directory alone.
-/
namespace Hypersh.Statistics
open Callbacks Blocks Control Numerals Ranking Tallies Transduction
variable {n : Nat}

theorem ofNat_exact_iff (count : Nat) : (UInt64.ofNat count).toNat = count ↔ count < UInt64.size := by
  rw [UInt64.toNat_ofNat']
  exact ⟨fun same => same ▸ Nat.mod_lt _ (by decide), Nat.mod_eq_of_lt⟩

/-! A machine with one vcpu. -/

def asked : Answers 1 := ⟨0x3000, none, fun _ => true⟩

def order (command : Command) : System.Event 1 := .control (.command vcpu₀ asked command)

def entry : List (System.Event 1) :=
  [order (.start (some "/d")), order (.mode "detailed"), .resume vcpu₀]

def hotBlock : System.Event 1 := .invoke vcpu₀ (.exec .hotBlocks 0x1000 ⟨false, 0x3000⟩)

def instruction (inKernel : Bool) : System.Event 1 :=
  .invoke vcpu₀ (.exec .updatePc 0x1000 ⟨inKernel, 0x3000⟩)

/-! User and other instructions. -/

/-- The counters go by the same notion of user code as loads and stores do. -/
structure UserCounted (thread : ThreadData) (tally : Tally) : Prop where
  user : thread.icountUser.toNat = tally.process
  other : thread.icountOther.toNat = tally.kernel + tally.elsewhere
  total : thread.icountUser + thread.icountOther = thread.icountDetailed

/-- In any run the counters go by that notion exactly when no instruction since the last
start or reset was the kernel's with the page directory of the region of interest. -/
theorem user_counted_iff (vcpu : Fin n) (events : List (System.Event n)) (trace : Trace n)
    (tally : Tally) (actions : List (Action n))
    (done : run (watch System.step (note vcpu)) (install n, Tally.begun) events =
      .ok ((trace, tally), actions)) :
    UserCounted (trace.threads vcpu).data tally ↔
      tally.kernel = 0 ∧ tally.process < UInt64.size ∧ tally.elsewhere < UInt64.size := by
  have tallied := run_tallied vcpu events trace tally actions done
  obtain ⟨user, other, detailed, -, -⟩ := Counters.mk.inj tallied.counters
  have size : UInt64.size = 18446744073709551616 := rfl
  constructor
  · rintro ⟨own, others, -⟩
    rw [user, UInt64.toNat_ofNat'] at own
    rw [other, UInt64.toNat_ofNat'] at others
    omega
  · rintro ⟨none_, own, others⟩
    refine ⟨?_, ?_, ?_⟩
    · rw [user, none_]
      exact (ofNat_exact_iff _).mpr own
    · rw [other, none_, Nat.zero_add]
      exact (ofNat_exact_iff _).mpr others
    · rw [user, other, detailed, UInt64.ofNat_add (tally.process + tally.kernel)]

theorem process_counted :
    ∃ trace tally actions, run (watch System.step (note vcpu₀)) (install 1, Tally.begun)
        (entry ++ [instruction false]) = .ok ((trace, tally), actions) ∧
      UserCounted (trace.threads vcpu₀).data tally := by
  obtain ⟨trace, tally, actions, ran, none_, own, others⟩ : ∃ trace tally actions,
      run (watch System.step (note vcpu₀)) (install 1, Tally.begun)
        (entry ++ [instruction false]) = .ok ((trace, tally), actions) ∧
      tally.kernel = 0 ∧ tally.process < UInt64.size ∧ tally.elsewhere < UInt64.size :=
    ⟨_, _, _, rfl, rfl, by decide, by decide⟩
  exact ⟨trace, tally, actions, ran,
    (user_counted_iff vcpu₀ _ trace tally actions ran).mpr ⟨none_, own, others⟩⟩

theorem kernel_counted_as_user :
    ∃ trace tally actions, run (watch System.step (note vcpu₀)) (install 1, Tally.begun)
        (entry ++ [instruction true]) = .ok ((trace, tally), actions) ∧
      ¬ UserCounted (trace.threads vcpu₀).data tally := by
  refine ⟨_, _, _, rfl, fun counted => ?_⟩
  exact absurd counted.user (by decide)

/-! The text of a line. -/

def figuresText (user other loads stores : Nat) : String :=
  "user: " ++ toString user ++ ", other: " ++ toString other ++ ", loads: " ++ toString loads ++
    ", writes: " ++ toString stores

theorem decimal_ends (value : Nat) (rest : List Char) :
    (Nat.toDigits 10 value ++ ',' :: rest).takeWhile (· != ',') = Nat.toDigits 10 value := by
  have digits : ∀ digit : Fin 10, (Nat.digitChar digit != ',') = true := by decide
  rw [List.takeWhile_append_of_pos, List.takeWhile_cons_of_neg (by decide), List.append_nil]
  intro letter member
  obtain ⟨digit, low, rfl⟩ := toDigits_letter 10 value (by decide) letter member
  exact digits ⟨digit, low⟩

theorem decimal_inj (left right : Nat) (same : Nat.toDigits 10 left = Nat.toDigits 10 right) :
    left = right := by
  have read := congrArg unsigned same
  rwa [unsigned_decimal, unsigned_decimal] at read

theorem decimal_cut (left right : Nat) (rest other : List Char)
    (same : Nat.toDigits 10 left ++ ',' :: rest = Nat.toDigits 10 right ++ ',' :: other) :
    left = right ∧ rest = other := by
  have heads := congrArg (List.takeWhile (· != ',')) same
  rw [decimal_ends, decimal_ends] at heads
  obtain rfl := decimal_inj left right heads
  exact ⟨rfl, (List.cons.inj (List.append_cancel_left same)).2⟩

theorem figures_letters (user other loads stores : Nat) :
    (figuresText user other loads stores).toList = "user: ".toList ++ (Nat.toDigits 10 user ++
      ',' :: (" other: ".toList ++ (Nat.toDigits 10 other ++
        ',' :: (" loads: ".toList ++ (Nat.toDigits 10 loads ++
          ',' :: (" writes: ".toList ++ Nat.toDigits 10 stores)))))) := by
  simp [figuresText]

theorem figures_inj (user other loads stores user' other' loads' stores' : Nat)
    (same : figuresText user other loads stores = figuresText user' other' loads' stores') :
    user = user' ∧ other = other' ∧ loads = loads' ∧ stores = stores' := by
  have letters := congrArg String.toList same
  rw [figures_letters, figures_letters] at letters
  obtain ⟨first, letters⟩ := decimal_cut _ _ _ _ (List.append_cancel_left letters)
  obtain ⟨second, letters⟩ := decimal_cut _ _ _ _ (List.append_cancel_left letters)
  obtain ⟨third, letters⟩ := decimal_cut _ _ _ _ (List.append_cancel_left letters)
  exact ⟨first, second, third, decimal_inj _ _ (List.append_cancel_left letters)⟩

theorem statistics_figures (thread : ThreadData) :
    statistics thread = figuresText thread.icountUser.toNat thread.icountOther.toNat
      thread.loads.toNat thread.stores.toNat := rfl

theorem figures_heading (user other loads stores : Nat) :
    figuresText user other loads stores ≠ "Hot blocks:" := by
  intro same
  have letters := congrArg String.toList same
  rw [figures_letters] at letters
  have heads : some 'u' = some 'H' := congrArg List.head? letters
  exact absurd heads (by decide)

/-! What a stop prints. -/

theorem closing_quiet (threadid : Fin n) (output : Option Nat) (action : Action n)
    (closed : action ∈ closeActions threadid output) :
    (∀ owner text, action ≠ .vcpuInfo owner text) ∧ ∀ owner rows, action ≠ .hotBlocks owner rows := by
  cases output with
  | none => exact absurd closed List.not_mem_nil
  | some writer =>
      rcases List.mem_cons.mp closed with rfl | closed
      · simp
      · obtain rfl := List.mem_singleton.mp closed
        simp

theorem first_vcpu (vcpu : Fin n) : vcpu ∈ (List.finRange n).take 1 ↔ vcpu.val = 0 := by
  cases n with
  | zero => exact vcpu.elim0
  | succ n =>
      rw [List.finRange_succ, List.take_succ_cons, List.take_zero, List.mem_singleton]
      exact Fin.ext_iff

theorem stop_line_iff (trace : Trace n) (vcpu : Fin n) (text : String) :
    Action.vcpuInfo vcpu text ∈ (stopCallback trace).2 ↔
      trace.globals.currentMode = .detailed ∧ text = statistics (trace.threads vcpu).data ∨
        vcpu.val = 0 ∧ text = "Hot blocks:" := by
  have closing : ∀ threadid output, Action.vcpuInfo vcpu text ∉ closeActions threadid output :=
    fun threadid output member => (closing_quiet threadid output _ member).1 vcpu text rfl
  have heading := first_vcpu vcpu
  simp only [stopCallback, List.mem_append, List.mem_flatMap, List.mem_finRange, true_and, closing,
    false_or, List.mem_map, List.mem_cons, List.not_mem_nil, or_false, reduceCtorEq, and_false,
    exists_false, Action.vcpuInfo.injEq]
  constructor
  · rintro (⟨threadid, member⟩ | ⟨threadid, first, rfl, rfl⟩)
    · split at member
      · rename_i mode
        obtain ⟨rfl, rfl⟩ := Action.vcpuInfo.inj (List.mem_singleton.mp member)
        exact .inl ⟨mode, rfl⟩
      · exact absurd member List.not_mem_nil
    · exact .inr ⟨heading.mp first, rfl⟩
  · rintro (⟨mode, rfl⟩ | ⟨first, rfl⟩)
    · refine .inl ⟨vcpu, ?_⟩
      rw [if_pos mode]
      exact List.mem_singleton_self _
    · exact .inr ⟨vcpu, heading.mpr first, rfl, rfl⟩

theorem stop_step (trace : Trace n) (index : Nat) (queued : trace.pending[index]? = some .stop) :
    System.step trace (.control (.deferred index)) = .ok (stopCallback (trace.dequeue index)) := by
  simp only [System.step, Control.step, queued, runDeferred]

theorem stop_map_iff (trace : Trace n) (vcpu : Fin n) (blocks : BlockCount) :
    Action.hotBlocks vcpu blocks ∈ (stopCallback trace).2 ↔
      vcpu.val = 0 ∧ blocks = (trace.threads vcpu).blockCnt := by
  have closing : ∀ threadid output, Action.hotBlocks vcpu blocks ∉ closeActions threadid output :=
    fun threadid output member => (closing_quiet threadid output _ member).2 vcpu blocks rfl
  have heading := first_vcpu vcpu
  simp only [stopCallback, List.mem_append, List.mem_flatMap, List.mem_finRange, true_and, closing,
    false_or, List.mem_map, List.mem_cons, List.not_mem_nil, or_false, reduceCtorEq, and_false,
    exists_false, Action.hotBlocks.injEq]
  constructor
  · rintro (⟨threadid, member⟩ | ⟨threadid, first, rfl, rfl⟩)
    · split at member
      · have same := List.mem_singleton.mp member
        contradiction
      · exact absurd member List.not_mem_nil
    · exact ⟨heading.mp first, rfl⟩
  · rintro ⟨first, rfl⟩
    exact .inr ⟨vcpu, heading.mpr first, rfl, rfl⟩

/-! What a table can hold. -/

def high (first second : UInt64 × UInt64) : Bool := decide (second.2 ≤ first.2)

theorem high_iff (first second : UInt64 × UInt64) : high first second = true ↔ higher first second :=
  decide_eq_true_iff

theorem higher_trans (first second third : UInt64 × UInt64) (upper : higher first second)
    (lower : higher second third) : higher first third := UInt64.le_trans lower upper

theorem higher_total (first second : UInt64 × UInt64) : higher first second ∨ higher second first :=
  UInt64.le_total second.2 first.2

theorem sort_map_exists (blocks : BlockCount) : ∃ sorted, SortMap blocks sorted :=
  ⟨_, merge_sort_arranged higher high high_iff higher_trans higher_total blocks⟩

theorem table_row (blocks rows : BlockCount) (table : Table blocks rows) (row : UInt64 × UInt64)
    (printed : row ∈ rows) : row ∈ blocks := by
  obtain ⟨sorted, arranged, rfl⟩ := table
  exact arranged.perm.mem_iff.mp (List.mem_of_mem_take printed)

/-- The blocks executed more often than another, as 64 bits count. -/
def ahead (executions : UInt64 → Nat) (block : UInt64) : Set UInt64 :=
  {other | executions block % UInt64.size < executions other % UInt64.size}

theorem ahead_card (blocks : BlockCount) (executions : UInt64 → Nat)
    (counts : Counts blocks executions) (row : UInt64 × UInt64) (member : row ∈ blocks) :
    (ahead executions row.1).ncard = (superior high row blocks).length := by
  have distinct : ((superior high row blocks).map Prod.fst).Nodup :=
    counts.distinct.sublist (List.filter_sublist.map Prod.fst)
  have passed : ∀ other ∈ blocks,
      other ∈ superior high row blocks ↔ other.1 ∈ ahead executions row.1 := by
    intro other placed
    have below : high row other = true ↔
        executions other.1 % UInt64.size ≤ executions row.1 % UInt64.size := by
      rw [high_iff, ← row_counted blocks executions counts row member,
        ← row_counted blocks executions counts other placed]
      exact UInt64.le_iff_toNat_le
    simp only [superior, List.mem_filter, placed, true_and, Bool.not_eq_true', ahead,
      Set.mem_ofPred_eq, ← Nat.not_le, ← below, Bool.not_eq_true]
  rw [← keys_card Prod.fst _ distinct]
  congr 1
  ext block
  constructor
  · intro further
    have some_ : 0 < executions block := by
      by_contra never
      have none_ : executions block = 0 := by omega
      simp [ahead, none_] at further
    obtain ⟨other, placed, rfl⟩ := List.mem_map.mp ((counts.known block).mpr some_)
    exact List.mem_map_of_mem ((passed other placed).mpr further)
  · intro placed
    obtain ⟨other, chosen, rfl⟩ := List.mem_map.mp placed
    exact (passed other (List.mem_filter.mp chosen).1).mp chosen

theorem printed_iff (blocks : BlockCount) (executions : UInt64 → Nat)
    (counts : Counts blocks executions) (row : UInt64 × UInt64) (member : row ∈ blocks) :
    (∃ rows, Table blocks rows ∧ row ∈ rows) ↔ (ahead executions row.1).ncard < 10 := by
  rw [ahead_card blocks executions counts row member]
  constructor
  · rintro ⟨_, ⟨sorted, arranged, rfl⟩, printed⟩
    exact placed_few higher high high_iff (fun row => UInt64.le_refl row.2) blocks sorted arranged 10
      row printed
  · intro few
    obtain ⟨sorted, arranged, printed⟩ :=
      few_placed higher high high_iff higher_trans higher_total blocks 10 row member few
    exact ⟨_, ⟨sorted, arranged, rfl⟩, printed⟩

/-! The report. -/

/-- Every figure printed of the vcpu counts what happened since the last start or
completed reset, however the table puts equal counts. -/
structure Exact (vcpu : Fin n) (tally : Tally) (actions : List (Action n)) : Prop where
  statistics : ∀ text, .vcpuInfo vcpu text ∈ actions → text ≠ "Hot blocks:" →
    text = figuresText (tally.process + tally.kernel) tally.elsewhere tally.loads tally.stores
  hotBlocks : ∀ blocks, .hotBlocks vcpu blocks ∈ actions → ∀ rows, Table blocks rows →
    ∀ row ∈ rows, row.2.toNat = tally.blocks row.1

/-- No figure has run over its 64 bits, and no block with fewer than ten ahead of it was
executed between the start and the last reset, or only a multiple of 2 to the 64 times. -/
structure Cleared (trace : Trace n) (vcpu : Fin n) (tally : Tally) : Prop where
  figures : trace.globals.currentMode = .detailed →
    tally.process + tally.kernel < UInt64.size ∧ tally.elsewhere < UInt64.size ∧
      tally.loads < UInt64.size ∧ tally.stores < UInt64.size
  hotBlocks : vcpu.val = 0 → ∀ block, 0 < tally.executions block →
    (ahead tally.executions block).ncard < 10 →
      UInt64.size ∣ tally.earlier block ∧ tally.blocks block < UInt64.size

theorem line_exact_iff (thread : ThreadData) (tally : Tally)
    (counted : countersOf thread = tally.counters) :
    statistics thread =
        figuresText (tally.process + tally.kernel) tally.elsewhere tally.loads tally.stores ↔
      tally.process + tally.kernel < UInt64.size ∧ tally.elsewhere < UInt64.size ∧
        tally.loads < UInt64.size ∧ tally.stores < UInt64.size := by
  obtain ⟨user, other, -, loads, stores⟩ := Counters.mk.inj counted
  rw [statistics_figures, user, other, loads, stores, ← ofNat_exact_iff, ← ofNat_exact_iff,
    ← ofNat_exact_iff, ← ofNat_exact_iff]
  constructor
  · exact figures_inj _ _ _ _ _ _ _ _
  · rintro ⟨first, second, third, fourth⟩
    rw [first, second, third, fourth]

theorem row_exact_iff (blocks : BlockCount) (tally : Tally)
    (counts : Counts blocks tally.executions) (row : UInt64 × UInt64) (member : row ∈ blocks) :
    row.2.toNat = tally.blocks row.1 ↔
      UInt64.size ∣ tally.earlier row.1 ∧ tally.blocks row.1 < UInt64.size := by
  rw [row_counted blocks _ counts row member, Tally.executions]
  constructor
  · intro exact_
    have below : tally.blocks row.1 < UInt64.size := exact_ ▸ Nat.mod_lt _ (by decide)
    refine ⟨Nat.dvd_of_mod_eq_zero ?_, below⟩
    have size : UInt64.size = 2 ^ 64 := rfl
    rw [size] at exact_ below ⊢
    omega
  · rintro ⟨⟨times, several⟩, below⟩
    rw [several, Nat.mul_add_mod]
    exact Nat.mod_eq_of_lt below

/-- In any run, what a stop prints of a vcpu covers exactly the time since the last start
or completed reset when no block that can be among the hottest was counted before it. -/
theorem statistics_exact_iff (vcpu : Fin n) (events : List (System.Event n)) (trace : Trace n)
    (tally : Tally) (past : List (Action n))
    (done : run (watch System.step (note vcpu)) (install n, Tally.begun) events =
      .ok ((trace, tally), past)) (index : Nat) (next : Trace n) (actions : List (Action n))
    (queued : trace.pending[index]? = some .stop)
    (stopped : System.step trace (.control (.deferred index)) = .ok (next, actions)) :
    Exact vcpu tally actions ↔ Cleared trace vcpu tally := by
  have tallied := run_tallied vcpu events trace tally past done
  have closed : stopCallback (trace.dequeue index) = (next, actions) :=
    Except.ok.inj ((stop_step trace index queued).symm.trans stopped)
  have lines := stop_line_iff (trace.dequeue index) vcpu
  have tables := stop_map_iff (trace.dequeue index) vcpu
  rw [closed] at lines tables
  have line := line_exact_iff _ tally tallied.counters
  have rows := row_exact_iff _ tally tallied.blocks
  have printed := printed_iff _ _ tallied.blocks
  constructor
  · intro exact_
    refine ⟨fun mode => ?_, fun first block some_ few => ?_⟩
    · have heading := figures_heading (trace.threads vcpu).data.icountUser.toNat
        (trace.threads vcpu).data.icountOther.toNat (trace.threads vcpu).data.loads.toNat
        (trace.threads vcpu).data.stores.toNat
      rw [← statistics_figures] at heading
      exact line.mp (exact_.statistics _ ((lines _).mpr (.inl ⟨mode, rfl⟩)) heading)
    · obtain ⟨row, member, rfl⟩ := List.mem_map.mp ((tallied.blocks.known block).mpr some_)
      obtain ⟨table, made, shown⟩ := (printed row member).mpr few
      exact (rows row member).mp
        (exact_.hotBlocks _ ((tables _).mpr ⟨first, rfl⟩) table made row shown)
  · intro cleared
    refine ⟨fun text shown other => ?_, fun blocks reported table made row shown => ?_⟩
    · obtain ⟨mode, rfl⟩ | ⟨-, rfl⟩ := (lines text).mp shown
      · exact line.mpr (cleared.figures mode)
      · exact absurd rfl other
    · obtain ⟨first, rfl⟩ := (tables blocks).mp reported
      have member := table_row _ table made row shown
      refine (rows row member).mpr (cleared.hotBlocks first row.1 ?_ ?_)
      · exact (tallied.blocks.known row.1).mp (List.mem_map_of_mem member)
      · exact (printed row member).mp ⟨table, made, shown⟩

theorem block_after_reset :
    ∃ trace tally past next actions, run (watch System.step (note vcpu₀)) (install 1, Tally.begun)
        (entry ++ [order .reset, .control (.deferred 0), hotBlock, order .stop]) =
          .ok ((trace, tally), past) ∧
      System.step trace (.control (.deferred 0)) = .ok (next, actions) ∧
      Exact vcpu₀ tally actions := by
  obtain ⟨trace, tally, past, next, actions, ran, queued, taken, figures, earlier, later⟩ :
      ∃ trace tally past next actions,
        run (watch System.step (note vcpu₀)) (install 1, Tally.begun)
          (entry ++ [order .reset, .control (.deferred 0), hotBlock, order .stop]) =
            .ok ((trace, tally), past) ∧
        trace.pending[0]? = some .stop ∧
        System.step trace (.control (.deferred 0)) = .ok (next, actions) ∧
        (tally.process + tally.kernel < UInt64.size ∧ tally.elsewhere < UInt64.size ∧
          tally.loads < UInt64.size ∧ tally.stores < UInt64.size) ∧
        (tally.earlier = fun _ => 0) ∧
        tally.blocks = fun block => 0 + if 0x1000 = block then 1 else 0 :=
    ⟨_, _, _, _, _, rfl, rfl, rfl, by decide, rfl, rfl⟩
  refine ⟨trace, tally, past, next, actions, ran, taken,
    (statistics_exact_iff vcpu₀ _ trace tally past ran 0 next actions queued taken).mpr
      ⟨fun _ => figures, fun _ block _ _ => ?_⟩⟩
  have size : UInt64.size = 18446744073709551616 := rfl
  rw [earlier, later]
  refine ⟨Nat.dvd_zero _, ?_⟩
  dsimp only
  split <;> omega

/-- Executed before the reset, it is printed all the same. -/
theorem block_before_reset :
    ∃ trace tally past next actions, run (watch System.step (note vcpu₀)) (install 1, Tally.begun)
        (entry ++ [hotBlock, order .reset, .control (.deferred 0), order .stop]) =
          .ok ((trace, tally), past) ∧
      System.step trace (.control (.deferred 0)) = .ok (next, actions) ∧
      ¬ Exact vcpu₀ tally actions := by
  obtain ⟨trace, tally, past, ran, queued, blocks, since⟩ : ∃ trace tally past,
      run (watch System.step (note vcpu₀)) (install 1, Tally.begun)
        (entry ++ [hotBlock, order .reset, .control (.deferred 0), order .stop]) =
          .ok ((trace, tally), past) ∧
      trace.pending[0]? = some .stop ∧ (trace.threads vcpu₀).blockCnt = [(0x1000, 1)] ∧
      tally.blocks 0x1000 = 0 := ⟨_, _, _, rfl, rfl, rfl, rfl⟩
  have taken := stop_step trace 0 queued
  refine ⟨trace, tally, past, _, _, ran, taken, fun exact_ => ?_⟩
  have reported := (stop_map_iff (trace.dequeue 0) vcpu₀ [(0x1000, 1)]).mpr ⟨rfl, blocks.symm⟩
  have table : Table [(0x1000, 1)] [(0x1000, 1)] :=
    ⟨_, ⟨.refl _, List.pairwise_singleton _ _⟩, rfl⟩
  have count := exact_.hotBlocks _ reported _ table (0x1000, 1) (List.mem_singleton_self _)
  rw [since] at count
  exact absurd count (by decide)

end Hypersh.Statistics
