import Mathlib.Algebra.Group.Nat.Defs
import Mathlib.Algebra.GroupWithZero.Nat
import Mathlib.Data.List.Basic
import Hypersh.Transduction
import Hypersh.Locks
import Hypersh.Getopt
import Hypersh.Mcount
import Hypersh.AccessReports
import Hypersh.Contention

/-!
What mcount has counted, printed, kept and dropped under concurrent callbacks. A ledger
beside the state writes down which steps were taken.
-/
namespace Hypersh.Balance
open Getopt Locks Transduction Contention
open Mcount hiding step Event Fault Outcome
open AccessReports (Logged)
variable {n : Nat}

structure Ledger where
  counted : Nat
  io : Nat
  dropped : Nat
  stored : List Logged
  deriving DecidableEq, Repr

def empty : Ledger := ⟨0, 0, 0, []⟩

def noteAdvance (vcpu : Fin n) (state : State n) (ledger : Ledger) : Phase → Ledger
  | .counting _ => { ledger with counted := ledger.counted + 1 }
  | .rechecking _ =>
      if state.statics.cfg.mode = .off then { ledger with dropped := ledger.dropped + 1 } else ledger
  | .classifying access => if access.isIo then { ledger with io := ledger.io + 1 } else ledger
  | .storing access _ => { ledger with stored := ledger.stored ++ [(vcpu.val, access)] }
  | _ => ledger

def note (state : State n) (event : Event n) (_ : List Line) (ledger : Ledger) : Ledger :=
  match event with
  | .advance vcpu => noteAdvance vcpu state ledger (state.phase vcpu)
  | _ => ledger

/-! The histograms. -/

def stored (memBin : UInt32) (kernel : Bool) (cpuId bin : Nat) (ledger : Ledger) : Nat :=
  ledger.stored.countP fun logged => logged.1 == cpuId && logged.2.isKernel == kernel &&
    binOf memBin logged.2.paddr == bin

def rowEntry (bin : Nat) (row : Row) : Nat :=
  ((row.filter fun entry => entry.1 == bin).map Prod.snd).sum

def rowsEntry (cpuId bin : Nat) (rows : List Row) : Nat :=
  rows[cpuId]?.elim 0 (rowEntry bin)

def lineEntry (kernel : Bool) (cpuId bin : Nat) : Line → Nat
  | .kernel rows => if kernel then rowsEntry cpuId bin rows else 0
  | .user rows => if kernel then 0 else rowsEntry cpuId bin rows
  | _ => 0

def reported (kernel : Bool) (cpuId bin : Nat) (lines : List Line) : Nat :=
  (lines.map (lineEntry kernel cpuId bin)).sum

def held (kernel : Bool) (cpuId bin : Nat) (statics : Statics) : Nat :=
  (cell (classMaps kernel statics) cpuId bin).elim 0 UInt32.toNat

theorem row_entry_cons (bin : Nat) (entry : Nat × Nat) (rest : Row) :
    rowEntry bin (entry :: rest) = (if entry.1 = bin then entry.2 else 0) + rowEntry bin rest := by
  unfold rowEntry
  by_cases here : entry.1 = bin
  · simp [here]
  · simp [here]

/-- Entries of the rest of a row, which begins with the bin `start`. -/
theorem row_entry_from (row : List UInt32) (start bin : Nat) :
    rowEntry bin (((row.zipIdx start).filter fun entry => entry.1 != 0).map fun entry =>
      (entry.2, entry.1.toNat)) =
      if start ≤ bin then row[bin - start]?.elim 0 UInt32.toNat else 0 := by
  induction row generalizing start with
  | nil => simp [rowEntry]
  | cons count rest ih =>
      have later := ih (start + 1)
      -- The head is the bin itself, or the bin is among the rest.
      have head : rowEntry bin ((((count :: rest).zipIdx start).filter fun entry =>
            entry.1 != 0).map fun entry => (entry.2, entry.1.toNat)) =
          (if start = bin then count.toNat else 0) +
            if start + 1 ≤ bin then rest[bin - (start + 1)]?.elim 0 UInt32.toNat else 0 := by
        rw [List.zipIdx_cons, List.filter_cons]
        by_cases zero : count = 0
        · rw [if_neg (by simp [zero]), later, zero]
          simp
        · rw [if_pos (by simp [zero]), List.map_cons, row_entry_cons, later]
      rw [head]
      by_cases here : start = bin
      · rw [if_pos here, if_neg (by omega), if_pos (by omega), here, Nat.sub_self]
        rfl
      · by_cases behind : start ≤ bin
        · have next : bin - start = bin - (start + 1) + 1 := by omega
          rw [if_neg here, if_pos (by omega), if_pos behind, next, List.getElem?_cons_succ,
            Nat.zero_add]
        · rw [if_neg here, if_neg (by omega), if_neg behind]

theorem row_entry_printed (row : List UInt32) (bin : Nat) :
    rowEntry bin (printMap row) = row[bin]?.elim 0 UInt32.toNat := by
  have whole := row_entry_from row 0 bin
  rwa [if_pos (Nat.zero_le bin), Nat.sub_zero] at whole

theorem cell_set (maps : Maps) (cpuId bin otherCpu otherBin : Nat) (count : UInt32) :
    cell (setCell otherCpu otherBin count maps) cpuId bin =
      if cpuId = otherCpu ∧ bin = otherBin then (cell maps cpuId bin).map fun _ => count
      else cell maps cpuId bin := by
  unfold cell setCell
  rw [List.getElem?_modify]
  cases row : maps[cpuId]? with
  | none => simp
  | some counts =>
      by_cases cpu : otherCpu = cpuId
      · by_cases same : otherBin = bin
        · by_cases inside : bin < counts.length
          · simp [cpu, same, inside]
          · simp [cpu, same, inside]
        · simp [cpu, same, Ne.symm same]
      · simp [cpu, Ne.symm cpu]

theorem cell_zeroed (maps : Maps) (cpuId bin : Nat) :
    cell (maps.map fun row => row.map fun _ => 0) cpuId bin =
      (cell maps cpuId bin).map fun _ => 0 := by
  unfold cell
  rw [List.getElem?_map]
  cases maps[cpuId]? with
  | none => rfl
  | some counts => exact List.getElem?_map

theorem rows_entry_printed (maps : Maps) (cpuId bin : Nat) :
    rowsEntry cpuId bin (maps.map printMap) = (cell maps cpuId bin).elim 0 UInt32.toNat := by
  unfold rowsEntry cell
  cases row : maps[cpuId]? with
  | none => simp [row]
  | some counts => simp [row, row_entry_printed]

theorem class_set (kernel other : Bool) (maps : Maps) (statics : Statics) :
    classMaps kernel (setClass other maps statics) =
      if kernel = other then maps else classMaps kernel statics := by
  cases kernel <;> cases other <;> rfl

theorem flush_printed (ncores : Nat) (maps cleared : Maps) (rows : List Row)
    (whole : maps.length = ncores) (done : flush ncores maps = .ok (rows, cleared)) :
    rows = maps.map printMap ∧ cleared = maps.map fun row => row.map fun _ => 0 := by
  rw [← whole, flush_all] at done
  split at done
  · cases done
  · cases done
    exact ⟨rfl, rfl⟩

/-- What a step does to the histograms: nothing, a report of one class under the lock,
or a store. -/
theorem advanced_maps (vcpu : Fin n) (state next : State n) (phase : Phase) (lines : List Line)
    (advanced : Advanced vcpu state phase next lines) :
    ((∀ kernel, classMaps kernel next.statics = classMaps kernel state.statics) ∧
      (∀ kernel cpuId bin, reported kernel cpuId bin lines = 0) ∧
      ∀ access count, phase ≠ .storing access count) ∨
    (∃ kernel rows maps, phase.hold = .whole ∧
      (∀ access count, phase ≠ .storing access count) ∧
      flush state.statics.ncores (classMaps kernel state.statics) = .ok (rows, maps) ∧
      next.statics = setClass kernel maps state.statics ∧
      lines = [if kernel then .kernel rows else .user rows]) ∨
    ∃ access count, phase = .storing access count ∧ lines = [] ∧
      next.statics = setClass access.isKernel (setCell vcpu.val
        (binOf state.statics.cfg.memBin access.paddr) (count + 1)
        (classMaps access.isKernel state.statics)) state.statics := by
  cases advanced with
  | kernel access rows maps file open_ flushed =>
      exact .inr (.inl ⟨true, rows, maps, rfl, fun _ _ same => Phase.noConfusion same, flushed,
        rfl, rfl⟩)
  | user access rows maps file open_ flushed =>
      exact .inr (.inl ⟨false, rows, maps, rfl, fun _ _ same => Phase.noConfusion same, flushed,
        rfl, rfl⟩)
  | stored access count => exact .inr (.inr ⟨access, count, rfl, rfl, rfl⟩)
  | _ => exact .inl ⟨fun _ => rfl, fun _ _ _ => rfl, fun _ _ same => Phase.noConfusion same⟩

theorem advanced_frame (vcpu : Fin n) (state next : State n) (phase : Phase) (lines : List Line)
    (advanced : Advanced vcpu state phase next lines) :
    next.statics.cfg.memBin = state.statics.cfg.memBin ∧
    next.statics.cfg.accBin = state.statics.cfg.accBin ∧
    next.statics.ncores = state.statics.ncores ∧
    ∃ after, next.phase = (state.move vcpu after).phase ∧
      ∀ access count, after = .storing access count →
        cell (classMaps access.isKernel next.statics) vcpu.val
          (binOf state.statics.cfg.memBin access.paddr) = some count := by
  cases advanced with
  | counted access accCnt positive next =>
      refine ⟨rfl, rfl, rfl, _, rfl, fun other count same => ?_⟩
      split at same <;> cases same
  | stored access count =>
      refine ⟨?_, ?_, ?_, .leaving, rfl, fun other count same => by cases same⟩
      · simp [State.set]
      · simp [State.set]
      · cases access.isKernel <;> rfl
  | loaded access count here =>
      refine ⟨rfl, rfl, rfl, _, rfl, fun other read same => ?_⟩
      cases same
      exact here
  | stopped =>
      refine ⟨rfl, rfl, rfl, _, rfl, fun other count same => ?_⟩
      split at same <;> cases same
  | compared =>
      refine ⟨rfl, rfl, rfl, _, rfl, fun other count same => ?_⟩
      split at same <;> cases same
  | _ => exact ⟨rfl, rfl, rfl, _, rfl, fun other count same => by cases same⟩

/-- Who has read its cell will find it unchanged. -/
structure Steady (ncores : Nat) (memBin accBin : UInt32) (state : State n) : Prop where
  locked : Locked state
  cores : state.statics.ncores = ncores
  bin : state.statics.cfg.memBin = memBin
  period : state.statics.cfg.accBin = accBin
  whole : ∀ kernel, (classMaps kernel state.statics).length = ncores
  read : ∀ vcpu access count, state.phase vcpu = .storing access count →
    cell (classMaps access.isKernel state.statics) vcpu.val (binOf memBin access.paddr) = some count

theorem held_set (kernel other : Bool) (maps : Maps) (statics : Statics) (cpuId bin : Nat) :
    held kernel cpuId bin (setClass other maps statics) =
      if kernel = other then (cell maps cpuId bin).elim 0 UInt32.toNat
      else held kernel cpuId bin statics := by
  unfold held
  rw [class_set]
  split <;> rfl

theorem advanced_steady (ncores : Nat) (memBin accBin : UInt32) (vcpu : Fin n)
    (state next : State n) (lines : List Line) (steady : Steady ncores memBin accBin state)
    (advanced : Advanced vcpu state (state.phase vcpu) next lines) :
    Steady ncores memBin accBin next := by
  obtain ⟨bin, period, cores, after, moved, loaded⟩ := advanced_frame vcpu state next _ lines advanced
  have maps := advanced_maps vcpu state next _ lines advanced
  refine ⟨advanced_locked vcpu state next _ lines steady.locked rfl advanced,
    cores.trans steady.cores, bin.trans steady.bin, period.trans steady.period, ?_, ?_⟩
  · intro kernel
    obtain ⟨same, -⟩ | ⟨other, rows, cleared, -, -, flushed, set, -⟩ |
      ⟨access, count, -, -, set⟩ := maps
    · rw [same]
      exact steady.whole kernel
    · rw [set, class_set]
      split
      · obtain ⟨-, rfl⟩ := flush_printed _ _ _ _ ((steady.whole other).trans steady.cores.symm) flushed
        rw [List.length_map]
        exact steady.whole other
      · exact steady.whole kernel
    · rw [set, class_set]
      split
      · rw [setCell, List.length_modify]
        exact steady.whole access.isKernel
      · exact steady.whole kernel
  · intro other access count storing
    rw [moved, move_phase] at storing
    by_cases own : other = vcpu
    · rw [if_pos own] at storing
      rw [own, ← steady.bin]
      exact loaded access count storing
    · rw [if_neg own] at storing
      have before := steady.read other access count storing
      obtain ⟨same, -⟩ | ⟨kernel, rows, cleared, alone_, -⟩ | ⟨stored, counted, -, -, set⟩ := maps
      · rw [same]
        exact before
      · -- The lock is not held alone while another vcpu stores.
        have nothing := alone state steady.locked vcpu other alone_ own
        rw [storing] at nothing
        cases nothing
      · rw [set, class_set]
        split
        · rename_i class_
          have apart : ¬ (other.val = vcpu.val ∧ binOf memBin access.paddr =
              binOf state.statics.cfg.memBin stored.paddr) := fun same => own (Fin.ext same.1)
          rw [cell_set, if_neg apart, ← class_]
          exact before
        · exact before

theorem step_steady (ncores : Nat) (memBin accBin : UInt32) (state next : State n)
    (event : Event n) (lines : List Line) (steady : Steady ncores memBin accBin state)
    (taken : step state event = .ok (next, lines)) : Steady ncores memBin accBin next := by
  have locked := step_locked state next event lines steady.locked taken
  have read : ∀ (vcpu : Fin n) phase, (∀ access count, phase ≠ .storing access count) →
      ∀ other access count, (state.move vcpu phase).phase other = .storing access count →
        cell (classMaps access.isKernel state.statics) other.val (binOf memBin access.paddr) =
          some count := by
    intro vcpu phase outside other access count storing
    rw [move_phase] at storing
    split at storing
    · exact absurd storing (outside access count)
    · exact steady.read other access count storing
  rcases step_cases state next event lines taken with
    ⟨vcpu, access, rfl, -, -, ⟨-, rfl⟩ | ⟨-, rfl⟩⟩ | ⟨vcpu, rfl, -, -, rfl⟩ | ⟨vcpu, rfl, advanced⟩
  · exact steady
  · exact ⟨locked, steady.cores, steady.bin, steady.period, steady.whole,
      read vcpu _ fun _ _ same => Phase.noConfusion same⟩
  · exact ⟨locked, steady.cores, steady.bin, steady.period, steady.whole,
      read vcpu _ fun _ _ same => Phase.noConfusion same⟩
  · exact advanced_steady ncores memBin accBin vcpu state next lines steady advanced

/-- Every store into a cell is in a report or still in the cell, which wraps at 2^32. -/
def Conserved (memBin : UInt32) (statics : Statics) (ledger : Ledger) (lines : List Line) : Prop :=
  ∀ kernel cpuId bin, ∃ wraps, stored memBin kernel cpuId bin ledger =
    reported kernel cpuId bin lines + held kernel cpuId bin statics + 2 ^ 32 * wraps

theorem reported_append (kernel : Bool) (cpuId bin : Nat) (front back : List Line) :
    reported kernel cpuId bin (front ++ back) =
      reported kernel cpuId bin front + reported kernel cpuId bin back := by
  rw [reported, List.map_append, List.sum_append]
  rfl

theorem note_advance_stored (vcpu : Fin n) (state : State n) (ledger : Ledger) (phase : Phase)
    (other : ∀ access count, phase ≠ .storing access count) :
    (noteAdvance vcpu state ledger phase).stored = ledger.stored := by
  cases phase with
  | storing access count => exact absurd rfl (other access count)
  | rechecking access =>
      simp only [noteAdvance]
      split <;> rfl
  | classifying access =>
      simp only [noteAdvance]
      split <;> rfl
  | _ => rfl

theorem reported_line (kernel other : Bool) (cpuId bin : Nat) (rows : List Row) :
    reported kernel cpuId bin [if other then .kernel rows else .user rows] =
      if kernel = other then rowsEntry cpuId bin rows else 0 := by
  cases kernel <;> cases other <;> simp [reported, lineEntry]

theorem advanced_conserved (ncores : Nat) (memBin accBin : UInt32) (vcpu : Fin n)
    (state next : State n) (ledger : Ledger) (past lines : List Line)
    (steady : Steady ncores memBin accBin state)
    (conserved : Conserved memBin state.statics ledger past)
    (advanced : Advanced vcpu state (state.phase vcpu) next lines) :
    Conserved memBin next.statics (noteAdvance vcpu state ledger (state.phase vcpu))
      (past ++ lines) := by
  intro kernel cpuId bin
  obtain ⟨wraps, before⟩ := conserved kernel cpuId bin
  rw [reported_append]
  obtain ⟨same, silent, other⟩ | ⟨class_, rows, cleared, -, other, flushed, set, rfl⟩ |
    ⟨access, count, here, rfl, set⟩ := advanced_maps vcpu state next _ lines advanced
  · refine ⟨wraps, ?_⟩
    rw [stored, note_advance_stored vcpu state ledger _ other, silent, held, same]
    exact before
  · obtain ⟨rfl, rfl⟩ :=
      flush_printed _ _ _ _ ((steady.whole class_).trans steady.cores.symm) flushed
    refine ⟨wraps, ?_⟩
    rw [stored, note_advance_stored vcpu state ledger _ other, reported_line, set, held_set,
      cell_zeroed, rows_entry_printed]
    by_cases printed : kernel = class_
    · -- What the report lists is what the cell held.
      have zero : ((cell (classMaps class_ state.statics) cpuId bin).map fun _ =>
          (0 : UInt32)).elim 0 UInt32.toNat = 0 := by
        cases cell (classMaps class_ state.statics) cpuId bin <;> rfl
      rw [if_pos printed, if_pos printed, zero, ← printed]
      exact before
    · rw [if_neg printed, if_neg printed]
      exact before
  · have read := steady.read vcpu access count here
    have one : stored memBin kernel cpuId bin (noteAdvance vcpu state ledger (state.phase vcpu)) =
        stored memBin kernel cpuId bin ledger +
          if vcpu.val = cpuId ∧ access.isKernel = kernel ∧ binOf memBin access.paddr = bin then 1
          else 0 := by
      rw [here, stored, noteAdvance, List.countP_append]
      simp [stored, and_assoc]
    rw [one, set, held_set, cell_set, steady.bin, before]
    by_cases class_ : kernel = access.isKernel
    · by_cases mine : cpuId = vcpu.val ∧ bin = binOf memBin access.paddr
      · obtain ⟨rfl, rfl⟩ := mine
        have old : held kernel vcpu.val (binOf memBin access.paddr) state.statics = count.toNat := by
          rw [held, class_, read]
          rfl
        have new : (count + 1).toNat = (count.toNat + 1) % 2 ^ 32 := UInt32.toNat_add count 1
        have small := count.toNat_lt
        rw [if_pos ⟨rfl, class_.symm, rfl⟩, if_pos class_, if_pos ⟨rfl, rfl⟩, read, old]
        by_cases full : count.toNat + 1 = 2 ^ 32
        · refine ⟨wraps + 1, ?_⟩
          simp only [Option.map_some, Option.elim_some, new, full, reported, List.map_nil,
            List.sum_nil]
          omega
        · refine ⟨wraps, ?_⟩
          simp only [Option.map_some, Option.elim_some, new, reported, List.map_nil, List.sum_nil]
          omega
      · refine ⟨wraps, ?_⟩
        have apart : ¬ (vcpu.val = cpuId ∧ access.isKernel = kernel ∧
            binOf memBin access.paddr = bin) := fun same => mine ⟨same.1.symm, same.2.2.symm⟩
        rw [if_neg apart, if_pos class_, if_neg mine, ← class_]
        rfl
    · refine ⟨wraps, ?_⟩
      rw [if_neg fun same => class_ same.2.1.symm, if_neg class_]
      rfl

theorem step_conserved (ncores : Nat) (memBin accBin : UInt32) (before after : State n × Ledger)
    (event : Event n) (past lines : List Line) (steady : Steady ncores memBin accBin before.1)
    (conserved : Conserved memBin before.1.statics before.2 past)
    (taken : watch step note before event = .ok (after, lines)) :
    Conserved memBin after.1.statics after.2 (past ++ lines) := by
  obtain ⟨stepped, noted⟩ := (watch_iff _ _ _ _ _ _).mp taken
  rw [noted]
  rcases step_cases before.1 after.1 event lines stepped with
    ⟨vcpu, access, rfl, -, rfl, ⟨-, same⟩ | ⟨-, same⟩⟩ | ⟨vcpu, rfl, -, rfl, same⟩ |
      ⟨vcpu, rfl, advanced⟩
  · rw [same, List.append_nil]
    exact conserved
  · rw [same, List.append_nil]
    exact conserved
  · rw [same, List.append_nil]
    exact conserved
  · exact advanced_conserved ncores memBin accBin vcpu before.1 after.1 before.2 past lines steady
      conserved advanced

theorem start_zeroed (statics begun : Statics) (report : Option Word) (opens : Bool)
    (totalMem : UInt64) (memBin accBin : UInt32) (heading : List Output)
    (started : Mcount.step statics (.start report opens totalMem memBin accBin) =
      .ok (begun, heading)) :
    Steady statics.ncores memBin accBin (quiet n begun) ∧
      ∀ kernel cpuId bin, held kernel cpuId bin begun = 0 := by
  obtain ⟨file, -, zeroed, -⟩ := init_cases report opens totalMem memBin accBin statics begun
    heading started
  have fresh : ∀ kernel, classMaps kernel begun = List.replicate statics.ncores
      (List.replicate (totalMem / memBin.toUInt64).toNat 0) := by
    intro kernel
    rw [zeroed]
    cases kernel <;> exact clear_maps_fresh _ _ _
  constructor
  · refine ⟨guarded_free _ fun _ => rfl, by rw [zeroed]; rfl, by rw [zeroed]; rfl,
      by rw [zeroed]; rfl, fun kernel => ?_, fun vcpu access count storing => by cases storing⟩
    rw [quiet, fresh, List.length_replicate]
  · intro kernel cpuId bin
    rw [held, fresh, cell, List.getElem?_replicate]
    split
    · rw [Option.bind_some, List.getElem?_replicate]
      split <;> rfl
    · rfl

/-- No access is lost in the histograms however the callbacks interleave: at every moment
after a start each vcpu's stores into a bin of a class are what the reports so far list for
it and what the histogram holds, up to wraps of the 32-bit counter. -/
theorem histograms_lose_nothing (statics begun : Statics) (report : Option Word) (opens : Bool)
    (totalMem : UInt64) (memBin accBin : UInt32) (heading : List Output)
    (started : Mcount.step statics (.start report opens totalMem memBin accBin) =
      .ok (begun, heading))
    (events : List (Event n)) (final : State n × Ledger) (lines : List Line)
    (done : run (watch step note) (quiet n begun, empty) events = .ok (final, lines)) :
    Conserved memBin final.1.statics final.2 lines := by
  obtain ⟨steady, zero⟩ := start_zeroed (n := n) statics begun report opens totalMem memBin accBin
    heading started
  have kept := run_history_invariant (watch step note)
    (fun watched past => Steady statics.ncores memBin accBin watched.1 ∧
      Conserved memBin watched.1.statics watched.2 past)
    (fun watched past event next emitted holds taken =>
      ⟨step_steady _ _ _ _ _ event emitted holds.1 ((watch_iff _ _ _ _ _ _).mp taken).1,
        step_conserved _ _ _ watched next event past emitted holds.1 holds.2 taken⟩)
    (quiet n begun, empty) final [] events lines
    ⟨steady, fun kernel cpuId bin => ⟨0, by simp [stored, empty, reported, quiet, zero]⟩⟩ done
  exact kept.2

theorem stopped_within_conserved : ∃ final lines,
    run (watch step note) (quiet 2 everyAccess, empty) stoppedWithin = .ok (final, lines) ∧
      Conserved 0x1000000 final.1.statics final.2 lines :=
  ⟨_, _, rfl, histograms_lose_nothing (installed 2) everyAccess none true 0x2000000 0x1000000 1 _ rfl
    stoppedWithin _ _ rfl⟩

/-! The counters. -/

def carries : Phase → Nat
  | .due _ | .rechecking _ | .printing _ | .printingUser _ | .unlocking _ | .classifying _
  | .loading _ | .storing _ _ => 1
  | _ => 0

def awaits : Phase → Nat
  | .due _ | .rechecking _ | .printing _ => 1
  | _ => 0

def kernelLines (lines : List Line) : Nat :=
  lines.countP fun line => match line with
    | .kernel _ => true
    | _ => false

/-- Every counted access is on its way, I/O, stored, or was dropped behind a stop, and a
report is written or on its way for every `acc_bin` of them. -/
structure Books (accBin : UInt32) (state : State n) (ledger : Ledger) (lines : List Line) :
    Prop where
  counted : ledger.counted = ledger.io + ledger.stored.length + ledger.dropped +
    census carries state.phase
  accCnt : state.statics.accCnt = UInt64.ofNat ledger.counted
  accIoCnt : state.statics.accIoCnt = UInt64.ofNat ledger.io
  dropped : state.statics.cfg.mode ≠ .off → ledger.dropped = 0
  reports : ledger.counted < 2 ^ 64 →
    kernelLines lines + ledger.dropped + census awaits state.phase =
      ledger.counted / accBin.toNat

theorem census_move (weight : Phase → Nat) (state : State n) (vcpu : Fin n) (from_ after : Phase)
    (here : state.phase vcpu = from_) :
    census weight (state.move vcpu after).phase + weight from_ =
      census weight state.phase + weight after := by
  rw [← here]
  exact census_update weight state.phase vcpu after

theorem books_moved (accBin : UInt32) (state next : State n) (vcpu : Fin n) (from_ after : Phase)
    (ledger : Ledger) (past lines : List Line) (books : Books accBin state ledger past)
    (here : state.phase vcpu = from_) (moved : next.phase = (state.move vcpu after).phase)
    (accCnt : next.statics.accCnt = state.statics.accCnt)
    (accIoCnt : next.statics.accIoCnt = state.statics.accIoCnt)
    (mode : next.statics.cfg.mode ≠ .off → state.statics.cfg.mode ≠ .off)
    (carried : carries from_ = carries after) (awaited : awaits from_ = awaits after)
    (silent : kernelLines lines = 0) : Books accBin next ledger (past ++ lines) := by
  have carrying := census_move carries state vcpu from_ after here
  have awaiting := census_move awaits state vcpu from_ after here
  refine ⟨?_, accCnt.trans books.accCnt, accIoCnt.trans books.accIoCnt,
    fun on => books.dropped (mode on), fun small => ?_⟩
  · rw [moved]
    have counted := books.counted
    omega
  · have reports := books.reports small
    rw [moved, kernelLines, List.countP_append, ← kernelLines, ← kernelLines]
    omega

theorem due_next (counted : Nat) (accBin : UInt32) (small : counted + 1 < 2 ^ 64) :
    (UInt64.ofNat counted + 1) % accBin.toUInt64 = 0 ↔ accBin.toNat ∣ counted + 1 := by
  have sum : (UInt64.ofNat counted + 1).toNat = counted + 1 := by
    have below : counted < 2 ^ 64 := by omega
    rw [UInt64.toNat_add, UInt64.toNat_ofNat_of_lt' below]
    exact Nat.mod_eq_of_lt small
  rw [← UInt64.toNat_inj, UInt64.toNat_mod, sum, UInt32.toNat_toUInt64, Nat.dvd_iff_mod_eq_zero]
  rfl

theorem advanced_books (accBin : UInt32) (vcpu : Fin n) (state next : State n) (phase : Phase)
    (ledger : Ledger) (past lines : List Line) (period : state.statics.cfg.accBin = accBin)
    (books : Books accBin state ledger past) (here : state.phase vcpu = phase)
    (advanced : Advanced vcpu state phase next lines) :
    Books accBin next (noteAdvance vcpu state ledger phase) (past ++ lines) := by
  have counted := books.counted
  cases advanced with
  | counted access accCnt positive next =>
      let after := if accCnt % state.statics.cfg.accBin.toUInt64 = 0 then Phase.due access
        else .classifying access
      have carrying : census carries (state.move vcpu after).phase =
          census carries state.phase + carries after := census_move carries state vcpu _ after here
      have awaiting : census awaits (state.move vcpu after).phase =
          census awaits state.phase + awaits after := census_move awaits state vcpu _ after here
      have carried : carries after = 1 := by
        simp only [after]
        split <;> rfl
      rw [carried] at carrying
      refine ⟨?_, ?_, books.accIoCnt, books.dropped, fun small => ?_⟩
      · change ledger.counted + 1 = ledger.io + ledger.stored.length + ledger.dropped +
          census carries (state.move vcpu after).phase
        omega
      · simp only [noteAdvance, State.set, next, books.accCnt, UInt64.ofNat_add]
        rfl
      · change kernelLines (past ++ []) + ledger.dropped +
          census awaits (state.move vcpu after).phase = (ledger.counted + 1) / accBin.toNat
        change ledger.counted + 1 < 2 ^ 64 at small
        have reports := books.reports (by omega)
        have due := due_next ledger.counted accBin small
        rw [← books.accCnt, ← next, ← period] at due
        have awaited : awaits after = if accBin.toNat ∣ ledger.counted + 1 then 1 else 0 := by
          simp only [after, ← period, ← due]
          split <;> rfl
        rw [awaited] at awaiting
        rw [List.append_nil, Nat.succ_div]
        omega
  | dropped access flushMtx off freed =>
      have carrying := census_move carries state vcpu _ .outside here
      have awaiting := census_move awaits state vcpu _ .outside here
      simp only [carries, awaits] at carrying awaiting
      simp only [noteAdvance, if_pos off, List.append_nil]
      refine ⟨?_, books.accCnt, books.accIoCnt, fun on => absurd off on, fun small => ?_⟩
      · change ledger.counted = ledger.io + ledger.stored.length + (ledger.dropped + 1) +
          census carries (state.toThreads.move vcpu .outside).phase
        omega
      · change kernelLines past + (ledger.dropped + 1) +
          census awaits (state.toThreads.move vcpu .outside).phase = ledger.counted / accBin.toNat
        have reports := books.reports small
        omega
  | kernel access rows maps file open_ flushed =>
      have carrying := census_move carries state vcpu _ (.printingUser access) here
      have awaiting := census_move awaits state vcpu _ (.printingUser access) here
      simp only [carries, awaits] at carrying awaiting
      refine ⟨?_, books.accCnt, books.accIoCnt, books.dropped, fun small => ?_⟩
      · change ledger.counted = ledger.io + ledger.stored.length + ledger.dropped +
          census carries (state.toThreads.move vcpu (.printingUser access)).phase
        omega
      · change kernelLines (past ++ [.kernel rows]) + ledger.dropped +
          census awaits (state.toThreads.move vcpu (.printingUser access)).phase =
            ledger.counted / accBin.toNat
        have one : kernelLines (past ++ [.kernel rows]) = kernelLines past + 1 := by
          simp [kernelLines]
        have reports := books.reports small
        omega
  | io access isIo =>
      have carrying := census_move carries state vcpu _ .outside here
      have awaiting := census_move awaits state vcpu _ .outside here
      simp only [carries, awaits] at carrying awaiting
      simp only [noteAdvance, if_pos isIo, List.append_nil]
      refine ⟨?_, books.accCnt, ?_, books.dropped, fun small => ?_⟩
      · change ledger.counted = ledger.io + 1 + ledger.stored.length + ledger.dropped +
          census carries (state.toThreads.move vcpu .outside).phase
        omega
      · simp only [State.set, books.accIoCnt, UInt64.ofNat_add]
        rfl
      · change kernelLines past + ledger.dropped +
          census awaits (state.toThreads.move vcpu .outside).phase = ledger.counted / accBin.toNat
        have reports := books.reports small
        omega
  | stored access count =>
      have carrying := census_move carries state vcpu _ .leaving here
      have awaiting := census_move awaits state vcpu _ .leaving here
      simp only [carries, awaits] at carrying awaiting
      simp only [noteAdvance, List.append_nil]
      refine ⟨?_, ?_, ?_, ?_, fun small => ?_⟩
      · change ledger.counted = ledger.io + (ledger.stored ++ [(vcpu.val, access)]).length +
          ledger.dropped + census carries (state.toThreads.move vcpu .leaving).phase
        rw [List.length_append, List.length_singleton]
        omega
      · rw [← books.accCnt]
        cases access.isKernel <;> rfl
      · rw [← books.accIoCnt]
        cases access.isKernel <;> rfl
      · intro on
        apply books.dropped
        simpa [State.set] using on
      · change kernelLines past + ledger.dropped +
          census awaits (state.toThreads.move vcpu .leaving).phase = ledger.counted / accBin.toNat
        have reports := books.reports small
        omega
  | user access rows maps file open_ flushed =>
      exact books_moved accBin state _ vcpu _ (.unlocking access) ledger past _ books here rfl rfl rfl
        id rfl rfl rfl
  | passed access on =>
      simp only [noteAdvance, if_neg on]
      exact books_moved accBin state _ vcpu _ _ ledger past _ books here rfl rfl rfl id rfl rfl rfl
  | shared access flushMtx memory taken =>
      simp only [noteAdvance, memory]
      exact books_moved accBin state _ vcpu _ _ ledger past _ books here rfl rfl rfl id rfl rfl rfl
  | stopped =>
      exact books_moved accBin state _ vcpu _ _ ledger past _ books here rfl rfl rfl id
        (by split <;> rfl) (by split <;> rfl) rfl
  | compared =>
      exact books_moved accBin state _ vcpu _ _ ledger past _ books here rfl rfl rfl id
        (by split <;> rfl) (by split <;> rfl) rfl
  | _ => exact books_moved accBin state _ vcpu _ _ ledger past _ books here rfl rfl rfl id rfl rfl rfl

theorem step_books (accBin : UInt32) (before after : State n × Ledger) (event : Event n)
    (past lines : List Line) (period : before.1.statics.cfg.accBin = accBin)
    (books : Books accBin before.1 before.2 past)
    (taken : watch step note before event = .ok (after, lines)) :
    Books accBin after.1 after.2 (past ++ lines) := by
  obtain ⟨stepped, noted⟩ := (watch_iff _ _ _ _ _ _).mp taken
  rw [noted]
  rcases step_cases before.1 after.1 event lines stepped with
    ⟨vcpu, access, rfl, outside, rfl, ⟨-, same⟩ | ⟨-, same⟩⟩ | ⟨vcpu, rfl, outside, rfl, same⟩ |
      ⟨vcpu, rfl, advanced⟩
  · rw [same, List.append_nil]
    exact books
  · rw [same]
    exact books_moved accBin before.1 _ vcpu _ _ before.2 past [] books outside rfl rfl rfl id rfl
      rfl rfl
  · rw [same]
    exact books_moved accBin before.1 _ vcpu _ .stopping before.2 past [] books outside rfl rfl rfl
      (fun on => absurd rfl on) rfl rfl rfl
  · exact advanced_books accBin vcpu before.1 after.1 _ before.2 past lines period books rfl advanced

/-- However the callbacks interleave after a start, the counters count every access whose
callback has come to `++acc_cnt`, each of those is stored, I/O, on its way or, behind a
stop only, dropped, and there is a report, written or on its way, for each `acc_bin` of
them. -/
theorem accesses_accounted (statics begun : Statics) (report : Option Word) (opens : Bool)
    (totalMem : UInt64) (memBin accBin : UInt32) (heading : List Output)
    (started : Mcount.step statics (.start report opens totalMem memBin accBin) =
      .ok (begun, heading))
    (events : List (Event n)) (final : State n × Ledger) (lines : List Line)
    (done : run (watch step note) (quiet n begun, empty) events = .ok (final, lines)) :
    Books accBin final.1 final.2 lines := by
  obtain ⟨steady, -⟩ := start_zeroed (n := n) statics begun report opens totalMem memBin accBin
    heading started
  obtain ⟨file, -, zeroed, -⟩ := init_cases report opens totalMem memBin accBin statics begun
    heading started
  have nobody : ∀ weight : Phase → Nat, weight .outside = 0 →
      census weight (quiet n begun).phase = 0 :=
    fun weight outside => census_nobody weight _ fun _ => outside
  have start : Books accBin (quiet n begun) empty [] := by
    refine ⟨?_, by rw [quiet, zeroed]; rfl, by rw [quiet, zeroed]; rfl, fun _ => rfl, fun _ => ?_⟩
    · rw [nobody carries rfl]
      rfl
    · rw [nobody awaits rfl]
      exact (Nat.zero_div _).symm
  have kept := run_history_invariant (watch step note)
    (fun watched past => Steady statics.ncores memBin accBin watched.1 ∧
      Books accBin watched.1 watched.2 past)
    (fun watched past event next emitted holds taken =>
      ⟨step_steady _ _ _ _ _ event emitted holds.1 ((watch_iff _ _ _ _ _ _).mp taken).1,
        step_books accBin watched next event past emitted holds.1.period holds.2 taken⟩)
    (quiet n begun, empty) final [] events lines ⟨steady, start⟩ done
  exact kept.2

theorem stopped_within_accounted : ∃ final lines,
    run (watch step note) (quiet 2 everyAccess, empty) stoppedWithin = .ok (final, lines) ∧
      final.2.counted = 1 ∧ Books 1 final.1 final.2 lines :=
  ⟨_, _, rfl, rfl, accesses_accounted (installed 2) everyAccess none true 0x2000000 0x1000000 1 _ rfl
    stoppedWithin _ _ rfl⟩

end Hypersh.Balance
