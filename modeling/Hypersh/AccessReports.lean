import Mathlib.Data.List.Basic
import Hypersh.Transduction
import Hypersh.Windows
import Hypersh.Getopt
import Hypersh.Commands
import Hypersh.Mcount

/-!
What mcount's periodic reports say. The maps count the accesses of the window that
is still open; a report is due at every multiple of `acc_bin` and closes the window
before the access that made it due.
-/
namespace Hypersh.AccessReports
open Getopt Mcount Transduction Windows

abbrev Logged := Nat × Access

def Logged.event (logged : Logged) : Event := .access logged.1 logged.2

def key (memBin : UInt32) (kernel : Bool) (logged : Logged) : Option (Nat × Nat) :=
  if !logged.2.isIo && logged.2.isKernel == kernel then
    some (logged.1, binOf memBin logged.2.paddr)
  else none

def keys (memBin : UInt32) (kernel : Bool) (window : List Logged) : List (Nat × Nat) :=
  window.filterMap (key memBin kernel)

/-- The rows of a report: for every vcpu the bins with accesses of the class, and how
many the window has. -/
def classRows (cores bins : Nat) (memBin : UInt32) (kernel : Bool) (window : List Logged) :
    List Row :=
  (List.range cores).map fun cpuId => (List.range bins).filterMap fun bin =>
    let count := window.countP fun logged => key memBin kernel logged == some (cpuId, bin)
    if count = 0 then none else some (bin, count)

def windowReport (cores bins : Nat) (memBin : UInt32) (window : List Logged) : Output :=
  .counts (classRows cores bins memBin true window) (classRows cores bins memBin false window)

theorem class_rows_listed (cores bins : Nat) (memBin : UInt32) (kernel : Bool)
    (window : List Logged) :
    classRows cores bins memBin kernel window =
      (table cores bins (keys memBin kernel window)).map listed := by
  rw [classRows, table, List.map_map]
  apply List.map_congr_left
  intro cpuId _
  rw [Function.comp_apply, listed_row]
  simp only [keys, List.count_filterMap]

/-! Maps as tables. -/

def natMap (row : List UInt32) : List Nat := row.map UInt32.toNat

def natMaps (maps : Maps) : Table := maps.map natMap

theorem print_listed (row : List UInt32) : printMap row = listed (natMap row) := by
  have nonzero : ∀ count : UInt32, (count != 0) = (count.toNat != 0) := by
    intro count
    rw [Bool.eq_iff_iff, bne_iff_ne, bne_iff_ne, ne_eq, ne_eq, ← UInt32.toNat_inj]
    rfl
  rw [printMap, listed, natMap, List.zipIdx_map, List.filter_map, List.map_map]
  congr 1
  apply List.filter_congr
  intro entry _
  exact nonzero entry.1

theorem nat_maps_zeroed (cores bins : Nat) :
    natMaps (List.replicate cores (List.replicate bins 0)) = table cores bins [] := by
  simp [natMaps, natMap, table_nil]

structure Holding (cores : Nat) (totalMem : UInt64) (memBin : UInt32) (held : List Logged)
    (statics : Statics) : Prop where
  sized : Sized cores totalMem memBin statics
  kmaps : natMaps statics.kmaps =
    table cores (binOf memBin totalMem) (keys memBin true held)
  umaps : natMaps statics.umaps =
    table cores (binOf memBin totalMem) (keys memBin false held)

variable {cores : Nat} {totalMem : UInt64} {memBin : UInt32}

theorem flush_shaped (bins : Nat) (maps : Maps) (window : List (Nat × Nat))
    (shaped : Shaped cores bins maps) (short : bins < 2 ^ 32)
    (counted : natMaps maps = table cores bins window) :
    flush cores maps = .ok ((table cores bins window).map listed,
      List.replicate cores (List.replicate bins 0)) := by
  have whole : maps.any (fun row => decide (2 ^ 32 ≤ row.length)) = false := by
    rw [List.any_eq_false]
    intro row member
    rw [decide_eq_true_eq, shaped.rows row member]
    omega
  have printed : maps.map printMap = (table cores bins window).map listed := by
    rw [← counted, natMaps, List.map_map]
    exact List.map_congr_left fun row _ => print_listed row
  have ran := flush_all maps
  rw [shaped.cores, whole, if_neg Bool.false_ne_true, printed,
    shaped_zeroed cores bins maps shaped] at ran
  exact ran

theorem report_holding (held : List Logged) (statics : Statics)
    (holding : Holding cores totalMem memBin held statics)
    (short : binOf memBin totalMem < 2 ^ 32) (open_ : statics.cfg.report.isSome = true) :
    ∃ kmaps umaps,
      reportCounts statics = .ok ({ statics with kmaps := kmaps, umaps := umaps },
        [windowReport cores (binOf memBin totalMem) memBin held]) ∧
      Holding cores totalMem memBin [] { statics with kmaps := kmaps, umaps := umaps } := by
  rcases Option.isSome_iff_exists.mp open_ with ⟨file, present⟩
  have kernel := flush_shaped _ _ _ holding.sized.kmaps short holding.kmaps
  have user := flush_shaped _ _ _ holding.sized.umaps short holding.umaps
  refine ⟨List.replicate cores (List.replicate (binOf memBin totalMem) 0),
    List.replicate cores (List.replicate (binOf memBin totalMem) 0), ?_, ?_⟩
  · simp only [reportCounts, present, holding.sized.cores, kernel, user, windowReport,
      class_rows_listed, binOf]
  · refine ⟨⟨holding.sized.cores, holding.sized.bin, shaped_fresh _ _, shaped_fresh _ _⟩, ?_, ?_⟩
    · exact nat_maps_zeroed _ _
    · exact nat_maps_zeroed _ _

theorem report_short (statics next : Statics) (lines : List Output)
    (sized : Sized cores totalMem memBin statics) (some_ : 0 < cores)
    (done : reportCounts statics = .ok (next, lines)) : binOf memBin totalMem < 2 ^ 32 := by
  obtain ⟨printed, cleared, _, _, kernel, -⟩ := report_cases statics next lines done
  have first : 0 < statics.kmaps.length := by
    rw [sized.kmaps.cores]
    exact some_
  rw [sized.cores, ← sized.kmaps.cores, flush_all] at kernel
  by_contra long
  have stuck : statics.kmaps.any (fun row => decide (2 ^ 32 ≤ row.length)) = true := by
    apply List.any_eq_true.mpr
    refine ⟨statics.kmaps.get ⟨0, first⟩, List.get_mem _ _, ?_⟩
    rw [sized.kmaps.rows _ (List.get_mem _ _)]
    exact decide_eq_true (Nat.le_of_not_lt long)
  rw [if_pos stuck] at kernel
  contradiction

theorem increment_table (bins cpuId bin : Nat) (maps : Maps) (window : List (Nat × Nat))
    (shaped : Shaped cores bins maps) (counted : natMaps maps = table cores bins window)
    (core : cpuId < cores) (inside : bin < bins) (room : window.length + 1 < 2 ^ 32) :
    ∃ next, increment cpuId bin maps = .ok next ∧
      natMaps next = table cores bins (window ++ [(cpuId, bin)]) := by
  have present : ∃ row, maps[cpuId]? = some row :=
    ⟨_, List.getElem?_eq_getElem (by rw [shaped.cores]; exact core)⟩
  rcases present with ⟨row, present⟩
  have length : row.length = bins := shaped.rows row (List.mem_of_getElem? present)
  refine ⟨maps.modify cpuId fun counts => counts.modify bin (· + 1), ?_, ?_⟩
  · rw [increment, present]
    exact if_pos (by rw [length]; exact inside)
  · rw [table_append, ← counted, bump, natMaps, natMaps]
    apply map_modify
    intro found same
    rw [present] at same
    cases same
    apply map_modify
    intro count at_
    have cell : count.toNat = window.count (cpuId, bin) := by
      have looked := congrArg (fun cells => (cells[cpuId]?).bind (·[bin]?)) counted
      simpa [natMaps, natMap, table, present, at_, core, inside] using looked
    have few := List.count_le_length (a := (cpuId, bin)) (l := window)
    rw [UInt32.toNat_add, cell]
    exact Nat.mod_eq_of_lt (by simp; omega)

/-- An access that the emulator can make: of a vcpu it has and, unless it is I/O, at an
offset whose bin exists. -/
structure Countable (cores : Nat) (totalMem : UInt64) (memBin : UInt32) (logged : Logged) :
    Prop where
  core : logged.1 < cores
  bin : logged.2.isIo = false → binOf memBin logged.2.paddr < binOf memBin totalMem

theorem keys_append (kernel : Bool) (window : List Logged) (logged : Logged) :
    keys memBin kernel (window ++ [logged]) =
      keys memBin kernel window ++ (key memBin kernel logged).toList := by
  cases absent : key memBin kernel logged with
  | none => simp [keys, absent]
  | some cell => simp [keys, absent]

theorem keys_mine (memBin : UInt32) (held : List Logged) (logged : Logged)
    (io : logged.2.isIo = false) :
    keys memBin logged.2.isKernel (held ++ [logged]) =
      keys memBin logged.2.isKernel held ++ [(logged.1, binOf memBin logged.2.paddr)] := by
  rw [keys_append, key, io]
  simp

theorem keys_elsewhere (memBin : UInt32) (kernel : Bool) (held : List Logged) (logged : Logged)
    (other : logged.2.isIo = true ∨ logged.2.isKernel ≠ kernel) :
    keys memBin kernel (held ++ [logged]) = keys memBin kernel held := by
  have absent : key memBin kernel logged = none := by
    rcases other with io | apart
    · simp [key, io]
    · simp [key, apart]
  rw [keys_append, absent]
  exact List.append_nil _

theorem keys_length (memBin : UInt32) (kernel : Bool) (window : List Logged) :
    (keys memBin kernel window).length ≤ window.length :=
  List.length_filterMap_le _ _

theorem io_holding (held : List Logged) (statics : Statics) (logged : Logged)
    (holding : Holding cores totalMem memBin held statics) (io : logged.2.isIo = true) :
    Holding cores totalMem memBin (held ++ [logged])
      { statics with accIoCnt := statics.accIoCnt + 1 } := by
  have elsewhere := fun kernel => keys_elsewhere memBin kernel held logged (Or.inl io)
  constructor
  · exact ⟨holding.sized.cores, holding.sized.bin, holding.sized.kmaps, holding.sized.umaps⟩
  · rw [elsewhere]
    exact holding.kmaps
  · rw [elsewhere]
    exact holding.umaps

theorem count_holding (held : List Logged) (statics : Statics) (logged : Logged)
    (holding : Holding cores totalMem memBin held statics)
    (countable : Countable cores totalMem memBin logged) (divisible : memBin ≠ 0)
    (room : held.length + 1 < 2 ^ 32) :
    ∃ next, countAccess logged.1 logged.2 statics = .ok next ∧
      Holding cores totalMem memBin (held ++ [logged]) next ∧
      next.cfg = statics.cfg ∧ next.accCnt = statics.accCnt ∧
      next.accIoCnt = statics.accIoCnt + if logged.2.isIo then 1 else 0 := by
  have few : ∀ kernel, (keys memBin kernel held).length + 1 < 2 ^ 32 := by
    intro kernel
    have below := keys_length memBin kernel held
    omega
  rw [countAccess, holding.sized.bin]
  cases io : logged.2.isIo with
  | true =>
      have kept := io_holding held statics logged holding io
      exact ⟨{ statics with accIoCnt := statics.accIoCnt + 1 }, rfl, kept, rfl, rfl, rfl⟩
  | false =>
      have inside := countable.bin io
      rw [if_neg Bool.false_ne_true, if_neg divisible]
      have mine := keys_mine memBin held logged io
      have other := fun kernel apart => keys_elsewhere memBin kernel held logged (Or.inr apart)
      cases kernel : logged.2.isKernel with
      | true =>
          rw [kernel] at mine other
          rcases increment_table _ logged.1 _ _ _ holding.sized.kmaps holding.kmaps countable.core
            inside (few true) with ⟨maps, done, counted⟩
          refine ⟨{ statics with kmaps := maps }, ?_, ⟨⟨holding.sized.cores, holding.sized.bin,
            shaped_increment _ _ _ _ _ _ holding.sized.kmaps done, holding.sized.umaps⟩, ?_, ?_⟩,
            rfl, rfl, ?_⟩
          · rw [if_pos rfl, done]
            rfl
          · rw [mine]
            exact counted
          · rw [other false (by decide)]
            exact holding.umaps
          · exact (UInt64.add_zero _).symm
      | false =>
          rw [kernel] at mine other
          rcases increment_table _ logged.1 _ _ _ holding.sized.umaps holding.umaps countable.core
            inside (few false) with ⟨maps, done, counted⟩
          refine ⟨{ statics with umaps := maps }, ?_, ⟨⟨holding.sized.cores, holding.sized.bin,
            holding.sized.kmaps, shaped_increment _ _ _ _ _ _ holding.sized.umaps done⟩, ?_, ?_⟩,
            rfl, rfl, ?_⟩
          · rw [if_neg Bool.false_ne_true, done]
            rfl
          · rw [other true (by decide)]
            exact holding.kmaps
          · rw [mine]
            exact counted
          · exact (UInt64.add_zero _).symm

/-! Runs of accesses. -/

structure Counting (cores : Nat) (totalMem : UInt64) (memBin accBin : UInt32)
    (past : List Logged) (statics : Statics) : Prop where
  mode : statics.cfg.mode = .on
  report : statics.cfg.report.isSome = true
  period : statics.cfg.accBin = accBin
  total : statics.accCnt.toNat = past.length
  io : statics.accIoCnt.toNat = past.countP fun logged => logged.2.isIo
  holding : Holding cores totalMem memBin (remainder accBin.toNat past) statics

variable {accBin : UInt32}

theorem access_due (past : List Logged) (statics : Statics)
    (counting : Counting cores totalMem memBin accBin past statics)
    (room : past.length + 1 < 2 ^ 64) :
    (statics.accCnt + 1) % accBin.toUInt64 = 0 ↔ accBin.toNat ∣ past.length + 1 := by
  rw [← UInt64.toNat_inj, UInt64.toNat_mod, UInt64.toNat_add, counting.total,
    Nat.mod_eq_of_lt (show past.length + UInt64.toNat 1 < 2 ^ 64 from room)]
  exact (Nat.dvd_iff_mod_eq_zero ..).symm

theorem counted_holding (past : List Logged) (statics : Statics)
    (counting : Counting cores totalMem memBin accBin past statics) :
    Holding cores totalMem memBin (remainder accBin.toNat past)
      { statics with accCnt := statics.accCnt + 1 } :=
  ⟨⟨counting.holding.sized.cores, counting.holding.sized.bin, counting.holding.sized.kmaps,
    counting.holding.sized.umaps⟩, counting.holding.kmaps, counting.holding.umaps⟩

theorem counting_on (past : List Logged) (statics : Statics)
    (counting : Counting cores totalMem memBin accBin past statics) :
    statics.cfg.mode ≠ .off := by
  rw [counting.mode]
  exact fun same => by cases same

theorem access_short (past : List Logged) (statics : Statics) (logged : Logged)
    (result : Statics × List Output)
    (counting : Counting cores totalMem memBin accBin past statics)
    (countable : Countable cores totalMem memBin logged) (positive : accBin ≠ 0)
    (room : past.length + 1 < 2 ^ 64)
    (done : hypercallMcountCb logged.1 logged.2 statics = .ok result)
    (reported : accBin.toNat ∣ past.length + 1) : binOf memBin totalMem < 2 ^ 32 := by
  rw [hypercallMcountCb, if_neg (counting_on past statics counting), counting.period,
    if_neg positive] at done
  simp only [if_pos ((access_due past statics counting room).mpr reported)] at done
  split at done
  · contradiction
  · rename_i next lines written
    exact report_short _ next lines (counted_holding past statics counting).sized
      (Nat.zero_lt_of_lt countable.core) written

theorem counting_next (past : List Logged) (statics next : Statics) (logged : Logged)
    (counting : Counting cores totalMem memBin accBin past statics)
    (room : past.length + 1 < 2 ^ 64) (cfg : next.cfg = statics.cfg)
    (total : next.accCnt = statics.accCnt + 1)
    (io : next.accIoCnt = statics.accIoCnt + if logged.2.isIo then 1 else 0)
    (holding : Holding cores totalMem memBin (remainder accBin.toNat (past ++ [logged])) next) :
    Counting cores totalMem memBin accBin (past ++ [logged]) next where
  mode := by rw [cfg]; exact counting.mode
  report := by rw [cfg]; exact counting.report
  period := by rw [cfg]; exact counting.period
  total := by
    rw [total, UInt64.toNat_add, counting.total, List.length_append, List.length_singleton]
    exact Nat.mod_eq_of_lt room
  io := by
    have few : past.countP (fun logged => logged.2.isIo) ≤ past.length := List.countP_le_length
    rw [io, List.countP_append, List.countP_singleton, UInt64.toNat_add, counting.io]
    cases logged.2.isIo with
    | true => exact Nat.mod_eq_of_lt (by simp; omega)
    | false => exact Nat.mod_eq_of_lt (by simp; omega)
  holding := holding

theorem access_counting (past : List Logged) (statics : Statics) (logged : Logged)
    (counting : Counting cores totalMem memBin accBin past statics)
    (countable : Countable cores totalMem memBin logged) (divisible : memBin ≠ 0)
    (positive : accBin ≠ 0)
    (short : accBin.toNat ∣ past.length + 1 → binOf memBin totalMem < 2 ^ 32)
    (room : past.length + 1 < 2 ^ 64) :
    ∃ next lines, hypercallMcountCb logged.1 logged.2 statics = .ok (next, lines) ∧
      Counting cores totalMem memBin accBin (past ++ [logged]) next ∧
      (windows accBin.toNat (past ++ [logged])).map
          (windowReport cores (binOf memBin totalMem) memBin) =
        (windows accBin.toNat past).map (windowReport cores (binOf memBin totalMem) memBin) ++
          lines := by
  have some_ : 0 < accBin.toNat := Nat.pos_of_ne_zero fun zero =>
    positive (UInt32.toNat_inj.mp zero)
  have below : accBin.toNat < 2 ^ 32 := accBin.toNat_lt
  have due := access_due past statics counting room
  have held := counted_holding past statics counting
  rw [hypercallMcountCb, if_neg (counting_on past statics counting), counting.period, if_neg positive]
  by_cases reported : accBin.toNat ∣ past.length + 1
  · rcases report_holding _ _ held (short reported) counting.report with ⟨kmaps, umaps, done, fresh⟩
    rcases count_holding [] _ logged fresh countable divisible (by decide) with
      ⟨final, counted, holding, cfg, cnt, ioCnt⟩
    refine ⟨final, [windowReport cores (binOf memBin totalMem) memBin
      (remainder accBin.toNat past)], ?_, ?_, ?_⟩
    · simp only [if_pos (due.mpr reported), done, counted]
      rfl
    · rw [List.nil_append, ← remainder_cut _ _ _ reported] at holding
      exact counting_next past statics final logged counting room cfg cnt ioCnt holding
    · rw [windows_cut _ _ _ reported, List.map_append, List.map_singleton]
  · have space := remainder_room accBin.toNat past some_ reported
    rcases count_holding _ _ logged held countable divisible (by omega) with
      ⟨final, counted, holding, cfg, cnt, ioCnt⟩
    refine ⟨final, [], ?_, ?_, ?_⟩
    · simp only [if_neg fun now => reported (due.mp now), counted]
      rfl
    · rw [← remainder_held _ _ _ reported] at holding
      exact counting_next past statics final logged counting room cfg cnt ioCnt holding
    · rw [windows_held _ _ _ reported, List.append_nil]

/-- A run counts right as long as its reports return, which they do when the maps are
short enough. -/
theorem run_counting (past later : List Logged) (statics : Statics)
    (counting : Counting cores totalMem memBin accBin past statics)
    (countable : ∀ logged ∈ later, Countable cores totalMem memBin logged)
    (divisible : memBin ≠ 0) (positive : accBin ≠ 0)
    (returns : binOf memBin totalMem < 2 ^ 32 ∨
      ∃ result, run step statics (later.map Logged.event) = .ok result)
    (room : (past ++ later).length < 2 ^ 64) :
    ∃ final lines, run step statics (later.map Logged.event) = .ok (final, lines) ∧
      Counting cores totalMem memBin accBin (past ++ later) final ∧
      (windows accBin.toNat (past ++ later)).map
          (windowReport cores (binOf memBin totalMem) memBin) =
        (windows accBin.toNat past).map (windowReport cores (binOf memBin totalMem) memBin) ++
          lines := by
  induction later generalizing past statics with
  | nil =>
      refine ⟨statics, [], rfl, ?_, ?_⟩
      · rw [List.append_nil]
        exact counting
      · rw [List.append_nil, List.append_nil]
  | cons logged rest ih =>
      rw [List.length_append, List.length_cons] at room
      have here := countable logged (List.mem_cons_self ..)
      have short : accBin.toNat ∣ past.length + 1 → binOf memBin totalMem < 2 ^ 32 := by
        intro due
        rcases returns with short | ⟨result, ran⟩
        · exact short
        · rcases (run_cons_iff _ _ _ _ _ _).mp ran with ⟨reached, first, _, taken, -, -⟩
          exact access_short past statics logged _ counting here positive (by omega) taken due
      rcases access_counting past statics logged counting here divisible positive short (by omega)
        with ⟨next, lines, done, counted, reported⟩
      have rest_returns : binOf memBin totalMem < 2 ^ 32 ∨
          ∃ result, run step next (rest.map Logged.event) = .ok result := by
        apply returns.imp_right
        rintro ⟨result, ran⟩
        rcases (run_cons_iff _ _ _ _ _ _).mp ran with ⟨reached, first, later, taken, tail, -⟩
        have same := Except.ok.inj (done.symm.trans taken)
        rw [(Prod.mk.inj same).1]
        exact ⟨_, tail⟩
      have appended : past ++ logged :: rest = past ++ [logged] ++ rest :=
        List.append_cons past logged rest
      rcases ih (past ++ [logged]) next counted
        (fun other member => countable other (List.mem_cons_of_mem logged member)) rest_returns
        (by rw [← appended, List.length_append, List.length_cons]; exact room) with
        ⟨final, later, ran, kept, emitted⟩
      refine ⟨final, lines ++ later, ?_, by rw [appended]; exact kept, ?_⟩
      · exact (run_cons_iff _ _ _ _ _ _).mpr ⟨next, lines, later, done, ran, rfl⟩
      · rw [appended, emitted, reported, List.append_assoc]

/-! What is accepted as a start. -/

theorem read_divisible (options : Commands.McountOptions) (found : Found)
    (divisible : 2 ^ 20 ∣ options.memBin.toNat) : 2 ^ 20 ∣ (options.read found).memBin.toNat := by
  unfold Commands.McountOptions.read
  split
  · dsimp only
    rw [UInt64.toNat_toUInt32, UInt64.toNat_shiftLeft, Nat.shiftLeft_eq]
    exact (Nat.dvd_mod_iff (by decide)).mpr ((Nat.dvd_mod_iff (by decide)).mpr (Nat.dvd_mul_left ..))
  all_goals exact divisible

theorem start_divisible (argv : List Word) (optind : Nat) (options : Commands.McountOptions)
    (accepted : (Commands.mcountControl argv optind).1.executed = .mcountStart options) :
    2 ^ 20 ∣ options.memBin.toNat := by
  have folded : ∀ (found : List Found) (before : Commands.McountOptions),
      2 ^ 20 ∣ before.memBin.toNat →
        2 ^ 20 ∣ (found.foldl Commands.McountOptions.read before).memBin.toNat := by
    intro found
    induction found with
    | nil => exact fun _ divisible => divisible
    | cons first rest ih => exact fun before divisible => ih _ (read_divisible before first divisible)
  rw [Commands.mcount_start_options argv optind options accepted]
  exact folded _ Commands.mcountDefaults (by decide)

/-- x86-64 has physical addresses of at most 52 bits. -/
theorem ram_bins (totalMem : UInt64) (addressable : totalMem.toNat < 2 ^ 52) (memBin : UInt32)
    (positive : memBin ≠ 0) (divisible : 2 ^ 20 ∣ memBin.toNat) :
    binOf memBin totalMem < 2 ^ 32 := by
  have some_ : 0 < memBin.toNat := Nat.pos_of_ne_zero fun zero =>
    positive (UInt32.toNat_inj.mp zero)
  have large : 2 ^ 20 ≤ memBin.toNat := Nat.le_of_dvd some_ divisible
  rw [binOf, UInt64.toNat_div, UInt32.toNat_toUInt64]
  apply (Nat.div_lt_iff_lt_mul some_).mpr
  calc totalMem.toNat < 2 ^ 32 * 2 ^ 20 := addressable
    _ ≤ 2 ^ 32 * memBin.toNat := Nat.mul_le_mul_left _ large

theorem start_counting (report : Option Word) (opens : Bool) (statics begun : Statics)
    (lines : List Output) (same : statics.ncores = cores)
    (started : hypercallMcountInit report opens totalMem memBin accBin statics =
      .ok (begun, lines)) :
    Counting cores totalMem memBin accBin [] begun := by
  have sized := (start_sized report opens accBin statics begun lines started).1
  obtain ⟨file, -, begins, -⟩ := init_cases report opens totalMem memBin accBin statics begun lines
    started
  rw [clear_maps_fresh, clear_maps_fresh, same] at begins
  obtain rfl := begins
  refine ⟨rfl, rfl, rfl, rfl, rfl, same ▸ sized, ?_, ?_⟩
  · rw [remainder_nil]
    exact nat_maps_zeroed _ _
  · rw [remainder_nil]
    exact nat_maps_zeroed _ _

/-! Conservation. -/

def Output.reported : Output → Nat
  | .counts kernel user => listedSum kernel + listedSum user
  | _ => 0

theorem window_sum (window : List Logged)
    (countable : ∀ logged ∈ window, logged.2.isIo = false → Countable cores totalMem memBin logged) :
    window.length = window.countP (fun logged => logged.2.isIo) +
      (tableSum (table cores (binOf memBin totalMem) (keys memBin true window)) +
        tableSum (table cores (binOf memBin totalMem) (keys memBin false window))) := by
  have inside : ∀ kernel, ∀ cell ∈ keys memBin kernel window,
      cell.1 < cores ∧ cell.2 < binOf memBin totalMem := by
    intro kernel cell member
    rcases List.mem_filterMap.mp member with ⟨logged, present, here⟩
    rw [key] at here
    split at here
    · rename_i class_
      cases here
      rw [Bool.and_eq_true, Bool.not_eq_true'] at class_
      have valid := countable logged present class_.1
      exact ⟨valid.core, valid.bin class_.1⟩
    · contradiction
  rw [table_sum _ _ _ (inside true), table_sum _ _ _ (inside false)]
  clear inside countable
  induction window with
  | nil => rfl
  | cons logged rest ih =>
      have one : ∀ kernel, (keys memBin kernel (logged :: rest)).length =
          (keys memBin kernel rest).length +
            if !logged.2.isIo && logged.2.isKernel == kernel then 1 else 0 := by
        intro kernel
        rw [keys, List.filterMap_cons, key]
        split
        · rename_i absent
          rw [if_neg (by simpa using absent)]
          rfl
        · rename_i cell present
          rw [Option.ite_none_right_eq_some] at present
          rw [if_pos present.1]
          rfl
      rw [List.length_cons, ih, List.countP_cons, one, one]
      cases logged.2.isIo <;> cases logged.2.isKernel <;> simp <;> omega

theorem windows_sum (parts : List (List Logged))
    (countable : ∀ logged ∈ parts.flatten, Countable cores totalMem memBin logged) :
    parts.flatten.length = parts.flatten.countP (fun logged => logged.2.isIo) +
      ((parts.map (windowReport cores (binOf memBin totalMem) memBin)).map Output.reported).sum := by
  induction parts with
  | nil => rfl
  | cons window rest ih =>
      have first := window_sum window fun logged member _ =>
        countable logged (List.mem_append_left _ member)
      have later := ih fun logged member => countable logged (List.mem_append_right _ member)
      rw [List.flatten_cons, List.length_append, List.countP_append, List.map_cons, List.map_cons,
        List.sum_cons, windowReport, Output.reported, class_rows_listed, class_rows_listed,
        listed_table_sum, listed_table_sum]
      omega

theorem reported_sum (accesses : List Logged)
    (countable : ∀ logged ∈ accesses, Countable cores totalMem memBin logged) (period : Nat) :
    accesses.length = accesses.countP (fun logged => logged.2.isIo) +
      (((windows period accesses).map
          (windowReport cores (binOf memBin totalMem) memBin)).map Output.reported).sum +
      (tableSum (table cores (binOf memBin totalMem) (keys memBin true (remainder period accesses))) +
        tableSum (table cores (binOf memBin totalMem)
          (keys memBin false (remainder period accesses)))) := by
  have whole := windows_flatten period accesses
  have parts : ∀ logged, (logged ∈ (windows period accesses).flatten ∨
      logged ∈ remainder period accesses) → Countable cores totalMem memBin logged := by
    intro logged member
    apply countable
    rw [← whole]
    exact List.mem_append.mpr member
  have closed := windows_sum _ fun logged member => parts logged (Or.inl member)
  have opened := window_sum _ fun logged member _ => parts logged (Or.inr member)
  have length := congrArg List.length whole
  have io := congrArg (List.countP fun logged => logged.2.isIo) whole
  rw [List.length_append] at length
  rw [List.countP_append] at io
  omega

/-- A run of accesses has reported window after window what each class, vcpu and bin had
in it, keeps the open window in the maps and accounts for every access. -/
structure Exact (cores : Nat) (totalMem : UInt64) (memBin accBin : UInt32)
    (accesses : List Logged) (final : Statics) (lines : List Output) : Prop where
  reports : lines = (windows accBin.toNat accesses).map
    (windowReport cores (binOf memBin totalMem) memBin)
  kmaps : natMaps final.kmaps = table cores (binOf memBin totalMem)
    (keys memBin true (remainder accBin.toNat accesses))
  umaps : natMaps final.umaps = table cores (binOf memBin totalMem)
    (keys memBin false (remainder accBin.toNat accesses))
  accounted : final.accCnt.toNat = final.accIoCnt.toNat + (lines.map Output.reported).sum +
    (tableSum (natMaps final.kmaps) + tableSum (natMaps final.umaps))

/-- After any earlier use and a start, what a run of accesses reports is exact, and the
run returns in every RAM that x86-64 can address. -/
theorem reports_exact (history : List Event) (argv : List Word) (optind : Nat)
    (options : Commands.McountOptions)
    (accepted : (Commands.mcountControl argv optind).1.executed = .mcountStart options)
    (binned : options.memBin ≠ 0) (positive : options.accBin ≠ 0) (totalMem : UInt64)
    (opens : Bool) (begun : Statics) (earlier : List Output)
    (started : run step (installed cores) (history ++
      [.start options.filename opens totalMem options.memBin options.accBin]) =
        .ok (begun, earlier))
    (accesses : List Logged) (short : accesses.length < 2 ^ 64)
    (countable : ∀ logged ∈ accesses, Countable cores totalMem options.memBin logged) :
    (∀ final lines, run step begun (accesses.map Logged.event) = .ok (final, lines) →
      Exact cores totalMem options.memBin options.accBin accesses final lines) ∧
    (totalMem.toNat < 2 ^ 52 → ∃ final lines,
      run step begun (accesses.map Logged.event) = .ok (final, lines)) := by
  rcases (run_append_iff _ _ _ _ _ _).mp started with ⟨before, _, _, ran, rest, -⟩
  rcases (run_cons_iff _ _ _ _ _ _).mp rest with ⟨next, first, last, taken, done, -⟩
  cases done
  have same : before.ncores = cores := run_cores (installed cores) before history _ ran
  have counting := start_counting options.filename opens before begun first same taken
  constructor
  · intro final lines went
    rcases run_counting [] accesses begun counting countable binned positive
      (Or.inr ⟨_, went⟩) short with ⟨_, _, counted, kept, emitted⟩
    cases went.symm.trans counted
    rw [List.nil_append] at kept emitted
    rw [windows_nil, List.map_nil, List.nil_append] at emitted
    refine ⟨emitted.symm, kept.holding.kmaps, kept.holding.umaps, ?_⟩
    rw [kept.total, kept.io, kept.holding.kmaps, kept.holding.umaps]
    have sum := reported_sum accesses countable options.accBin.toNat
    rw [emitted] at sum
    exact sum
  · intro addressable
    have divisible := start_divisible argv optind options accepted
    rcases run_counting [] accesses begun counting countable binned positive
      (Or.inl (ram_bins totalMem addressable options.memBin binned divisible)) short with
      ⟨final, lines, counted, -, -⟩
    exact ⟨final, lines, counted⟩

/-- Two vcpus after an earlier count with other sizes: the third access is a kernel one
in bin 1, due to be counted in the second window. -/
theorem second_window_opened :
    ∃ begun earlier final lines,
      run step (installed 2) [.start none true 0x4000000 0x1000000 100,
        .access 1 ⟨0x3000000, false, true⟩, .stop, .start none true 0x2000000 0x1000000 3] =
          .ok (begun, earlier) ∧
      run step begun [.access 0 ⟨0, false, false⟩, .access 1 ⟨0, true, false⟩,
        .access 1 ⟨0x1000000, false, true⟩] = .ok (final, lines) ∧
      lines = (windows 3 [(0, ⟨0, false, false⟩), (1, ⟨0, true, false⟩),
        (1, ⟨0x1000000, false, true⟩)]).map (windowReport 2 2 0x1000000) ∧
      natMaps final.kmaps = [[0, 0], [0, 1]] := by
  have countable : ∀ logged ∈ ([(0, ⟨0, false, false⟩), (1, ⟨0, true, false⟩),
      (1, ⟨0x1000000, false, true⟩)] : List Logged), Countable 2 0x2000000 0x1000000 logged := by
    intro logged member
    simp only [List.mem_cons, List.not_mem_nil, or_false] at member
    rcases member with rfl | rfl | rfl
    · exact ⟨by decide, by decide⟩
    · exact ⟨by decide, by decide⟩
    · exact ⟨by decide, by decide⟩
  rcases @reports_exact 2 [.start none true 0x4000000 0x1000000 100,
      .access 1 ⟨0x3000000, false, true⟩, .stop]
    ["mcount".toList, "-a3".toList, "start".toList] 1 ⟨0x1000000, 3, none, none⟩ (by decide)
    (by decide) (by decide) 0x2000000 true _ _ rfl _ (by decide) countable with
    ⟨exact_, returns⟩
  rcases returns (by decide) with ⟨final, lines, ran⟩
  have counts := exact_ final lines ran
  exact ⟨_, _, final, lines, rfl, ran, counts.reports, by rw [counts.kmaps]; rfl⟩

end Hypersh.AccessReports
