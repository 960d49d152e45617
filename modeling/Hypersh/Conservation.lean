import Mathlib.Algebra.Group.Nat.Defs
import Mathlib.Algebra.GroupWithZero.Nat
import Mathlib.Data.List.Basic
import Hypersh.Transduction
import Hypersh.Windows
import Hypersh.Getopt
import Hypersh.Mcount
import Hypersh.AccessReports

/-!
What a stop leaves out. The totals count every access, a report only the accesses
before the one that made it due, and a stop writes no report.
-/
namespace Hypersh.Conservation
open Getopt Mcount AccessReports Transduction Windows

/-- The accesses since the last one at which a report was due, for a count of 64 bits. -/
def openWindow (period : Nat) (accesses : List Logged) : List Logged :=
  accesses.drop (accesses.length - accesses.length % 2 ^ 64 % period - 1)

theorem mod_succ (count period : Nat) (early : ¬ period ∣ count + 1) :
    (count + 1) % period = count % period + 1 := by
  rcases Nat.eq_zero_or_pos period with rfl | positive
  · rw [Nat.mod_zero, Nat.mod_zero]
  · have below := Nat.mod_lt count positive
    have apart : count % period + 1 ≠ period := by
      intro full
      apply early
      rw [Nat.dvd_iff_mod_eq_zero, ← Nat.mod_add_mod, full, Nat.mod_self]
    rw [← Nat.mod_add_mod]
    exact Nat.mod_eq_of_lt (by omega)

theorem window_cut (period : Nat) (accesses : List Logged) (logged : Logged)
    (due : period ∣ (accesses.length + 1) % 2 ^ 64) :
    openWindow period (accesses ++ [logged]) = [logged] := by
  rw [openWindow, List.length_append, List.length_singleton, Nat.mod_eq_zero_of_dvd due,
    Nat.sub_zero, Nat.add_sub_cancel, List.drop_left]

theorem window_held (period : Nat) (accesses : List Logged) (logged : Logged)
    (early : ¬ period ∣ (accesses.length + 1) % 2 ^ 64) :
    openWindow period (accesses ++ [logged]) = openWindow period accesses ++ [logged] := by
  -- Where the count wraps around a report is due.
  have wide : ¬ 2 ^ 64 ∣ accesses.length + 1 := by
    intro wraps
    rw [Nat.mod_eq_zero_of_dvd wraps] at early
    exact early (Nat.dvd_zero _)
  have count := mod_succ accesses.length (2 ^ 64) wide
  rw [count] at early
  rw [openWindow, List.length_append, List.length_singleton, count,
    mod_succ (accesses.length % 2 ^ 64) period early, Nat.add_sub_add_right,
    List.drop_append_of_le_length (by omega), openWindow]

theorem window_length (period : Nat) (accesses : List Logged) :
    (openWindow period accesses).length ≤ accesses.length % 2 ^ 64 % period + 1 := by
  rw [openWindow, List.length_drop]
  omega

theorem window_nil (period : Nat) : openWindow period [] = [] :=
  List.drop_nil

/-! One access, as far as it returns. -/

variable {cores : Nat} {totalMem : UInt64} {memBin accBin : UInt32}

theorem flush_read (bins : Nat) (maps cleared : Maps) (printed : List Row)
    (window : List (Nat × Nat)) (shaped : Shaped cores bins maps)
    (counted : natMaps maps = table cores bins window)
    (done : flush cores maps = .ok (printed, cleared)) :
    printed = (table cores bins window).map listed ∧
      cleared = List.replicate cores (List.replicate bins 0) := by
  have listing : maps.map printMap = (table cores bins window).map listed := by
    rw [← counted, natMaps, List.map_map]
    exact List.map_congr_left fun row _ => print_listed row
  rw [← shaped.cores, flush_all, shaped_zeroed cores bins maps shaped] at done
  split at done
  · contradiction
  · cases done
    exact ⟨listing, rfl⟩

theorem report_read (held : List Logged) (statics next : Statics) (lines : List Output)
    (holding : Holding cores totalMem memBin held statics)
    (done : reportCounts statics = .ok (next, lines)) :
    lines = [windowReport cores (binOf memBin totalMem) memBin held] ∧
      Holding cores totalMem memBin [] next ∧
      next.cfg = statics.cfg ∧ next.accCnt = statics.accCnt ∧ next.accIoCnt = statics.accIoCnt := by
  obtain ⟨kernel, kmaps, user, umaps, kdone, udone, rfl, rfl⟩ :=
    report_cases statics next lines done
  rw [holding.sized.cores] at kdone udone
  obtain ⟨rfl, rfl⟩ := flush_read _ _ kmaps kernel _ holding.sized.kmaps holding.kmaps kdone
  obtain ⟨rfl, rfl⟩ := flush_read _ _ umaps user _ holding.sized.umaps holding.umaps udone
  refine ⟨?_, ⟨⟨holding.sized.cores, holding.sized.bin, shaped_fresh _ _, shaped_fresh _ _⟩,
    nat_maps_zeroed _ _, nat_maps_zeroed _ _⟩, rfl, rfl, rfl⟩
  rw [windowReport, class_rows_listed, class_rows_listed]
  rfl

theorem increment_inside (bins cpuId bin : Nat) (maps next : Maps) (shaped : Shaped cores bins maps)
    (done : increment cpuId bin maps = .ok next) : cpuId < cores ∧ bin < bins := by
  unfold increment at done
  split at done
  · contradiction
  · rename_i row present
    split at done
    · rename_i inside
      rw [shaped.rows row (List.mem_of_getElem? present)] at inside
      exact ⟨shaped.cores ▸ (List.getElem?_eq_some_iff.mp present).1, inside⟩
    · contradiction

theorem counted_inside (statics next : Statics) (logged : Logged)
    (sized : Sized cores totalMem memBin statics) (memory : logged.2.isIo = false)
    (done : countAccess logged.1 logged.2 statics = .ok next) :
    Countable cores totalMem memBin logged ∧ memBin ≠ 0 := by
  have divisible : memBin ≠ 0 := by
    rintro zero
    rw [countAccess, memory, if_neg Bool.false_ne_true, sized.bin, if_pos zero] at done
    contradiction
  have bin := sized.bin
  rcases count_cases logged.1 logged.2 statics next done with
    ⟨io, -⟩ | ⟨-, -, maps, binned, -⟩ | ⟨-, -, maps, binned, -⟩
  · rw [memory] at io
    contradiction
  · obtain ⟨core, inside⟩ := increment_inside _ _ _ _ maps sized.kmaps binned
    exact ⟨⟨core, fun _ => bin ▸ inside⟩, divisible⟩
  · obtain ⟨core, inside⟩ := increment_inside _ _ _ _ maps sized.umaps binned
    exact ⟨⟨core, fun _ => bin ▸ inside⟩, divisible⟩

theorem count_read (held : List Logged) (statics next : Statics) (logged : Logged)
    (holding : Holding cores totalMem memBin held statics) (room : held.length + 1 < 2 ^ 32)
    (done : countAccess logged.1 logged.2 statics = .ok next) :
    (logged.2.isIo = false → Countable cores totalMem memBin logged) ∧
      Holding cores totalMem memBin (held ++ [logged]) next ∧
      next.cfg = statics.cfg ∧ next.accCnt = statics.accCnt ∧
      next.accIoCnt = statics.accIoCnt + if logged.2.isIo then 1 else 0 := by
  cases io : logged.2.isIo with
  | true =>
      have kept := io_holding held statics logged holding io
      rw [countAccess, io, if_pos rfl] at done
      cases done
      exact ⟨fun memory => absurd memory.symm Bool.false_ne_true, kept, rfl, rfl, rfl⟩
  | false =>
      obtain ⟨countable, divisible⟩ := counted_inside statics next logged holding.sized io done
      obtain ⟨reached, counted, kept, cfg, cnt, ioCnt⟩ :=
        count_holding held statics logged holding countable divisible room
      cases done.symm.trans counted
      rw [io] at ioCnt
      exact ⟨fun _ => countable, kept, cfg, cnt, ioCnt⟩

/-! Runs of accesses. -/

/-- The plugin has counted the accesses of the past and reported those of them, I/O
apart, that are not in the open window. -/
structure Filling (cores : Nat) (totalMem : UInt64) (memBin accBin : UInt32)
    (past : List Logged) (reported : Nat) (statics : Statics) : Prop where
  mode : statics.cfg.mode = .on
  report : statics.cfg.report.isSome = true
  period : statics.cfg.accBin = accBin
  total : statics.accCnt = UInt64.ofNat past.length
  io : statics.accIoCnt = UInt64.ofNat (past.countP fun logged => logged.2.isIo)
  held : Holding cores totalMem memBin (openWindow accBin.toNat past) statics
  valid : ∀ logged ∈ openWindow accBin.toNat past, logged.2.isIo = false →
    Countable cores totalMem memBin logged
  out : past.length + (openWindow accBin.toNat past).countP (fun logged => logged.2.isIo) =
    (past.countP fun logged => logged.2.isIo) + reported + (openWindow accBin.toNat past).length

theorem due_iff (count : Nat) (period : UInt32) :
    (UInt64.ofNat count + 1) % period.toUInt64 = 0 ↔ period.toNat ∣ (count + 1) % 2 ^ 64 := by
  have next : UInt64.ofNat count + 1 = UInt64.ofNat (count + 1) := (UInt64.ofNat_add count 1).symm
  rw [next, ← UInt64.toNat_inj, UInt64.toNat_mod, UInt64.toNat_ofNat', UInt32.toNat_toUInt64]
  exact Nat.dvd_iff_mod_eq_zero.symm

theorem io_next (past : List Logged) (logged : Logged) (cnt : UInt64)
    (same : cnt = UInt64.ofNat (past.countP fun logged => logged.2.isIo)) :
    (cnt + if logged.2.isIo then 1 else 0) =
      UInt64.ofNat ((past ++ [logged]).countP fun logged => logged.2.isIo) := by
  rw [List.countP_append, List.countP_singleton, UInt64.ofNat_add, same]
  cases logged.2.isIo <;> rfl

theorem window_room (period : Nat) (accesses : List Logged) (positive : 0 < period)
    (early : ¬ period ∣ (accesses.length + 1) % 2 ^ 64) :
    (openWindow period accesses).length + 1 ≤ period := by
  have length := window_length period accesses
  have below := Nat.mod_lt ((accesses.length + 1) % 2 ^ 64) positive
  have wide : ¬ 2 ^ 64 ∣ accesses.length + 1 := by
    intro wraps
    rw [Nat.mod_eq_zero_of_dvd wraps] at early
    exact early (Nat.dvd_zero _)
  rw [mod_succ accesses.length (2 ^ 64) wide] at early below
  rw [mod_succ _ period early] at below
  omega

theorem filling_count (past window : List Logged) (reported : Nat) (statics next : Statics)
    (logged : Logged) (mode : statics.cfg.mode = .on) (report : statics.cfg.report.isSome = true)
    (period : statics.cfg.accBin = accBin) (total : statics.accCnt = UInt64.ofNat (past.length + 1))
    (io : statics.accIoCnt = UInt64.ofNat (past.countP fun logged => logged.2.isIo))
    (held : Holding cores totalMem memBin window statics)
    (valid : ∀ logged ∈ window, logged.2.isIo = false → Countable cores totalMem memBin logged)
    (out : past.length + window.countP (fun logged => logged.2.isIo) =
      (past.countP fun logged => logged.2.isIo) + reported + window.length)
    (opened : openWindow accBin.toNat (past ++ [logged]) = window ++ [logged])
    (room : window.length + 1 < 2 ^ 32)
    (done : countAccess logged.1 logged.2 statics = .ok next) :
    Filling cores totalMem memBin accBin (past ++ [logged]) reported next := by
  obtain ⟨countable, kept, cfg, cnt, ioCnt⟩ := count_read window statics next logged held room done
  refine ⟨by rw [cfg]; exact mode, by rw [cfg]; exact report, by rw [cfg]; exact period, ?_, ?_,
    ?_, ?_, ?_⟩
  · rw [cnt, total, List.length_append, List.length_singleton]
  · rw [ioCnt]
    exact io_next past logged _ io
  · rw [opened]
    exact kept
  · rw [opened]
    intro other member
    rcases List.mem_append.mp member with early | last
    · exact valid other early
    · rw [List.mem_singleton.mp last]
      exact countable
  · rw [opened, List.length_append, List.length_append, List.countP_append, List.countP_append,
      List.length_singleton]
    omega

theorem filling_step (past : List Logged) (reported : Nat) (statics next : Statics)
    (logged : Logged) (lines : List Output)
    (filling : Filling cores totalMem memBin accBin past reported statics)
    (done : hypercallMcountCb logged.1 logged.2 statics = .ok (next, lines)) :
    Filling cores totalMem memBin accBin (past ++ [logged])
      (reported + (lines.map Output.reported).sum) next := by
  have on : statics.cfg.mode ≠ .off := by
    rw [filling.mode]
    intro same
    cases same
  have next_ : statics.accCnt + 1 = UInt64.ofNat (past.length + 1) := by
    rw [filling.total]
    exact (UInt64.ofNat_add past.length 1).symm
  have held : Holding cores totalMem memBin (openWindow accBin.toNat past)
      { statics with accCnt := statics.accCnt + 1 } :=
    ⟨⟨filling.held.sized.cores, filling.held.sized.bin, filling.held.sized.kmaps,
      filling.held.sized.umaps⟩, filling.held.kmaps, filling.held.umaps⟩
  have due := due_iff past.length accBin
  rw [← filling.total] at due
  rw [hypercallMcountCb, if_neg on, filling.period] at done
  split at done
  · contradiction
  · rename_i positive
    have some_ : 0 < accBin.toNat := Nat.pos_of_ne_zero fun zero =>
      positive (UInt32.toNat_inj.mp zero)
    dsimp only at done
    by_cases now : accBin.toNat ∣ (past.length + 1) % 2 ^ 64
    · rw [if_pos (due.mpr now)] at done
      split at done
      · contradiction
      · rename_i after written reporting
        obtain ⟨binned, counted, same⟩ := map_ok _ _ _ done
        obtain ⟨rfl, rfl⟩ := Prod.mk.inj same
        obtain ⟨rfl, fresh, cfg, cnt, ioCnt⟩ := report_read _ _ after written held reporting
        have sum := window_sum (openWindow accBin.toNat past) filling.valid
        have out := filling.out
        have kept := filling_count past [] (reported + Output.reported
            (windowReport cores (binOf memBin totalMem) memBin (openWindow accBin.toNat past)))
          after binned logged (by rw [cfg]; exact filling.mode) (by rw [cfg]; exact filling.report)
          (by rw [cfg]; exact filling.period) (cnt.trans next_) (ioCnt.trans filling.io) fresh
          (fun _ absent => absurd absent List.not_mem_nil)
          (by
            rw [windowReport, Output.reported, class_rows_listed, class_rows_listed,
              listed_table_sum, listed_table_sum]
            simp only [List.countP_nil, List.length_nil]
            omega)
          (window_cut accBin.toNat past logged now) (by decide) counted
        simpa using kept
    · rw [if_neg fun here => now (due.mp here)] at done
      dsimp only at done
      obtain ⟨binned, counted, same⟩ := map_ok _ _ _ done
      obtain ⟨rfl, rfl⟩ := Prod.mk.inj same
      have room := window_room accBin.toNat past some_ now
      have narrow := accBin.toNat_lt
      exact filling_count past (openWindow accBin.toNat past) reported
        { statics with accCnt := statics.accCnt + 1 } binned logged filling.mode filling.report
        filling.period next_ filling.io held filling.valid filling.out
        (window_held accBin.toNat past logged now) (by omega) counted

theorem run_filling (past later : List Logged) (reported : Nat) (statics final : Statics)
    (lines : List Output) (filling : Filling cores totalMem memBin accBin past reported statics)
    (done : run step statics (later.map Logged.event) = .ok (final, lines)) :
    Filling cores totalMem memBin accBin (past ++ later)
      (reported + (lines.map Output.reported).sum) final := by
  induction later generalizing past reported statics lines with
  | nil =>
      cases done
      rw [List.append_nil]
      exact filling
  | cons logged rest ih =>
      obtain ⟨next, early, late, first, tail, rfl⟩ := (run_cons_iff _ _ _ _ _ _).mp done
      have here := filling_step past reported statics next logged early filling first
      have whole := ih (past ++ [logged]) _ next late here tail
      rw [List.append_assoc, Nat.add_assoc, ← List.sum_append, ← List.map_append] at whole
      exact whole

theorem start_filling (report : Option Word) (opens : Bool) (statics begun : Statics)
    (lines : List Output)
    (started : hypercallMcountInit report opens totalMem memBin accBin statics = .ok (begun, lines)) :
    Filling statics.ncores totalMem memBin accBin [] 0 begun := by
  have counting := start_counting report opens statics begun lines rfl started
  refine ⟨counting.mode, counting.report, counting.period, ?_, ?_, ?_, ?_, ?_⟩
  · exact UInt64.toNat_inj.mp counting.total
  · exact UInt64.toNat_inj.mp counting.io
  · rw [window_nil]
    have held := counting.holding
    rw [remainder_nil] at held
    exact held
  · rw [window_nil]
    exact fun _ absent => absurd absent List.not_mem_nil
  · rw [window_nil]
    rfl

/-! What a stop prints. -/

def printedTotals : Output → Option (UInt64 × UInt64)
  | .totals accCnt accIoCnt => some (accCnt, accIoCnt)
  | _ => none

/-- One pair of totals was printed: the reports and the I/O count add up to the count. -/
def Accounted (lines : List Output) : Prop :=
  ∃ accCnt accIoCnt, lines.filterMap printedTotals = [(accCnt, accIoCnt)] ∧
    (lines.map Output.reported).sum + accIoCnt.toNat = accCnt.toNat

theorem access_prints (cpuId : Nat) (access : Access) (statics next : Statics)
    (lines : List Output)
    (done : hypercallMcountCb cpuId access statics = .ok (next, lines)) :
    lines.filterMap printedTotals = [] := by
  rcases cb_cases cpuId access statics next lines done with
    ⟨-, -, rfl⟩ | ⟨reported, ⟨-, rfl⟩ | report, -⟩
  · rfl
  · rfl
  · obtain ⟨_, _, _, _, -, -, -, rfl⟩ := report_cases _ reported lines report
    rfl

theorem accesses_print (accesses : List Logged) (statics final : Statics) (lines : List Output)
    (done : run step statics (accesses.map Logged.event) = .ok (final, lines)) :
    lines.filterMap printedTotals = [] := by
  induction accesses generalizing statics lines with
  | nil =>
      cases done
      rfl
  | cons logged rest ih =>
      obtain ⟨next, early, late, first, tail, rfl⟩ := (run_cons_iff _ _ _ _ _ _).mp done
      rw [List.filterMap_append, access_prints logged.1 logged.2 statics next early first,
        ih next late tail, List.nil_append]

theorem stop_prints (statics : Statics) (present : statics.cfg.report.isSome = true) :
    ((hypercallMcountFini statics).2.map Output.reported).sum = 0 ∧
      (hypercallMcountFini statics).2.filterMap printedTotals =
        [(statics.accCnt, statics.accIoCnt)] := by
  obtain ⟨file, same⟩ := Option.isSome_iff_exists.mp present
  simp only [hypercallMcountFini, same]
  cases file <;> exact ⟨rfl, rfl⟩

theorem start_prints (report : Option Word) (opens : Bool) (statics begun : Statics)
    (lines : List Output)
    (started : hypercallMcountInit report opens totalMem memBin accBin statics = .ok (begun, lines)) :
    (lines.map Output.reported).sum = 0 ∧ lines.filterMap printedTotals = [] := by
  obtain ⟨file, -, rfl, rfl⟩ := init_cases report opens totalMem memBin accBin statics begun lines
    started
  exact ⟨rfl, rfl⟩

/-- What a start, accesses and a stop print is complete exactly when since the last
report there were I/O accesses only, and the two counts have wrapped around equally
often. -/
theorem accounted_iff (statics : Statics) (report : Option Word) (opens : Bool)
    (totalMem : UInt64) (memBin accBin : UInt32) (positive : accBin ≠ 0)
    (accesses : List Logged) (final : Statics) (lines : List Output)
    (done : run step statics (.start report opens totalMem memBin accBin ::
      (accesses.map Logged.event ++ [.stop])) = .ok (final, lines)) :
    Accounted lines ↔
      (∀ logged ∈ openWindow accBin.toNat accesses, logged.2.isIo = true) ∧
        (accesses.countP fun logged => logged.2.isIo) / 2 ^ 64 = accesses.length / 2 ^ 64 := by
  obtain ⟨begun, config, after, started, rest, rfl⟩ := (run_cons_iff _ _ _ _ _ _).mp done
  obtain ⟨reached, counts, stopped, counted, stop, rfl⟩ := (run_append_iff _ _ _ _ _ _).mp rest
  rw [run_singleton] at stop
  have same : Except.ok (hypercallMcountFini reached) = Except.ok (final, stopped) := stop
  obtain rfl : (hypercallMcountFini reached).2 = stopped := congrArg Prod.snd (Except.ok.inj same)
  have filling := run_filling [] accesses 0 begun reached counts
    (start_filling report opens statics begun config started) counted
  rw [List.nil_append, Nat.zero_add] at filling
  obtain ⟨silent, quiet⟩ := start_prints report opens statics begun config started
  obtain ⟨nothing, totals⟩ := stop_prints reached filling.report
  have printed : (config ++ (counts ++ (hypercallMcountFini reached).2)).filterMap printedTotals =
      [(reached.accCnt, reached.accIoCnt)] := by
    rw [List.filterMap_append, List.filterMap_append, quiet,
      accesses_print accesses begun reached counts counted, totals]
    rfl
  have sum : ((config ++ (counts ++ (hypercallMcountFini reached).2)).map Output.reported).sum =
      (counts.map Output.reported).sum := by
    rw [List.map_append, List.map_append, List.sum_append, List.sum_append, silent, nothing]
    omega
  have adds : Accounted (config ++ (counts ++ (hypercallMcountFini reached).2)) ↔
      (counts.map Output.reported).sum + reached.accIoCnt.toNat = reached.accCnt.toNat := by
    rw [Accounted, printed, sum]
    constructor
    · rintro ⟨accCnt, accIoCnt, only, total⟩
      cases only
      exact total
    · exact fun total => ⟨_, _, rfl, total⟩
  have io : (∀ logged ∈ openWindow accBin.toNat accesses, logged.2.isIo = true) ↔
      (openWindow accBin.toNat accesses).countP (fun logged => logged.2.isIo) =
        (openWindow accBin.toNat accesses).length := List.countP_eq_length.symm
  have few : (openWindow accBin.toNat accesses).countP (fun logged => logged.2.isIo) ≤
      (openWindow accBin.toNat accesses).length := List.countP_le_length
  have length := window_length accBin.toNat accesses
  have below := Nat.mod_lt (accesses.length % 2 ^ 64)
    (Nat.pos_of_ne_zero fun zero => positive (UInt32.toNat_inj.mp zero))
  have narrow := accBin.toNat_lt
  have out := filling.out
  rw [adds, io, filling.total, filling.io, UInt64.toNat_ofNat', UInt64.toNat_ofNat']
  omega

theorem io_last_accounted :
    ∃ final lines, run step (installed 1) (.start none true 0x2000000 0x1000000 1 ::
      (([(0, ⟨0x1000000, false, false⟩), (0, ⟨0, true, true⟩)] : List Logged).map Logged.event ++
        [.stop])) = .ok (final, lines) ∧ Accounted lines := by
  refine ⟨_, _, rfl, ?_⟩
  exact (accounted_iff (installed 1) none true 0x2000000 0x1000000 1 (by decide)
    [(0, ⟨0x1000000, false, false⟩), (0, ⟨0, true, true⟩)] _ _ rfl).mpr ⟨by decide, by decide⟩

/-- One user access and a stop: counted, and in no report. -/
theorem open_window_lost :
    ∃ final lines, run step (installed 1) (.start none true 0x2000000 0x1000000 100 ::
      (([(0, ⟨0, false, false⟩)] : List Logged).map Logged.event ++ [.stop])) = .ok (final, lines) ∧
        .totals 1 0 ∈ lines ∧ ¬ Accounted lines := by
  refine ⟨_, _, rfl, by decide, ?_⟩
  rintro ⟨accCnt, accIoCnt, only, total⟩
  cases only
  contradiction

end Hypersh.Conservation
