import Mathlib.Algebra.Group.Nat.Defs
import Mathlib.Data.List.Basic
import Hypersh.Transduction
import Hypersh.Getopt

/-!
The mcount plugin of host/mcount.cc: histograms of memory accesses by vcpu and bin,
one for kernel and one for user code, reported and cleared every `acc_bin`
accesses. Each callback is one step. Reports are lists of entries rather than
their text; registering and dropping callbacks is the emulator's.
-/
namespace Hypersh.Mcount
open Getopt Transduction

inductive McountMode where
  | on
  | off
  deriving DecidableEq, Repr

inductive Report where
  | stdout
  | file (path : Word)
  deriving DecidableEq, Repr

structure McountConfig where
  mode : McountMode
  report : Option Report
  memBin : UInt32
  accBin : UInt32
  totalMem : UInt64
  deriving DecidableEq, Repr

abbrev Maps := List (List UInt32)

structure Statics where
  cfg : McountConfig
  kmaps : Maps
  umaps : Maps
  tags : List (Word × UInt64)
  accCnt : UInt64
  accIoCnt : UInt64
  ncores : Nat
  deriving DecidableEq, Repr

/-- Ways the process dies: an integer division by zero, a vector index that is not
below the size, `fprintf` on a file that could not be opened, and a flush that
never comes back. -/
inductive Fault where
  | divisionByZero
  | outOfBounds
  | nullReport
  | endlessFlush
  deriving DecidableEq, Repr

abbrev Row := List (Nat × Nat)

inductive Output where
  | config (report : Option Word) (totalMem : UInt64) (memBin accBin : UInt32) (ncores : Nat)
  | counts (kernel user : List Row)
  | tags (tags : List (Word × UInt64))
  | totals (accCnt accIoCnt : UInt64)
  | close
  deriving DecidableEq, Repr

/-- What the emulator answers about one access: the device offset of its hardware
address, whether that is I/O, and `qemu_plugin_in_kernel`. -/
structure Access where
  paddr : UInt64
  isIo : Bool
  isKernel : Bool
  deriving DecidableEq, Repr

abbrev Outcome := Except Fault (Statics × List Output)

def resize {Item : Type} (size : Nat) (fill : Item) (items : List Item) : List Item :=
  items.take size ++ List.replicate (size - items.length) fill

/-- The loop over one vector of maps: each is resized and filled with zeros. -/
def clearMaps (ncores bins : Nat) (maps : Maps) : Maps :=
  (resize ncores [] maps).map fun row => (resize bins 0 row).map fun _ => 0

def openReport (report : Option Word) (opens : Bool) : Option Report :=
  match report with
  | none => some .stdout
  | some path => if opens then some (.file path) else none

def hypercallMcountInit (report : Option Word) (opens : Bool) (totalMem : UInt64)
    (memBin accBin : UInt32) (statics : Statics) : Outcome :=
  match openReport report opens with
  | none => .error .nullReport
  | some file =>
      -- Without a vcpu there is no map to resize and nothing is divided.
      if statics.ncores ≠ 0 ∧ memBin = 0 then .error .divisionByZero
      else
        let bins := (totalMem / memBin.toUInt64).toNat
        .ok ({ statics with
          cfg := ⟨.on, some file, memBin, accBin, totalMem⟩
          kmaps := clearMaps statics.ncores bins statics.kmaps
          umaps := clearMaps statics.ncores bins statics.umaps
          tags := []
          accCnt := 0
          accIoCnt := 0 }, [.config report totalMem memBin accBin statics.ncores])

def closeReport : Report → List Output
  | .stdout => []
  | .file _ => [.close]

def hypercallMcountFini (statics : Statics) : Statics × List Output :=
  match statics.cfg.report with
  | none => ({ statics with cfg := { statics.cfg with mode := .off } }, [])
  | some file =>
      ({ statics with cfg := { statics.cfg with mode := .off, report := none } },
        [.tags statics.tags, .totals statics.accCnt statics.accIoCnt] ++ closeReport file)

def flushMap (row : List UInt32) : Except Fault (Row × List UInt32) :=
  -- The index is a `uint32_t` and never reaches a size from 2^32 on.
  if 2 ^ 32 ≤ row.length then .error .endlessFlush
  else .ok ((row.zipIdx.filter fun entry => entry.1 != 0).map fun entry =>
    (entry.2, entry.1.toNat), row.map fun _ => 0)

def flush : Nat → Maps → Except Fault (List Row × Maps)
  | 0, maps => .ok ([], maps)
  | _ + 1, [] => .error .outOfBounds
  | more + 1, row :: rest =>
      match flushMap row, flush more rest with
      | .error fault, _ => .error fault
      | .ok _, .error fault => .error fault
      | .ok (printed, zeroed), .ok (later, cleared) => .ok (printed :: later, zeroed :: cleared)

def reportCounts (statics : Statics) : Outcome :=
  match statics.cfg.report with
  | none => .error .nullReport
  | some _ =>
      match flush statics.ncores statics.kmaps, flush statics.ncores statics.umaps with
      | .error fault, _ => .error fault
      | .ok _, .error fault => .error fault
      | .ok (kernel, kmaps), .ok (user, umaps) =>
          .ok ({ statics with kmaps := kmaps, umaps := umaps }, [.counts kernel user])

def increment (cpuId bin : Nat) (maps : Maps) : Except Fault Maps :=
  match maps[cpuId]? with
  | none => .error .outOfBounds
  | some row =>
      if bin < row.length then
        .ok (maps.modify cpuId fun counts => counts.modify bin (· + 1))
      else .error .outOfBounds

def binOf (memBin : UInt32) (paddr : UInt64) : Nat := (paddr / memBin.toUInt64).toNat

def countAccess (cpuId : Nat) (access : Access) (statics : Statics) : Except Fault Statics :=
  if access.isIo then .ok { statics with accIoCnt := statics.accIoCnt + 1 }
  else if statics.cfg.memBin = 0 then .error .divisionByZero
  else
    let bin := binOf statics.cfg.memBin access.paddr
    if access.isKernel then
      (increment cpuId bin statics.kmaps).map fun maps => { statics with kmaps := maps }
    else (increment cpuId bin statics.umaps).map fun maps => { statics with umaps := maps }

def hypercallMcountCb (cpuId : Nat) (access : Access) (statics : Statics) : Outcome :=
  if statics.cfg.mode = .off then .ok (statics, [])
  else if statics.cfg.accBin = 0 then .error .divisionByZero
  else
    let counted := { statics with accCnt := statics.accCnt + 1 }
    -- The report is written before the access that makes it due is binned.
    let reported := if counted.accCnt % statics.cfg.accBin.toUInt64 = 0 then reportCounts counted
      else .ok (counted, [])
    match reported with
    | .error fault => .error fault
    | .ok (next, lines) => (countAccess cpuId access next).map fun binned => (binned, lines)

/-- `tags[tag] = value` on a map that is ordered by its keys. -/
def setTag (tag : Word) (value : UInt64) : List (Word × UInt64) → List (Word × UInt64)
  | [] => [(tag, value)]
  | (known, old) :: rest =>
      if tag = known then (known, value) :: rest
      else if tag < known then (tag, value) :: (known, old) :: rest
      else (known, old) :: setTag tag value rest

def hypercallMcountTag (tag : Word) (statics : Statics) : Statics :=
  { statics with tags := setTag tag statics.accCnt statics.tags }

inductive Event where
  | start (report : Option Word) (opens : Bool) (totalMem : UInt64) (memBin accBin : UInt32)
  | tag (tag : Word)
  | stop
  | access (cpuId : Nat) (access : Access)
  deriving DecidableEq, Repr

def Event.isStart : Event → Bool
  | .start _ _ _ _ _ => true
  | _ => false

def step : Step Statics Event Output Fault :=
  fun statics event =>
    match event with
    | .start report opens totalMem memBin accBin =>
        hypercallMcountInit report opens totalMem memBin accBin statics
    | .tag tag => .ok (hypercallMcountTag tag statics, [])
    | .stop => .ok (hypercallMcountFini statics)
    | .access cpuId access => hypercallMcountCb cpuId access statics

def installed (ncores : Nat) : Statics where
  cfg := ⟨.off, none, 0, 0, 0⟩
  kmaps := []
  umaps := []
  tags := []
  accCnt := 0
  accIoCnt := 0
  ncores := ncores

/-! Shapes. -/

theorem clear_maps_fresh (ncores bins : Nat) (maps : Maps) :
    clearMaps ncores bins maps = List.replicate ncores (List.replicate bins 0) := by
  have cleared : ∀ row : List UInt32,
      (resize bins 0 row).map (fun _ => (0 : UInt32)) = List.replicate bins 0 := by
    intro row
    rw [List.map_const', resize, List.length_append, List.length_take, List.length_replicate]
    congr 1
    omega
  rw [clearMaps, List.map_congr_left fun row _ => cleared row, List.map_const', resize,
    List.length_append, List.length_take, List.length_replicate]
  congr 1
  omega

/-- The maps as a start left them, with counts in them. -/
structure Shaped (ncores bins : Nat) (maps : Maps) : Prop where
  cores : maps.length = ncores
  rows : ∀ row ∈ maps, row.length = bins

theorem shaped_fresh (ncores bins : Nat) :
    Shaped ncores bins (List.replicate ncores (List.replicate bins 0)) where
  cores := List.length_replicate
  rows := fun row member => by rw [List.eq_of_mem_replicate member, List.length_replicate]

theorem shaped_zeroed (ncores bins : Nat) (maps : Maps) (shaped : Shaped ncores bins maps) :
    maps.map (fun row => row.map fun _ => (0 : UInt32)) =
      List.replicate ncores (List.replicate bins 0) := by
  have zeroed : ∀ row ∈ maps, (row.map fun _ => (0 : UInt32)) = List.replicate bins 0 := by
    intro row member
    rw [List.map_const', shaped.rows row member]
  rw [List.map_congr_left zeroed, List.map_const', shaped.cores]

theorem shaped_increment (ncores bins cpuId bin : Nat) (maps next : Maps)
    (shaped : Shaped ncores bins maps) (done : increment cpuId bin maps = .ok next) :
    Shaped ncores bins next := by
  unfold increment at done
  split at done
  · contradiction
  · split at done
    · cases done
      constructor
      · rw [List.length_modify]
        exact shaped.cores
      · intro row member
        rcases List.mem_iff_getElem?.mp member with ⟨index, found⟩
        rw [List.getElem?_modify, Option.map_eq_map, Option.map_eq_some_iff] at found
        rcases found with ⟨old, present, rfl⟩
        have length := shaped.rows old (List.mem_of_getElem? present)
        split
        · rw [List.length_modify]
          exact length
        · exact length
    · contradiction

def printMap (row : List UInt32) : Row :=
  (row.zipIdx.filter fun entry => entry.1 != 0).map fun entry => (entry.2, entry.1.toNat)

theorem flush_all (maps : Maps) :
    flush maps.length maps =
      if maps.any (fun row => decide (2 ^ 32 ≤ row.length)) then .error .endlessFlush
      else .ok (maps.map printMap, maps.map fun row => row.map fun _ => 0) := by
  induction maps with
  | nil => rfl
  | cons row rest ih =>
      rw [List.length_cons, flush, ih, flushMap, List.any_cons]
      by_cases long : 2 ^ 32 ≤ row.length
      · rw [if_pos long, decide_eq_true long, Bool.true_or, if_pos rfl]
      · rw [if_neg long, decide_eq_false long, Bool.false_or]
        by_cases later : rest.any (fun row => decide (2 ^ 32 ≤ row.length)) = true
        · rw [if_pos later, if_pos later]
        · rw [if_neg later, if_neg later]
          rfl

theorem flush_ok (ncores : Nat) (maps cleared : Maps) (printed : List Row)
    (whole : maps.length = ncores) (done : flush ncores maps = .ok (printed, cleared)) :
    cleared = maps.map fun row => row.map fun _ => 0 := by
  rw [← whole, flush_all] at done
  split at done
  · contradiction
  · cases done
    rfl

theorem shaped_flush (ncores bins : Nat) (maps cleared : Maps) (printed : List Row)
    (shaped : Shaped ncores bins maps) (done : flush ncores maps = .ok (printed, cleared)) :
    Shaped ncores bins cleared := by
  rw [flush_ok ncores maps cleared printed shaped.cores done, shaped_zeroed ncores bins maps shaped]
  exact shaped_fresh ncores bins

/-- All an access can do while counting: perhaps a report, then the access itself. -/
theorem cb_cases (cpuId : Nat) (access : Access) (statics next : Statics) (lines : List Output)
    (done : hypercallMcountCb cpuId access statics = .ok (next, lines)) :
    (statics.cfg.mode = .off ∧ next = statics ∧ lines = []) ∨
    ∃ reported, ((reported = { statics with accCnt := statics.accCnt + 1 } ∧ lines = []) ∨
        reportCounts { statics with accCnt := statics.accCnt + 1 } = .ok (reported, lines)) ∧
      countAccess cpuId access reported = .ok next := by
  unfold hypercallMcountCb at done
  split at done
  · cases done
    rename_i off
    exact Or.inl ⟨off, rfl, rfl⟩
  · split at done
    · contradiction
    · apply Or.inr
      dsimp only at done
      split at done
      · contradiction
      · rename_i reported emitted due
        rcases map_ok _ _ _ done with ⟨binned, counted, same⟩
        rcases Prod.mk.inj same with ⟨rfl, rfl⟩
        refine ⟨reported, ?_, counted⟩
        split at due
        · exact Or.inr due
        · cases due
          exact Or.inl ⟨rfl, rfl⟩

structure Sized (ncores : Nat) (totalMem : UInt64) (memBin : UInt32) (statics : Statics) :
    Prop where
  cores : statics.ncores = ncores
  bin : statics.cfg.memBin = memBin
  kmaps : Shaped ncores (totalMem / memBin.toUInt64).toNat statics.kmaps
  umaps : Shaped ncores (totalMem / memBin.toUInt64).toNat statics.umaps

variable {ncores : Nat} {totalMem : UInt64} {memBin : UInt32}

theorem report_cases (statics next : Statics) (lines : List Output)
    (done : reportCounts statics = .ok (next, lines)) :
    ∃ kernel kmaps user umaps, flush statics.ncores statics.kmaps = .ok (kernel, kmaps) ∧
      flush statics.ncores statics.umaps = .ok (user, umaps) ∧
      next = { statics with kmaps := kmaps, umaps := umaps } ∧ lines = [.counts kernel user] := by
  unfold reportCounts at done
  split at done
  · contradiction
  · split at done
    · contradiction
    · contradiction
    · rename_i kernel kmaps user umaps kdone udone
      cases done
      exact ⟨kernel, kmaps, user, umaps, kdone, udone, rfl, rfl⟩

theorem count_cases (cpuId : Nat) (access : Access) (statics next : Statics)
    (done : countAccess cpuId access statics = .ok next) :
    (access.isIo = true ∧ next = { statics with accIoCnt := statics.accIoCnt + 1 }) ∨
    (access.isIo = false ∧ access.isKernel = true ∧ ∃ maps,
      increment cpuId (binOf statics.cfg.memBin access.paddr) statics.kmaps = .ok maps ∧
        next = { statics with kmaps := maps }) ∨
    (access.isIo = false ∧ access.isKernel = false ∧ ∃ maps,
      increment cpuId (binOf statics.cfg.memBin access.paddr) statics.umaps = .ok maps ∧
        next = { statics with umaps := maps }) := by
  unfold countAccess at done
  split at done
  · rename_i io
    cases done
    exact Or.inl ⟨io, rfl⟩
  · rename_i memory
    rw [Bool.not_eq_true] at memory
    split at done
    · contradiction
    · split at done
      · rename_i kernel
        rcases map_ok _ _ _ done with ⟨maps, binned, rfl⟩
        exact Or.inr (Or.inl ⟨memory, kernel, maps, binned, rfl⟩)
      · rename_i user
        rw [Bool.not_eq_true] at user
        rcases map_ok _ _ _ done with ⟨maps, binned, rfl⟩
        exact Or.inr (Or.inr ⟨memory, user, maps, binned, rfl⟩)

theorem sized_report (statics next : Statics) (lines : List Output)
    (sized : Sized ncores totalMem memBin statics)
    (done : reportCounts statics = .ok (next, lines)) : Sized ncores totalMem memBin next := by
  rcases sized with ⟨rfl, bin, kmaps, umaps⟩
  rcases report_cases statics next lines done with ⟨_, _, _, _, kdone, udone, rfl, -⟩
  exact ⟨rfl, bin, shaped_flush _ _ _ _ _ kmaps kdone, shaped_flush _ _ _ _ _ umaps udone⟩

theorem sized_count (cpuId : Nat) (access : Access) (statics next : Statics)
    (sized : Sized ncores totalMem memBin statics)
    (done : countAccess cpuId access statics = .ok next) : Sized ncores totalMem memBin next := by
  rcases count_cases cpuId access statics next done with
    ⟨-, rfl⟩ | ⟨-, -, maps, binned, rfl⟩ | ⟨-, -, maps, binned, rfl⟩
  · exact ⟨sized.cores, sized.bin, sized.kmaps, sized.umaps⟩
  · exact ⟨sized.cores, sized.bin, shaped_increment _ _ _ _ _ _ sized.kmaps binned, sized.umaps⟩
  · exact ⟨sized.cores, sized.bin, sized.kmaps, shaped_increment _ _ _ _ _ _ sized.umaps binned⟩

theorem step_sized (statics next : Statics) (event : Event) (lines : List Output)
    (sized : Sized ncores totalMem memBin statics)
    (other : event.isStart = false)
    (taken : step statics event = .ok (next, lines)) : Sized ncores totalMem memBin next := by
  cases event with
  | start report opens total bin acc => contradiction
  | tag tag =>
      cases taken
      exact ⟨sized.cores, sized.bin, sized.kmaps, sized.umaps⟩
  | stop =>
      simp only [step, hypercallMcountFini] at taken
      split at taken
      · cases taken
        exact ⟨sized.cores, sized.bin, sized.kmaps, sized.umaps⟩
      · cases taken
        exact ⟨sized.cores, sized.bin, sized.kmaps, sized.umaps⟩
  | access cpuId access =>
      have before : Sized ncores totalMem memBin { statics with accCnt := statics.accCnt + 1 } :=
        ⟨sized.cores, sized.bin, sized.kmaps, sized.umaps⟩
      rcases cb_cases cpuId access statics next lines taken with
        ⟨-, rfl, -⟩ | ⟨reported, ⟨rfl, -⟩ | report, counted⟩
      · exact sized
      · exact sized_count cpuId access _ next before counted
      · exact sized_count cpuId access reported next
          (sized_report _ reported lines before report) counted

theorem init_cases (report : Option Word) (opens : Bool) (totalMem : UInt64)
    (memBin accBin : UInt32) (statics next : Statics) (lines : List Output)
    (started : hypercallMcountInit report opens totalMem memBin accBin statics =
      .ok (next, lines)) :
    ∃ file, ¬ (statics.ncores ≠ 0 ∧ memBin = 0) ∧
      next = { statics with
        cfg := ⟨.on, some file, memBin, accBin, totalMem⟩
        kmaps := clearMaps statics.ncores (totalMem / memBin.toUInt64).toNat statics.kmaps
        umaps := clearMaps statics.ncores (totalMem / memBin.toUInt64).toNat statics.umaps
        tags := []
        accCnt := 0
        accIoCnt := 0 } ∧
      lines = [.config report totalMem memBin accBin statics.ncores] := by
  unfold hypercallMcountInit at started
  split at started
  · contradiction
  · rename_i file _
    split at started
    · contradiction
    · rename_i divisible
      cases started
      exact ⟨file, divisible, rfl, rfl⟩

theorem start_sized (report : Option Word) (opens : Bool) (accBin : UInt32)
    (statics next : Statics) (lines : List Output)
    (taken : hypercallMcountInit report opens totalMem memBin accBin statics =
      .ok (next, lines)) :
    Sized statics.ncores totalMem memBin next ∧ (statics.ncores = 0 ∨ memBin ≠ 0) := by
  have fresh : ∀ bins maps, Shaped statics.ncores bins (clearMaps statics.ncores bins maps) := by
    intro bins maps
    rw [clear_maps_fresh]
    exact shaped_fresh _ _
  obtain ⟨file, divisible, rfl, -⟩ := init_cases report opens totalMem memBin accBin statics next
    lines taken
  exact ⟨⟨rfl, rfl, fresh _ _, fresh _ _⟩, or_iff_not_imp_left.mpr (not_and.mp divisible)⟩

theorem step_cores (statics next : Statics) (event : Event) (lines : List Output)
    (taken : step statics event = .ok (next, lines)) : next.ncores = statics.ncores := by
  cases event with
  | start report opens total bin acc =>
      exact (start_sized report opens acc statics next lines taken).1.cores
  | tag tag =>
      cases taken
      rfl
  | stop =>
      simp only [step, hypercallMcountFini] at taken
      split at taken
      · cases taken
        rfl
      · cases taken
        rfl
  | access cpuId access =>
      have counted : ∀ before after, countAccess cpuId access before = .ok after →
          after.ncores = before.ncores := by
        intro before after done
        rcases count_cases cpuId access before after done with
          ⟨-, rfl⟩ | ⟨-, -, _, -, rfl⟩ | ⟨-, -, _, -, rfl⟩
        · rfl
        · rfl
        · rfl
      rcases cb_cases cpuId access statics next lines taken with
        ⟨-, rfl, -⟩ | ⟨reported, ⟨rfl, -⟩ | report, done⟩
      · rfl
      · have kept := counted _ next done
        exact kept
      · have kept := counted _ next done
        rcases report_cases _ reported lines report with ⟨_, _, _, _, -, -, rfl, -⟩
        exact kept

/-! Indices. -/

def InBounds (statics : Statics) (cpuId : Nat) (paddr : UInt64) : Prop :=
  ∃ kmap umap, statics.kmaps[cpuId]? = some kmap ∧ statics.umaps[cpuId]? = some umap ∧
    binOf statics.cfg.memBin paddr < kmap.length ∧ binOf statics.cfg.memBin paddr < umap.length

theorem in_bounds_iff (statics : Statics) (sized : Sized ncores totalMem memBin statics)
    (cpuId : Nat) (core : cpuId < ncores) (paddr : UInt64) :
    InBounds statics cpuId paddr ↔ binOf memBin paddr < binOf memBin totalMem := by
  have kmap := List.getElem?_eq_getElem (l := statics.kmaps) (i := cpuId)
    (by rw [sized.kmaps.cores]; exact core)
  have umap := List.getElem?_eq_getElem (l := statics.umaps) (i := cpuId)
    (by rw [sized.umaps.cores]; exact core)
  have klength := sized.kmaps.rows _ (List.mem_of_getElem? kmap)
  have ulength := sized.umaps.rows _ (List.mem_of_getElem? umap)
  rw [InBounds, sized.bin]
  constructor
  · rintro ⟨krow, urow, kfound, -, below, -⟩
    rw [kmap, Option.some.injEq] at kfound
    rw [← kfound, klength] at below
    exact below
  · intro below
    exact ⟨_, _, kmap, umap, by rw [klength]; exact below, by rw [ulength]; exact below⟩

/-- The last bin exists for every offset exactly when no bin is cut short. -/
theorem bins_cover_iff (size bin : Nat) (positive : 0 < bin) :
    (∀ offset < size, offset / bin < size / bin) ↔ bin ∣ size := by
  constructor
  · intro covered
    by_contra cut
    have whole : size / bin * bin < size :=
      Nat.lt_of_le_of_ne (Nat.div_mul_le_self size bin) fun same =>
        cut ⟨size / bin, by rw [Nat.mul_comm, same]⟩
    have last := covered (size / bin * bin) whole
    rw [Nat.mul_div_cancel _ positive] at last
    exact absurd last (Nat.lt_irrefl _)
  · rintro ⟨bins, rfl⟩ offset inside
    rw [Nat.mul_div_cancel_left bins positive]
    exact Nat.div_lt_of_lt_mul inside

theorem run_cores (statics final : Statics) (events : List Event) (lines : List Output)
    (done : run step statics events = .ok (final, lines)) : final.ncores = statics.ncores :=
  run_invariant step (fun state => state.ncores = statics.ncores)
    (fun state event next emitted same taken => (step_cores state next event emitted taken).trans same)
    statics final events lines rfl done

/-- Whatever was started and stopped before, from a start to the next one every
access inside the RAM has its bin exactly when the bin size divides the RAM size. -/
theorem histogram_bounds_iff (cores : Nat) (positive : 0 < cores) (history later : List Event)
    (report : Option Word) (opens : Bool) (accBin : UInt32) (final : Statics)
    (lines : List Output)
    (only : ∀ event ∈ later, event.isStart = false)
    (done : run step (installed cores)
      (history ++ .start report opens totalMem memBin accBin :: later) = .ok (final, lines)) :
    (∀ cpuId < cores, ∀ paddr < totalMem, InBounds final cpuId paddr) ↔
      memBin.toNat ∣ totalMem.toNat := by
  rcases (run_append_iff _ _ _ _ _ _).mp done with ⟨before, _, _, earlier, rest, -⟩
  rcases (run_cons_iff _ _ _ _ _ _).mp rest with ⟨begun, _, _, started, after, -⟩
  have same : before.ncores = cores := run_cores (installed cores) before history _ earlier
  rcases start_sized report opens accBin before begun _ started with ⟨sized, divisible⟩
  rw [same] at sized divisible
  have sized' := along_invariant step (fun _ event => event.isStart = false)
    (Sized cores totalMem memBin)
    (fun state event next emitted holds other taken =>
      step_sized state next event emitted holds other taken)
    begun final later _ (along_all step _ begun later only) sized after
  have nonzero : 0 < memBin.toNat := by
    rcases divisible with none_ | some_
    · omega
    · exact Nat.pos_of_ne_zero fun zero => some_ (UInt32.toNat_inj.mp zero)
  rw [← bins_cover_iff totalMem.toNat memBin.toNat nonzero]
  constructor
  · intro covered offset inside
    have small : offset < 2 ^ 64 := Nat.lt_trans inside totalMem.toNat_lt
    have whole : (UInt64.ofNat offset).toNat = offset := UInt64.toNat_ofNat_of_lt' small
    have below := (in_bounds_iff final sized' 0 positive (UInt64.ofNat offset)).mp
      (covered 0 positive (UInt64.ofNat offset) (UInt64.lt_iff_toNat_lt.mpr (by rwa [whole])))
    simpa [binOf, UInt64.toNat_div, whole] using below
  · intro covered cpuId core paddr inside
    rw [in_bounds_iff final sized' cpuId core paddr]
    simpa [binOf, UInt64.toNat_div] using covered paddr.toNat (UInt64.lt_iff_toNat_lt.mp inside)

/-- Half the RAM in smaller bins, before it grows. -/
def smaller : List Event :=
  [.start none true 0x1000000 0x400000 1, .access 0 ⟨0x500000, false, false⟩, .stop]

def counted : List Event :=
  [.access 0 ⟨0x1ffffff, false, false⟩, .tag ['t'], .access 0 ⟨0, true, false⟩]

theorem whole_bins_in_bounds :
    ∃ final lines, run step (installed 1)
        (smaller ++ .start none true 0x2000000 0x1000000 1 :: counted) = .ok (final, lines) ∧
      ((∀ cpuId < 1, ∀ paddr < 0x2000000, InBounds final cpuId paddr) ↔
        (0x1000000 : UInt32).toNat ∣ (0x2000000 : UInt64).toNat) :=
  ⟨_, _, rfl, histogram_bounds_iff 1 (by decide) smaller counted none true 1 _ _ (by decide) rfl⟩

/-- 24 MiB of RAM in bins of 16 MiB: the upper third has no bin. -/
theorem last_bin_missing :
    run step (installed 1) [.start none true 0x1800000 0x1000000 100,
      .access 0 ⟨0x1000000, false, false⟩] = .error .outOfBounds := by
  decide

end Hypersh.Mcount
