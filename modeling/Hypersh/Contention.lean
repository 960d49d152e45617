import Mathlib.Algebra.Group.Nat.Defs
import Mathlib.Data.List.Basic
import Hypersh.Transduction
import Hypersh.Locks
import Hypersh.Getopt
import Hypersh.Callbacks
import Hypersh.Mcount

/-!
The callbacks of host/mcount.cc step by step, on all vcpus at once. Between two steps of
one vcpu any others may take theirs. A step reads or writes one variable, takes or gives
back `flush_mtx`, or is a piece of output that `flush_mtx` keeps in one piece.
-/
namespace Hypersh.Contention
open Getopt Locks Mcount Transduction
variable {n : Nat}

/-- Where a vcpu is in `hypercall_mcount_cb` or in `hypercall_mcount_fini`. -/
inductive Phase where
  | outside
  | counting (access : Access)
  | due (access : Access)
  | rechecking (access : Access)
  | printing (access : Access)
  | printingUser (access : Access)
  | unlocking (access : Access)
  | classifying (access : Access)
  | loading (access : Access)
  | storing (access : Access) (count : UInt32)
  | stopping
  | locking
  | tagging
  | totalling
  | comparing
  | closing
  | clearing
  | leaving
  deriving DecidableEq, Repr

def Phase.hold : Phase → Hold
  | .rechecking _ | .printing _ | .printingUser _ | .unlocking _ => .whole
  | .loading _ | .storing _ _ => .part
  | .tagging | .totalling | .comparing | .closing | .clearing | .leaving => .part
  | _ => .nothing

def Phase.stops : Phase → Bool
  | .stopping | .locking | .tagging | .totalling | .comparing | .closing | .clearing => true
  | _ => false

/-- The next use of `cfg.report` finds it tested. -/
def Phase.reports : Phase → Bool
  | .printing _ | .printingUser _ => true
  | .locking | .tagging | .totalling | .comparing | .closing => true
  | _ => false

/-- `closed` is the `FILE` behind `cfg.report`. -/
structure State (n : Nat) extends Threads (Fin n) Phase where
  statics : Statics
  flushMtx : SharedMutex (Fin n)
  closed : Bool

/-- What is written to the report. `kernel` is up to `U = {`, where `user` begins. -/
inductive Line where
  | kernel (rows : List Row)
  | user (rows : List Row)
  | tags (tags : List (Word × UInt64))
  | totals (accCnt accIoCnt : UInt64)
  | close
  deriving DecidableEq, Repr

/-- A vcpu runs one callback at a time and waits where the lock is taken. A `FILE` is
used or closed after it has been closed. -/
inductive Fault where
  | outOfOrder
  | blocked
  | closedReport
  | plugin (fault : Mcount.Fault)
  deriving DecidableEq, Repr

abbrev Outcome (n : Nat) := Except Fault (State n × List Line)

abbrev State.move (state : State n) (vcpu : Fin n) (phase : Phase) : State n :=
  { state with toThreads := state.toThreads.move vcpu phase }

def State.set (state : State n) (statics : Statics) : State n := { state with statics := statics }

def classMaps (kernel : Bool) (statics : Statics) : Maps :=
  if kernel then statics.kmaps else statics.umaps

def setClass (kernel : Bool) (maps : Maps) (statics : Statics) : Statics :=
  if kernel then { statics with kmaps := maps } else { statics with umaps := maps }

@[simp]
theorem set_class_cfg (kernel : Bool) (maps : Maps) (statics : Statics) :
    (setClass kernel maps statics).cfg = statics.cfg := by
  cases kernel <;> rfl

def cell (maps : Maps) (cpuId bin : Nat) : Option UInt32 := maps[cpuId]?.bind fun row => row[bin]?

def setCell (cpuId bin : Nat) (count : UInt32) (maps : Maps) : Maps :=
  maps.modify cpuId fun row => row.set bin count

def holding (vcpu : Fin n) (flushMtx : Option (SharedMutex (Fin n))) (phase : Phase)
    (state : State n) : Outcome n :=
  match flushMtx with
  | none => .error .blocked
  | some flushMtx => .ok ({ state with flushMtx := flushMtx }.move vcpu phase, [])

def reporting (state : State n) (next : Outcome n) : Outcome n :=
  if state.statics.cfg.report = none then .error (.plugin .nullReport)
  else if state.closed then .error .closedReport
  else next

def printing (vcpu : Fin n) (kernel : Bool) (line : List Row → Line) (phase : Phase)
    (state : State n) : Outcome n :=
  reporting state
    (match flush state.statics.ncores (classMaps kernel state.statics) with
    | .error fault => .error (.plugin fault)
    | .ok (rows, maps) =>
        .ok ((state.set (setClass kernel maps state.statics)).move vcpu phase, [line rows]))

def advance (vcpu : Fin n) (state : State n) : Phase → Outcome n
  | .outside => .error .outOfOrder
  | .counting access =>
      if state.statics.cfg.accBin = 0 then .error (.plugin .divisionByZero)
      else
        let accCnt := state.statics.accCnt + 1
        .ok ((state.set { state.statics with accCnt := accCnt }).move vcpu
          (if accCnt % state.statics.cfg.accBin.toUInt64 = 0 then .due access
            else .classifying access), [])
  | .due access => holding vcpu (state.flushMtx.lock vcpu) (.rechecking access) state
  | .rechecking access =>
      -- The return gives the lock back, and the access is never binned.
      if state.statics.cfg.mode = .off then
        holding vcpu (state.flushMtx.unlock vcpu) .outside state
      else .ok (state.move vcpu (.printing access), [])
  | .printing access => printing vcpu true .kernel (.printingUser access) state
  | .printingUser access => printing vcpu false .user (.unlocking access) state
  | .unlocking access => holding vcpu (state.flushMtx.unlock vcpu) (.classifying access) state
  | .classifying access =>
      if access.isIo then
        .ok ((state.set { state.statics with accIoCnt := state.statics.accIoCnt + 1 }).move vcpu
          .outside, [])
      else holding vcpu (state.flushMtx.lockShared vcpu) (.loading access) state
  | .loading access =>
      if state.statics.cfg.memBin = 0 then .error (.plugin .divisionByZero)
      else
        match cell (classMaps access.isKernel state.statics) vcpu.val
            (binOf state.statics.cfg.memBin access.paddr) with
        | none => .error (.plugin .outOfBounds)
        | some count => .ok (state.move vcpu (.storing access count), [])
  | .storing access count =>
      let maps := setCell vcpu.val (binOf state.statics.cfg.memBin access.paddr) (count + 1)
        (classMaps access.isKernel state.statics)
      .ok ((state.set (setClass access.isKernel maps state.statics)).move vcpu .leaving, [])
  | .stopping =>
      .ok (state.move vcpu
        (if state.statics.cfg.report.isSome then .locking else .outside), [])
  | .locking => holding vcpu (state.flushMtx.lockShared vcpu) .tagging state
  | .tagging => reporting state (.ok (state.move vcpu .totalling, [.tags state.statics.tags]))
  | .totalling =>
      reporting state (.ok (state.move vcpu .comparing,
        [.totals state.statics.accCnt state.statics.accIoCnt]))
  | .comparing =>
      .ok (state.move vcpu
        (if state.statics.cfg.report = some .stdout then .clearing else .closing), [])
  | .closing => reporting state (.ok ({ state with closed := true }.move vcpu .clearing, [.close]))
  | .clearing =>
      .ok ((state.set { state.statics with
        cfg := { state.statics.cfg with report := none } }).move vcpu .leaving, [])
  | .leaving => holding vcpu (state.flushMtx.unlockShared vcpu) .outside state

inductive Event (n : Nat) where
  | access (vcpu : Fin n) (access : Access)
  | stop (vcpu : Fin n)
  | advance (vcpu : Fin n)
  deriving DecidableEq, Repr

def step : Step (State n) (Event n) Line Fault :=
  fun state event =>
    match event with
    | .access vcpu access =>
        if state.phase vcpu ≠ .outside then .error .outOfOrder
        else if state.statics.cfg.mode = .off then .ok (state, [])
        else .ok (state.move vcpu (.counting access), [])
    | .stop vcpu =>
        if state.phase vcpu ≠ .outside then .error .outOfOrder
        else
          .ok ((state.set { state.statics with
            cfg := { state.statics.cfg with mode := .off } }).move vcpu .stopping, [])
    | .advance vcpu => advance vcpu state (state.phase vcpu)

def quiet (n : Nat) (statics : Statics) : State n where
  statics := statics
  flushMtx := SharedMutex.free
  closed := false
  phase := fun _ => .outside

/-! What a step does. -/

inductive Advanced (vcpu : Fin n) (state : State n) : Phase → State n → List Line → Prop where
  | counted (access : Access) (accCnt : UInt64) (positive : state.statics.cfg.accBin ≠ 0)
      (next : accCnt = state.statics.accCnt + 1) :
      Advanced vcpu state (.counting access)
        ((state.set { state.statics with accCnt := accCnt }).move vcpu
          (if accCnt % state.statics.cfg.accBin.toUInt64 = 0 then .due access
            else .classifying access)) []
  | locked (access : Access) (flushMtx : SharedMutex (Fin n))
      (taken : state.flushMtx.lock vcpu = some flushMtx) :
      Advanced vcpu state (.due access)
        ({ state with flushMtx := flushMtx }.move vcpu (.rechecking access)) []
  | dropped (access : Access) (flushMtx : SharedMutex (Fin n))
      (off : state.statics.cfg.mode = .off) (freed : state.flushMtx.unlock vcpu = some flushMtx) :
      Advanced vcpu state (.rechecking access)
        ({ state with flushMtx := flushMtx }.move vcpu .outside) []
  | passed (access : Access) (on : state.statics.cfg.mode ≠ .off) :
      Advanced vcpu state (.rechecking access) (state.move vcpu (.printing access)) []
  | kernel (access : Access) (rows : List Row) (maps : Maps)
      (file : state.statics.cfg.report ≠ none) (open_ : state.closed = false)
      (flushed : flush state.statics.ncores (classMaps true state.statics) = .ok (rows, maps)) :
      Advanced vcpu state (.printing access)
        ((state.set (setClass true maps state.statics)).move vcpu (.printingUser access))
        [.kernel rows]
  | user (access : Access) (rows : List Row) (maps : Maps)
      (file : state.statics.cfg.report ≠ none) (open_ : state.closed = false)
      (flushed : flush state.statics.ncores (classMaps false state.statics) = .ok (rows, maps)) :
      Advanced vcpu state (.printingUser access)
        ((state.set (setClass false maps state.statics)).move vcpu (.unlocking access))
        [.user rows]
  | unlocked (access : Access) (flushMtx : SharedMutex (Fin n))
      (freed : state.flushMtx.unlock vcpu = some flushMtx) :
      Advanced vcpu state (.unlocking access)
        ({ state with flushMtx := flushMtx }.move vcpu (.classifying access)) []
  | io (access : Access) (isIo : access.isIo = true) :
      Advanced vcpu state (.classifying access)
        ((state.set { state.statics with accIoCnt := state.statics.accIoCnt + 1 }).move vcpu
          .outside) []
  | shared (access : Access) (flushMtx : SharedMutex (Fin n)) (memory : access.isIo = false)
      (taken : state.flushMtx.lockShared vcpu = some flushMtx) :
      Advanced vcpu state (.classifying access)
        ({ state with flushMtx := flushMtx }.move vcpu (.loading access)) []
  | loaded (access : Access) (count : UInt32)
      (here : cell (classMaps access.isKernel state.statics) vcpu.val
        (binOf state.statics.cfg.memBin access.paddr) = some count) :
      Advanced vcpu state (.loading access) (state.move vcpu (.storing access count)) []
  | stored (access : Access) (count : UInt32) :
      Advanced vcpu state (.storing access count)
        ((state.set (setClass access.isKernel
          (setCell vcpu.val (binOf state.statics.cfg.memBin access.paddr) (count + 1)
            (classMaps access.isKernel state.statics)) state.statics)).move vcpu .leaving) []
  | stopped : Advanced vcpu state .stopping
      (state.move vcpu (if state.statics.cfg.report.isSome then .locking else .outside)) []
  | joined (flushMtx : SharedMutex (Fin n))
      (taken : state.flushMtx.lockShared vcpu = some flushMtx) :
      Advanced vcpu state .locking ({ state with flushMtx := flushMtx }.move vcpu .tagging) []
  | tagged (file : state.statics.cfg.report ≠ none) (open_ : state.closed = false) :
      Advanced vcpu state .tagging (state.move vcpu .totalling) [.tags state.statics.tags]
  | totalled (file : state.statics.cfg.report ≠ none) (open_ : state.closed = false) :
      Advanced vcpu state .totalling (state.move vcpu .comparing)
        [.totals state.statics.accCnt state.statics.accIoCnt]
  | compared : Advanced vcpu state .comparing
      (state.move vcpu
        (if state.statics.cfg.report = some .stdout then .clearing else .closing)) []
  | closed (file : state.statics.cfg.report ≠ none) (open_ : state.closed = false) :
      Advanced vcpu state .closing ({ state with closed := true }.move vcpu .clearing) [.close]
  | cleared : Advanced vcpu state .clearing
      ((state.set { state.statics with
        cfg := { state.statics.cfg with report := none } }).move vcpu .leaving) []
  | left (flushMtx : SharedMutex (Fin n))
      (freed : state.flushMtx.unlockShared vcpu = some flushMtx) :
      Advanced vcpu state .leaving ({ state with flushMtx := flushMtx }.move vcpu .outside) []

theorem holding_ok (vcpu : Fin n) (flushMtx : Option (SharedMutex (Fin n))) (phase : Phase)
    (state next : State n) (lines : List Line)
    (done : holding vcpu flushMtx phase state = .ok (next, lines)) :
    ∃ after, flushMtx = some after ∧ next = { state with flushMtx := after }.move vcpu phase ∧
      lines = [] := by
  cases flushMtx with
  | none => cases done
  | some after =>
      cases done
      exact ⟨after, rfl, rfl, rfl⟩

theorem reporting_ok (state next : State n) (outcome : Outcome n) (lines : List Line)
    (done : reporting state outcome = .ok (next, lines)) :
    state.statics.cfg.report ≠ none ∧ state.closed = false ∧ outcome = .ok (next, lines) := by
  unfold reporting at done
  split at done
  · cases done
  · rename_i file
    split at done
    · cases done
    · rename_i open_
      exact ⟨file, Bool.eq_false_iff.mpr open_, done⟩

theorem printing_ok (vcpu : Fin n) (kernel : Bool) (line : List Row → Line) (phase : Phase)
    (state next : State n) (lines : List Line)
    (done : printing vcpu kernel line phase state = .ok (next, lines)) :
    state.statics.cfg.report ≠ none ∧ state.closed = false ∧ ∃ rows maps,
      flush state.statics.ncores (classMaps kernel state.statics) = .ok (rows, maps) ∧
      next = (state.set (setClass kernel maps state.statics)).move vcpu phase ∧
      lines = [line rows] := by
  obtain ⟨file, open_, printed⟩ := reporting_ok _ _ _ _ done
  refine ⟨file, open_, ?_⟩
  split at printed
  · cases printed
  · rename_i rows maps flushed
    cases printed
    exact ⟨rows, maps, flushed, rfl, rfl⟩

theorem advance_cases (vcpu : Fin n) (state next : State n) (phase : Phase) (lines : List Line)
    (done : advance vcpu state phase = .ok (next, lines)) :
    Advanced vcpu state phase next lines := by
  cases phase with
  | outside => cases done
  | counting access =>
      simp only [advance] at done
      split at done
      · cases done
      · rename_i positive
        cases done
        exact .counted access _ positive rfl
  | due access =>
      obtain ⟨flushMtx, taken, rfl, rfl⟩ := holding_ok _ _ _ _ _ _ done
      exact .locked access flushMtx taken
  | rechecking access =>
      simp only [advance] at done
      split at done
      · rename_i off
        obtain ⟨flushMtx, freed, rfl, rfl⟩ := holding_ok _ _ _ _ _ _ done
        exact .dropped access flushMtx off freed
      · rename_i on
        cases done
        exact .passed access on
  | printing access =>
      obtain ⟨file, open_, rows, maps, flushed, rfl, rfl⟩ := printing_ok _ _ _ _ _ _ _ done
      exact .kernel access rows maps file open_ flushed
  | printingUser access =>
      obtain ⟨file, open_, rows, maps, flushed, rfl, rfl⟩ := printing_ok _ _ _ _ _ _ _ done
      exact .user access rows maps file open_ flushed
  | unlocking access =>
      obtain ⟨flushMtx, freed, rfl, rfl⟩ := holding_ok _ _ _ _ _ _ done
      exact .unlocked access flushMtx freed
  | classifying access =>
      simp only [advance] at done
      split at done
      · rename_i isIo
        cases done
        exact .io access isIo
      · rename_i memory
        obtain ⟨flushMtx, taken, rfl, rfl⟩ := holding_ok _ _ _ _ _ _ done
        exact .shared access flushMtx (Bool.eq_false_iff.mpr memory) taken
  | loading access =>
      simp only [advance] at done
      split at done
      · cases done
      · split at done
        · cases done
        · rename_i count here
          cases done
          exact .loaded access count here
  | storing access count =>
      cases done
      exact .stored access count
  | stopping =>
      cases done
      exact .stopped
  | locking =>
      obtain ⟨flushMtx, taken, rfl, rfl⟩ := holding_ok _ _ _ _ _ _ done
      exact .joined flushMtx taken
  | tagging =>
      obtain ⟨file, open_, written⟩ := reporting_ok _ _ _ _ done
      cases written
      exact .tagged file open_
  | totalling =>
      obtain ⟨file, open_, written⟩ := reporting_ok _ _ _ _ done
      cases written
      exact .totalled file open_
  | comparing =>
      cases done
      exact .compared
  | closing =>
      obtain ⟨file, open_, written⟩ := reporting_ok _ _ _ _ done
      cases written
      exact .closed file open_
  | clearing =>
      cases done
      exact .cleared
  | leaving =>
      obtain ⟨flushMtx, freed, rfl, rfl⟩ := holding_ok _ _ _ _ _ _ done
      exact .left flushMtx freed

theorem step_cases (state next : State n) (event : Event n) (lines : List Line)
    (taken : step state event = .ok (next, lines)) :
    (∃ vcpu access, event = .access vcpu access ∧ state.phase vcpu = .outside ∧ lines = [] ∧
      (state.statics.cfg.mode = .off ∧ next = state ∨
        state.statics.cfg.mode ≠ .off ∧ next = state.move vcpu (.counting access))) ∨
    (∃ vcpu, event = .stop vcpu ∧ state.phase vcpu = .outside ∧ lines = [] ∧
      next = (state.set { state.statics with
        cfg := { state.statics.cfg with mode := .off } }).move vcpu .stopping) ∨
    ∃ vcpu, event = .advance vcpu ∧ Advanced vcpu state (state.phase vcpu) next lines := by
  cases event with
  | access vcpu access =>
      simp only [step] at taken
      split at taken
      · cases taken
      · rename_i outside
        split at taken
        · rename_i off
          cases taken
          exact .inl ⟨vcpu, access, rfl, not_not.mp outside, rfl, .inl ⟨off, rfl⟩⟩
        · rename_i on
          cases taken
          exact .inl ⟨vcpu, access, rfl, not_not.mp outside, rfl, .inr ⟨on, rfl⟩⟩
  | stop vcpu =>
      simp only [step] at taken
      split at taken
      · cases taken
      · rename_i outside
        cases taken
        exact .inr (.inl ⟨vcpu, rfl, not_not.mp outside, rfl, rfl⟩)
  | advance vcpu => exact .inr (.inr ⟨vcpu, rfl, advance_cases vcpu state next _ lines taken⟩)

/-! The lock is held as the program counters say. -/

def Locked (state : State n) : Prop := Guarded state.flushMtx (state.toThreads.hold Phase.hold)

theorem move_locked (state : State n) (statics : Statics) (vcpu : Fin n) (from_ phase : Phase)
    (locked : Locked state) (here : state.phase vcpu = from_) (same : from_.hold = phase.hold) :
    Locked ((state.set statics).move vcpu phase) := by
  unfold Locked
  rw [move_hold]
  apply guarded_kept _ _ _ _ locked
  rw [← same, ← here]
  rfl

theorem advanced_locked (vcpu : Fin n) (state next : State n) (phase : Phase)
    (lines : List Line) (locked : Locked state) (here : state.phase vcpu = phase)
    (advanced : Advanced vcpu state phase next lines) : Locked next := by
  have nothing : phase.hold = .nothing → state.toThreads.hold Phase.hold vcpu = .nothing :=
    fun holds => by rw [Threads.hold, here, holds]
  cases advanced with
  | counted access accCnt positive next =>
      apply move_locked state _ vcpu _ _ locked here
      split <;> rfl
  | locked access flushMtx taken =>
      unfold Locked
      rw [move_hold]
      exact guarded_lock _ _ _ vcpu locked taken
  | dropped access flushMtx off freed =>
      unfold Locked
      rw [move_hold]
      exact guarded_unlock _ _ _ vcpu locked freed
  | passed access on => exact move_locked state state.statics vcpu _ _ locked here rfl
  | kernel access rows maps file open_ flushed => exact move_locked state _ vcpu _ _ locked here rfl
  | user access rows maps file open_ flushed => exact move_locked state _ vcpu _ _ locked here rfl
  | unlocked access flushMtx freed =>
      unfold Locked
      rw [move_hold]
      exact guarded_unlock _ _ _ vcpu locked freed
  | io access isIo => exact move_locked state _ vcpu _ _ locked here rfl
  | shared access flushMtx memory taken =>
      unfold Locked
      rw [move_hold]
      exact guarded_lock_shared _ _ _ vcpu locked (nothing rfl) taken
  | loaded access count found => exact move_locked state state.statics vcpu _ _ locked here rfl
  | stored access count => exact move_locked state _ vcpu _ _ locked here rfl
  | stopped =>
      apply move_locked state state.statics vcpu _ _ locked here
      split <;> rfl
  | joined flushMtx taken =>
      unfold Locked
      rw [move_hold]
      exact guarded_lock_shared _ _ _ vcpu locked (nothing rfl) taken
  | tagged file open_ => exact move_locked state state.statics vcpu _ _ locked here rfl
  | totalled file open_ => exact move_locked state state.statics vcpu _ _ locked here rfl
  | compared =>
      apply move_locked state state.statics vcpu _ _ locked here
      split <;> rfl
  | closed file open_ =>
      exact move_locked { state with closed := true } state.statics vcpu _ _ locked here rfl
  | cleared => exact move_locked state _ vcpu _ _ locked here rfl
  | left flushMtx freed =>
      unfold Locked
      rw [move_hold]
      exact guarded_unlock_shared _ _ _ vcpu locked freed

theorem step_locked (state next : State n) (event : Event n) (lines : List Line)
    (locked : Locked state) (taken : step state event = .ok (next, lines)) : Locked next := by
  rcases step_cases state next event lines taken with
    ⟨vcpu, access, rfl, outside, -, ⟨-, rfl⟩ | ⟨-, rfl⟩⟩ | ⟨vcpu, rfl, outside, -, rfl⟩ |
      ⟨vcpu, rfl, advanced⟩
  · exact locked
  · exact move_locked state state.statics vcpu _ _ locked outside rfl
  · exact move_locked state _ vcpu _ _ locked outside rfl
  · exact advanced_locked vcpu state next _ lines locked rfl advanced

theorem alone (state : State n) (locked : Locked state) (vcpu other : Fin n)
    (whole : (state.phase vcpu).hold = .whole) (apart : other ≠ vcpu) :
    (state.phase other).hold = .nothing := by
  by_contra holds
  exact apart (guarded_alone _ _ locked vcpu other whole holds)

/-! Callbacks come to their ends. -/

/-- How many steps a callback has left at most. -/
def Phase.rank : Phase → Nat
  | .outside => 0
  | .counting _ => 10
  | .due _ => 9
  | .rechecking _ => 8
  | .printing _ => 7
  | .printingUser _ => 6
  | .unlocking _ => 5
  | .classifying _ => 4
  | .loading _ => 3
  | .storing _ _ => 2
  | .stopping => 8
  | .locking => 7
  | .tagging => 6
  | .totalling => 5
  | .comparing => 4
  | .closing => 3
  | .clearing => 2
  | .leaving => 1

theorem advanced_rank (vcpu : Fin n) (state next : State n) (phase : Phase) (lines : List Line)
    (advanced : Advanced vcpu state phase next lines) :
    ∃ after, next.phase = (state.move vcpu after).phase ∧ after.rank < phase.rank := by
  cases advanced with
  | counted access accCnt positive next =>
      refine ⟨_, rfl, ?_⟩
      split <;> simp [Phase.rank]
  | stopped =>
      refine ⟨_, rfl, ?_⟩
      split <;> simp [Phase.rank]
  | compared =>
      refine ⟨_, rfl, ?_⟩
      split <;> simp [Phase.rank]
  | stored access count => exact ⟨.leaving, rfl, by simp [Phase.rank]⟩
  | _ => exact ⟨_, rfl, by simp [Phase.rank]⟩

theorem reporting_goes_on (state : State n) (outcome : Outcome n)
    (going : outcome ≠ .error .blocked) : reporting state outcome ≠ .error .blocked := by
  unfold reporting
  split
  · simp
  · split
    · simp
    · exact going

theorem printing_goes_on (vcpu : Fin n) (kernel : Bool) (line : List Row → Line) (phase : Phase)
    (state : State n) : printing vcpu kernel line phase state ≠ .error .blocked := by
  apply reporting_goes_on
  split <;> simp

theorem holder_goes_on (state : State n) (locked : Locked state) (vcpu : Fin n)
    (holds : (state.phase vcpu).hold ≠ .nothing) :
    advance vcpu state (state.phase vcpu) ≠ .error .blocked := by
  have release := guarded_release _ _ vcpu locked
  cases here : state.phase vcpu with
  | rechecking access =>
      obtain ⟨next, freed⟩ := release.1 (by rw [Threads.hold, here]; rfl)
      simp only [advance, freed]
      split <;> simp [holding]
  | unlocking access =>
      obtain ⟨next, freed⟩ := release.1 (by rw [Threads.hold, here]; rfl)
      simp [advance, freed, holding]
  | leaving =>
      obtain ⟨next, freed⟩ := release.2 (by rw [Threads.hold, here]; rfl)
      simp [advance, freed, holding]
  | printing access => exact printing_goes_on _ _ _ _ _
  | printingUser access => exact printing_goes_on _ _ _ _ _
  | loading access =>
      simp only [advance]
      split
      · simp
      · split <;> simp
  | storing access count => simp [advance]
  | tagging => exact reporting_goes_on _ _ (by simp)
  | totalling => exact reporting_goes_on _ _ (by simp)
  | closing => exact reporting_goes_on _ _ (by simp)
  | comparing => simp [advance]
  | clearing => simp [advance]
  | _ =>
      rw [here] at holds
      exact absurd rfl holds

theorem free_goes_on (state : State n) (vcpu : Fin n) (free : state.flushMtx = .shared [])
    (nothing : (state.phase vcpu).hold = .nothing) (inside : state.phase vcpu ≠ .outside) :
    advance vcpu state (state.phase vcpu) ≠ .error .blocked := by
  cases here : state.phase vcpu with
  | outside => exact absurd here inside
  | counting access =>
      simp only [advance]
      split <;> simp
  | due access => simp [advance, free, SharedMutex.lock, holding]
  | classifying access =>
      simp only [advance, free, SharedMutex.lockShared, holding]
      split <;> simp
  | stopping => simp [advance]
  | locking => simp [advance, free, SharedMutex.lockShared, holding]
  | _ =>
      rw [here] at nothing
      cases nothing

/-- As long as a callback is in progress, one that is in progress can go on. -/
theorem somebody_goes_on (state : State n) (locked : Locked state) (vcpu : Fin n)
    (inside : state.phase vcpu ≠ .outside) : ∃ other, state.phase other ≠ .outside ∧
      advance other state (state.phase other) ≠ .error .blocked := by
  have goes : ∀ other, (state.phase other).hold ≠ .nothing → state.phase other ≠ .outside ∧
      advance other state (state.phase other) ≠ .error .blocked := by
    intro other holds
    refine ⟨fun outside => ?_, holder_goes_on state locked other holds⟩
    rw [outside] at holds
    exact holds rfl
  cases mutex : state.flushMtx with
  | exclusive owner =>
      have alone := (locked.whole_iff owner).mpr mutex
      exact ⟨owner, goes owner fun nothing => by
        rw [Threads.hold, nothing] at alone
        cases alone⟩
  | shared holders =>
      cases holders with
      | cons holder rest =>
          have shares := (locked.part_iff holder).mpr ⟨_, mutex, List.mem_cons_self⟩
          exact ⟨holder, goes holder fun nothing => by
            rw [Threads.hold, nothing] at shares
            cases shares⟩
      | nil =>
          by_cases nothing : (state.phase vcpu).hold = .nothing
          · exact ⟨vcpu, inside, free_goes_on state vcpu mutex nothing inside⟩
          · exact ⟨vcpu, goes vcpu nothing⟩

theorem holding_in_order (vcpu : Fin n) (flushMtx : Option (SharedMutex (Fin n))) (phase : Phase)
    (state : State n) : holding vcpu flushMtx phase state ≠ .error .outOfOrder := by
  cases flushMtx <;> simp [holding]

theorem reporting_in_order (state : State n) (outcome : Outcome n)
    (ordered : outcome ≠ .error .outOfOrder) : reporting state outcome ≠ .error .outOfOrder := by
  unfold reporting
  split
  · simp
  · split
    · simp
    · exact ordered

theorem printing_in_order (vcpu : Fin n) (kernel : Bool) (line : List Row → Line) (phase : Phase)
    (state : State n) : printing vcpu kernel line phase state ≠ .error .outOfOrder := by
  apply reporting_in_order
  split <;> simp

theorem advance_in_order (vcpu : Fin n) (state : State n) (phase : Phase)
    (inside : phase ≠ .outside) : advance vcpu state phase ≠ .error .outOfOrder := by
  cases phase with
  | outside => exact absurd rfl inside
  | counting access =>
      simp only [advance]
      split <;> simp
  | rechecking access =>
      simp only [advance]
      split
      · exact holding_in_order _ _ _ _
      · simp
  | classifying access =>
      simp only [advance]
      split
      · simp
      · exact holding_in_order _ _ _ _
  | loading access =>
      simp only [advance]
      split
      · simp
      · split <;> simp
  | printing access => exact printing_in_order _ _ _ _ _
  | printingUser access => exact printing_in_order _ _ _ _ _
  | storing access count => simp [advance]
  | stopping => simp [advance]
  | tagging => exact reporting_in_order _ _ (by simp)
  | totalling => exact reporting_in_order _ _ (by simp)
  | closing => exact reporting_in_order _ _ (by simp)
  | comparing => simp [advance]
  | clearing => simp [advance]
  | due access => exact holding_in_order _ _ _ _
  | unlocking access => exact holding_in_order _ _ _ _
  | locking => exact holding_in_order _ _ _ _
  | leaving => exact holding_in_order _ _ _ _

/-- Kept waiting or begun too early: not a way for the process to die. -/
def Fault.dies : Fault → Bool
  | .outOfOrder | .blocked => false
  | .closedReport | .plugin _ => true

theorem locked_complete (state : State n) (locked : Locked state) :
    ∃ vcpus : List (Fin n),
      (∃ final lines, run step state (vcpus.map .advance) = .ok (final, lines) ∧
        ∀ vcpu, final.phase vcpu = .outside) ∨
      ∃ fault, fault.dies = true ∧ run step state (vcpus.map .advance) = .error fault := by
  -- Induction on the steps that are left to all of them together.
  induction left : census Phase.rank state.phase using Nat.strongRecOn generalizing state with
  | ind left_ ih =>
      by_cases everybody : ∀ vcpu, state.phase vcpu = .outside
      · exact ⟨[], .inl ⟨state, [], rfl, everybody⟩⟩
      · obtain ⟨vcpu, inside⟩ := not_forall.mp everybody
        obtain ⟨other, inside, going⟩ := somebody_goes_on state locked vcpu inside
        cases taken : advance other state (state.phase other) with
        | error fault =>
            refine ⟨[other], ?_⟩
            cases fault with
            | blocked => exact absurd taken going
            | outOfOrder => exact absurd taken (advance_in_order other state _ inside)
            | closedReport => exact .inr ⟨.closedReport, rfl, by simp [run, step, taken]⟩
            | plugin fault => exact .inr ⟨.plugin fault, rfl, by simp [run, step, taken]⟩
        | ok result =>
            obtain ⟨next, lines⟩ := result
            have advanced := advance_cases other state next _ lines taken
            obtain ⟨after, moved, lower⟩ := advanced_rank other state next _ lines advanced
            have sum := census_update Phase.rank state.phase other after
            have fewer : census Phase.rank next.phase < left_ := by
              rw [moved, ← left]
              change census Phase.rank (Function.update state.phase other after) < _
              omega
            obtain ⟨vcpus, completes⟩ := ih _ fewer next
              (advanced_locked other state next _ lines locked rfl advanced) rfl
            have first : step state (.advance other) = .ok (next, lines) := taken
            refine ⟨other :: vcpus, completes.imp ?_ ?_⟩
            · rintro ⟨final, later, ran, ended⟩
              exact ⟨final, _, run_cons_ok _ _ _ _ _ _ _ _ first ran, ended⟩
            · rintro ⟨fault, dies, died⟩
              refine ⟨fault, dies, ?_⟩
              simp [run, first, died]

theorem advances_bounded (vcpus : List (Fin n)) (state final : State n) (lines : List Line)
    (done : run step state (vcpus.map .advance) = .ok (final, lines)) :
    vcpus.length + census Phase.rank final.phase ≤ census Phase.rank state.phase := by
  induction vcpus generalizing state lines with
  | nil =>
      cases done
      exact Nat.le_of_eq (Nat.zero_add _)
  | cons vcpu rest ih =>
      obtain ⟨next, emitted, later, first, tail, -⟩ := (run_cons_iff _ _ _ _ _ _).mp done
      obtain ⟨after, moved, lower⟩ :=
        advanced_rank vcpu state next _ emitted (advance_cases vcpu state next _ emitted first)
      have sum := census_update Phase.rank state.phase vcpu after
      have kept := ih next later tail
      rw [moved] at kept
      change rest.length + _ ≤ census Phase.rank (Function.update state.phase vcpu after) at kept
      rw [List.length_cons]
      omega

/-- No interleaving deadlocks: from every state that the callbacks can get into, those in
progress can all be brought to their ends or one of them dies, and they are through after
at most ten steps for each vcpu, whichever goes first. -/
theorem callbacks_complete (statics : Statics) (events : List (Event n)) (state : State n)
    (lines : List Line) (done : run step (quiet n statics) events = .ok (state, lines)) :
    (∃ vcpus : List (Fin n),
      (∃ final later, run step state (vcpus.map .advance) = .ok (final, later) ∧
        ∀ vcpu, final.phase vcpu = .outside) ∨
      ∃ fault, fault.dies = true ∧ run step state (vcpus.map .advance) = .error fault) ∧
    ∀ (vcpus : List (Fin n)) final later,
      run step state (vcpus.map .advance) = .ok (final, later) → vcpus.length ≤ 10 * n := by
  have locked := run_invariant step Locked
    (fun state event next emitted held taken => step_locked state next event emitted held taken)
    (quiet n statics) state events lines (guarded_free _ fun _ => rfl) done
  refine ⟨locked_complete state locked, fun vcpus final later ran => ?_⟩
  have bounded := advances_bounded vcpus state final later ran
  have all := census_bounded Phase.rank state.phase 10 fun vcpu => by
    cases state.phase vcpu <;> simp [Phase.rank]
  rw [Fintype.card_fin] at all
  omega

def everyAccess : Statics where
  cfg := ⟨.on, some .stdout, 0x1000000, 1, 0x2000000⟩
  kmaps := [[0, 0], [0, 0]]
  umaps := [[0, 0], [0, 0]]
  tags := []
  accCnt := 0
  accIoCnt := 0
  ncores := 2

/-- The second vcpu stops while the first writes its report. -/
def stoppedWithin : List (Event 2) :=
  [.access firstVcpu ⟨0x1000000, false, true⟩] ++ List.replicate 4 (.advance firstVcpu) ++
  [.stop secondVcpu, .advance secondVcpu, .advance firstVcpu, .advance firstVcpu] ++
  List.replicate 6 (.advance secondVcpu) ++ List.replicate 3 (.advance firstVcpu)

theorem stopped_within_complete : ∃ state lines,
    run step (quiet 2 everyAccess) (stoppedWithin.take 7) = .ok (state, lines) ∧
      state.phase firstVcpu = .printingUser ⟨0x1000000, false, true⟩ ∧
      state.phase secondVcpu = .locking ∧
      ∀ (vcpus : List (Fin 2)) final later, run step state (vcpus.map .advance) = .ok (final, later) →
        vcpus.length ≤ 10 * 2 :=
  ⟨_, _, rfl, rfl, rfl, (callbacks_complete everyAccess (stoppedWithin.take 7) _ _ rfl).2⟩

end Hypersh.Contention
