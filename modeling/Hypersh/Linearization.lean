import Mathlib.Algebra.Group.Nat.Defs
import Mathlib.Data.List.Basic
import Hypersh.Transduction
import Hypersh.Locks
import Hypersh.Getopt
import Hypersh.Callbacks
import Hypersh.Mcount
import Hypersh.Pmem
import Hypersh.Sampling

/-!
The callbacks of host/pmem.cc step by step, on all vcpus at once, with `count_lock` and
`file_lock`. Taken one by one in the order in which they store the count, the callbacks
of the plugin's atomic steps sample the same accesses.
-/
namespace Hypersh.Linearization
open Getopt Locks Transduction
open Pmem hiding step Event Fault Outcome
open Mcount (Report)
open Sampling (Logged)
variable {n : Nat}

/-- Where a vcpu is in `hypercall_pmem_cb` or in `hypercall_pmem_fini`. -/
inductive Phase where
  | outside
  | entered (access : Access)
  | loading (access : Access)
  | storing (access : Access) (count : UInt32)
  | releasing (access : Access) (due : Bool)
  | masking (access : Access)
  | queueing (access : Access)
  | printing (access : Access)
  | writing (access : Access) (file : Option Report)
  | leaving
  | testing
  | comparing
  | fetching
  | closing (file : Option Report)
  | clearing
  | switching
  deriving DecidableEq, Repr

def Phase.holdCount : Phase → Hold
  | .loading _ | .storing _ _ | .releasing _ _ => .whole
  | _ => .nothing

/-- The locks are `std::mutex`es: nobody shares them. `closed` is the `FILE` that
`pmem_file` has pointed to since the start. -/
structure State (n : Nat) extends Threads (Fin n) Phase where
  statics : Statics
  countLock : SharedMutex (Fin n)
  fileLock : SharedMutex (Fin n)
  closed : Bool

inductive Fault where
  | outOfOrder
  | blocked
  | closedFile
  | plugin (fault : Pmem.Fault)
  deriving DecidableEq, Repr

abbrev Outcome (n : Nat) := Except Fault (State n × List Output)

abbrev State.move (state : State n) (vcpu : Fin n) (phase : Phase) : State n :=
  { state with toThreads := state.toThreads.move vcpu phase }

def State.set (state : State n) (statics : Statics) : State n := { state with statics := statics }

def counting (vcpu : Fin n) (lock : Option (SharedMutex (Fin n))) (phase : Phase)
    (state : State n) : Outcome n :=
  match lock with
  | none => .error .blocked
  | some countLock => .ok ({ state with countLock := countLock }.move vcpu phase, [])

def filing (vcpu : Fin n) (lock : Option (SharedMutex (Fin n))) (phase : Phase)
    (state : State n) : Outcome n :=
  match lock with
  | none => .error .blocked
  | some fileLock => .ok ({ state with fileLock := fileLock }.move vcpu phase, [])

/-- A pointer that has been loaded is used. -/
def through (file : Option Report) (state : State n) (next : Outcome n) : Outcome n :=
  if file = none then .error (.plugin .nullFile)
  else if state.closed then .error .closedFile
  else next

def line (vcpu : Fin n) (access : Access) : Output :=
  .line vcpu.val access.isKernel access.isStore access.vaddr access.paddr

def masked (statics : Statics) (access : Access) : Bool :=
  statics.pmemAttr &&& access.attr == access.attr

def advance (vcpu : Fin n) (state : State n) : Phase → Outcome n
  | .outside => .error .outOfOrder
  | .entered access => counting vcpu (state.countLock.lock vcpu) (.loading access) state
  | .loading access => .ok (state.move vcpu (.storing access state.statics.pmemCount), [])
  | .storing access count =>
      if state.statics.pmemInt = 0 then .error (.plugin .divisionByZero)
      else
        .ok ((state.set { state.statics with pmemCount := count + 1 }).move vcpu
          (.releasing access (count % state.statics.pmemInt == 0)), [])
  | .releasing access due =>
      counting vcpu (state.countLock.unlock vcpu) (if due then .masking access else .outside) state
  | .masking access =>
      .ok (state.move vcpu (if masked state.statics access then .queueing access else .outside), [])
  | .queueing access => filing vcpu (state.fileLock.lock vcpu) (.printing access) state
  | .printing access => .ok (state.move vcpu (.writing access state.statics.pmemFile), [])
  | .writing access file => through file state (.ok (state.move vcpu .leaving, [line vcpu access]))
  | .leaving => filing vcpu (state.fileLock.unlock vcpu) .outside state
  -- A stop takes neither lock and reads the pointer each time anew: the file goes first,
  -- the mode after it.
  | .testing =>
      .ok (state.move vcpu
        (if state.statics.pmemFile = none then .switching else .comparing), [])
  | .comparing =>
      .ok (state.move vcpu
        (if state.statics.pmemFile = some .stdout then .clearing else .fetching), [])
  | .fetching => .ok (state.move vcpu (.closing state.statics.pmemFile), [])
  | .closing file =>
      through file state (.ok ({ state with closed := true }.move vcpu .clearing, [.close]))
  | .clearing =>
      .ok ((state.set { state.statics with pmemFile := none }).move vcpu .switching, [])
  | .switching => .ok ((state.set { state.statics with mode := .off }).move vcpu .outside, [])

inductive Event (n : Nat) where
  | access (vcpu : Fin n) (access : Access)
  | stop (vcpu : Fin n)
  | advance (vcpu : Fin n)
  deriving DecidableEq, Repr

def step : Step (State n) (Event n) Output Fault :=
  fun state event =>
    match event with
    | .access vcpu access =>
        if state.phase vcpu ≠ .outside then .error .outOfOrder
        else if state.statics.mode = .off then .ok (state, [])
        else .ok (state.move vcpu (.entered access), [])
    | .stop vcpu =>
        if state.phase vcpu ≠ .outside then .error .outOfOrder
        else .ok (state.move vcpu .testing, [])
    | .advance vcpu => advance vcpu state (state.phase vcpu)

def quiet (n : Nat) (statics : Statics) : State n where
  statics := statics
  countLock := SharedMutex.free
  fileLock := SharedMutex.free
  closed := false
  phase := fun _ => .outside

/-! What a step does. -/

inductive Advanced (vcpu : Fin n) (state : State n) : Phase → State n → List Output → Prop where
  | locked (access : Access) (countLock : SharedMutex (Fin n))
      (taken : state.countLock.lock vcpu = some countLock) :
      Advanced vcpu state (.entered access)
        ({ state with countLock := countLock }.move vcpu (.loading access)) []
  | loaded (access : Access) :
      Advanced vcpu state (.loading access)
        (state.move vcpu (.storing access state.statics.pmemCount)) []
  | stored (access : Access) (count : UInt32) (positive : state.statics.pmemInt ≠ 0) :
      Advanced vcpu state (.storing access count)
        ((state.set { state.statics with pmemCount := count + 1 }).move vcpu
          (.releasing access (count % state.statics.pmemInt == 0))) []
  | released (access : Access) (due : Bool) (countLock : SharedMutex (Fin n))
      (freed : state.countLock.unlock vcpu = some countLock) :
      Advanced vcpu state (.releasing access due)
        ({ state with countLock := countLock }.move vcpu
          (if due then .masking access else .outside)) []
  | compared (access : Access) :
      Advanced vcpu state (.masking access)
        (state.move vcpu (if masked state.statics access then .queueing access else .outside)) []
  | queued (access : Access) (fileLock : SharedMutex (Fin n))
      (taken : state.fileLock.lock vcpu = some fileLock) :
      Advanced vcpu state (.queueing access)
        ({ state with fileLock := fileLock }.move vcpu (.printing access)) []
  | fetched (access : Access) :
      Advanced vcpu state (.printing access)
        (state.move vcpu (.writing access state.statics.pmemFile)) []
  | printed (access : Access) (file : Option Report) (present : file ≠ none)
      (open_ : state.closed = false) :
      Advanced vcpu state (.writing access file) (state.move vcpu .leaving) [line vcpu access]
  | left (fileLock : SharedMutex (Fin n)) (freed : state.fileLock.unlock vcpu = some fileLock) :
      Advanced vcpu state .leaving ({ state with fileLock := fileLock }.move vcpu .outside) []
  | tested :
      Advanced vcpu state .testing
        (state.move vcpu (if state.statics.pmemFile = none then .switching else .comparing)) []
  | told :
      Advanced vcpu state .comparing
        (state.move vcpu
          (if state.statics.pmemFile = some .stdout then .clearing else .fetching)) []
  | found :
      Advanced vcpu state .fetching (state.move vcpu (.closing state.statics.pmemFile)) []
  | closed (file : Option Report) (present : file ≠ none) (open_ : state.closed = false) :
      Advanced vcpu state (.closing file) ({ state with closed := true }.move vcpu .clearing)
        [.close]
  | cleared :
      Advanced vcpu state .clearing
        ((state.set { state.statics with pmemFile := none }).move vcpu .switching) []
  | switched :
      Advanced vcpu state .switching
        ((state.set { state.statics with mode := .off }).move vcpu .outside) []

theorem counting_ok (vcpu : Fin n) (lock : Option (SharedMutex (Fin n))) (phase : Phase)
    (state next : State n) (lines : List Output)
    (done : counting vcpu lock phase state = .ok (next, lines)) :
    ∃ after, lock = some after ∧ next = { state with countLock := after }.move vcpu phase ∧
      lines = [] := by
  cases lock with
  | none => cases done
  | some after =>
      cases done
      exact ⟨after, rfl, rfl, rfl⟩

theorem filing_ok (vcpu : Fin n) (lock : Option (SharedMutex (Fin n))) (phase : Phase)
    (state next : State n) (lines : List Output)
    (done : filing vcpu lock phase state = .ok (next, lines)) :
    ∃ after, lock = some after ∧ next = { state with fileLock := after }.move vcpu phase ∧
      lines = [] := by
  cases lock with
  | none => cases done
  | some after =>
      cases done
      exact ⟨after, rfl, rfl, rfl⟩

theorem through_ok (file : Option Report) (state next : State n) (outcome : Outcome n)
    (lines : List Output) (done : through file state outcome = .ok (next, lines)) :
    file ≠ none ∧ state.closed = false ∧ outcome = .ok (next, lines) := by
  unfold through at done
  split at done
  · cases done
  · rename_i present
    split at done
    · cases done
    · rename_i open_
      exact ⟨present, Bool.eq_false_iff.mpr open_, done⟩

theorem advance_cases (vcpu : Fin n) (state next : State n) (phase : Phase) (lines : List Output)
    (done : advance vcpu state phase = .ok (next, lines)) :
    Advanced vcpu state phase next lines := by
  cases phase with
  | outside => cases done
  | entered access =>
      obtain ⟨countLock, taken, rfl, rfl⟩ := counting_ok _ _ _ _ _ _ done
      exact .locked access countLock taken
  | loading access =>
      cases done
      exact .loaded access
  | storing access count =>
      simp only [advance] at done
      split at done
      · cases done
      · rename_i positive
        cases done
        exact .stored access count positive
  | releasing access due =>
      obtain ⟨countLock, freed, rfl, rfl⟩ := counting_ok _ _ _ _ _ _ done
      exact .released access due countLock freed
  | masking access =>
      cases done
      exact .compared access
  | queueing access =>
      obtain ⟨fileLock, taken, rfl, rfl⟩ := filing_ok _ _ _ _ _ _ done
      exact .queued access fileLock taken
  | printing access =>
      cases done
      exact .fetched access
  | writing access file =>
      obtain ⟨present, open_, written⟩ := through_ok _ _ _ _ _ done
      cases written
      exact .printed access file present open_
  | leaving =>
      obtain ⟨fileLock, freed, rfl, rfl⟩ := filing_ok _ _ _ _ _ _ done
      exact .left fileLock freed
  | testing =>
      cases done
      exact .tested
  | comparing =>
      cases done
      exact .told
  | fetching =>
      cases done
      exact .found
  | closing file =>
      obtain ⟨present, open_, written⟩ := through_ok _ _ _ _ _ done
      cases written
      exact .closed file present open_
  | clearing =>
      cases done
      exact .cleared
  | switching =>
      cases done
      exact .switched

theorem step_cases (state next : State n) (event : Event n) (lines : List Output)
    (taken : step state event = .ok (next, lines)) :
    (∃ vcpu access, event = .access vcpu access ∧ state.phase vcpu = .outside ∧ lines = [] ∧
      (next = state ∨ next = state.move vcpu (.entered access))) ∨
    (∃ vcpu, event = .stop vcpu ∧ state.phase vcpu = .outside ∧ lines = [] ∧
      next = state.move vcpu .testing) ∨
    ∃ vcpu, event = .advance vcpu ∧ Advanced vcpu state (state.phase vcpu) next lines := by
  cases event with
  | access vcpu access =>
      simp only [step] at taken
      split at taken
      · cases taken
      · rename_i outside
        split at taken
        · cases taken
          exact .inl ⟨vcpu, access, rfl, not_not.mp outside, rfl, .inl rfl⟩
        · cases taken
          exact .inl ⟨vcpu, access, rfl, not_not.mp outside, rfl, .inr rfl⟩
  | stop vcpu =>
      simp only [step] at taken
      split at taken
      · cases taken
      · rename_i outside
        cases taken
        exact .inr (.inl ⟨vcpu, rfl, not_not.mp outside, rfl, rfl⟩)
  | advance vcpu => exact .inr (.inr ⟨vcpu, rfl, advance_cases vcpu state next _ lines taken⟩)

/-! The count is read and stored under its lock. -/

structure Steady (begun : Statics) (state : State n) : Prop where
  locked : Guarded state.countLock (state.toThreads.hold Phase.holdCount)
  interval : state.statics.pmemInt = begun.pmemInt
  attr : state.statics.pmemAttr = begun.pmemAttr
  read : ∀ vcpu access count, state.phase vcpu = .storing access count →
    state.statics.pmemCount = count

theorem steady_moved (begun : Statics) (state next : State n) (vcpu : Fin n)
    (from_ after : Phase) (steady : Steady begun state) (here : state.phase vcpu = from_)
    (moved : next.phase = (state.move vcpu after).phase)
    (locked : Guarded next.countLock (next.toThreads.hold Phase.holdCount))
    (interval : next.statics.pmemInt = state.statics.pmemInt)
    (attr : next.statics.pmemAttr = state.statics.pmemAttr)
    (count : next.statics.pmemCount = state.statics.pmemCount ∨ from_.holdCount = .whole)
    (read : ∀ access old, after = .storing access old → next.statics.pmemCount = old) :
    Steady begun next := by
  refine ⟨locked, interval.trans steady.interval, attr.trans steady.attr, ?_⟩
  intro other access old storing
  rw [moved, move_phase] at storing
  by_cases own : other = vcpu
  · rw [if_pos own] at storing
    exact read access old storing
  · rw [if_neg own] at storing
    obtain same | alone := count
    · rw [same]
      exact steady.read other access old storing
    · -- Nobody else is inside the lock when the count changes.
      have holds : state.toThreads.hold Phase.holdCount other = .whole := by
        rw [Threads.hold, storing]
        rfl
      have mine : state.toThreads.hold Phase.holdCount vcpu = .whole := by
        rw [Threads.hold, here, alone]
      refine absurd (guarded_alone _ _ steady.locked vcpu other mine fun nothing => ?_) own
      rw [holds] at nothing
      cases nothing

theorem advanced_steady (begun : Statics) (vcpu : Fin n) (state next : State n) (phase : Phase)
    (lines : List Output) (steady : Steady begun state) (here : state.phase vcpu = phase)
    (advanced : Advanced vcpu state phase next lines) : Steady begun next := by
  have kept : ∀ (statics : Statics) (after : Phase), phase.holdCount = after.holdCount →
      Guarded state.countLock
        (((state.set statics).move vcpu after).toThreads.hold Phase.holdCount) := by
    intro statics after same
    rw [move_hold]
    apply guarded_kept _ _ _ _ steady.locked
    rw [← same, ← here]
    rfl
  cases advanced with
  | locked access countLock taken =>
      refine steady_moved begun state _ vcpu _ (.loading access) steady here rfl ?_ rfl rfl (.inl rfl)
        fun _ _ same => Phase.noConfusion same
      rw [move_hold]
      exact guarded_lock _ _ _ vcpu steady.locked taken
  | loaded access =>
      refine steady_moved begun state _ vcpu _ _ steady here rfl (kept state.statics _ rfl) rfl rfl
        (.inl rfl) fun _ _ same => ?_
      cases same
      rfl
  | stored access count positive =>
      exact steady_moved begun state _ vcpu _ _ steady here rfl (kept _ _ rfl) rfl rfl (.inr rfl)
        fun _ _ same => Phase.noConfusion same
  | released access due countLock freed =>
      refine steady_moved begun state _ vcpu _ (if due then .masking access else .outside) steady
        here rfl ?_ rfl rfl (.inl rfl) ?_
      · rw [move_hold]
        have freed := guarded_unlock _ _ _ vcpu steady.locked freed
        cases due <;> exact freed
      · intro _ _ same
        cases due <;> cases same
  | compared access =>
      refine steady_moved begun state _ vcpu _ _ steady here rfl (kept state.statics _ ?_) rfl rfl
        (.inl rfl) fun _ _ same => ?_
      · split <;> rfl
      · split at same <;> cases same
  | queued access fileLock taken =>
      exact steady_moved begun state _ vcpu _ (.printing access) steady here rfl
        (kept state.statics _ rfl) rfl rfl (.inl rfl) fun _ _ same => Phase.noConfusion same
  | fetched access =>
      exact steady_moved begun state _ vcpu _ _ steady here rfl (kept state.statics _ rfl) rfl rfl
        (.inl rfl) fun _ _ same => Phase.noConfusion same
  | printed access file present open_ =>
      exact steady_moved begun state _ vcpu _ _ steady here rfl (kept state.statics _ rfl) rfl rfl
        (.inl rfl) fun _ _ same => Phase.noConfusion same
  | left fileLock freed =>
      exact steady_moved begun state _ vcpu _ .outside steady here rfl (kept state.statics _ rfl)
        rfl rfl (.inl rfl) fun _ _ same => Phase.noConfusion same
  | tested =>
      refine steady_moved begun state _ vcpu _ _ steady here rfl (kept state.statics _ ?_) rfl rfl
        (.inl rfl) fun _ _ same => ?_
      · split <;> rfl
      · split at same <;> cases same
  | told =>
      refine steady_moved begun state _ vcpu _ _ steady here rfl (kept state.statics _ ?_) rfl rfl
        (.inl rfl) fun _ _ same => ?_
      · split <;> rfl
      · split at same <;> cases same
  | found =>
      exact steady_moved begun state _ vcpu _ _ steady here rfl (kept state.statics _ rfl) rfl rfl
        (.inl rfl) fun _ _ same => Phase.noConfusion same
  | closed file present open_ =>
      exact steady_moved begun state _ vcpu _ .clearing steady here rfl
        (kept state.statics .clearing rfl) rfl rfl (.inl rfl) fun _ _ same => Phase.noConfusion same
  | cleared =>
      exact steady_moved begun state _ vcpu _ .switching steady here rfl (kept _ _ rfl) rfl rfl
        (.inl rfl) fun _ _ same => Phase.noConfusion same
  | switched =>
      exact steady_moved begun state _ vcpu _ .outside steady here rfl (kept _ _ rfl) rfl rfl
        (.inl rfl) fun _ _ same => Phase.noConfusion same

theorem step_steady (begun : Statics) (state next : State n) (event : Event n)
    (lines : List Output) (steady : Steady begun state)
    (taken : step state event = .ok (next, lines)) : Steady begun next := by
  have entered : ∀ (vcpu : Fin n) phase, state.phase vcpu = .outside → phase.holdCount = .nothing →
      (∀ access count, phase ≠ .storing access count) →
        Steady begun (state.move vcpu phase) := by
    intro vcpu phase outside nothing other
    refine steady_moved begun state _ vcpu _ phase steady outside rfl ?_ rfl rfl (.inl rfl)
      fun access count same => absurd same (other access count)
    rw [move_hold, nothing]
    apply guarded_kept _ _ _ _ steady.locked
    rw [Threads.hold, outside]
    rfl
  rcases step_cases state next event lines taken with
    ⟨vcpu, access, rfl, outside, -, rfl | rfl⟩ | ⟨vcpu, rfl, outside, -, rfl⟩ | ⟨vcpu, rfl, advanced⟩
  · exact steady
  · exact entered vcpu _ outside rfl fun _ _ same => Phase.noConfusion same
  · exact entered vcpu _ outside rfl fun _ _ same => Phase.noConfusion same
  · exact advanced_steady begun vcpu state next _ lines steady rfl advanced

/-! The atomic sampler. -/

/-- The accesses whose callbacks have stored the count, in that order. -/
def note (state : State n) (event : Event n) (_ : List Output) (counted : List Logged) :
    List Logged :=
  match event with
  | .advance vcpu =>
      match state.phase vcpu with
      | .storing access _ => counted ++ [(vcpu.val, access)]
      | _ => counted
  | _ => counted

def ofCpu (vcpu : Fin n) (lines : List Output) : List Output :=
  lines.filter fun written => match written with
    | .line cpuId _ _ _ _ => cpuId == vcpu.val
    | .close => false

def pending (statics : Statics) (vcpu : Fin n) : Phase → List Output
  | .releasing access due => if due && masked statics access then [line vcpu access] else []
  | .masking access => if masked statics access then [line vcpu access] else []
  | .queueing access | .printing access | .writing access _ => [line vcpu access]
  | _ => []

theorem of_cpu_append (vcpu : Fin n) (front back : List Output) :
    ofCpu vcpu (front ++ back) = ofCpu vcpu front ++ ofCpu vcpu back :=
  List.filter_append front back

theorem of_cpu_line (vcpu other : Fin n) (access : Access) :
    ofCpu other [line vcpu access] = if other = vcpu then [line vcpu access] else [] := by
  unfold ofCpu line
  by_cases own : other = vcpu
  · simp [own]
  · have apart : ¬ vcpu.val = other.val := fun same => own (Fin.ext same).symm
    simp [own, apart]

theorem atomic_access (begun : Statics) (count : UInt32) (vcpu : Fin n) (access : Access)
    (on : begun.mode = .on) (file : begun.pmemFile ≠ none) (positive : begun.pmemInt ≠ 0) :
    Pmem.step { begun with pmemCount := count } (Logged.event (vcpu.val, access)) =
      .ok ({ begun with pmemCount := count + 1 },
        pending begun vcpu (.releasing access (count % begun.pmemInt == 0))) := by
  have going : ¬ begun.mode = .off := by
    rw [on]
    simp
  simp only [Logged.event, Pmem.step, hypercallPmemCb, if_neg going, if_neg positive, pending]
  by_cases due : count % begun.pmemInt = 0 ∧ begun.pmemAttr &&& access.attr = access.attr
  · rw [if_pos due, if_pos (by simp [masked, due.1, due.2])]
    split
    · rename_i absent
      exact absurd absent file
    · rfl
  · rw [if_neg due, if_neg (by simpa [masked] using due)]

/-- The run of atomic callbacks that a run of steps amounts to: it has come to the same
count, and each vcpu has written what it was to write, except what it is still writing. -/
def Amounts (begun : Statics) (state : State n) (counted : List Logged) (lines : List Output) :
    Prop :=
  ∃ sampled, run Pmem.step begun (counted.map Logged.event) =
      .ok ({ begun with pmemCount := state.statics.pmemCount }, sampled) ∧
    ∀ vcpu, ofCpu vcpu sampled =
      ofCpu vcpu lines ++ pending begun vcpu (state.phase vcpu)

theorem advanced_pending (begun : Statics) (vcpu : Fin n) (state next : State n) (phase : Phase)
    (lines : List Output) (attr : state.statics.pmemAttr = begun.pmemAttr)
    (other : ∀ access count, phase ≠ .storing access count)
    (advanced : Advanced vcpu state phase next lines) :
    next.statics.pmemCount = state.statics.pmemCount ∧
    ∃ after, next.phase = (state.move vcpu after).phase ∧
      pending begun vcpu phase = ofCpu vcpu lines ++ pending begun vcpu after ∧
      ∀ others, others ≠ vcpu → ofCpu others lines = [] := by
  have silent : ∀ others : Fin n, others ≠ vcpu → ofCpu others ([] : List Output) = [] :=
    fun _ _ => rfl
  cases advanced with
  | stored access count positive => exact absurd rfl (other access count)
  | released access due countLock freed =>
      refine ⟨rfl, _, rfl, ?_, silent⟩
      cases due <;> rfl
  | compared access =>
      refine ⟨rfl, _, rfl, ?_, silent⟩
      have same : masked state.statics access = masked begun access := by rw [masked, attr]; rfl
      rw [same]
      cases here : masked begun access <;> simp [pending, here, ofCpu]
  | printed access file present open_ =>
      refine ⟨rfl, _, rfl, ?_, fun others apart => ?_⟩
      · rw [of_cpu_line, if_pos rfl]
        rfl
      · rw [of_cpu_line, if_neg apart]
  | tested =>
      refine ⟨rfl, _, rfl, ?_, silent⟩
      split <;> rfl
  | told =>
      refine ⟨rfl, _, rfl, ?_, silent⟩
      split <;> rfl
  | _ => exact ⟨rfl, _, rfl, rfl, silent⟩

theorem amounts_moved (begun : Statics) (state next : State n) (vcpu : Fin n) (after : Phase)
    (counted : List Logged) (past lines : List Output)
    (amounts : Amounts begun state counted past)
    (count : next.statics.pmemCount = state.statics.pmemCount)
    (moved : next.phase = (state.move vcpu after).phase)
    (own : pending begun vcpu (state.phase vcpu) = ofCpu vcpu lines ++ pending begun vcpu after)
    (others : ∀ other, other ≠ vcpu → ofCpu other lines = []) :
    Amounts begun next counted (past ++ lines) := by
  obtain ⟨sampled, atomic, written⟩ := amounts
  refine ⟨sampled, by rw [count]; exact atomic, fun other => ?_⟩
  rw [written other, of_cpu_append, moved, move_phase]
  by_cases here : other = vcpu
  · rw [if_pos here, here, own, List.append_assoc]
  · rw [if_neg here, others other here, List.append_nil]

/-- A store of the count is the atomic callback of its access. -/
theorem amounts_stored (begun : Statics) (state : State n) (vcpu : Fin n) (access : Access)
    (count : UInt32) (counted : List Logged) (past : List Output) (on : begun.mode = .on)
    (file : begun.pmemFile ≠ none) (steady : Steady begun state)
    (amounts : Amounts begun state counted past)
    (here : state.phase vcpu = .storing access count) (positive : state.statics.pmemInt ≠ 0) :
    Amounts begun ((state.set { state.statics with pmemCount := count + 1 }).move vcpu
      (.releasing access (count % state.statics.pmemInt == 0)))
      (counted ++ [(vcpu.val, access)]) past := by
  obtain ⟨sampled, atomic, written⟩ := amounts
  rw [steady.read vcpu access count here] at atomic
  rw [steady.interval] at positive ⊢
  have one := atomic_access begun count vcpu access on file positive
  rw [← run_singleton Pmem.step] at one
  have whole := run_append_ok _ _ _ _ _ _ _ _ atomic one
  refine ⟨_, by rw [List.map_append]; exact whole, fun other => ?_⟩
  rw [of_cpu_append, written other, move_phase]
  by_cases own : other = vcpu
  · -- What it has just counted is all that this vcpu has to write.
    have mine : ofCpu other (pending begun vcpu
        (.releasing access (count % begun.pmemInt == 0))) =
        pending begun vcpu (.releasing access (count % begun.pmemInt == 0)) := by
      rw [own]
      simp only [pending]
      split
      · rw [of_cpu_line, if_pos rfl]
      · rfl
    rw [if_pos own, mine, own, here]
    exact congrArg (· ++ _) (List.append_nil _)
  · have others : ofCpu other (pending begun vcpu
        (.releasing access (count % begun.pmemInt == 0))) = [] := by
      simp only [pending]
      split
      · rw [of_cpu_line, if_neg own]
      · rfl
    rw [if_neg own, others, List.append_nil]
    rfl

theorem step_amounts (begun : Statics) (before after : State n × List Logged) (event : Event n)
    (past lines : List Output) (on : begun.mode = .on) (file : begun.pmemFile ≠ none)
    (steady : Steady begun before.1) (amounts : Amounts begun before.1 before.2 past)
    (taken : watch step note before event = .ok (after, lines)) :
    Amounts begun after.1 after.2 (past ++ lines) := by
  obtain ⟨stepped, noted⟩ := (watch_iff _ _ _ _ _ _).mp taken
  rw [noted]
  have quiet : ∀ (vcpu : Fin n) phase, before.1.phase vcpu = .outside →
      pending begun vcpu phase = [] →
        Amounts begun (before.1.move vcpu phase) before.2 (past ++ []) := by
    intro vcpu phase outside nothing
    apply amounts_moved begun before.1 (before.1.move vcpu phase) vcpu phase before.2 past []
      amounts rfl rfl
    · rw [outside, nothing]
      rfl
    · exact fun _ _ => rfl
  rcases step_cases before.1 after.1 event lines stepped with
    ⟨vcpu, access, rfl, outside, rfl, same | same⟩ | ⟨vcpu, rfl, outside, rfl, same⟩ |
      ⟨vcpu, rfl, advanced⟩
  · rw [same, List.append_nil]
    exact amounts
  · rw [same]
    exact quiet vcpu _ outside rfl
  · rw [same]
    exact quiet vcpu _ outside rfl
  · by_cases storing : ∃ access count, before.1.phase vcpu = .storing access count
    · obtain ⟨access, count, here⟩ := storing
      have logged : note before.1 (.advance vcpu) lines before.2 =
          before.2 ++ [(vcpu.val, access)] := by
        simp [note, here]
      rw [here] at advanced
      rw [logged]
      generalize reached : after.1 = next at advanced
      cases advanced with
      | stored _ _ positive =>
          rw [List.append_nil]
          exact amounts_stored begun before.1 vcpu access count before.2 past on file steady amounts
            here positive
    · have other : ∀ access count, before.1.phase vcpu ≠ .storing access count :=
        fun access count same => storing ⟨access, count, same⟩
      have logged : note before.1 (.advance vcpu) lines before.2 = before.2 := by
        unfold note
        cases here : before.1.phase vcpu with
        | storing access count => exact absurd here (other access count)
        | _ => simp [here]
      obtain ⟨count, next, moved, own, others⟩ :=
        advanced_pending begun vcpu before.1 after.1 _ lines steady.attr other advanced
      rw [logged]
      exact amounts_moved begun before.1 after.1 vcpu next before.2 past lines amounts count moved
        own others

theorem run_amounts (begun : Statics) (on : begun.mode = .on) (file : begun.pmemFile ≠ none)
    (events : List (Event n)) (final : State n × List Logged) (lines : List Output)
    (done : run (watch step note) (quiet n begun, []) events = .ok (final, lines)) :
    Amounts begun final.1 final.2 lines := by
  have start : Steady begun (quiet n begun) :=
    ⟨guarded_free _ fun _ => rfl, rfl, rfl, fun _ _ _ storing => Phase.noConfusion storing⟩
  have nothing : Amounts begun (quiet n begun) [] [] := ⟨[], rfl, fun _ => rfl⟩
  have kept := run_history_invariant (watch step note)
    (fun watched past => Steady begun watched.1 ∧ Amounts begun watched.1 watched.2 past)
    (fun watched past event next emitted holds taken =>
      ⟨step_steady begun _ _ event emitted holds.1 ((watch_iff _ _ _ _ _ _).mp taken).1,
        step_amounts begun watched next event past emitted on file holds.1 holds.2 taken⟩)
    (quiet n begun, []) final [] events lines ⟨start, nothing⟩ done
  exact kept.2

/-- However the callbacks of the vcpus interleave after a start, and stop commands with
them, a run that lives amounts to the atomic callbacks of the accesses it has counted, in
the order in which it has counted them: the count is the same, and every vcpu has written
the lines sampled for it in their order, up to the one it is still writing. -/
theorem sampling_linearizes (filename : Option Word) (opens : Bool) (interval : UInt32)
    (attr : UInt8) (opened : (hypercallPmemInit filename opens interval attr).pmemFile ≠ none)
    (events : List (Event n)) (final : State n × List Logged) (lines : List Output)
    (done : run (watch step note)
      (quiet n (hypercallPmemInit filename opens interval attr), []) events = .ok (final, lines)) :
    Amounts (hypercallPmemInit filename opens interval attr) final.1 final.2 lines :=
  run_amounts _ rfl opened events final lines done

/-- Of three accesses counted in a row the first and the third are due; the third is
written first. -/
def overtaken : List (Event 2) :=
  .access firstVcpu ⟨0x10, 0x20, true, false⟩ :: List.replicate 5 (.advance firstVcpu) ++
  .access secondVcpu ⟨0x30, 0x40, false, false⟩ :: List.replicate 4 (.advance secondVcpu) ++
  .access secondVcpu ⟨0x50, 0x60, true, true⟩ :: List.replicate 9 (.advance secondVcpu)

theorem overtaken_linearizes : ∃ final lines,
    run (watch step note) (quiet 2 (hypercallPmemInit none true 2 0), []) overtaken =
      .ok (final, lines) ∧
    lines = [line secondVcpu ⟨0x50, 0x60, true, true⟩] ∧
    final.1.phase firstVcpu = .queueing ⟨0x10, 0x20, true, false⟩ ∧
    Amounts (hypercallPmemInit none true 2 0) final.1 final.2 lines :=
  ⟨_, _, rfl, rfl, rfl, sampling_linearizes none true 2 0 (by decide) overtaken _ _ rfl⟩

-- The stop command takes no lock: a callback that has loaded the pointer writes to the
-- file that has been closed, and one that is still to load it is left with none.
example : run step (quiet 2 (hypercallPmemInit (some "p.txt".toList) true 1 0))
    (.access firstVcpu ⟨0x10, 0x20, true, false⟩ :: List.replicate 7 (.advance firstVcpu) ++
      .stop secondVcpu :: List.replicate 4 (.advance secondVcpu) ++ [.advance firstVcpu]) =
        .error .closedFile := rfl

example : run step (quiet 2 (hypercallPmemInit (some "p.txt".toList) true 1 0))
    (.access firstVcpu ⟨0x10, 0x20, true, false⟩ :: List.replicate 6 (.advance firstVcpu) ++
      .stop secondVcpu :: List.replicate 5 (.advance secondVcpu) ++
      List.replicate 2 (.advance firstVcpu)) = .error (.plugin .nullFile) := rfl

end Hypersh.Linearization
