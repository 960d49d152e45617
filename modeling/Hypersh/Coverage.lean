import Mathlib.Algebra.Group.Nat.Defs
import Mathlib.Data.List.Basic
import Hypersh.Transduction
import Hypersh.CodeCache
import Hypersh.Getopt
import Hypersh.Mcount
import Hypersh.Pmem
import Hypersh.Slomo
import Hypersh.Sampling
import Hypersh.Divisors

/-!
What mcount, pmem and slomo see of a guest that runs from a code cache, their callbacks one
at a time. A start registers the translation callback and asks for a flush; a stop asks for
a reset. Of both the comments in host/trace/control.cc say that they wait for the vcpus to
finish their current blocks. The translation callbacks of mcount and pmem register
`vcpu_mem` with every instruction of a block.
-/
namespace Hypersh.Coverage
open CodeCache Getopt Transduction
variable {n : Nat}

/-! Plugins that look at memory accesses. -/

inductive MemRw where
  | r
  | w
  | rw
  deriving DecidableEq, Repr

/-- What is given to `qemu_plugin_register_vcpu_mem_cb` beside `vcpu_mem`. -/
structure MemHook where
  insn : Nat
  rw : MemRw
  deriving DecidableEq, Repr

structure Touch (Access : Type) where
  insn : Nat
  isStore : Bool
  access : Access
  deriving DecidableEq, Repr

section Memory
variable {State Command Access Output Fault : Type}

abbrev MemEvent (n : Nat) (Command Access : Type) := CodeCache.Event n Command Nat (Touch Access)

abbrev MemSeen (n : Nat) (Command Access Output : Type) := Seen n Command (Touch Access) Output

abbrev MemMachine (n : Nat) (State Access : Type) :=
  Machine n State Nat (List MemHook) (Touch Access)

abbrev MemEmulator (n : Nat) (State Access : Type) :=
  Emulator n State Nat (List MemHook) (Touch Access)

def MemRw.sees : MemRw → Bool → Bool
  | .r, isStore => !isStore
  | .w, isStore => isStore
  | .rw, _ => true

def MemHook.sees (hook : MemHook) (touch : Touch Access) : Bool :=
  decide (hook.insn = touch.insn) && hook.rw.sees touch.isStore

def registerAll (size : Nat) : List MemHook := (List.range size).map fun insn => ⟨insn, .rw⟩

structure MemPlugin (n : Nat) (State Command Access Output Fault : Type) where
  perform : Step State Command Output Fault
  asks : Command → List Ask
  /-- Where an access tells whether it is a store, it tells the truth. -/
  agrees : Bool → Access → Bool
  vcpuTbTrans : Nat → List MemHook
  vcpuMem : Fin n → Step State Access Output Fault

/-- Each registration that sees the access calls `vcpu_mem` once. -/
def MemPlugin.observe (plugin : MemPlugin n State Command Access Output Fault)
    (hooks : List MemHook) (vcpu : Fin n) : Step State (Touch Access) Output Fault :=
  fun state touch =>
    run (plugin.vcpuMem vcpu) state
      ((hooks.filter fun hook => hook.sees touch).map fun _ => touch.access)

def MemPlugin.vcpuTouch (plugin : MemPlugin n State Command Access Output Fault) (vcpu : Fin n) :
    Step State (Touch Access) Output Fault :=
  fun state touch => plugin.vcpuMem vcpu state touch.access

/-- A block is its number of instructions. -/
def MemPlugin.tool (plugin : MemPlugin n State Command Access Output Fault) :
    Tool n State Command Nat (List MemHook) (Touch Access) Output Fault where
  perform := plugin.perform
  asks := plugin.asks
  fits := fun size touch =>
    decide (touch.insn < size) && plugin.agrees touch.isStore touch.access
  translate := plugin.vcpuTbTrans
  observe := plugin.observe
  outside := fun _ => false
  attend := plugin.vcpuTouch

theorem register_once (size : Nat) (touch : Touch Access) (inside : touch.insn < size) :
    (registerAll size).filter (fun hook => hook.sees touch) = [⟨touch.insn, .rw⟩] := by
  have own : (fun insn => MemHook.sees ⟨insn, .rw⟩ touch) =
      fun insn => decide (insn = touch.insn) :=
    funext fun insn => Bool.and_true _
  have once : (List.range size).count touch.insn = 1 :=
    List.count_eq_one_of_mem List.nodup_range (List.mem_range.mpr inside)
  have alone : (List.range size).filter (fun insn => MemHook.sees ⟨insn, .rw⟩ touch) =
      [touch.insn] := by
    rw [own, List.filter_eq, once]
    rfl
  rw [registerAll, List.filter_map]
  exact congrArg (List.map fun insn => MemHook.mk insn .rw) alone

theorem plugin_complete (plugin : MemPlugin n State Command Access Output Fault)
    (all : plugin.vcpuTbTrans = registerAll) : plugin.tool.Complete plugin.vcpuTouch where
  inside := by
    intro size vcpu state touch fit
    have inside : touch.insn < size := of_decide_eq_true (Bool.and_eq_true_iff.mp fit).1
    show plugin.observe (plugin.vcpuTbTrans size) vcpu state touch = _
    rw [all, MemPlugin.observe, register_once size touch inside, List.map_singleton, run_singleton]
    rfl
  outside := fun vcpu state touch never => absurd never Bool.false_ne_true

/-- What every run of such a plugin comes to, and what a run from a covering state on. -/
theorem plugin_covered (emulator : MemEmulator n State Access)
    (plugin : MemPlugin n State Command Access Output Fault)
    (all : plugin.vcpuTbTrans = registerAll) (flushing : plugin.tool.Flushing) (state : State)
    (history later : List (MemEvent n Command Access)) (machine final : MemMachine n State Access)
    (before seen : List (MemSeen n Command Access Output))
    (reached : run (step emulator plugin.tool) (booted state) history = .ok (machine, before))
    (registered : machine.registered = true) (flushed : machine.flushes = 0)
    (staying : machine.resets = 0)
    (goesOn : ∀ command, .command command ∈ later → .reset ∉ plugin.asks command)
    (done : run (step emulator plugin.tool) machine later = .ok (final, seen)) :
    (∃ told, Part told (before.filterMap Seen.input) ∧
      run (plugin.tool.told plugin.vcpuTouch) state told =
        .ok (machine.state, before.filterMap Seen.said)) ∧
    run (plugin.tool.told plugin.vcpuTouch) machine.state (seen.filterMap Seen.input) =
      .ok (final.state, seen.filterMap Seen.said) := by
  have complete := plugin_complete plugin all
  have start := booted_steady plugin.tool state
  have steady := run_steady emulator plugin.tool flushing (booted state) machine history before
    start reached
  constructor
  · exact run_part emulator plugin.tool _ complete (booted state) machine history before
      start.fitting start.honest reached
  · refine run_told emulator plugin.tool _ complete machine final later seen
      (steady_covering plugin.tool machine steady registered flushed staying) ?_ done
    intro event member
    cases event with
    | command command => exact goesOn command member
    | _ => trivial

theorem observe_kept (plugin : MemPlugin n State Command Access Output Fault) (good : State → Prop)
    (kept : ∀ vcpu state access next outputs, good state →
      plugin.vcpuMem vcpu state access = .ok (next, outputs) → good next)
    (hooks : List MemHook) (vcpu : Fin n) (state : State) (touch : Touch Access) (next : State)
    (outputs : List Output) (holds : good state)
    (done : plugin.tool.observe hooks vcpu state touch = .ok (next, outputs)) : good next :=
  run_invariant (plugin.vcpuMem vcpu) good
    (fun before access after emitted holds taken =>
      kept vcpu before access after emitted holds taken)
    state next _ outputs holds done

end Memory

theorem run_renamed {State Input Small Output Fault : Type} (step : Step State Small Output Fault)
    (name : Input → Small) (state : State) (inputs : List Input) :
    run (fun state input => step state (name input)) state inputs =
      run step state (inputs.map name) := by
  induction inputs generalizing state with
  | nil => rfl
  | cons input rest ih => simp only [List.map_cons, run, ih]

/-! mcount. -/

inductive McountCommand where
  | start (report : Option Word) (opens : Bool) (totalMem : UInt64) (memBin accBin : UInt32)
  | tag (tag : Word)
  | stop
  deriving DecidableEq, Repr

def McountCommand.event : McountCommand → Mcount.Event
  | .start report opens totalMem memBin accBin => .start report opens totalMem memBin accBin
  | .tag name => .tag name
  | .stop => .stop

/-- What `qemu_plugin_control` asks for after it has done the rest. -/
def McountCommand.asks : McountCommand → List Ask
  | .start _ _ _ _ _ => [.register, .flush]
  | .tag _ => []
  | .stop => [.reset]

def mcountTbTrans (size : Nat) : List MemHook := registerAll size

def mcount (n : Nat) :
    MemPlugin n Mcount.Statics McountCommand Mcount.Access Mcount.Output Mcount.Fault where
  perform := fun statics command => Mcount.step statics command.event
  asks := McountCommand.asks
  agrees := fun _ _ => true
  vcpuTbTrans := mcountTbTrans
  vcpuMem := fun vcpu statics access => Mcount.hypercallMcountCb vcpu access statics

def mcountEvent : Input n McountCommand (Touch Mcount.Access) → Mcount.Event
  | .command command => command.event
  | .point vcpu touch => .access vcpu touch.access

theorem mcount_told (statics : Mcount.Statics)
    (inputs : List (Input n McountCommand (Touch Mcount.Access))) :
    run ((mcount n).tool.told (mcount n).vcpuTouch) statics inputs =
      run Mcount.step statics (inputs.map mcountEvent) := by
  rw [← run_renamed]
  congr 1
  funext statics input
  cases input with
  | command command => rfl
  | point vcpu touch => rfl

def countInput (counts : UInt64 × UInt64) :
    Input n McountCommand (Touch Mcount.Access) → UInt64 × UInt64
  | .command (.start _ _ _ _ _) => (0, 0)
  | .command _ => counts
  | .point _ touch => (counts.1 + 1, if touch.access.isIo then counts.2 + 1 else counts.2)

theorem access_counted (vcpu : Nat) (access : Mcount.Access) (statics next : Mcount.Statics)
    (lines : List Mcount.Output) (on : statics.cfg.mode = .on)
    (done : Mcount.hypercallMcountCb vcpu access statics = .ok (next, lines)) :
    next.accCnt = statics.accCnt + 1 ∧
      next.accIoCnt = if access.isIo then statics.accIoCnt + 1 else statics.accIoCnt := by
  obtain ⟨off, -, -⟩ | ⟨reported, first, counted⟩ :=
    Mcount.cb_cases vcpu access statics next lines done
  · rw [on] at off
    contradiction
  · have kept : reported.accCnt = statics.accCnt + 1 ∧ reported.accIoCnt = statics.accIoCnt := by
      obtain ⟨rfl, -⟩ | report := first
      · exact ⟨rfl, rfl⟩
      · obtain ⟨_, _, _, _, -, -, rfl, -⟩ := Mcount.report_cases _ reported lines report
        exact ⟨rfl, rfl⟩
    obtain ⟨io, rfl⟩ | ⟨memory, -, _, -, rfl⟩ | ⟨memory, -, _, -, rfl⟩ :=
      Mcount.count_cases vcpu access reported next counted
    · rw [if_pos io]
      exact ⟨kept.1, congrArg (· + 1) kept.2⟩
    · rw [if_neg (Bool.eq_false_iff.mp memory)]
      exact kept
    · rw [if_neg (Bool.eq_false_iff.mp memory)]
      exact kept

theorem input_counted (statics next : Mcount.Statics) (lines : List Mcount.Output)
    (input : Input n McountCommand (Touch Mcount.Access)) (goesOn : input ≠ .command .stop)
    (on : statics.cfg.mode = .on)
    (done : Mcount.step statics (mcountEvent input) = .ok (next, lines)) :
    next.cfg.mode = .on ∧
      (next.accCnt, next.accIoCnt) = countInput (statics.accCnt, statics.accIoCnt) input := by
  cases input with
  | command command =>
      cases command with
      | start report opens totalMem memBin accBin =>
          obtain ⟨_, -, rfl, -⟩ := Mcount.init_cases report opens totalMem memBin accBin statics
            next lines done
          exact ⟨rfl, rfl⟩
      | tag tag =>
          cases done
          exact ⟨on, rfl⟩
      | stop => exact absurd rfl goesOn
  | point vcpu touch =>
      obtain ⟨counted, io⟩ := access_counted vcpu touch.access statics next lines on done
      have same := Divisors.cb_cfg vcpu touch.access statics next lines done
      rw [same, counted, io]
      exact ⟨on, rfl⟩

theorem inputs_counted (statics final : Mcount.Statics) (lines : List Mcount.Output)
    (inputs : List (Input n McountCommand (Touch Mcount.Access)))
    (goesOn : .command .stop ∉ inputs) (on : statics.cfg.mode = .on)
    (done : run Mcount.step statics (inputs.map mcountEvent) = .ok (final, lines)) :
    (final.accCnt, final.accIoCnt) =
      inputs.foldl countInput (statics.accCnt, statics.accIoCnt) := by
  induction inputs generalizing statics lines with
  | nil =>
      cases done
      rfl
  | cons input rest ih =>
      obtain ⟨here, later⟩ := not_or.mp (mt List.mem_cons.mpr goesOn)
      obtain ⟨next, early, late, first, tail, rfl⟩ := (run_cons_iff _ _ _ _ _ _).mp done
      obtain ⟨still, counted⟩ := input_counted statics next early input (Ne.symm here) on first
      rw [List.foldl_cons, ← counted]
      exact ih next late later still tail

theorem mcount_flushing (n : Nat) : (mcount n).tool.Flushing := by
  intro command registers
  cases command with
  | start report opens totalMem memBin accBin => exact List.mem_cons_of_mem _ List.mem_cons_self
  | tag name => exact absurd registers List.not_mem_nil
  | stop => exact absurd (List.mem_singleton.mp registers) (by decide)

theorem mcount_on (emulator : MemEmulator n Mcount.Statics Mcount.Access)
    (history : List (MemEvent n McountCommand Mcount.Access))
    (machine : MemMachine n Mcount.Statics Mcount.Access)
    (before : List (MemSeen n McountCommand Mcount.Access Mcount.Output))
    (reached : run (CodeCache.step emulator (mcount n).tool) (booted (Mcount.installed n)) history =
      .ok (machine, before))
    (registered : machine.registered = true) (staying : machine.resets = 0) :
    machine.state.cfg.mode = .on := by
  have kept : ∀ (vcpu : Fin n) (statics : Mcount.Statics) (access : Mcount.Access)
      (next : Mcount.Statics) (lines : List Mcount.Output), statics.cfg.mode = .on →
      (mcount n).vcpuMem vcpu statics access = .ok (next, lines) → next.cfg.mode = .on := by
    intro vcpu statics access next lines on done
    rw [Divisors.cb_cfg vcpu access statics next lines done]
    exact on
  refine registered_rule emulator (mcount n).tool (fun statics => statics.cfg.mode = .on) ?_ ?_ ?_ ?_
    (booted (Mcount.installed n)) machine history before ?_ reached registered staying
  · intro statics command next lines registers done
    cases command with
    | start report opens totalMem memBin accBin =>
        obtain ⟨_, -, rfl, -⟩ := Mcount.init_cases report opens totalMem memBin accBin statics
          next lines done
        rfl
    | tag name => exact absurd registers List.not_mem_nil
    | stop => exact absurd (List.mem_singleton.mp registers) (by decide)
  · intro statics command next lines stays on done
    have goesOn : (Input.command command : Input n McountCommand (Touch Mcount.Access)) ≠
        .command .stop := by
      rintro ⟨⟩
      exact stays List.mem_cons_self
    exact (input_counted statics next lines (.command command) goesOn on done).1
  · intro hooks vcpu statics touch next lines on done
    exact observe_kept (mcount n) (fun statics => statics.cfg.mode = .on) kept hooks vcpu statics
      touch next lines on done
  · intro vcpu statics touch next lines on done
    exact kept vcpu statics touch.access next lines on done
  · intro registered
    exact absurd registered Bool.false_ne_true

/-- Once a start has been flushed, mcount handles each access that the guest executes on
any vcpu, once and in order, and its two totals are exact modulo 2^64; before and after, it
handles none that is not executed, and none twice. -/
theorem accesses_covered (emulator : MemEmulator n Mcount.Statics Mcount.Access)
    (history later : List (MemEvent n McountCommand Mcount.Access))
    (machine final : MemMachine n Mcount.Statics Mcount.Access)
    (before seen : List (MemSeen n McountCommand Mcount.Access Mcount.Output))
    (reached : run (CodeCache.step emulator (mcount n).tool) (booted (Mcount.installed n)) history =
      .ok (machine, before))
    (registered : machine.registered = true) (flushed : machine.flushes = 0)
    (staying : machine.resets = 0) (goesOn : .command .stop ∉ later)
    (done : run (CodeCache.step emulator (mcount n).tool) machine later = .ok (final, seen)) :
    (∃ told, Part told (before.filterMap Seen.input) ∧
      run Mcount.step (Mcount.installed n) (told.map mcountEvent) =
        .ok (machine.state, before.filterMap Seen.said)) ∧
    run Mcount.step machine.state ((seen.filterMap Seen.input).map mcountEvent) =
      .ok (final.state, seen.filterMap Seen.said) ∧
    (final.state.accCnt, final.state.accIoCnt) = (seen.filterMap Seen.input).foldl countInput
      (machine.state.accCnt, machine.state.accIoCnt) := by
  have asked : ∀ command, .command command ∈ later → .reset ∉ command.asks := by
    intro command member
    cases command with
    | start report opens totalMem memBin accBin => simp [McountCommand.asks]
    | tag name => exact List.not_mem_nil
    | stop => exact absurd member goesOn
  obtain ⟨⟨told, part, early⟩, covered⟩ := plugin_covered emulator (mcount n) rfl (mcount_flushing n)
    (Mcount.installed n) history later machine final before seen reached registered flushed staying
    asked done
  rw [mcount_told] at early covered
  have stays : .command .stop ∉ seen.filterMap Seen.input := fun read =>
    goesOn (run_commands emulator (mcount n).tool machine final later seen done .stop read)
  have on := mcount_on emulator history machine before reached registered staying
  exact ⟨⟨told, part, early⟩, covered,
    inputs_counted machine.state final.state _ _ stays on covered⟩

def mcountStarted : List (MemEvent 2 McountCommand Mcount.Access) :=
  [.command (.start none true 4096 1024 100), .flush, .translate 2,
   .enter firstVcpu 0 [⟨0, false, ⟨100, false, true⟩⟩, ⟨1, true, ⟨2000, true, false⟩⟩]]

theorem both_accesses_covered : ∃ machine final before seen,
    run (CodeCache.step prompt (mcount 2).tool) (booted (Mcount.installed 2)) mcountStarted =
      .ok (machine, before) ∧
    run (CodeCache.step prompt (mcount 2).tool) machine [.advance firstVcpu, .advance firstVcpu] =
      .ok (final, seen) ∧
    (final.state.accCnt, final.state.accIoCnt) = (2, 1) :=
  ⟨_, _, _, _, rfl, rfl, (accesses_covered prompt mcountStarted
    [.advance firstVcpu, .advance firstVcpu] _ _ _ _ rfl rfl rfl rfl (by simp) rfl).2.2⟩

/-! pmem. -/

inductive PmemCommand where
  | start (filename : Option Word) (opens : Bool) (interval : UInt32) (attr : UInt8)
  | stop
  deriving DecidableEq, Repr

def PmemCommand.event : PmemCommand → Pmem.Event
  | .start filename opens interval attr => .start filename opens interval attr
  | .stop => .stop

def PmemCommand.asks : PmemCommand → List Ask
  | .start _ _ _ _ => [.register, .flush]
  | .stop => [.reset]

def pmemTbTrans (size : Nat) : List MemHook := registerAll size

def pmem (n : Nat) : MemPlugin n Pmem.Statics PmemCommand Pmem.Access Pmem.Output Pmem.Fault where
  perform := fun statics command => Pmem.step statics command.event
  asks := PmemCommand.asks
  agrees := fun isStore access => isStore == access.isStore
  vcpuTbTrans := pmemTbTrans
  vcpuMem := fun vcpu statics access => Pmem.hypercallPmemCb vcpu access statics

def pmemEvent : Input n PmemCommand (Touch Pmem.Access) → Pmem.Event
  | .command command => command.event
  | .point vcpu touch => .access vcpu touch.access

theorem pmem_told (statics : Pmem.Statics)
    (inputs : List (Input n PmemCommand (Touch Pmem.Access))) :
    run ((pmem n).tool.told (pmem n).vcpuTouch) statics inputs =
      run Pmem.step statics (inputs.map pmemEvent) := by
  rw [← run_renamed]
  congr 1
  funext statics input
  cases input with
  | command command => rfl
  | point vcpu touch => rfl

def logged : Input n PmemCommand (Touch Pmem.Access) → Option Sampling.Logged
  | .command _ => none
  | .point vcpu touch => some (vcpu, touch.access)

def sampleOf (statics : Pmem.Statics) (counted : Sampling.Logged × Nat) : Option Pmem.Output :=
  if statics.pmemInt.toNat ∣ counted.2 % 2 ^ 32 ∧
      statics.pmemAttr &&& counted.1.2.attr = counted.1.2.attr then some counted.1.line
  else none

theorem access_sampled (vcpu : Nat) (access : Pmem.Access) (statics next : Pmem.Statics)
    (lines : List Pmem.Output) (count : Nat) (on : statics.mode = .on)
    (known : statics.pmemCount = UInt32.ofNat count)
    (done : Pmem.hypercallPmemCb vcpu access statics = .ok (next, lines)) :
    next = { statics with pmemCount := UInt32.ofNat (count + 1) } ∧
      lines = (sampleOf statics ((vcpu, access), count)).toList := by
  have due := Sampling.due_iff statics.pmemInt count
  have more : statics.pmemCount + 1 = UInt32.ofNat (count + 1) :=
    known ▸ (UInt32.ofNat_add count 1).symm
  rw [← known] at due
  unfold Pmem.hypercallPmemCb at done
  rw [on, if_neg (by decide)] at done
  split at done
  · contradiction
  · dsimp only at done
    simp only [due, more] at done
    split at done
    · rename_i written
      split at done
      · contradiction
      · cases done
        rw [on, sampleOf, if_pos written]
        exact ⟨rfl, rfl⟩
    · rename_i passed
      cases done
      rw [on, sampleOf, if_neg passed]
      exact ⟨rfl, rfl⟩

theorem inputs_sampled (statics final : Pmem.Statics) (lines : List Pmem.Output) (count : Nat)
    (inputs : List (Input n PmemCommand (Touch Pmem.Access)))
    (quiet : ∀ command, .command command ∉ inputs) (on : statics.mode = .on)
    (known : statics.pmemCount = UInt32.ofNat count)
    (done : run Pmem.step statics (inputs.map pmemEvent) = .ok (final, lines)) :
    final.pmemCount = UInt32.ofNat (count + (inputs.filterMap logged).length) ∧
      lines = ((inputs.filterMap logged).zipIdx count).filterMap (sampleOf statics) := by
  induction inputs generalizing statics lines count with
  | nil =>
      cases done
      exact ⟨known, rfl⟩
  | cons input rest ih =>
      obtain ⟨next, early, late, first, tail, rfl⟩ := (run_cons_iff _ _ _ _ _ _).mp done
      cases input with
      | command command => exact absurd List.mem_cons_self (quiet command)
      | point vcpu touch =>
          obtain ⟨rfl, rfl⟩ := access_sampled vcpu touch.access statics next early count on known
            first
          have later : ∀ command, .command command ∉ rest := fun command member =>
            quiet command (List.mem_cons_of_mem _ member)
          obtain ⟨last, told⟩ := ih { statics with pmemCount := UInt32.ofNat (count + 1) } late
            (count + 1) later on rfl tail
          have here : (Input.point vcpu touch :: rest).filterMap logged =
              ((vcpu : Nat), touch.access) :: rest.filterMap logged := rfl
          rw [here, List.length_cons, List.zipIdx_cons, List.filterMap_cons, last, told]
          constructor
          · rw [Nat.add_assoc, Nat.add_comm 1]
          · cases sampleOf statics (((vcpu : Nat), touch.access), count) with
            | none => rfl
            | some line => rfl

theorem pmem_flushing (n : Nat) : (pmem n).tool.Flushing := by
  intro command registers
  cases command with
  | start filename opens interval attr => exact List.mem_cons_of_mem _ List.mem_cons_self
  | stop => exact absurd (List.mem_singleton.mp registers) (by decide)

theorem pmem_on (emulator : MemEmulator n Pmem.Statics Pmem.Access)
    (history : List (MemEvent n PmemCommand Pmem.Access))
    (machine : MemMachine n Pmem.Statics Pmem.Access)
    (before : List (MemSeen n PmemCommand Pmem.Access Pmem.Output))
    (reached : run (CodeCache.step emulator (pmem n).tool) (booted Pmem.installed) history =
      .ok (machine, before))
    (registered : machine.registered = true) (staying : machine.resets = 0) :
    machine.state.mode = .on := by
  have kept : ∀ (vcpu : Fin n) (statics : Pmem.Statics) (access : Pmem.Access)
      (next : Pmem.Statics) (lines : List Pmem.Output), statics.mode = .on →
      (pmem n).vcpuMem vcpu statics access = .ok (next, lines) → next.mode = .on := by
    intro vcpu statics access next lines on done
    rw [(Divisors.pmem_cb_kept vcpu access statics next lines done).2.2]
    exact on
  have started : ∀ (statics : Pmem.Statics) (command : PmemCommand) (next : Pmem.Statics)
      (lines : List Pmem.Output), .reset ∉ command.asks →
      (pmem n).perform statics command = .ok (next, lines) → next.mode = .on := by
    intro statics command next lines stays done
    cases command with
    | start filename opens interval attr =>
        cases done
        rfl
    | stop => exact absurd List.mem_cons_self stays
  refine registered_rule emulator (pmem n).tool (fun statics => statics.mode = .on) ?_ ?_ ?_ ?_
    (booted Pmem.installed) machine history before ?_ reached registered staying
  · intro statics command next lines registers done
    refine started statics command next lines (fun resets => ?_) done
    cases command with
    | start filename opens interval attr => simp [PmemCommand.asks] at resets
    | stop => exact absurd (List.mem_singleton.mp registers) (by decide)
  · intro statics command next lines stays on done
    exact started statics command next lines stays done
  · intro hooks vcpu statics touch next lines on done
    exact observe_kept (pmem n) (fun statics => statics.mode = .on) kept hooks vcpu statics
      touch next lines on done
  · intro vcpu statics touch next lines on done
    exact kept vcpu statics touch.access next lines on done
  · intro registered
    exact absurd registered Bool.false_ne_true

/-- Once a start has been flushed, pmem handles each access that the guest executes on any
vcpu, once and in order. Without a further command it writes every `pmem_int`-th of all
that is executed, as its count goes, where the attributes admit it. -/
theorem samples_covered (emulator : MemEmulator n Pmem.Statics Pmem.Access)
    (history later : List (MemEvent n PmemCommand Pmem.Access))
    (machine final : MemMachine n Pmem.Statics Pmem.Access)
    (before seen : List (MemSeen n PmemCommand Pmem.Access Pmem.Output))
    (reached : run (CodeCache.step emulator (pmem n).tool) (booted Pmem.installed) history =
      .ok (machine, before))
    (registered : machine.registered = true) (flushed : machine.flushes = 0)
    (staying : machine.resets = 0) (goesOn : .command .stop ∉ later)
    (done : run (CodeCache.step emulator (pmem n).tool) machine later = .ok (final, seen)) :
    (∃ told, Part told (before.filterMap Seen.input) ∧
      run Pmem.step Pmem.installed (told.map pmemEvent) =
        .ok (machine.state, before.filterMap Seen.said)) ∧
    run Pmem.step machine.state ((seen.filterMap Seen.input).map pmemEvent) =
      .ok (final.state, seen.filterMap Seen.said) ∧
    ((∀ command, .command command ∉ later) → seen.filterMap Seen.said =
      (((seen.filterMap Seen.input).filterMap logged).zipIdx
        machine.state.pmemCount.toNat).filterMap (sampleOf machine.state)) := by
  have asked : ∀ command, .command command ∈ later → .reset ∉ command.asks := by
    intro command member
    cases command with
    | start filename opens interval attr => simp [PmemCommand.asks]
    | stop => exact absurd member goesOn
  obtain ⟨⟨told, part, early⟩, covered⟩ := plugin_covered emulator (pmem n) rfl (pmem_flushing n)
    Pmem.installed history later machine final before seen reached registered flushed staying
    asked done
  rw [pmem_told] at early covered
  refine ⟨⟨told, part, early⟩, covered, fun quiet => ?_⟩
  have unread : ∀ command, .command command ∉ seen.filterMap Seen.input := fun command read =>
    quiet command (run_commands emulator (pmem n).tool machine final later seen done command read)
  have on := pmem_on emulator history machine before reached registered staying
  exact (inputs_sampled machine.state final.state _ _ _ unread on UInt32.ofNat_toNat.symm
    covered).2

/-- A block from before the start goes on unseen, and the flush waits for its end. -/
def pmemStarted : List (MemEvent 2 PmemCommand Pmem.Access) :=
  [.translate 1, .enter firstVcpu 0 [⟨0, false, ⟨64, 64, false, false⟩⟩],
   .command (.start none true 2 0), .flush, .advance firstVcpu, .advance firstVcpu, .flush,
   .translate 1, .enter secondVcpu 0 [⟨0, true, ⟨72, 72, true, true⟩⟩]]

theorem store_covered : ∃ machine final before seen,
    run (CodeCache.step prompt (pmem 2).tool) (booted Pmem.installed) pmemStarted =
      .ok (machine, before) ∧
    run (CodeCache.step prompt (pmem 2).tool) machine [.flush, .advance secondVcpu] =
      .ok (final, seen) ∧
    seen.filterMap Seen.said = [.line 1 true true 72 72] :=
  ⟨_, _, _, _, rfl, rfl, (samples_covered prompt pmemStarted [.flush, .advance secondVcpu] _ _ _ _
    rfl rfl rfl rfl (by simp) rfl).2.2 (by simp)⟩

/-! slomo. -/

inductive SlomoCommand where
  | start (rate : UInt64)
  | stop
  deriving DecidableEq, Repr

def SlomoCommand.asks : SlomoCommand → List Ask
  | .start _ => [.register, .flush]
  | .stop => [.reset]

/-- The beginning of a block, and an interrupt, which is between blocks. -/
inductive SlomoPoint where
  | tb (size : Nat)
  | interrupt
  deriving DecidableEq, Repr

inductive SlomoOutput where
  | slomoRate (rate : UInt64)
  | icount (count : UInt64)
  deriving DecidableEq, Repr

def slomoTbTrans (size : Nat) : UInt64 := UInt64.ofNat size

def vcpuTbExecCb (udata : UInt64) (vcpu : Fin n) (shared : Slomo.Shared n) :
    Except Slomo.Fault (Slomo.Shared n × List SlomoOutput) :=
  (Slomo.step shared (.vcpuTbExecCb vcpu udata)).map fun done => (done.1, done.2.map .icount)

def vcpuInterruptCb (vcpu : Fin n) (shared : Slomo.Shared n) :
    Except Slomo.Fault (Slomo.Shared n × List SlomoOutput) :=
  (run Slomo.step shared [.interruptRead vcpu, .interruptStore vcpu]).map fun done =>
    (done.1, done.2.map .icount)

def vcpuPoint (vcpu : Fin n) : Step (Slomo.Shared n) SlomoPoint SlomoOutput Slomo.Fault :=
  fun shared point =>
    match point with
    | .tb size => vcpuTbExecCb (UInt64.ofNat size) vcpu shared
    | .interrupt => vcpuInterruptCb vcpu shared

def slomo (n : Nat) :
    Tool n (Slomo.Shared n) SlomoCommand Nat UInt64 SlomoPoint SlomoOutput Slomo.Fault where
  perform := fun shared command =>
    match command with
    | .start rate => .ok (shared, [.slomoRate rate])
    | .stop => .ok (shared, [])
  asks := SlomoCommand.asks
  fits := fun size point => decide (point = .tb size)
  translate := slomoTbTrans
  observe := fun udata vcpu shared _ => vcpuTbExecCb udata vcpu shared
  outside := fun point => decide (point = .interrupt)
  attend := fun vcpu shared _ => vcpuInterruptCb vcpu shared

theorem slomo_complete (n : Nat) : (slomo n).Complete vcpuPoint where
  inside := by
    intro size vcpu shared point fit
    rw [show point = .tb size from of_decide_eq_true fit]
    rfl
  outside := by
    intro vcpu shared point outside
    rw [show point = .interrupt from of_decide_eq_true outside]
    rfl

theorem slomo_flushing (n : Nat) : (slomo n).Flushing := by
  intro command registers
  cases command with
  | start rate => exact List.mem_cons_of_mem _ List.mem_cons_self
  | stop => exact absurd (List.mem_singleton.mp registers) (by decide)

/-- The instructions from each interrupt to the next, and those behind the last. -/
def spans : UInt64 → List SlomoPoint → List UInt64 × UInt64
  | count, [] => ([], count)
  | count, .tb size :: rest => spans (count + UInt64.ofNat size) rest
  | count, .interrupt :: rest => (count :: (spans 0 rest).1, (spans 0 rest).2)

def reached : Input n SlomoCommand SlomoPoint → Option SlomoPoint
  | .command _ => none
  | .point _ point => some point

def printed : SlomoOutput → Option UInt64
  | .slomoRate _ => none
  | .icount count => some count

theorem interrupt_ok (vcpu : Fin n) (shared : Slomo.Shared n) (quiet : shared.Quiet) :
    ∃ next, next.Quiet ∧ next.icount = 0 ∧
      vcpuInterruptCb vcpu shared = .ok (next, [.icount shared.icount]) := by
  have free := quiet vcpu
  have marked : (shared.mark vcpu true).printed vcpu = true := if_pos rfl
  refine ⟨{ (shared.mark vcpu true).mark vcpu false with icount := 0 }, fun other => ?_, rfl, ?_⟩
  · by_cases own : other = vcpu
    · exact if_pos own
    · exact (if_neg own).trans ((if_neg own).trans (quiet other))
  · simp [vcpuInterruptCb, run, Slomo.step, free, marked, Except.map]

theorem told_spans (shared final : Slomo.Shared n) (outputs : List SlomoOutput)
    (inputs : List (Input n SlomoCommand SlomoPoint)) (quiet : shared.Quiet)
    (done : run ((slomo n).told vcpuPoint) shared inputs = .ok (final, outputs)) :
    final.Quiet ∧
      (outputs.filterMap printed, final.icount) =
        spans shared.icount (inputs.filterMap reached) := by
  induction inputs generalizing shared outputs with
  | nil =>
      cases done
      exact ⟨quiet, rfl⟩
  | cons input rest ih =>
      obtain ⟨next, early, late, first, tail, rfl⟩ := (run_cons_iff _ _ _ _ _ _).mp done
      rw [List.filterMap_append]
      cases input with
      | command command =>
          cases command with
          | start rate =>
              cases first
              exact ih shared late quiet tail
          | stop =>
              cases first
              exact ih shared late quiet tail
      | point vcpu point =>
          cases point with
          | tb size =>
              obtain ⟨⟨added, lines⟩, taken, same⟩ := map_ok _ _ _ first
              simp only [Slomo.step, quiet vcpu] at taken
              cases taken
              cases same
              exact ih ⟨shared.icount + UInt64.ofNat size, shared.printed⟩ late quiet tail
          | interrupt =>
              obtain ⟨cleared, silent, zero, taken⟩ := interrupt_ok vcpu shared quiet
              cases first.symm.trans taken
              obtain ⟨still, told⟩ := ih next late silent tail
              rw [zero] at told
              have here : (Input.point vcpu SlomoPoint.interrupt :: rest).filterMap reached =
                  .interrupt :: rest.filterMap (reached (n := n)) := rfl
              rw [here, spans, ← told]
              exact ⟨still, rfl⟩

/-- Once a start has been flushed, each number that slomo prints is what the guest has
executed on all vcpus since the number before; at any time it is at most that, with no
block counted twice. -/
theorem instructions_covered
    (emulator : Emulator n (Slomo.Shared n) Nat UInt64 SlomoPoint)
    (history later : List (CodeCache.Event n SlomoCommand Nat SlomoPoint))
    (machine final : Machine n (Slomo.Shared n) Nat UInt64 SlomoPoint)
    (before seen : List (Seen n SlomoCommand SlomoPoint SlomoOutput))
    (begun : run (CodeCache.step emulator (slomo n)) (booted Slomo.loaded) history =
      .ok (machine, before))
    (registered : machine.registered = true) (flushed : machine.flushes = 0)
    (staying : machine.resets = 0) (goesOn : .command .stop ∉ later)
    (done : run (CodeCache.step emulator (slomo n)) machine later = .ok (final, seen)) :
    (∃ told, Part told (before.filterMap Seen.input) ∧
      ((before.filterMap Seen.said).filterMap printed, machine.state.icount) =
        spans 0 (told.filterMap reached)) ∧
    ((seen.filterMap Seen.said).filterMap printed, final.state.icount) =
      spans machine.state.icount ((seen.filterMap Seen.input).filterMap reached) := by
  have start := booted_steady (slomo n) (Slomo.loaded : Slomo.Shared n)
  have steady := run_steady emulator (slomo n) (slomo_flushing n) _ machine history before start begun
  obtain ⟨told, part, early⟩ := run_part emulator (slomo n) vcpuPoint (slomo_complete n) _ machine
    history before start.fitting start.honest begun
  obtain ⟨quiet, spanned⟩ := told_spans _ machine.state _ told (fun _ => rfl) early
  refine ⟨⟨told, part, spanned⟩, ?_⟩
  have covering := steady_covering (slomo n) machine steady registered flushed staying
  refine (told_spans machine.state final.state _ _ quiet
    (run_told emulator (slomo n) vcpuPoint (slomo_complete n) machine final later seen covering ?_
      done)).2
  intro event member
  cases event with
  | command command =>
      cases command with
      | start rate => simp [Tool.goesOn, slomo, SlomoCommand.asks]
      | stop => exact absurd member goesOn
  | _ => trivial

def slomoStarted : List (CodeCache.Event 2 SlomoCommand Nat SlomoPoint) :=
  [.command (.start 5), .happen firstVcpu .interrupt, .flush, .translate 3, .translate 4,
   .enter firstVcpu 0 [.tb 3], .enter secondVcpu 1 [.tb 4], .advance firstVcpu]

theorem both_vcpus_covered : ∃ machine final before seen,
    run (CodeCache.step prompt (slomo 2)) (booted Slomo.loaded) slomoStarted = .ok (machine, before) ∧
    run (CodeCache.step prompt (slomo 2)) machine
      [.advance secondVcpu, .happen firstVcpu .interrupt] = .ok (final, seen) ∧
    ((seen.filterMap Seen.said).filterMap printed, final.state.icount) = ([7], 0) :=
  ⟨_, _, _, _, rfl, rfl, (instructions_covered prompt slomoStarted
    [.advance secondVcpu, .happen firstVcpu .interrupt] _ _ _ _ rfl rfl rfl rfl (by simp) rfl).2⟩

end Hypersh.Coverage
