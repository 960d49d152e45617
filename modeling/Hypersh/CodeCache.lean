import Mathlib.Data.List.FinRange
import Hypersh.Transduction

/-!
An emulator that translates code into blocks and keeps the blocks, and a tool that
instruments them. A block has the hooks it was translated with until it is flushed; a
flush, and a reset with which the tool is let go, wait until no processor is in a block.
-/
namespace CodeCache
open Transduction

inductive Ask where
  | register
  | flush
  | reset
  deriving DecidableEq, Repr

/-- `translate` is the hooks of a block, `observe` what they make of a point of its
execution; a point fits the blocks in whose executions it can occur. `attend` is for the
points outside blocks. -/
structure Tool (n : Nat) (State Command Block Hooks Point Output Fault : Type) where
  perform : Step State Command Output Fault
  asks : Command → List Ask
  fits : Block → Point → Bool
  translate : Block → Hooks
  observe : Hooks → Fin n → Step State Point Output Fault
  outside : Point → Bool
  attend : Fin n → Step State Point Output Fault

structure Cached (Block Hooks : Type) where
  block : Block
  hooks : Option Hooks

structure Running (Block Hooks Point : Type) where
  cached : Cached Block Hooks
  rest : List Point

structure Machine (n : Nat) (State Block Hooks Point : Type) where
  state : State
  registered : Bool
  cache : List (Cached Block Hooks)
  flushes : Nat
  resets : Nat
  running : Fin n → Option (Running Block Hooks Point)

inductive Event (n : Nat) (Command Block Point : Type) where
  | command (command : Command)
  | flush
  | reset
  | translate (block : Block)
  | enter (processor : Fin n) (index : Nat) (points : List Point)
  | advance (processor : Fin n)
  | happen (processor : Fin n) (point : Point)

inductive Seen (n : Nat) (Command Point Output : Type) where
  | performed (command : Command)
  | executed (processor : Fin n) (point : Point)
  | output (output : Output)

variable {n : Nat} {State Command Block Hooks Point Output Fault : Type}

/-- The emulator decides when it does what has been asked of it, but not while a processor
is in a block. -/
structure Emulator (n : Nat) (State Block Hooks Point : Type) where
  ready : Machine n State Block Hooks Point → Bool
  waits : ∀ machine, ready machine = true → ∀ processor, machine.running processor = none

def Machine.exclusive (machine : Machine n State Block Hooks Point) : Bool :=
  (List.finRange n).all fun processor => (machine.running processor).isNone

def prompt : Emulator n State Block Hooks Point where
  ready := Machine.exclusive
  waits := fun _ alone processor =>
    Option.isNone_iff_eq_none.mp (List.all_eq_true.mp alone processor (List.mem_finRange processor))

def Machine.run (machine : Machine n State Block Hooks Point) (processor : Fin n)
    (running : Option (Running Block Hooks Point)) : Machine n State Block Hooks Point :=
  { machine with running := Function.update machine.running processor running }

def Machine.heed (machine : Machine n State Block Hooks Point) (state : State) (asks : List Ask) :
    Machine n State Block Hooks Point :=
  { machine with
    state
    registered := machine.registered || asks.contains .register
    flushes := machine.flushes + asks.count .flush
    resets := machine.resets + asks.count .reset }

def Tool.meet (tool : Tool n State Command Block Hooks Point Output Fault) (hooks : Option Hooks)
    (processor : Fin n) : Step State Point Output Fault :=
  match hooks with
  | some hooks => tool.observe hooks processor
  | none => fun state _ => .ok (state, [])

def Tool.hear (tool : Tool n State Command Block Hooks Point Output Fault) (registered : Bool)
    (processor : Fin n) : Step State Point Output Fault :=
  if registered then tool.attend processor else fun state _ => .ok (state, [])

variable (emulator : Emulator n State Block Hooks Point)

def step (tool : Tool n State Command Block Hooks Point Output Fault) :
    Step (Machine n State Block Hooks Point) (Event n Command Block Point)
      (Seen n Command Point Output) Fault :=
  fun machine event =>
    match event with
    | .command command =>
        (tool.perform machine.state command).map fun result =>
          (machine.heed result.1 (tool.asks command), .performed command :: result.2.map .output)
    | .flush =>
        if emulator.ready machine && decide (0 < machine.flushes) then
          .ok ({ machine with cache := [], flushes := machine.flushes - 1 }, [])
        else .ok (machine, [])
    | .reset =>
        if emulator.ready machine && decide (0 < machine.resets) then
          .ok ({ machine with
            cache := []
            registered := false
            resets := machine.resets - 1 }, [])
        else .ok (machine, [])
    | .translate block =>
        let hooks := if machine.registered then some (tool.translate block) else none
        .ok ({ machine with cache := machine.cache ++ [⟨block, hooks⟩] }, [])
    | .enter processor index points =>
        match machine.running processor, machine.cache[index]? with
        | none, some cached =>
            if points.all (tool.fits cached.block) then
              .ok (machine.run processor (some ⟨cached, points⟩), [])
            else .ok (machine, [])
        | _, _ => .ok (machine, [])
    | .advance processor =>
        match machine.running processor with
        | none => .ok (machine, [])
        | some ⟨_, []⟩ => .ok (machine.run processor none, [])
        | some ⟨cached, point :: rest⟩ =>
            (tool.meet cached.hooks processor machine.state point).map fun result =>
              ({ machine with state := result.1 }.run processor (some ⟨cached, rest⟩),
                .executed processor point :: result.2.map .output)
    | .happen processor point =>
        if tool.outside point then
          (tool.hear machine.registered processor machine.state point).map fun result =>
            ({ machine with state := result.1 },
              .executed processor point :: result.2.map .output)
        else .ok (machine, [])

def booted (state : State) : Machine n State Block Hooks Point :=
  ⟨state, false, [], 0, 0, fun _ => none⟩

/-! What a step can be. -/

inductive Moved (tool : Tool n State Command Block Hooks Point Output Fault)
    (machine : Machine n State Block Hooks Point) :
    Event n Command Block Point → Machine n State Block Hooks Point →
      List (Seen n Command Point Output) → Prop where
  | idle (event : Event n Command Block Point)
      (silent : ∀ command, event ≠ .command command) : Moved tool machine event machine []
  | command (command : Command) (state : State) (outputs : List Output)
      (done : tool.perform machine.state command = .ok (state, outputs)) :
      Moved tool machine (.command command) (machine.heed state (tool.asks command))
        (.performed command :: outputs.map .output)
  | flush (alone : ∀ processor, machine.running processor = none) :
      Moved tool machine .flush
        { machine with cache := [], flushes := machine.flushes - 1 } []
  | reset (alone : ∀ processor, machine.running processor = none) (waiting : 0 < machine.resets) :
      Moved tool machine .reset
        { machine with cache := [], registered := false, resets := machine.resets - 1 } []
  | translate (block : Block) :
      Moved tool machine (.translate block) { machine with
        cache := machine.cache ++
          [⟨block, if machine.registered then some (tool.translate block) else none⟩] } []
  | enter (processor : Fin n) (index : Nat) (points : List Point) (cached : Cached Block Hooks)
      (present : cached ∈ machine.cache)
      (fit : ∀ point ∈ points, tool.fits cached.block point) :
      Moved tool machine (.enter processor index points)
        (machine.run processor (some ⟨cached, points⟩)) []
  | leave (processor : Fin n) : Moved tool machine (.advance processor)
      (machine.run processor none) []
  | advance (processor : Fin n) (cached : Cached Block Hooks) (point : Point) (rest : List Point)
      (state : State) (outputs : List Output)
      (inside : machine.running processor = some ⟨cached, point :: rest⟩)
      (done : tool.meet cached.hooks processor machine.state point = .ok (state, outputs)) :
      Moved tool machine (.advance processor)
        ({ machine with state := state }.run processor (some ⟨cached, rest⟩))
        (.executed processor point :: outputs.map .output)
  | happen (processor : Fin n) (point : Point) (state : State) (outputs : List Output)
      (outside : tool.outside point = true)
      (done : tool.hear machine.registered processor machine.state point = .ok (state, outputs)) :
      Moved tool machine (.happen processor point) { machine with state := state }
        (.executed processor point :: outputs.map .output)

theorem step_moved (tool : Tool n State Command Block Hooks Point Output Fault)
    (machine next : Machine n State Block Hooks Point) (event : Event n Command Block Point)
    (seen : List (Seen n Command Point Output))
    (taken : step emulator tool machine event = .ok (next, seen)) :
    Moved tool machine event next seen := by
  cases event with
  | command command =>
      obtain ⟨⟨state, outputs⟩, done, same⟩ := map_ok _ _ _ taken
      cases same
      exact .command command state outputs done
  | flush =>
      simp only [step] at taken
      split at taken
      · rename_i ready
        cases taken
        exact .flush (emulator.waits machine (Bool.and_eq_true_iff.mp ready).1)
      · cases taken
        exact .idle _ fun _ same => by cases same
  | reset =>
      simp only [step] at taken
      split at taken
      · rename_i ready
        obtain ⟨alone, waiting⟩ := Bool.and_eq_true_iff.mp ready
        cases taken
        exact .reset (emulator.waits machine alone) (of_decide_eq_true waiting)
      · cases taken
        exact .idle _ fun _ same => by cases same
  | translate block =>
      cases taken
      exact .translate block
  | enter processor index points =>
      simp only [step] at taken
      split at taken
      · rename_i cached outside present
        split at taken
        · rename_i fit
          cases taken
          exact .enter processor index points cached (List.mem_of_getElem? present)
            (List.all_eq_true.mp fit)
        · cases taken
          exact .idle _ fun _ same => by cases same
      · cases taken
        exact .idle _ fun _ same => by cases same
  | advance processor =>
      simp only [step] at taken
      split at taken
      · cases taken
        exact .idle _ fun _ same => by cases same
      · cases taken
        exact .leave processor
      · rename_i cached point rest inside
        obtain ⟨⟨state, outputs⟩, done, same⟩ := map_ok _ _ _ taken
        cases same
        exact .advance processor cached point rest state outputs inside done
  | happen processor point =>
      simp only [step] at taken
      split at taken
      · rename_i outside
        obtain ⟨⟨state, outputs⟩, done, same⟩ := map_ok _ _ _ taken
        cases same
        exact .happen processor point state outputs outside done
      · cases taken
        exact .idle _ fun _ same => by cases same

/-! What the hooks in the cache are. -/

structure Everywhere (good : Cached Block Hooks → Prop)
    (machine : Machine n State Block Hooks Point) : Prop where
  cache : ∀ cached ∈ machine.cache, good cached
  running : ∀ processor running, machine.running processor = some running → good running.cached

def Tool.Hooked (tool : Tool n State Command Block Hooks Point Output Fault)
    (cached : Cached Block Hooks) : Prop := cached.hooks = some (tool.translate cached.block)

def Tool.Honest (tool : Tool n State Command Block Hooks Point Output Fault)
    (cached : Cached Block Hooks) : Prop := cached.hooks = none ∨ tool.Hooked cached

def Fitting (tool : Tool n State Command Block Hooks Point Output Fault)
    (machine : Machine n State Block Hooks Point) : Prop :=
  ∀ processor running, machine.running processor = some running →
    ∀ point ∈ running.rest, tool.fits running.cached.block point

/-- An execution after a step is one from before it, or has just been begun, or is one
point further. -/
theorem run_kept (machine : Machine n State Block Hooks Point) (own : Fin n)
    (entered : Option (Running Block Hooks Point)) (good : Running Block Hooks Point → Prop)
    (before : ∀ processor running, machine.running processor = some running → good running)
    (here : ∀ running, entered = some running → good running) (processor : Fin n)
    (running : Running Block Hooks Point)
    (now : (machine.run own entered).running processor = some running) : good running := by
  by_cases same : processor = own
  · subst same
    simp only [Machine.run, Function.update_self] at now
    exact here running now
  · simp only [Machine.run, Function.update_of_ne same] at now
    exact before processor running now

theorem moved_fitting (tool : Tool n State Command Block Hooks Point Output Fault)
    (machine next : Machine n State Block Hooks Point) (event : Event n Command Block Point)
    (seen : List (Seen n Command Point Output)) (fitting : Fitting tool machine)
    (moved : Moved tool machine event next seen) : Fitting tool next := by
  cases moved with
  | idle event silent => exact fitting
  | command command state outputs done => exact fitting
  | flush alone => exact fitting
  | reset alone waiting => exact fitting
  | translate block => exact fitting
  | enter processor index points cached present fit =>
      refine run_kept machine processor _ _ fitting fun running same => ?_
      cases same
      exact fit
  | leave processor =>
      exact run_kept machine processor none _ fitting fun running same => by cases same
  | advance processor cached point rest state outputs inside done =>
      refine run_kept { machine with state := state } processor _ _ fitting fun running same => ?_
      cases same
      exact fun later member => fitting processor _ inside later (List.mem_cons_of_mem point member)
  | happen processor point state outputs outside done => exact fitting

theorem cleared_everywhere (good : Cached Block Hooks → Prop)
    (machine : Machine n State Block Hooks Point) (empty : machine.cache = [])
    (alone : ∀ processor, machine.running processor = none) : Everywhere good machine := by
  refine ⟨fun cached member => ?_, fun processor running now => ?_⟩
  · rw [empty] at member
    exact absurd member List.not_mem_nil
  · rw [alone] at now
    contradiction

theorem moved_everywhere (tool : Tool n State Command Block Hooks Point Output Fault)
    (good : Cached Block Hooks → Prop) (machine next : Machine n State Block Hooks Point)
    (event : Event n Command Block Point) (seen : List (Seen n Command Point Output))
    (translated : ∀ block,
      good ⟨block, if machine.registered then some (tool.translate block) else none⟩)
    (everywhere : Everywhere good machine) (moved : Moved tool machine event next seen) :
    Everywhere good next := by
  cases moved with
  | idle event silent => exact everywhere
  | command command state outputs done => exact ⟨everywhere.cache, everywhere.running⟩
  | flush alone => exact cleared_everywhere good _ rfl alone
  | reset alone waiting => exact cleared_everywhere good _ rfl alone
  | translate block =>
      refine ⟨fun cached member => ?_, everywhere.running⟩
      obtain old | fresh := List.mem_append.mp member
      · exact everywhere.cache cached old
      · rw [List.mem_singleton.mp fresh]
        exact translated block
  | enter processor index points cached present fit =>
      refine ⟨everywhere.cache, run_kept machine processor _ _ everywhere.running ?_⟩
      intro running same
      cases same
      exact everywhere.cache cached present
  | leave processor =>
      refine ⟨everywhere.cache, run_kept machine processor none _ everywhere.running ?_⟩
      intro running same
      cases same
  | advance processor cached point rest state outputs inside done =>
      have known : good cached := everywhere.running processor _ inside
      refine ⟨everywhere.cache, run_kept { machine with state := state } processor _ _
        everywhere.running ?_⟩
      intro running same
      cases same
      exact known
  | happen processor point state outputs outside done =>
      exact ⟨everywhere.cache, everywhere.running⟩

theorem moved_hooked (tool : Tool n State Command Block Hooks Point Output Fault)
    (machine next : Machine n State Block Hooks Point) (event : Event n Command Block Point)
    (seen : List (Seen n Command Point Output)) (registered : machine.registered = true)
    (hooked : Everywhere tool.Hooked machine) (moved : Moved tool machine event next seen) :
    Everywhere tool.Hooked next :=
  moved_everywhere tool tool.Hooked machine next event seen (fun _ => if_pos registered) hooked
    moved

theorem moved_honest (tool : Tool n State Command Block Hooks Point Output Fault)
    (machine next : Machine n State Block Hooks Point) (event : Event n Command Block Point)
    (seen : List (Seen n Command Point Output)) (honest : Everywhere tool.Honest machine)
    (moved : Moved tool machine event next seen) : Everywhere tool.Honest next := by
  refine moved_everywhere tool tool.Honest machine next event seen (fun block => ?_) honest moved
  rw [Tool.Honest, Tool.Hooked]
  split
  · exact .inr rfl
  · exact .inl rfl

def Tool.Flushing (tool : Tool n State Command Block Hooks Point Output Fault) : Prop :=
  ∀ command, .register ∈ tool.asks command → .flush ∈ tool.asks command

/-- In every reachable state: a registered tool whose start has been flushed, and that is
not to be let go, has hooks in every block. -/
structure Steady (tool : Tool n State Command Block Hooks Point Output Fault)
    (machine : Machine n State Block Hooks Point) : Prop where
  fitting : Fitting tool machine
  honest : Everywhere tool.Honest machine
  hooked : machine.registered = true → machine.flushes = 0 → Everywhere tool.Hooked machine

theorem booted_steady (tool : Tool n State Command Block Hooks Point Output Fault) (state : State) :
    Steady tool (booted (n := n) state) where
  fitting := fun processor running now => by cases now
  honest := ⟨fun cached member => absurd member List.not_mem_nil,
    fun processor running now => by cases now⟩
  hooked := fun registered => absurd registered Bool.false_ne_true

theorem moved_steady (tool : Tool n State Command Block Hooks Point Output Fault)
    (flushing : tool.Flushing) (machine next : Machine n State Block Hooks Point)
    (event : Event n Command Block Point) (seen : List (Seen n Command Point Output))
    (steady : Steady tool machine) (moved : Moved tool machine event next seen) :
    Steady tool next := by
  refine ⟨moved_fitting tool machine next event seen steady.fitting moved,
    moved_honest tool machine next event seen steady.honest moved, ?_⟩
  intro registered flushed
  have kept : machine.registered = true → machine.flushes = 0 →
      Everywhere tool.Hooked next :=
    fun before none_ =>
      moved_hooked tool machine next event seen before (steady.hooked before none_) moved
  cases moved with
  | command command state outputs done =>
      have asked : machine.flushes + (tool.asks command).count .flush = 0 := flushed
      have quiet : .flush ∉ tool.asks command := List.count_eq_zero.mp (by omega)
      -- Without a flush the command was no start.
      have before : (machine.registered || (tool.asks command).contains .register) = true :=
        registered
      obtain already | starting := Bool.or_eq_true_iff.mp before
      · exact kept already (by omega)
      · exact absurd (flushing command (List.contains_iff_mem.mp starting)) quiet
  | flush alone => exact cleared_everywhere tool.Hooked _ rfl alone
  | reset alone waiting => exact absurd registered Bool.false_ne_true
  | idle event silent => exact kept registered flushed
  | translate block => exact kept registered flushed
  | enter processor index points cached present fit => exact kept registered flushed
  | leave processor => exact kept registered flushed
  | advance processor cached point rest state outputs inside done => exact kept registered flushed
  | happen processor point state outputs outside done => exact kept registered flushed

theorem run_steady (tool : Tool n State Command Block Hooks Point Output Fault)
    (flushing : tool.Flushing) (machine final : Machine n State Block Hooks Point)
    (events : List (Event n Command Block Point)) (seen : List (Seen n Command Point Output))
    (steady : Steady tool machine)
    (done : run (step emulator tool) machine events = .ok (final, seen)) : Steady tool final :=
  run_invariant (step emulator tool) (Steady tool)
    (fun before event after emitted steady taken => moved_steady tool flushing before after event
      emitted steady (step_moved emulator tool before after event emitted taken))
    machine final events seen steady done

/-! What a registered tool relies on. -/

/-- The rule for what a start establishes and everything but a stop keeps: it holds as
long as the tool is registered and not to be let go. -/
theorem registered_rule (tool : Tool n State Command Block Hooks Point Output Fault)
    (good : State → Prop)
    (begins : ∀ state command next outputs, .register ∈ tool.asks command →
      tool.perform state command = .ok (next, outputs) → good next)
    (goes : ∀ state command next outputs, .reset ∉ tool.asks command → good state →
      tool.perform state command = .ok (next, outputs) → good next)
    (sees : ∀ hooks processor state point next outputs, good state →
      tool.observe hooks processor state point = .ok (next, outputs) → good next)
    (attends : ∀ processor state point next outputs, good state →
      tool.attend processor state point = .ok (next, outputs) → good next)
    (machine final : Machine n State Block Hooks Point)
    (events : List (Event n Command Block Point)) (seen : List (Seen n Command Point Output))
    (fresh : machine.registered = true → machine.resets = 0 → good machine.state)
    (done : run (step emulator tool) machine events = .ok (final, seen)) :
    final.registered = true → final.resets = 0 → good final.state := by
  refine run_invariant (step emulator tool)
    (fun machine => machine.registered = true → machine.resets = 0 → good machine.state) ?_
    machine final events seen fresh done
  intro before event after emitted holds taken registered staying
  cases step_moved emulator tool before after event emitted taken with
  | command command state outputs done =>
      have kept : before.resets + (tool.asks command).count .reset = 0 := staying
      have staysOn : .reset ∉ tool.asks command := List.count_eq_zero.mp (by omega)
      have now : (before.registered || (tool.asks command).contains .register) = true := registered
      obtain already | starting := Bool.or_eq_true_iff.mp now
      · exact goes _ command state outputs staysOn (holds already (by omega)) done
      · exact begins _ command state outputs (List.contains_iff_mem.mp starting) done
  | reset alone waiting => exact absurd registered Bool.false_ne_true
  | advance processor cached point rest state outputs inside done =>
      have earlier := holds registered staying
      cases hooks : cached.hooks with
      | some hooks_ =>
          rw [hooks] at done
          exact sees hooks_ processor _ point state outputs earlier done
      | none =>
          rw [hooks] at done
          cases done
          exact earlier
  | happen processor point state outputs outside done =>
      have on : before.registered = true := registered
      rw [on] at done
      exact attends processor _ point state outputs (holds on staying) done
  | idle event silent => exact holds registered staying
  | flush alone => exact holds registered staying
  | translate block => exact holds registered staying
  | enter processor index points cached present fit => exact holds registered staying
  | leave processor => exact holds registered staying

/-! A tool that sees everything. -/

inductive Input (n : Nat) (Command Point : Type) where
  | command (command : Command)
  | point (processor : Fin n) (point : Point)

def Seen.input : Seen n Command Point Output → Option (Input n Command Point)
  | .performed command => some (.command command)
  | .executed processor point => some (.point processor point)
  | .output _ => none

def Seen.said : Seen n Command Point Output → Option Output
  | .output said => some said
  | _ => none

def Tool.told (tool : Tool n State Command Block Hooks Point Output Fault)
    (sees : Fin n → Step State Point Output Fault) :
    Step State (Input n Command Point) Output Fault :=
  fun state input =>
    match input with
    | .command command => tool.perform state command
    | .point processor point => sees processor state point

/-- The hooks of a block see each of its points as `sees` does, and so are the points
outside seen. -/
structure Tool.Complete (tool : Tool n State Command Block Hooks Point Output Fault)
    (sees : Fin n → Step State Point Output Fault) : Prop where
  inside : ∀ block processor state point, tool.fits block point = true →
    tool.observe (tool.translate block) processor state point = sees processor state point
  outside : ∀ processor state point, tool.outside point = true →
    tool.attend processor state point = sees processor state point

def Tool.goesOn (tool : Tool n State Command Block Hooks Point Output Fault) :
    Event n Command Block Point → Prop
  | .command command => .reset ∉ tool.asks command
  | _ => True

structure Covering (tool : Tool n State Command Block Hooks Point Output Fault)
    (machine : Machine n State Block Hooks Point) : Prop where
  registered : machine.registered = true
  staying : machine.resets = 0
  hooked : Everywhere tool.Hooked machine
  fitting : Fitting tool machine

theorem steady_covering (tool : Tool n State Command Block Hooks Point Output Fault)
    (machine : Machine n State Block Hooks Point) (steady : Steady tool machine)
    (registered : machine.registered = true) (flushed : machine.flushes = 0)
    (staying : machine.resets = 0) : Covering tool machine :=
  ⟨registered, staying, steady.hooked registered flushed, steady.fitting⟩

theorem input_read (seen : Seen n Command Point Output) (input : Input n Command Point)
    (outputs : List Output) (known : seen.input = some input) :
    (seen :: outputs.map .output).filterMap Seen.input = [input] := by
  have unread : (outputs.map (@Seen.output n Command Point Output)).filterMap Seen.input = [] := by
    rw [List.filterMap_map]
    exact List.filterMap_eq_nil_iff.mpr fun _ _ => rfl
  rw [List.filterMap_cons_some known, unread]

theorem outputs_said (seen : Seen n Command Point Output) (outputs : List Output)
    (silent : seen.said = none) :
    (seen :: outputs.map .output).filterMap Seen.said = outputs := by
  rw [List.filterMap_cons_none silent, List.filterMap_map]
  exact List.filterMap_some

theorem moved_told (tool : Tool n State Command Block Hooks Point Output Fault)
    (sees : Fin n → Step State Point Output Fault) (complete : tool.Complete sees)
    (machine next : Machine n State Block Hooks Point) (event : Event n Command Block Point)
    (seen : List (Seen n Command Point Output)) (covering : Covering tool machine)
    (goesOn : tool.goesOn event) (moved : Moved tool machine event next seen) :
    Covering tool next ∧
      run (tool.told sees) machine.state (seen.filterMap Seen.input) =
        .ok (next.state, seen.filterMap Seen.said) := by
  have hooked := moved_hooked tool machine next event seen covering.registered covering.hooked moved
  have fitting := moved_fitting tool machine next event seen covering.fitting moved
  cases moved with
  | command command state outputs done =>
      refine ⟨⟨?_, ?_, hooked, fitting⟩, ?_⟩
      · exact Bool.or_eq_true_iff.mpr (.inl covering.registered)
      · have quiet : (tool.asks command).count .reset = 0 := List.count_eq_zero.mpr goesOn
        have staying := covering.staying
        show machine.resets + _ = 0
        omega
      · rw [input_read (.performed command) (.command command) outputs rfl,
          outputs_said (.performed command) outputs rfl, run_singleton]
        exact done
  | reset alone waiting =>
      have staying := covering.staying
      omega
  | advance processor cached point rest state outputs inside done =>
      refine ⟨⟨covering.registered, covering.staying, hooked, fitting⟩, ?_⟩
      have known : cached.hooks = some (tool.translate cached.block) :=
        covering.hooked.running processor _ inside
      have fit := covering.fitting processor _ inside point List.mem_cons_self
      rw [known] at done
      rw [input_read (.executed processor point) (.point processor point) outputs rfl,
        outputs_said (.executed processor point) outputs rfl, run_singleton]
      exact (complete.inside cached.block processor machine.state point fit).symm.trans done
  | happen processor point state outputs outside done =>
      refine ⟨⟨covering.registered, covering.staying, hooked, fitting⟩, ?_⟩
      rw [covering.registered] at done
      rw [input_read (.executed processor point) (.point processor point) outputs rfl,
        outputs_said (.executed processor point) outputs rfl, run_singleton]
      exact (complete.outside processor machine.state point outside).symm.trans done
  | idle event silent => exact ⟨covering, rfl⟩
  | flush alone => exact ⟨⟨covering.registered, covering.staying, hooked, fitting⟩, rfl⟩
  | translate block => exact ⟨⟨covering.registered, covering.staying, hooked, fitting⟩, rfl⟩
  | enter processor index points cached present fit =>
      exact ⟨⟨covering.registered, covering.staying, hooked, fitting⟩, rfl⟩
  | leave processor => exact ⟨⟨covering.registered, covering.staying, hooked, fitting⟩, rfl⟩

def Input.isCommand : Input n Command Point → Bool
  | .command _ => true
  | .point _ _ => false

/-- Inputs with some of the points left out. -/
structure Part (told all : List (Input n Command Point)) : Prop where
  sublist : told.Sublist all
  commands : told.filter Input.isCommand = all.filter Input.isCommand

theorem part_append (told all more rest : List (Input n Command Point)) (front : Part told all)
    (back : Part more rest) : Part (told ++ more) (all ++ rest) where
  sublist := front.sublist.append back.sublist
  commands := by rw [List.filter_append, List.filter_append, front.commands, back.commands]

theorem part_whole (all : List (Input n Command Point)) : Part all all :=
  ⟨List.Sublist.refl all, rfl⟩

theorem moved_part (tool : Tool n State Command Block Hooks Point Output Fault)
    (sees : Fin n → Step State Point Output Fault) (complete : tool.Complete sees)
    (machine next : Machine n State Block Hooks Point) (event : Event n Command Block Point)
    (seen : List (Seen n Command Point Output)) (fitting : Fitting tool machine)
    (honest : Everywhere tool.Honest machine) (moved : Moved tool machine event next seen) :
    ∃ told, Part told (seen.filterMap Seen.input) ∧
      run (tool.told sees) machine.state told = .ok (next.state, seen.filterMap Seen.said) := by
  cases moved with
  | command command state outputs done =>
      refine ⟨[.command command], ?_, ?_⟩
      · rw [input_read (.performed command) (.command command) outputs rfl]
        exact part_whole _
      · rw [outputs_said (.performed command) outputs rfl, run_singleton]
        exact done
  | advance processor cached point rest state outputs inside done =>
      rw [input_read (.executed processor point) (.point processor point) outputs rfl,
        outputs_said (.executed processor point) outputs rfl]
      have known : cached.hooks = none ∨ tool.Hooked cached := honest.running processor _ inside
      obtain unhooked | hooked := known
      · rw [unhooked] at done
        cases done
        exact ⟨[], ⟨List.nil_sublist _, rfl⟩, rfl⟩
      · refine ⟨[.point processor point], part_whole _, ?_⟩
        have fit := fitting processor _ inside point List.mem_cons_self
        rw [hooked] at done
        rw [run_singleton]
        exact (complete.inside cached.block processor machine.state point fit).symm.trans done
  | happen processor point state outputs outside done =>
      rw [input_read (.executed processor point) (.point processor point) outputs rfl,
        outputs_said (.executed processor point) outputs rfl]
      cases registered : machine.registered with
      | false =>
          rw [registered] at done
          cases done
          exact ⟨[], ⟨List.nil_sublist _, rfl⟩, rfl⟩
      | true =>
          rw [registered] at done
          refine ⟨[.point processor point], part_whole _, ?_⟩
          rw [run_singleton]
          exact (complete.outside processor machine.state point outside).symm.trans done
  | idle event silent => exact ⟨[], part_whole [], rfl⟩
  | flush alone => exact ⟨[], part_whole [], rfl⟩
  | reset alone waiting => exact ⟨[], part_whole [], rfl⟩
  | translate block => exact ⟨[], part_whole [], rfl⟩
  | enter processor index points cached present fit => exact ⟨[], part_whole [], rfl⟩
  | leave processor => exact ⟨[], part_whole [], rfl⟩

/-- Whatever happens, it is as if the tool ran on the commands and on some of the points,
none of them twice. -/
theorem run_part (tool : Tool n State Command Block Hooks Point Output Fault)
    (sees : Fin n → Step State Point Output Fault) (complete : tool.Complete sees)
    (machine final : Machine n State Block Hooks Point)
    (events : List (Event n Command Block Point)) (seen : List (Seen n Command Point Output))
    (fitting : Fitting tool machine)
    (honest : Everywhere tool.Honest machine)
    (done : run (step emulator tool) machine events = .ok (final, seen)) :
    ∃ told, Part told (seen.filterMap Seen.input) ∧
      run (tool.told sees) machine.state told = .ok (final.state, seen.filterMap Seen.said) := by
  induction events generalizing machine seen with
  | nil =>
      cases done
      exact ⟨[], part_whole [], rfl⟩
  | cons event rest ih =>
      obtain ⟨next, early, late, first, tail, rfl⟩ := (run_cons_iff _ _ _ _ _ _).mp done
      have moved := step_moved emulator tool machine next event early first
      have fit := moved_fitting tool machine next event early fitting moved
      have still := moved_honest tool machine next event early honest moved
      obtain ⟨told, part, ran⟩ :=
        moved_part tool sees complete machine next event early fitting honest moved
      obtain ⟨more, others, later⟩ := ih next late fit still tail
      rw [List.filterMap_append, List.filterMap_append]
      exact ⟨told ++ more, part_append _ _ _ _ part others, run_append_ok _ _ _ _ _ _ _ _ ran later⟩

theorem moved_commands (tool : Tool n State Command Block Hooks Point Output Fault)
    (machine next : Machine n State Block Hooks Point) (event : Event n Command Block Point)
    (seen : List (Seen n Command Point Output)) (moved : Moved tool machine event next seen)
    (command : Command) (read : .command command ∈ seen.filterMap Seen.input) :
    event = .command command := by
  cases moved with
  | command given state outputs done =>
      rw [input_read (.performed given) (.command given) outputs rfl] at read
      cases List.mem_singleton.mp read
      rfl
  | advance processor cached point rest state outputs inside done =>
      rw [input_read (.executed processor point) (.point processor point) outputs rfl] at read
      cases List.mem_singleton.mp read
  | happen processor point state outputs outside done =>
      rw [input_read (.executed processor point) (.point processor point) outputs rfl] at read
      cases List.mem_singleton.mp read
  | idle event silent => exact absurd read List.not_mem_nil
  | flush alone => exact absurd read List.not_mem_nil
  | reset alone waiting => exact absurd read List.not_mem_nil
  | translate block => exact absurd read List.not_mem_nil
  | enter processor index points cached present fit => exact absurd read List.not_mem_nil
  | leave processor => exact absurd read List.not_mem_nil

theorem run_commands (tool : Tool n State Command Block Hooks Point Output Fault)
    (machine final : Machine n State Block Hooks Point)
    (events : List (Event n Command Block Point)) (seen : List (Seen n Command Point Output))
    (done : run (step emulator tool) machine events = .ok (final, seen)) (command : Command)
    (read : .command command ∈ seen.filterMap Seen.input) : .command command ∈ events := by
  induction events generalizing machine seen with
  | nil =>
      cases done
      exact absurd read List.not_mem_nil
  | cons event rest ih =>
      obtain ⟨next, early, late, first, tail, rfl⟩ := (run_cons_iff _ _ _ _ _ _).mp done
      rw [List.filterMap_append] at read
      obtain now | later := List.mem_append.mp read
      · have same := moved_commands tool machine next event early
          (step_moved emulator tool machine next event early first) command now
        exact List.mem_cons.mpr (.inl same.symm)
      · exact List.mem_cons_of_mem event (ih next late tail later)

/-- From a covering state on, as long as the tool is not let go, it is as if it ran on the
commands and on all that is executed, each point once and in order. -/
theorem run_told (tool : Tool n State Command Block Hooks Point Output Fault)
    (sees : Fin n → Step State Point Output Fault) (complete : tool.Complete sees)
    (machine final : Machine n State Block Hooks Point)
    (events : List (Event n Command Block Point)) (seen : List (Seen n Command Point Output))
    (covering : Covering tool machine)
    (goesOn : ∀ event ∈ events, tool.goesOn event)
    (done : run (step emulator tool) machine events = .ok (final, seen)) :
    run (tool.told sees) machine.state (seen.filterMap Seen.input) =
      .ok (final.state, seen.filterMap Seen.said) := by
  induction events generalizing machine seen with
  | nil =>
      cases done
      rfl
  | cons event rest ih =>
      obtain ⟨here, later⟩ := List.forall_mem_cons.mp goesOn
      obtain ⟨next, early, late, first, tail, rfl⟩ := (run_cons_iff _ _ _ _ _ _).mp done
      obtain ⟨still, ran⟩ := moved_told tool sees complete machine next event early covering here
        (step_moved emulator tool machine next event early first)
      rw [List.filterMap_append, List.filterMap_append]
      exact run_append_ok _ _ _ _ _ _ _ _ ran (ih next late still later tail)

end CodeCache
