import Mathlib.Data.List.FinRange
import Hypersh.Transduction
import Hypersh.Callbacks
import Hypersh.Control
import Hypersh.Writers
import Hypersh.System
import Hypersh.Inversion

/-!
What the plugin has told the outside of its mode: the simulator by `Magic`, the machine
by the slomo rate. A start announces nothing and sets no rate; it relies on the stop
before it.
-/
namespace Hypersh.Rates
open Callbacks Control Transduction Inversion
variable {n : Nat}

/-- The mode last announced in this recording, which begins in fast forward, and the
rate last set. -/
structure Told where
  mode : Mode
  rate : UInt64
  deriving DecidableEq, Repr

def announced : SimOpt → Mode
  | .instrumentFastforward => .icount
  | .instrumentWarmup => .memory
  | .instrumentDetailed => .detailed

def tell (told : Told) : Action n → Told
  | .registerCallbacks => { told with mode := .icount }
  | .call _ _ (.magic option) => { told with mode := announced option }
  | .setSlomoRate rate => { told with rate }
  | _ => told

def toldBy (told : Told) (actions : List (Action n)) : Told := actions.foldl tell told

/-- The rate of the machine: slowed down while a recording is in detailed mode. -/
def properRate (trace : Trace n) : UInt64 :=
  if trace.recording ∧ trace.globals.currentMode = .detailed then Request.detailed.slomoRate
  else 1

structure Honest (trace : Trace n) (told : Told) : Prop where
  owned : Writers.Owned trace
  mode : trace.recording = true → told.mode = trace.globals.currentMode
  rate : told.rate = properRate trace

theorem told_append (told : Told) (front back : List (Action n)) :
    toldBy told (front ++ back) = toldBy (toldBy told front) back :=
  List.foldl_append

theorem told_silent (told : Told) (actions : List (Action n))
    (silent : ∀ action ∈ actions, ∀ told, tell told action = told) :
    toldBy told actions = told := by
  induction actions with
  | nil => rfl
  | cons action rest ih =>
      rw [toldBy, List.foldl_cons, silent action List.mem_cons_self]
      exact ih fun other member => silent other (List.mem_cons_of_mem _ member)

theorem plain_silent (trace : Trace n) (action : Action n) (plain : Plain trace action)
    (told : Told) : tell told action = told := by
  cases action with
  | call vcpu writer call =>
      cases call with
      | magic option => exact absurd plain.2 Bool.false_ne_true
      | _ => rfl
  | setSlomoRate rate | registerCallbacks => exact plain.elim
  | _ => rfl

theorem request_mode (request : Request) : announced request.simOpt = request.mode := by
  cases request <;> rfl

theorem request_rate (request : Request) :
    request.slomoRate = if request.mode = .detailed then Request.detailed.slomoRate else 1 := by
  cases request <;> rfl

theorem told_pieces {Item : Type} (told : Told) (items : List Item)
    (piece : Item → List (Action n)) (silent : ∀ item, toldBy told (piece item) = told) :
    toldBy told (items.flatMap piece) = told := by
  induction items with
  | nil => rfl
  | cons item rest ih => rw [List.flatMap_cons, told_append, silent, ih]

theorem told_each (told : Told) (paths : List String) (action : String → Action n)
    (silent : ∀ path, tell told (action path) = told) :
    toldBy told (paths.map action) = told := by
  rw [List.map_eq_flatMap]
  exact told_pieces told paths _ silent

theorem open_told (dir : String) (answers : Answers n) (threadid : Fin n) (writer : Nat)
    (told : Told) : toldBy told (openActions dir answers threadid writer none) = told := by
  unfold openActions
  split
  · rfl
  · rfl

theorem stop_actions_told (trace : Trace n) (threadid : Fin n) (told : Told) :
    toldBy told (Writers.stopActions trace threadid) = told := by
  unfold Writers.stopActions
  rw [told_append]
  cases trace.output threadid with
  | none => split <;> rfl
  | some writer => split <;> rfl

theorem start_told (dir : String) (answers : Answers n) (trace : Trace n) (told : Told) :
    toldBy told (startIn dir answers trace).2 = { told with mode := .icount } := by
  have opened : toldBy told ((List.finRange n).flatMap fun threadid =>
      openActions dir answers threadid (trace.nextWriter + threadid.val) none) = told :=
    told_pieces told _ _ fun threadid => open_told dir answers threadid _ told
  unfold startIn
  dsimp only
  rw [told_append, told_append, told_append, told_each told _ .mkfifo fun _ => rfl]
  exact congrArg (fun told => toldBy told [.registerCallbacks, .tbFlush]) opened

theorem stop_told (trace : Trace n) (told : Told) :
    toldBy told (stopCallback trace).2 = { told with rate := 1 } := by
  have closed : toldBy told ((List.finRange n).flatMap (Writers.stopActions trace)) = told :=
    told_pieces told _ _ fun threadid => stop_actions_told trace threadid told
  have printed : toldBy told (((List.finRange n).take 1).flatMap fun threadid =>
      [Action.vcpuInfo threadid "Hot blocks:",
       .hotBlocks threadid (trace.threads threadid).blockCnt]) = told :=
    told_pieces told _ _ fun _ => rfl
  have removed := told_each told trace.traceFiles (.unlink : String → Action n) fun _ => rfl
  rw [show (stopCallback trace).2 = (List.finRange n).flatMap (Writers.stopActions trace) ++
    ((List.finRange n).take 1).flatMap (fun threadid =>
      [Action.vcpuInfo threadid "Hot blocks:",
       .hotBlocks threadid (trace.threads threadid).blockCnt]) ++
    trace.traceFiles.map .unlink ++ [.setSlomoRate 1, .info "Successfully reset trace."] from rfl,
    told_append, told_append, told_append, closed, printed, removed]
  rfl

theorem alike_rate (before after : Trace n) (alike : Alike before after) :
    properRate after = properRate before := by
  rw [properRate, properRate, alike.recording, alike.mode]

theorem step_told (trace next : Trace n) (told : Told) (event : System.Event n)
    (actions : List (Action n)) (honest : Honest trace told)
    (taken : System.step trace event = .ok (next, actions)) :
    Honest next (toldBy told actions) := by
  have owned := System.step_owned trace next event actions honest.owned taken
  cases step_happened event trace next actions taken with
  | plain alike plain =>
      rw [told_silent told actions fun action member =>
        plain_silent trace action (plain action member)]
      refine ⟨owned, ?_, honest.rate.trans (alike_rate trace next alike).symm⟩
      rw [alike.recording, alike.mode]
      exact honest.mode
  | switched request vcpu writer asked held alike plain said =>
      have recording : next.recording = true := by
        by_contra stopped
        have gone := (alike.output vcpu).symm.trans (owned.closed (by simpa using stopped) vcpu)
        cases gone.symm.trans held
      have spoken : toldBy told actions = ⟨request.mode, request.slomoRate⟩ := by
        rw [said, told_append, told_append,
          told_silent told asked fun action member =>
            plain_silent trace action (plain action member),
          ← request_mode request]
        split <;> rfl
      rw [spoken]
      refine ⟨owned, fun _ => alike.mode.symm, ?_⟩
      rw [properRate, recording, alike.mode, request_rate request]
      simp [Trace.setMode]
  | started dir answers now idle same =>
      have spoken := start_told dir answers trace told
      rw [same] at spoken
      rw [spoken]
      have reached : next = (startIn dir answers trace).1 := (congrArg Prod.fst same).symm
      refine ⟨owned, fun _ => by rw [reached]; rfl, ?_⟩
      have before := honest.rate
      rw [properRate, idle] at before
      rw [properRate, reached]
      exact before
  | stopped index later same =>
      have spoken := stop_told (trace.dequeue index) told
      rw [same] at spoken
      have reached : next = (stopCallback (trace.dequeue index)).1 := (congrArg Prod.fst same).symm
      rw [spoken]
      have idle : next.recording = false := by
        rw [reached]
        rfl
      refine ⟨owned, fun recording => absurd (idle.symm.trans recording) Bool.false_ne_true, ?_⟩
      rw [properRate, idle]
      rfl

/-- At every moment of every run, whatever is still queued, the simulator has been told
the mode the callbacks are translated for, and the machine runs slowly exactly while a
recording is in detailed mode. -/
theorem outside_told (events : List (System.Event n)) (final : Trace n)
    (actions : List (Action n)) (done : run System.step (install n) events = .ok (final, actions)) :
    (final.recording = true → (toldBy ⟨.icount, 1⟩ actions).mode = final.globals.currentMode) ∧
      (toldBy ⟨.icount, 1⟩ actions).rate =
        if final.recording ∧ final.globals.currentMode = .detailed then 100000 else 1 := by
  have told := run_history_invariant System.step
    (fun trace past => Honest trace (toldBy ⟨.icount, 1⟩ past))
    (fun trace past event next emitted honest taken => by
      rw [told_append]
      exact step_told trace next _ event emitted honest taken)
    (install n) final [] events actions ⟨Writers.install_owned n, fun _ => rfl, rfl⟩ done
  exact ⟨told.mode, told.rate⟩

/-- A detailed recording is stopped and another is begun; then the machine is to be slow
again, with a mode switch still queued. -/
def slowedTwice : List (System.Event 1) :=
  [.control (.command vcpu₀ ⟨7, none, fun _ => true⟩ (.start (some "d"))),
   .control (.command vcpu₀ ⟨7, none, fun _ => true⟩ (.mode "detailed")),
   .control (.command vcpu₀ ⟨7, none, fun _ => true⟩ .stop), .control (.deferred 0),
   .control (.command vcpu₀ ⟨7, none, fun _ => true⟩ (.start (some "d"))),
   .control (.command vcpu₀ ⟨7, none, fun _ => true⟩ (.mode "cacheonly")),
   .control (.command vcpu₀ ⟨7, none, fun _ => true⟩ (.mode "detailed"))]

theorem slowed_twice_told :
    ∃ final actions, run System.step (install 1) slowedTwice = .ok (final, actions) ∧
      final.recording = true ∧ final.globals.currentMode = .detailed ∧ final.pending.length = 1 ∧
      (final.recording = true →
        (toldBy ⟨.icount, 1⟩ actions).mode = final.globals.currentMode) ∧
      (toldBy ⟨.icount, 1⟩ actions).rate =
        if final.recording ∧ final.globals.currentMode = .detailed then 100000 else 1 :=
  ⟨_, _, rfl, rfl, rfl, rfl, outside_told slowedTwice _ _ rfl⟩

end Hypersh.Rates
