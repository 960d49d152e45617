import Mathlib.Data.List.FinRange
import Hypersh.Transduction
import Hypersh.Getopt
import Hypersh.Callbacks
import Hypersh.Blocks
import Hypersh.Control
import Hypersh.Timeline
import Hypersh.Writers
import Hypersh.System
import Hypersh.Mcount
import Hypersh.Divisors
import Hypersh.Pmem

/-!
Starts whose outputs do not open. No plugin looks at the outcome: mcount dies
writing to the missing file, pmem and trace record to it. A run is judged by the states
behind its events: as it is loaded pmem is on (`PMEM_ON` is 0) without a file.
-/
namespace Hypersh.Outputs
open Getopt Transduction

/-- A plugin that records to outputs. An input fails when it is a start and some
output does not open. -/
structure Recorder (State Input Output Fault : Type) where
  step : Step State Input Output Fault
  Recording : State → Prop
  Open : State → Prop
  Fails : State → Input → Prop

namespace Recorder
variable {State Input Output Fault : Type} (recorder : Recorder State Input Output Fault)

def LeftOff (state : State) (input : Input) : Prop :=
  ∃ next emitted, recorder.step state input = .ok (next, emitted) ∧ ¬ recorder.Recording next

/-- A failed start leaves the plugin off, and wherever it is on its outputs are open. -/
structure Kept (state : State) (input : Input) : Prop where
  failed : recorder.Fails state input → recorder.LeftOff state input
  opened : ∀ next emitted, recorder.step state input = .ok (next, emitted) →
    recorder.Recording next → recorder.Open next

theorem run_kept_iff (invariant : State → Prop)
    (blind : ∀ state input next emitted, recorder.Fails state input →
      recorder.step state input = .ok (next, emitted) → recorder.Recording next)
    (opens : ∀ state input next emitted, invariant state → ¬ recorder.Fails state input →
      recorder.step state input = .ok (next, emitted) →
        invariant next ∧ (recorder.Recording next → recorder.Open next))
    (state : State) (inputs : List Input) (start : invariant state) :
    Along recorder.step recorder.Kept state inputs ↔
      Along recorder.step (fun state input => ¬ recorder.Fails state input) state inputs := by
  induction inputs generalizing state with
  | nil => exact Iff.rfl
  | cons input rest ih =>
      have here : recorder.Kept state input ↔ ¬ recorder.Fails state input := by
        constructor
        · intro kept fails
          obtain ⟨next, emitted, taken, off⟩ := kept.failed fails
          exact off (blind state input next emitted fails taken)
        · intro fine
          exact ⟨fun fails => absurd fails fine, fun next emitted taken =>
            (opens state input next emitted start fine taken).2⟩
      unfold Along
      rw [here]
      apply and_congr_right
      intro fine
      cases taken : recorder.step state input with
      | error fault => exact Iff.rfl
      | ok result =>
          obtain ⟨next, emitted⟩ := result
          exact ih next (opens state input next emitted start fine taken).1

structure Blind (initial : State) : Prop where
  starts : ∀ state input,
    (recorder.Fails state input → recorder.LeftOff state input) ↔ ¬ recorder.Fails state input
  runs : ∀ inputs, Along recorder.step recorder.Kept initial inputs ↔
    Along recorder.step (fun state input => ¬ recorder.Fails state input) initial inputs

theorem blind_of (invariant : State → Prop)
    (blind : ∀ state input next emitted, recorder.Fails state input →
      recorder.step state input = .ok (next, emitted) → recorder.Recording next)
    (opens : ∀ state input next emitted, invariant state → ¬ recorder.Fails state input →
      recorder.step state input = .ok (next, emitted) →
        invariant next ∧ (recorder.Recording next → recorder.Open next))
    (initial : State) (start : invariant initial) : recorder.Blind initial where
  starts := by
    intro state input
    constructor
    · intro left fails
      obtain ⟨next, emitted, taken, off⟩ := left fails
      exact off (blind state input next emitted fails taken)
    · exact fun fine fails => absurd fails fine
  runs := fun inputs => recorder.run_kept_iff invariant blind opens initial inputs start

end Recorder

/-! mcount -/

def mcountFails : Mcount.Event → Prop
  | .start report opens _ _ _ => Mcount.openReport report opens = none
  | _ => False

def mcount : Recorder Mcount.Statics Mcount.Event Mcount.Output Mcount.Fault where
  step := Mcount.step
  Recording := fun statics => statics.cfg.mode = .on
  Open := fun statics => statics.cfg.report.isSome = true
  Fails := fun _ event => mcountFails event

theorem mcount_opens (statics next : Mcount.Statics) (event : Mcount.Event)
    (lines : List Mcount.Output)
    (before : statics.cfg.mode = .on → statics.cfg.report.isSome = true)
    (taken : Mcount.step statics event = .ok (next, lines)) :
    next.cfg.mode = .on → next.cfg.report.isSome = true := by
  cases event with
  | start report opens total memBin accBin =>
      simp only [Mcount.step, Mcount.hypercallMcountInit] at taken
      split at taken
      · contradiction
      · split at taken
        · contradiction
        · cases taken
          exact fun _ => rfl
  | tag tag =>
      cases taken
      exact before
  | stop =>
      simp only [Mcount.step, Mcount.hypercallMcountFini] at taken
      split at taken <;> cases taken <;> (intro on; cases on)
  | access cpuId access =>
      rw [Divisors.cb_cfg cpuId access statics next lines taken]
      exact before

theorem mcount_blind (cores : Nat) : mcount.Blind (Mcount.installed cores) := by
  apply mcount.blind_of (fun statics => statics.cfg.mode = .on → statics.cfg.report.isSome = true)
  · intro statics event next lines fails taken
    cases event with
    | start report opens total memBin accBin =>
        -- The configuration line is written to a null pointer.
        have missing : Mcount.openReport report opens = none := fails
        simp [mcount, Mcount.step, Mcount.hypercallMcountInit, missing] at taken
    | tag _ | stop | access _ _ => exact fails.elim
  · intro statics event next lines before _ taken
    have after := mcount_opens statics next event lines before taken
    exact ⟨after, after⟩
  · intro on
    cases on

/-! pmem -/

def pmemFails : Pmem.Event → Prop
  | .start filename opens _ _ => Mcount.openReport filename opens = none
  | _ => False

def pmem : Recorder Pmem.Statics Pmem.Event Pmem.Output Pmem.Fault where
  step := Pmem.step
  Recording := fun statics => statics.mode = .on
  Open := fun statics => statics.pmemFile.isSome = true
  Fails := fun _ event => pmemFails event

/-- A mode that is on without a file is that of a plugin which was never started. -/
def Unstarted (statics : Pmem.Statics) : Prop :=
  statics.mode = .on → statics.pmemFile.isSome = true ∨ statics.pmemInt = 0

theorem pmem_blind : pmem.Blind Pmem.installed := by
  apply pmem.blind_of Unstarted
  · intro statics event next lines fails taken
    cases event with
    | start filename opens interval attr =>
        cases taken
        rfl
    | stop | access _ _ => exact fails.elim
  · intro statics event next lines before fine taken
    cases event with
    | start filename opens interval attr =>
        cases taken
        have opened := Option.isSome_iff_ne_none.mpr fine
        exact ⟨fun _ => Or.inl opened, fun _ => opened⟩
    | stop =>
        have off : next.mode = .off := by
          simp only [pmem, Pmem.step, Pmem.hypercallPmemFini] at taken
          split at taken <;> cases taken <;> rfl
        have still : next.mode ≠ .on := by
          rw [off]
          decide
        exact ⟨fun on => absurd on still, fun on => absurd on still⟩
    | access cpuId access =>
        obtain ⟨interval, file, mode⟩ :=
          Divisors.pmem_cb_kept cpuId access statics next lines taken
        have after : next.mode = .on → next.pmemFile.isSome = true := by
          intro on
          rw [mode] at on
          rw [file]
          rcases before on with opened | zero
          · exact opened
          · -- Without an interval the callback divides by zero.
            simp [pmem, Pmem.step, Pmem.hypercallPmemCb, on, zero] at taken
        exact ⟨fun on => Or.inl (after on), after⟩
  · exact fun _ => Or.inr rfl

/-! trace -/

section Trace
open Callbacks Blocks Control
variable {n : Nat}

def traceFails (trace : Trace n) : System.Event n → Prop
  | .control (.command _ answers (.start dir)) => trace.recording = false ∧
      (dir.isSome = true ∨ answers.tempDir.isSome = true) ∧
      ∃ vcpu, answers.isOpen vcpu = false
  | _ => False

abbrev Opened (n : Nat) := Fin n → Bool

def noteOpened (trace : Trace n) (event : System.Event n) (_ : List (Action n))
    (opened : Opened n) : Opened n :=
  match event with
  | .control (.command _ answers (.start _)) =>
      if trace.recording then opened else answers.isOpen
  | _ => opened

def trace (n : Nat) : Recorder (Trace n × Opened n) (System.Event n) (Action n) Fault where
  step := watch System.step noteOpened
  Recording := fun watched => watched.1.recording = true
  Open := fun watched => ∀ vcpu, (watched.1.output vcpu).isSome = true ∧ watched.2 vcpu = true
  Fails := fun watched event => traceFails watched.1 event

theorem note_opened_kept (trace : Trace n) (event : System.Event n) (actions : List (Action n))
    (opened : Opened n) (going : event.begins trace = false) :
    noteOpened trace event actions opened = opened := by
  unfold noteOpened
  split
  · exact if_pos (by simpa [System.Event.begins, Control.Event.begins] using going)
  · rfl

theorem step_closed (entry next : Timeline.Entry) (event : Timeline.Event) (calls : List Call)
    (other : event.isStart = false) (closed : entry.vcpu.data.output = none)
    (taken : Timeline.step entry event = .ok (next, calls)) : next.vcpu.data.output = none := by
  cases event with
  | invoke invocation =>
      obtain ⟨done, -⟩ := Timeline.step_invoke entry next invocation calls taken
      rw [System.effect_output entry.globals entry.vcpu.data invocation _ done]
      exact closed
  | between happened =>
      cases happened with
      | start threadid writer => contradiction
      | closed =>
          cases taken
          rfl
      | idle =>
          cases taken
          dsimp only [Timeline.between, Timeline.Entry.update, Timeline.Entry.setData, vcpuIdleCb]
          split <;> exact closed
      | resume =>
          cases taken
          dsimp only [Timeline.between, Timeline.Entry.update, Timeline.Entry.setData, vcpuResumeCb]
          split <;> exact closed
      | mode _ | roi _ | magic _ | reset | notice _ | interrupt | interruptRet =>
          cases taken
          exact closed

theorem recording_before (before after : Trace n) (event : System.Event n)
    (actions : List (Action n)) (vcpu : Fin n) (owned : Writers.Owned before)
    (going : event.begins before = false) (on : after.recording = true)
    (taken : System.step before event = .ok (after, actions)) : before.recording = true := by
  by_contra off
  have closed := owned.closed (Bool.eq_false_of_not_eq_true off) vcpu
  obtain ⟨events, others, ran⟩ := System.step_continues vcpu before after event actions going taken
  have still := along_invariant Timeline.step (fun _ event => event.isStart = false)
    (fun entry => entry.vcpu.data.output = none)
    (fun entry event next calls none_ other stepped =>
      step_closed entry next event calls other none_ stepped)
    _ _ events _ (along_all _ _ _ _ others) closed ran
  have open_ := (System.step_owned before after event actions owned taken).open_ on vcpu
  rw [Trace.output] at open_
  rw [System.view] at still
  rw [still] at open_
  contradiction

theorem start_records (dir : Option String) (answers : Answers n) (before after : Trace n)
    (actions : List (Action n)) (idle : before.recording = false)
    (taken : recorderStart dir answers before = .ok (after, actions)) :
    (dir.isSome = true ∨ answers.tempDir.isSome = true) ∧ after.recording = true := by
  unfold recorderStart at taken
  rw [idle, if_neg Bool.false_ne_true] at taken
  split at taken
  · cases taken
    exact ⟨Or.inl rfl, rfl⟩
  · rename_i temp present
    cases taken
    exact ⟨Or.inr (by rw [present]; rfl), rfl⟩
  · contradiction

theorem trace_blind (n : Nat) : (trace n).Blind (install n, fun _ => true) := by
  apply (trace n).blind_of (fun watched => Writers.Owned watched.1 ∧
    (watched.1.recording = true → ∀ vcpu, watched.2 vcpu = true))
  · rintro ⟨before, opened⟩ event ⟨after, noted⟩ actions fails taken
    obtain ⟨stepped, -⟩ := (watch_iff _ _ _ _ _ _).mp taken
    unfold trace traceFails at fails
    dsimp only at fails
    split at fails
    · exact (start_records _ _ before after actions fails.1 stepped).2
    · exact fails.elim
  · rintro ⟨before, opened⟩ event ⟨after, noted⟩ actions ⟨owned, open_⟩ fine taken
    obtain ⟨stepped, rfl⟩ := (watch_iff _ _ _ _ _ _).mp taken
    have next := System.step_owned before after event actions owned stepped
    have noted : after.recording = true →
        ∀ vcpu, noteOpened before event actions opened vcpu = true := by
      intro on vcpu
      cases going : event.begins before with
      | false =>
          rw [note_opened_kept before event actions opened going]
          exact open_ (recording_before before after event actions vcpu owned going on stepped) vcpu
      | true =>
          unfold System.Event.begins Control.Event.begins at going
          split at going
          · split at going
            · rename_i answers dir
              have idle : before.recording = false := by simpa using going
              have directory := (start_records _ _ before after actions idle stepped).1
              have all : ∀ vcpu, answers.isOpen vcpu ≠ false := fun vcpu failed =>
                fine ⟨idle, directory, vcpu, failed⟩
              simpa [noteOpened, idle] using all vcpu
            · contradiction
          · contradiction
    exact ⟨⟨next, noted⟩, fun on vcpu => ⟨next.open_ on vcpu, noted on vcpu⟩⟩
  · exact ⟨Writers.install_owned n, fun _ _ => rfl⟩

end Trace

/-- In each of the three plugins a start does what it should exactly when its outputs
open, and a run from the installation on keeps recording and open outputs together
exactly when all its starts do. -/
theorem outputs_open_iff (cores n : Nat) :
    mcount.Blind (Mcount.installed cores) ∧ pmem.Blind Pmem.installed ∧
      (trace n).Blind (Control.install n, fun _ => true) :=
  ⟨mcount_blind cores, pmem_blind, trace_blind n⟩

/-- Paths that cannot be opened: mcount dies of it, pmem is on without a file and trace
records with a writer that is not open. -/
theorem unopened_outputs_unnoticed :
    ¬ mcount.Kept (Mcount.installed 1)
      (.start (some "/ro/counts".toList) false 0x10000000 0x1000000 100) ∧
    ¬ pmem.Kept Pmem.installed (.start (some "/ro/lines".toList) false 10000 0) ∧
    ¬ (trace 1).Kept (Control.install 1, fun _ => true) (.control (.command Control.vcpu₀
      ⟨0, none, fun _ => false⟩ (.start (some "/ro")))) ∧
    (∃ next actions, System.step (Control.install 1) (.control (.command Control.vcpu₀
      ⟨0, none, fun _ => false⟩ (.start (some "/ro")))) = .ok (next, actions) ∧
        next.recording = true) :=
  ⟨fun kept => ((mcount_blind 1).starts _ _).mp kept.failed rfl,
    fun kept => (pmem_blind.starts _ _).mp kept.failed rfl,
    fun kept => ((trace_blind 1).starts _ _).mp kept.failed ⟨rfl, Or.inl rfl, Control.vcpu₀, rfl⟩,
    ⟨_, _, rfl, rfl⟩⟩

end Hypersh.Outputs
