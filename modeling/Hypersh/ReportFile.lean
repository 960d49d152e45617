import Mathlib.Algebra.Group.Nat.Defs
import Mathlib.Data.Fintype.Basic
import Mathlib.Data.List.Basic
import Hypersh.Transduction
import Hypersh.Monitors
import Hypersh.Locks
import Hypersh.Getopt
import Hypersh.Mcount
import Hypersh.Contention

/-!
The report file of mcount under concurrent callbacks: `flush_mtx` and the second test of
the mode keep it open while it is written to, and its lines in order.
-/
namespace Hypersh.ReportFile
open Getopt Locks Monitors Transduction Contention
open Mcount hiding step Event Fault Outcome
variable {n : Nat}

/-! The report is open whenever it is written to. -/

def Alone (state : State n) : Event n → Prop
  | .stop _ => ∀ other, (state.phase other).stops = false
  | _ => True

instance (state : State n) : ∀ event, Decidable (Alone state event)
  | .stop _ => inferInstanceAs (Decidable (∀ other, (state.phase other).stops = false))
  | .access _ _ | .advance _ => inferInstanceAs (Decidable True)

def Usable (state : State n) : Prop := state.statics.cfg.report ≠ none ∧ state.closed = false

/-- Between `fclose` and the store of the null pointer a stop command is on its way. -/
structure Reporting (state : State n) : Prop where
  locked : Locked state
  single : ∀ vcpu other, (state.phase vcpu).stops = true → (state.phase other).stops = true →
    other = vcpu
  off : ∀ vcpu, (state.phase vcpu).stops = true → state.statics.cfg.mode = .off
  closed : ¬ Usable state →
    state.statics.cfg.mode = .off ∧ ∀ vcpu, (state.phase vcpu).reports = false
  clearing : state.closed = true → state.statics.cfg.report ≠ none →
    ∃ vcpu, state.phase vcpu = .clearing

theorem advanced_report (vcpu : Fin n) (state next : State n) (phase : Phase)
    (lines : List Line) (reporting : Reporting state) (here : state.phase vcpu = phase)
    (advanced : Advanced vcpu state phase next lines) :
    ∃ after, next.phase = (state.move vcpu after).phase ∧
      next.statics.cfg.mode = state.statics.cfg.mode ∧
      (after.stops = true → phase.stops = true) ∧
      (next.statics.cfg.report = state.statics.cfg.report ∧ next.closed = state.closed ∧
          phase ≠ .clearing ∧ (after.reports = true → Usable state) ∨
        phase = .closing ∧ after = .clearing ∨
        phase = .clearing ∧ after = .leaving ∧ next.statics.cfg.report = none) := by
  have tested : phase.reports = true → Usable state := by
    intro uses
    by_contra absent
    have unused := (reporting.closed absent).2 vcpu
    rw [here, uses] at unused
    cases unused
  have unused : ∀ after : Phase, after.reports = false → after.reports = true → Usable state :=
    fun after never uses => by
      rw [never] at uses
      cases uses
  cases advanced with
  | counted access accCnt positive next =>
      refine ⟨_, rfl, rfl, ?_, .inl ⟨rfl, rfl, Phase.noConfusion, ?_⟩⟩
      · split <;> exact id
      · split <;> exact unused _ rfl
  | locked access flushMtx taken =>
      exact ⟨_, rfl, rfl, id, .inl ⟨rfl, rfl, Phase.noConfusion, unused _ rfl⟩⟩
  | dropped access flushMtx off freed =>
      exact ⟨_, rfl, rfl, id, .inl ⟨rfl, rfl, Phase.noConfusion, unused _ rfl⟩⟩
  | passed access on =>
      refine ⟨_, rfl, rfl, id, .inl ⟨rfl, rfl, Phase.noConfusion, fun _ => ?_⟩⟩
      by_contra absent
      exact on (reporting.closed absent).1
  | kernel access rows maps file open_ flushed =>
      exact ⟨_, rfl, rfl, id, .inl ⟨rfl, rfl, Phase.noConfusion, fun _ => ⟨file, open_⟩⟩⟩
  | user access rows maps file open_ flushed =>
      exact ⟨_, rfl, rfl, id, .inl ⟨rfl, rfl, Phase.noConfusion, fun _ => ⟨file, open_⟩⟩⟩
  | unlocked access flushMtx freed =>
      exact ⟨_, rfl, rfl, id, .inl ⟨rfl, rfl, Phase.noConfusion, unused _ rfl⟩⟩
  | io access isIo =>
      exact ⟨_, rfl, rfl, id, .inl ⟨rfl, rfl, Phase.noConfusion, unused _ rfl⟩⟩
  | shared access flushMtx memory taken =>
      exact ⟨_, rfl, rfl, id, .inl ⟨rfl, rfl, Phase.noConfusion, unused _ rfl⟩⟩
  | loaded access count found =>
      exact ⟨_, rfl, rfl, id, .inl ⟨rfl, rfl, Phase.noConfusion, unused _ rfl⟩⟩
  | stored access count =>
      refine ⟨.leaving, rfl, ?_, id, .inl ⟨?_, rfl, Phase.noConfusion, unused _ rfl⟩⟩
      · simp [State.set]
      · simp [State.set]
  | stopped =>
      refine ⟨_, rfl, rfl, fun _ => rfl, .inl ⟨rfl, rfl, Phase.noConfusion, ?_⟩⟩
      cases present : state.statics.cfg.report with
      | none => exact unused _ rfl
      | some file =>
          -- A closed report that is still pointed to would be another stop command's.
          intro _
          refine ⟨fun absent => ?_, Bool.eq_false_iff.mpr fun shut => ?_⟩
          · rw [present] at absent
            cases absent
          · obtain ⟨other, there⟩ := reporting.clearing shut (by simp [present])
            have same := reporting.single vcpu other (by rw [here]; rfl) (by rw [there]; rfl)
            rw [same, here] at there
            cases there
  | joined flushMtx taken =>
      exact ⟨_, rfl, rfl, id, .inl ⟨rfl, rfl, Phase.noConfusion, fun _ => tested rfl⟩⟩
  | tagged file open_ =>
      exact ⟨_, rfl, rfl, id, .inl ⟨rfl, rfl, Phase.noConfusion, fun _ => ⟨file, open_⟩⟩⟩
  | totalled file open_ =>
      exact ⟨_, rfl, rfl, id, .inl ⟨rfl, rfl, Phase.noConfusion, fun _ => ⟨file, open_⟩⟩⟩
  | compared =>
      exact ⟨_, rfl, rfl, fun _ => rfl, .inl ⟨rfl, rfl, Phase.noConfusion, fun _ => tested rfl⟩⟩
  | closed file open_ => exact ⟨.clearing, rfl, rfl, id, .inr (.inl ⟨rfl, rfl⟩)⟩
  | cleared =>
      exact ⟨_, rfl, rfl, fun stops => absurd stops Bool.false_ne_true, .inr (.inr ⟨rfl, rfl, rfl⟩)⟩
  | left flushMtx freed =>
      exact ⟨_, rfl, rfl, id, .inl ⟨rfl, rfl, Phase.noConfusion, unused _ rfl⟩⟩

theorem others_unused (state : State n) (reporting : Reporting state) (vcpu other : Fin n)
    (stopping : (state.phase vcpu).stops = true) (part : (state.phase vcpu).hold = .part)
    (apart : other ≠ vcpu) : (state.phase other).reports = false := by
  have others : (state.phase other).stops ≠ true :=
    fun also => apart (reporting.single vcpu other stopping also)
  have shares : (state.phase other).hold ≠ .whole := by
    intro whole
    have nothing := alone state reporting.locked other vcpu whole (Ne.symm apart)
    rw [part] at nothing
    cases nothing
  cases at_other : state.phase other <;> simp_all [Phase.reports, Phase.stops, Phase.hold]

theorem advanced_reporting (vcpu : Fin n) (state next : State n) (phase : Phase)
    (lines : List Line) (reporting : Reporting state) (here : state.phase vcpu = phase)
    (advanced : Advanced vcpu state phase next lines) : Reporting next := by
  obtain ⟨after, moved, mode, stops, report⟩ :=
    advanced_report vcpu state next phase lines reporting here advanced
  have at_ : ∀ other, next.phase other = if other = vcpu then after else state.phase other := by
    intro other
    rw [moved, move_phase]
  -- Who is stopping after the step was stopping before.
  have was : ∀ other, (next.phase other).stops = true → (state.phase other).stops = true := by
    intro other
    rw [at_]
    by_cases own : other = vcpu
    · rw [if_pos own, own, here]
      exact stops
    · rw [if_neg own]
      exact id
  -- A stop command that closes or clears the report is the last to use it.
  have last : (state.phase vcpu).stops = true → (state.phase vcpu).hold = .part →
      after.reports = false → next.statics.cfg.mode = .off ∧
        ∀ other, (next.phase other).reports = false := by
    intro stopping part unused
    refine ⟨mode.trans (reporting.off vcpu stopping), fun other => ?_⟩
    rw [at_]
    by_cases own : other = vcpu
    · rw [if_pos own]
      exact unused
    · rw [if_neg own]
      exact others_unused state reporting vcpu other stopping part own
  constructor
  · exact advanced_locked vcpu state next phase lines reporting.locked here advanced
  · exact fun first second one two => reporting.single first second (was first one) (was second two)
  · exact fun other stopping => mode.trans (reporting.off other (was other stopping))
  · intro absent
    obtain ⟨kept, same, -, tested⟩ | ⟨rfl, rfl⟩ | ⟨rfl, rfl, -⟩ := report
    · rw [Usable, kept, same] at absent
      obtain ⟨off, unused⟩ := reporting.closed absent
      refine ⟨mode.trans off, fun other => ?_⟩
      rw [at_]
      by_cases own : other = vcpu
      · rw [if_pos own]
        exact Bool.eq_false_iff.mpr fun uses => absent (tested uses)
      · rw [if_neg own]
        exact unused other
    · exact last (by rw [here]; rfl) (by rw [here]; rfl) rfl
    · exact last (by rw [here]; rfl) (by rw [here]; rfl) rfl
  · intro shut present
    obtain ⟨kept, same, apart, -⟩ | ⟨-, rfl⟩ | ⟨-, -, absent⟩ := report
    · rw [same] at shut
      rw [kept] at present
      obtain ⟨other, there⟩ := reporting.clearing shut present
      have own : other ≠ vcpu := fun same => apart (by rw [← here, ← same, there])
      exact ⟨other, by rw [at_, if_neg own, there]⟩
    · exact ⟨vcpu, by rw [at_, if_pos rfl]⟩
    · exact absurd absent present

theorem begun_reporting (state : State n) (statics : Statics) (vcpu : Fin n) (phase : Phase)
    (reporting : Reporting state) (locked : Locked ((state.set statics).move vcpu phase))
    (outside : state.phase vcpu = .outside) (unused : phase.reports = false)
    (report : statics.cfg.report = state.statics.cfg.report)
    (off : state.statics.cfg.mode = .off → statics.cfg.mode = .off)
    (first : phase.stops = true → statics.cfg.mode = .off ∧
      ∀ other, (state.phase other).stops = false) :
    Reporting ((state.set statics).move vcpu phase) := by
  have stopping : ∀ other, ((if other = vcpu then phase else state.phase other).stops = true) →
      other = vcpu ∧ phase.stops = true ∨ (state.phase other).stops = true := by
    intro other stops
    split at stops
    · rename_i own
      exact .inl ⟨own, stops⟩
    · exact .inr stops
  refine ⟨locked, ?_, ?_, ?_, ?_⟩
  · intro one two
    rw [move_phase, move_phase]
    intro stops also
    obtain ⟨rfl, mine⟩ | before := stopping one stops
    · obtain ⟨rfl, -⟩ | other := stopping two also
      · rfl
      · rw [(first mine).2 two] at other
        cases other
    · obtain ⟨rfl, mine⟩ | other := stopping two also
      · rw [(first mine).2 one] at before
        cases before
      · exact reporting.single one two before other
  · intro other
    rw [move_phase]
    intro stops
    obtain ⟨-, mine⟩ | before := stopping other stops
    · exact (first mine).1
    · exact off (reporting.off other before)
  · intro absent
    have gone : ¬ Usable state := fun usable => absent ⟨fun none_ => usable.1 (report ▸ none_),
      usable.2⟩
    refine ⟨off (reporting.closed gone).1, fun other => ?_⟩
    rw [move_phase]
    split
    · exact unused
    · exact (reporting.closed gone).2 other
  · intro shut present
    obtain ⟨other, there⟩ := reporting.clearing shut (by rw [← report]; exact present)
    have own : other ≠ vcpu := fun same => by rw [same, outside] at there; cases there
    refine ⟨other, ?_⟩
    rw [move_phase, if_neg own]
    exact there

theorem step_reporting (state next : State n) (event : Event n) (lines : List Line)
    (reporting : Reporting state) (first : Alone state event)
    (taken : step state event = .ok (next, lines)) : Reporting next := by
  have locked := step_locked state next event lines reporting.locked taken
  rcases step_cases state next event lines taken with
    ⟨vcpu, access, rfl, outside, -, ⟨-, rfl⟩ | ⟨-, rfl⟩⟩ | ⟨vcpu, rfl, outside, -, rfl⟩ |
      ⟨vcpu, rfl, advanced⟩
  · exact reporting
  · exact begun_reporting state state.statics vcpu _ reporting locked outside rfl rfl id
      fun stops => absurd stops Bool.false_ne_true
  · exact begun_reporting state _ vcpu _ reporting locked outside rfl rfl (fun _ => rfl)
      fun _ => ⟨rfl, first⟩
  · exact advanced_reporting vcpu state next _ lines reporting rfl advanced

theorem quiet_reporting (statics : Statics) (file : statics.cfg.report ≠ none) :
    Reporting (quiet n statics) where
  locked := guarded_free _ fun _ => rfl
  single := fun _ _ stops => absurd stops Bool.false_ne_true
  off := fun _ stops => absurd stops Bool.false_ne_true
  closed := fun absent => absurd ⟨file, rfl⟩ absent
  clearing := fun shut => absurd shut Bool.false_ne_true

theorem flush_report (count : Nat) (maps : Maps) : flush count maps ≠ .error .nullReport := by
  induction count generalizing maps with
  | zero => simp [flush]
  | succ count ih =>
      cases maps with
      | nil => simp [flush]
      | cons row rest =>
          have later := ih rest
          unfold flush flushMap
          split
          · rename_i fault first
            split at first
            · cases first
              simp
            · cases first
          · rename_i fault _ tail
            rw [tail] at later
            simpa using later
          · simp

/-- Not dead of a null pointer or a closed `FILE`. -/
def Intact (outcome : Contention.Outcome n) : Prop :=
  outcome ≠ .error (.plugin .nullReport) ∧ outcome ≠ .error .closedReport

theorem holding_intact (vcpu : Fin n) (flushMtx : Option (SharedMutex (Fin n))) (phase : Phase)
    (state : State n) : Intact (holding vcpu flushMtx phase state) := by
  cases flushMtx <;> simp [holding, Intact]

theorem reporting_intact (state : State n) (outcome : Contention.Outcome n)
    (usable : Usable state) (intact : Intact outcome) : Intact (reporting state outcome) := by
  rw [reporting, if_neg usable.1, usable.2]
  exact intact

theorem printing_intact (vcpu : Fin n) (kernel : Bool) (line : List Row → Line) (phase : Phase)
    (state : State n) (usable : Usable state) : Intact (printing vcpu kernel line phase state) := by
  apply reporting_intact state _ usable
  have flushed := flush_report state.statics.ncores (classMaps kernel state.statics)
  split
  · rename_i fault failed
    rw [failed] at flushed
    exact ⟨by simpa using flushed, by simp⟩
  · simp [Intact]

theorem step_intact (state : State n) (event : Event n) (reporting : Reporting state) :
    Intact (step state event) := by
  cases event with
  | access vcpu access =>
      simp only [step]
      split
      · simp [Intact]
      · split <;> simp [Intact]
  | stop vcpu =>
      simp only [step]
      split <;> simp [Intact]
  | advance vcpu =>
      have usable : (state.phase vcpu).reports = true → Usable state := by
        intro uses
        by_contra absent
        rw [(reporting.closed absent).2 vcpu] at uses
        cases uses
      simp only [step]
      cases here : state.phase vcpu with
      | outside => simp [advance, Intact]
      | counting access =>
          simp only [advance]
          split <;> simp [Intact]
      | due access => exact holding_intact _ _ _ _
      | rechecking access =>
          simp only [advance]
          split
          · exact holding_intact _ _ _ _
          · simp [Intact]
      | printing access =>
          rw [here] at usable
          exact printing_intact _ _ _ _ _ (usable rfl)
      | printingUser access =>
          rw [here] at usable
          exact printing_intact _ _ _ _ _ (usable rfl)
      | unlocking access => exact holding_intact _ _ _ _
      | classifying access =>
          simp only [advance]
          split
          · simp [Intact]
          · exact holding_intact _ _ _ _
      | loading access =>
          simp only [advance]
          split
          · simp [Intact]
          · split <;> simp [Intact]
      | storing access count => simp [advance, Intact]
      | stopping => simp [advance, Intact]
      | locking => exact holding_intact _ _ _ _
      | tagging =>
          rw [here] at usable
          exact reporting_intact _ _ (usable rfl) (by simp [Intact])
      | totalling =>
          rw [here] at usable
          exact reporting_intact _ _ (usable rfl) (by simp [Intact])
      | comparing => simp [advance, Intact]
      | closing =>
          rw [here] at usable
          exact reporting_intact _ _ (usable rfl) (by simp [Intact])
      | clearing => simp [advance, Intact]
      | leaving => exact holding_intact _ _ _ _

/-! What is in the file. -/

inductive Progress where
  | between
  | halfway
  | tagged
  | totalled
  | closed
  deriving DecidableEq, Repr

/-- Reports of both classes one after the other, then the tags, the totals and at most
one close. -/
def wellFormed : Monitor Progress Line where
  next
    | _, .kernel _ => .halfway
    | _, .user _ => .between
    | _, .tags _ => .tagged
    | _, .totals _ _ => .totalled
    | _, .close => .closed
  allows
    | .between, .kernel _ => true
    | .halfway, .user _ => true
    | .between, .tags _ => true
    | .tagged, .totals _ _ => true
    | .totalled, .close => true
    | _, _ => false

def stage : Phase → Option Progress
  | .printingUser _ => some .halfway
  | .totalling => some .tagged
  | .comparing | .closing | .clearing => some .totalled
  | _ => none

/-- Where the vcpus are when the file is as far as that. -/
structure Reached (state : State n) (progress : Progress) : Prop where
  closed : state.closed = true ↔ progress = .closed
  middle : ∀ vcpu here, stage (state.phase vcpu) = some here →
    progress = here ∨ progress = .closed
  somebody : Usable state → progress ≠ .between → ∃ vcpu, stage (state.phase vcpu) = some progress
  finished : state.statics.cfg.report = none → progress = .totalled ∨ progress = .closed

theorem stage_holds (phase : Phase) (progress : Progress) (there : stage phase = some progress) :
    phase.hold = .whole ∨ phase.hold = .part ∧ phase.stops = true := by
  cases phase with
  | printingUser access => exact .inl rfl
  | totalling => exact .inr ⟨rfl, rfl⟩
  | comparing => exact .inr ⟨rfl, rfl⟩
  | closing => exact .inr ⟨rfl, rfl⟩
  | clearing => exact .inr ⟨rfl, rfl⟩
  | _ => cases there

/-- Where a vcpu has the lock alone, or stops with a share of it, no other is in the middle
of what it writes. -/
theorem stage_elsewhere (state : State n) (reporting : Reporting state) (vcpu : Fin n)
    (holds : (state.phase vcpu).hold = .whole ∨
      (state.phase vcpu).stops = true ∧ (state.phase vcpu).hold = .part)
    (other : Fin n) (own : other ≠ vcpu) : stage (state.phase other) = none := by
  cases there : stage (state.phase other) with
  | none => rfl
  | some held =>
      obtain whole | ⟨stops, part⟩ := holds
      · have nothing := alone state reporting.locked vcpu other whole own
        obtain holds | ⟨holds, -⟩ := stage_holds _ _ there <;> rw [nothing] at holds <;>
          cases holds
      · obtain whole | ⟨-, also⟩ := stage_holds _ _ there
        · have nothing := alone state reporting.locked other vcpu whole (Ne.symm own)
          rw [part] at nothing
          cases nothing
        · exact absurd (reporting.single vcpu other stops also) own

theorem reached_stage (state : State n) (progress here : Progress)
    (reached : Reached state progress) (open_ : state.closed = false) (vcpu : Fin n)
    (middle : stage (state.phase vcpu) = some here) : progress = here := by
  obtain same | shut := reached.middle vcpu here middle
  · exact same
  · rw [reached.closed.mpr shut] at open_
    cases open_

theorem reached_between (state : State n) (progress : Progress) (reached : Reached state progress)
    (usable : Usable state) (nobody : ∀ vcpu, stage (state.phase vcpu) = none) :
    progress = .between := by
  by_contra later
  obtain ⟨vcpu, here⟩ := reached.somebody usable later
  rw [nobody vcpu] at here
  cases here

theorem reached_kept (state next : State n) (vcpu : Fin n) (after : Phase) (progress : Progress)
    (moved : next.phase = (state.move vcpu after).phase)
    (report : next.statics.cfg.report = state.statics.cfg.report)
    (closed : next.closed = state.closed)
    (same : stage after = stage (state.phase vcpu))
    (reached : Reached state progress) : Reached next progress := by
  have staged : ∀ other, stage (next.phase other) = stage (state.phase other) := by
    intro other
    rw [moved, move_phase]
    by_cases own : other = vcpu
    · rw [if_pos own, own, same]
    · rw [if_neg own]
  refine ⟨?_, ?_, ?_, ?_⟩
  · rw [closed]
    exact reached.closed
  · intro other here
    rw [staged]
    exact reached.middle other here
  · rw [Usable, report, closed]
    simp only [staged]
    exact reached.somebody
  · rw [report]
    exact reached.finished

/-- A line after which only this vcpu is in the middle of what it writes, if any is. -/
theorem reached_moved (state next : State n) (vcpu : Fin n) (after : Phase) (progress : Progress)
    (moved : next.phase = (state.move vcpu after).phase) (usable : Usable next)
    (nobody : ∀ other, other ≠ vcpu → stage (state.phase other) = none)
    (same : stage after = if progress = .between then none else some progress)
    (open_ : progress ≠ .closed) : Reached next progress := by
  have staged : ∀ other, stage (next.phase other) =
      if other = vcpu then stage after else none := by
    intro other
    rw [moved, move_phase]
    by_cases own : other = vcpu
    · rw [if_pos own, if_pos own]
    · rw [if_neg own, if_neg own, nobody other own]
  refine ⟨?_, ?_, ?_, fun absent => absurd absent usable.1⟩
  · rw [usable.2]
    exact iff_of_false Bool.false_ne_true open_
  · intro other here middle
    rw [staged] at middle
    split at middle
    · rw [same] at middle
      split at middle
      · cases middle
      · exact .inl (Option.some.inj middle)
    · cases middle
  · intro _ later
    exact ⟨vcpu, by rw [staged, if_pos rfl, same, if_neg later]⟩

theorem advanced_reached (vcpu : Fin n) (state next : State n) (phase : Phase)
    (lines : List Line) (progress : Progress) (reporting : Reporting state)
    (reached : Reached state progress) (here : state.phase vcpu = phase)
    (advanced : Advanced vcpu state phase next lines) :
    wellFormed.accepts progress lines = true ∧
      Reached next (wellFormed.after progress lines) := by
  have kept : ∀ after : Phase, next.phase = (state.move vcpu after).phase →
      next.statics.cfg.report = state.statics.cfg.report → next.closed = state.closed →
      stage after = stage phase → wellFormed.accepts progress [] = true ∧
        Reached next (wellFormed.after progress []) := by
    intro after moved report closed same
    rw [← here] at same
    exact ⟨rfl, reached_kept state next vcpu after progress moved report closed same reached⟩
  have others := stage_elsewhere state reporting vcpu
  rw [here] at others
  have between : stage phase = none → phase.hold = .whole ∨ phase.stops = true ∧
      phase.hold = .part → Usable state → progress = .between := by
    intro first holds usable
    apply reached_between state progress reached usable
    intro other
    by_cases own : other = vcpu
    · rw [own, here]
      exact first
    · exact others holds other own
  cases advanced with
  | counted access accCnt positive next =>
      exact kept _ rfl rfl rfl (by split <;> rfl)
  | kernel access rows maps file open_ flushed =>
      obtain rfl := between rfl (.inl rfl) ⟨file, open_⟩
      exact ⟨rfl, reached_moved state _ vcpu (.printingUser access) .halfway rfl ⟨file, open_⟩
        (others (.inl rfl)) rfl Progress.noConfusion⟩
  | user access rows maps file open_ flushed =>
      obtain rfl := reached_stage state progress .halfway reached open_ vcpu (by rw [here]; rfl)
      exact ⟨rfl, reached_moved state _ vcpu (.unlocking access) .between rfl ⟨file, open_⟩
        (others (.inl rfl)) rfl Progress.noConfusion⟩
  | stored access count => exact kept .leaving rfl (by simp [State.set]) rfl rfl
  | stopped => exact kept _ rfl rfl rfl (by split <;> rfl)
  | tagged file open_ =>
      obtain rfl := between rfl (.inr ⟨rfl, rfl⟩) ⟨file, open_⟩
      exact ⟨rfl, reached_moved state _ vcpu .totalling .tagged rfl ⟨file, open_⟩
        (others (.inr ⟨rfl, rfl⟩)) rfl Progress.noConfusion⟩
  | totalled file open_ =>
      obtain rfl := reached_stage state progress .tagged reached open_ vcpu (by rw [here]; rfl)
      exact ⟨rfl, reached_moved state _ vcpu .comparing .totalled rfl ⟨file, open_⟩
        (others (.inr ⟨rfl, rfl⟩)) rfl Progress.noConfusion⟩
  | compared => exact kept _ rfl rfl rfl (by split <;> rfl)
  | closed file open_ =>
      obtain rfl := reached_stage state progress .totalled reached open_ vcpu (by rw [here]; rfl)
      exact ⟨rfl, iff_of_true rfl rfl, fun _ _ _ => .inr rfl,
        fun usable => absurd usable.2 Bool.noConfusion, fun _ => .inr rfl⟩
  | cleared =>
      refine ⟨rfl, reached.closed, fun other there middle => ?_, fun usable => absurd rfl usable.1,
        fun _ => reached.middle vcpu .totalled (by rw [here]; rfl)⟩
      rw [move_phase] at middle
      split at middle
      · cases middle
      · exact reached.middle other there middle
  | _ => exact kept _ rfl rfl rfl rfl

theorem step_reached (state next : State n) (event : Event n) (lines : List Line)
    (progress : Progress) (reporting : Reporting state) (reached : Reached state progress)
    (taken : step state event = .ok (next, lines)) :
    wellFormed.accepts progress lines = true ∧
      Reached next (wellFormed.after progress lines) := by
  rcases step_cases state next event lines taken with
    ⟨vcpu, access, rfl, outside, rfl, ⟨-, rfl⟩ | ⟨-, rfl⟩⟩ | ⟨vcpu, rfl, outside, rfl, rfl⟩ |
      ⟨vcpu, rfl, advanced⟩
  · exact ⟨rfl, reached⟩
  · exact ⟨rfl, reached_kept state _ vcpu (.counting access) progress rfl rfl rfl
      (by rw [outside]; rfl) reached⟩
  · exact ⟨rfl, reached_kept state _ vcpu .stopping progress rfl rfl rfl
      (by rw [outside]; rfl) reached⟩
  · exact advanced_reached vcpu state next _ lines progress reporting reached rfl advanced

theorem lines_accepted (state final : State n) (events : List (Event n)) (lines : List Line)
    (alone : Along step Alone state events) (reporting : Reporting state)
    (reached : Reached state .between) (done : run step state events = .ok (final, lines)) :
    wellFormed.accepts .between lines = true ∧
      (final.statics.cfg.report = none →
        wellFormed.after .between lines ∈ [Progress.totalled, Progress.closed]) := by
  have kept := along_accepts wellFormed step some Alone
    (fun state progress => Reporting state ∧ Reached state progress)
    (fun state event next emitted progress held first taken => by
      rw [List.filterMap_some]
      obtain ⟨accepted, reached⟩ :=
        step_reached state next event emitted progress held.1 held.2 taken
      exact ⟨accepted, step_reporting state next event emitted held.1 first taken, reached⟩)
    state final .between events lines alone ⟨reporting, reached⟩ done
  rw [List.filterMap_some] at kept
  obtain ⟨accepted, held, reached⟩ := kept
  refine ⟨accepted, fun absent => ?_⟩
  obtain totalled | closed := reached.finished absent
  · simp [totalled]
  · simp [closed]

theorem quiet_reached (statics : Statics) (file : statics.cfg.report ≠ none) :
    Reached (quiet n statics) .between where
  closed := iff_of_false Bool.false_ne_true Progress.noConfusion
  middle := fun _ _ middle => by cases middle
  somebody := fun _ later => absurd rfl later
  finished := fun absent => absurd absent file

/-- However the callbacks of the vcpus interleave after a start, as long as stop commands
come one at a time nothing is written to a report that is missing or closed, and what is
written is well formed, up to the totals once the report is closed. -/
theorem reports_well_formed (statics begun : Statics) (report : Option Word) (opens : Bool)
    (totalMem : UInt64) (memBin accBin : UInt32) (heading : List Output)
    (started : Mcount.step statics (.start report opens totalMem memBin accBin) =
      .ok (begun, heading))
    (events : List (Event n)) (alone : Along step Alone (quiet n begun) events) :
    run step (quiet n begun) events ≠ .error (.plugin .nullReport) ∧
    run step (quiet n begun) events ≠ .error .closedReport ∧
    ∀ final lines, run step (quiet n begun) events = .ok (final, lines) →
      wellFormed.accepts .between lines = true ∧
      (final.statics.cfg.report = none →
        wellFormed.after .between lines ∈ [Progress.totalled, Progress.closed]) := by
  have file : begun.cfg.report ≠ none := by
    obtain ⟨file, -, rfl, -⟩ :=
      init_cases report opens totalMem memBin accBin statics begun heading started
    exact Option.some_ne_none file
  have reporting := quiet_reporting (n := n) begun file
  have kept : ∀ (state : State n) event next emitted, Reporting state → Alone state event →
      step state event = .ok (next, emitted) → Reporting next :=
    fun state event next emitted held first taken =>
      step_reporting state next event emitted held first taken
  refine ⟨along_avoids step _ Alone Reporting kept ?_ _ events alone reporting,
    along_avoids step _ Alone Reporting kept ?_ _ events alone reporting, ?_⟩
  · exact fun state event reporting _ => (step_intact state event reporting).1
  · exact fun state event reporting _ => (step_intact state event reporting).2
  · intro final lines done
    exact lines_accepted (quiet n begun) final events lines alone reporting
      (quiet_reached begun file) done

theorem stopped_within_well_formed : ∃ final lines,
    run step (quiet 2 everyAccess) stoppedWithin = .ok (final, lines) ∧
      lines = [.kernel [[], []], .user [[], []], .tags [], .totals 1 0] ∧
      wellFormed.accepts .between lines = true := by
  have whole := reports_well_formed (n := 2) (installed 2) everyAccess none true 0x2000000
    0x1000000 1 _ rfl stoppedWithin (by decide)
  exact ⟨_, _, rfl, rfl, (whole.2.2 _ _ rfl).1⟩

-- Two stop commands at once share the lock, and the second finds the report gone.
example : run step (quiet 2 everyAccess) ([.stop firstVcpu, .stop secondVcpu] ++
    List.replicate 2 (.advance firstVcpu) ++ List.replicate 2 (.advance secondVcpu) ++
    List.replicate 4 (.advance firstVcpu) ++ [.advance secondVcpu]) =
      .error (.plugin .nullReport) := rfl

end Hypersh.ReportFile
