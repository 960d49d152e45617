import Mathlib.Data.List.Basic
import Mathlib.Data.List.Nodup
import Hypersh.Transduction
import Hypersh.Getopt
import Hypersh.Commands
import Hypersh.Interpretation
import Hypersh.Mcount
import Hypersh.Divisors

/-!
The mcount plugin with its command lines: what the control function makes of the words
and what the plugin then does, against the tags that were asked for.
-/
namespace Hypersh.Tags
open Getopt Commands Mcount Transduction

structure Process where
  optind : Nat
  statics : Statics
  deriving DecidableEq, Repr

/-- A command comes with what `fopen` and `qemu_plugin_ram_size` answer. Commands of the
other plugins leave any position. -/
inductive Input where
  | command (argv : List Word) (opens : Bool) (totalMem : UInt64)
  | elsewhere (optind : Nat)
  | access (cpuId : Nat) (access : Access)
  deriving DecidableEq, Repr

def performed (opens : Bool) (totalMem : UInt64) : Executed → Option Event
  | .mcountStart options =>
      some (.start options.filename opens totalMem options.memBin options.accBin)
  | .mcountTag tag => some (.tag tag)
  | .mcountStop => some .stop
  | _ => none

def qemuPluginControl (argv : List Word) (opens : Bool) (totalMem : UInt64) (process : Process) :
    Except Fault (Process × List Output) :=
  let handled := mcountControl argv process.optind
  match performed opens totalMem handled.1.executed with
  | none => .ok ({ process with optind := handled.2 }, [])
  | some event => (Mcount.step process.statics event).map fun done =>
      (⟨handled.2, done.1⟩, done.2)

def step : Step Process Input Output Fault :=
  fun process input =>
    match input with
    | .command argv opens totalMem => qemuPluginControl argv opens totalMem process
    | .elsewhere optind => .ok ({ process with optind := optind }, [])
    | .access cpuId access => (Mcount.step process.statics (.access cpuId access)).map fun done =>
        ({ process with statics := done.1 }, done.2)

def installed (cores : Nat) : Process := ⟨Commands.initial, Mcount.installed cores⟩

/-! What was asked for. -/

def tagCommand (name : Word) : List Word := ["mcount".toList, "-t".toList, name, "tag".toList]

def asked (argv : List Word) : Option Word :=
  match argv with
  | [plugin, option, name, subcommand] =>
      if tagCommand name = [plugin, option, name, subcommand] then some name else none
  | _ => none

/-- The names asked for since the last start, with the count at the most recent command;
`none` when nothing has been started or it was stopped. -/
abbrev Asked := Option (Word → Option UInt64)

def note (process : Process) (input : Input) (_ : List Output) (tagged : Asked) : Asked :=
  match input with
  | .command argv _ _ =>
      match asked argv with
      | some name => tagged.map fun counts other =>
          if other = name then some process.statics.accCnt else counts other
      | none =>
          match (mcountControl argv process.optind).1.executed with
          | .mcountStart _ => some fun _ => none
          | .mcountStop => none
          | _ => tagged
  | _ => tagged

def Reported (counts : Word → Option UInt64) (lines : List Output) : Prop :=
  ∃ tags, .tags tags ∈ lines ∧ (tags.map Prod.fst).Nodup ∧
    ∀ name count, (name, count) ∈ tags ↔ counts name = some count

/-! No command line reaches the tag branch. -/

theorem subcommand_untagged (options : McountOptions) (stdout : List Word) (optind : Nat)
    (subcommand : Option Word) (tag : Word) (unread : options.tag = none) :
    (mcountSubcommand options stdout optind subcommand).1.executed ≠ .mcountTag tag := by
  cases subcommand with
  | none =>
      intro same
      cases same
  | some word =>
      unfold mcountSubcommand
      rw [unread]
      dsimp only
      split_ifs
      all_goals
        intro same
        cases same

theorem control_untagged (argv : List Word) (optind : Nat) (tag : Word) :
    (mcountControl argv optind).1.executed ≠ .mcountTag tag := by
  unfold mcountControl
  dsimp only
  split_ifs
  · intro same
    cases same
  · exact subcommand_untagged _ _ _ _ tag (Interpretation.mcount_tag_unread argv optind)

theorem command_cases (argv : List Word) (opens : Bool) (totalMem : UInt64)
    (process next : Process) (lines : List Output)
    (taken : qemuPluginControl argv opens totalMem process = .ok (next, lines)) :
    (∃ options, (mcountControl argv process.optind).1.executed = .mcountStart options ∧
      hypercallMcountInit options.filename opens totalMem options.memBin options.accBin
        process.statics = .ok (next.statics, lines)) ∨
    ((mcountControl argv process.optind).1.executed = .mcountStop ∧
      hypercallMcountFini process.statics = (next.statics, lines)) ∨
    ((∀ options, (mcountControl argv process.optind).1.executed ≠ .mcountStart options) ∧
      (mcountControl argv process.optind).1.executed ≠ .mcountStop ∧
      next.statics = process.statics ∧ lines = []) := by
  have untagged := control_untagged argv process.optind
  unfold qemuPluginControl at taken
  dsimp only at taken
  cases executed : (mcountControl argv process.optind).1.executed with
  | mcountStart options =>
      rw [executed] at taken
      obtain ⟨done, init, same⟩ := map_ok _ _ _ taken
      obtain ⟨rfl, rfl⟩ := Prod.mk.inj same
      exact .inl ⟨options, rfl, init⟩
  | mcountStop =>
      rw [executed] at taken
      obtain ⟨done, fini, same⟩ := map_ok _ _ _ taken
      obtain ⟨rfl, rfl⟩ := Prod.mk.inj same
      exact .inr (.inl ⟨rfl, Except.ok.inj fini⟩)
  | mcountTag tag => exact absurd executed (untagged tag)
  | _ =>
      rw [executed] at taken
      cases taken
      exact .inr (.inr ⟨fun _ => by simp, by simp, rfl, rfl⟩)

/-! Runs. -/

theorem init_opens (report : Option Word) (opens : Bool) (totalMem : UInt64)
    (memBin accBin : UInt32) (statics next : Statics) (lines : List Output)
    (started : hypercallMcountInit report opens totalMem memBin accBin statics =
      .ok (next, lines)) : next.tags = [] ∧ next.cfg.report ≠ none := by
  obtain ⟨file, -, rfl, -⟩ := init_cases report opens totalMem memBin accBin statics next lines
    started
  exact ⟨rfl, Option.some_ne_none file⟩

theorem access_tags (cpuId : Nat) (access : Access) (statics next : Statics) (lines : List Output)
    (done : hypercallMcountCb cpuId access statics = .ok (next, lines)) :
    next.tags = statics.tags := by
  have binned : ∀ before after, countAccess cpuId access before = .ok after →
      after.tags = before.tags := by
    intro before after counted
    rcases count_cases cpuId access before after counted with
      ⟨-, rfl⟩ | ⟨-, -, _, -, rfl⟩ | ⟨-, -, _, -, rfl⟩
    all_goals rfl
  rcases cb_cases cpuId access statics next lines done with
    ⟨-, rfl, -⟩ | ⟨reported, ⟨rfl, -⟩ | report, counted⟩
  · rfl
  · have kept := binned _ next counted
    exact kept
  · have kept := binned reported next counted
    obtain ⟨_, _, _, _, -, -, rfl, -⟩ := report_cases _ reported lines report
    exact kept

theorem fini_tags (statics : Statics) :
    (hypercallMcountFini statics).1.tags = statics.tags ∧
      ∀ tags, .tags tags ∈ (hypercallMcountFini statics).2 ↔
        statics.cfg.report ≠ none ∧ tags = statics.tags := by
  unfold hypercallMcountFini
  cases opened : statics.cfg.report with
  | none => simp
  | some file => cases file <;> simp [closeReport]

/-- No tag is stored, and a report that was opened stays open until it is stopped or a tag
is asked for (the words of that command may be read as a stop). -/
structure Untagged (watched : Process × Asked) : Prop where
  empty : watched.1.statics.tags = []
  opened : ∀ counts, watched.2 = some counts → (∀ name, counts name = none) →
    watched.1.statics.cfg.report ≠ none

theorem command_untagged (argv : List Word) (opens : Bool) (totalMem : UInt64)
    (process next : Process) (tagged : Asked) (lines : List Output)
    (untagged : Untagged (process, tagged))
    (taken : qemuPluginControl argv opens totalMem process = .ok (next, lines)) :
    Untagged (next, note process (.command argv opens totalMem) lines tagged) := by
  have outcome := command_cases argv opens totalMem process next lines taken
  have empty : next.statics.tags = [] := by
    rcases outcome with ⟨options, -, init⟩ | ⟨-, fini⟩ | ⟨-, -, kept, -⟩
    · exact (init_opens _ _ _ _ _ _ _ _ init).1
    · have kept := (fini_tags process.statics).1
      rw [fini] at kept
      exact kept.trans untagged.empty
    · rw [kept]
      exact untagged.empty
  refine ⟨empty, fun counts since none_ => ?_⟩
  cases named : asked argv with
  | some name =>
      -- This name is among those asked for.
      simp only [note, named] at since
      obtain ⟨before, -, rfl⟩ := Option.map_eq_some_iff.mp since
      have absent := none_ name
      simp at absent
  | none =>
      simp only [note, named] at since
      rcases outcome with ⟨options, executed, init⟩ | ⟨executed, -⟩ | ⟨noStart, noStop, kept, -⟩
      · exact (init_opens _ _ _ _ _ _ _ _ init).2
      · rw [executed] at since
        cases since
      · have still : tagged = some counts := by
          split at since
          · rename_i options executed
            exact absurd executed (noStart options)
          · rename_i executed
            exact absurd executed noStop
          · exact since
        rw [kept]
        exact untagged.opened counts still none_

theorem step_untagged (watched next : Process × Asked) (input : Input) (lines : List Output)
    (untagged : Untagged watched)
    (taken : watch step note watched input = .ok (next, lines)) : Untagged next := by
  obtain ⟨process, tagged⟩ := watched
  obtain ⟨reached, later⟩ := next
  obtain ⟨stepped, rfl⟩ := (watch_iff _ _ _ _ _ _).mp taken
  cases input with
  | command argv opens totalMem =>
      exact command_untagged argv opens totalMem process reached tagged lines untagged stepped
  | elsewhere optind =>
      cases stepped
      exact ⟨untagged.empty, untagged.opened⟩
  | access cpuId access =>
      obtain ⟨⟨statics, _⟩, done, same⟩ := map_ok _ _ _ stepped
      obtain ⟨rfl, rfl⟩ := Prod.mk.inj same
      have cfg := Divisors.cb_cfg cpuId access process.statics statics _ done
      have tags := access_tags cpuId access process.statics statics _ done
      refine ⟨tags.trans untagged.empty, fun counts since none_ => ?_⟩
      have opened := untagged.opened counts since none_
      exact fun closed => opened ((congrArg McountConfig.report cfg).symm.trans closed)

/-- In any run with a start behind it, the report of a stop holds exactly the tags asked
for since when there was no such command. -/
theorem tags_reported_iff (cores : Nat) (inputs : List Input) (process final : Process)
    (counts : Word → Option UInt64) (past lines : List Output)
    (done : run (watch step note) (installed cores, none) inputs =
      .ok ((process, some counts), past))
    (stop : List Word) (opens : Bool) (totalMem : UInt64)
    (stops : (mcountControl stop process.optind).1.executed = .mcountStop)
    (stopped : step process (.command stop opens totalMem) = .ok (final, lines)) :
    Reported counts lines ↔ ∀ name, counts name = none := by
  have untagged := run_invariant (watch step note) Untagged
    (fun watched input next emitted => step_untagged watched next input emitted)
    _ _ inputs past ⟨rfl, fun _ never => by cases never⟩ done
  have printed : hypercallMcountFini process.statics = (final.statics, lines) := by
    rcases command_cases stop opens totalMem process final lines stopped with
      ⟨options, start, -⟩ | ⟨-, fini⟩ | ⟨-, other, -⟩
    · rw [stops] at start
      cases start
    · exact fini
    · exact absurd stops other
  have held := (fini_tags process.statics).2
  rw [printed, untagged.empty] at held
  constructor
  · rintro ⟨tags, member, -, exact_⟩ name
    obtain ⟨-, rfl⟩ := (held tags).mp member
    cases count : counts name with
    | none => rfl
    | some value => exact absurd ((exact_ name value).mpr count) List.not_mem_nil
  · intro none_
    have opened := untagged.opened counts rfl none_
    refine ⟨[], (held []).mpr ⟨opened, rfl⟩, List.nodup_nil, fun name count => ?_⟩
    rw [none_ name]
    simp

def startCommand : Input := .command ["mcount".toList, "start".toList] true 0x2000000

def stopWords : List Word := ["mcount".toList, "stop".toList]

def userAccess : Input := .access 0 ⟨0x1000, false, false⟩

theorem untagged_reported :
    ∃ process counts past final lines, run (watch step note) (installed 1, none)
        [startCommand, userAccess] = .ok ((process, some counts), past) ∧
      step process (.command stopWords true 0x2000000) = .ok (final, lines) ∧
      Reported counts lines := by
  obtain ⟨process, counts, past, final, lines, ran, stops, stopped, none_⟩ :
      ∃ process counts past final lines, run (watch step note) (installed 1, none)
          [startCommand, userAccess] = .ok ((process, some counts), past) ∧
        (mcountControl stopWords process.optind).1.executed = .mcountStop ∧
        step process (.command stopWords true 0x2000000) = .ok (final, lines) ∧
        ∀ name, counts name = none :=
    ⟨_, _, _, _, _, rfl, rfl, rfl, fun _ => rfl⟩
  exact ⟨process, counts, past, final, lines, ran, stopped,
    (tags_reported_iff 1 _ process final counts past lines ran stopWords true 0x2000000 stops
      stopped).mpr none_⟩

/-- The tag asked for after one access is not in the report. -/
theorem tag_not_reported :
    ∃ process counts past final lines, run (watch step note) (installed 1, none)
        [startCommand, userAccess, .command (tagCommand "a".toList) true 0x2000000] =
          .ok ((process, some counts), past) ∧
      (mcountControl stopWords process.optind).1.executed = .mcountStop ∧
      step process (.command stopWords true 0x2000000) = .ok (final, lines) ∧
      counts "a".toList = some 1 ∧ lines = [.tags [], .totals 1 0] ∧ ¬ Reported counts lines := by
  obtain ⟨process, counts, past, final, ran, stops, stopped, asked_⟩ :
      ∃ process counts past final, run (watch step note) (installed 1, none)
          [startCommand, userAccess, .command (tagCommand "a".toList) true 0x2000000] =
            .ok ((process, some counts), past) ∧
        (mcountControl stopWords process.optind).1.executed = .mcountStop ∧
        step process (.command stopWords true 0x2000000) =
          .ok (final, [.tags [], .totals 1 0]) ∧
        counts "a".toList = some 1 :=
    ⟨_, _, _, _, rfl, rfl, rfl, rfl⟩
  refine ⟨process, counts, past, final, _, ran, stops, stopped, asked_, rfl, ?_⟩
  rintro ⟨tags, member, -, exact_⟩
  obtain rfl : tags = [] := by simpa using member
  exact absurd ((exact_ "a".toList 1).mpr asked_) List.not_mem_nil

end Hypersh.Tags
