import Mathlib.Data.List.Basic
import Hypersh.Transduction
import Hypersh.Blocks
import Hypersh.Control
import Hypersh.Getopt
import Hypersh.Commands

/-!
Command interpretation across the four plugins. They share one `optind`; all but
mcount put it back, and mcount leaves it behind the option words of a command
that succeeds.
-/
namespace Hypersh.Interpretation
open Getopt Commands Transduction

def accepted : Option Word → Bool
  | none => true
  | some word => word == "start".toList || word == "stop".toList

/-- A successful mcount command with option words in front of its sub-command,
`--` counted with them. -/
def LeavesOptind : Plugin × List Word → Prop
  | (.mcount, name :: rest) => name = "mcount".toList ∧
      (scan mcountOptstring rest).options ≠ [] ∧
      accepted (scan mcountOptstring rest).operands.head? = true
  | _ => False

/-- Every command, sent after any of the commands so far, is read as it would be
read by a fresh process. -/
def Afresh (optind : Nat) (commands : List (Plugin × List Word)) : Prop :=
  ∀ early late reached seen, commands = early ++ late →
    run step optind early = .ok (reached, seen) →
    ∀ plugin argv, (qemuPluginControl plugin argv reached).1 = (qemuPluginControl plugin argv 0).1

theorem getopt_found_fresh (optstring : List Char) (argv : List Word) (optind : Nat)
    (low : optind ≤ 1) : (getopt optstring argv optind).found = (getopt optstring argv 0).found := by
  cases argv with
  | nil => rfl
  | cons name rest => rw [getopt_restart optstring name rest optind low]

theorem mcount_fresh (argv : List Word) (optind : Nat) (low : optind ≤ 1) :
    (mcountControl argv optind).1 = (mcountControl argv 0).1 := by
  cases argv with
  | nil => rfl
  | cons name rest =>
      unfold mcountControl
      rw [getopt_restart mcountOptstring name rest optind low]
      split
      · rfl
      · rfl

theorem pmem_fresh (argv : List Word) (optind : Nat) (low : optind ≤ 1) :
    (pmemControl argv optind).1 = (pmemControl argv 0).1 := by
  unfold pmemControl
  dsimp only
  rw [getopt_found_fresh _ argv.tail optind low]
  split_ifs
  · rfl
  · rfl
  · rfl
  · rfl

theorem slomo_fresh (argv : List Word) (optind : Nat) (low : optind ≤ 1) :
    (slomoControl argv optind).1 = (slomoControl argv 0).1 := by
  cases argv with
  | nil => rfl
  | cons name rest =>
      unfold slomoControl
      rw [getopt_restart _ name rest optind low]
      split
      · rfl
      · rfl

theorem trace_fresh (argv : List Word) (optind : Nat) (low : optind ≤ 1) :
    (traceControl argv optind).1 = (traceControl argv 0).1 := by
  cases argv with
  | nil => rfl
  | cons name rest =>
      unfold traceControl
      rw [getopt_restart _ name rest optind low]
      split
      · rfl
      · rfl

theorem control_fresh (plugin : Plugin) (argv : List Word) (optind : Nat) (low : optind ≤ 1) :
    (qemuPluginControl plugin argv optind).1 = (qemuPluginControl plugin argv 0).1 := by
  cases plugin with
  | mcount => exact mcount_fresh argv optind low
  | pmem => exact pmem_fresh argv optind low
  | slomo => exact slomo_fresh argv optind low
  | trace => exact trace_fresh argv optind low

/-! What is left in `optind`. -/

theorem read_tag (found : List Found) (options : McountOptions)
    (absent : ∀ optarg, Found.value 't' optarg ∉ found) :
    (found.foldl McountOptions.read options).tag = options.tag := by
  induction found generalizing options with
  | nil => rfl
  | cons first rest ih =>
      have kept : (options.read first).tag = options.tag := by
        unfold McountOptions.read
        split
        · rfl
        · rfl
        · rfl
        · exact absurd List.mem_cons_self (absent _)
        · rfl
      rw [List.foldl_cons, ih, kept]
      exact fun optarg member => absent optarg (List.mem_cons_of_mem _ member)

/-- `-t` is missing from the option string, so no tag is ever read. -/
theorem mcount_tag_unread (argv : List Word) (optind : Nat) :
    ((getopt mcountOptstring argv optind).found.foldl McountOptions.read mcountDefaults).tag =
      none := by
  apply read_tag
  intro optarg found
  have known := getopt_value mcountOptstring argv optind 't' optarg found
  revert known
  decide

theorem mcount_subcommand_optind (options : McountOptions) (stdout : List Word) (optind : Nat)
    (subcommand : Option Word) (untagged : options.tag = none) :
    (mcountSubcommand options stdout optind subcommand).2 =
      if accepted subcommand then optind else 0 := by
  cases subcommand with
  | none => rfl
  | some word =>
      rw [mcountSubcommand]
      by_cases start : word = "start".toList
      · rw [if_pos start, start]
        rfl
      · by_cases tag : word = "tag".toList
        · rw [if_neg start, if_pos tag, untagged, tag]
          rfl
        · by_cases stop : word = "stop".toList
          · rw [if_neg start, if_neg tag, if_pos stop, stop]
            rfl
          · have refused : accepted (some word) = false := by
              rw [accepted, beq_false_of_ne start, beq_false_of_ne stop]
              rfl
            rw [if_neg start, if_neg tag, if_neg stop, refused]
            rfl

theorem mcount_misdirected (name : Word) (rest : List Word) (optind : Nat)
    (other : name ≠ "mcount".toList) : (mcountControl (name :: rest) optind).2 = optind := by
  have differs : (name :: rest).head? ≠ some "mcount".toList := fun same =>
    other (Option.some.inj same)
  unfold mcountControl
  rw [if_pos differs]

theorem mcount_directed (rest : List Word) (optind : Nat) (low : optind ≤ 1) :
    (mcountControl ("mcount".toList :: rest) optind).2 =
      if accepted (scan mcountOptstring rest).operands.head? then
        1 + (scan mcountOptstring rest).options.length
      else 0 := by
  unfold mcountControl
  rw [if_neg (fun differs => differs rfl), getopt_restart _ _ rest optind low,
    mcount_subcommand_optind _ _ _ _ (mcount_tag_unread _ _), getopt_next, getopt_optind]

theorem mcount_optind (argv : List Word) (optind : Nat) (low : optind ≤ 1) :
    (mcountControl argv optind).2 ≤ 1 ↔ ¬ LeavesOptind (.mcount, argv) := by
  cases argv with
  | nil => exact iff_of_true low fun leaves => leaves
  | cons name rest =>
      by_cases ours : name = "mcount".toList
      · rw [ours, mcount_directed rest optind low]
        cases succeeds : accepted (scan mcountOptstring rest).operands.head?
        · simp [LeavesOptind, succeeds]
        · simp [LeavesOptind, succeeds]
      · rw [mcount_misdirected name rest optind ours]
        exact iff_of_true low fun leaves => ours leaves.1

theorem pmem_optind (argv : List Word) (optind : Nat) (low : optind ≤ 1) :
    (pmemControl argv optind).2 ≤ 1 := by
  unfold pmemControl
  dsimp only
  split_ifs
  · exact low
  · exact Nat.zero_le 1
  · exact low
  · exact low

theorem slomo_optind (argv : List Word) (optind : Nat) (low : optind ≤ 1) :
    (slomoControl argv optind).2 ≤ 1 := by
  unfold slomoControl
  dsimp only
  split
  · exact low
  · split
    · exact Nat.zero_le 1
    · split_ifs
      · exact Nat.zero_le 1
      · exact Nat.zero_le 1
      · exact Nat.zero_le 1

theorem trace_optind (argv : List Word) (optind : Nat) (low : optind ≤ 1) :
    (traceControl argv optind).2 ≤ 1 := by
  unfold traceControl
  split
  · exact low
  · exact Nat.zero_le 1

theorem control_optind (command : Plugin × List Word) (optind : Nat) (low : optind ≤ 1) :
    (qemuPluginControl command.1 command.2 optind).2 ≤ 1 ↔ ¬ LeavesOptind command := by
  rcases command with ⟨plugin, argv⟩
  cases plugin with
  | mcount => exact mcount_optind argv optind low
  | pmem => exact iff_of_true (pmem_optind argv optind low) fun leaves => leaves
  | slomo => exact iff_of_true (slomo_optind argv optind low) fun leaves => leaves
  | trace => exact iff_of_true (trace_optind argv optind low) fun leaves => leaves

/-! Runs. -/

theorem step_taken (command : Plugin × List Word) (optind next : Nat) (seen : List Report)
    (taken : step optind command = .ok (next, seen)) :
    next = (qemuPluginControl command.1 command.2 optind).2 := by
  unfold step at taken
  dsimp only at taken
  split at taken
  · contradiction
  · exact (congrArg Prod.fst (Except.ok.inj taken)).symm

theorem step_low_iff (command : Plugin × List Word) (optind next : Nat) (seen : List Report)
    (low : optind ≤ 1) (taken : step optind command = .ok (next, seen)) :
    next ≤ 1 ↔ ¬ LeavesOptind command := by
  rw [step_taken command optind next seen taken]
  exact control_optind command optind low

def stopWith (further : Nat) : List Word :=
  "mcount".toList :: "stop".toList :: List.replicate further "stop".toList

/-- At the end of its words a stop is taken for a start. -/
theorem stop_misread (further : Nat) :
    (qemuPluginControl .mcount (stopWith further) (further + 2)).1.executed =
      .mcountStart mcountDefaults := by
  have ended : (stopWith further).length = further + 2 := by
    rw [stopWith, List.length_cons, List.length_cons, List.length_replicate]
  have behind := getopt_exhausted mcountOptstring (stopWith further) (further + 2)
    (Nat.le_add_left 1 _) (Nat.le_of_eq ended)
  have past : (stopWith further)[further + 2]? = none :=
    List.getElem?_eq_none (Nat.le_of_eq ended)
  show (mcountControl _ _).1.executed = _
  unfold mcountControl
  rw [if_neg (fun differs => differs rfl), behind]
  dsimp only
  rw [past]
  rfl

theorem stop_fresh (further : Nat) :
    (qemuPluginControl .mcount (stopWith further) 0).1.executed = .mcountStop := by
  have plain : ∀ word ∈ stopWith further, operand word = true := by
    intro word member
    rcases List.mem_cons.mp member with rfl | member
    · rfl
    · rcases List.mem_cons.mp member with rfl | member
      · rfl
      · rw [List.eq_of_mem_replicate member]
        rfl
  have scanned := getopt_operands mcountOptstring (stopWith further) 0 (List.cons_ne_nil _ _) plain
  show (mcountControl _ _).1.executed = _
  unfold mcountControl
  rw [if_neg (fun differs => differs rfl), scanned]
  rfl

theorem mcount_survives (argv : List Word) (optind : Nat) :
    (mcountControl argv optind).1.executed ≠ .traceMissingMagic := by
  have read : ∀ options stdout position subcommand,
      (mcountSubcommand options stdout position subcommand).1.executed ≠ .traceMissingMagic := by
    intro options stdout position subcommand
    cases subcommand with
    | none => exact fun same => nomatch same
    | some word =>
        rw [mcountSubcommand]
        split
        · exact fun same => nomatch same
        · split
          · split
            · exact fun same => nomatch same
            · exact fun same => nomatch same
          · split
            · exact fun same => nomatch same
            · exact fun same => nomatch same
  unfold mcountControl
  split
  · exact fun same => nomatch same
  · exact read _ _ _ _

theorem leaves_taken (command : Plugin × List Word) (optind : Nat)
    (leaves : LeavesOptind command) : ∃ next seen, step optind command = .ok (next, seen) := by
  rcases command with ⟨plugin, argv⟩
  cases plugin with
  | mcount => exact ⟨_, _, if_neg (mcount_survives argv optind)⟩
  | pmem => exact absurd leaves id
  | slomo => exact absurd leaves id
  | trace => exact absurd leaves id

theorem afresh_iff (commands : List (Plugin × List Word)) (optind : Nat) (low : optind ≤ 1) :
    Afresh optind commands ↔
      Along step (fun _ command => ¬ LeavesOptind command) optind commands := by
  induction commands generalizing optind with
  | nil =>
      apply iff_of_true _ trivial
      intro early late reached seen split done
      rcases List.append_eq_nil_iff.mp split.symm with ⟨rfl, rfl⟩
      cases done
      exact fun plugin argv => control_fresh plugin argv optind low
  | cons command rest ih =>
      constructor
      · intro afresh
        have kept : ¬ LeavesOptind command := by
          intro leaves
          rcases leaves_taken command optind leaves with ⟨next, seen, taken⟩
          have moved : ¬ next ≤ 1 := fun fresh =>
            (step_low_iff command optind next seen low taken).mp fresh leaves
          -- A stop that ends where the position was left tells it from a fresh one.
          rcases Nat.exists_eq_add_of_le' (show 2 ≤ next by omega) with ⟨further, rfl⟩
          have same := afresh [command] rest (further + 2) seen rfl
            (by rw [run_singleton]; exact taken) .mcount (stopWith further)
          have misread := stop_misread further
          rw [same, stop_fresh] at misread
          contradiction
        apply And.intro kept
        cases taken : step optind command with
        | error fault => trivial
        | ok result =>
            rcases result with ⟨next, seen⟩
            have fresh := (step_low_iff command optind next seen low taken).mpr kept
            apply (ih next fresh).mp
            intro early late reached later split done
            apply afresh (command :: early) late reached (seen ++ later) (by rw [split]; rfl)
            exact run_cons_ok _ _ _ _ _ _ _ _ taken done
      · intro along early late reached seen split done
        cases early with
        | nil =>
            cases done
            exact fun plugin argv => control_fresh plugin argv optind low
        | cons first early =>
            rcases List.cons_eq_cons.mp split with ⟨rfl, later⟩
            rcases (run_cons_iff _ _ _ _ _ _).mp done with ⟨next, emitted, tail, taken, ran, -⟩
            have fresh := (step_low_iff command optind next emitted low taken).mpr along.1
            have next_along := along_next _ _ _ _ _ _ _ along taken
            exact (ih next fresh).mpr next_along early late reached tail later ran

/-- In a process that starts with its first command, every argument vector is read
the same whatever was handled before, exactly when no mcount command succeeded with
option words. -/
theorem history_independent_iff (commands : List (Plugin × List Word)) :
    Afresh initial commands ↔
      Along step (fun _ command => ¬ LeavesOptind command) initial commands :=
  afresh_iff commands initial (Nat.le_refl 1)

theorem stop_starts_again : ¬ ∀ commands, Afresh initial commands := by
  intro always
  let started : Plugin × List Word :=
    (.mcount, ["mcount".toList, "-a5".toList, "start".toList])
  have done : run step initial [started] =
      .ok (2, [(qemuPluginControl started.1 started.2 initial).1]) := rfl
  have same := always [started] [started] [] 2 _ rfl done .mcount (stopWith 0)
  have misread := stop_misread 0
  rw [same, stop_fresh] at misread
  contradiction

end Hypersh.Interpretation
