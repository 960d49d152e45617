import Mathlib.Data.List.Basic
import Hypersh.Getopt
import Hypersh.Commands

/-!
The elements of `argv` that `qemu_plugin_control` of the trace plugin hands on, by
their positions. `argv[argc]` is the null pointer.
-/
namespace Hypersh.Arguments
open Getopt Commands

inductive Callee where
  | strcmp
  | strtol
  | recorderMode
  | recorderGmm
  deriving DecidableEq, Repr

structure Passed where
  callee : Callee
  index : Nat
  deriving DecidableEq, Repr

/-- The chain of sub-commands. A word that was compared is compared with the next name
when it was another; `argc` is not touched by the scan. -/
def subcommandPasses (argc : Nat) (argv : List Word) (optind : Nat) : List Passed :=
  let compared := Passed.mk .strcmp optind
  let is (name : String) : Bool := argv[optind]? == some name.toList
  if argc ≤ optind then []
  else if is "start" then [compared]
  else if is "mode" then
    [compared, compared] ++
      if argc ≤ optind + 1 then [] else [⟨.recorderMode, optind + 1⟩]
  else if is "stop" then [compared, compared, compared]
  else if is "reset" then [compared, compared, compared, compared]
  else if is "gmm" then
    [compared, compared, compared, compared, compared] ++
      if argc ≤ optind + 3 then []
      else [⟨.strtol, optind + 2⟩, ⟨.strtol, optind + 3⟩, ⟨.recorderGmm, optind + 1⟩]
  else if is "magic" then
    -- No test of `argc` here.
    [compared, compared, compared, compared, compared, compared, ⟨.strtol, optind + 1⟩]
  else [compared, compared, compared, compared, compared, compared]

def traceControlPasses (argv : List Word) (optind : Nat) : List Passed :=
  let scanned := getopt "d:".toList argv optind
  ⟨.strcmp, 0⟩ ::
    if argv.head? = some "trace".toList then
      subcommandPasses argv.length scanned.argv scanned.optind
    else []

theorem guarded_inside (argc : Nat) (argv : List Word) (optind : Nat)
    (other : argv[optind]? ≠ some "magic".toList) :
    ∀ passed ∈ subcommandPasses argc argv optind, passed.index < argc := by
  have unnamed : (argv[optind]? == some "magic".toList) = false := beq_eq_false_iff_ne.mpr other
  unfold subcommandPasses
  simp only [unnamed, Bool.false_eq_true, if_false]
  split_ifs
  all_goals simp
  all_goals omega

theorem magic_inside_iff (argc : Nat) (argv : List Word) (optind : Nat) (inside : optind < argc)
    (named : argv[optind]? = some "magic".toList) :
    (∀ passed ∈ subcommandPasses argc argv optind, passed.index < argc) ↔ optind + 1 < argc := by
  have others : ∀ name ∈ ["start", "mode", "stop", "reset", "gmm"],
      (some "magic".toList == some name.toList) = false := by decide
  unfold subcommandPasses
  simp [named, Nat.not_le_of_lt inside]
  omega

theorem operands_inside_iff (front operands : List Word) :
    (∀ passed ∈ subcommandPasses (front.length + operands.length) (front ++ operands)
      front.length, passed.index < front.length + operands.length) ↔
      operands ≠ ["magic".toList] := by
  cases operands with
  | nil =>
      have end_ : (front ++ [])[front.length]? ≠ some "magic".toList := by simp
      exact iff_of_true (guarded_inside _ _ _ end_) (List.cons_ne_nil _ _).symm
  | cons word more =>
      have here : (front ++ word :: more)[front.length]? = some word := by simp
      by_cases magic : word = "magic".toList
      · obtain rfl := magic
        rw [magic_inside_iff _ _ _ (by simp) here]
        cases more with
        | nil => simp
        | cons address rest => simp
      · have other := guarded_inside (front.length + (word :: more).length) (front ++ word :: more)
          front.length (by rw [here]; exact fun same => magic (Option.some.inj same))
        exact iff_of_true other fun same => magic (List.cons.inj same).1

/-- In any command line, started or restarted at its first word, every element that is
handed on lies inside `argv` unless `magic` is the only word that is no option. -/
theorem arguments_inside_iff (name : Word) (rest : List Word) (optind : Nat) (low : optind ≤ 1) :
    (∀ passed ∈ traceControlPasses (name :: rest) optind, passed.index < (name :: rest).length) ↔
      ¬ (name = "trace".toList ∧ (scan "d:".toList rest).operands = ["magic".toList]) := by
  have first : 0 < (name :: rest).length := Nat.succ_pos _
  unfold traceControlPasses
  rw [getopt_restart _ _ _ _ low, getopt_fresh, List.forall_mem_cons, List.head?_cons]
  by_cases trace : name = "trace".toList
  · obtain rfl := trace
    have length := (scan_perm "d:".toList rest).length_eq
    rw [List.length_append] at length
    have whole : ("trace".toList :: rest).length =
        ("trace".toList :: (scan "d:".toList rest).options).length +
          (scan "d:".toList rest).operands.length := by
      simp only [List.length_cons]
      omega
    have inside := operands_inside_iff ("trace".toList :: (scan "d:".toList rest).options)
      (scan "d:".toList rest).operands
    rw [← whole] at inside
    have reached : 1 + (scan "d:".toList rest).options.length =
        ("trace".toList :: (scan "d:".toList rest).options).length := Nat.add_comm _ _
    dsimp only
    rw [if_pos rfl, reached, inside]
    simp
  · have other : some name ≠ some "trace".toList := fun same => trace (Option.some.inj same)
    rw [if_neg other]
    have none_ : ∀ passed ∈ ([] : List Passed), passed.index < (name :: rest).length :=
      fun _ absent => absurd absent List.not_mem_nil
    exact iff_of_true ⟨first, none_⟩ fun asked => trace asked.1

theorem scattered_options_inside :
    0 ≤ 1 ∧ ∀ passed ∈ traceControlPasses ["trace".toList, "gmm".toList, "-x".toList,
      "create".toList, "0x10".toList, "-d".toList] 0, passed.index < 6 :=
  ⟨Nat.zero_le 1,
    (arguments_inside_iff "trace".toList ["gmm".toList, "-x".toList, "create".toList,
      "0x10".toList, "-d".toList] 0 (Nat.zero_le 1)).mpr fun asked => absurd asked.2 (by decide)⟩

/-- Without an address, `strtol` is handed the null pointer behind the last word. -/
theorem magic_reads_null :
    ⟨.strtol, 2⟩ ∈ traceControlPasses ["trace".toList, "magic".toList] 0 ∧
      ¬ ∀ passed ∈ traceControlPasses ["trace".toList, "magic".toList] 0, passed.index < 2 := by
  have handed : ⟨.strtol, 2⟩ ∈ traceControlPasses ["trace".toList, "magic".toList] 0 := by decide
  exact ⟨handed, fun inside => absurd (inside _ handed) (Nat.lt_irrefl 2)⟩

/-! The control function dies there. -/

theorem missing_magic_operands (dir : Option Word) (operands : List Word) :
    traceSubcommand dir operands = .traceMissingMagic ↔ operands = ["magic".toList] := by
  constructor
  · intro missing
    cases operands with
    | nil => cases missing
    | cons word more =>
        unfold traceSubcommand at missing
        dsimp only at missing
        split_ifs at missing with start mode stop reset gmm magic
        · cases more with
          | nil => cases missing
          | cons argument rest => cases missing
        · split at missing
          · cases missing
          · cases missing
        · cases more with
          | nil => rw [magic]
          | cons address rest => cases missing
  · rintro rfl
    rfl

theorem missing_magic_iff (name : Word) (rest : List Word) (optind : Nat) (low : optind ≤ 1) :
    (traceControl (name :: rest) optind).1.executed = .traceMissingMagic ↔
      name = "trace".toList ∧ (scan "d:".toList rest).operands = ["magic".toList] := by
  unfold traceControl
  rw [getopt_restart _ _ _ _ low, List.head?_cons]
  by_cases trace : name = "trace".toList
  · have behind : (getopt "d:".toList (name :: rest) 0).argv.drop
        (getopt "d:".toList (name :: rest) 0).optind = (scan "d:".toList rest).operands := by
      rw [getopt_fresh]
      exact List.drop_left' (Nat.add_comm _ 1)
    rw [if_neg (not_not.mpr (congrArg some trace))]
    dsimp only
    rw [behind, missing_magic_operands]
    exact (and_iff_right trace).symm
  · have other : some name ≠ some "trace".toList := fun same => trace (Option.some.inj same)
    rw [if_pos other]
    exact iff_of_false (fun same => by cases same) fun asked => trace asked.1

end Hypersh.Arguments
