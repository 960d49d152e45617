import Mathlib.Data.List.Basic
import Hypersh.Transduction
import Hypersh.Callbacks
import Hypersh.Blocks
import Hypersh.Control
import Hypersh.Getopt
import Hypersh.Numerals

/-!
The `qemu_plugin_control` functions of the four plugins as readers of their
arguments: which sub-command is executed with which option values, what is
printed, what is returned, and the `optind` that is left for the next command.
All four share that one variable.
-/
namespace Hypersh.Commands
open Getopt Numerals Callbacks Control Transduction

inductive Plugin where
  | mcount
  | pmem
  | slomo
  | trace
  deriving DecidableEq, Repr

structure McountOptions where
  memBin : UInt32
  accBin : UInt32
  filename : Option Word
  tag : Option Word
  deriving DecidableEq, Repr

structure PmemOptions where
  interval : UInt32
  attr : UInt32
  filename : Option Word
  deriving DecidableEq, Repr

/-- The branch a control function took, with the values it hands on. -/
inductive Executed where
  | misdirected
  | mcountStart (options : McountOptions)
  | mcountTag (tag : Word)
  | mcountTagMissing
  | mcountStop
  | mcountUnknown
  | pmemStart (options : PmemOptions)
  | pmemStop
  | pmemUnknown
  | slomoStart (rate : UInt64)
  | slomoStop
  | slomoUnknown
  | trace (command : Command)
  | traceMissingMode
  | traceMissingGmm
  | traceMissingMagic
  | traceUnknown
  deriving DecidableEq, Repr

structure Report where
  executed : Executed
  status : Int
  stdout : List Word
  stderr : List Word
  deriving DecidableEq, Repr

def number (text : Word) : UInt64 := longBits (strtol text)

def echo (title : String) (argv : List Word) : List Word :=
  title.toList :: argv.map (· ++ ['\n'])

def misdirectedText (argv : List Word) : Word :=
  "Misdirected control for ".toList ++ (argv.head?.getD "(null)".toList)

def McountOptions.read (options : McountOptions) : Found → McountOptions
  | .value 'm' optarg => { options with memBin := (number optarg <<< 20).toUInt32 }
  | .value 'a' optarg => { options with accBin := (number optarg).toUInt32 }
  | .value 'f' optarg => { options with filename := some optarg }
  -- Never reached: the option string has no `t`.
  | .value 't' optarg => { options with tag := some optarg }
  | _ => options

def mcountDefaults : McountOptions := ⟨(16 : UInt32) <<< 20, 100, none, none⟩

def mcountOptstring : List Char := "f:a:m:".toList

/-- The sub-command at `optind`, `none` when there is no further word. A success
returns without touching `optind`; `hypercall_mcount_init` returns true whenever it
returns. -/
def mcountSubcommand (options : McountOptions) (stdout : List Word) (optind : Nat) :
    Option Word → Report × Nat
  | none => (⟨.mcountStart options, 0, stdout, []⟩, optind)
  | some word =>
      if word = "start".toList then (⟨.mcountStart options, 0, stdout, []⟩, optind)
      else if word = "tag".toList then
        match options.tag with
        | none => (⟨.mcountTagMissing, -1, stdout, ["mcount tag missing argument.\n".toList]⟩, 0)
        | some tag => (⟨.mcountTag tag, 0, stdout, []⟩, optind)
      else if word = "stop".toList then (⟨.mcountStop, 0, stdout, []⟩, optind)
      else (⟨.mcountUnknown, -1, stdout, []⟩, 0)

def mcountControl (argv : List Word) (optind : Nat) : Report × Nat :=
  let stdout := echo "mcount control\n" argv
  if argv.head? ≠ some "mcount".toList then
    (⟨.misdirected, -1, stdout, [misdirectedText argv ++ ['\n']]⟩, optind)
  else
    let scanned := getopt mcountOptstring argv optind
    mcountSubcommand (scanned.found.foldl McountOptions.read mcountDefaults) stdout
      scanned.optind scanned.argv[scanned.optind]?

def PmemOptions.read (options : PmemOptions) : Found → PmemOptions
  | .flag 'k' => { options with attr := options.attr ||| 4 }
  | .flag 'u' => { options with attr := options.attr ||| 8 }
  | .flag 'r' => { options with attr := options.attr ||| 1 }
  | .flag 'w' => { options with attr := options.attr ||| 2 }
  | .value 'f' optarg => { options with filename := some optarg }
  | .value 'i' optarg => { options with interval := (number optarg).toUInt32 }
  | _ => options

def pmemDefaults : PmemOptions := ⟨10000, 0, none⟩

def pmemModeText (options : PmemOptions) : Word :=
  "pmem_mode: ".toList ++ Nat.toDigits 16 options.attr.toNat ++ ['\n']

/-- Options are read after the sub-command, from the arguments that follow `pmem`. -/
def pmemControl (argv : List Word) (optind : Nat) : Report × Nat :=
  let stdout := echo "pmem control\n" argv
  if argv.head? ≠ some "pmem".toList then
    (⟨.misdirected, -1, stdout, [misdirectedText argv ++ ['\n']]⟩, optind)
  else if argv.tail.head? = none ∨ argv.tail.head? = some "start".toList then
    let scanned := getopt "f:i:kurw".toList argv.tail optind
    let options := scanned.found.foldl PmemOptions.read pmemDefaults
    -- `optind = 0` is on this branch only; the other two leave it alone.
    (⟨.pmemStart options, 0, stdout, [pmemModeText options]⟩, 0)
  else if argv.tail.head? = some "stop".toList then (⟨.pmemStop, 0, stdout, []⟩, optind)
  else (⟨.pmemUnknown, -1, stdout, []⟩, optind)

def slomoRate (rate : UInt64) : Found → UInt64
  | .value 'r' optarg => number optarg
  | _ => rate

def slomoControl (argv : List Word) (optind : Nat) : Report × Nat :=
  let stdout := echo "slomo control\n" argv
  if argv.head? ≠ some "slomo".toList then
    (⟨.misdirected, -1, stdout, [misdirectedText argv ++ ['\n']]⟩, optind)
  else
    let scanned := getopt "r:".toList argv optind
    let rate := scanned.found.foldl slomoRate 1
    match scanned.argv[scanned.optind]? with
    | none => (⟨.slomoStart rate, 0, stdout, []⟩, 0)
    | some word =>
        if word = "start".toList then (⟨.slomoStart rate, 0, stdout, []⟩, 0)
        else if word = "stop".toList then (⟨.slomoStop, 0, stdout, []⟩, 0)
        else (⟨.slomoUnknown, -1, stdout, []⟩, 0)

def traceDir (dir : Option Word) : Found → Option Word
  | .value 'd' optarg => some optarg
  | _ => dir

/-- The sub-command at `optind` with what follows it. `traceMissingMagic` is the
`strtol` of the null pointer that ends `argv`. -/
def traceSubcommand (dir : Option Word) : List Word → Executed
  | [] => .trace (.start (dir.map String.ofList))
  | word :: rest =>
      if word = "start".toList then .trace (.start (dir.map String.ofList))
      else if word = "mode".toList then
        match rest with
        | [] => .traceMissingMode
        | mode :: _ => .trace (.mode (String.ofList mode))
      else if word = "stop".toList then .trace .stop
      else if word = "reset".toList then .trace .reset
      else if word = "gmm".toList then
        match rest with
        | cmd :: segment :: argument :: _ =>
            .trace (.gmm (String.ofList cmd) (number segment) (number argument))
        | _ => .traceMissingGmm
      else if word = "magic".toList then
        match rest with
        | [] => .traceMissingMagic
        | address :: _ => .trace (.magic (number address))
      else .traceUnknown

def pluginError (text : Word) : Word := "[SIFT_RECORDER] ".toList ++ text ++ ['\n']

def traceStderr : Executed → List Word
  | .traceMissingMode => [pluginError "Missing mode argument.".toList]
  | .traceMissingGmm => [pluginError "Missing gmm argument.".toList]
  | _ => []

def traceControl (argv : List Word) (optind : Nat) : Report × Nat :=
  if argv.head? ≠ some "trace".toList then
    (⟨.misdirected, -1, [], [pluginError (misdirectedText argv)]⟩, optind)
  else
    let scanned := getopt "d:".toList argv optind
    let executed := traceSubcommand (scanned.found.foldl traceDir none)
      (scanned.argv.drop scanned.optind)
    (⟨executed, 0, [], traceStderr executed⟩, 0)

def qemuPluginControl : Plugin → List Word → Nat → Report × Nat
  | .mcount => mcountControl
  | .pmem => pmemControl
  | .slomo => slomoControl
  | .trace => traceControl

/-- One control command of the process whose `getopt` is at `optind`. -/
def step : Step Nat (Plugin × List Word) Report Fault :=
  fun optind command =>
    let handled := qemuPluginControl command.1 command.2 optind
    if handled.1.executed = .traceMissingMagic then .error .nullArgument
    else .ok (handled.2, [handled.1])

def initial : Nat := 1

/-! What is accepted as a start. -/

theorem mcount_start_options (argv : List Word) (optind : Nat) (options : McountOptions)
    (accepted : (mcountControl argv optind).1.executed = .mcountStart options) :
    options = (getopt mcountOptstring argv optind).found.foldl McountOptions.read mcountDefaults := by
  unfold mcountControl at accepted
  dsimp only at accepted
  split at accepted
  · cases accepted
  · unfold mcountSubcommand at accepted
    split at accepted
    · exact (Executed.mcountStart.inj accepted).symm
    · split at accepted
      · exact (Executed.mcountStart.inj accepted).symm
      · split at accepted
        · split at accepted
          · cases accepted
          · cases accepted
        · split at accepted
          · cases accepted
          · cases accepted

end Hypersh.Commands
