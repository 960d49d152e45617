import Mathlib.Data.List.Basic
import Hypersh.Transduction
import Hypersh.Getopt
import Hypersh.Mcount

/-!
The pmem plugin of host/pmem.cc: every `pmem_int`-th memory access is written to a
file when its attributes are in a mask. A callback is one step, in the order in
which the callbacks take `count_lock`; what it writes after it has released the
lock depends on nothing that another callback changes.
-/
namespace Hypersh.Pmem
open Getopt Transduction
open Mcount (Report openReport)

inductive PmemMode where
  | on
  | off
  deriving DecidableEq, Repr

structure Statics where
  pmemInt : UInt32
  pmemAttr : UInt8
  pmemFile : Option Report
  pmemCount : UInt32
  mode : PmemMode
  deriving DecidableEq, Repr

/-- Ways the process dies: a remainder by zero, and `fprintf` on a file that could
not be opened. -/
inductive Fault where
  | divisionByZero
  | nullFile
  deriving DecidableEq, Repr

inductive Output where
  | line (cpuId : Nat) (isKernel isStore : Bool) (vaddr paddr : UInt64)
  | close
  deriving DecidableEq, Repr

structure Access where
  vaddr : UInt64
  paddr : UInt64
  isStore : Bool
  isKernel : Bool
  deriving DecidableEq, Repr

abbrev Outcome := Except Fault (Statics × List Output)

/-! `HS_PMEM_READ` and its companions. -/

def hsPmemRead : UInt8 := 1

def hsPmemWrite : UInt8 := 2

def hsPmemKernel : UInt8 := 4

def hsPmemUser : UInt8 := 8

def Access.attr (access : Access) : UInt8 :=
  (if access.isStore then hsPmemWrite else hsPmemRead) |||
    if access.isKernel then hsPmemKernel else hsPmemUser

/-- The file is opened, or not, and the mode is on in either case. -/
def hypercallPmemInit (filename : Option Word) (opens : Bool) (hcPmemInt : UInt32)
    (hcPmemAttr : UInt8) : Statics where
  pmemFile := openReport filename opens
  pmemInt := hcPmemInt
  pmemAttr := if hcPmemAttr = 0 then 0xF else hcPmemAttr
  pmemCount := 0
  mode := .on

def closeFile : Report → List Output
  | .stdout => []
  | .file _ => [.close]

def hypercallPmemFini (statics : Statics) : Statics × List Output :=
  match statics.pmemFile with
  | none => ({ statics with mode := .off }, [])
  | some file => ({ statics with pmemFile := none, mode := .off }, closeFile file)

def hypercallPmemCb (cpuId : Nat) (access : Access) (statics : Statics) : Outcome :=
  if statics.mode = .off then .ok (statics, [])
  else if statics.pmemInt = 0 then .error .divisionByZero
  else
    let counted := { statics with pmemCount := statics.pmemCount + 1 }
    -- The count before the increment decides.
    if statics.pmemCount % statics.pmemInt = 0 ∧ statics.pmemAttr &&& access.attr = access.attr then
      match statics.pmemFile with
      | none => .error .nullFile
      | some _ => .ok (counted,
          [.line cpuId access.isKernel access.isStore access.vaddr access.paddr])
    else .ok (counted, [])

inductive Event where
  | start (filename : Option Word) (opens : Bool) (interval : UInt32) (attr : UInt8)
  | stop
  | access (cpuId : Nat) (access : Access)
  deriving DecidableEq, Repr

def Event.isStart : Event → Bool
  | .start _ _ _ _ => true
  | _ => false

def step : Step Statics Event Output Fault :=
  fun statics event =>
    match event with
    | .start filename opens interval attr => .ok (hypercallPmemInit filename opens interval attr, [])
    | .stop => .ok (hypercallPmemFini statics)
    | .access cpuId access => hypercallPmemCb cpuId access statics

/-- The statics of a plugin that has just been loaded are zero, and zero is `PMEM_ON`. -/
def installed : Statics where
  pmemInt := 0
  pmemAttr := 0
  pmemFile := none
  pmemCount := 0
  mode := .on

end Hypersh.Pmem
