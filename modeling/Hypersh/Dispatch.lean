import Mathlib.Data.List.Basic
import Hypersh.Transduction
import Hypersh.Callbacks
import Hypersh.Blocks
import Hypersh.Timeline
import Hypersh.Control
import Hypersh.Writers
import Hypersh.System
import Hypersh.Getopt
import Hypersh.Numerals
import Hypersh.Commands

/-!
From the guest's command text to the control function of a plugin: the encoders of
guest/hypersh.h and `vcpu_syscall_cb` of host/hypersh.cc. Reading guest memory is
the emulator's, splitting the text into words is glib's.
-/
namespace Hypersh.Dispatch
open Getopt Numerals Callbacks Control Commands Transduction
variable {n : Nat}

def hypercallMagic : Int := 712

/-! The guest. -/

def snprintf (size : Nat) (text : List Char) : List Char := text.take (size - 1)

/-- A `double` is its bit pattern; `user_msg_double` reads it as a pointer. -/
structure Double where
  bits : UInt64
  deriving DecidableEq, Repr

def messageCommand (payload1 payload2 : UInt64) : List Char :=
  snprintf 50 ("trace gmm message ".toList ++ pointer payload1 ++ ' ' :: pointer payload2)

def userMsg (payload1 payload2 : UInt64) : List Char := messageCommand payload1 payload2

def userMsgDouble (payload1 : UInt64) (payload2 : Double) : List Char :=
  messageCommand payload1 payload2.bits

def segCreate (addr size : UInt64) : List Char :=
  snprintf 50 ("trace gmm create ".toList ++ pointer addr ++ ' ' :: hexadecimal size)

def segAssign (addr : UInt64) (policy : Int32) : List Char :=
  snprintf 50 ("trace gmm assign ".toList ++ pointer addr ++ ' ' :: signedDecimal policy.toInt)

def segDelete (addr : UInt64) : List Char :=
  snprintf 50 ("trace gmm delete ".toList ++ pointer addr ++ " 0".toList)

structure Syscall where
  num : Int
  a1 : UInt64
  memory : List Char
  deriving DecidableEq, Repr

def hypershExec (cmd : List Char) (a1 : UInt64) (beyond : List Char) : Syscall :=
  ⟨hypercallMagic, a1, cmd ++ '\x00' :: beyond⟩

/-! The host. -/

def virtMemRw (memory : List Char) (size : Nat) : Option (List Char) :=
  if size ≤ memory.length then some (memory.take size) else none

def cString (buffer : List Char) : List Char := buffer.takeWhile fun letter => letter != '\x00'

def isBlank (letter : Char) : Bool := letter == ' ' || letter == '\t'

def words (text : List Char) : List Word :=
  (text.splitOnP isBlank).filter fun word => !word.isEmpty

/-- Letters without a meaning to the shell's rules of quoting, escaping, comments
and lines. -/
def plainLetter (letter : Char) : Bool :=
  letter != '\x00' && letter != '\x22' && letter != '\x27' && letter != '\x5c' &&
    letter != '#' && letter != '\n'

/-- `g_shell_parse_argv`. Of text with plain letters only it returns the words
between blanks, and fails when there is none. -/
structure ShellParser where
  parse : List Char → Option (List Word)
  plain : ∀ text, (∀ letter ∈ text, plainLetter letter = true) →
    parse text = if words text = [] then none else some (words text)

structure Loaded where
  id : UInt64
  plugin : Plugin
  deriving DecidableEq, Repr

structure Host (n : Nat) where
  optind : Nat
  trace : Trace n

inductive HostAction (n : Nat) where
  | stdout (text : List Char)
  | stderr (text : List Char)
  | controlled (plugin : Plugin) (report : Report)
  | trace (action : Action n)

def sendControl (plugin : Plugin) (vcpu : Fin n) (answers : Answers n) (argv : List Word)
    (host : Host n) : Except Fault ((Host n × List (HostAction n)) × Int) :=
  let handled := qemuPluginControl plugin argv host.optind
  let report := HostAction.controlled plugin handled.1
  match handled.1.executed with
  | .trace command =>
      (perform vcpu answers command host.trace).map fun done =>
        ((⟨handled.2, done.1⟩, report :: done.2.map .trace), handled.1.status)
  | .traceMissingMagic => .error .nullArgument
  | _ => .ok (({ host with optind := handled.2 }, [report]), handled.1.status)

def readFailure (a1 : UInt64) : List Char :=
  "Fail to read guest virtual memory 0x".toList ++ Nat.toDigits 16 a1.toNat ++ ['\n']

def vcpuLine (vcpu : Fin n) (mark : String) (text : List Char) : List Char :=
  '[' :: decimal vcpu.val ++ ']' :: ' ' :: mark.toList ++ text

def forward (findId : Word → Option Loaded) (vcpu : Fin n) (answers : Answers n) (name : Word)
    (arguments : List Word) (host : Host n) : Except Fault (Host n × List (HostAction n)) :=
  if name = "debug".toList then
    -- The result of a debug control is not looked at.
    match findId "/libpmem.so".toList with
    | none => .ok (host, [.stdout "0\n".toList])
    | some pmem =>
        (sendControl pmem.plugin vcpu answers arguments host).map fun sent =>
          (sent.1.1, .stdout (decimal pmem.id.toNat ++ ['\n']) :: sent.1.2)
  else
    match findId ("/lib".toList ++ name ++ ".so".toList) with
    | none =>
        .ok (host, [.stderr ("Unknown/Unloaded plugin ".toList ++ name ++ ['\n'])])
    | some target =>
        (sendControl target.plugin vcpu answers (name :: arguments) host).map fun sent =>
          (sent.1.1, sent.1.2 ++
            if sent.2 = -1 then
              [.stderr ("Failed sending control to ".toList ++ name ++ ['\n'])]
            else [])

/-- `vcpu_syscall_cb` of host/hypersh.cc, built without `DEBUG`. -/
def vcpuSyscallCb (shell : ShellParser) (findId : Word → Option Loaded) (vcpu : Fin n)
    (answers : Answers n) (call : Syscall) (host : Host n) :
    Except Fault (Host n × List (HostAction n)) :=
  if call.num ≠ hypercallMagic then .ok (host, [])
  else
    match virtMemRw call.memory 127 with
    | none => .ok (host, [.stderr (readFailure call.a1)])
    | some bytes =>
        match shell.parse (cString bytes) with
        | none => .ok (host, [])
        | some [] => .ok (host, [])
        | some (name :: arguments) =>
            if name = "p".toList then
              .ok (host, [.stdout (vcpuLine vcpu "" (cString bytes))])
            else
              (forward findId vcpu answers name arguments host).map fun forwarded =>
                (forwarded.1,
                  .stdout (vcpuLine vcpu "guest> " (cString bytes ++ ['\n'])) :: forwarded.2)

end Hypersh.Dispatch
