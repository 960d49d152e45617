import Mathlib.Data.List.Basic
import Hypersh.Transduction
import Hypersh.Callbacks
import Hypersh.Blocks
import Hypersh.Timeline
import Hypersh.Control
import Hypersh.Writers
import Hypersh.System
import Hypersh.Getopt
import Hypersh.Numerals
import Hypersh.Commands
import Hypersh.Dispatch
import Hypersh.Messages
import Hypersh.Segments
import Hypersh.Quoting
import Hypersh.Reads
import Hypersh.Printing

/-!
A guest that uses the functions of guest/hypersh.h while its vcpus run. Each call goes
its whole way as text through the two plugins; what trace sees of it is one command.
-/
namespace Hypersh.Sessions
open Getopt Numerals Callbacks Control Commands Dispatch Messages Segments Quoting Reads Printing
open Transduction
variable {n : Nat}

def traceStart : List Char := "trace start".toList

def traceStop : List Char := "trace stop".toList

def traceDetailed : List Char := "trace mode detailed".toList

def setMagic (magic : UInt64) : List Char := snprintf 50 ("trace magic ".toList ++ pointer magic)

def gmmSync : List Char := "trace gmm sync 0 0".toList

inductive Request where
  | traceStart
  | traceStop
  | traceDetailed
  | setMagic (magic : UInt64)
  | segment (call : SegmentCall) (addr : UInt64)
  | userMsg (payload1 payload2 : UInt64)
  | userMsgDouble (payload1 : UInt64) (payload2 : Double)
  | gmmSync
  | printf (text : List Char)
  deriving DecidableEq

def Request.text : Request → List Char
  | .traceStart => Sessions.traceStart
  | .traceStop => Sessions.traceStop
  | .traceDetailed => Sessions.traceDetailed
  | .setMagic magic => Sessions.setMagic magic
  | .segment call addr => call.command addr
  | .userMsg payload1 payload2 => Dispatch.userMsg payload1 payload2
  | .userMsgDouble payload1 payload2 => Dispatch.userMsgDouble payload1 payload2
  | .gmmSync => Sessions.gmmSync
  | .printf text => printfCommand text

def Request.command : Request → Option Command
  | .traceStart => some (.start none)
  | .traceStop => some .stop
  | .traceDetailed => some (.mode "detailed")
  | .setMagic magic => some (.magic magic)
  | .segment call addr => some (.gmm (String.ofList call.cmd) addr call.argument)
  | .userMsg payload1 payload2 => some (.gmm "message" payload1 payload2)
  | .userMsgDouble payload1 payload2 => some (.gmm "message" payload1 payload2.bits)
  | .gmmSync => some (.gmm "sync" 0 0)
  | .printf _ => none

/-- User-space addresses, sizes of user-space segments, no negative policies, payloads
whose texts are not cut, and C strings. -/
def Request.Fits : Request → Prop
  | .setMagic magic => magic.toNat < 2 ^ 63
  | .segment call addr => addr.toNat < 2 ^ 47 ∧ call.Sized ∧ call.Signless
  | .userMsg payload1 payload2 => Messages.Fits payload1 payload2
  | .userMsgDouble payload1 payload2 => Messages.Fits payload1 payload2.bits
  | .printf text => '\x00' ∉ text
  | _ => True

/-- The line the host prints for a request. -/
def Request.lines (vcpu : Fin n) (request : Request) : List (List Char) :=
  match request with
  | .printf text =>
      if balanced (printfCommand text) then [vcpuLine vcpu "" (printfCommand text)] else []
  | request => [vcpuLine vcpu "guest> " (request.text ++ ['\n'])]

/-! From a text to its command. -/

/-- Plain text that trace's control function reads as one command when its scan starts
at the first word. -/
structure Spells (text : List Char) (command : Command) (arguments : List Word) : Prop where
  short : text.length ≤ 127
  plain : ∀ letter ∈ text, plainLetter letter = true
  split : words text = "trace".toList :: arguments
  operands : ∀ word ∈ arguments, operand word = true
  read : traceSubcommand none arguments = .trace command

theorem first_index_fresh (optind : Nat) (fresh : optind ≤ 1) : firstIndex optind = 1 := by
  unfold firstIndex
  split
  · rfl
  · omega

theorem spelled_controlled (text : List Char) (command : Command) (arguments : List Word)
    (spells : Spells text command arguments) (optind : Nat) (fresh : optind ≤ 1) :
    qemuPluginControl .trace ("trace".toList :: arguments) optind =
      (⟨.trace command, 0, [], []⟩, 0) := by
  have plain : ∀ word ∈ "trace".toList :: arguments, operand word = true :=
    List.forall_mem_cons.mpr ⟨rfl, spells.operands⟩
  rw [trace_controlled _ optind rfl plain, first_index_fresh optind fresh, List.drop_succ_cons,
    List.drop_zero, spells.read]
  rfl

theorem spelled_sent (vcpu : Fin n) (answers : Answers n) (host : Host n)
    (fresh : host.optind ≤ 1) (text : List Char) (command : Command) (arguments : List Word)
    (spells : Spells text command arguments) :
    sendControl .trace vcpu answers ("trace".toList :: arguments) host =
      (perform vcpu answers command host.trace).map fun done =>
        ((⟨0, done.1⟩, .controlled .trace ⟨.trace command, 0, [], []⟩ :: done.2.map .trace),
          0) := by
  unfold sendControl
  rw [spelled_controlled text command arguments spells host.optind fresh]

/-- A fresh host that finds such a text performs its command, and nothing else. -/
theorem spelled_performed (shell : ShellParser) (findId : Word → Option Loaded) (loaded : Loaded)
    (tracing : findId "/libtrace.so".toList = some loaded) (plugin : loaded.plugin = .trace)
    (vcpu : Fin n) (answers : Answers n) (host : Host n) (fresh : host.optind ≤ 1)
    (text : List Char) (command : Command) (arguments : List Word)
    (spells : Spells text command arguments) :
    dispatched shell findId vcpu answers text host =
      (perform vcpu answers command host.trace).map fun done =>
        (⟨0, done.1⟩, .stdout (vcpuLine vcpu "guest> " (text ++ ['\n'])) ::
          .controlled .trace ⟨.trace command, 0, [], []⟩ :: done.2.map .trace) := by
  have parsed : shell.parse text = some ("trace".toList :: arguments) := by
    rw [shell.plain text spells.plain, spells.split]
    rfl
  have library : "/lib".toList ++ "trace".toList ++ ".so".toList = "/libtrace.so".toList := rfl
  have sent := spelled_sent vcpu answers host fresh text command arguments spells
  unfold dispatched
  rw [parsed]
  dsimp only
  rw [if_neg (by decide), forward, if_neg (by decide), library, tracing]
  dsimp only
  rw [plugin, sent]
  cases perform vcpu answers command host.trace with
  | error fault => rfl
  | ok done =>
      -- A status of 0 adds nothing to the output.
      simp only [Except.map]
      rw [if_neg (by decide), List.append_nil]

/-! The texts of the requests. -/

theorem plain_text (text : List Char) (known : text.all plainLetter = true) :
    ∀ letter ∈ text, plainLetter letter = true := List.all_eq_true.mp known

theorem magic_spells (magic : UInt64) (low : magic.toNat < 2 ^ 63) :
    Spells (setMagic magic) (.magic magic) ["magic".toList, pointer magic] := by
  have short := pointer_length magic
  have argument := operand_argument _ (addr_operand magic)
  have known : "trace magic ".toList.all plainLetter = true := by decide
  have size : "trace magic ".toList.length = 12 := rfl
  have whole : setMagic magic = "trace magic ".toList ++ pointer magic := by
    rw [setMagic, snprintf, List.take_of_length_le]
    rw [List.length_append, size]
    omega
  have spaced : "trace magic ".toList ++ pointer magic =
      "trace".toList ++ ' ' :: ("magic".toList ++ ' ' :: pointer magic) := rfl
  rw [whole]
  refine ⟨?_, ?_, ?_, ?_, ?_⟩
  · rw [List.length_append, size]
    omega
  · intro letter member
    obtain front | back := List.mem_append.mp member
    · exact plain_text _ known letter front
    · exact (argument.letters letter back).2
  · rw [spaced, words_next _ _ (by decide) (by decide), words_next _ _ (by decide) (by decide),
      words_last _ argument.present argument.solid]
  · rintro word member
    obtain rfl | rfl := List.mem_pair.mp member
    · rfl
    · exact numeric_operand _ (operand_numeric _ (addr_operand magic))
  · show Executed.trace (.magic (number (pointer magic))) = _
    rw [number, (pointer_survives_iff magic).mpr low]

theorem gmm_spells (cmd first second : Word) (segment argument : UInt64)
    (command : Argument cmd) (known : operand cmd = true)
    (firstArgument : Argument first) (firstNumeric : numeric first = true)
    (secondArgument : Argument second) (secondNumeric : numeric second = true)
    (short : (gmmText cmd first second).length ≤ 127)
    (firstRead : number first = segment) (secondRead : number second = argument) :
    Spells (gmmText cmd first second) (.gmm (String.ofList cmd) segment argument)
      ["gmm".toList, cmd, first, second] := by
  refine ⟨short, gmm_text_plain cmd first second command firstArgument secondArgument,
    gmm_text_words cmd first second command firstArgument secondArgument, ?_, ?_⟩
  · simp only [List.forall_mem_cons]
    exact ⟨rfl, known, numeric_operand first firstNumeric, numeric_operand second secondNumeric,
      fun _ absent => absurd absent List.not_mem_nil⟩
  · show Executed.trace (.gmm (String.ofList cmd) (number first) (number second)) = _
    rw [firstRead, secondRead]

theorem segment_spells (call : SegmentCall) (addr : UInt64) (user : addr.toNat < 2 ^ 47)
    (sized : call.Sized) (signless : call.Signless) :
    Spells (call.command addr) (.gmm (String.ofList call.cmd) addr call.argument)
      ["gmm".toList, call.cmd, pointer addr, call.value] := by
  rw [command_text call addr user sized]
  exact gmm_spells call.cmd (pointer addr) call.value addr call.argument (cmd_argument call)
    (cmd_operand call) (operand_argument _ (addr_operand addr)) (operand_numeric _ (addr_operand addr))
    (value_argument call) (value_numeric call signless)
    (Nat.le_of_lt (text_short call addr user sized)) (addr_read addr user) (value_read call sized)

theorem message_spells (payload1 payload2 : UInt64) (fits : Messages.Fits payload1 payload2) :
    Spells (messageCommand payload1 payload2) (.gmm "message" payload1 payload2)
      ["gmm".toList, "message".toList, pointer payload1, pointer payload2] := by
  have room := fits.length
  obtain ⟨first, second⟩ := (payloads_survive_iff payload1 payload2).mpr fits
  have whole : (pointer payload2).take (30 - (pointer payload1).length) = pointer payload2 :=
    List.take_of_length_le (by omega)
  rw [message_command_text, whole]
  rw [whole] at second
  exact gmm_spells "message".toList (pointer payload1) (pointer payload2) payload1 payload2
    message_argument rfl (operand_argument _ (addr_operand payload1))
    (operand_numeric _ (addr_operand payload1)) (operand_argument _ (addr_operand payload2))
    (operand_numeric _ (addr_operand payload2))
    (Nat.le_of_lt (operands_short _ _ (by omega))) first second

theorem request_spells (request : Request) (command : Command) (fits : request.Fits)
    (asks : request.command = some command) :
    ∃ arguments, Spells request.text command arguments := by
  cases request with
  | traceStart =>
      obtain rfl := Option.some.inj asks
      exact ⟨["start".toList], by decide, plain_text _ (by decide), by decide, by decide, rfl⟩
  | traceStop =>
      obtain rfl := Option.some.inj asks
      exact ⟨["stop".toList], by decide, plain_text _ (by decide), by decide, by decide, rfl⟩
  | traceDetailed =>
      obtain rfl := Option.some.inj asks
      exact ⟨["mode".toList, "detailed".toList], by decide, plain_text _ (by decide), by decide,
        by decide, rfl⟩
  | setMagic magic =>
      obtain rfl := Option.some.inj asks
      exact ⟨_, magic_spells magic fits⟩
  | segment call addr =>
      obtain rfl := Option.some.inj asks
      exact ⟨_, segment_spells call addr fits.1 fits.2.1 fits.2.2⟩
  | userMsg payload1 payload2 =>
      obtain rfl := Option.some.inj asks
      exact ⟨_, message_spells payload1 payload2 fits⟩
  | userMsgDouble payload1 payload2 =>
      obtain rfl := Option.some.inj asks
      exact ⟨_, message_spells payload1 payload2.bits fits⟩
  | gmmSync =>
      obtain rfl := Option.some.inj asks
      exact ⟨["gmm".toList, "sync".toList, "0".toList, "0".toList], by decide,
        plain_text _ (by decide), by decide, by decide, rfl⟩
  | printf text => contradiction

/-! Sessions. -/

inductive Event (n : Nat) where
  | request (vcpu : Fin n) (answers : Answers n) (asked : Request) (a1 : UInt64)
      (memory : Memory)
  | other (event : System.Event n)

def step (shell : ShellParser) (findId : Word → Option Loaded) :
    Step (Host n) (Event n) (HostAction n) Fault :=
  fun host event =>
    match event with
    | .request vcpu answers _ a1 memory =>
        vcpuSyscallCb shell findId vcpu answers (issue hypercallMagic a1 memory) host
    | .other event =>
        (System.step host.trace event).map fun done =>
          ({ host with trace := done.1 }, done.2.map .trace)

/-- The text of a request lies at the address that is passed, and can be read. -/
def Event.Placed : Event n → Prop
  | .request _ _ asked a1 memory =>
      asked.Fits ∧ Mapped memory a1 127 ∧ Holds memory a1 asked.text
  | .other _ => True

def Event.means : Event n → List (System.Event n)
  | .request vcpu answers asked _ _ =>
      asked.command.toList.map fun command => .control (.command vcpu answers command)
  | .other event => [event]

def Event.lines : Event n → List (List Char)
  | .request vcpu _ asked _ _ => asked.lines vcpu
  | .other _ => []

def traced : HostAction n → Option (Action n)
  | .trace action => some action
  | _ => none

theorem traced_all (actions : List (Action n)) :
    (actions.map HostAction.trace).filterMap traced = actions := by
  rw [List.filterMap_map]
  exact List.filterMap_some

theorem printed_none (actions : List (Action n)) :
    printed (actions.map HostAction.trace) = [] := by
  unfold printed
  rw [List.filterMap_map]
  exact List.filterMap_eq_nil_iff.mpr fun _ _ => rfl

theorem lines_untraced (lines : List (List Char)) :
    (lines.map (HostAction.stdout (n := n))).filterMap traced = [] := by
  rw [List.filterMap_map]
  exact List.filterMap_eq_nil_iff.mpr fun _ _ => rfl

theorem outcome_traced (outcome : Outcome n) (lines : List (List Char)) (report : Report) :
    glimpse Host.trace traced (outcome.map fun done =>
        ((⟨0, done.1⟩ : Host n), lines.map HostAction.stdout ++
          .controlled .trace report :: done.2.map .trace)) = outcome := by
  cases outcome with
  | error fault => rfl
  | ok done =>
      simp only [glimpse, Except.map, List.filterMap_append, lines_untraced, List.nil_append]
      rw [List.filterMap_cons_none rfl, traced_all]

theorem lines_printed (lines : List (List Char)) (report : Report) (actions : List (Action n)) :
    printed (lines.map HostAction.stdout ++ .controlled .trace report :: actions.map .trace) =
      lines := by
  have silent := printed_none actions
  unfold printed at silent ⊢
  rw [List.filterMap_append, List.filterMap_cons_none rfl, silent, List.append_nil,
    List.filterMap_map]
  exact List.filterMap_some

/-! Sessions with a host that has trace loaded. -/

section
variable (shell : ShellParser) (rules : ByRules shell) (findId : Word → Option Loaded)
  (loaded : Loaded) (tracing : findId "/libtrace.so".toList = some loaded)
  (plugin : loaded.plugin = .trace)
include rules tracing plugin

/-- What a placed request does to a fresh host. -/
theorem request_answered (vcpu : Fin n) (answers : Answers n) (host : Host n)
    (fresh : host.optind ≤ 1) (asked : Request) (a1 : UInt64) (memory : Memory)
    (fits : asked.Fits) (mapped : Mapped memory a1 127) (held : Holds memory a1 asked.text) :
    vcpuSyscallCb shell findId vcpu answers (issue hypercallMagic a1 memory) host =
      match asked.command with
      | none => .ok (host, (asked.lines vcpu).map .stdout)
      | some command =>
          (perform vcpu answers command host.trace).map fun done =>
            (⟨0, done.1⟩, (asked.lines vcpu).map .stdout ++
              .controlled .trace ⟨.trace command, 0, [], []⟩ :: done.2.map .trace) := by
  cases asks : asked.command with
  | none =>
      cases asked with
      | printf text =>
          have short : (Request.printf text).text.length ≤ 127 := command_length text
          rw [issued_mapped shell findId vcpu answers a1 memory _ host mapped held short]
          have printed := command_dispatched shell rules findId vcpu answers host text
          simp only [Request.text, Request.lines, printed]
          split
          · rfl
          · rfl
      | _ => contradiction
  | some command =>
      obtain ⟨arguments, spells⟩ := request_spells asked command fits asks
      rw [issued_mapped shell findId vcpu answers a1 memory _ host mapped held spells.short,
        spelled_performed shell findId loaded tracing plugin vcpu answers host fresh asked.text
          command arguments spells]
      have line : asked.lines vcpu = [vcpuLine vcpu "guest> " (asked.text ++ ['\n'])] := by
        cases asked with
        | printf text => contradiction
        | _ => rfl
      rw [line]
      rfl

theorem step_means (host : Host n) (event : Event n) (fresh : host.optind ≤ 1)
    (placed : event.Placed) :
    glimpse Host.trace traced (step shell findId host event) =
      run System.step host.trace event.means := by
  cases event with
  | request vcpu answers asked a1 memory =>
      obtain ⟨fits, mapped, held⟩ := placed
      have done := request_answered shell rules findId loaded tracing plugin vcpu answers host
        fresh asked a1 memory fits mapped held
      simp only [step, done, Event.means]
      cases asked.command with
      | none =>
          simp only [glimpse, Except.map, Option.toList, List.map_nil, run_nil, lines_untraced]
      | some command =>
          rw [Option.toList, List.map_singleton, run_singleton]
          exact outcome_traced _ _ _
  | other event =>
      rw [Event.means, run_singleton]
      simp only [step]
      cases System.step host.trace event with
      | error fault => rfl
      | ok result => simp only [glimpse, Except.map, traced_all]

theorem step_tells (host next : Host n) (event : Event n) (actions : List (HostAction n))
    (fresh : host.optind ≤ 1) (placed : event.Placed)
    (taken : step shell findId host event = .ok (next, actions)) :
    next.optind ≤ 1 ∧ printed actions = event.lines := by
  cases event with
  | request vcpu answers asked a1 memory =>
      obtain ⟨fits, mapped, held⟩ := placed
      have done := request_answered shell rules findId loaded tracing plugin vcpu answers host
        fresh asked a1 memory fits mapped held
      rw [step, done] at taken
      split at taken
      · cases taken
        refine ⟨fresh, ?_⟩
        unfold printed
        rw [List.filterMap_map]
        exact List.filterMap_some
      · obtain ⟨⟨trace, said⟩, performed, same⟩ := map_ok _ _ _ taken
        cases same
        exact ⟨Nat.zero_le 1, lines_printed _ _ said⟩
  | other event =>
      obtain ⟨⟨trace, said⟩, stepped, same⟩ := map_ok _ _ _ taken
      cases same
      exact ⟨fresh, printed_none said⟩

/-- A guest that only calls the functions of its header, with arguments that fit, drives
trace as if the commands were given to it directly, faults included; a scan never starts
anywhere but at the first word, and the host prints one line for each request, messages
that are not balanced apart. -/
theorem session_direct (host : Host n) (fresh : host.optind ≤ 1) (events : List (Event n))
    (placed : ∀ event ∈ events, event.Placed) :
    glimpse Host.trace traced (run (step shell findId) host events) =
      run System.step host.trace (events.flatMap Event.means) ∧
    ∀ final actions, run (step shell findId) host events = .ok (final, actions) →
      final.optind ≤ 1 ∧ printed actions = events.flatMap Event.lines := by
  have told := step_tells (n := n) shell rules findId loaded tracing plugin
  constructor
  · refine run_glimpse _ _ _ _ _ (fun host => host.optind ≤ 1) Event.Placed ?_ ?_ host events
      fresh placed
    · exact step_means shell rules findId loaded tracing plugin
    · intro host event next emitted fresh placed taken
      exact (told host next event emitted fresh placed taken).1
  · intro final actions done
    refine run_tells _ _ _ (fun host => host.optind ≤ 1) Event.Placed ?_ host final events actions
      fresh placed done
    intro host event next emitted
    exact told host next event emitted

end

def placedRequest (answers : Answers 1) (asked : Request) : Event 1 :=
  .request vcpu₀ answers asked 0x7000
    (Reads.placed 0x7000 (asked.text ++ '\x00' :: List.replicate 127 '\x00'))

theorem request_placed (answers : Answers 1) (asked : Request) (fits : asked.Fits)
    (clean : '\x00' ∉ asked.text) (short : asked.text.length ≤ 127) :
    (placedRequest answers asked).Placed := by
  have size : UInt64.size = 2 ^ 64 := rfl
  have below : (asked.text ++ '\x00' :: List.replicate 127 '\x00').length ≤ UInt64.size := by
    rw [List.length_append, List.length_cons, List.length_replicate]
    omega
  refine ⟨fits, ?_, ?_⟩
  · apply (placed_mapped_iff 0x7000 _ 127 uint64_room).mpr
    rw [List.length_append, List.length_cons, List.length_replicate]
    omega
  · exact stored_holds _ 0x7000 asked.text _ clean (placed_stored 0x7000 _ below)

def guestSession : List (Event 1) :=
  let answers : Answers 1 := ⟨0x3000, some "/tmp/sift", fun _ => true⟩
  [placedRequest answers (.setMagic 0x601040),
   placedRequest answers .traceStart,
   placedRequest answers .traceDetailed,
   placedRequest answers (.userMsg 0x1000 64),
   placedRequest answers (.segment (.assign 2) 0x7f0000001000),
   placedRequest answers (.printf "hello, 'host'".toList),
   .other (.idle vcpu₀),
   placedRequest answers .traceStop,
   .other (.control (.deferred 0))]

theorem guest_session_direct :
    ∃ trace actions,
      run System.step (install 1) (guestSession.flatMap Event.means) = .ok (trace, actions) ∧
      glimpse Host.trace traced (run (step ruleShell onlyTrace) ⟨1, install 1⟩ guestSession) =
        .ok (trace, actions) ∧ trace.globals.magic = 0x601040 ∧ trace.recording = false := by
  refine ⟨_, _, rfl, ?_, rfl, rfl⟩
  refine (session_direct ruleShell rule_shell_rules onlyTrace ⟨3, .trace⟩ rfl rfl ⟨1, install 1⟩
    (Nat.le_refl 1) guestSession ?_).1
  unfold guestSession
  simp only [List.forall_mem_cons]
  refine ⟨?_, ?_, ?_, ?_, ?_, ?_, trivial, ?_, trivial, ?_⟩
  · exact request_placed _ (.setMagic 0x601040)
      (show (0x601040 : UInt64).toNat < 2 ^ 63 by decide) (by decide) (by decide)
  · exact request_placed _ .traceStart trivial (by decide) (by decide)
  · exact request_placed _ .traceDetailed trivial (by decide) (by decide)
  · exact request_placed _ (.userMsg 0x1000 64) ⟨by decide, by decide, by decide⟩ (by decide)
      (by decide)
  · exact request_placed _ (.segment (.assign 2) 0x7f0000001000) ⟨by decide, trivial, by decide⟩
      (by decide) (by decide)
  · exact request_placed _ (.printf "hello, 'host'".toList)
      (show '\x00' ∉ "hello, 'host'".toList by decide) (by decide) (by decide)
  · exact request_placed _ .traceStop trivial (by decide) (by decide)
  · intro event absent
    exact absurd absent List.not_mem_nil

end Hypersh.Sessions
