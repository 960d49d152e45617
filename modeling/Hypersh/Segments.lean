import Mathlib.Data.List.Basic
import Hypersh.Transduction
import Hypersh.Callbacks
import Hypersh.Blocks
import Hypersh.Timeline
import Hypersh.Control
import Hypersh.Writers
import Hypersh.System
import Hypersh.Getopt
import Hypersh.Numerals
import Hypersh.Commands
import Hypersh.Dispatch
import Hypersh.Messages

/-!
Segment commands on their way from the guest to a writer. A policy is printed with
`%d`, so that a negative one looks like an option to `getopt`.
-/
namespace Hypersh.Segments
open Getopt Numerals Callbacks Control Commands Dispatch Messages Transduction
variable {n : Nat}

inductive SegmentCall where
  | create (size : UInt64)
  | assign (policy : Int32)
  | delete
  deriving DecidableEq, Repr

def SegmentCall.command (addr : UInt64) : SegmentCall → List Char
  | .create size => segCreate addr size
  | .assign policy => segAssign addr policy
  | .delete => segDelete addr

def SegmentCall.cmd : SegmentCall → Word
  | .create _ => "create".toList
  | .assign _ => "assign".toList
  | .delete => "delete".toList

def SegmentCall.value : SegmentCall → Word
  | .create size => hexadecimal size
  | .assign policy => signedDecimal policy.toInt
  | .delete => "0".toList

/-- What the host should be told: the code and the sign-extended argument. -/
def SegmentCall.code : SegmentCall → Nat
  | .create _ => 0
  | .assign _ => 1
  | .delete => 2

def SegmentCall.argument : SegmentCall → UInt64
  | .create size => size
  | .assign policy => policy.toInt64.toUInt64
  | .delete => 0

/-- Sizes of user-space segments. -/
def SegmentCall.Sized : SegmentCall → Prop
  | .create size => size.toNat < 2 ^ 47
  | _ => True

def SegmentCall.Signless : SegmentCall → Prop
  | .assign policy => 0 ≤ policy
  | _ => True

instance : DecidablePred SegmentCall.Signless
  | .create _ => isTrue trivial
  | .assign policy => inferInstanceAs (Decidable (0 ≤ policy))
  | .delete => isTrue trivial

/-! The words of a call. -/

theorem hexadecimal_operand (value : UInt64) : Operand (hexadecimal value) :=
  ⟨⟨_, Or.inl rfl⟩, hexadecimal_letters value⟩

theorem signedDecimal_argument (value : Int) : Argument (signedDecimal value) := by
  have known : ∀ digit : Fin 10, isBlank (Nat.digitChar digit) = false ∧
      plainLetter (Nat.digitChar digit) = true := by decide
  have digits : ∀ letter ∈ Nat.toDigits 10 value.natAbs,
      isBlank letter = false ∧ plainLetter letter = true := by
    intro letter member
    rcases toDigits_letter 10 value.natAbs (by decide) letter member with ⟨digit, low, rfl⟩
    exact known ⟨digit, low⟩
  unfold signedDecimal
  split
  · refine ⟨List.cons_ne_nil _ _, ?_⟩
    intro letter member
    rcases List.mem_cons.mp member with rfl | member
    · decide
    · exact digits letter member
  · exact ⟨Nat.toDigits_ne_nil, digits⟩

theorem signedDecimal_numeric (value : Int) (signless : 0 ≤ value) :
    numeric (signedDecimal value) = true := by
  have known : ∀ first : Fin 10, numeric [Nat.digitChar first] = true := by decide
  rcases toDigits_first 10 value.natAbs (by decide) with ⟨first, rest, low, text⟩
  rw [signedDecimal, if_neg (by omega), text]
  exact known ⟨first, low⟩

theorem value_argument (call : SegmentCall) : Argument call.value := by
  cases call with
  | create size => exact operand_argument _ (hexadecimal_operand size)
  | assign policy => exact signedDecimal_argument policy.toInt
  | delete => exact letters_argument _ (List.cons_ne_nil _ _) rfl

theorem value_numeric (call : SegmentCall) (signless : call.Signless) :
    numeric call.value = true := by
  cases call with
  | create size => exact operand_numeric _ (hexadecimal_operand size)
  | assign policy => exact signedDecimal_numeric policy.toInt (Int32.le_iff_toInt_le.mp signless)
  | delete => rfl

theorem cmd_argument (call : SegmentCall) : Argument call.cmd := by
  cases call with
  | create size => exact letters_argument _ (List.cons_ne_nil _ _) rfl
  | assign policy => exact letters_argument _ (List.cons_ne_nil _ _) rfl
  | delete => exact letters_argument _ (List.cons_ne_nil _ _) rfl

theorem cmd_unknown (call : SegmentCall) : call.cmd ∉ traceSubcommands := by
  have first : ∀ name ∈ traceSubcommands, name.head? ∉ [some 'c', some 'a', some 'd'] := by decide
  intro known
  apply first call.cmd known
  cases call with
  | create size => exact List.mem_cons_self
  | assign policy => exact List.mem_cons_of_mem _ List.mem_cons_self
  | delete => exact List.mem_cons_of_mem _ (List.mem_cons_of_mem _ List.mem_cons_self)

theorem cmd_operand (call : SegmentCall) : operand call.cmd = true := by
  cases call with
  | create size => rfl
  | assign policy => rfl
  | delete => rfl

theorem addr_operand (addr : UInt64) : Operand (pointer addr) := by
  have whole := pointer_operand addr 18 (by decide)
  rwa [List.take_of_length_le (pointer_length addr)] at whole

/-! The text of a call. -/

theorem cmd_length (call : SegmentCall) : call.cmd.length = 6 := by
  cases call with
  | create size => rfl
  | assign policy => rfl
  | delete => rfl

theorem addr_length (addr : UInt64) (user : addr.toNat < 2 ^ 47) :
    (pointer addr).length ≤ 14 := by
  unfold pointer
  split
  · decide
  · exact hexadecimal_length addr 12 (by decide) (Nat.lt_trans user (by decide))

theorem value_length (call : SegmentCall) (sized : call.Sized) : call.value.length ≤ 14 := by
  cases call with
  | create size => exact hexadecimal_length size 12 (by decide) (Nat.lt_trans sized (by decide))
  | assign policy =>
      have low := policy.le_toInt
      have high := policy.toInt_lt
      have short := signedDecimal_length policy.toInt 10 (by decide) (by omega)
      exact Nat.le_trans short (by decide)
  | delete => decide

theorem command_text (call : SegmentCall) (addr : UInt64) (user : addr.toNat < 2 ^ 47)
    (sized : call.Sized) :
    call.command addr = gmmText call.cmd (pointer addr) call.value := by
  have front := addr_length addr user
  have back := value_length call sized
  have name := cmd_length call
  have text := gmm_command_text call.cmd (pointer addr) call.value (by omega)
  rw [List.take_of_length_le (by omega)] at text
  rw [← text]
  cases call with
  | create size => rfl
  | assign policy => rfl
  | delete => rfl

theorem text_short (call : SegmentCall) (addr : UInt64) (user : addr.toNat < 2 ^ 47)
    (sized : call.Sized) : (gmmText call.cmd (pointer addr) call.value).length < 127 := by
  have front := addr_length addr user
  have back := value_length call sized
  have name := cmd_length call
  rw [gmm_text_length]
  omega

/-! What `strtol` makes of the words. -/

theorem addr_read (addr : UInt64) (user : addr.toNat < 2 ^ 47) : number (pointer addr) = addr :=
  (pointer_survives_iff addr).mpr (Nat.lt_trans user (by decide))

theorem value_read (call : SegmentCall) (sized : call.Sized) :
    number call.value = call.argument := by
  cases call with
  | create size => exact hexadecimal_survives size (Nat.lt_trans sized (by decide))
  | assign policy =>
      have low := policy.le_toInt
      have high := policy.toInt_lt
      show longBits (strtol (signedDecimal policy.toInt)) = policy.toInt64.toUInt64
      rw [strtol_signedDecimal policy.toInt (by omega) (by omega), longBits_ofInt]
      rfl
  | delete => decide

/-! What the control function does. -/

/-- The branches that leave every writer alone while a recording is on. -/
def silent : Executed → Bool
  | .traceUnknown => true
  | .traceMissingGmm => true
  | .trace (.start none) => true
  | _ => false

theorem traceDir_unknown (found : List Found) (letters : Word)
    (unknown : found ⊆ letters.map .unknown) : found.foldl traceDir none = none := by
  induction found with
  | nil => rfl
  | cons first rest ih =>
      rcases List.mem_map.mp (unknown List.mem_cons_self) with ⟨letter, -, rfl⟩
      exact ih fun later member => unknown (List.mem_cons_of_mem _ member)

theorem signedDecimal_negative (value : Int) (negative : value < 0) :
    operand (signedDecimal value) = false ∧ signedDecimal value ≠ ['-', '-'] ∧
      cluster "d:".toList none ((signedDecimal value).drop 1) =
        ((Nat.toDigits 10 value.natAbs).map .unknown, false) := by
  have known : ∀ digit : Fin 10, takesArgument "d:".toList (Nat.digitChar digit) = none ∧
      Nat.digitChar digit ≠ '-' := by decide
  rcases toDigits_first 10 value.natAbs (by decide) with ⟨first, rest, low, text⟩
  have unknown : ∀ letter ∈ Nat.toDigits 10 value.natAbs,
      takesArgument "d:".toList letter = none := by
    intro letter member
    rcases toDigits_letter 10 value.natAbs (by decide) letter member with ⟨digit, low, rfl⟩
    exact (known ⟨digit, low⟩).1
  rw [signedDecimal, if_pos negative]
  refine ⟨?_, ?_, cluster_unknown _ none _ unknown⟩
  · rw [text]
    rfl
  · rw [text]
    intro dashes
    exact (known ⟨first, low⟩).2 (List.cons.inj (List.cons.inj dashes).2).1

/-- A negative policy is taken for an option, and its word is missing after that. -/
theorem negative_subcommand (first : Word) (firstNumeric : numeric first = true) (optind : Nat) :
    silent (traceSubcommand none
      (["trace".toList, "gmm".toList, "assign".toList, first].drop (firstIndex optind))) = true := by
  match optind with
  | 0 => rfl
  | 1 => rfl
  | 2 =>
      have unknown := unknown_subcommand none "assign".toList [first]
        (cmd_unknown (.assign 0))
      exact congrArg silent unknown
  | 3 =>
      have unknown := unknown_subcommand none first [] (numeric_no_subcommand first firstNumeric)
      exact congrArg silent unknown
  | more + 4 =>
      have past : ["trace".toList, "gmm".toList, "assign".toList, first].drop
          (firstIndex (more + 4)) = [] := List.drop_eq_nil_of_le (Nat.le_add_left 4 more)
      rw [past]
      rfl

theorem negative_controlled (first : Word) (firstNumeric : numeric first = true) (policy : Int)
    (negative : policy < 0) (optind : Nat) :
    ∃ executed, silent executed = true ∧
      qemuPluginControl .trace
          ["trace".toList, "gmm".toList, "assign".toList, first, signedDecimal policy] optind =
        (⟨executed, 0, [], traceStderr executed⟩, 0) := by
  rcases signedDecimal_negative policy negative with ⟨option, dashes, letters⟩
  have plain : ∀ word ∈ ["trace".toList, "gmm".toList, "assign".toList, first],
      operand word = true := by
    simp only [List.forall_mem_cons]
    exact ⟨rfl, rfl, rfl, numeric_operand first firstNumeric,
      fun _ absent => absurd absent List.not_mem_nil⟩
  rcases getopt_last_option "d:".toList _ _ _ optind plain option dashes letters with
    ⟨left, found⟩
  refine ⟨_, negative_subcommand first firstNumeric optind, ?_⟩
  show traceControl (["trace".toList, "gmm".toList, "assign".toList, first] ++
    [signedDecimal policy]) optind = _
  unfold traceControl
  rw [if_neg (fun differs => differs rfl)]
  dsimp only
  rw [left, traceDir_unknown _ _ found]

theorem call_controlled (call : SegmentCall) (first : Word) (firstNumeric : numeric first = true)
    (signless : call.Signless) (optind : Nat) :
    qemuPluginControl .trace ["trace".toList, "gmm".toList, call.cmd, first, call.value] optind =
      (⟨gmmExecuted call.cmd first call.value optind, 0, [],
        traceStderr (gmmExecuted call.cmd first call.value optind)⟩, 0) :=
  gmm_controlled call.cmd first call.value (cmd_operand call) (cmd_unknown call) firstNumeric
    (value_numeric call signless) optind

/-! What is sent. -/

def sentCommands (actions : List (HostAction n)) : List (Fin n × Nat × UInt64 × UInt64) :=
  actions.filterMap fun action =>
    match action with
    | .trace (.call vcpu _ (.gmmCommand code segment argument)) =>
        some (vcpu, code, segment, argument)
    | _ => none

theorem silent_performed (vcpu : Fin n) (answers : Answers n) (argv : List Word) (host : Host n)
    (executed : Executed) (quiet : silent executed = true) (recording : host.trace.recording = true)
    (controlled : qemuPluginControl .trace argv host.optind =
      (⟨executed, 0, [], traceStderr executed⟩, 0)) :
    ∃ sent, sendControl .trace vcpu answers argv host = .ok sent ∧ sent.2 = 0 ∧
      sentCommands sent.1.2 = [] := by
  unfold sendControl
  rw [controlled]
  unfold silent at quiet
  split at quiet
  · exact ⟨_, rfl, rfl, rfl⟩
  · exact ⟨_, rfl, rfl, rfl⟩
  · have refused : recorderStart none answers host.trace =
        .ok (host.trace, [.error "already recording."]) := if_pos recording
    simp only [perform, refused, Except.map]
    exact ⟨_, rfl, rfl, rfl⟩
  · contradiction

theorem call_performed (vcpu : Fin n) (answers : Answers n) (argv : List Word) (host : Host n)
    (call : SegmentCall) (segment argument : UInt64) (writer : Nat)
    (present : host.trace.output vcpu = some writer)
    (controlled : qemuPluginControl .trace argv host.optind =
      (⟨.trace (.gmm (String.ofList call.cmd) segment argument), 0, [], []⟩, 0)) :
    ∃ sent, sendControl .trace vcpu answers argv host = .ok sent ∧ sent.2 = 0 ∧
      sentCommands sent.1.2 = [(vcpu, call.code, segment, argument)] := by
  have sends : recorderGmm vcpu (String.ofList call.cmd) segment argument host.trace =
      .ok (host.trace, [.call vcpu writer (.gmmCommand call.code segment argument)]) := by
    have called : ∀ code, callOutput vcpu (.gmmCommand code segment argument) host.trace =
        .ok (.call vcpu writer (.gmmCommand code segment argument)) := by
      intro code
      rw [callOutput, present]
    cases call with
    | create size => exact congrArg (Except.map fun sent => (host.trace, [sent])) (called 0)
    | assign policy => exact congrArg (Except.map fun sent => (host.trace, [sent])) (called 1)
    | delete => exact congrArg (Except.map fun sent => (host.trace, [sent])) (called 2)
  unfold sendControl
  rw [controlled]
  simp only [perform, sends, Except.map]
  exact ⟨_, rfl, rfl, rfl⟩

theorem call_sent (vcpu : Fin n) (answers : Answers n) (host : Host n) (call : SegmentCall)
    (addr : UInt64) (writer : Nat) (recording : host.trace.recording = true)
    (present : host.trace.output vcpu = some writer) (user : addr.toNat < 2 ^ 47)
    (sized : call.Sized) :
    ∃ sent, sendControl .trace vcpu answers
        ["trace".toList, "gmm".toList, call.cmd, pointer addr, call.value] host = .ok sent ∧
      sent.2 = 0 ∧ sentCommands sent.1.2 =
        if host.optind ≤ 1 ∧ call.Signless then [(vcpu, call.code, addr, call.argument)]
        else [] := by
  have firstNumeric := operand_numeric _ (addr_operand addr)
  by_cases signless : call.Signless
  · have controlled := call_controlled call _ firstNumeric signless host.optind
    by_cases fresh : host.optind ≤ 1
    · rw [gmmExecuted, if_pos fresh, addr_read addr user, value_read call sized] at controlled
      rw [if_pos ⟨fresh, signless⟩]
      exact call_performed vcpu answers _ host call addr call.argument writer present controlled
    · have quiet : silent (gmmExecuted call.cmd (pointer addr) call.value host.optind) = true := by
        rw [gmmExecuted, if_neg fresh]
        split
        · rfl
        · rfl
      rw [if_neg fun both => fresh both.1]
      exact silent_performed vcpu answers _ host _ quiet recording controlled
  · rw [if_neg fun both => signless both.2]
    cases call with
    | create size => exact absurd trivial signless
    | assign policy =>
        have negative : policy.toInt < 0 := by
          by_contra high
          exact signless (Int32.le_iff_toInt_le.mpr (Int.not_lt.mp high))
        rcases negative_controlled _ firstNumeric policy.toInt negative host.optind with
          ⟨executed, quiet, controlled⟩
        exact silent_performed vcpu answers _ host executed quiet recording controlled
    | delete => exact absurd trivial signless

/-- The call makes trace send exactly one segment command, on the stream of its vcpu. -/
def Delivered (shell : ShellParser) (findId : Word → Option Loaded) (vcpu : Fin n)
    (answers : Answers n) (host : Host n) (a1 : UInt64) (beyond : List Char)
    (call : SegmentCall) (addr : UInt64) : Prop :=
  ∃ next actions, vcpuSyscallCb shell findId vcpu answers
      (hypershExec (call.command addr) a1 beyond) host = .ok (next, actions) ∧
    sentCommands actions = [(vcpu, call.code, addr, call.argument)]

theorem call_delivered_iff (shell : ShellParser) (findId : Word → Option Loaded)
    (loaded : Loaded) (vcpu : Fin n) (answers : Answers n) (host : Host n) (a1 : UInt64)
    (beyond : List Char) (call : SegmentCall) (addr : UInt64) (writer : Nat)
    (recording : host.trace.recording = true) (present : host.trace.output vcpu = some writer)
    (tracing : findId "/libtrace.so".toList = some loaded) (plugin : loaded.plugin = .trace)
    (user : addr.toNat < 2 ^ 47) (sized : call.Sized)
    (readable : 127 ≤ (call.command addr ++ '\x00' :: beyond).length) :
    Delivered shell findId vcpu answers host a1 beyond call addr ↔
      host.optind ≤ 1 ∧ call.Signless := by
  rcases call_sent vcpu answers host call addr writer recording present user sized with
    ⟨sent, done, accepted, commands⟩
  have firstArgument := operand_argument _ (addr_operand addr)
  rw [command_text call addr user sized] at readable
  have whole := trace_dispatched shell findId loaded vcpu answers host a1 _ beyond _ sent
    (text_short call addr user sized) readable
    (gmm_text_plain _ _ _ (cmd_argument call) firstArgument (value_argument call))
    (gmm_text_words _ _ _ (cmd_argument call) firstArgument (value_argument call))
    tracing plugin done accepted
  rw [Delivered, command_text call addr user sized, whole]
  have seen : sentCommands (HostAction.stdout (vcpuLine vcpu "guest> "
      (gmmText call.cmd (pointer addr) call.value ++ ['\n'])) :: sent.1.2) =
      sentCommands sent.1.2 := rfl
  constructor
  · rintro ⟨next, actions, taken, one⟩
    cases taken
    rw [seen, commands] at one
    by_contra lost
    rw [if_neg lost] at one
    contradiction
  · intro delivered
    rw [if_pos delivered] at commands
    exact ⟨_, _, rfl, seen.trans commands⟩

/-- While recording, a segment command gets through exactly when no position was left
behind and it does not assign a negative policy. -/
theorem segment_command_survives_iff (shell : ShellParser) (findId : Word → Option Loaded)
    (loaded : Loaded) (vcpu : Fin n) (answers : Answers n) (optind : Nat) (trace : Trace n)
    (events : List (System.Event n)) (actions : List (Action n)) (a1 : UInt64)
    (beyond : List Char) (call : SegmentCall) (addr : UInt64)
    (reached : run System.step (install n) events = .ok (trace, actions))
    (recording : trace.recording = true)
    (tracing : findId "/libtrace.so".toList = some loaded) (plugin : loaded.plugin = .trace)
    (user : addr.toNat < 2 ^ 47) (sized : call.Sized)
    (readable : 127 ≤ (call.command addr ++ '\x00' :: beyond).length) :
    Delivered shell findId vcpu answers ⟨optind, trace⟩ a1 beyond call addr ↔
      optind ≤ 1 ∧ call.Signless := by
  have owned := System.run_owned events trace actions reached
  rcases Option.isSome_iff_exists.mp (owned.open_ recording vcpu) with ⟨writer, present⟩
  exact call_delivered_iff shell findId loaded vcpu answers ⟨optind, trace⟩ a1 beyond call addr
    writer recording present tracing plugin user sized readable

def startedEvents : List (System.Event 1) :=
  [.control (.command vcpu₀ answers₁ (.start (some "d")))]

theorem policy_survives :
    ∃ trace actions, run System.step (install 1) startedEvents = .ok (trace, actions) ∧
      Delivered blankShell onlyTrace 0 answers₁ ⟨1, trace⟩ 0x7000 (List.replicate 127 '\x00')
        (.assign 3) 0x1000 :=
  ⟨_, _, rfl, (segment_command_survives_iff blankShell onlyTrace ⟨3, .trace⟩ 0 answers₁ 1 _
    startedEvents _ 0x7000 (List.replicate 127 '\x00') (.assign 3) 0x1000 rfl rfl rfl rfl (by decide)
    trivial (padded_readable _)).mpr ⟨by decide, by decide⟩⟩

/-- `trace gmm assign 0x1000 -1` misses an argument. -/
theorem negative_policy_lost :
    ∃ trace actions, run System.step (install 1) startedEvents = .ok (trace, actions) ∧
      trace.recording = true ∧
      ¬ Delivered blankShell onlyTrace 0 answers₁ ⟨1, trace⟩ 0x7000 (List.replicate 127 '\x00')
        (.assign (-1)) 0x1000 := by
  refine ⟨_, _, rfl, rfl, ?_⟩
  rw [call_delivered_iff blankShell onlyTrace ⟨3, .trace⟩ 0 answers₁ _ 0x7000
    (List.replicate 127 '\x00') (.assign (-1)) 0x1000 0 rfl rfl rfl rfl (by decide) trivial
    (padded_readable _)]
  decide

end Hypersh.Segments
