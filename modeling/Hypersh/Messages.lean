import Mathlib.Data.List.Basic
import Hypersh.Transduction
import Hypersh.Callbacks
import Hypersh.Blocks
import Hypersh.Timeline
import Hypersh.Control
import Hypersh.Writers
import Hypersh.System
import Hypersh.Getopt
import Hypersh.Numerals
import Hypersh.Commands
import Hypersh.Dispatch

/-!
User messages on their way from the guest to a writer. The command buffer, the
signed `strtol` and a position left by another plugin are what can change them.
-/
namespace Hypersh.Messages
open Getopt Numerals Callbacks Control Commands Dispatch Transduction
variable {n : Nat}

/-! Words of plain text. -/

def solid (word : Word) : Bool := word.all fun letter => !isBlank letter

theorem solid_letters (word : Word) (whole : solid word = true) :
    ∀ letter ∈ word, isBlank letter = false := by
  intro letter member
  have kept := List.all_eq_true.mp whole letter member
  rwa [Bool.not_eq_true'] at kept

theorem words_last (word : Word) (present : word ≠ []) (whole : solid word = true) :
    words word = [word] := by
  rw [words, List.splitOnP_eq_singleton (solid_letters word whole)]
  simp [present]

theorem words_next (word : Word) (rest : List Char) (present : word ≠ [])
    (whole : solid word = true) : words (word ++ ' ' :: rest) = word :: words rest := by
  rw [words, List.splitOnP_append_cons_of_forall_mem (solid_letters word whole) ' ' rfl]
  simp [present, words]

structure Argument (word : Word) : Prop where
  present : word ≠ []
  letters : ∀ letter ∈ word, isBlank letter = false ∧ plainLetter letter = true

theorem Argument.solid {word : Word} (argument : Argument word) : solid word = true := by
  apply List.all_eq_true.mpr
  intro letter member
  rw [(argument.letters letter member).1]
  rfl

theorem letters_argument (word : Word) (present : word ≠ [])
    (known : (word.all fun letter => !isBlank letter && plainLetter letter) = true) :
    Argument word := by
  refine ⟨present, ?_⟩
  intro letter member
  have kept := List.all_eq_true.mp known letter member
  rwa [Bool.and_eq_true, Bool.not_eq_true'] at kept

def numeric (word : Word) : Bool := word.head?.any ("0123456789(".toList.contains ·)

theorem numeric_operand (word : Word) (number : numeric word = true) : operand word = true := by
  unfold operand
  split
  · contradiction
  · rfl

/-! The letters of a pointer. -/

def pointerLetters : List Char := "0123456789abcdefx(nil)".toList

theorem hexadecimal_letters (value : UInt64) :
    ∀ letter ∈ hexadecimal value, letter ∈ pointerLetters := by
  have digits : ∀ digit : Fin 16, Nat.digitChar digit ∈ pointerLetters := by decide
  intro letter member
  obtain rfl | member := List.mem_cons.mp member
  · decide
  · obtain rfl | member := List.mem_cons.mp member
    · decide
    · obtain ⟨digit, low, rfl⟩ := toDigits_letter 16 value.toNat (by decide) letter member
      exact digits ⟨digit, low⟩

theorem pointer_letters (value : UInt64) :
    ∀ letter ∈ pointer value, letter ∈ pointerLetters := by
  have null : "(nil)".toList.all (pointerLetters.contains ·) = true := by decide
  unfold pointer
  split
  · intro letter member
    exact List.contains_iff_mem.mp (List.all_eq_true.mp null letter member)
  · exact hexadecimal_letters value

/-- What is left of a pointer after cutting is still a word of its own. -/
structure Operand (word : Word) : Prop where
  first : ∃ rest, word = '0' :: rest ∨ word = '(' :: rest
  letters : ∀ letter ∈ word, letter ∈ pointerLetters

theorem pointer_operand (value : UInt64) (kept : Nat) (some_ : 1 ≤ kept) :
    Operand ((pointer value).take kept) := by
  rcases Nat.exists_eq_add_of_le' some_ with ⟨more, rfl⟩
  constructor
  · unfold pointer
    split
    · exact ⟨_, Or.inr rfl⟩
    · exact ⟨_, Or.inl rfl⟩
  · exact fun letter member => pointer_letters value letter (List.mem_of_mem_take member)

theorem operand_argument (word : Word) (argument : Operand word) : Argument word := by
  have known : pointerLetters.all (fun letter => !isBlank letter && plainLetter letter) = true := by
    decide
  constructor
  · rcases argument.first with ⟨rest, rfl | rfl⟩
    · exact List.cons_ne_nil _ _
    · exact List.cons_ne_nil _ _
  · intro letter member
    have kept := List.all_eq_true.mp known letter (argument.letters letter member)
    rwa [Bool.and_eq_true, Bool.not_eq_true'] at kept

theorem operand_numeric (word : Word) (argument : Operand word) : numeric word = true := by
  rcases argument.first with ⟨rest, rfl | rfl⟩
  · rfl
  · rfl

def traceSubcommands : List Word :=
  ["start".toList, "mode".toList, "stop".toList, "reset".toList, "gmm".toList, "magic".toList]

theorem unknown_subcommand (dir : Option Word) (word : Word) (rest : List Word)
    (unknown : word ∉ traceSubcommands) :
    traceSubcommand dir (word :: rest) = .traceUnknown := by
  have apart : ∀ name ∈ traceSubcommands, word ≠ name := fun name known same =>
    unknown (same ▸ known)
  unfold traceSubcommand
  dsimp only
  rw [if_neg (apart "start".toList (by decide)),
    if_neg (apart "mode".toList (by decide)), if_neg (apart "stop".toList (by decide)),
    if_neg (apart "reset".toList (by decide)), if_neg (apart "gmm".toList (by decide)),
    if_neg (apart "magic".toList (by decide))]

theorem numeric_no_subcommand (word : Word) (number : numeric word = true) :
    word ∉ traceSubcommands := by
  have apart : ∀ name ∈ traceSubcommands, numeric name = false := by decide
  intro known
  rw [apart word known] at number
  contradiction

/-! The text of a `gmm` command. -/

def gmmText (cmd first second : Word) : List Char :=
  "trace".toList ++ ' ' :: ("gmm".toList ++ ' ' :: (cmd ++ ' ' :: (first ++ ' ' :: second)))

theorem gmm_text_spaced (cmd first second : Word) :
    gmmText cmd first second = "trace gmm ".toList ++ cmd ++ ' ' :: first ++ ' ' :: second := by
  have fixed : "trace gmm ".toList = "trace".toList ++ ' ' :: ("gmm".toList ++ [' ']) := rfl
  unfold gmmText
  rw [fixed]
  simp only [List.append_assoc, List.cons_append, List.nil_append]

theorem gmm_text_length (cmd first second : Word) :
    (gmmText cmd first second).length = 12 + (cmd.length + first.length + second.length) := by
  rw [gmm_text_spaced, List.length_append, List.length_append, List.length_append,
    List.length_cons, List.length_cons, show "trace gmm ".toList.length = 10 from rfl]
  omega

theorem gmm_command_text (cmd first second : Word) (front : cmd.length + first.length ≤ 37) :
    snprintf 50 ("trace gmm ".toList ++ cmd ++ ' ' :: first ++ ' ' :: second) =
      gmmText cmd first (second.take (37 - (cmd.length + first.length))) := by
  have fixed : ("trace gmm ".toList ++ cmd ++ ' ' :: first).length =
      11 + (cmd.length + first.length) := by
    rw [List.length_append, List.length_append, List.length_cons,
      show "trace gmm ".toList.length = 10 from rfl]
    omega
  have room : 49 - ("trace gmm ".toList ++ cmd ++ ' ' :: first).length =
      (37 - (cmd.length + first.length)) + 1 := by
    omega
  rw [snprintf, show 50 - 1 = 49 from rfl, List.take_append,
    List.take_of_length_le (by omega), room, List.take_succ_cons, gmm_text_spaced]

theorem gmm_text_words (cmd first second : Word) (command : Argument cmd)
    (firstArgument : Argument first) (secondArgument : Argument second) :
    words (gmmText cmd first second) = ["trace".toList, "gmm".toList, cmd, first, second] := by
  unfold gmmText
  rw [words_next _ _ (by decide) (by decide), words_next _ _ (by decide) (by decide),
    words_next _ _ command.present command.solid,
    words_next _ _ firstArgument.present firstArgument.solid,
    words_last _ secondArgument.present secondArgument.solid]

theorem gmm_text_plain (cmd first second : Word) (command : Argument cmd)
    (firstArgument : Argument first) (secondArgument : Argument second) :
    ∀ letter ∈ gmmText cmd first second, plainLetter letter = true := by
  have known : "trace gmm ".toList.all plainLetter = true := by decide
  intro letter member
  rw [gmm_text_spaced] at member
  rcases List.mem_append.mp member with front | back
  · rcases List.mem_append.mp front with front | middle
    · rcases List.mem_append.mp front with fixed | name
      · exact List.all_eq_true.mp known letter fixed
      · exact (command.letters letter name).2
    · rcases List.mem_cons.mp middle with rfl | argument
      · rfl
      · exact (firstArgument.letters letter argument).2
  · rcases List.mem_cons.mp back with rfl | argument
    · rfl
    · exact (secondArgument.letters letter argument).2

/-! The command text. -/

def messageText (first second : Word) : List Char := gmmText "message".toList first second

/-- The buffer always holds the first pointer and cuts the second. -/
theorem message_command_text (payload1 payload2 : UInt64) :
    messageCommand payload1 payload2 =
      messageText (pointer payload1) ((pointer payload2).take (30 - (pointer payload1).length)) := by
  have short := pointer_length payload1
  have room : 37 - ("message".toList.length + (pointer payload1).length) =
      30 - (pointer payload1).length := by
    rw [show "message".toList.length = 7 from rfl]
    omega
  have cut := gmm_command_text "message".toList (pointer payload1) (pointer payload2)
    (by rw [show "message".toList.length = 7 from rfl]; omega)
  rwa [room] at cut

theorem message_argument : Argument "message".toList :=
  letters_argument _ (List.cons_ne_nil _ _) rfl

theorem message_text_words (first second : Word) (firstOperand : Operand first)
    (secondOperand : Operand second) :
    words (messageText first second) =
      ["trace".toList, "gmm".toList, "message".toList, first, second] :=
  gmm_text_words _ first second message_argument (operand_argument first firstOperand)
    (operand_argument second secondOperand)

theorem message_text_plain (first second : Word) (firstOperand : Operand first)
    (secondOperand : Operand second) :
    ∀ letter ∈ messageText first second, plainLetter letter = true :=
  gmm_text_plain _ first second message_argument (operand_argument first firstOperand)
    (operand_argument second secondOperand)

/-! The host reads the text and hands its words on. -/

theorem text_read (cmd beyond : List Char) (short : cmd.length < 127)
    (readable : 127 ≤ (cmd ++ '\x00' :: beyond).length)
    (plain : ∀ letter ∈ cmd, plainLetter letter = true) :
    (virtMemRw (cmd ++ '\x00' :: beyond) 127).map cString = some cmd := by
  have nonzero : ∀ letter ∈ cmd, (letter != '\x00') = true := by
    intro letter member
    have kept := plain letter member
    simp only [plainLetter, Bool.and_eq_true] at kept
    exact kept.1.1.1.1.1
  rcases Nat.exists_eq_add_of_lt short with ⟨more, room⟩
  rw [virtMemRw, if_pos readable, Option.map_some, List.take_append,
    List.take_of_length_le (Nat.le_of_lt short), show 127 - cmd.length = more + 1 by omega,
    List.take_succ_cons, cString, List.takeWhile_append_of_pos nonzero]
  simp

theorem command_forwarded (shell : ShellParser) (findId : Word → Option Loaded) (vcpu : Fin n)
    (answers : Answers n) (host : Host n) (cmd beyond : List Char) (a1 : UInt64) (name : Word)
    (arguments : List Word) (short : cmd.length < 127)
    (readable : 127 ≤ (cmd ++ '\x00' :: beyond).length)
    (plain : ∀ letter ∈ cmd, plainLetter letter = true) (split : words cmd = name :: arguments)
    (printed : name ≠ "p".toList) :
    vcpuSyscallCb shell findId vcpu answers (hypershExec cmd a1 beyond) host =
      (forward findId vcpu answers name arguments host).map fun forwarded =>
        (forwarded.1, .stdout (vcpuLine vcpu "guest> " (cmd ++ ['\n'])) :: forwarded.2) := by
  have read := text_read cmd beyond short readable plain
  rcases Option.map_eq_some_iff.mp read with ⟨bytes, whole, text⟩
  have parsed : shell.parse cmd = some (name :: arguments) := by
    rw [shell.plain cmd plain, split]
    rfl
  unfold vcpuSyscallCb hypershExec
  rw [if_neg (fun differs => differs rfl)]
  dsimp only
  rw [whole]
  dsimp only
  rw [text, parsed]
  exact if_neg printed

/-- What trace makes of the five words, by the position its scan starts at. -/
def gmmExecuted (cmd first second : Word) (optind : Nat) : Executed :=
  if optind ≤ 1 then .trace (.gmm (String.ofList cmd) (number first) (number second))
  else if optind ≤ 4 then .traceUnknown
  else .trace (.start none)

theorem gmm_subcommand (cmd first second : Word) (unknown : cmd ∉ traceSubcommands)
    (firstNumeric : numeric first = true) (secondNumeric : numeric second = true)
    (optind : Nat) :
    traceSubcommand none (["trace".toList, "gmm".toList, cmd, first, second].drop
      (firstIndex optind)) = gmmExecuted cmd first second optind := by
  -- The word the position falls on is taken for the sub-command.
  match optind with
  | 0 => rfl
  | 1 => rfl
  | 2 => exact unknown_subcommand none _ _ unknown
  | 3 => exact unknown_subcommand none _ _ (numeric_no_subcommand first firstNumeric)
  | 4 => exact unknown_subcommand none _ _ (numeric_no_subcommand second secondNumeric)
  | more + 5 =>
      have past : ["trace".toList, "gmm".toList, cmd, first, second].drop
          (firstIndex (more + 5)) = [] := List.drop_eq_nil_of_le (Nat.le_add_left 5 more)
      rw [past]
      rfl

theorem trace_controlled (argv : List Word) (optind : Nat) (name : argv.head? = some "trace".toList)
    (plain : ∀ word ∈ argv, operand word = true) :
    qemuPluginControl .trace argv optind =
      (⟨traceSubcommand none (argv.drop (firstIndex optind)), 0, [],
        traceStderr (traceSubcommand none (argv.drop (firstIndex optind)))⟩, 0) := by
  have present : argv ≠ [] := by
    rintro rfl
    contradiction
  have scanned := getopt_operands "d:".toList argv optind present plain
  show traceControl argv optind = _
  unfold traceControl
  rw [if_neg (fun differs => differs name), scanned]
  rfl

theorem gmm_controlled (cmd first second : Word) (command : operand cmd = true)
    (unknown : cmd ∉ traceSubcommands) (firstNumeric : numeric first = true)
    (secondNumeric : numeric second = true) (optind : Nat) :
    qemuPluginControl .trace ["trace".toList, "gmm".toList, cmd, first, second] optind =
      (⟨gmmExecuted cmd first second optind, 0, [],
        traceStderr (gmmExecuted cmd first second optind)⟩, 0) := by
  have plain : ∀ word ∈ ["trace".toList, "gmm".toList, cmd, first, second],
      operand word = true := by
    simp only [List.forall_mem_cons]
    exact ⟨rfl, rfl, command, numeric_operand first firstNumeric,
      numeric_operand second secondNumeric, fun _ absent => absurd absent List.not_mem_nil⟩
  rw [trace_controlled _ optind rfl plain,
    gmm_subcommand cmd first second unknown firstNumeric secondNumeric optind]

/-- What trace makes of the five words of a message. -/
def messageExecuted (first second : Word) (optind : Nat) : Executed :=
  gmmExecuted "message".toList first second optind

theorem message_controlled (first second : Word) (firstOperand : Operand first)
    (secondOperand : Operand second) (optind : Nat) :
    qemuPluginControl .trace
        ["trace".toList, "gmm".toList, "message".toList, first, second] optind =
      (⟨messageExecuted first second optind, 0, [],
        traceStderr (messageExecuted first second optind)⟩, 0) :=
  gmm_controlled "message".toList first second rfl (by decide)
    (operand_numeric first firstOperand) (operand_numeric second secondOperand) optind

/-- The whole way of a text that trace's control function accepts. -/
theorem trace_dispatched (shell : ShellParser) (findId : Word → Option Loaded)
    (loaded : Loaded) (vcpu : Fin n) (answers : Answers n) (host : Host n) (a1 : UInt64)
    (cmd beyond : List Char) (arguments : List Word)
    (sent : (Host n × List (HostAction n)) × Int) (short : cmd.length < 127)
    (readable : 127 ≤ (cmd ++ '\x00' :: beyond).length)
    (plain : ∀ letter ∈ cmd, plainLetter letter = true)
    (split : words cmd = "trace".toList :: arguments)
    (tracing : findId "/libtrace.so".toList = some loaded) (trace : loaded.plugin = .trace)
    (done : sendControl .trace vcpu answers ("trace".toList :: arguments) host = .ok sent)
    (accepted : sent.2 = 0) :
    vcpuSyscallCb shell findId vcpu answers (hypershExec cmd a1 beyond) host =
      .ok (sent.1.1, .stdout (vcpuLine vcpu "guest> " (cmd ++ ['\n'])) :: sent.1.2) := by
  rw [command_forwarded shell findId vcpu answers host cmd beyond a1 "trace".toList arguments short
    readable plain split (by decide)]
  unfold forward
  rw [if_neg (by decide), show "/lib".toList ++ "trace".toList ++ ".so".toList =
    "/libtrace.so".toList from rfl, tracing]
  dsimp only
  rw [trace, done]
  dsimp only [Except.map]
  rw [accepted, if_neg (by decide), List.append_nil]

/-! What is sent. -/

def sentMessages (actions : List (HostAction n)) : List (UInt64 × UInt64) :=
  actions.filterMap fun action =>
    match action with
    | .trace (.call _ _ (.sendGMMUserMessage _ payload1 payload2)) => some (payload1, payload2)
    | _ => none

/-- A recording in detailed mode with a writer for the vcpu. -/
structure Recording (trace : Trace n) (vcpu : Fin n) : Prop where
  recording : trace.recording = true
  detailed : trace.globals.currentMode = .detailed
  writer : ∃ writer, trace.output vcpu = some writer

theorem gmm_message_sent (vcpu : Fin n) (segment arg1 : UInt64) (trace : Trace n)
    (active : Recording trace vcpu) :
    ∃ writer, recorderGmm vcpu "message" segment arg1 trace =
      .ok (trace, [.call vcpu writer (.sendGMMUserMessage 10 segment arg1)]) := by
  rcases active.writer with ⟨writer, present⟩
  refine ⟨writer, ?_⟩
  simp [recorderGmm, active.detailed, callOutput, present, Except.map]

theorem message_performed (vcpu : Fin n) (answers : Answers n) (first second : Word)
    (firstOperand : Operand first) (secondOperand : Operand second) (host : Host n)
    (active : Recording host.trace vcpu) :
    ∃ sent, sendControl .trace vcpu answers
        ["trace".toList, "gmm".toList, "message".toList, first, second] host = .ok sent ∧
      sent.2 = 0 ∧ sentMessages sent.1.2 =
        if host.optind ≤ 1 then [(number first, number second)] else [] := by
  unfold sendControl
  rw [message_controlled first second firstOperand secondOperand]
  by_cases fresh : host.optind ≤ 1
  · rcases gmm_message_sent vcpu (number first) (number second) host.trace active with
      ⟨writer, done⟩
    simp only [messageExecuted, gmmExecuted, String.ofList_toList, if_pos fresh, perform, done,
      Except.map]
    exact ⟨_, rfl, rfl, rfl⟩
  · by_cases within : host.optind ≤ 4
    · simp only [messageExecuted, gmmExecuted, if_neg fresh, if_pos within]
      exact ⟨_, rfl, rfl, rfl⟩
    · -- The words are used up, and what is left is a start.
      have refused : recorderStart none answers host.trace =
          .ok (host.trace, [.error "already recording."]) := if_pos active.recording
      simp only [messageExecuted, gmmExecuted, if_neg fresh, if_neg within, perform, refused, Except.map]
      exact ⟨_, rfl, rfl, rfl⟩

theorem operands_short (first second : Word) (total : first.length + second.length ≤ 107) :
    (messageText first second).length < 127 := by
  have text := gmm_text_length "message".toList first second
  have name : "message".toList.length = 7 := rfl
  show (gmmText "message".toList first second).length < 127
  omega

/-- The whole way: the message command sends one message with what `strtol` makes
of its two words, or none when a position was left behind. -/
theorem message_dispatched (shell : ShellParser) (findId : Word → Option Loaded)
    (loaded : Loaded) (vcpu : Fin n) (answers : Answers n) (host : Host n) (a1 : UInt64)
    (beyond : List Char) (first second : Word) (firstOperand : Operand first)
    (secondOperand : Operand second) (active : Recording host.trace vcpu)
    (tracing : findId "/libtrace.so".toList = some loaded) (trace : loaded.plugin = .trace)
    (short : first.length + second.length ≤ 107)
    (readable : 127 ≤ (messageText first second ++ '\x00' :: beyond).length) :
    ∃ next actions, vcpuSyscallCb shell findId vcpu answers
        (hypershExec (messageText first second) a1 beyond) host = .ok (next, actions) ∧
      sentMessages actions =
        if host.optind ≤ 1 then [(number first, number second)] else [] := by
  rcases message_performed vcpu answers first second firstOperand secondOperand host active with
    ⟨sent, done, accepted, messages⟩
  have whole := trace_dispatched shell findId loaded vcpu answers host a1 (messageText first second)
    beyond _ sent (operands_short first second short) readable
    (message_text_plain first second firstOperand secondOperand)
    (message_text_words first second firstOperand secondOperand) tracing trace done accepted
  exact ⟨_, _, whole, messages⟩

/-! The payloads. -/

/-- Both pointers are below the largest `long` and their texts fit the buffer. -/
structure Fits (payload1 payload2 : UInt64) : Prop where
  first : payload1.toNat < 2 ^ 63
  second : payload2.toNat < 2 ^ 63
  length : (pointer payload1).length + (pointer payload2).length ≤ 30

theorem nil_length (value : UInt64) (zero : value = 0) : (pointer value).length = 5 := by
  rw [zero]
  rfl

theorem second_survives_iff (payload1 payload2 : UInt64) :
    number ((pointer payload2).take (30 - (pointer payload1).length)) = payload2 ↔
      payload2.toNat < 2 ^ 63 ∧ (pointer payload1).length + (pointer payload2).length ≤ 30 := by
  have short := pointer_length payload1
  by_cases room : (pointer payload2).length ≤ 30 - (pointer payload1).length
  · rw [List.take_of_length_le room]
    constructor
    · intro same
      exact ⟨(pointer_survives_iff payload2).mp same, by omega⟩
    · intro fits
      exact (pointer_survives_iff payload2).mpr fits.1
  · -- Only digits of a pointer that is not null can be lost.
    have present : payload2 ≠ 0 := by
      intro zero
      have nil := nil_length payload2 zero
      omega
    constructor
    · intro same
      exact absurd same (pointer_cut payload2 _ (by omega) present (by omega))
    · intro fits
      omega

theorem payloads_survive_iff (payload1 payload2 : UInt64) :
    number (pointer payload1) = payload1 ∧
        number ((pointer payload2).take (30 - (pointer payload1).length)) = payload2 ↔
      Fits payload1 payload2 := by
  rw [second_survives_iff, number, pointer_survives_iff]
  constructor
  · rintro ⟨first, second, length⟩
    exact ⟨first, second, length⟩
  · rintro ⟨first, second, length⟩
    exact ⟨first, second, length⟩

def Delivered (shell : ShellParser) (findId : Word → Option Loaded) (vcpu : Fin n)
    (answers : Answers n) (host : Host n) (call : Syscall) (payload1 payload2 : UInt64) : Prop :=
  ∃ next actions, vcpuSyscallCb shell findId vcpu answers call host = .ok (next, actions) ∧
    sentMessages actions = [(payload1, payload2)]

theorem message_delivered_iff (shell : ShellParser) (findId : Word → Option Loaded)
    (loaded : Loaded) (vcpu : Fin n) (answers : Answers n) (host : Host n) (a1 : UInt64)
    (beyond : List Char) (payload1 payload2 : UInt64) (active : Recording host.trace vcpu)
    (tracing : findId "/libtrace.so".toList = some loaded) (trace : loaded.plugin = .trace)
    (readable : 127 ≤ (messageCommand payload1 payload2 ++ '\x00' :: beyond).length) :
    Delivered shell findId vcpu answers host
        (hypershExec (messageCommand payload1 payload2) a1 beyond) payload1 payload2 ↔
      host.optind ≤ 1 ∧ Fits payload1 payload2 := by
  have short := pointer_length payload1
  have firstOperand : Operand (pointer payload1) := by
    have whole := pointer_operand payload1 18 (by decide)
    rwa [List.take_of_length_le short] at whole
  have secondOperand := pointer_operand payload2 (30 - (pointer payload1).length) (by omega)
  have cut : ((pointer payload2).take (30 - (pointer payload1).length)).length ≤ 30 :=
    Nat.le_trans (List.length_take_le _ _) (Nat.sub_le _ _)
  rw [message_command_text] at readable ⊢
  rcases message_dispatched shell findId loaded vcpu answers host a1 beyond _ _ firstOperand
    secondOperand active tracing trace (by omega) readable with ⟨next, actions, done, messages⟩
  have sent : Delivered shell findId vcpu answers host
      (hypershExec (messageText (pointer payload1)
        ((pointer payload2).take (30 - (pointer payload1).length))) a1 beyond)
      payload1 payload2 ↔ sentMessages actions = [(payload1, payload2)] := by
    constructor
    · rintro ⟨reached, seen, taken, one⟩
      rw [done] at taken
      cases taken
      exact one
    · intro one
      exact ⟨next, actions, done, one⟩
  rw [sent, messages, ← payloads_survive_iff]
  split
  · rename_i fresh
    simp [fresh]
  · rename_i moved
    simp [moved]

/-- While a recording is in detailed mode, `user_msg` and `user_msg_double` get both
payloads through, bit for bit, exactly when no position was left behind and the
payloads fit. -/
theorem user_message_survives_iff (shell : ShellParser) (findId : Word → Option Loaded)
    (loaded : Loaded) (vcpu : Fin n) (answers : Answers n) (optind : Nat) (trace : Trace n)
    (events : List (System.Event n)) (actions : List (Action n)) (a1 : UInt64)
    (beyond : List Char) (payload1 payload2 : UInt64)
    (reached : run System.step (install n) events = .ok (trace, actions))
    (recording : trace.recording = true) (detailed : trace.globals.currentMode = .detailed)
    (tracing : findId "/libtrace.so".toList = some loaded) (plugin : loaded.plugin = .trace)
    (readable : 127 ≤ (userMsg payload1 payload2 ++ '\x00' :: beyond).length) :
    (Delivered shell findId vcpu answers ⟨optind, trace⟩
        (hypershExec (userMsg payload1 payload2) a1 beyond) payload1 payload2 ↔
      optind ≤ 1 ∧ Fits payload1 payload2) ∧
    (Delivered shell findId vcpu answers ⟨optind, trace⟩
        (hypershExec (userMsgDouble payload1 ⟨payload2⟩) a1 beyond) payload1 payload2 ↔
      optind ≤ 1 ∧ Fits payload1 payload2) := by
  have owned := System.run_owned events trace actions reached
  have active : Recording trace vcpu :=
    ⟨recording, detailed, Option.isSome_iff_exists.mp (owned.open_ recording vcpu)⟩
  have delivered := message_delivered_iff shell findId loaded vcpu answers ⟨optind, trace⟩ a1
    beyond payload1 payload2 active tracing plugin readable
  exact ⟨delivered, delivered⟩

def blankShell : ShellParser where
  parse text := if words text = [] then none else some (words text)
  plain _ _ := rfl

def onlyTrace (soname : Word) : Option Loaded :=
  if soname = "/libtrace.so".toList then some ⟨3, .trace⟩ else none

def answers₁ : Answers 1 := ⟨0x3000, none, fun _ => true⟩

def detailedEvents : List (System.Event 1) :=
  [.control (.command vcpu₀ answers₁ (.start (some "d"))),
   .control (.command vcpu₀ answers₁ (.mode "detailed"))]

theorem detailed_reached :
    ∃ trace actions, run System.step (install 1) detailedEvents = .ok (trace, actions) ∧
      trace.recording = true ∧ trace.globals.currentMode = .detailed := by
  rcases map_ok (run System.step (install 1) detailedEvents)
    (fun result => (result.1.recording, result.1.globals.currentMode)) (true, .detailed) rfl with
    ⟨⟨trace, actions⟩, done, seen⟩
  exact ⟨trace, actions, done, congrArg Prod.fst seen, congrArg Prod.snd seen⟩

theorem padded_readable (cmd : List Char) :
    127 ≤ (cmd ++ '\x00' :: List.replicate 127 '\x00').length := by
  rw [List.length_append, List.length_cons, List.length_replicate]
  omega

theorem small_message_survives :
    ∃ trace actions, run System.step (install 1) detailedEvents = .ok (trace, actions) ∧
      ((Delivered blankShell onlyTrace 0 answers₁ ⟨1, trace⟩
          (hypershExec (userMsg 0x1000 64) 0x7000 (List.replicate 127 '\x00')) 0x1000 64 ↔
        1 ≤ 1 ∧ Fits 0x1000 64) ∧
      (Delivered blankShell onlyTrace 0 answers₁ ⟨1, trace⟩
          (hypershExec (userMsgDouble 0x1000 ⟨64⟩) 0x7000 (List.replicate 127 '\x00')) 0x1000 64 ↔
        1 ≤ 1 ∧ Fits 0x1000 64)) ∧ Fits 0x1000 64 := by
  rcases detailed_reached with ⟨trace, actions, done, recording, detailed⟩
  exact ⟨trace, actions, done,
    user_message_survives_iff blankShell onlyTrace ⟨3, .trace⟩ 0 answers₁ 1 trace detailedEvents
      actions 0x7000 (List.replicate 127 '\x00') 0x1000 64 done recording detailed rfl rfl
      (padded_readable _), ⟨by decide, by decide, by decide⟩⟩

/-- A stack address with the bits of 1.0: two digits of the double are cut off. -/
theorem double_cut :
    ∃ trace actions, run System.step (install 1) detailedEvents = .ok (trace, actions) ∧
      trace.recording = true ∧ trace.globals.currentMode = .detailed ∧
      ¬ Delivered blankShell onlyTrace 0 answers₁ ⟨1, trace⟩
        (hypershExec (userMsgDouble 0x7ffd12345678 ⟨0x3ff0000000000000⟩) 0x7000
          (List.replicate 127 '\x00')) 0x7ffd12345678 0x3ff0000000000000 := by
  rcases detailed_reached with ⟨trace, actions, done, recording, detailed⟩
  refine ⟨trace, actions, done, recording, detailed, ?_⟩
  have owned := System.run_owned detailedEvents trace actions done
  have active : Recording trace 0 :=
    ⟨recording, detailed, Option.isSome_iff_exists.mp (owned.open_ recording 0)⟩
  intro delivered
  have fits := (message_delivered_iff blankShell onlyTrace ⟨3, .trace⟩ 0 answers₁ ⟨1, trace⟩ 0x7000
    (List.replicate 127 '\x00') 0x7ffd12345678 0x3ff0000000000000 active rfl rfl
    (padded_readable _)).mp delivered
  have long : ¬ (pointer 0x7ffd12345678).length + (pointer 0x3ff0000000000000).length ≤ 30 := by
    decide
  exact long fits.2.length

end Hypersh.Messages
