import Mathlib.Data.List.Basic
import Hypersh.Transduction
import Hypersh.Blocks
import Hypersh.Timeline
import Hypersh.Control
import Hypersh.Writers
import Hypersh.System
import Hypersh.Getopt
import Hypersh.Numerals
import Hypersh.Commands
import Hypersh.Dispatch
import Hypersh.Messages
import Hypersh.Quoting
import Hypersh.Reads

/-!
Guest messages. `hypersh_printf` sends its text as a command named `p`, and the host
prints it when the shell's rules can be applied to all of it.
-/
namespace Hypersh.Printing
open Getopt Numerals Control Commands Dispatch Messages Quoting Reads Transduction
variable {n : Nat}

def printfCommand (text : List Char) : List Char := "p ".toList ++ snprintf 126 text

/-- The 128 bytes of `pbuf`. -/
def hypershPrintf (text : List Char) : List Char :=
  printfCommand text ++ List.replicate (128 - (printfCommand text).length) '\x00'

/-- A shell parser that goes by the shell's rules: it returns words exactly when the
text has one and is balanced, and an ordinary first word is returned as it is. -/
structure ByRules (shell : ShellParser) : Prop where
  succeeds : ∀ text, (∃ name arguments, shell.parse text = some (name :: arguments)) ↔
    tokens .start [] text ≠ [] ∧ balanced text = true
  first : ∀ word rest name arguments, word ≠ [] → (∀ letter ∈ word, ordinary letter = true) →
    shell.parse (word ++ ' ' :: rest) = some (name :: arguments) → name = word

theorem command_length (text : List Char) : (printfCommand text).length ≤ 127 := by
  have cut : (text.take (126 - 1)).length ≤ 125 := List.length_take_le _ _
  have front : "p ".toList.length = 2 := rfl
  rw [printfCommand, snprintf, List.length_append, front]
  omega

theorem command_letters (text : List Char) (present : '\x00' ∉ text) :
    '\x00' ∉ printfCommand text := by
  intro member
  rcases List.mem_append.mp member with front | cut
  · exact absurd front (by decide)
  · exact present (List.mem_of_mem_take cut)

theorem buffer_command (memory : Memory) (address : UInt64) (text : List Char)
    (present : '\x00' ∉ text) (stored : Stored memory address (hypershPrintf text)) :
    Mapped memory address 127 ∧ Holds memory address (printfCommand text) := by
  have short := command_length text
  obtain ⟨room, size⟩ := Nat.exists_eq_add_of_le' (show 1 ≤ 128 - (printfCommand text).length by omega)
  constructor
  · apply mapped_mono memory address 127 _ _ (stored_mapped memory address _ stored)
    rw [hypershPrintf, List.length_append, List.length_replicate]
    omega
  · rw [hypershPrintf, size, List.replicate_succ] at stored
    exact stored_holds memory address _ _ (command_letters text present) stored

theorem name_ordinary : ∀ letter ∈ "p".toList, ordinary letter = true := by
  intro letter member
  obtain rfl := List.mem_singleton.mp member
  decide

theorem command_named (text : List Char) : tokens .start [] (printfCommand text) ≠ [] := by
  have first := tokens_first "p".toList (snprintf 126 text) (by decide) name_ordinary ' ' rfl
  rw [show printfCommand text = "p".toList ++ ' ' :: snprintf 126 text from rfl, first]
  exact List.cons_ne_nil _ _

theorem command_dispatched (shell : ShellParser) (rules : ByRules shell)
    (findId : Word → Option Loaded) (vcpu : Fin n) (answers : Answers n) (host : Host n)
    (text : List Char) :
    dispatched shell findId vcpu answers (printfCommand text) host =
      .ok (host, if balanced (printfCommand text) then
        [.stdout (vcpuLine vcpu "" (printfCommand text))] else []) := by
  have succeeds := rules.succeeds (printfCommand text)
  unfold dispatched
  split
  · rename_i failed
    rw [if_neg fun fits => ?_]
    obtain ⟨name, arguments, parsed⟩ := succeeds.mpr ⟨command_named text, fits⟩
    rw [failed] at parsed
    contradiction
  · rename_i failed
    rw [if_neg fun fits => ?_]
    obtain ⟨name, arguments, parsed⟩ := succeeds.mpr ⟨command_named text, fits⟩
    rw [failed] at parsed
    exact List.cons_ne_nil _ _ (Option.some.inj parsed).symm
  · rename_i name arguments parsed
    have named := rules.first "p".toList (snprintf 126 text) name arguments (by decide)
      name_ordinary parsed
    rw [if_pos named, if_pos (succeeds.mp ⟨name, arguments, parsed⟩).2]

def printed (actions : List (HostAction n)) : List (List Char) :=
  actions.filterMap fun action =>
    match action with
    | .stdout text => some text
    | _ => none

def Printed (shell : ShellParser) (findId : Word → Option Loaded) (vcpu : Fin n)
    (answers : Answers n) (host : Host n) (call : Syscall) (text : List Char) : Prop :=
  ∃ next actions, vcpuSyscallCb shell findId vcpu answers call host = .ok (next, actions) ∧
    printed actions = [vcpuLine vcpu "" text]

/-- A guest message is printed exactly when its quotes and escapes are balanced after
the cut to 125 characters. -/
theorem message_printed_iff (shell : ShellParser) (rules : ByRules shell)
    (findId : Word → Option Loaded) (vcpu : Fin n) (answers : Answers n) (host : Host n)
    (memory : Memory) (a1 : UInt64) (text : List Char) (present : '\x00' ∉ text)
    (stored : Stored memory a1 (hypershPrintf text)) :
    Printed shell findId vcpu answers host (issue hypercallMagic a1 memory)
        ("p ".toList ++ text.take 125) ↔
      balanced ("p ".toList ++ text.take 125) = true := by
  obtain ⟨mapped, held⟩ := buffer_command memory a1 text present stored
  have done := issued_mapped shell findId vcpu answers a1 memory (printfCommand text) host mapped
    held (command_length text)
  rw [command_dispatched shell rules findId vcpu answers host text] at done
  rw [show "p ".toList ++ text.take 125 = printfCommand text from rfl]
  constructor
  · rintro ⟨next, actions, taken, line⟩
    rw [done] at taken
    cases taken
    by_contra open_
    rw [if_neg open_] at line
    contradiction
  · intro fits
    rw [if_pos fits] at done
    exact ⟨host, _, done, rfl⟩

/-! A parser that reads by the rules. -/

theorem plain_ordinary (letter : Char) (plain : plainLetter letter = true) :
    isBlank letter = true ∧ separates letter = true ∨
      isBlank letter = false ∧ ordinary letter = true := by
  simp only [plainLetter, Bool.and_eq_true, bne_iff_ne] at plain
  obtain ⟨⟨⟨⟨⟨-, double⟩, single⟩, escape⟩, comment⟩, line⟩ := plain
  have same : separates letter = isBlank letter := by
    simp [separates, isBlank, line]
  cases blank : isBlank letter with
  | true => exact .inl ⟨rfl, same.trans blank⟩
  | false => exact .inr ⟨rfl, by simp [ordinary, same.trans blank, double, single, escape, comment]⟩

def ruleShell : ShellParser where
  parse text :=
    if tokens .start [] text ≠ [] ∧ balanced text = true then some (tokens .start [] text) else none
  plain text plain := by
    have known := fun letter member => plain_ordinary letter (plain letter member)
    have whole : balanced text = true := plain_balanced text fun letter member =>
      (known letter member).imp And.right And.right
    have split : tokens .start [] text = words text := (tokens_split isBlank text known).1
    by_cases empty : words text = []
    · simp [split, empty]
    · simp [split, whole, empty]

theorem rule_shell_rules : ByRules ruleShell := by
  refine ⟨fun text => ?_, fun word rest name arguments present plain parsed => ?_⟩
  · constructor
    · rintro ⟨name, arguments, parsed⟩
      exact (Option.ite_none_right_eq_some.mp parsed).1
    · intro fits
      obtain ⟨name, arguments, found⟩ := List.exists_cons_of_ne_nil fits.1
      exact ⟨name, arguments, (if_pos fits).trans (congrArg some found)⟩
  · have found := (Option.ite_none_right_eq_some.mp parsed).2
    rw [tokens_first word rest present plain ' ' rfl] at found
    exact (List.cons.inj (Option.some.inj found)).1.symm

def messageMemory (text : List Char) : Memory := placed 0x7000 (hypershPrintf text)

theorem message_stored (text : List Char) :
    Stored (messageMemory text) 0x7000 (hypershPrintf text) := by
  apply placed_stored
  have short := command_length text
  have size : UInt64.size = 2 ^ 64 := rfl
  rw [hypershPrintf, List.length_append, List.length_replicate]
  omega

theorem quoted_message_printed :
    Printed ruleShell onlyTrace 0 answers₁ ⟨1, install 1⟩
      (issue hypercallMagic 0x7000 (messageMemory "it is 'done'\n".toList))
      "p it is 'done'\n".toList :=
  (message_printed_iff ruleShell rule_shell_rules onlyTrace 0 answers₁ ⟨1, install 1⟩
    (messageMemory "it is 'done'\n".toList) 0x7000 "it is 'done'\n".toList (by decide)
    (message_stored _)).mpr (by decide)

/-- An apostrophe loses the message. -/
theorem apostrophe_unprinted :
    '\x00' ∉ "it's done\n".toList ∧
    Stored (messageMemory "it's done\n".toList) 0x7000 (hypershPrintf "it's done\n".toList) ∧
    ¬ Printed ruleShell onlyTrace 0 answers₁ ⟨1, install 1⟩
      (issue hypercallMagic 0x7000 (messageMemory "it's done\n".toList))
      "p it's done\n".toList := by
  have stored := message_stored "it's done\n".toList
  refine ⟨by decide, stored, ?_⟩
  obtain ⟨mapped, held⟩ := buffer_command _ _ _ (by decide) stored
  have done := issued_mapped ruleShell onlyTrace 0 answers₁ 0x7000 _ _ ⟨1, install 1⟩ mapped held
    (command_length _)
  rw [command_dispatched ruleShell rule_shell_rules, if_neg (by decide)] at done
  rintro ⟨next, actions, taken, line⟩
  rw [done] at taken
  cases taken
  exact List.cons_ne_nil _ _ line.symm

end Hypersh.Printing
