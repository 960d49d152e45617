import Mathlib.Data.List.Basic
import Hypersh.Transduction
import Hypersh.Callbacks
import Hypersh.Blocks
import Hypersh.Timeline
import Hypersh.Control
import Hypersh.Writers
import Hypersh.System
import Hypersh.Getopt
import Hypersh.Numerals
import Hypersh.Commands
import Hypersh.Dispatch
import Hypersh.Messages

/-!
What the dispatcher reads of guest memory: always 127 bytes, of which it uses those
before the first NUL.
-/
namespace Hypersh.Reads
open Getopt Numerals Callbacks Control Commands Dispatch Messages Transduction
variable {n : Nat}

def Memory := UInt64 → Option Char

def readable (memory : Memory) (address : UInt64) : Nat → List Char
  | 0 => []
  | size + 1 =>
      match memory address with
      | none => []
      | some byte => byte :: readable memory (address + 1) size

/-- A system call made while the guest's memory is this. -/
def issue (num : Int) (a1 : UInt64) (memory : Memory) : Syscall :=
  ⟨num, a1, readable memory a1 UInt64.size⟩

def Mapped (memory : Memory) (address : UInt64) (size : Nat) : Prop :=
  ∀ offset < size, (memory (address + UInt64.ofNat offset)).isSome = true

def Stored (memory : Memory) (address : UInt64) (buffer : List Char) : Prop :=
  ∀ offset byte, buffer[offset]? = some byte →
    memory (address + UInt64.ofNat offset) = some byte

def Holds (memory : Memory) (address : UInt64) : List Char → Prop
  | [] => memory address = some '\x00'
  | letter :: rest =>
      letter ≠ '\x00' ∧ memory address = some letter ∧ Holds memory (address + 1) rest

instance Holds.decidable (memory : Memory) :
    (address : UInt64) → (cmd : List Char) → Decidable (Holds memory address cmd)
  | address, [] => inferInstanceAs (Decidable (memory address = some '\x00'))
  | address, letter :: rest =>
      have := Holds.decidable memory (address + 1) rest
      inferInstanceAs (Decidable
        (letter ≠ '\x00' ∧ memory address = some letter ∧ Holds memory (address + 1) rest))

theorem next_address (address : UInt64) (offset : Nat) :
    address + 1 + UInt64.ofNat offset = address + UInt64.ofNat (offset + 1) := by
  rw [UInt64.ofNat_add, UInt64.add_assoc, UInt64.add_comm (UInt64.ofNat offset)]
  rfl

theorem mapped_succ (memory : Memory) (address : UInt64) (size : Nat) :
    Mapped memory address (size + 1) ↔
      (memory address).isSome = true ∧ Mapped memory (address + 1) size := by
  constructor
  · intro mapped
    refine ⟨?_, fun offset below => ?_⟩
    · simpa using mapped 0 (Nat.succ_pos size)
    · rw [next_address]
      exact mapped (offset + 1) (Nat.succ_lt_succ below)
  · rintro ⟨first, rest⟩ offset below
    cases offset with
    | zero => simpa using first
    | succ offset =>
        rw [← next_address]
        exact rest offset (Nat.lt_of_succ_lt_succ below)

theorem stored_mapped (memory : Memory) (address : UInt64) (buffer : List Char)
    (stored : Stored memory address buffer) : Mapped memory address buffer.length := by
  intro offset below
  rw [stored offset buffer[offset] (List.getElem?_eq_getElem below)]
  rfl

theorem mapped_mono (memory : Memory) (address : UInt64) (size limit : Nat)
    (within : size ≤ limit) (mapped : Mapped memory address limit) : Mapped memory address size :=
  fun offset below => mapped offset (Nat.lt_of_lt_of_le below within)

theorem stored_head (memory : Memory) (address : UInt64) (first : Char) (rest : List Char)
    (stored : Stored memory address (first :: rest)) :
    memory address = some first ∧ Stored memory (address + 1) rest := by
  refine ⟨?_, fun offset byte found => ?_⟩
  · simpa using stored 0 first rfl
  · rw [next_address]
    exact stored (offset + 1) byte found

theorem stored_holds (memory : Memory) (address : UInt64) (cmd beyond : List Char)
    (present : '\x00' ∉ cmd) (stored : Stored memory address (cmd ++ '\x00' :: beyond)) :
    Holds memory address cmd := by
  induction cmd generalizing address with
  | nil => exact (stored_head memory address _ _ stored).1
  | cons letter rest ih =>
      obtain ⟨byte, later⟩ := stored_head memory address _ _ stored
      refine ⟨?_, byte, ih (address + 1) (fun member => present ?_) later⟩
      · rintro rfl
        exact present List.mem_cons_self
      · exact List.mem_cons_of_mem letter member

theorem readable_length (memory : Memory) (address : UInt64) (size limit : Nat)
    (within : size ≤ limit) :
    size ≤ (readable memory address limit).length ↔ Mapped memory address size := by
  induction size generalizing address limit with
  | zero => exact ⟨fun _ offset below => absurd below (Nat.not_lt_zero offset),
      fun _ => Nat.zero_le _⟩
  | succ size ih =>
      obtain ⟨limit, rfl⟩ := Nat.exists_eq_add_of_le' (Nat.lt_of_lt_of_le (Nat.succ_pos size) within)
      rw [mapped_succ, readable]
      cases memory address with
      | none => simp
      | some byte =>
          rw [List.length_cons, Nat.add_le_add_iff_right,
            ih (address + 1) limit (Nat.le_of_succ_le_succ within)]
          simp

/-- The emulator's law: a read fails exactly when some byte of it is not mapped. -/
theorem virt_mem_rw_fails_iff (memory : Memory) (address : UInt64) (size limit : Nat)
    (within : size ≤ limit) :
    virtMemRw (readable memory address limit) size = none ↔ ¬ Mapped memory address size := by
  rw [← readable_length memory address size limit within, virtMemRw]
  split
  · rename_i long
    simp [long]
  · rename_i short
    simp [short]

theorem c_string_held (memory : Memory) (address : UInt64) (cmd : List Char) (size limit : Nat)
    (held : Holds memory address cmd) (short : cmd.length ≤ size) (within : size ≤ limit) :
    cString ((readable memory address limit).take size) = cmd := by
  induction cmd generalizing address size limit with
  | nil =>
      cases size with
      | zero => rfl
      | succ size =>
          obtain ⟨limit, rfl⟩ :=
            Nat.exists_eq_add_of_le' (Nat.lt_of_lt_of_le (Nat.succ_pos size) within)
          have nul : memory address = some '\x00' := held
          rw [readable, nul]
          rfl
  | cons letter rest ih =>
      obtain ⟨present, byte, later⟩ := held
      obtain ⟨size, rfl⟩ := Nat.exists_eq_add_of_le' (Nat.lt_of_lt_of_le (Nat.succ_pos _) short)
      obtain ⟨limit, rfl⟩ :=
        Nat.exists_eq_add_of_le' (Nat.lt_of_lt_of_le (Nat.succ_pos size) within)
      have tail := ih (address + 1) size limit later (Nat.le_of_succ_le_succ short)
        (Nat.le_of_succ_le_succ within)
      rw [readable, byte]
      dsimp only
      rw [List.take_succ_cons, cString, List.takeWhile_cons, if_pos (bne_iff_ne.mpr present)]
      exact congrArg (letter :: ·) tail

/-! Dispatch of what was read. -/

/-- What the dispatcher does with a command once it has been read. -/
def dispatched (shell : ShellParser) (findId : Word → Option Loaded) (vcpu : Fin n)
    (answers : Answers n) (cmd : List Char) (host : Host n) :
    Except Fault (Host n × List (HostAction n)) :=
  match shell.parse cmd with
  | none => .ok (host, [])
  | some [] => .ok (host, [])
  | some (name :: arguments) =>
      if name = "p".toList then .ok (host, [.stdout (vcpuLine vcpu "" cmd)])
      else
        (forward findId vcpu answers name arguments host).map fun forwarded =>
          (forwarded.1, .stdout (vcpuLine vcpu "guest> " (cmd ++ ['\n'])) :: forwarded.2)

theorem uint64_room : 127 ≤ UInt64.size := by decide

theorem issued_other (shell : ShellParser) (findId : Word → Option Loaded) (vcpu : Fin n)
    (answers : Answers n) (num : Int) (a1 : UInt64) (memory : Memory) (host : Host n)
    (other : num ≠ hypercallMagic) :
    vcpuSyscallCb shell findId vcpu answers (issue num a1 memory) host = .ok (host, []) :=
  if_pos other

theorem issued_unmapped (shell : ShellParser) (findId : Word → Option Loaded) (vcpu : Fin n)
    (answers : Answers n) (a1 : UInt64) (memory : Memory) (host : Host n)
    (unmapped : ¬ Mapped memory a1 127) :
    vcpuSyscallCb shell findId vcpu answers (issue hypercallMagic a1 memory) host =
      .ok (host, [.stderr (readFailure a1)]) := by
  have failed := (virt_mem_rw_fails_iff memory a1 127 UInt64.size uint64_room).mpr unmapped
  rw [vcpuSyscallCb, if_neg (fun other => other rfl), issue, failed]

theorem issued_mapped (shell : ShellParser) (findId : Word → Option Loaded) (vcpu : Fin n)
    (answers : Answers n) (a1 : UInt64) (memory : Memory) (cmd : List Char) (host : Host n)
    (mapped : Mapped memory a1 127) (held : Holds memory a1 cmd) (short : cmd.length ≤ 127) :
    vcpuSyscallCb shell findId vcpu answers (issue hypercallMagic a1 memory) host =
      dispatched shell findId vcpu answers cmd host := by
  have long := (readable_length memory a1 127 UInt64.size uint64_room).mpr mapped
  have text := c_string_held memory a1 cmd 127 UInt64.size held short uint64_room
  rw [vcpuSyscallCb, if_neg (fun other => other rfl), issue, virtMemRw, if_pos long]
  dsimp only
  rw [text]
  rfl

theorem dispatched_read (shell : ShellParser) (findId : Word → Option Loaded) (vcpu : Fin n)
    (answers : Answers n) (cmd : List Char) (host : Host n) (text : List Char) :
    dispatched shell findId vcpu answers cmd host ≠ .ok (host, [.stderr text]) := by
  unfold dispatched
  split
  · simp
  · simp
  · rename_i name arguments _
    split
    · simp
    · cases forward findId vcpu answers name arguments host with
      | error fault => simp [Except.map]
      | ok forwarded => simp [Except.map]

/-- Two memories that hold the same command make the dispatcher act alike exactly when
the 127 bytes from its address on are mapped in both or in neither. -/
theorem same_command_same_action_iff (shell : ShellParser) (findId : Word → Option Loaded)
    (vcpu : Fin n) (answers : Answers n) (host : Host n) (num : Int) (a1 : UInt64)
    (first second : Memory) (cmd : List Char) (short : cmd.length ≤ 127)
    (here : Holds first a1 cmd) (there : Holds second a1 cmd) :
    vcpuSyscallCb shell findId vcpu answers (issue num a1 first) host =
        vcpuSyscallCb shell findId vcpu answers (issue num a1 second) host ↔
      (num = hypercallMagic → (Mapped first a1 127 ↔ Mapped second a1 127)) := by
  by_cases hyper : num = hypercallMagic
  · obtain rfl := hyper
    have unread := dispatched_read shell findId vcpu answers cmd host (readFailure a1)
    by_cases whole : Mapped first a1 127
    · rw [issued_mapped shell findId vcpu answers a1 first cmd host whole here short]
      by_cases other : Mapped second a1 127
      · rw [issued_mapped shell findId vcpu answers a1 second cmd host other there short]
        simp [whole, other]
      · rw [issued_unmapped shell findId vcpu answers a1 second host other]
        simp [whole, other, unread]
    · rw [issued_unmapped shell findId vcpu answers a1 first host whole]
      by_cases other : Mapped second a1 127
      · rw [issued_mapped shell findId vcpu answers a1 second cmd host other there short]
        simp [whole, other, unread.symm]
      · rw [issued_unmapped shell findId vcpu answers a1 second host other]
        simp [whole, other]
  · rw [issued_other shell findId vcpu answers num a1 first host hyper,
      issued_other shell findId vcpu answers num a1 second host hyper]
    simp [hyper]

def placed (address : UInt64) (bytes : List Char) : Memory :=
  fun other => bytes[(other - address).toNat]?

theorem placed_at (address : UInt64) (bytes : List Char) (offset : Nat)
    (below : offset < UInt64.size) :
    placed address bytes (address + UInt64.ofNat offset) = bytes[offset]? := by
  rw [placed, UInt64.add_comm, UInt64.add_sub_cancel, UInt64.toNat_ofNat_of_lt' below]

theorem placed_stored (address : UInt64) (bytes : List Char) (below : bytes.length ≤ UInt64.size) :
    Stored (placed address bytes) address bytes := by
  intro offset byte found
  have inside : offset < bytes.length := (List.getElem?_eq_some_iff.mp found).1
  rw [placed_at address bytes offset (Nat.lt_of_lt_of_le inside below), found]

theorem placed_mapped_iff (address : UInt64) (bytes : List Char) (size : Nat)
    (below : size ≤ UInt64.size) :
    Mapped (placed address bytes) address size ↔ size ≤ bytes.length := by
  have here : ∀ offset < size,
      ((placed address bytes (address + UInt64.ofNat offset)).isSome = true ↔
        offset < bytes.length) := by
    intro offset inside
    rw [placed_at address bytes offset (Nat.lt_of_lt_of_le inside below)]
    simp
  constructor
  · intro mapped
    by_contra longer
    have last : bytes.length < size := Nat.lt_of_not_le longer
    exact Nat.lt_irrefl _ ((here bytes.length last).mp (mapped bytes.length last))
  · intro long offset inside
    exact (here offset inside).mpr (Nat.lt_of_lt_of_le inside long)

def message (beyond : List Char) : Memory :=
  placed 0x1ff7 ("p hello\n\x00".toList ++ beyond)

theorem message_mapped_iff (beyond : List Char) :
    Mapped (message beyond) 0x1ff7 127 ↔ 118 ≤ beyond.length := by
  have front : "p hello\n\x00".toList.length = 9 := rfl
  rw [message, placed_mapped_iff 0x1ff7 _ 127 uint64_room, List.length_append, front]
  omega

theorem messages_alike :
    vcpuSyscallCb blankShell onlyTrace 0 answers₁
        (issue 712 0x1ff7 (message (List.replicate 118 'x'))) ⟨1, install 1⟩ =
      vcpuSyscallCb blankShell onlyTrace 0 answers₁
        (issue 712 0x1ff7 (message (List.replicate 200 'y'))) ⟨1, install 1⟩ := by
  have first : Mapped (message (List.replicate 118 'x')) 0x1ff7 127 := by
    rw [message_mapped_iff, List.length_replicate]
  have second : Mapped (message (List.replicate 200 'y')) 0x1ff7 127 := by
    rw [message_mapped_iff, List.length_replicate]
    decide
  exact (same_command_same_action_iff blankShell onlyTrace 0 answers₁ ⟨1, install 1⟩ 712 0x1ff7 _ _
    "p hello\n".toList (by decide) (by decide) (by decide)).mpr fun _ => iff_of_true first second

/-- A message in the last bytes of what is mapped is not printed, with more bytes
behind it it is. -/
theorem page_end_unread :
    Holds (message []) 0x1ff7 "p hello\n".toList ∧
    Holds (message (List.replicate 118 'x')) 0x1ff7 "p hello\n".toList ∧
    vcpuSyscallCb blankShell onlyTrace 0 answers₁ (issue 712 0x1ff7 (message [])) ⟨1, install 1⟩ ≠
      vcpuSyscallCb blankShell onlyTrace 0 answers₁
        (issue 712 0x1ff7 (message (List.replicate 118 'x'))) ⟨1, install 1⟩ := by
  have held : Holds (message (List.replicate 118 'x')) 0x1ff7 "p hello\n".toList := by decide
  have unmapped : ¬ Mapped (message []) 0x1ff7 127 := by
    rw [message_mapped_iff]
    decide
  have mapped : Mapped (message (List.replicate 118 'x')) 0x1ff7 127 := by
    rw [message_mapped_iff, List.length_replicate]
  refine ⟨by decide, held, ?_⟩
  rw [show (712 : Int) = hypercallMagic from rfl, issued_unmapped _ _ _ _ _ _ _ unmapped,
    issued_mapped _ _ _ _ _ _ _ _ mapped held (by decide)]
  exact (dispatched_read _ _ _ _ _ _ _).symm

end Hypersh.Reads
