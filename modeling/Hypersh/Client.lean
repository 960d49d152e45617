import Mathlib.Data.List.Basic
import Hypersh.Getopt

/-!
The guest client: `main` of guest/hypersh.c. With `-c` it executes one command,
without it whatever it reads, line after line.
-/
namespace Hypersh.Client
open Getopt

/-! Reading lines. -/

def lines : List Char → List Word
  | [] => []
  | letter :: rest =>
      if letter = '\n' then [] :: lines rest
      else
        match lines rest with
        -- The last line may have no newline.
        | [] => [[letter]]
        | first :: others => (letter :: first) :: others

def readLine : Nat → List Char → List Char × List Char
  | 0, rest => ([], rest)
  | _ + 1, [] => ([], [])
  | room + 1, letter :: rest =>
      if letter = '\n' then ([letter], rest)
      else (letter :: (readLine room rest).1, (readLine room rest).2)

/-- `fgets`: nothing at the end of the input. -/
def fgets (size : Nat) (stdin : List Char) : Option (List Char × List Char) :=
  if stdin = [] then none else some (readLine (size - 1) stdin)

def strcspn (text reject : List Char) : Nat :=
  (text.takeWhile fun letter => letter != '\x00' && !reject.contains letter).length

def strncpy (text : List Char) (size : Nat) : List Char := text.take size

/-! The program. -/

structure Guest where
  waitForStdin : Bool
  cmd : List Char
  stdin : List Char
  deriving DecidableEq, Repr

def Guest.read (guest : Guest) : Found → Guest
  | .value 'c' optarg => { guest with waitForStdin := false, cmd := strncpy optarg 127 }
  | _ => guest

def start (argv : List Word) (stdin : List Char) : Guest :=
  (getopt "c:".toList argv 1).found.foldl Guest.read ⟨true, [], stdin⟩

def prompt (guest : Guest) : Guest :=
  match fgets 128 guest.stdin with
  -- The command is executed all the same, and still is the one before.
  | none => guest
  | some (line, stdin) => { guest with cmd := line.take (strcspn line ['\n']), stdin := stdin }

/-- So many rounds of the loop, and the commands that are executed in them. -/
def loop : Nat → Guest → Guest × List Word
  | 0, guest => (guest, [])
  | rounds + 1, guest =>
      if guest.waitForStdin then
        ((loop rounds (prompt guest)).1, (prompt guest).cmd :: (loop rounds (prompt guest)).2)
      else (guest, [])

def main (rounds : Nat) (argv : List Word) (stdin : List Char) : List Word :=
  (if (start argv stdin).waitForStdin then [] else [(start argv stdin).cmd]) ++
    (loop rounds (start argv stdin)).2

/-! One line. -/

theorem lines_nil_iff (stdin : List Char) : lines stdin = [] ↔ stdin = [] := by
  cases stdin with
  | nil => exact ⟨fun _ => rfl, fun _ => rfl⟩
  | cons letter rest =>
      refine ⟨fun none_ => ?_, fun none_ => absurd none_ (List.cons_ne_nil letter rest)⟩
      unfold lines at none_
      split at none_
      · contradiction
      · split at none_
        · contradiction
        · contradiction

theorem cut_takes (line reject : List Char) :
    line.take (strcspn line reject) =
      line.takeWhile fun letter => letter != '\x00' && !reject.contains letter :=
  (List.prefix_iff_eq_take.mp (List.takeWhile_prefix _)).symm

def text (line : Word) : Word := line.takeWhile (· != '\x00')

theorem read_line (stdin : List Char) (room : Nat) (first : Word) (others : List Word)
    (found : lines stdin = first :: others) (fits : first.length < room) :
    lines (readLine room stdin).2 = others ∧
      (readLine room stdin).1.take (strcspn (readLine room stdin).1 ['\n']) = text first := by
  rw [cut_takes]
  induction stdin generalizing room first with
  | nil => contradiction
  | cons letter rest ih =>
      obtain ⟨room, rfl⟩ := Nat.exists_eq_add_of_le' (Nat.zero_lt_of_lt fits)
      rw [lines] at found
      by_cases newline : letter = '\n'
      · rw [if_pos newline] at found
        obtain ⟨rfl, rfl⟩ := List.cons.inj found
        rw [readLine, if_pos newline, newline]
        exact ⟨rfl, rfl⟩
      · rw [if_neg newline] at found
        rw [readLine, if_neg newline]
        have here : ∀ line, (letter :: line).takeWhile
              (fun letter => letter != '\x00' && !(List.contains ['\n'] letter)) =
            if letter = '\x00' then []
            else letter :: line.takeWhile fun letter =>
              letter != '\x00' && !(List.contains ['\n'] letter) := by
          intro line
          by_cases nul : letter = '\x00'
          · simp [nul]
          · simp [nul, newline]
        cases later : lines rest with
        | nil =>
            rw [later] at found
            obtain ⟨rfl, rfl⟩ := List.cons.inj found
            obtain rfl := (lines_nil_iff rest).mp later
            obtain ⟨room, rfl⟩ := Nat.exists_eq_add_of_le' (Nat.lt_of_succ_lt_succ fits)
            refine ⟨rfl, ?_⟩
            rw [here, text]
            by_cases nul : letter = '\x00'
            · simp [nul]
            · simp [readLine, nul]
        | cons next after =>
            rw [later] at found
            obtain ⟨rfl, rfl⟩ := List.cons.inj found
            obtain ⟨left, cut⟩ := ih room next later (Nat.lt_of_succ_lt_succ fits)
            refine ⟨left, ?_⟩
            rw [here, cut, text, text, List.takeWhile_cons]
            by_cases nul : letter = '\x00'
            · simp [nul]
            · simp [nul]

theorem prompt_ended (guest : Guest) (ended : lines guest.stdin = []) :
    prompt guest = guest := by
  rw [prompt, (lines_nil_iff guest.stdin).mp ended]
  rfl

theorem prompt_line (guest : Guest) (first : Word) (others : List Word)
    (found : lines guest.stdin = first :: others) (short : first.length ≤ 126) :
    (prompt guest).cmd = text first ∧ lines (prompt guest).stdin = others ∧
      (prompt guest).waitForStdin = guest.waitForStdin := by
  have more : guest.stdin ≠ [] := by
    intro ended
    rw [ended] at found
    contradiction
  obtain ⟨left, cut⟩ := read_line guest.stdin 127 first others found (Nat.lt_succ_of_le short)
  rw [prompt, fgets, if_neg more]
  exact ⟨cut, left, rfl⟩

/-! Rounds. -/

def lastCommand (cmd : Word) (input : List Word) : Word := (input.map text).getLastD cmd

theorem loop_commands (rounds : Nat) (guest : Guest) (waits : guest.waitForStdin = true)
    (short : ∀ line ∈ lines guest.stdin, line.length ≤ 126) :
    (loop rounds guest).2 = ((lines guest.stdin).map text).take rounds ++
        List.replicate (rounds - (lines guest.stdin).length)
          (lastCommand guest.cmd (lines guest.stdin)) ∧
      (loop rounds guest).1.waitForStdin = true := by
  induction rounds generalizing guest with
  | zero => simp [loop, waits]
  | succ rounds ih =>
      rw [loop, if_pos waits]
      cases found : lines guest.stdin with
      | nil =>
          have same := prompt_ended guest found
          obtain ⟨commands, runs⟩ := ih guest waits short
          rw [same]
          refine ⟨?_, runs⟩
          rw [commands, found]
          simp [lastCommand, List.replicate_succ]
      | cons first others =>
          rw [found] at short
          obtain ⟨cmd, left, kept⟩ :=
            prompt_line guest first others found (short first List.mem_cons_self)
          obtain ⟨commands, runs⟩ := ih (prompt guest) (kept.trans waits) (by
            rw [left]
            exact fun line member => short line (List.mem_cons_of_mem first member))
          refine ⟨?_, runs⟩
          rw [commands, cmd, left]
          have last : lastCommand (text first) others = lastCommand guest.cmd (first :: others) := by
            rw [lastCommand, lastCommand, List.map_cons, List.getLastD_cons]
          simp [last]

/-! The whole program. -/

/-- No command is given with `-c`. -/
def Interactive (argv : List Word) : Prop :=
  ∀ optarg, Found.value 'c' optarg ∉ (getopt "c:".toList argv 1).found

theorem read_interactive (found : List Found) (guest : Guest)
    (none_ : ∀ optarg, Found.value 'c' optarg ∉ found) :
    found.foldl Guest.read guest = guest := by
  induction found with
  | nil => rfl
  | cons first rest ih =>
      have same : guest.read first = guest := by
        unfold Guest.read
        split
        · rename_i optarg
          exact absurd List.mem_cons_self (none_ optarg)
        · rfl
      rw [List.foldl_cons, same]
      exact ih fun optarg member => none_ optarg (List.mem_cons_of_mem first member)

theorem start_interactive (argv : List Word) (stdin : List Char) (reads : Interactive argv) :
    start argv stdin = ⟨true, [], stdin⟩ := read_interactive _ _ reads

theorem command_once (rounds : Nat) (argv : List Word) (stdin : List Char)
    (given : (start argv stdin).waitForStdin = false) :
    main rounds argv stdin = [(start argv stdin).cmd] := by
  have stays : (loop rounds (start argv stdin)).2 = [] := by
    cases rounds with
    | zero => rfl
    | succ rounds => rw [loop, given, if_neg Bool.false_ne_true]
  rw [main, given, stays]
  rfl

structure OncePerLine (argv : List Word) (stdin : List Char) : Prop where
  inOrder : ∀ rounds, main rounds argv stdin <+: lines stdin
  all : ∃ rounds, main rounds argv stdin = lines stdin
  ends : ∃ rounds, (loop rounds (start argv stdin)).1.waitForStdin = false

/-- Whatever is read, the lines are executed in order and the last of them, or nothing,
again and again for ever. -/
theorem input_end_unnoticed (argv : List Word) (stdin : List Char) (reads : Interactive argv)
    (short : ∀ line ∈ lines stdin, line.length ≤ 126) :
    (∀ rounds, main rounds argv stdin = ((lines stdin).map text).take rounds ++
      List.replicate (rounds - (lines stdin).length) (lastCommand [] (lines stdin))) ∧
    (∀ rounds, (loop rounds (start argv stdin)).1.waitForStdin = true) ∧
    (∃ rounds, ¬ main rounds argv stdin <+: lines stdin) ∧
    ¬ OncePerLine argv stdin := by
  have fresh := start_interactive argv stdin reads
  have looped := fun rounds => loop_commands rounds ⟨true, [], stdin⟩ rfl short
  have commands : ∀ rounds, main rounds argv stdin = (loop rounds ⟨true, [], stdin⟩).2 := by
    intro rounds
    rw [main, fresh]
    rfl
  have runs : ∀ rounds, (loop rounds (start argv stdin)).1.waitForStdin = true := by
    intro rounds
    rw [fresh]
    exact (looped rounds).2
  refine ⟨fun rounds => (commands rounds).trans (looped rounds).1, runs,
    ⟨(lines stdin).length + 1, ?_⟩, ?_⟩
  · intro front
    have longer := front.length_le
    rw [commands, (looped _).1] at longer
    simp only [List.length_append, List.length_take, List.length_map, List.length_replicate]
      at longer
    omega
  · rintro ⟨-, -, rounds, ended⟩
    exact Bool.false_ne_true (ended.symm.trans (runs rounds))

theorem last_line_repeated :
    main 4 ["hypersh".toList] "trace start\nq\n".toList =
      ["trace start".toList, "q".toList, "q".toList, "q".toList] :=
  (input_end_unnoticed ["hypersh".toList] "trace start\nq\n".toList
    (fun optarg => by simp [getopt, firstIndex]) (by decide)).1 4

/-- A start that is read once is executed in the second round too. -/
theorem start_executed_twice :
    Interactive ["hypersh".toList] ∧
      (∀ line ∈ lines "trace start\n".toList, line.length ≤ 126) ∧
      ¬ OncePerLine ["hypersh".toList] "trace start\n".toList := by
  refine ⟨fun optarg => by simp [getopt, firstIndex], by decide, ?_⟩
  rintro ⟨inOrder, -, -⟩
  exact absurd (inOrder 2) (by decide)

end Hypersh.Client
