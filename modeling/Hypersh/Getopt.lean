import Mathlib.Data.List.Basic

/-!
`getopt` by its manual. A scan starts at `optind`, or at 1 when that is 0, reports
the options it finds, moves them before the other words and leaves `optind` at the
first of those. The caller's loop until -1 is one scan. Words are lists of
characters.
-/
namespace Getopt

abbrev Word := List Char

/-- What a call reports. Both `unknown` and `missing` are a `'?'`. -/
inductive Found where
  | flag (letter : Char)
  | value (letter : Char) (optarg : Word)
  | unknown (letter : Char)
  | missing (letter : Char)
  deriving DecidableEq, Repr

def lookup (letter : Char) : List Char → Option Bool
  | [] => none
  | known :: rest => if known = letter then some (rest.head? == some ':') else lookup letter rest

def takesArgument (optstring : List Char) (letter : Char) : Option Bool :=
  if letter = ':' ∨ letter = ';' then none else lookup letter optstring

/-- The letters of one option word, and whether the last one took the next word. -/
def cluster (optstring : List Char) (next : Option Word) : Word → List Found × Bool
  | [] => ([], false)
  | letter :: more =>
      match takesArgument optstring letter with
      | none =>
          (.unknown letter :: (cluster optstring next more).1, (cluster optstring next more).2)
      | some false =>
          (.flag letter :: (cluster optstring next more).1, (cluster optstring next more).2)
      | some true =>
          if more ≠ [] then ([.value letter more], false)
          else
            match next with
            | none => ([.missing letter], false)
            | some word => ([.value letter word], true)

def operand : Word → Bool
  | '-' :: _ :: _ => false
  | _ => true

structure Scan where
  found : List Found
  options : List Word
  operands : List Word
  deriving DecidableEq, Repr

def Scan.option (found : List Found) (words : List Word) (later : Scan) : Scan :=
  ⟨found ++ later.found, words ++ later.options, later.operands⟩

def scan (optstring : List Char) : List Word → Scan
  | [] => ⟨[], [], []⟩
  | word :: rest =>
      if operand word then
        { scan optstring rest with operands := word :: (scan optstring rest).operands }
      -- `--` ends the options and is moved in front with them.
      else if word = ['-', '-'] then ⟨[], [word], rest⟩
      else
        match cluster optstring rest.head? (word.drop 1) with
        | (found, false) => Scan.option found [word] (scan optstring rest)
        | (found, true) =>
            match rest with
            | [] => ⟨found, [word], []⟩
            | value :: rest => Scan.option found [word, value] (scan optstring rest)

structure Scanned where
  found : List Found
  argv : List Word
  optind : Nat
  deriving DecidableEq, Repr

def firstIndex (optind : Nat) : Nat := if optind = 0 then 1 else optind

def getopt (optstring : List Char) (argv : List Word) (optind : Nat) : Scanned :=
  let first := firstIndex optind
  if argv = [] then ⟨[], argv, optind⟩
  else if argv.length ≤ first then ⟨[], argv, first⟩
  else
    let scanned := scan optstring (argv.drop first)
    ⟨scanned.found, argv.take first ++ scanned.options ++ scanned.operands,
      first + scanned.options.length⟩

theorem firstIndex_started (optind : Nat) (started : 1 ≤ optind) : firstIndex optind = optind :=
  if_neg (Nat.one_le_iff_ne_zero.mp started)

theorem getopt_restart (optstring : List Char) (name : Word) (rest : List Word) (optind : Nat)
    (low : optind ≤ 1) :
    getopt optstring (name :: rest) optind = getopt optstring (name :: rest) 0 := by
  rcases Nat.le_one_iff_eq_zero_or_eq_one.mp low with rfl | rfl
  · rfl
  · rfl

theorem getopt_fresh (optstring : List Char) (name : Word) (rest : List Word) :
    getopt optstring (name :: rest) 0 =
      ⟨(scan optstring rest).found,
        name :: (scan optstring rest).options ++ (scan optstring rest).operands,
        1 + (scan optstring rest).options.length⟩ := by
  cases rest with
  | nil => rfl
  | cons word rest => simp [getopt, firstIndex]

/-- A scan moves words and loses none. -/
theorem scan_perm (optstring : List Char) (words : List Word) :
    ((scan optstring words).options ++ (scan optstring words).operands).Perm words := by
  fun_induction scan optstring words with
  | case1 => exact List.Perm.nil
  | case2 word rest plain later ih => exact List.perm_middle.trans (ih.cons word)
  | case3 rest plain => exact List.Perm.refl _
  | case4 word rest dashed other letters taken ih => exact ih.cons word
  | case5 word dashed other letters taken => exact List.Perm.refl _
  | case6 word dashed other letters value rest taken ih => exact (ih.cons value).cons word

theorem getopt_optind (optstring : List Char) (name : Word) (rest : List Word) :
    (getopt optstring (name :: rest) 0).optind = 1 + (scan optstring rest).options.length := by
  rw [getopt_fresh]

/-- The scan ends at the first word that belongs to no option. -/
theorem getopt_next (optstring : List Char) (name : Word) (rest : List Word) :
    (getopt optstring (name :: rest) 0).argv[(getopt optstring (name :: rest) 0).optind]? =
      (scan optstring rest).operands.head? := by
  rw [getopt_fresh]
  simp only [Nat.add_comm 1, List.cons_append, List.getElem?_cons_succ]
  rw [List.getElem?_append_right (Nat.le_refl _), Nat.sub_self, List.head?_eq_getElem?]

/-! Only options of the option string are found with an argument. -/

theorem cluster_value (optstring : List Char) (next : Option Word) (letters : Word)
    (letter : Char) (optarg : Word)
    (found : Found.value letter optarg ∈ (cluster optstring next letters).1) :
    takesArgument optstring letter = some true := by
  induction letters with
  | nil => exact absurd found List.not_mem_nil
  | cons first more ih =>
      unfold cluster at found
      split at found
      · rcases List.mem_cons.mp found with same | later
        · contradiction
        · exact ih later
      · rcases List.mem_cons.mp found with same | later
        · contradiction
        · exact ih later
      · rename_i takes
        split at found
        · cases List.mem_singleton.mp found
          exact takes
        · split at found
          · cases List.mem_singleton.mp found
          · cases List.mem_singleton.mp found
            exact takes

theorem scan_value (optstring : List Char) (words : List Word) (letter : Char) (optarg : Word)
    (found : Found.value letter optarg ∈ (scan optstring words).found) :
    takesArgument optstring letter = some true := by
  fun_induction scan optstring words with
  | case1 => exact absurd found List.not_mem_nil
  | case2 word rest plain later ih => exact ih found
  | case3 rest plain => exact absurd found List.not_mem_nil
  | case4 word rest dashed other letters taken ih =>
      rcases List.mem_append.mp found with here | later
      · exact cluster_value optstring _ _ letter optarg (by rw [taken]; exact here)
      · exact ih later
  | case5 word dashed other letters taken =>
      exact cluster_value optstring _ _ letter optarg (by rw [taken]; exact found)
  | case6 word dashed other letters value rest taken ih =>
      rcases List.mem_append.mp found with here | later
      · exact cluster_value optstring _ _ letter optarg (by rw [taken]; exact here)
      · exact ih later

theorem getopt_value (optstring : List Char) (argv : List Word) (optind : Nat) (letter : Char)
    (optarg : Word) (found : Found.value letter optarg ∈ (getopt optstring argv optind).found) :
    takesArgument optstring letter = some true := by
  unfold getopt at found
  dsimp only at found
  split at found
  · exact absurd found List.not_mem_nil
  · split at found
    · exact absurd found List.not_mem_nil
    · exact scan_value optstring _ letter optarg found

theorem getopt_exhausted (optstring : List Char) (argv : List Word) (optind : Nat)
    (started : 1 ≤ optind) (behind : argv.length ≤ optind) :
    getopt optstring argv optind = ⟨[], argv, optind⟩ := by
  simp [getopt, firstIndex_started optind started, behind]

theorem scan_operands (optstring : List Char) (words : List Word)
    (plain : ∀ word ∈ words, operand word = true) :
    scan optstring words = ⟨[], [], words⟩ := by
  induction words with
  | nil => rfl
  | cons word rest ih =>
      have tail := ih fun later member => plain later (List.mem_cons_of_mem _ member)
      simp [scan, plain word List.mem_cons_self, tail]

/-- Without option words only the restart at 1 moves `optind`. -/
theorem getopt_operands (optstring : List Char) (argv : List Word) (optind : Nat)
    (present : argv ≠ []) (plain : ∀ word ∈ argv, operand word = true) :
    getopt optstring argv optind = ⟨[], argv, firstIndex optind⟩ := by
  have tail := scan_operands optstring (argv.drop (firstIndex optind)) fun word member =>
    plain word (List.mem_of_mem_drop member)
  unfold getopt
  dsimp only
  rw [if_neg present]
  split
  · rfl
  · simp [tail]

/-! One option word behind all others. -/

theorem cluster_unknown (optstring : List Char) (next : Option Word) (letters : Word)
    (unknown : ∀ letter ∈ letters, takesArgument optstring letter = none) :
    cluster optstring next letters = (letters.map .unknown, false) := by
  induction letters with
  | nil => rfl
  | cons letter more ih =>
      have tail := ih fun later member => unknown later (List.mem_cons_of_mem _ member)
      simp only [cluster, unknown letter List.mem_cons_self, tail, List.map_cons]

theorem scan_last_option (optstring : List Char) (front : List Word) (word : Word)
    (found : List Found) (plain : ∀ word ∈ front, operand word = true)
    (option : operand word = false) (dashes : word ≠ ['-', '-'])
    (letters : cluster optstring none (word.drop 1) = (found, false)) :
    scan optstring (front ++ [word]) = ⟨found, [word], front⟩ := by
  induction front with
  | nil =>
      rw [List.nil_append, scan, if_neg (by simp [option]), if_neg dashes, List.head?_nil, letters]
      simp [scan, Scan.option]
  | cons first rest ih =>
      have tail := ih fun later member => plain later (List.mem_cons_of_mem _ member)
      simp [scan, plain first List.mem_cons_self, tail]

theorem getopt_last_option (optstring : List Char) (front : List Word) (word : Word)
    (found : List Found) (optind : Nat) (plain : ∀ word ∈ front, operand word = true)
    (option : operand word = false) (dashes : word ≠ ['-', '-'])
    (letters : cluster optstring none (word.drop 1) = (found, false)) :
    (getopt optstring (front ++ [word]) optind).argv.drop
        (getopt optstring (front ++ [word]) optind).optind = front.drop (firstIndex optind) ∧
      (getopt optstring (front ++ [word]) optind).found ⊆ found := by
  unfold getopt
  dsimp only
  rw [if_neg (by simp)]
  split
  · rename_i past
    have behind : front.length ≤ firstIndex optind := by
      rw [List.length_append] at past
      omega
    rw [List.drop_eq_nil_of_le past, List.drop_eq_nil_of_le behind]
    exact ⟨rfl, List.nil_subset found⟩
  · rename_i inside
    have within : firstIndex optind ≤ front.length := by
      rw [List.length_append, List.length_singleton] at inside
      omega
    rw [List.drop_append_of_le_length within, List.take_append_of_le_length within,
      scan_last_option optstring _ word found
        (fun later member => plain later (List.mem_of_mem_drop member)) option dashes letters]
    refine ⟨List.drop_left' ?_, List.Subset.refl found⟩
    simp [within]

end Getopt
