import Mathlib.Data.List.Basic

/-!
The shell's rules of quotes, escapes, comments and blanks, read one letter at a time.
Expansions, operators and redirections are not part of them.
-/
namespace Hypersh.Quoting

/-- Where a reader of a command line stands. -/
inductive Mode where
  | start
  | word
  | comment
  | escaped (begun : Bool)
  | single
  | double
  | doubleEscaped
  deriving DecidableEq, Repr

def separates (letter : Char) : Bool := letter == ' ' || letter == '\t' || letter == '\n'

/-- A letter outside quotes, at the start of a word or within one. -/
def nextOutside (begun : Bool) (letter : Char) : Mode :=
  if separates letter then .start
  else if letter == '\x27' then .single
  else if letter == '\x22' then .double
  else if letter == '\x5c' then .escaped begun
  else if letter == '#' && !begun then .comment
  else .word

def next : Mode → Char → Mode
  | .start, letter => nextOutside false letter
  | .word, letter => nextOutside true letter
  | .comment, letter => if letter == '\n' then .start else .comment
  | .escaped begun, letter => if letter == '\n' && !begun then .start else .word
  | .single, letter => if letter == '\x27' then .word else .single
  | .double, letter =>
      if letter == '\x22' then .word else if letter == '\x5c' then .doubleEscaped else .double
  | .doubleEscaped, _ => .double

def kept : Mode → Char → List Char
  | .start, letter => if nextOutside false letter = .word then [letter] else []
  | .word, letter => if nextOutside true letter = .word then [letter] else []
  | .comment, _ => []
  -- An escaped newline continues the line.
  | .escaped _, letter => if letter == '\n' then [] else [letter]
  | .single, letter => if letter == '\x27' then [] else [letter]
  | .double, letter => if letter == '\x22' || letter == '\x5c' then [] else [letter]
  | .doubleEscaped, letter =>
      if letter == '\n' then []
      else if letter == '\x22' || letter == '\x5c' || letter == '$' || letter == '\x60' then [letter]
      else ['\x5c', letter]

def inWord : Mode → Bool
  | .word | .single | .double | .doubleEscaped => true
  | .escaped begun => begun
  | .start | .comment => false

def tokens : Mode → List Char → List Char → List (List Char)
  | mode, word, [] => if inWord mode then [word] else []
  | mode, word, letter :: rest =>
      if inWord mode && !inWord (next mode letter) then
        word :: tokens (next mode letter) [] rest
      else tokens (next mode letter) (word ++ kept mode letter) rest

def after (mode : Mode) (text : List Char) : Mode := text.foldl next mode

def closed : Mode → Bool
  | .start | .word | .comment => true
  | .escaped _ | .single | .double | .doubleEscaped => false

def balanced (text : List Char) : Bool := closed (after .start text)

/-- A letter that a shell takes for itself, wherever it stands outside quotes. -/
def ordinary (letter : Char) : Bool :=
  !separates letter && letter != '\x27' && letter != '\x22' && letter != '\x5c' && letter != '#'

theorem ordinary_next (begun : Bool) (letter : Char) (plain : ordinary letter = true) :
    nextOutside begun letter = .word := by
  simp only [ordinary, Bool.and_eq_true, Bool.not_eq_true', bne_iff_ne] at plain
  obtain ⟨⟨⟨⟨joins, single⟩, double⟩, escape⟩, comment⟩ := plain
  simp [nextOutside, joins, single, double, escape, comment]

theorem separates_next (begun : Bool) (letter : Char) (blank : separates letter = true) :
    nextOutside begun letter = .start := if_pos blank

theorem tokens_begun (rest : List Char) (letter : Char) (plain : ordinary letter = true) :
    tokens .start [] (letter :: rest) = tokens .word [letter] rest := by
  simp [tokens, next, kept, inWord, ordinary_next false letter plain]

theorem tokens_ordinary (word rest : List Char) (letter : Char) (plain : ordinary letter = true) :
    tokens .word word (letter :: rest) = tokens .word (word ++ [letter]) rest := by
  simp [tokens, next, kept, inWord, ordinary_next true letter plain]

theorem tokens_separated (word rest : List Char) (letter : Char)
    (blank : separates letter = true) :
    tokens .word word (letter :: rest) = word :: tokens .start [] rest := by
  simp [tokens, next, inWord, separates_next true letter blank]

theorem tokens_blank (rest : List Char) (letter : Char) (blank : separates letter = true) :
    tokens .start [] (letter :: rest) = tokens .start [] rest := by
  simp [tokens, next, kept, inWord, separates_next false letter blank]

theorem tokens_word (begun word rest : List Char) (plain : ∀ letter ∈ word, ordinary letter = true)
    (blank : Char) (ends : separates blank = true) :
    tokens .word begun (word ++ blank :: rest) = (begun ++ word) :: tokens .start [] rest := by
  induction word generalizing begun with
  | nil =>
      rw [List.nil_append, tokens_separated begun rest blank ends, List.append_nil]
  | cons letter word ih =>
      have later := ih (begun ++ [letter]) fun other member =>
        plain other (List.mem_cons_of_mem letter member)
      rw [List.cons_append, tokens_ordinary _ _ letter (plain letter List.mem_cons_self), later,
        List.append_assoc, List.singleton_append]

theorem tokens_first (word rest : List Char) (present : word ≠ [])
    (plain : ∀ letter ∈ word, ordinary letter = true) (blank : Char)
    (ends : separates blank = true) :
    tokens .start [] (word ++ blank :: rest) = word :: tokens .start [] rest := by
  obtain ⟨letter, word, rfl⟩ := List.exists_cons_of_ne_nil present
  have later := tokens_word [letter] word rest
    (fun other member => plain other (List.mem_cons_of_mem letter member)) blank ends
  rw [List.cons_append, tokens_begun _ letter (plain letter List.mem_cons_self), later,
    List.singleton_append]

/-- Among ordinary letters a text is split at its blanks. -/
theorem tokens_split (blank : Char → Bool) (text : List Char)
    (plain : ∀ letter ∈ text,
      blank letter = true ∧ separates letter = true ∨
        blank letter = false ∧ ordinary letter = true) :
    tokens .start [] text = (text.splitOnP blank).filter (fun word => !word.isEmpty) ∧
      ∀ begun, begun ≠ [] → tokens .word begun text =
        ((text.splitOnP blank).modifyHead (begun ++ ·)).filter fun word => !word.isEmpty := by
  induction text with
  | nil =>
      refine ⟨rfl, fun begun present => ?_⟩
      simp [tokens, inWord, present]
  | cons letter rest ih =>
      obtain ⟨fresh, within⟩ := ih fun other member => plain other (List.mem_cons_of_mem _ member)
      rw [List.splitOnP_cons_eq_if_modifyHead]
      rcases plain letter List.mem_cons_self with ⟨split, ends⟩ | ⟨joined, whole⟩
      · rw [if_pos split, tokens_blank rest letter ends, fresh]
        refine ⟨rfl, fun begun present => ?_⟩
        rw [tokens_separated begun rest letter ends, fresh]
        simp [present]
      · rw [if_neg (Bool.not_eq_true _ ▸ joined)]
        constructor
        · rw [tokens_begun rest letter whole, within _ (List.cons_ne_nil letter [])]
          rfl
        · intro begun _
          rw [tokens_ordinary begun rest letter whole, within _ (by simp),
            List.modifyHead_modifyHead]
          congr 2
          funext first
          simp

theorem plain_balanced (text : List Char)
    (plain : ∀ letter ∈ text, separates letter = true ∨ ordinary letter = true) :
    balanced text = true := by
  have outside : ∀ mode, mode = .start ∨ mode = .word → closed (after mode text) = true := by
    induction text with
    | nil =>
        rintro mode (rfl | rfl)
        · rfl
        · rfl
    | cons letter rest ih =>
        intro mode here
        apply ih fun other member => plain other (List.mem_cons_of_mem _ member)
        rcases plain letter List.mem_cons_self with blank | whole
        · rcases here with rfl | rfl
          · exact .inl (separates_next false letter blank)
          · exact .inl (separates_next true letter blank)
        · rcases here with rfl | rfl
          · exact .inr (ordinary_next false letter whole)
          · exact .inr (ordinary_next true letter whole)
  exact outside .start (.inl rfl)

end Hypersh.Quoting
