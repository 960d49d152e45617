import Mathlib.Algebra.BigOperators.Group.List.Basic
import Mathlib.Algebra.GroupWithZero.Nat
import Mathlib.Data.List.Basic
import Mathlib.Data.List.Induction

/-!
Events numbered 1, 2, 3, … and cut into windows: an event whose number is a
multiple of the period hands over what has been gathered and opens the next
window. Beside it tables that count keys, and the lists of their entries that
are not zero.
-/
namespace Windows
variable {Event : Type}

def numbered (low high : Nat) (events : List Event) : List Event :=
  (events.take (high - 1)).drop (low - 1)

/-- The windows of `period` numbers that are complete, the first one without the
number 0. -/
def windows (period : Nat) (events : List Event) : List (List Event) :=
  (List.range (events.length / period)).map fun n =>
    numbered (n * period) ((n + 1) * period) events

/-- The window that is still open. -/
def remainder (period : Nat) (events : List Event) : List Event :=
  events.drop (events.length / period * period - 1)

theorem windows_nil (period : Nat) : windows period ([] : List Event) = [] := by
  simp [windows]

theorem remainder_nil (period : Nat) : remainder period ([] : List Event) = [] :=
  List.drop_nil

theorem numbered_append (low high : Nat) (events later : List Event)
    (inside : high ≤ events.length + 1) :
    numbered low high (events ++ later) = numbered low high events := by
  rw [numbered, List.take_append_of_le_length (by omega), numbered]

theorem numbered_remainder (low : Nat) (events : List Event) :
    numbered low (events.length + 1) events = events.drop (low - 1) := by
  rw [numbered, Nat.add_sub_cancel, List.take_length]

theorem windows_kept (period : Nat) (events : List Event) (event : Event) :
    (List.range (events.length / period)).map (fun n =>
        numbered (n * period) ((n + 1) * period) (events ++ [event])) =
      windows period events := by
  apply List.map_congr_left
  intro n member
  apply numbered_append
  have bound : (n + 1) * period ≤ events.length / period * period :=
    Nat.mul_le_mul_right period (List.mem_range.mp member)
  have whole := Nat.div_mul_le_self events.length period
  omega

theorem windows_cut (period : Nat) (events : List Event) (event : Event)
    (due : period ∣ events.length + 1) :
    windows period (events ++ [event]) = windows period events ++ [remainder period events] := by
  have count : (events.length + 1) / period = events.length / period + 1 :=
    Nat.succ_div_of_dvd due
  have reached : (events.length / period + 1) * period = events.length + 1 := by
    rw [← count]
    exact Nat.div_mul_cancel due
  have last : numbered (events.length / period * period)
      ((events.length / period + 1) * period) (events ++ [event]) = remainder period events := by
    rw [reached, numbered_append _ _ _ _ (Nat.le_refl _), numbered_remainder, remainder]
  rw [windows, List.length_append, List.length_singleton, count, List.range_succ, List.map_append,
    windows_kept, List.map_singleton, last]

theorem windows_held (period : Nat) (events : List Event) (event : Event)
    (early : ¬ period ∣ events.length + 1) :
    windows period (events ++ [event]) = windows period events := by
  rw [windows, List.length_append, List.length_singleton,
    show (events.length + 1) / period = events.length / period from Nat.succ_div_of_not_dvd early,
    windows_kept]

theorem remainder_cut (period : Nat) (events : List Event) (event : Event)
    (due : period ∣ events.length + 1) : remainder period (events ++ [event]) = [event] := by
  rw [remainder, List.length_append, List.length_singleton, Nat.div_mul_cancel due, Nat.add_sub_cancel,
    List.drop_left]

theorem remainder_held (period : Nat) (events : List Event) (event : Event)
    (early : ¬ period ∣ events.length + 1) :
    remainder period (events ++ [event]) = remainder period events ++ [event] := by
  have whole := Nat.div_mul_le_self events.length period
  rw [remainder, List.length_append, List.length_singleton,
    show (events.length + 1) / period = events.length / period from Nat.succ_div_of_not_dvd early,
    List.drop_append_of_le_length (by omega), remainder]

theorem windows_flatten (period : Nat) (events : List Event) :
    (windows period events).flatten ++ remainder period events = events := by
  induction events using List.reverseRecOn with
  | nil =>
      rw [windows_nil, remainder_nil]
      rfl
  | append_singleton events event ih =>
      by_cases due : period ∣ events.length + 1
      · rw [windows_cut period events event due, remainder_cut period events event due,
          List.flatten_concat, ih]
      · rw [windows_held period events event due, remainder_held period events event due,
          ← List.append_assoc, ih]

theorem remainder_length (period : Nat) (events : List Event) :
    (remainder period events).length ≤ events.length % period + 1 := by
  have parts := Nat.div_add_mod' events.length period
  rw [remainder, List.length_drop]
  omega

theorem remainder_room (period : Nat) (events : List Event) (positive : 0 < period)
    (early : ¬ period ∣ events.length + 1) : (remainder period events).length + 1 ≤ period := by
  have short := remainder_length period events
  have below := Nat.mod_lt events.length positive
  have apart : events.length % period + 1 ≠ period := by
    intro same
    have parts := Nat.div_add_mod events.length period
    exact early ⟨events.length / period + 1, by rw [Nat.mul_add, Nat.mul_one]; omega⟩
  omega

/-! Tables of counts. -/

abbrev Table := List (List Nat)

def table (rows cols : Nat) (keys : List (Nat × Nat)) : Table :=
  (List.range rows).map fun row => (List.range cols).map fun col => keys.count (row, col)

def bump (row col : Nat) (cells : Table) : Table :=
  cells.modify row fun counts => counts.modify col (· + 1)

/-- The columns of one row that are not zero, with their counts. -/
def listed (counts : List Nat) : List (Nat × Nat) :=
  (counts.zipIdx.filter fun entry => entry.1 != 0).map fun entry => (entry.2, entry.1)

def tableSum (cells : Table) : Nat := (cells.map List.sum).sum

def listedSum (rows : List (List (Nat × Nat))) : Nat :=
  (rows.map fun row => (row.map Prod.snd).sum).sum

theorem table_nil (rows cols : Nat) :
    table rows cols [] = List.replicate rows (List.replicate cols 0) := by
  simp [table, List.map_const']

theorem range_map_modify {Value : Type} (size index : Nat) (value : Nat → Value)
    (change : Value → Value) :
    ((List.range size).map value).modify index change =
      (List.range size).map fun i => if i = index then change (value i) else value i := by
  apply List.ext_getElem?
  intro i
  rw [List.getElem?_modify, List.getElem?_map, List.getElem?_map]
  by_cases inside : i < size
  · rw [List.getElem?_range inside]
    by_cases same : index = i
    · simp [same]
    · simp [same, Ne.symm same]
  · rw [List.getElem?_eq_none (by simpa using inside)]
    rfl

theorem map_modify {Item Value : Type} (read : Item → Value) (change : Item → Item)
    (changed : Value → Value) (items : List Item) (index : Nat)
    (agree : ∀ item, items[index]? = some item → read (change item) = changed (read item)) :
    (items.modify index change).map read = (items.map read).modify index changed := by
  apply List.ext_getElem?
  intro i
  rw [List.getElem?_map, List.getElem?_modify, List.getElem?_modify, List.getElem?_map]
  cases present : items[i]? with
  | none => rfl
  | some item =>
      by_cases same : index = i
      · subst same
        simp [agree item present]
      · simp [same]

/-- Counting one more key bumps its cell. -/
theorem table_append (rows cols : Nat) (keys : List (Nat × Nat)) (row col : Nat) :
    table rows cols (keys ++ [(row, col)]) = bump row col (table rows cols keys) := by
  rw [bump, table, table, range_map_modify]
  apply List.map_congr_left
  intro r _
  by_cases same : r = row
  · rw [if_pos same, range_map_modify]
    apply List.map_congr_left
    intro c _
    by_cases here : c = col
    · simp [same, here, List.count_append]
    · simp [same, here, List.count_append, Ne.symm here]
  · rw [if_neg same]
    apply List.map_congr_left
    intro c _
    simp [List.count_append, Ne.symm same]

theorem sum_modify (counts : List Nat) (col : Nat) (inside : col < counts.length) :
    (counts.modify col (· + 1)).sum = counts.sum + 1 := by
  induction counts generalizing col with
  | nil => contradiction
  | cons first rest ih =>
      cases col with
      | zero => simp [Nat.add_right_comm]
      | succ col =>
          rw [List.modify_succ_cons, List.sum_cons, ih col (Nat.lt_of_succ_lt_succ inside),
            List.sum_cons, Nat.add_assoc]

theorem bump_sum (cells : Table) (row col : Nat) (counts : List Nat)
    (present : cells[row]? = some counts) (inside : col < counts.length) :
    tableSum (bump row col cells) = tableSum cells + 1 := by
  induction cells generalizing row with
  | nil => contradiction
  | cons first rest ih =>
      cases row with
      | zero =>
          rcases Option.some.inj present with rfl
          simp [tableSum, bump, sum_modify first col inside, Nat.add_right_comm]
      | succ row =>
          have later := ih row present
          simp only [tableSum, bump, List.modify_succ_cons, List.map_cons, List.sum_cons] at later ⊢
          omega

theorem table_sum (rows cols : Nat) (keys : List (Nat × Nat))
    (inside : ∀ key ∈ keys, key.1 < rows ∧ key.2 < cols) :
    tableSum (table rows cols keys) = keys.length := by
  induction keys using List.reverseRecOn with
  | nil => simp [table_nil, tableSum]
  | append_singleton keys key ih =>
      rcases inside key (List.mem_append_right _ (List.mem_singleton_self key)) with ⟨row, col⟩
      rw [show [key] = [(key.1, key.2)] from rfl, table_append,
        bump_sum _ key.1 key.2 _ (by rw [table, List.getElem?_map, List.getElem?_range row]; rfl)
          (by simpa using col),
        ih fun other member => inside other (List.mem_append_left _ member),
        List.length_append, List.length_singleton]

/-- The entries of a table's row: the columns whose keys were counted. -/
theorem listed_row (cols : Nat) (count : Nat → Nat) :
    listed ((List.range cols).map count) =
      (List.range cols).filterMap fun col => if count col = 0 then none else some (col, count col) := by
  induction cols with
  | zero => rfl
  | succ cols ih =>
      have split : listed ((List.range (cols + 1)).map count) =
          listed ((List.range cols).map count) ++
            if count cols = 0 then [] else [(cols, count cols)] := by
        rw [List.range_succ, List.map_append, listed, List.zipIdx_append, List.filter_append,
          List.map_append, ← listed]
        by_cases zero : count cols = 0
        · simp [zero]
        · simp [zero]
      rw [split, ih, List.range_succ, List.filterMap_append]
      by_cases zero : count cols = 0
      · simp [zero]
      · simp [zero]

theorem listed_sum (counts : List Nat) : ((listed counts).map Prod.snd).sum = counts.sum := by
  have shifted : ∀ (start : Nat), ((((counts.zipIdx start).filter fun entry => entry.1 != 0).map
      fun entry => (entry.2, entry.1)).map Prod.snd).sum = counts.sum := by
    induction counts with
    | nil => exact fun _ => rfl
    | cons first rest ih =>
        intro start
        have tail := ih (start + 1)
        by_cases zero : first = 0
        · simpa [List.zipIdx_cons, zero] using tail
        · simpa [List.zipIdx_cons, zero] using tail
  exact shifted 0

theorem listed_table_sum (cells : Table) : listedSum (cells.map listed) = tableSum cells := by
  rw [listedSum, tableSum, List.map_map]
  exact congrArg List.sum (List.map_congr_left fun counts _ => listed_sum counts)

end Windows
