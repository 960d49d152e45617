import Mathlib.Data.List.FinRange
import Hypersh.Transduction
import Hypersh.Control
import Hypersh.Writers
import Hypersh.System

/-!
The lifetime of the writers. Each is made by one start and dropped by the first stop
callback that finds it; a later stop callback finds nothing, and no start finds a
writer that is still there.
-/
namespace Hypersh.Lifetimes
open Control Writers Transduction
variable {n : Nat}

def holders (trace : Trace n) (writer : Nat) : Nat :=
  (List.finRange n).countP fun vcpu => trace.output vcpu == some writer

def constructions (writer : Nat) (actions : List (Action n)) : Nat :=
  (actions.filterMap move).count (.made writer)

def deletions (writer : Nat) (actions : List (Action n)) : Nat :=
  (actions.filterMap move).count (.dropped writer)

/-- Writers are made once, in order, and each is held by one vcpu or has been deleted. -/
structure Accounted (trace : Trace n) (actions : List (Action n)) : Prop where
  owned : Owned trace
  made : ∀ writer, constructions writer actions = if writer < trace.nextWriter then 1 else 0
  dropped : ∀ writer, deletions writer actions + holders trace writer =
    constructions writer actions

theorem holders_kept (before after : Trace n) (same : ∀ vcpu, after.output vcpu = before.output vcpu)
    (writer : Nat) : holders after writer = holders before writer := by
  rw [holders, holders]
  exact List.countP_congr fun vcpu _ => by rw [same]

theorem holders_none (trace : Trace n) (gone : ∀ vcpu, trace.output vcpu = none) (writer : Nat) :
    holders trace writer = 0 := by
  rw [holders, List.countP_eq_zero]
  intro vcpu _
  rw [gone]
  exact Bool.false_ne_true

theorem made_from_made (first writer : Nat) :
    (madeFrom n first).count (.made writer) =
      if first ≤ writer ∧ writer < first + n then 1 else 0 := by
  rw [madeFrom, List.count, List.countP_map]
  by_cases inside : first ≤ writer ∧ writer < first + n
  · have only : ∀ vcpu : Fin n, (Move.made (first + vcpu.val) == Move.made writer) =
        (vcpu == ⟨writer - first, by omega⟩) := by
      intro vcpu
      rw [Bool.eq_iff_iff, beq_iff_eq, beq_iff_eq, Move.made.injEq, Fin.ext_iff]
      dsimp only
      omega
    rw [if_pos inside, List.countP_congr fun vcpu _ => by rw [Function.comp_apply, only vcpu]]
    exact List.count_eq_one_of_mem (List.nodup_finRange n) (List.mem_finRange _)
  · rw [if_neg inside, List.countP_eq_zero]
    intro vcpu _ same
    rw [Function.comp_apply, beq_iff_eq, Move.made.injEq] at same
    omega

theorem holders_fresh (first : Nat) (trace : Trace n)
    (fresh : ∀ vcpu, trace.output vcpu = some (first + vcpu.val)) (writer : Nat) :
    holders trace writer = (madeFrom n first).count (.made writer) := by
  rw [holders, madeFrom, List.count, List.countP_map]
  apply List.countP_congr
  intro vcpu _
  rw [fresh, Function.comp_apply, beq_iff_eq, beq_iff_eq, Option.some.injEq, Move.made.injEq]

theorem made_from_dropped (first writer : Nat) :
    (madeFrom n first).count (.dropped writer) = 0 := by
  rw [madeFrom, List.count_eq_zero]
  intro member
  rcases List.mem_map.mp member with ⟨vcpu, -, same⟩
  cases same

theorem dropped_all_made (trace : Trace n) (writer : Nat) :
    (droppedAll trace).count (.made writer) = 0 := by
  rw [droppedAll, List.count_eq_zero]
  intro member
  rcases List.mem_filterMap.mp member with ⟨vcpu, -, same⟩
  rcases Option.map_eq_some_iff.mp same with ⟨held, -, different⟩
  cases different

theorem dropped_all_dropped (trace : Trace n) (writer : Nat) :
    (droppedAll trace).count (.dropped writer) = holders trace writer := by
  rw [droppedAll, List.count_filterMap, holders]
  apply List.countP_congr
  intro vcpu _
  cases trace.output vcpu with
  | none => exact Iff.rfl
  | some held => simp

theorem turnover_accounted (before after : Trace n) (past actions : List (Action n))
    (accounted : Accounted before past) (turnover : Turnover before after actions) :
    Accounted after (past ++ actions) := by
  have owned := lifetime_owned before after accounted.owned
    (turnover_lifetime before after actions turnover)
  have made : ∀ writer, constructions writer (past ++ actions) =
      constructions writer past + (actions.filterMap move).count (.made writer) := by
    intro writer
    rw [constructions, List.filterMap_append, List.count_append, constructions]
  have dropped : ∀ writer, deletions writer (past ++ actions) =
      deletions writer past + (actions.filterMap move).count (.dropped writer) := by
    intro writer
    rw [deletions, List.filterMap_append, List.count_append, deletions]
  cases turnover with
  | kept flag same counter _ quiet =>
      refine ⟨owned, ?_, ?_⟩
      · intro writer
        rw [made, quiet, counter]
        exact accounted.made writer
      · intro writer
        rw [made, dropped, quiet, holders_kept before after same]
        exact accounted.dropped writer
  | opened idle flag fresh counter opening =>
      have nobody := holders_none before (accounted.owned.closed idle)
      refine ⟨owned, ?_, ?_⟩
      · intro writer
        rw [made, opening, made_from_made, accounted.made, counter]
        split_ifs <;> omega
      · intro writer
        have before_ := accounted.dropped writer
        rw [nobody] at before_
        rw [made, dropped, opening, made_from_dropped, holders_fresh before.nextWriter after fresh]
        omega
  | closed flag gone counter _ closing =>
      refine ⟨owned, ?_, ?_⟩
      · intro writer
        rw [made, closing, dropped_all_made, counter]
        exact accounted.made writer
      · intro writer
        rw [made, dropped, closing, dropped_all_made, dropped_all_dropped,
          holders_none after gone]
        exact accounted.dropped writer

theorem install_accounted (n : Nat) : Accounted (install n) [] where
  owned := install_owned n
  made := fun writer => (if_neg (Nat.not_lt_zero writer)).symm
  dropped := fun writer => congrArg (0 + ·) (holders_none (install n) (fun _ => rfl) writer)

theorem run_accounted (events : List (System.Event n)) (final : Trace n)
    (actions : List (Action n)) (done : run System.step (install n) events = .ok (final, actions)) :
    Accounted final actions :=
  run_history_invariant System.step Accounted
    (fun trace past event next emitted accounted taken =>
      turnover_accounted trace next past emitted accounted
        (System.step_turnover trace next event emitted taken))
    (install n) final [] events actions (install_accounted n) done

/-- In every state that a run from installation reaches the writers are there exactly
while recording; each that was constructed is held by one vcpu or has been deleted, once,
and none is held any more when the recording has stopped; and no start finds one. -/
theorem writers_deleted_once (positive : 0 < n) (events : List (System.Event n)) (final : Trace n)
    (actions : List (Action n)) (done : run System.step (install n) events = .ok (final, actions)) :
    (final.recording = true ↔ ∀ vcpu, (final.output vcpu).isSome = true) ∧
    (final.recording = false ↔ ∀ vcpu, final.output vcpu = none) ∧
    (∀ writer, constructions writer actions ≤ 1 ∧
      deletions writer actions + holders final writer = constructions writer actions) ∧
    (final.recording = false → ∀ writer, deletions writer actions = constructions writer actions) ∧
    Along System.step
      (fun trace event => event.begins trace = true → ∀ vcpu, trace.output vcpu = none)
      (install n) events := by
  have accounted := run_accounted events final actions done
  have owned := accounted.owned
  have first : Fin n := ⟨0, positive⟩
  refine ⟨⟨owned.open_, ?_⟩, ⟨owned.closed, ?_⟩, ?_, ?_, ?_⟩
  · intro present
    by_contra stopped
    have none_ := owned.closed (by simpa using stopped) first
    have some_ := present first
    rw [none_] at some_
    contradiction
  · intro gone
    by_contra recording
    have some_ := owned.open_ (by simpa using recording) first
    rw [gone first] at some_
    contradiction
  · intro writer
    refine ⟨?_, accounted.dropped writer⟩
    rw [accounted.made writer]
    split <;> decide
  · intro stopped writer
    have sum := accounted.dropped writer
    rw [holders_none final (owned.closed stopped)] at sum
    exact sum
  · apply invariant_along System.step Owned _
      (fun trace event next emitted kept taken =>
        System.step_owned trace next event emitted kept taken) _ _ _ (install_owned n)
    intro trace event kept begins
    apply kept.closed
    cases event with
    | control event =>
        cases event with
        | command issuer answers command =>
            cases command with
            | start dir => simpa [System.Event.begins, Control.Event.begins] using begins
            | _ => contradiction
        | deferred index => contradiction
    | _ => contradiction

/-- Two stop requests before the first callback, and a new start between the two. -/
def stoppedTwice : List (System.Event 1) :=
  [.control (.command vcpu₀ ⟨0, none, fun _ => true⟩ (.start (some "d"))),
   .control (.command vcpu₀ ⟨0, none, fun _ => true⟩ .stop),
   .control (.command vcpu₀ ⟨0, none, fun _ => true⟩ .stop), .control (.deferred 0),
   .control (.command vcpu₀ ⟨0, none, fun _ => true⟩ (.start (some "d"))), .control (.deferred 0)]

theorem stopped_twice_deleted_once :
    ∃ final actions, run System.step (install 1) stoppedTwice = .ok (final, actions) ∧
      (final.recording = false ↔ ∀ vcpu, final.output vcpu = none) ∧
      ∀ writer, constructions writer actions ≤ 1 ∧
        deletions writer actions + holders final writer = constructions writer actions := by
  rcases writers_deleted_once Nat.one_pos stoppedTwice _ _ rfl with ⟨-, closed, account, -, -⟩
  exact ⟨_, _, rfl, closed, account⟩

end Hypersh.Lifetimes
