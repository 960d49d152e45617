import Mathlib.Algebra.Order.BigOperators.Group.Finset
import Mathlib.Data.Fintype.Basic
import Mathlib.Data.List.Nodup
import Mathlib.Logic.Function.Basic

/-!
A lock that one thread holds alone or several hold together, and what threads whose
program counters say what they hold may rely on.
-/
namespace Locks
variable {Thread : Type}

/-- A free lock is one that nobody shares. -/
inductive SharedMutex (Thread : Type) where
  | exclusive (owner : Thread)
  | shared (holders : List Thread)
  deriving DecidableEq, Repr

namespace SharedMutex
variable [DecidableEq Thread]

def free : SharedMutex Thread := .shared []

/-! Each operation is `none` where the thread would have to wait, or where it gives back
what it does not hold. -/

def lock (thread : Thread) : SharedMutex Thread → Option (SharedMutex Thread)
  | .shared [] => some (.exclusive thread)
  | _ => none

def unlock (thread : Thread) : SharedMutex Thread → Option (SharedMutex Thread)
  | .exclusive owner => if owner = thread then some free else none
  | .shared _ => none

def lockShared (thread : Thread) : SharedMutex Thread → Option (SharedMutex Thread)
  | .exclusive _ => none
  | .shared holders => some (.shared (thread :: holders))

def unlockShared (thread : Thread) : SharedMutex Thread → Option (SharedMutex Thread)
  | .exclusive _ => none
  | .shared holders => if thread ∈ holders then some (.shared (holders.erase thread)) else none

end SharedMutex

/-- What a program counter says its thread holds. -/
inductive Hold where
  | nothing
  | part
  | whole
  deriving DecidableEq, Repr

/-- The lock is held as the program counters say. -/
structure Guarded (mutex : SharedMutex Thread) (hold : Thread → Hold) : Prop where
  whole_iff : ∀ thread, hold thread = .whole ↔ mutex = .exclusive thread
  part_iff : ∀ thread, hold thread = .part ↔
    ∃ holders, mutex = .shared holders ∧ thread ∈ holders
  distinct : ∀ holders, mutex = .shared holders → holders.Nodup

theorem guarded_free (hold : Thread → Hold) (nobody : ∀ thread, hold thread = .nothing) :
    Guarded SharedMutex.free hold where
  whole_iff := fun thread => by simp [nobody, SharedMutex.free]
  part_iff := fun thread => by simp [nobody, SharedMutex.free]
  distinct := fun holders same => by
    cases same
    exact List.nodup_nil

theorem guarded_alone (mutex : SharedMutex Thread) (hold : Thread → Hold)
    (guarded : Guarded mutex hold) (owner other : Thread) (alone : hold owner = .whole)
    (holds : hold other ≠ .nothing) : other = owner := by
  have owned := (guarded.whole_iff owner).mp alone
  cases held : hold other with
  | nothing => exact absurd held holds
  | part =>
      obtain ⟨holders, shared, -⟩ := (guarded.part_iff other).mp held
      rw [owned] at shared
      cases shared
  | whole =>
      have same := (guarded.whole_iff other).mp held
      rw [owned] at same
      exact (SharedMutex.exclusive.inj same).symm

variable [DecidableEq Thread]

theorem guarded_kept (mutex : SharedMutex Thread) (hold : Thread → Hold) (thread : Thread)
    (held : Hold) (guarded : Guarded mutex hold) (same : hold thread = held) :
    Guarded mutex (Function.update hold thread held) := by
  rw [← same, Function.update_eq_self]
  exact guarded

theorem guarded_lock (mutex next : SharedMutex Thread) (hold : Thread → Hold) (thread : Thread)
    (guarded : Guarded mutex hold) (taken : mutex.lock thread = some next) :
    Guarded next (Function.update hold thread .whole) := by
  unfold SharedMutex.lock at taken
  split at taken
  · cases taken
    -- Nobody held the lock that was free.
    have nobody : ∀ other, hold other = .nothing := by
      intro other
      cases held : hold other with
      | nothing => rfl
      | part =>
          obtain ⟨holders, same, member⟩ := (guarded.part_iff other).mp held
          cases same
          exact absurd member List.not_mem_nil
      | whole => cases (guarded.whole_iff other).mp held
    constructor
    · intro other
      by_cases own : other = thread
      · simp [own]
      · simp [Function.update_of_ne own, nobody, Ne.symm own]
    · intro other
      by_cases own : other = thread
      · simp [own]
      · simp [Function.update_of_ne own, nobody]
    · intro holders same
      cases same
  · cases taken

theorem guarded_unlock (mutex next : SharedMutex Thread) (hold : Thread → Hold)
    (thread : Thread) (guarded : Guarded mutex hold) (freed : mutex.unlock thread = some next) :
    Guarded next (Function.update hold thread .nothing) := by
  unfold SharedMutex.unlock at freed
  split at freed
  · rename_i owner
    split at freed
    · rename_i same
      obtain rfl := same
      cases freed
      apply guarded_free
      intro other
      by_cases own : other = owner
      · rw [own, Function.update_self]
      · rw [Function.update_of_ne own]
        have alone := (guarded.whole_iff owner).mpr rfl
        by_contra holds
        exact own (guarded_alone _ hold guarded owner other alone holds)
    · cases freed
  · cases freed

theorem guarded_lock_shared (mutex next : SharedMutex Thread) (hold : Thread → Hold)
    (thread : Thread) (guarded : Guarded mutex hold) (nothing : hold thread = .nothing)
    (taken : mutex.lockShared thread = some next) :
    Guarded next (Function.update hold thread .part) := by
  unfold SharedMutex.lockShared at taken
  split at taken
  · cases taken
  · rename_i holders
    cases taken
    have absent : thread ∉ holders := by
      intro member
      have held := (guarded.part_iff thread).mpr ⟨holders, rfl, member⟩
      rw [nothing] at held
      cases held
    constructor
    · intro other
      have nobody := guarded.whole_iff other
      by_cases own : other = thread
      · simp [own]
      · simpa [Function.update_of_ne own] using nobody
    · intro other
      have shares := guarded.part_iff other
      by_cases own : other = thread
      · simp [own]
      · simpa [Function.update_of_ne own, own] using shares
    · intro others same
      cases same
      exact List.nodup_cons.mpr ⟨absent, guarded.distinct holders rfl⟩

theorem guarded_unlock_shared (mutex next : SharedMutex Thread) (hold : Thread → Hold)
    (thread : Thread) (guarded : Guarded mutex hold)
    (freed : mutex.unlockShared thread = some next) :
    Guarded next (Function.update hold thread .nothing) := by
  unfold SharedMutex.unlockShared at freed
  split at freed
  · cases freed
  · rename_i holders
    split at freed
    · cases freed
      have distinct := guarded.distinct holders rfl
      constructor
      · intro other
        have nobody := guarded.whole_iff other
        by_cases own : other = thread
        · simp [own]
        · simpa [Function.update_of_ne own] using nobody
      · intro other
        have shares := guarded.part_iff other
        by_cases own : other = thread
        · simp [own, distinct.mem_erase_iff]
        · simpa [Function.update_of_ne own, List.mem_erase_of_ne own] using shares
      · intro others same
        cases same
        exact distinct.erase thread
    · cases freed

/-- A thread can always give back what its program counter says it holds. -/
theorem guarded_release (mutex : SharedMutex Thread) (hold : Thread → Hold) (thread : Thread)
    (guarded : Guarded mutex hold) :
    (hold thread = .whole → ∃ next, mutex.unlock thread = some next) ∧
      (hold thread = .part → ∃ next, mutex.unlockShared thread = some next) := by
  constructor
  · intro alone
    rw [(guarded.whole_iff thread).mp alone]
    exact ⟨_, if_pos rfl⟩
  · intro shares
    obtain ⟨holders, rfl, member⟩ := (guarded.part_iff thread).mp shares
    exact ⟨_, if_pos member⟩

/-! Where the threads are. -/

variable {Phase : Type}

structure Threads (Thread Phase : Type) where
  phase : Thread → Phase

namespace Threads

def move (threads : Threads Thread Phase) (thread : Thread) (phase : Phase) :
    Threads Thread Phase :=
  ⟨Function.update threads.phase thread phase⟩

def hold (holds : Phase → Hold) (threads : Threads Thread Phase) : Thread → Hold :=
  fun thread => holds (threads.phase thread)

end Threads

theorem move_phase (threads : Threads Thread Phase) (thread other : Thread) (phase : Phase) :
    (threads.move thread phase).phase other =
      if other = thread then phase else threads.phase other :=
  Function.update_apply threads.phase thread phase other

theorem move_hold (holds : Phase → Hold) (threads : Threads Thread Phase) (thread : Thread)
    (phase : Phase) :
    (threads.move thread phase).hold holds =
      Function.update (threads.hold holds) thread (holds phase) :=
  Function.comp_update holds threads.phase thread phase

variable [Fintype Thread]

def census (weight : Phase → Nat) (phase : Thread → Phase) : Nat :=
  Finset.univ.sum fun thread => weight (phase thread)

theorem census_update (weight : Phase → Nat) (phase : Thread → Phase) (thread : Thread)
    (next : Phase) :
    census weight (Function.update phase thread next) + weight (phase thread) =
      census weight phase + weight next := by
  have others : ∀ other ∈ Finset.univ.erase thread,
      weight (Function.update phase thread next other) = weight (phase other) := by
    intro other member
    rw [Function.update_of_ne (Finset.ne_of_mem_erase member)]
  have before := Finset.add_sum_erase Finset.univ (fun other => weight (phase other))
    (Finset.mem_univ thread)
  have after := Finset.add_sum_erase Finset.univ
    (fun other => weight (Function.update phase thread next other)) (Finset.mem_univ thread)
  rw [Finset.sum_congr rfl others, Function.update_self] at after
  unfold census
  omega

omit [DecidableEq Thread] in
theorem census_nobody (weight : Phase → Nat) (phase : Thread → Phase)
    (nobody : ∀ thread, weight (phase thread) = 0) : census weight phase = 0 :=
  Finset.sum_eq_zero fun thread _ => nobody thread

omit [DecidableEq Thread] in
theorem census_bounded (weight : Phase → Nat) (phase : Thread → Phase) (bound : Nat)
    (each : ∀ thread, weight (phase thread) ≤ bound) :
    census weight phase ≤ Fintype.card Thread * bound :=
  Finset.sum_le_card_nsmul Finset.univ _ bound fun thread _ => each thread

end Locks
