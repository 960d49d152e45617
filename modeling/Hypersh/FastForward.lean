import Mathlib.Data.List.Basic
import Mathlib.Algebra.GroupWithZero.Nat
import Mathlib.Data.UInt
import Mathlib.Tactic.SplitIfs
import Hypersh.Transduction
import Hypersh.Callbacks
import Hypersh.Blocks
import Hypersh.Footprint
import Hypersh.Timeline
import Hypersh.CacheOnly

/-!
Accounting of fast-forward instructions. `icount_reported` is filled by the
fast-forward path, which empties it into an InstructionCount, and by both
cache-only senders, which empty it with a Sync. The books keep apart what the
code adds up in one field.
-/
namespace Hypersh.FastForward
open Callbacks Blocks Footprint Timeline Transduction
open CacheOnly (record records records_append)

def counted : Call → Option UInt64
  | .instructionCount icount => some icount
  | _ => none

def countedSum (calls : List Call) : UInt64 := (calls.filterMap counted).sum

def delivered (calls : List Call) : UInt64 :=
  ((records calls).map CacheOnly.Record.icount).sum

theorem delivered_silent (calls : List Call) (silent : records calls = []) :
    delivered calls = 0 := by
  rw [delivered, silent]
  rfl

/-- What has been written since the last start or reset: the InstructionCount
arguments, and the CacheOnly icounts since `icount_reported` was last emptied. -/
structure Ledger where
  sent : UInt64
  mixed : UInt64
  deriving DecidableEq, Repr

def flushes : Event → List Call → Bool
  | .invoke (.exec .countInsns _ _), calls => !calls.isEmpty
  | .invoke (.exec .branchCacheonly _ _), calls => decide (.sync ∈ calls)
  | .invoke (.mem .sendCacheonly _ _ _), calls => decide (.sync ∈ calls)
  | _, _ => false

def enter (_ : Entry) (event : Event) (calls : List Call) (ledger : Ledger) : Ledger :=
  match event with
  | .between (.start _ _) | .between .reset => ⟨0, 0⟩
  | _ => ⟨ledger.sent + countedSum calls,
      if flushes event calls then 0 else ledger.mixed + delivered calls⟩

structure Books where
  icount : UInt64
  reported : UInt64
  ledger : Ledger
  deriving DecidableEq, Repr

def books (thread : ThreadData) (ledger : Ledger) : Books :=
  ⟨thread.icount, thread.icountReported, ledger⟩

/-- What an event is to the books. -/
inductive Kind where
  | still
  | clear
  | fast (count : UInt64)
  | record (pending : UInt64)
  deriving DecidableEq, Repr

def kindOf (entry : Entry) : Event → Kind
  | .between (.start _ _) | .between .reset => .clear
  | .invoke (.exec .countInsns count _) => .fast count
  | .invoke (.exec .branchCacheonly _ _) =>
      if entry.vcpu.data.brAddr = 0 then .still else .record entry.vcpu.data.icountCacheonlyPending
  | .invoke (.mem .sendCacheonly _ _ _) => .record entry.vcpu.data.icountCacheonlyPending
  | _ => .still

def post : Kind → Books → Books
  | .still, before => before
  | .clear, _ => ⟨0, 0, ⟨0, 0⟩⟩
  | .fast count, ⟨icount, reported, sent, mixed⟩ =>
      if flowControlFF < reported + count then
        ⟨icount + count, 0, ⟨sent + (reported + count), 0⟩⟩
      else ⟨icount + count, reported + count, ⟨sent, mixed⟩⟩
  | .record pending, ⟨icount, reported, sent, mixed⟩ =>
      if flowControlFF < reported + pending then ⟨icount, 0, ⟨sent, 0⟩⟩
      else ⟨icount, reported + pending, ⟨sent, mixed + pending⟩⟩

structure Silent (thread : ThreadData) (result : Effect) : Prop where
  icount : result.1.icount = thread.icount
  reported : result.1.icountReported = thread.icountReported
  counted : result.2.filterMap counted = []
  records : records result.2 = []

def Continues (event : Event) : Prop :=
  (∀ threadid writer, event ≠ .between (.start threadid writer)) ∧ event ≠ .between .reset

theorem continues_invoke (invocation : Invocation) : Continues (.invoke invocation) := by
  constructor
  · intro threadid writer same
    cases same
  · intro same
    cases same

theorem silent_posted (entry : Entry) (event : Event) (thread : ThreadData) (result : Effect)
    (ledger : Ledger) (silent : Silent thread result) (kept : flushes event result.2 = false)
    (running : Continues event) :
    books result.1 (enter entry event result.2 ledger) = books thread ledger := by
  have none_ : countedSum result.2 = 0 := by
    rw [countedSum, silent.counted]
    rfl
  have noted : enter entry event result.2 ledger = ledger := by
    unfold enter
    split
    · exact absurd rfl (running.1 _ _)
    · exact absurd rfl running.2
    · rw [none_, kept, delivered_silent _ silent.records]
      simp
  rw [books, silent.icount, silent.reported, noted]
  rfl

theorem count_insns_posted (entry : Entry) (count : UInt64) (cpu : Cpu) (thread : ThreadData)
    (ledger : Ledger) :
    books (tbExecCountInsns count thread).1
        (enter entry (.invoke (.exec .countInsns count cpu)) (tbExecCountInsns count thread).2
          ledger) =
      post (.fast count) (books thread ledger) := by
  unfold tbExecCountInsns
  by_cases full : flowControlFF < thread.icountReported + count
  · simp [post, books, full, enter, flushes, countedSum, counted]
  · simp [post, books, full, enter, flushes, countedSum, delivered, records]

/-- A cache-only sender: the pending count goes into a record and a full quota is
emptied with a Sync. -/
theorem record_posted (entry : Entry) (event : Event) (thread consumed : ThreadData)
    (sent : List Call) (ledger : Ledger)
    (sender : ∀ calls, flushes event calls = decide (.sync ∈ calls))
    (running : Continues event)
    (icount : consumed.icount = thread.icount)
    (reported : consumed.icountReported =
      thread.icountReported + thread.icountCacheonlyPending)
    (recorded : delivered sent = thread.icountCacheonlyPending)
    (quiet : sent.filterMap counted = [] ∧ .sync ∉ sent) :
    books (syncReported consumed).1
        (enter entry event (sent ++ (syncReported consumed).2) ledger) =
      post (.record thread.icountCacheonlyPending) (books thread ledger) := by
  -- A sender writes a Sync only in its tail, so the Sync tells that the field was emptied.
  have noted : enter entry event (sent ++ (syncReported consumed).2) ledger =
      ⟨ledger.sent + countedSum (sent ++ (syncReported consumed).2),
        if .sync ∈ sent ++ (syncReported consumed).2 then 0
        else ledger.mixed + delivered (sent ++ (syncReported consumed).2)⟩ := by
    unfold enter
    split
    · exact absurd rfl (running.1 _ _)
    · exact absurd rfl running.2
    · simp [sender]
  have none_ : countedSum (sent ++ (syncReported consumed).2) = 0 := by
    rw [countedSum, List.filterMap_append, quiet.1]
    unfold syncReported
    split <;> rfl
  rw [noted, none_]
  unfold syncReported
  by_cases full : flowControlFF < thread.icountReported + thread.icountCacheonlyPending
  · simp [post, books, reported, icount, full]
  · simp [post, books, reported, icount, full, quiet.2, recorded]

theorem mem_send_posted (entry : Entry) (access : Access) (ramAddr : UInt64) (cpu : Cpu)
    (thread : ThreadData) (ledger : Ledger) :
    books (memSendCacheonly access ramAddr thread).1
        (enter entry (.invoke (.mem .sendCacheonly ramAddr cpu access))
          (memSendCacheonly access ramAddr thread).2 ledger) =
      post (.record thread.icountCacheonlyPending) (books thread ledger) := by
  unfold memSendCacheonly
  by_cases none_ : thread.icountCacheonlyPending = 0
  · simp only [none_, ne_eq, not_true_eq_false, ↓reduceIte]
    have posted := record_posted entry (.invoke (.mem .sendCacheonly ramAddr cpu access)) thread
      thread ([.translate access.vaddr access.paddr] ++
        [.cacheOnly 0 (if access.isStore then .memWrite else .memRead) thread.pc access.vaddr])
      ledger (fun _ => rfl) (continues_invoke _) rfl
      (by rw [none_, UInt64.add_zero]) (by rw [none_]; rfl) ⟨rfl, by simp⟩
    rwa [none_] at posted
  · simp only [none_, ne_eq, not_false_eq_true, ↓reduceIte]
    apply record_posted entry (.invoke (.mem .sendCacheonly ramAddr cpu access)) thread
      (consumePending thread) _ ledger (fun _ => rfl)
      (continues_invoke _) rfl rfl
    · simp [delivered, records, record, List.filterMap_cons]
    · exact ⟨rfl, by simp⟩

theorem branch_cacheonly_posted (entry : Entry) (ramAddr : UInt64) (cpu : Cpu)
    (ledger : Ledger) (result : Effect)
    (done : tbExecBranchCacheonly ramAddr entry.vcpu.data = .ok result) :
    books result.1 (enter entry (.invoke (.exec .branchCacheonly ramAddr cpu)) result.2 ledger) =
      post (kindOf entry (.invoke (.exec .branchCacheonly ramAddr cpu)))
        (books entry.vcpu.data ledger) := by
  rcases branch_cacheonly_cases ramAddr entry.vcpu.data result done with
    ⟨clear, rfl⟩ | ⟨waiting, -, rfl⟩
  · rw [kindOf, if_pos clear]
    exact silent_posted entry _ entry.vcpu.data (entry.vcpu.data, []) ledger ⟨rfl, rfl, rfl, rfl⟩
      rfl (continues_invoke _)
  · rw [kindOf, if_neg waiting]
    apply record_posted entry (.invoke (.exec .branchCacheonly ramAddr cpu)) entry.vcpu.data
      (clearBranch (consumePending entry.vcpu.data)) _ ledger (fun _ => rfl)
      (continues_invoke _) rfl rfl
    · simp [delivered, records, record, List.filterMap_cons]
    · exact ⟨rfl, by simp⟩

theorem exec_silent (globals : Globals) (cpu : Cpu) (userdata : UInt64) (thread : ThreadData)
    (callback : ExecCallback) (result : Effect)
    (other : callback ≠ .countInsns ∧ callback ≠ .branchCacheonly)
    (done : execEffect globals cpu userdata thread callback = .ok result) :
    Silent thread result := by
  have kept := exec_written globals cpu userdata thread callback result done
  have calls := exec_may_call globals cpu userdata thread callback result done
  constructor
  · rw [kept]
    cases callback with
    | countInsns => exact absurd rfl other.1
    | _ => rfl
  · rw [kept]
    cases callback with
    | countInsns => exact absurd rfl other.1
    | branchCacheonly => exact absurd rfl other.2
    | _ => rfl
  · apply unread counted _ _ calls
    intro call may
    cases call with
    | instructionCount icount => cases callback <;> contradiction
    | _ => rfl
  · apply unread record _ _ calls
    intro call may
    cases call with
    | cacheOnly icount type eip address =>
        cases callback <;> contradiction
    | _ => rfl

theorem mem_silent (globals : Globals) (cpu : Cpu) (userdata : UInt64) (access : Access)
    (thread : ThreadData) (callback : MemCallback) (other : callback ≠ .sendCacheonly) :
    Silent thread (memEffect globals cpu userdata access thread callback) := by
  have kept := mem_written globals cpu userdata access thread callback
  have calls := mem_may_call globals cpu userdata access thread callback
  constructor
  · rw [kept]
    cases callback <;> rfl
  · rw [kept]
    cases callback with
    | sendCacheonly => exact absurd rfl other
    | updatePc | sendDetailed => rfl
  · apply unread counted _ _ calls
    intro call may
    cases call with
    | instructionCount icount => cases callback <;> contradiction
    | _ => rfl
  · apply unread record _ _ calls
    intro call may
    cases call with
    | cacheOnly icount type eip address =>
        cases callback <;> contradiction
    | _ => rfl

theorem between_silent (entry : Entry) (happened : Between) (kept : happened ≠ .reset)
    (running : ∀ threadid writer, happened ≠ .start threadid writer) :
    Silent entry.vcpu.data
      ((between entry happened).1.vcpu.data, (between entry happened).2) := by
  cases happened with
  | start threadid writer => exact absurd rfl (running threadid writer)
  | reset => exact absurd rfl kept
  | notice notice => cases notice <;> exact ⟨rfl, rfl, rfl, rfl⟩
  | mode | roi | magic => exact ⟨rfl, rfl, rfl, rfl⟩
  | closed =>
      dsimp only [between, Entry.update, Entry.setData, closeFile]
      split_ifs <;> exact ⟨rfl, rfl, rfl, rfl⟩
  | idle =>
      constructor
      all_goals
        dsimp only [between, Entry.update, Entry.setData, vcpuIdleCb]
        split_ifs <;> rfl
  | resume =>
      constructor
      all_goals
        dsimp only [between, Entry.update, Entry.setData, vcpuResumeCb]
        split_ifs <;> rfl
  | interrupt =>
      dsimp only [between, Entry.update, Entry.setData, vcpuInterruptCb]
      split_ifs <;> exact ⟨rfl, rfl, rfl, rfl⟩
  | interruptRet =>
      dsimp only [between, Entry.update, Entry.setData, vcpuInterruptRetCb]
      split_ifs <;> exact ⟨rfl, rfl, rfl, rfl⟩

theorem step_posted (watched next : Entry × Ledger) (event : Event) (calls : List Call)
    (taken : watch step enter watched event = .ok (next, calls)) :
    books next.1.vcpu.data next.2 =
      post (kindOf watched.1 event) (books watched.1.vcpu.data watched.2) := by
  rcases next with ⟨reached, written⟩
  rcases (watch_iff _ _ _ _ _ _).mp taken with ⟨stepped, noted⟩
  simp only at stepped noted
  rw [noted]
  cases event with
  | between happened =>
      have same : between watched.1 happened = (reached, calls) := Except.ok.inj stepped
      by_cases begun : ∃ threadid writer, happened = .start threadid writer
      · rcases begun with ⟨threadid, writer, rfl⟩
        cases same
        rfl
      · by_cases zeroed : happened = .reset
        · subst zeroed
          cases same
          rfl
        · have silent := between_silent watched.1 happened zeroed
            fun _ _ same => begun ⟨_, _, same⟩
          rw [same] at silent
          have still : kindOf watched.1 (.between happened) = .still := by
            cases happened <;> first | rfl | simp_all
          rw [still]
          apply silent_posted watched.1 (.between happened) watched.1.vcpu.data
            (reached.vcpu.data, calls) watched.2 silent rfl
          constructor
          · intro threadid writer started
            exact begun ⟨threadid, writer, Event.between.inj started⟩
          · intro reset
            exact zeroed (Event.between.inj reset)
  | invoke invocation =>
      have done := (step_invoke _ _ _ _ stepped).1
      have running := continues_invoke invocation
      cases invocation with
      | mem callback userdata cpu access =>
          have same := Except.ok.inj done
          -- Among the memory callbacks only the cache-only sender posts.
          by_cases sender : callback = .sendCacheonly
          · subst sender
            have posted := mem_send_posted watched.1 access userdata cpu watched.1.vcpu.data
              watched.2
            rwa [show memSendCacheonly access userdata watched.1.vcpu.data = _ from same] at posted
          · have silent := mem_silent watched.1.globals cpu userdata access watched.1.vcpu.data
              callback sender
            rw [same] at silent
            have still : kindOf watched.1 (.invoke (.mem callback userdata cpu access)) = .still := by
              cases callback <;> first | rfl | contradiction
            rw [still]
            apply silent_posted watched.1 _ watched.1.vcpu.data (reached.vcpu.data, calls) _ silent _
                running
            cases callback <;> first | rfl | contradiction
      | exec callback userdata cpu =>
          by_cases counter : callback = .countInsns
          · subst counter
            have posted := count_insns_posted watched.1 userdata cpu watched.1.vcpu.data watched.2
            have same : tbExecCountInsns userdata watched.1.vcpu.data = _ := Except.ok.inj done
            rwa [same] at posted
          · by_cases sender : callback = .branchCacheonly
            · subst sender
              exact branch_cacheonly_posted watched.1 userdata cpu watched.2 _ done
            · have silent := exec_silent _ _ _ _ callback _ ⟨counter, sender⟩ done
              have still : kindOf watched.1 (.invoke (.exec callback userdata cpu)) = .still := by
                cases callback <;> first | rfl | contradiction
              rw [still]
              apply silent_posted watched.1 _ watched.1.vcpu.data (reached.vcpu.data, calls) _ silent _
                running
              cases callback <;> first | rfl | contradiction

/-! Conservation. -/

/-- `icount_reported` is emptied only while it holds instructions of one kind:
an InstructionCount finds no cache-only instructions in it, a Sync of a
cache-only sender no fast-forward ones. No addition wraps. -/
def Unmixed (watched : Entry × Ledger) (event : Event) : Prop :=
  match kindOf watched.1 event with
  | .still | .clear => True
  | .fast count => count.toNat + flowControlFF.toNat < 2 ^ 64 ∧
      (flowControlFF < watched.1.vcpu.data.icountReported + count → watched.2.mixed = 0)
  | .record pending => pending.toNat + flowControlFF.toNat < 2 ^ 64 ∧
      (flowControlFF < watched.1.vcpu.data.icountReported + pending →
        watched.1.vcpu.data.icount = watched.2.sent)

instance decidableUnmixed (watched : Entry × Ledger) (event : Event) :
    Decidable (Unmixed watched event) := by
  unfold Unmixed
  split <;> infer_instance

def Balanced (books : Books) : Prop :=
  ∃ remainder, books.icount = books.ledger.sent + remainder ∧
    remainder.toNat + books.ledger.mixed.toNat = books.reported.toNat ∧
    books.reported ≤ flowControlFF

/-- What has been executed in fast-forward is what InstructionCounts said plus a
remainder of at most one quota. -/
def Conserved (watched : Entry × Ledger) : Prop :=
  ∃ remainder, remainder ≤ flowControlFF ∧
    watched.1.vcpu.data.icount = watched.2.sent + remainder

theorem add_below (left right : UInt64) (low : left ≤ flowControlFF)
    (room : right.toNat + flowControlFF.toNat < 2 ^ 64) :
    (left + right).toNat = left.toNat + right.toNat := by
  rw [UInt64.toNat_add]
  apply Nat.mod_eq_of_lt
  have bound : left.toNat ≤ flowControlFF.toNat := low
  omega

theorem remainder_below (books : Books) (remainder : UInt64)
    (parts : remainder.toNat + books.ledger.mixed.toNat = books.reported.toNat)
    (low : books.reported ≤ flowControlFF) :
    remainder ≤ flowControlFF ∧ books.ledger.mixed ≤ flowControlFF := by
  have bound : books.reported.toNat ≤ flowControlFF.toNat := low
  constructor
  · rw [UInt64.le_iff_toNat_le]
    omega
  · rw [UInt64.le_iff_toNat_le]
    omega

theorem fast_balanced (before : Books) (count : UInt64) (balanced : Balanced before)
    (room : count.toNat + flowControlFF.toNat < 2 ^ 64)
    (pure_ : flowControlFF < before.reported + count → before.ledger.mixed = 0) :
    Balanced (post (.fast count) before) := by
  rcases balanced with ⟨remainder, sum, parts, low⟩
  rcases remainder_below before remainder parts low with ⟨lowRemainder, -⟩
  rcases before with ⟨icount, reported, sent, mixed⟩
  simp only at sum parts low pure_
  by_cases full : flowControlFF < reported + count
  -- With no cache-only part the field is the remainder itself.
  · have whole : remainder = reported := by
      apply UInt64.toNat_inj.mp
      simpa [pure_ full] using parts
    refine ⟨0, ?_, ?_, ?_⟩
    · simp only [post, full, ↓reduceIte]
      rw [sum, whole, UInt64.add_zero, UInt64.add_assoc]
    · simp [post, full]
    · simp [post, full]
  · refine ⟨remainder + count, ?_, ?_, ?_⟩
    · simp only [post, full, ↓reduceIte]
      rw [sum, UInt64.add_assoc]
    · simp only [post, full, ↓reduceIte]
      rw [add_below remainder count lowRemainder room, add_below reported count low room]
      omega
    · simpa only [post, full, ↓reduceIte] using UInt64.not_lt.mp full

theorem record_balanced (before : Books) (pending : UInt64) (balanced : Balanced before)
    (room : pending.toNat + flowControlFF.toNat < 2 ^ 64)
    (pure_ : flowControlFF < before.reported + pending → before.icount = before.ledger.sent) :
    Balanced (post (.record pending) before) := by
  rcases balanced with ⟨remainder, sum, parts, low⟩
  rcases remainder_below before remainder parts low with ⟨-, lowMixed⟩
  rcases before with ⟨icount, reported, sent, mixed⟩
  simp only at sum parts low pure_ lowMixed
  by_cases full : flowControlFF < reported + pending
  · refine ⟨0, ?_, ?_, ?_⟩
    · simpa [post, full] using pure_ full
    · simp [post, full]
    · simp [post, full]
  · refine ⟨remainder, ?_, ?_, ?_⟩
    · simpa only [post, full, ↓reduceIte] using sum
    · simp only [post, full, ↓reduceIte]
      rw [add_below mixed pending lowMixed room, add_below reported pending low room]
      omega
    · simpa only [post, full, ↓reduceIte] using UInt64.not_lt.mp full

theorem balanced_zero : Balanced ⟨0, 0, ⟨0, 0⟩⟩ :=
  ⟨0, rfl, rfl, by decide⟩

theorem step_balanced (watched next : Entry × Ledger) (event : Event) (calls : List Call)
    (balanced : Balanced (books watched.1.vcpu.data watched.2)) (unmixed : Unmixed watched event)
    (taken : watch step enter watched event = .ok (next, calls)) :
    Balanced (books next.1.vcpu.data next.2) := by
  rw [step_posted watched next event calls taken]
  unfold Unmixed at unmixed
  cases kind : kindOf watched.1 event with
  | still => exact balanced
  | clear => exact balanced_zero
  | fast count =>
      rw [kind] at unmixed
      exact fast_balanced _ count balanced unmixed.1 unmixed.2
  | record pending =>
      rw [kind] at unmixed
      exact record_balanced _ pending balanced unmixed.1 unmixed.2

theorem counted_by_count_insns (entry next : Entry) (event : Event) (calls : List Call)
    (icount : UInt64) (taken : step entry event = .ok (next, calls))
    (written : .instructionCount icount ∈ calls) :
    ∃ count cpu, event = .invoke (.exec .countInsns count cpu) := by
  have seen : icount ∈ calls.filterMap counted :=
    List.mem_filterMap.mpr ⟨.instructionCount icount, written, rfl⟩
  have uncounted : calls.filterMap counted ≠ [] := List.ne_nil_of_mem seen
  cases event with
  | between happened =>
      have same : between entry happened = (next, calls) := Except.ok.inj taken
      by_cases begun : ∃ threadid writer, happened = .start threadid writer
      · rcases begun with ⟨threadid, writer, rfl⟩
        cases congrArg Prod.snd same
        contradiction
      · by_cases zeroed : happened = .reset
        · subst zeroed
          cases congrArg Prod.snd same
          contradiction
        · have silent := between_silent entry happened zeroed fun _ _ same => begun ⟨_, _, same⟩
          rw [same] at silent
          exact absurd silent.counted uncounted
  | invoke invocation =>
      have done := (step_invoke _ _ _ _ taken).1
      cases invocation with
      | mem callback userdata cpu access =>
          have calls := mem_may_call entry.globals cpu userdata access entry.vcpu.data callback
          rw [show memEffect entry.globals cpu userdata access entry.vcpu.data callback = _ from
            Except.ok.inj done] at calls
          have may := List.all_eq_true.mp calls _ written
          cases callback <;> contradiction
      | exec callback userdata cpu =>
          have may := List.all_eq_true.mp (exec_may_call _ _ _ _ callback _ done) _ written
          cases callback <;> first | contradiction | exact ⟨userdata, cpu, rfl⟩

/-- An InstructionCount brings the sum up to the instructions executed: it holds
the remainder and the block that was just counted, and nothing else. -/
theorem instruction_count_exact (watched next : Entry × Ledger) (event : Event)
    (calls : List Call) (icount : UInt64)
    (balanced : Balanced (books watched.1.vcpu.data watched.2)) (unmixed : Unmixed watched event)
    (taken : watch step enter watched event = .ok (next, calls))
    (written : .instructionCount icount ∈ calls) :
    next.1.vcpu.data.icount = watched.2.sent + icount := by
  rcases (watch_iff _ _ _ _ _ _).mp taken with ⟨stepped, -⟩
  rcases counted_by_count_insns _ _ event calls icount stepped written with ⟨count, cpu, rfl⟩
  have same : tbExecCountInsns count watched.1.vcpu.data = (next.1.vcpu.data, calls) :=
    Except.ok.inj (step_invoke _ _ _ _ stepped).1
  have data : (tbExecCountInsns count watched.1.vcpu.data).1 = next.1.vcpu.data :=
    congrArg Prod.fst same
  have emitted : (tbExecCountInsns count watched.1.vcpu.data).2 = calls := congrArg Prod.snd same
  rcases balanced with ⟨remainder, sum, parts, -⟩
  have total : next.1.vcpu.data.icount = watched.1.vcpu.data.icount + count := by
    rw [← data]
    dsimp only [tbExecCountInsns]
    split_ifs <;> rfl
  by_cases full : flowControlFF < watched.1.vcpu.data.icountReported + count
  · have sent : calls = [.instructionCount (watched.1.vcpu.data.icountReported + count)] := by
      rw [← emitted]
      simp [tbExecCountInsns, full]
    rw [sent, List.mem_singleton, Call.instructionCount.injEq] at written
    -- The quota is passed, so the condition leaves no cache-only part in the field.
    have whole : remainder = watched.1.vcpu.data.icountReported := by
      have none_ : watched.2.mixed = 0 := unmixed.2 full
      apply UInt64.toNat_inj.mp
      simpa [books, none_] using parts
    rw [total, written, show watched.1.vcpu.data.icount = _ from sum, whole, UInt64.add_assoc]
    rfl
  · have empty : calls = [] := by
      rw [← emitted]
      simp [tbExecCountInsns, full]
    rw [empty] at written
    contradiction

/-- In every run in which the field is emptied unmixed, the InstructionCounts and
a remainder of at most one quota add up to the fast-forward instructions, and each
InstructionCount leaves no remainder: cache-only instructions are in none of them. -/
theorem fast_forward_conserved (events : List Event) (event : Event) (final next : Entry)
    (ledger after : Ledger) (calls late : List Call)
    (unmixed : Along (watch step enter) Unmixed (fresh, ⟨0, 0⟩) (events ++ [event]))
    (done : run (watch step enter) (fresh, ⟨0, 0⟩) events = .ok ((final, ledger), calls))
    (taken : watch step enter (final, ledger) event = .ok ((next, after), late)) :
    Conserved (final, ledger) ∧ Conserved (next, after) ∧
      ∀ icount, .instructionCount icount ∈ late → next.vcpu.data.icount = ledger.sent + icount := by
  rcases (along_append _ _ _ _ _ _ _ done).mp unmixed with ⟨front, here, -⟩
  have balanced : Balanced (books final.vcpu.data ledger) :=
    along_invariant (watch step enter) Unmixed
      (fun watched => Balanced (books watched.1.vcpu.data watched.2))
      (fun watched event next emitted holds kept stepped =>
        step_balanced watched next event emitted holds kept stepped)
      (fresh, ⟨0, 0⟩) (final, ledger) events calls front balanced_zero done
  have balanced' := step_balanced _ _ event late balanced here taken
  constructor
  · rcases balanced with ⟨remainder, sum, parts, low⟩
    exact ⟨remainder, (remainder_below _ _ parts low).1, sum⟩
  · constructor
    · rcases balanced' with ⟨remainder, sum, parts, low⟩
      exact ⟨remainder, (remainder_below _ _ parts low).1, sum⟩
    · intro icount written
      exact instruction_count_exact _ _ event late icount balanced here taken written

/-! A stretch of fast-forward blocks. -/

theorem body_icount (block : BlockRun) : block.body .icount = [] := by
  apply List.flatMap_eq_nil_iff.mpr
  rintro ⟨started, index⟩ -
  have none_ : started.accesses.flatMap (accessInvocations []) = [] :=
    List.flatMap_eq_nil_iff.mpr fun _ _ => rfl
  exact none_

def insnCount (block : BlockRun) : UInt64 := UInt64.ofNat block.tb.insns.length

theorem icount_events (block : BlockRun) : Moment.events (.block .icount block) =
    [.invoke (.exec .hotBlocks block.tb.vaddr block.cpu),
     .invoke (.exec .countInsns (insnCount block) block.cpu)] := by
  rw [Moment.events, BlockRun.invocations, body_icount]
  rfl

theorem icount_blocks_posted (blocks : List BlockRun) (watched : Entry × Ledger) :
    ∃ final calls, run (watch step enter) watched
        ((blocks.map (Moment.block .icount)).flatMap Moment.events) = .ok (final, calls) ∧
      books final.1.vcpu.data final.2 =
        (blocks.map insnCount).foldl (fun before count => post (.fast count) before)
          (books watched.1.vcpu.data watched.2) := by
  induction blocks generalizing watched with
  | nil => exact ⟨watched, [], rfl, rfl⟩
  | cons block rest ih =>
      rcases map_ok (watch step enter watched
        (.invoke (.exec .hotBlocks block.tb.vaddr block.cpu))) (fun _ => ()) () rfl with
        ⟨⟨entered, hot⟩, first, -⟩
      rcases map_ok (watch step enter entered
        (.invoke (.exec .countInsns (insnCount block) block.cpu))) (fun _ => ()) () rfl with
        ⟨⟨middle, early⟩, second, -⟩
      rcases ih middle with ⟨final, late, tail, posted⟩
      refine ⟨final, hot ++ (early ++ late), ?_, ?_⟩
      · rw [List.map_cons, List.flatMap_cons, icount_events]
        exact run_cons_ok _ _ _ _ _ _ _ _ first (run_cons_ok _ _ _ _ _ _ _ _ second tail)
      · have counted := step_posted _ _ _ _ second
        have entered_ := step_posted _ _ _ _ first
        rw [posted, counted, entered_]
        rfl

theorem straight_block_count (vaddr ramAddr : UInt64) (length : Nat) :
    insnCount (straightBlock vaddr ramAddr length) = UInt64.ofNat (length + 1) := by
  rw [insnCount, straightBlock, List.length_map, List.length_range]

def counting (count : UInt64) : Event := .invoke (.exec .countInsns count ⟨false, 0⟩)

/-- Two blocks that fill a quota and a third, a jump through memory in cache-only mode,
and after a reset most of a quota. -/
def crossedModes : List Event :=
  [.between (.start 0 0), counting 60000, counting 50000, counting 300,
    .between (.mode .memory)] ++
  Moment.events (.block .memory (jumpBlock 0x1000 0x9000 [⟨0x5000, 0xd000, false⟩])) ++
  [.between (.mode .icount), counting 200, .between .reset, counting 70000]

theorem crossed_modes_conserved :
    ∃ final next ledger after calls late,
      run (watch step enter) (fresh, ⟨0, 0⟩) crossedModes = .ok ((final, ledger), calls) ∧
      watch step enter (final, ledger) (counting 40000) = .ok ((next, after), late) ∧
      calls.filterMap counted = [110000] ∧ late = [.instructionCount 110000] ∧
      (records calls).length = 1 ∧ Conserved (final, ledger) ∧ Conserved (next, after) ∧
      next.vcpu.data.icount = ledger.sent + 110000 := by
  obtain ⟨⟨⟨final, ledger⟩, calls⟩, done, seen⟩ :=
    map_ok (run (watch step enter) (fresh, ⟨0, 0⟩) crossedModes)
      (fun result => (result.2.filterMap counted, (records result.2).length,
        books result.1.1.vcpu.data result.1.2)) ([110000], 1, ⟨70000, 70000, ⟨0, 0⟩⟩) rfl
  obtain ⟨counts, seen⟩ := Prod.mk.inj seen
  obtain ⟨recorded, held⟩ := Prod.mk.inj seen
  have reported : final.vcpu.data.icountReported = 70000 := congrArg Books.reported held
  have full : (tbExecCountInsns 40000 final.vcpu.data).2 = [.instructionCount 110000] := by
    unfold tbExecCountInsns
    dsimp only
    rw [reported, if_pos (by decide)]
    rfl
  obtain ⟨⟨⟨next, after⟩, late⟩, taken, -⟩ :=
    map_ok (watch step enter (final, ledger) (counting 40000)) (fun _ => ()) () rfl
  obtain ⟨stepped, -⟩ := (watch_iff _ _ _ _ _ _).mp taken
  have emitted : (tbExecCountInsns 40000 final.vcpu.data).2 = late :=
    congrArg Prod.snd (Except.ok.inj (step_invoke _ _ _ _ stepped).1)
  obtain rfl : late = [.instructionCount 110000] := emitted.symm.trans full
  obtain ⟨before, conserved, exact_⟩ := fast_forward_conserved crossedModes (counting 40000) final next
    ledger after calls _ (by decide) done taken
  exact ⟨final, next, ledger, after, calls, _, done, taken, counts, rfl, recorded, before, conserved,
    exact_ 110000 (List.mem_singleton_self _)⟩

def crossingEvents : List Event :=
  ([.between (.start 0 0), .between (.mode .memory),
    .block .memory (jumpBlock 0x1000 0x9000 [⟨0x5000, 0xd000, false⟩]),
    .between (.mode .icount)] : List Moment).flatMap Moment.events ++
  ((List.replicate 200 (straightBlock 0x2000 0xa000 499)).map
    (Moment.block .icount)).flatMap Moment.events

/-- The InstructionCount of 100001 for 100000 instructions includes the one that
the record delivered. -/
theorem crossing_modes_overcounts :
    ∃ final ledger calls,
      run (watch step enter) (fresh, ⟨0, 0⟩) crossingEvents = .ok ((final, ledger), calls) ∧
      final.vcpu.data.icount = 100000 ∧ ledger.sent = 100001 ∧ ¬ Conserved (final, ledger) := by
  rcases map_ok (run (watch step enter) (fresh, ⟨0, 0⟩)
    (([.between (.start 0 0), .between (.mode .memory),
      .block .memory (jumpBlock 0x1000 0x9000 [⟨0x5000, 0xd000, false⟩]),
      .between (.mode .icount)] : List Moment).flatMap Moment.events))
    (fun result => books result.1.1.vcpu.data result.1.2) ⟨0, 1, ⟨0, 1⟩⟩ rfl with
    ⟨⟨middle, early⟩, first, delivered_⟩
  rcases icount_blocks_posted (List.replicate 200 (straightBlock 0x2000 0xa000 499)) middle with
    ⟨⟨final, ledger⟩, late, second, posted⟩
  have total : books final.vcpu.data ledger = ⟨100000, 0, ⟨100001, 0⟩⟩ := by
    rw [posted, delivered_, List.map_replicate, straight_block_count]
    decide +kernel
  have icount : final.vcpu.data.icount = 100000 := congrArg Books.icount total
  have sent : ledger.sent = 100001 := congrArg (fun books => books.ledger.sent) total
  refine ⟨final, ledger, early ++ late, run_append_ok _ _ _ _ _ _ _ _ first second, icount, sent,
    ?_⟩
  rintro ⟨remainder, low, sum⟩
  simp only at sum
  rw [icount, sent] at sum
  have negative : remainder = 100000 - 100001 := by grind
  rw [negative] at low
  exact absurd low (by decide)

end Hypersh.FastForward
