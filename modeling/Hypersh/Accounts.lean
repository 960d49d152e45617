import Mathlib.Data.List.Basic
import Mathlib.Algebra.GroupWithZero.Nat
import Mathlib.Tactic.SplitIfs
import Hypersh.Transduction
import Hypersh.Callbacks
import Hypersh.Blocks
import Hypersh.Footprint
import Hypersh.Timeline
import Hypersh.CacheOnly
import Hypersh.FastForward
import Hypersh.Control
import Hypersh.System
import Hypersh.Tallies

/-!
The instructions a vcpu runs outside detailed mode, and what the simulator is told of
them, in any run of the whole plugin. Fast-forward blocks and cache-only records fill one
quota; whoever fills it empties it and waits for the simulator.
-/
namespace Hypersh.Accounts
open Callbacks Blocks Footprint Control Transduction
open CacheOnly (record records records_append toldOf told_silent told_append)
open FastForward (counted)

/-- What has happened since the last start or completed reset: the instructions counted
in cache-only mode, those that records have told of, and the instructions of either mode
since the quota was last emptied. -/
structure Account where
  warm : Nat
  told : Nat
  due : Nat
  deriving DecidableEq, Repr

def Account.zero : Account := ⟨0, 0, 0⟩

def warms : Invocation → Nat
  | .exec .countInsn _ _ => 1
  | _ => 0

def counts : Invocation → Nat
  | .exec .countInsns count _ => count.toNat
  | _ => 0

/-- The simulator was made to wait: an InstructionCount, or a Sync right after a record. -/
def empties (calls : List Call) : Bool :=
  !(calls.filterMap counted).isEmpty || (calls.contains .sync && !(records calls).isEmpty)

def Account.invoke (account : Account) (invocation : Invocation) (calls : List Call) : Account where
  warm := account.warm + warms invocation
  told := account.told + toldOf calls
  due := if empties calls then 0 else account.due + counts invocation + toldOf calls

/-! What a callback can do to the three counters. -/

structure Fields where
  cacheonly : UInt64
  pending : UInt64
  reported : UInt64
  deriving DecidableEq, Repr

def fieldsOf (thread : ThreadData) : Fields :=
  ⟨thread.icountCacheonly, thread.icountCacheonlyPending, thread.icountReported⟩

inductive Moved (before : Fields) : Invocation → Fields → List Call → Prop where
  | still (invocation : Invocation) (calls : List Call) (cold : warms invocation = 0)
      (uncounted : counts invocation = 0) (silent : records calls = [])
      (quiet : calls.filterMap counted = []) : Moved before invocation before calls
  | warmed (userdata : UInt64) (cpu : Cpu) :
      Moved before (.exec .countInsn userdata cpu)
        { before with pending := before.pending + 1 } []
  | counted (count : UInt64) (cpu : Cpu) (low : before.reported + count ≤ flowControlFF) :
      Moved before (.exec .countInsns count cpu)
        { before with reported := before.reported + count } []
  | sent (count : UInt64) (cpu : Cpu) (full : flowControlFF < before.reported + count) :
      Moved before (.exec .countInsns count cpu) { before with reported := 0 }
        [.instructionCount (before.reported + count)]
  | told (invocation : Invocation) (calls : List Call) (cold : warms invocation = 0)
      (uncounted : counts invocation = 0) (delivered : toldOf calls = before.pending.toNat)
      (quiet : calls.filterMap counted = []) (waits : .sync ∉ calls)
      (low : before.reported + before.pending ≤ flowControlFF) :
      Moved before invocation
        ⟨before.cacheonly + before.pending, 0, before.reported + before.pending⟩ calls
  | synced (invocation : Invocation) (calls : List Call) (cold : warms invocation = 0)
      (uncounted : counts invocation = 0) (delivered : toldOf calls = before.pending.toNat)
      (present : records calls ≠ []) (quiet : calls.filterMap counted = [])
      (waits : .sync ∈ calls) :
      Moved before invocation ⟨before.cacheonly + before.pending, 0, 0⟩ calls

/-- Both cache-only senders: one record of the pending count, then the full quota. -/
theorem sender_moved (thread consumed : ThreadData) (invocation : Invocation) (sent : List Call)
    (cold : warms invocation = 0) (uncounted : counts invocation = 0)
    (fields : fieldsOf consumed = ⟨thread.icountCacheonly + thread.icountCacheonlyPending, 0,
      thread.icountReported + thread.icountCacheonlyPending⟩)
    (delivered : toldOf sent = thread.icountCacheonlyPending.toNat) (present : records sent ≠ [])
    (quiet : sent.filterMap FastForward.counted = []) (waits : .sync ∉ sent) :
    Moved (fieldsOf thread) invocation (fieldsOf (syncReported consumed).1)
      (sent ++ (syncReported consumed).2) := by
  obtain ⟨cacheonly, pending, reported⟩ := Fields.mk.inj fields
  unfold syncReported
  by_cases full : flowControlFF < consumed.icountReported
  · rw [if_pos full]
    have emptied : fieldsOf { consumed with icountReported := 0 } =
        ⟨(fieldsOf thread).cacheonly + (fieldsOf thread).pending, 0, 0⟩ := by
      simp only [fieldsOf, cacheonly, pending]
    rw [emptied]
    refine @Moved.synced (fieldsOf thread) invocation (sent ++ [.sync]) cold uncounted ?_ ?_ ?_ ?_
    · rw [told_append, delivered]
      rfl
    · rw [records_append]
      exact fun none_ => present (List.append_eq_nil_iff.mp none_).1
    · rw [List.filterMap_append, quiet]
      rfl
    · exact List.mem_append_right _ (List.mem_singleton.mpr rfl)
  · rw [if_neg full, List.append_nil, fields]
    rw [reported] at full
    exact Moved.told invocation sent cold uncounted delivered quiet waits (UInt64.not_lt.mp full)

theorem send_cacheonly_moved (access : Access) (ramAddr : UInt64) (cpu : Cpu)
    (thread : ThreadData) :
    Moved (fieldsOf thread) (.mem .sendCacheonly ramAddr cpu access)
      (fieldsOf (memSendCacheonly access ramAddr thread).1)
      (memSendCacheonly access ramAddr thread).2 := by
  unfold memSendCacheonly
  by_cases none_ : thread.icountCacheonlyPending = 0
  · -- Nothing pending: the record says so and the counters keep their values.
    simp only [none_, ne_eq, not_true_eq_false, ↓reduceIte]
    apply sender_moved thread thread _ _ rfl rfl
    · simp [fieldsOf, none_]
    · rw [none_]
      rfl
    · exact List.cons_ne_nil _ _
    · rfl
    · simp
  · simp only [none_, ne_eq, not_false_eq_true, ↓reduceIte]
    apply sender_moved thread (consumePending thread) _ _ rfl rfl rfl
    · simp [toldOf, records, record, List.filterMap_cons]
    · exact List.cons_ne_nil _ _
    · rfl
    · simp

theorem branch_cacheonly_moved (ramAddr : UInt64) (cpu : Cpu) (thread : ThreadData)
    (result : Effect) (done : tbExecBranchCacheonly ramAddr thread = .ok result) :
    Moved (fieldsOf thread) (.exec .branchCacheonly ramAddr cpu) (fieldsOf result.1) result.2 := by
  obtain ⟨-, rfl⟩ | ⟨-, -, rfl⟩ := branch_cacheonly_cases ramAddr thread result done
  · exact .still _ _ rfl rfl rfl rfl
  · apply sender_moved thread (clearBranch (consumePending thread)) _ _ rfl rfl rfl
    · simp [toldOf, records, record, List.filterMap_cons]
    · exact List.cons_ne_nil _ _
    · rfl
    · simp

theorem count_insns_moved (count : UInt64) (cpu : Cpu) (thread : ThreadData) :
    Moved (fieldsOf thread) (.exec .countInsns count cpu) (fieldsOf (tbExecCountInsns count thread).1)
      (tbExecCountInsns count thread).2 := by
  unfold tbExecCountInsns
  by_cases full : flowControlFF < thread.icountReported + count
  · simp only [full, ↓reduceIte]
    exact .sent count cpu full
  · simp only [full, ↓reduceIte]
    exact .counted count cpu (UInt64.not_lt.mp full)

theorem effect_moved (globals : Globals) (thread : ThreadData) (invocation : Invocation)
    (result : Effect) (done : effect globals thread invocation = .ok result) :
    Moved (fieldsOf thread) invocation (fieldsOf result.1) result.2 := by
  cases invocation with
  | mem callback userdata cpu access =>
      have kept := mem_written globals cpu userdata access thread callback
      have others := FastForward.mem_silent globals cpu userdata access thread callback
      cases done
      cases callback with
      | sendCacheonly => exact send_cacheonly_moved access userdata cpu thread
      | updatePc | sendDetailed =>
          have silent := others (by decide)
          rw [kept]
          exact .still _ _ rfl rfl silent.records silent.counted
  | exec callback userdata cpu =>
      have kept := exec_written globals cpu userdata thread callback result done
      have others : callback ≠ .countInsns ∧ callback ≠ .branchCacheonly → _ := fun other =>
        FastForward.exec_silent globals cpu userdata thread callback result other done
      cases callback with
      | countInsns =>
          cases done
          exact count_insns_moved userdata cpu thread
      | branchCacheonly => exact branch_cacheonly_moved userdata cpu thread result done
      | countInsn =>
          cases done
          exact .warmed userdata cpu
      | _ =>
          have silent := others (by decide)
          rw [kept]
          exact .still _ _ rfl rfl silent.records silent.counted

/-! The counters against the account. -/

theorem not_empties (calls : List Call) (quiet : calls.filterMap FastForward.counted = [])
    (waits : .sync ∉ calls ∨ records calls = []) : empties calls = false := by
  unfold empties
  rw [quiet]
  rcases waits with absent | silent
  · simp [absent]
  · simp [silent]

theorem invoke_still (account : Account) (invocation : Invocation) (calls : List Call)
    (cold : warms invocation = 0) (uncounted : counts invocation = 0) (silent : records calls = [])
    (quiet : calls.filterMap FastForward.counted = []) : account.invoke invocation calls = account := by
  simp [Account.invoke, cold, uncounted, told_silent calls silent,
    not_empties calls quiet (.inr silent)]

/-- The counters hold the account, as far as 64 bits go. -/
structure Accounted (fields : Fields) (account : Account) : Prop where
  cacheonly : fields.cacheonly = UInt64.ofNat account.told
  pending : UInt64.ofNat account.told + fields.pending = UInt64.ofNat account.warm
  reported : fields.reported = UInt64.ofNat account.due
  quota : fields.reported ≤ flowControlFF

theorem added (total : Nat) (count : UInt64) :
    UInt64.ofNat (total + count.toNat) = UInt64.ofNat total + count := by
  rw [UInt64.ofNat_add, UInt64.ofNat_toNat]

theorem moved_accounted (before after : Fields) (invocation : Invocation) (calls : List Call)
    (account : Account) (accounted : Accounted before account)
    (moved : Moved before invocation after calls) :
    Accounted after (account.invoke invocation calls) := by
  obtain ⟨cacheonly, pending, reported, quota⟩ := accounted
  cases moved with
  | still invocation calls cold uncounted silent quiet =>
      rw [invoke_still account invocation calls cold uncounted silent quiet]
      exact ⟨cacheonly, pending, reported, quota⟩
  | warmed userdata cpu =>
      have same : account.invoke (.exec .countInsn userdata cpu) [] =
          { account with warm := account.warm + 1 } := rfl
      rw [same]
      refine ⟨cacheonly, ?_, reported, quota⟩
      rw [Tallies.ofNat_succ, ← pending, UInt64.add_assoc]
  | counted count cpu low =>
      have same : account.invoke (.exec .countInsns count cpu) [] =
          { account with due := account.due + count.toNat } := rfl
      rw [same]
      refine ⟨cacheonly, pending, ?_, low⟩
      rw [added, ← reported]
  | sent count cpu full =>
      have same : account.invoke (.exec .countInsns count cpu)
          [.instructionCount (before.reported + count)] = { account with due := 0 } := rfl
      rw [same]
      exact ⟨cacheonly, pending, rfl, UInt64.zero_le⟩
  | told invocation calls cold uncounted delivered quiet waits low =>
      have same : account.invoke invocation calls =
          ⟨account.warm, account.told + before.pending.toNat,
            account.due + before.pending.toNat⟩ := by
        simp [Account.invoke, cold, uncounted, delivered, not_empties calls quiet (.inl waits)]
      rw [same]
      refine ⟨?_, ?_, ?_, low⟩
      · rw [added, ← cacheonly]
      · rw [added, UInt64.add_zero, pending]
      · rw [added, ← reported]
  | synced invocation calls cold uncounted delivered present quiet waits =>
      have same : account.invoke invocation calls =
          ⟨account.warm, account.told + before.pending.toNat, 0⟩ := by
        simp [Account.invoke, empties, cold, delivered, quiet, present, waits]
      rw [same]
      refine ⟨?_, ?_, rfl, UInt64.zero_le⟩
      · rw [added, ← cacheonly]
      · rw [added, UInt64.add_zero, pending]

/-- A translated block is not so long that its length wraps with a full quota. -/
def Short (invocation : Invocation) : Prop := counts invocation < 2 ^ 62

structure Account.Sane (account : Account) : Prop where
  told : account.told ≤ account.warm
  due : account.due ≤ flowControlFF.toNat

theorem pending_exact (fields : Fields) (account : Account) (accounted : Accounted fields account)
    (told : account.told ≤ account.warm) (few : account.warm < 2 ^ 63) :
    account.told + fields.pending.toNat = account.warm := by
  have sum := congrArg UInt64.toNat accounted.pending
  rw [UInt64.toNat_add, UInt64.toNat_ofNat', UInt64.toNat_ofNat'] at sum
  have bound := fields.pending.toNat_lt
  omega

theorem due_quota (fields : Fields) (account : Account) (accounted : Accounted fields account)
    (low : account.due < 2 ^ 64) : account.due ≤ flowControlFF.toNat := by
  have quota : fields.reported.toNat ≤ flowControlFF.toNat := accounted.quota
  rw [accounted.reported, UInt64.toNat_ofNat', Nat.mod_eq_of_lt low] at quota
  exact quota

theorem warm_grows (account : Account) (invocation : Invocation) (calls : List Call) :
    account.warm ≤ (account.invoke invocation calls).warm := Nat.le_add_right _ _

theorem moved_sane (before after : Fields) (invocation : Invocation) (calls : List Call)
    (account : Account) (accounted : Accounted before account) (sane : account.Sane)
    (moved : Moved before invocation after calls) (short : Short invocation)
    (few : (account.invoke invocation calls).warm < 2 ^ 63) :
    (account.invoke invocation calls).Sane := by
  have later := moved_accounted before after invocation calls account accounted moved
  have earlier := Nat.lt_of_le_of_lt (warm_grows account invocation calls) few
  have exactly := pending_exact before account accounted sane.told earlier
  have full : flowControlFF.toNat = 100000 := rfl
  have told : (account.invoke invocation calls).told ≤ (account.invoke invocation calls).warm ∧
      toldOf calls ≤ account.warm := by
    have low := sane.told
    unfold Account.invoke
    dsimp only
    cases moved with
    | still invocation calls cold uncounted silent quiet =>
        rw [told_silent calls silent]
        omega
    | warmed userdata cpu =>
        rw [told_silent [] rfl]
        omega
    | counted count cpu low =>
        rw [told_silent [] rfl]
        omega
    | sent count cpu full =>
        rw [told_silent [_] rfl]
        omega
    | told invocation calls cold uncounted delivered quiet waits low =>
        rw [delivered]
        omega
    | synced invocation calls cold uncounted delivered present quiet waits =>
        rw [delivered]
        omega
  refine ⟨told.1, due_quota after _ later ?_⟩
  have due := sane.due
  have room : counts invocation < 2 ^ 62 := short
  have delivered := told.2
  unfold Account.invoke
  dsimp only
  split
  · exact Nat.two_pow_pos 64
  · omega

theorem sent_exact (before after : Fields) (invocation : Invocation) (calls : List Call)
    (account : Account) (accounted : Accounted before account) (sane : account.Sane)
    (moved : Moved before invocation after calls) (short : Short invocation) (icount : UInt64)
    (sent : .instructionCount icount ∈ calls) :
    icount.toNat = account.due + counts invocation ∧ flowControlFF.toNat < icount.toNat := by
  have full : flowControlFF.toNat = 100000 := rfl
  have quiet : ∀ calls : List Call, calls.filterMap FastForward.counted = [] →
      .instructionCount icount ∉ calls := by
    intro calls silent member
    have counted := List.filterMap_eq_nil_iff.mp silent _ member
    contradiction
  cases moved with
  | sent count cpu exceeding =>
      obtain rfl := Call.instructionCount.inj (List.mem_singleton.mp sent)
      have due := sane.due
      have room : count.toNat < 2 ^ 62 := short
      have exceeds : flowControlFF.toNat < (before.reported + count).toNat := exceeding
      have whole : (before.reported + count).toNat = account.due + count.toNat := by
        rw [UInt64.toNat_add, accounted.reported, UInt64.toNat_ofNat']
        omega
      exact ⟨whole, exceeds⟩
  | warmed userdata cpu => exact absurd sent List.not_mem_nil
  | counted count cpu low => exact absurd sent List.not_mem_nil
  | still invocation calls cold uncounted silent none_ => exact absurd sent (quiet calls none_)
  | told invocation calls cold uncounted delivered none_ waits low =>
      exact absurd sent (quiet calls none_)
  | synced invocation calls cold uncounted delivered present none_ waits =>
      exact absurd sent (quiet calls none_)

/-! Runs of the whole plugin. -/

variable {n : Nat}

def Account.deferred (account : Account) : Option (Deferred n) → Account
  | some (.reset _) => .zero
  | _ => account

def note (vcpu : Fin n) (trace : Trace n) (event : System.Event n) (actions : List (Action n))
    (account : Account) : Account :=
  match event with
  | .invoke owner invocation =>
      if owner = vcpu then account.invoke invocation (System.written vcpu actions) else account
  | .control (.command _ _ (.start _)) => if trace.recording then account else .zero
  | .control (.deferred index) => account.deferred trace.pending[index]?
  | _ => account

inductive Noted (vcpu : Fin n) (trace next : Trace n) (event : System.Event n)
    (actions : List (Action n)) (account : Account) : Account → Prop where
  | kept (same : fieldsOf (next.threads vcpu).data = fieldsOf (trace.threads vcpu).data) :
      Noted vcpu trace next event actions account account
  | zeroed (clear : fieldsOf (next.threads vcpu).data = ⟨0, 0, 0⟩) :
      Noted vcpu trace next event actions account .zero
  | invoked (invocation : Invocation) (own : event = .invoke vcpu invocation)
      (moved : Moved (fieldsOf (trace.threads vcpu).data) invocation
        (fieldsOf (next.threads vcpu).data) (System.written vcpu actions)) :
      Noted vcpu trace next event actions account
        (account.invoke invocation (System.written vcpu actions))

theorem between_fields (entry : Timeline.Entry) (happened : Timeline.Between)
    (still : Tallies.quiet (.between happened) = true) :
    fieldsOf (Timeline.between entry happened).1.vcpu.data = fieldsOf entry.vcpu.data := by
  cases happened with
  | start threadid writer => contradiction
  | reset => contradiction
  | idle =>
      dsimp only [Timeline.between, Timeline.Entry.update, Timeline.Entry.setData, vcpuIdleCb]
      split <;> rfl
  | resume =>
      dsimp only [Timeline.between, Timeline.Entry.update, Timeline.Entry.setData, vcpuResumeCb]
      split <;> rfl
  | closed | mode _ | roi _ | magic _ | notice _ | interrupt | interruptRet => rfl

theorem quiet_fields (events : List Timeline.Event) (entry final : Timeline.Entry)
    (calls : List Call) (still : ∀ event ∈ events, Tallies.quiet event = true)
    (done : run Timeline.step entry events = .ok (final, calls)) :
    fieldsOf final.vcpu.data = fieldsOf entry.vcpu.data := by
  apply along_invariant Timeline.step (fun _ event => Tallies.quiet event = true)
    (fun reached => fieldsOf reached.vcpu.data = fieldsOf entry.vcpu.data) _ entry final events calls
    (along_all Timeline.step _ entry events still) rfl done
  intro reached event next emitted same here taken
  cases event with
  | invoke invocation => contradiction
  | between happened =>
      obtain ⟨rfl, -⟩ := Timeline.step_between reached next happened emitted taken
      exact (between_fields reached happened here).trans same

theorem step_noted (vcpu : Fin n) (trace next : Trace n) (event : System.Event n)
    (actions : List (Action n)) (account : Account)
    (taken : System.step trace event = .ok (next, actions)) :
    Noted vcpu trace next event actions account (note vcpu trace event actions account) := by
  obtain ⟨events, becomes, ran⟩ := System.step_becomes vcpu trace next event actions taken
  have quiet : (∀ happened ∈ events, Tallies.quiet happened = true) →
      Noted vcpu trace next event actions account account :=
    fun still => .kept (quiet_fields events _ _ _ still ran)
  have commands : (∀ happened ∈ events, System.commanded happened = true) →
      Noted vcpu trace next event actions account account := fun all =>
    quiet fun happened member => Tallies.commanded_quiet happened (all happened member)
  have single : ∀ (owner : Fin n) (one : Timeline.Event), Tallies.quiet one = true →
      events = (if owner = vcpu then [one] else []) →
        Noted vcpu trace next event actions account account := by
    rintro owner one silent rfl
    apply quiet
    intro happened member
    split at member
    · rw [List.mem_singleton.mp member]
      exact silent
    · exact absurd member List.not_mem_nil
  -- What a start and a reset leave of the three counters.
  have zeroed : ∀ one : Timeline.Between, events = [.between one] →
      (∀ entry : Timeline.Entry, fieldsOf (Timeline.between entry one).1.vcpu.data = ⟨0, 0, 0⟩) →
        Noted vcpu trace next event actions account .zero := by
    rintro one rfl clear
    rw [run_singleton] at ran
    obtain ⟨reached, -⟩ := Timeline.step_between _ _ one _ ran
    have emptied := clear (System.view vcpu trace)
    rw [← reached] at emptied
    exact .zeroed emptied
  cases event with
  | invoke owner invocation =>
      unfold note
      dsimp only
      by_cases own : owner = vcpu
      · obtain rfl := own
        rw [show events = _ from becomes, if_pos rfl, run_singleton] at ran
        obtain ⟨done, -⟩ := Timeline.step_invoke _ _ _ _ ran
        rw [if_pos rfl]
        exact .invoked invocation rfl (effect_moved _ _ _ _ done)
      · rw [if_neg own]
        refine quiet fun happened member => ?_
        rw [show events = _ from becomes, if_neg own] at member
        exact absurd member List.not_mem_nil
  | idle owner => exact single owner _ rfl becomes
  | resume owner => exact single owner _ rfl becomes
  | interrupt owner => exact single owner _ rfl becomes
  | interruptRet owner => exact single owner _ rfl becomes
  | syscall owner num pageDirectory => exact commands becomes
  | control event =>
      cases event with
      | command issuer answers command =>
          cases command with
          | start dir =>
              unfold note
              dsimp only
              cases busy : trace.recording with
              | true =>
                  refine quiet fun happened member => ?_
                  rw [show events = _ from becomes, busy, if_pos rfl] at member
                  exact absurd member List.not_mem_nil
              | false =>
                  rw [show events = _ from becomes, busy] at zeroed
                  exact zeroed _ rfl fun entry => rfl
          | mode _ | stop | reset | gmm _ _ _ | magic _ => exact commands becomes
      | deferred index =>
          unfold note
          dsimp only
          have settled : System.DeferredBecomes trace.pending[index]? events := becomes
          cases present : trace.pending[index]? with
          | none =>
              rw [present] at settled
              exact commands settled
          | some callback =>
              rw [present] at settled
              cases callback with
              | modeSwitch request owner => exact commands settled
              | reset owner => exact zeroed .reset settled fun entry => rfl
              | stop =>
                  refine quiet fun happened member => ?_
                  rw [show events = _ from settled] at member
                  rw [List.mem_singleton.mp member]
                  rfl

structure Exact (fields : Fields) (account : Account) : Prop where
  cacheonly : fields.cacheonly.toNat = account.told
  pending : account.told + fields.pending.toNat = account.warm
  reported : fields.reported.toNat = account.due
  quota : account.due ≤ flowControlFF.toNat

theorem sane_exact (fields : Fields) (account : Account) (accounted : Accounted fields account)
    (sane : account.Sane) (few : account.warm < 2 ^ 63) : Exact fields account := by
  have full : flowControlFF.toNat = 100000 := rfl
  have due := sane.due
  have told := sane.told
  refine ⟨?_, pending_exact fields account accounted told few, ?_, due⟩
  · rw [accounted.cacheonly, UInt64.toNat_ofNat', Nat.mod_eq_of_lt (by omega)]
  · rw [accounted.reported, UInt64.toNat_ofNat', Nat.mod_eq_of_lt (by omega)]

def ShortEvent : System.Event n → Prop
  | .invoke _ invocation => Short invocation
  | _ => True

theorem zero_accounted : Accounted ⟨0, 0, 0⟩ .zero := ⟨rfl, rfl, rfl, UInt64.zero_le⟩

theorem zero_sane : Account.zero.Sane := ⟨Nat.le_refl 0, Nat.zero_le _⟩

theorem step_accounted (vcpu : Fin n) (before after : Trace n × Account) (event : System.Event n)
    (actions : List (Action n))
    (accounted : Accounted (fieldsOf (before.1.threads vcpu).data) before.2)
    (taken : watch System.step (note vcpu) before event = .ok (after, actions)) :
    Accounted (fieldsOf (after.1.threads vcpu).data) after.2 := by
  obtain ⟨stepped, noted⟩ := (watch_iff _ _ _ _ _ _).mp taken
  have turned := step_noted vcpu before.1 after.1 event actions before.2 stepped
  rw [← noted] at turned
  obtain ⟨trace, account⟩ := after
  cases turned with
  | kept same =>
      rw [same]
      exact accounted
  | zeroed clear =>
      rw [clear]
      exact zero_accounted
  | invoked invocation own moved => exact moved_accounted _ _ invocation _ before.2 accounted moved

structure Kept (vcpu : Fin n) (watched : Trace n × Account) : Prop where
  accounted : Accounted (fieldsOf (watched.1.threads vcpu).data) watched.2
  sane : watched.2.warm < 2 ^ 63 → watched.2.Sane

theorem step_kept (vcpu : Fin n) (before after : Trace n × Account) (event : System.Event n)
    (actions : List (Action n)) (kept : Kept vcpu before) (short : ShortEvent event)
    (taken : watch System.step (note vcpu) before event = .ok (after, actions)) :
    Kept vcpu after := by
  refine ⟨step_accounted vcpu before after event actions kept.accounted taken, ?_⟩
  obtain ⟨stepped, noted⟩ := (watch_iff _ _ _ _ _ _).mp taken
  have turned := step_noted vcpu before.1 after.1 event actions before.2 stepped
  rw [← noted] at turned
  obtain ⟨trace, account⟩ := after
  cases turned with
  | kept same => exact kept.sane
  | zeroed clear => exact fun _ => zero_sane
  | invoked invocation own moved =>
      obtain rfl := own
      intro few
      have earlier := Nat.lt_of_le_of_lt (warm_grows before.2 invocation _) few
      exact moved_sane _ _ invocation _ before.2 kept.accounted (kept.sane earlier) moved short few

/-- Along any run of the plugin, for any vcpu: the cache-only instructions since the last
start or completed reset are those the records told of and those still pending, modulo
2^64. While they and the blocks are not absurdly many the counters are exact, no more than
a full quota is ever due, and an InstructionCount says all that was due when its block
ran. -/
theorem instructions_accounted (vcpu : Fin n) (events : List (System.Event n)) (trace : Trace n)
    (account : Account) (actions : List (Action n))
    (done : run (watch System.step (note vcpu)) (install n, .zero) events =
      .ok ((trace, account), actions)) :
    Accounted (fieldsOf (trace.threads vcpu).data) account ∧
    ((∀ event ∈ events, ShortEvent event) → account.warm < 2 ^ 63 →
      Exact (fieldsOf (trace.threads vcpu).data) account ∧
      ∀ invocation next emitted icount, Short invocation →
        System.step trace (.invoke vcpu invocation) = .ok (next, emitted) →
        .instructionCount icount ∈ System.written vcpu emitted →
          icount.toNat = account.due + counts invocation ∧ flowControlFF.toNat < icount.toNat) := by
  have accounted := run_invariant (watch System.step (note vcpu))
    (fun watched => Accounted (fieldsOf (watched.1.threads vcpu).data) watched.2)
    (fun before event after emitted kept taken =>
      step_accounted vcpu before after event emitted kept taken)
    (install n, .zero) (trace, account) events actions zero_accounted done
  refine ⟨accounted, fun short few => ?_⟩
  have first : Kept vcpu (install n, .zero) := ⟨zero_accounted, fun _ => zero_sane⟩
  have kept := along_invariant _ (fun _ event => ShortEvent event) (Kept vcpu)
    (fun before event after emitted kept short taken =>
      step_kept vcpu before after event emitted kept short taken)
    _ _ events actions (along_all _ ShortEvent _ events short) first done
  have sane := kept.sane few
  refine ⟨sane_exact _ account accounted sane few, ?_⟩
  intro invocation next emitted icount small taken sent
  obtain ⟨events, becomes, ran⟩ := System.step_becomes vcpu trace next _ emitted taken
  rw [show events = _ from becomes, if_pos rfl, run_singleton] at ran
  obtain ⟨ran, -⟩ := Timeline.step_invoke _ _ _ _ ran
  exact sent_exact _ _ invocation _ account accounted sane (effect_moved _ _ _ _ ran) small
    icount sent

/-- Two long blocks in fast-forward, then two instructions and an access in cache-only
mode, and one more instruction. -/
def warmedUp : List (System.Event 1) :=
  [.control (.command vcpu₀ ⟨7, none, fun _ => true⟩ (.start (some "d"))),
   .invoke vcpu₀ (.exec .countInsns 60000 ⟨false, 0⟩),
   .invoke vcpu₀ (.exec .countInsns 50000 ⟨false, 0⟩),
   .invoke vcpu₀ (.exec .countInsns 300 ⟨false, 0⟩),
   .control (.command vcpu₀ ⟨7, none, fun _ => true⟩ (.mode "cacheonly")),
   .control (.deferred 0),
   .invoke vcpu₀ (.exec .countInsn 0 ⟨false, 0⟩),
   .invoke vcpu₀ (.exec .countInsn 0 ⟨false, 0⟩),
   .invoke vcpu₀ (.mem .sendCacheonly 0x9000 ⟨false, 0⟩ ⟨0x5000, 0xd000, false⟩),
   .invoke vcpu₀ (.exec .countInsn 0 ⟨false, 0⟩)]

theorem warmed_up_accounted : ∃ trace actions,
    run (watch System.step (note vcpu₀)) (install 1, .zero) warmedUp =
      .ok ((trace, ⟨3, 2, 302⟩), actions) ∧
    .instructionCount 110000 ∈ System.written vcpu₀ actions ∧
    Accounted (fieldsOf (trace.threads vcpu₀).data) ⟨3, 2, 302⟩ ∧
    Exact (fieldsOf (trace.threads vcpu₀).data) ⟨3, 2, 302⟩ ∧
    ∀ invocation next emitted icount, Short invocation →
      System.step trace (.invoke vcpu₀ invocation) = .ok (next, emitted) →
      .instructionCount icount ∈ System.written vcpu₀ emitted →
        icount.toNat = 302 + counts invocation ∧ flowControlFF.toNat < icount.toNat := by
  refine ⟨_, _, rfl, by decide, ?_⟩
  exact And.imp_right (fun whole =>
    whole (by simp [warmedUp, ShortEvent, Short, counts]) (by decide))
    (instructions_accounted vcpu₀ warmedUp _ ⟨3, 2, 302⟩ _ rfl)

end Hypersh.Accounts
