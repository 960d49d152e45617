import Mathlib.Data.List.Basic
import Hypersh.Transduction
import Hypersh.Callbacks
import Hypersh.Blocks
import Hypersh.Footprint
import Hypersh.Timeline

/-!
The records that frame instructions on a stream, and those that halt and resume its
vcpu: which callbacks write them, and what a whole block writes of them. They depend
on three fields of the entry only.
-/
namespace Hypersh.Records
open Callbacks Blocks Footprint Timeline Transduction

inductive Record where
  | begun
  | ended
  | aborted
  | accessed
  | branched
  | idled
  | resumed
  deriving DecidableEq, Repr

def record : Call → Option Record
  | .instructionBegin _ _ _ _ => some .begun
  | .instructionEnd => some .ended
  | .instructionAbort => some .aborted
  | .instructionMem _ => some .accessed
  | .instructionBranch _ => some .branched
  | .vcpuIdle => some .idled
  | .vcpuResume => some .resumed
  | _ => none

structure Marks where
  idle : Bool
  capturing : Bool
  brAddr : UInt64
  deriving DecidableEq, Repr

def marksOf (thread : ThreadData) : Marks := ⟨thread.idle, thread.capturing, thread.brAddr⟩

/-- A store that starts or ends a capture. -/
def magicStore (globals : Globals) (access : Cpu × Access) : Bool :=
  inRoi globals access.1 && access.2.vaddr == globals.magic && access.2.isStore

/-- The idle flag once the branch sender of a block entry has run. -/
def crossed (globals : Globals) (cpu : Cpu) (marks : Marks) : Bool :=
  if marks.brAddr = 0 then marks.idle else !inRoi globals cpu

def crossing (globals : Globals) (cpu : Cpu) (marks : Marks) : List Record :=
  if marks.brAddr = 0 then []
  else if inRoi globals cpu then (if marks.idle then [.resumed] else []) ++ [.branched]
  else (if marks.idle then [] else [.ended, .idled]) ++ [.branched]

def mark (globals : Globals) (marks : Marks) : Invocation → Marks × List Record
  | .exec .branch vaddr _ => ({ marks with brAddr := vaddr }, [])
  | .exec .branchCacheonly _ _ => ({ marks with brAddr := 0 }, [])
  | .exec .updatePc _ _ => (marks, [.ended])
  | .exec .pcNext _ cpu => (marks, if inRoi globals cpu && !marks.capturing then [.begun] else [])
  | .exec .branchDetailed _ cpu =>
      (⟨crossed globals cpu marks, marks.capturing, 0⟩, crossing globals cpu marks)
  | .mem .sendDetailed _ cpu access =>
      if magicStore globals (cpu, access) then
        ({ marks with capturing := !marks.capturing }, [.aborted, .accessed])
      else (marks, [.accessed])
  | _ => (marks, [])

/-- Callbacks that have no business with these records. -/
def unmarked : ExecCallback → Bool
  | .branch | .branchCacheonly | .updatePc | .pcNext | .branchDetailed => false
  | _ => true

theorem exec_unmarked (globals : Globals) (cpu : Cpu) (userdata : UInt64) (thread : ThreadData)
    (callback : ExecCallback) (result : Effect) (other : unmarked callback = true)
    (done : execEffect globals cpu userdata thread callback = .ok result) :
    marksOf result.1 = marksOf thread ∧ result.2.filterMap record = [] := by
  constructor
  · rw [exec_written globals cpu userdata thread callback result done]
    cases callback with
    | branch | branchCacheonly | updatePc | pcNext | branchDetailed => contradiction
    | _ => rfl
  · apply unread record _ _ (exec_may_call globals cpu userdata thread callback result done)
    intro call may
    cases callback with
    | branch | branchCacheonly | updatePc | pcNext | branchDetailed => contradiction
    | _ => cases call <;> first | rfl | contradiction

theorem sync_unrecorded (thread : ThreadData) :
    (syncDetailed thread).2.filterMap record = [] := by
  unfold syncDetailed
  split
  · rfl
  · rfl

theorem cross_marked (globals : Globals) (cpu : Cpu) (thread : ThreadData)
    (pending : thread.brAddr ≠ 0) :
    ((⟨crossed globals cpu (marksOf thread), thread.capturing, 0⟩ : Marks),
        crossing globals cpu (marksOf thread)) =
      (marksOf (clearBranch (crossRoi globals cpu thread).1),
        (crossRoi globals cpu thread).2.filterMap record ++ [.branched]) := by
  have set : (marksOf thread).brAddr ≠ 0 := pending
  rw [crossed, crossing, crossRoi, if_neg set, if_neg set]
  cases inRoi globals cpu with
  | true =>
      cases idle : thread.idle with
      | true =>
          simp only [marksOf, idle, ↓reduceIte]
          rfl
      | false =>
          simp only [marksOf, idle, clearBranch, Bool.false_eq_true, ↓reduceIte]
          rfl
  | false =>
      cases idle : thread.idle with
      | true =>
          simp only [marksOf, idle, clearBranch, Bool.false_eq_true, ↓reduceIte]
          rfl
      | false =>
          simp only [marksOf, idle, Bool.false_eq_true, ↓reduceIte]
          rfl

theorem exec_marked (globals : Globals) (cpu : Cpu) (userdata : UInt64) (thread : ThreadData)
    (callback : ExecCallback) (result : Effect)
    (done : execEffect globals cpu userdata thread callback = .ok result) :
    mark globals (marksOf thread) (.exec callback userdata cpu) =
      (marksOf result.1, result.2.filterMap record) := by
  cases other : unmarked callback with
  | true =>
      have same := exec_unmarked globals cpu userdata thread callback result other done
      rw [same.1, same.2]
      cases callback with
      | branch | branchCacheonly | updatePc | pcNext | branchDetailed => contradiction
      | _ => rfl
  | false =>
      cases callback with
      | branch =>
          cases done
          rfl
      | branchCacheonly =>
          have written := exec_written globals cpu userdata thread _ result done
          have silent := unread record _ _
            (exec_may_call globals cpu userdata thread _ result done)
            (fun call may => by cases call <;> first | rfl | contradiction)
          have clear : result.1.brAddr = 0 := by
            rcases branch_cacheonly_cases userdata thread result done with ⟨zero, rfl⟩ | ⟨-, -, rfl⟩
            · exact zero
            · unfold syncReported
              split <;> rfl
          rw [silent, written]
          simp only [mark, marksOf, Footprint.written, clear]
      | updatePc =>
          have written := exec_written globals cpu userdata thread _ result done
          have ended : result.2.filterMap record = [.ended] := by
            cases done
            dsimp only [insnExecUpdatePc]
            split
            · rfl
            · rw [List.filterMap_cons, sync_unrecorded]
              rfl
          rw [ended, written]
          rfl
      | pcNext =>
          cases done
          by_cases sent : (inRoi globals cpu && !thread.capturing) = true
          · rw [insnExecPcNext, if_pos sent]
            exact congrArg (Prod.mk (marksOf thread)) (if_pos sent)
          · rw [insnExecPcNext, if_neg sent]
            exact congrArg (Prod.mk (marksOf thread)) (if_neg sent)
      | branchDetailed =>
          rcases branch_detailed_cases globals cpu thread result done with
            ⟨zero, rfl⟩ | ⟨pending, -, rfl⟩
          · simp only [mark, crossed, crossing, marksOf, zero, ↓reduceIte, List.filterMap_nil]
          · dsimp only
            rw [List.filterMap_append]
            exact cross_marked globals cpu thread pending
      | _ => contradiction

theorem mem_marked (globals : Globals) (cpu : Cpu) (userdata : UInt64) (access : Access)
    (thread : ThreadData) (callback : MemCallback) :
    mark globals (marksOf thread) (.mem callback userdata cpu access) =
      (marksOf (memEffect globals cpu userdata access thread callback).1,
        (memEffect globals cpu userdata access thread callback).2.filterMap record) := by
  cases callback with
  | updatePc => rfl
  | sendCacheonly =>
      have written := mem_written globals cpu userdata access thread .sendCacheonly
      have silent := unread record _ _ (mem_may_call globals cpu userdata access thread .sendCacheonly)
        (fun call may => by cases call <;> first | rfl | contradiction)
      rw [silent, written]
      rfl
  | sendDetailed =>
      have counted : ∀ next, marksOf (countAccess globals cpu access next) = marksOf next := by
        intro next
        unfold countAccess
        split_ifs <;> rfl
      by_cases magic : magicStore globals (cpu, access) = true
      · have toggled : marksOf (toggleCapture thread) =
            { marksOf thread with capturing := !thread.capturing } := by
          unfold toggleCapture
          cases capturing : thread.capturing <;> simp [marksOf, capturing]
        have aborted : (inRoi globals cpu && access.vaddr == globals.magic && access.isStore) = true :=
          magic
        simp only [mark, memEffect, memSendDetailed, if_pos magic, if_pos aborted, counted, toggled]
        rfl
      · have plain : ¬ (inRoi globals cpu && access.vaddr == globals.magic && access.isStore) = true :=
          magic
        simp only [mark, memEffect, memSendDetailed, if_neg magic, if_neg plain, counted]
        rfl

/-- Every callback of a block moves the marks and writes records as `mark` says. -/
theorem effect_marked (globals : Globals) (thread : ThreadData) (invocation : Invocation)
    (result : Effect) (done : effect globals thread invocation = .ok result) :
    mark globals (marksOf thread) invocation = (marksOf result.1, result.2.filterMap record) := by
  cases invocation with
  | exec callback userdata cpu =>
      exact exec_marked globals cpu userdata thread callback result done
  | mem callback userdata cpu access =>
      cases done
      exact mem_marked globals cpu userdata access thread callback

/-! Runs of callbacks, each record with the idle flag it was written under. -/

def trail (globals : Globals) : Step Marks Invocation (Bool × Record) Fault :=
  fun marks invocation =>
    .ok ((mark globals marks invocation).1, (mark globals marks invocation).2.map (Prod.mk marks.idle))

def idleFlag (entry : Entry) : Bool := entry.vcpu.data.idle

def flagged (written : Bool × Call) : Option (Bool × Record) :=
  (record written.2).map (Prod.mk written.1)

theorem flagged_records (idle : Bool) (calls : List Call) :
    (calls.map (Prod.mk idle)).filterMap flagged = (calls.filterMap record).map (Prod.mk idle) := by
  rw [List.filterMap_map, List.map_filterMap]
  rfl

theorem flagged_snd (written : List (Bool × Call)) :
    (written.filterMap flagged).map Prod.snd = (written.map Prod.snd).filterMap record := by
  rw [List.map_filterMap, List.filterMap_map]
  congr 1
  funext entry
  rw [flagged, Option.map_map]
  exact Option.map_id' (x := record entry.2)

theorem step_trail (entry next : Entry) (invocation : Invocation) (written : List (Bool × Call))
    (taken : labelled step idleFlag entry (.invoke invocation) = .ok (next, written)) :
    trail entry.globals (marksOf entry.vcpu.data) invocation =
        .ok (marksOf next.vcpu.data, written.filterMap flagged) ∧
      next.globals = entry.globals := by
  rcases (labelled_iff _ _ _ _ _ _).mp taken with ⟨calls, stepped, rfl⟩
  rcases step_invoke entry next invocation calls stepped with ⟨done, same⟩
  refine ⟨?_, same⟩
  rw [trail, effect_marked _ _ _ _ done, flagged_records]
  rfl

theorem run_trail (entry final : Entry) (invocations : List Invocation)
    (written : List (Bool × Call))
    (done : run (labelled step idleFlag) entry (invocations.map Event.invoke) =
      .ok (final, written)) :
    run (trail entry.globals) (marksOf entry.vcpu.data) invocations =
      .ok (marksOf final.vcpu.data, written.filterMap flagged) := by
  induction invocations generalizing entry written with
  | nil =>
      cases done
      rfl
  | cons invocation rest ih =>
      rcases (run_cons_iff _ _ _ _ _ _).mp done with ⟨next, early, late, first, tail, rfl⟩
      rcases step_trail entry next invocation early first with ⟨here, same⟩
      have later := ih next late tail
      rw [same] at later
      rw [List.filterMap_append]
      exact run_cons_ok _ _ _ _ _ _ _ _ here later

/-! What a block instrumented for detailed mode writes. -/

def captureAfter (globals : Globals) (capturing : Bool) (accesses : List (Cpu × Access)) : Bool :=
  accesses.foldl (fun now access => if magicStore globals access then !now else now) capturing

def accessRecords (globals : Globals) (accesses : List (Cpu × Access)) : List Record :=
  accesses.flatMap fun access =>
    if magicStore globals access then [.aborted, .accessed] else [.accessed]

def insnRecords (globals : Globals) (capturing : Bool) (started : Started) : List Record :=
  [.ended] ++ (if inRoi globals started.cpu && !capturing then [.begun] else []) ++
    accessRecords globals started.accesses

def bodyRecords (globals : Globals) : Bool → List Started → List Record
  | _, [] => []
  | capturing, started :: rest =>
      insnRecords globals capturing started ++
        bodyRecords globals (captureAfter globals capturing started.accesses) rest

theorem accesses_trail (globals : Globals) (accesses : List (Cpu × Access)) (marks : Marks) :
    run (trail globals) marks (accesses.flatMap (accessInvocations [(.sendDetailed, 0)])) =
      .ok ({ marks with capturing := captureAfter globals marks.capturing accesses },
        (accessRecords globals accesses).map (Prod.mk marks.idle)) := by
  induction accesses generalizing marks with
  | nil => rfl
  | cons access rest ih =>
      rw [List.flatMap_cons]
      by_cases magic : magicStore globals access = true
      · have first : run (trail globals) marks (accessInvocations [(.sendDetailed, 0)] access) =
            .ok ({ marks with capturing := !marks.capturing },
              [(marks.idle, .aborted), (marks.idle, .accessed)]) := by
          simp [accessInvocations, run, trail, mark, magic]
        rw [run_append_ok _ _ _ _ _ _ _ _ first (ih _)]
        simp [captureAfter, accessRecords, magic]
      · have first : run (trail globals) marks (accessInvocations [(.sendDetailed, 0)] access) =
            .ok (marks, [(marks.idle, .accessed)]) := by
          simp [accessInvocations, run, trail, mark, magic]
        rw [run_append_ok _ _ _ _ _ _ _ _ first (ih _)]
        simp [captureAfter, accessRecords, magic]

theorem insn_trail (globals : Globals) (tb : Tb) (index : Nat) (insn : Insn) (started : Started)
    (fetched : tb.insns[index]? = some insn) (marks : Marks) :
    ∃ brAddr, run (trail globals) marks (insnInvocations .detailed tb index started) =
      .ok (⟨marks.idle, captureAfter globals marks.capturing started.accesses, brAddr⟩,
        (insnRecords globals marks.capturing started).map (Prod.mk marks.idle)) := by
  rw [insnInvocations, insn_hooks_detailed tb index insn fetched,
    mem_hooks_detailed tb index insn fetched]
  have before : ∃ brAddr, run (trail globals) marks (execInvocations
      ([(.updatePc, insn.vaddr), (.insnItlb, insn.ramAddr), (.pcNext, insn.next)] ++
        (if insn.isCmpxchg then [(.cmpxchg, 0)] else []) ++
        (if tb.isPause ∧ tb.lastIndex = index then [(.pause, 0)] else []) ++
        if tb.isBranch ∧ tb.lastIndex = index then [(.branch, tb.lastInsn.vaddr)] else [])
        started.cpu) =
      .ok ({ marks with brAddr := brAddr }, ([Record.ended] ++
        if inRoi globals started.cpu && !marks.capturing then [Record.begun] else []).map
          (Prod.mk marks.idle)) := by
    by_cases branch : tb.isBranch = true ∧ tb.lastIndex = index
    · refine ⟨tb.lastInsn.vaddr, ?_⟩
      rw [if_pos branch]
      split_ifs <;> simp [execInvocations, run, trail, mark, *]
    · refine ⟨marks.brAddr, ?_⟩
      rw [if_neg branch]
      split_ifs <;> simp [execInvocations, run, trail, mark, *]
  rcases before with ⟨brAddr, first⟩
  refine ⟨brAddr, ?_⟩
  rw [run_append_ok _ _ _ _ _ _ _ _ first (accesses_trail globals started.accesses _), insnRecords]
  simp only [List.map_append]

theorem body_trail (globals : Globals) (tb : Tb) (started : List Started) (index : Nat)
    (inside : index + started.length ≤ tb.insns.length) (marks : Marks) :
    ∃ final, run (trail globals) marks ((started.zipIdx index).flatMap fun entry =>
        insnInvocations .detailed tb entry.2 entry.1) =
      .ok (final, (bodyRecords globals marks.capturing started).map (Prod.mk marks.idle)) := by
  induction started generalizing index marks with
  | nil => exact ⟨marks, rfl⟩
  | cons first rest ih =>
      rw [List.length_cons] at inside
      have fetched := List.getElem?_eq_getElem (l := tb.insns) (i := index) (by omega)
      rcases insn_trail globals tb index _ first fetched marks with ⟨brAddr, here⟩
      rcases ih (index + 1) (by omega)
        ⟨marks.idle, captureAfter globals marks.capturing first.accesses, brAddr⟩ with ⟨final, later⟩
      refine ⟨final, ?_⟩
      rw [List.zipIdx_cons, List.flatMap_cons, run_append_ok _ _ _ _ _ _ _ _ here later, bodyRecords,
        List.map_append]

theorem entry_trail (globals : Globals) (block : BlockRun) (marks : Marks) :
    run (trail globals) marks (block.entry .detailed) =
      .ok (⟨crossed globals block.cpu marks, marks.capturing, 0⟩,
        (crossing globals block.cpu marks).map (Prod.mk marks.idle)) := by
  rw [BlockRun.entry, entry_hooks_detailed]
  cases page : block.tb.page2 <;> cases branch : block.tb.isBranch <;>
    simp [execInvocations, run, trail, mark, page2Hooks, page]

/-- A block writes what its entry makes of the pending branch and then what each
started instruction writes. -/
theorem block_trail (globals : Globals) (block : BlockRun) (marks : Marks) :
    ∃ final, run (trail globals) marks (block.invocations .detailed) =
      .ok (final, (crossing globals block.cpu marks).map (Prod.mk marks.idle) ++
        (bodyRecords globals marks.capturing block.started).map
          (Prod.mk (crossed globals block.cpu marks))) := by
  rcases body_trail globals block.tb block.started 0 (by rw [Nat.zero_add]; exact block.bounded)
    ⟨crossed globals block.cpu marks, marks.capturing, 0⟩ with ⟨final, body⟩
  exact ⟨final, run_append_ok _ _ _ _ _ _ _ _ (entry_trail globals block marks) body⟩

/-! Blocks of the other modes. -/

def quietExec : ExecCallback → Bool
  | .updatePc | .pcNext | .branchDetailed => false
  | _ => true

def quietMem : MemCallback → Bool
  | .sendDetailed => false
  | _ => true

def quiet : Invocation → Bool
  | .exec callback _ _ => quietExec callback
  | .mem callback _ _ _ => quietMem callback

def quietRegistration : Registration → Bool
  | .tbExec callback _ | .insnExec _ callback _ => quietExec callback
  | .mem _ callback _ => quietMem callback

theorem mark_quiet (globals : Globals) (marks : Marks) (invocation : Invocation)
    (still : quiet invocation = true) : (mark globals marks invocation).2 = [] := by
  cases invocation with
  | exec callback userdata cpu => cases callback <;> first | rfl | contradiction
  | mem callback userdata cpu access => cases callback <;> first | rfl | contradiction

theorem registrations_quiet (mode : Mode) (tb : Tb) (other : mode ≠ .detailed)
    (registration : Registration) (member : registration ∈ vcpuTbTransCb mode tb) :
    quietRegistration registration = true := by
  cases mode with
  | detailed => contradiction
  | memory =>
      simp only [vcpuTbTransCb, registerMemory, List.mem_cons, List.mem_append, List.mem_flatMap,
        List.mem_ite_nil_right, List.not_mem_nil, or_false] at member
      rcases member with rfl | (⟨entry, -, rfl | rfl | rfl⟩ | rfl | rfl) | ⟨-, rfl | rfl | rfl⟩
      all_goals rfl
  | icount =>
      simp only [vcpuTbTransCb, List.mem_cons, List.not_mem_nil, or_false] at member
      rcases member with rfl | rfl
      all_goals rfl
  | unknown | stop =>
      simp only [vcpuTbTransCb, List.mem_cons, List.not_mem_nil, or_false] at member
      rcases member with rfl
      rfl

theorem invocations_quiet (mode : Mode) (block : BlockRun) (other : mode ≠ .detailed)
    (invocation : Invocation) (member : invocation ∈ block.invocations mode) :
    quiet invocation = true := by
  have registered := registrations_quiet mode block.tb other
  rw [BlockRun.invocations, List.mem_append] at member
  rcases member with entry | body
  · rcases List.mem_map.mp entry with ⟨hook, hooked, rfl⟩
    rcases List.mem_filterMap.mp hooked with ⟨registration, present, same⟩
    have still := registered registration present
    cases registration <;> cases same
    exact still
  · rcases List.mem_flatMap.mp body with ⟨⟨started, index⟩, -, inside⟩
    rw [insnInvocations, List.mem_append] at inside
    rcases inside with exec | access
    · rcases List.mem_map.mp exec with ⟨hook, hooked, rfl⟩
      rcases List.mem_filterMap.mp hooked with ⟨registration, present, same⟩
      have still := registered registration present
      cases registration with
      | insnExec i callback userdata =>
          rcases Option.ite_none_right_eq_some.mp same with ⟨-, here⟩
          cases here
          exact still
      | _ => cases same
    · rcases List.mem_flatMap.mp access with ⟨_, -, hooks⟩
      rcases List.mem_map.mp hooks with ⟨hook, hooked, rfl⟩
      rcases List.mem_filterMap.mp hooked with ⟨registration, present, same⟩
      have still := registered registration present
      cases registration with
      | mem i callback userdata =>
          rcases Option.ite_none_right_eq_some.mp same with ⟨-, here⟩
          cases here
          exact still
      | _ => cases same

theorem quiet_trail (globals : Globals) (invocations : List Invocation)
    (still : ∀ invocation ∈ invocations, quiet invocation = true) (marks final : Marks)
    (written : List (Bool × Record))
    (done : run (trail globals) marks invocations = .ok (final, written)) : written = [] := by
  induction invocations generalizing marks written with
  | nil =>
      cases done
      rfl
  | cons invocation rest ih =>
      rcases (run_cons_iff _ _ _ _ _ _).mp done with ⟨next, early, late, first, tail, rfl⟩
      rw [trail, mark_quiet globals marks invocation (still invocation List.mem_cons_self)] at first
      cases first
      exact ih (fun later member => still later (List.mem_cons_of_mem invocation member)) _ late tail

/-! Moments on a timeline. -/

def betweenRecords (entry : Entry) : Between → List Record
  | .idle =>
      (if entry.globals.currentMode = .detailed then [.ended] else []) ++
        if entry.vcpu.data.idle then [] else [.idled]
  | .resume => if entry.vcpu.data.idle then [.resumed] else []
  | .interrupt | .interruptRet =>
      if entry.globals.currentMode = .detailed then [.ended] else []
  | _ => []

theorem ended_recorded (condition : Prop) [Decidable condition] :
    (if condition then [Call.instructionEnd] else []).filterMap record =
      if condition then [.ended] else [] := by
  split <;> rfl

theorem between_recorded (entry : Entry) (happened : Between) :
    (between entry happened).2.filterMap record = betweenRecords entry happened := by
  cases happened with
  | notice notice => cases notice <;> rfl
  | closed =>
      dsimp only [between, Entry.update, closeFile, betweenRecords]
      split <;> rfl
  | idle =>
      dsimp only [between, Entry.update, vcpuIdleCb, betweenRecords]
      cases entry.vcpu.data.idle
      · simp only [Bool.false_eq_true, ↓reduceIte, List.filterMap_append, ended_recorded]
        rfl
      · simp only [↓reduceIte, ended_recorded, List.append_nil]
  | resume =>
      dsimp only [between, Entry.update, vcpuResumeCb, betweenRecords]
      split <;> rfl
  | interrupt | interruptRet =>
      dsimp only [between, Entry.update, vcpuInterruptCb, vcpuInterruptRetCb, betweenRecords]
      rw [ended_recorded]
  | start _ _ | mode _ | roi _ | magic _ | reset => rfl

theorem stride_between_recorded (entry next : Entry) (happened : Between) (calls : List Call)
    (taken : stride entry (.between happened) = .ok (next, calls)) :
    calls.filterMap record = betweenRecords entry happened := by
  have recorded := between_recorded entry happened
  rw [stride_between] at taken
  rw [Except.ok.inj taken] at recorded
  exact recorded

/-- Outside blocks no instruction is begun, aborted or touched. -/
theorem between_only (entry : Entry) (happened : Between) (written : Record)
    (member : written ∈ betweenRecords entry happened) :
    written = .ended ∨ written = .idled ∨ written = .resumed := by
  unfold betweenRecords at member
  split at member
  · simp only [List.mem_append, List.mem_ite_nil_left, List.mem_ite_nil_right,
      List.mem_singleton] at member
    rcases member with ⟨-, ended⟩ | ⟨-, idled⟩
    · exact Or.inl ended
    · exact Or.inr (Or.inl idled)
  · exact Or.inr (Or.inr (List.mem_singleton.mp (List.mem_ite_nil_right.mp member).2))
  · exact Or.inl (List.mem_singleton.mp (List.mem_ite_nil_right.mp member).2)
  · exact Or.inl (List.mem_singleton.mp (List.mem_ite_nil_right.mp member).2)
  · exact absurd member List.not_mem_nil

/-- What a block writes of these records, each with the idle flag at that moment. -/
def blockRecords (entry : Entry) (mode : Mode) (block : BlockRun) : List (Bool × Record) :=
  if mode = .detailed then
    (crossing entry.globals block.cpu (marksOf entry.vcpu.data)).map
        (Prod.mk entry.vcpu.data.idle) ++
      (bodyRecords entry.globals entry.vcpu.data.capturing block.started).map
        (Prod.mk (crossed entry.globals block.cpu (marksOf entry.vcpu.data)))
  else []

theorem block_flagged (entry final : Entry) (mode : Mode) (block : BlockRun)
    (written : List (Bool × Call))
    (done : run (labelled step idleFlag) entry (Moment.events (.block mode block)) =
      .ok (final, written)) : written.filterMap flagged = blockRecords entry mode block := by
  have trailed := run_trail entry final (block.invocations mode) written done
  unfold blockRecords
  split
  · rename_i detailed
    rcases detailed with rfl
    rcases block_trail entry.globals block (marksOf entry.vcpu.data) with ⟨reached, whole⟩
    rw [whole] at trailed
    exact (congrArg Prod.snd (Except.ok.inj trailed)).symm
  · rename_i other
    exact quiet_trail _ _ (invocations_quiet mode block other) _ _ _ trailed

theorem block_recorded (entry final : Entry) (mode : Mode) (block : BlockRun) (calls : List Call)
    (done : stride entry (.block mode block) = .ok (final, calls)) :
    calls.filterMap record = (blockRecords entry mode block).map Prod.snd := by
  rcases run_labelled_lift step idleFlag entry final _ calls done with ⟨written, ran, rfl⟩
  rw [← block_flagged entry final mode block written ran, flagged_snd]

end Hypersh.Records
