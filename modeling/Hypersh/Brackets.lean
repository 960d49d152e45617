import Mathlib.Data.List.Basic
import Hypersh.Transduction
import Hypersh.Monitors
import Hypersh.Callbacks
import Hypersh.Blocks
import Hypersh.Timeline
import Hypersh.Records

/-!
Which records are written while an instruction is open on the stream. An instruction
is begun only inside the region of interest and outside captures; it is ended by the
next one, by interrupts and idling in detailed mode and by leaving the region, and
aborted by a magic store. Memory and branch records look at none of this.
-/
namespace Hypersh.Brackets
open Callbacks Blocks Timeline Records Transduction Monitors

def bracket (opened : Bool) : Record → Bool
  | .begun => true
  | .ended | .aborted => false
  | _ => opened

def attached : Monitor Bool Record where
  next := bracket
  allows opened
    | .accessed | .branched => opened
    | _ => true

def settled : Monitor Bool Record where
  next := bracket
  allows opened
    | .idled => !opened
    | _ => true

/-! What is left open, told from the inputs. -/

/-- The instruction is begun and none of its accesses aborts it. -/
def stands (globals : Globals) (capturing : Bool) (started : Started) : Bool :=
  inRoi globals started.cpu && !capturing &&
    started.accesses.all fun access => !magicStore globals access

def leftOpen (globals : Globals) : Bool → Bool → List Started → Bool
  | _, opened, [] => opened
  | capturing, _, started :: rest =>
      leftOpen globals (captureAfter globals capturing started.accesses)
        (stands globals capturing started) rest

def leaves (entry : Entry) (block : BlockRun) : Bool :=
  entry.vcpu.data.brAddr != 0 && !inRoi entry.globals block.cpu && !entry.vcpu.data.idle

def standing (entry : Entry) (moment : Moment) (opened : Bool) : Bool :=
  match moment with
  | .between .idle | .between .interrupt | .between .interruptRet =>
      opened && entry.globals.currentMode != .detailed
  | .between _ => opened
  | .block .detailed block =>
      leftOpen entry.globals entry.vcpu.data.capturing (opened && !leaves entry block) block.started
  | .block _ _ => opened

theorem accesses_after (globals : Globals) (accesses : List (Cpu × Access)) (opened : Bool) :
    attached.after opened (accessRecords globals accesses) =
      (opened && accesses.all fun access => !magicStore globals access) := by
  induction accesses generalizing opened with
  | nil => exact (Bool.and_true opened).symm
  | cons access rest ih =>
      rw [accessRecords, List.flatMap_cons, after_append, ← accessRecords, ih, List.all_cons]
      cases magicStore globals access <;> cases opened <;> rfl

theorem insn_after (globals : Globals) (capturing opened : Bool) (started : Started) :
    attached.after opened (insnRecords globals capturing started) =
      stands globals capturing started := by
  rw [insnRecords, after_append, accesses_after, stands]
  cases inRoi globals started.cpu && !capturing <;> rfl

theorem body_after (globals : Globals) (capturing opened : Bool) (started : List Started) :
    attached.after opened (bodyRecords globals capturing started) =
      leftOpen globals capturing opened started := by
  induction started generalizing capturing opened with
  | nil => rfl
  | cons first rest ih => rw [bodyRecords, after_append, insn_after, ih, leftOpen]

theorem crossing_after (entry : Entry) (block : BlockRun) (opened : Bool) :
    attached.after opened (crossing entry.globals block.cpu (marksOf entry.vcpu.data)) =
      (opened && !leaves entry block) := by
  unfold crossing leaves marksOf
  by_cases clear : entry.vcpu.data.brAddr = 0
  · simp [clear, Monitor.after]
  · cases inRoi entry.globals block.cpu <;> cases entry.vcpu.data.idle <;>
      simp [clear, Monitor.after, attached, bracket]

theorem block_map_snd (entry : Entry) (block : BlockRun) :
    (blockRecords entry .detailed block).map Prod.snd =
      crossing entry.globals block.cpu (marksOf entry.vcpu.data) ++
        bodyRecords entry.globals entry.vcpu.data.capturing block.started := by
  simp [blockRecords, List.map_map, Function.comp_def]

theorem moment_after (entry next : Entry) (moment : Moment) (calls : List Call) (opened : Bool)
    (taken : stride entry moment = .ok (next, calls)) :
    attached.after opened (calls.filterMap record) = standing entry moment opened := by
  cases moment with
  | between happened =>
      rw [stride_between_recorded entry next happened calls taken]
      cases happened with
      | idle =>
          simp only [betweenRecords, standing]
          by_cases detailed : entry.globals.currentMode = .detailed
          · cases entry.vcpu.data.idle <;> simp [detailed, Monitor.after, attached, bracket]
          · cases entry.vcpu.data.idle <;> simp [detailed, Monitor.after, attached, bracket]
      | interrupt | interruptRet =>
          simp only [betweenRecords, standing]
          by_cases detailed : entry.globals.currentMode = .detailed
          · simp [detailed, Monitor.after, attached, bracket]
          · simp [detailed, Monitor.after]
      | resume =>
          simp only [betweenRecords, standing]
          cases entry.vcpu.data.idle <;> rfl
      | start _ _ | closed | mode _ | roi _ | magic _ | reset | notice _ => rfl
  | block mode block =>
      rw [block_recorded entry next mode block calls taken]
      by_cases detailed : mode = .detailed
      · rcases detailed with rfl
        rw [block_map_snd, after_append, crossing_after, body_after]
        rfl
      · have nothing : blockRecords entry mode block = [] := if_neg detailed
        rw [nothing]
        cases mode with
        | detailed => contradiction
        | _ => rfl

/-! Memory and branch records. -/

theorem accesses_attached (globals : Globals) (accesses : List (Cpu × Access)) (opened : Bool) :
    attached.accepts opened (accessRecords globals accesses) = true ↔
      (accesses ≠ [] → (opened && accesses.all fun access => !magicStore globals access) = true) := by
  induction accesses generalizing opened with
  | nil => exact iff_of_true rfl fun some_ => absurd rfl some_
  | cons access rest ih =>
      have all : attached.accepts opened (accessRecords globals (access :: rest)) =
          (attached.accepts opened
            (if magicStore globals access then [.aborted, .accessed] else [.accessed]) &&
            attached.accepts (opened && !magicStore globals access) (accessRecords globals rest)) := by
        rw [accessRecords, List.flatMap_cons, accepts_append, ← accessRecords]
        cases magicStore globals access <;> cases opened <;> rfl
      rw [all, Bool.and_eq_true, ih, List.all_cons]
      by_cases last : rest = []
      · cases magicStore globals access <;> cases opened <;>
          simp [last, Monitor.accepts, attached, bracket]
      · cases magicStore globals access <;> cases opened <;>
          simp [last, Monitor.accepts, attached, bracket]

theorem insn_attached (globals : Globals) (capturing opened : Bool) (started : Started) :
    attached.accepts opened (insnRecords globals capturing started) = true ↔
      (started.accesses ≠ [] → stands globals capturing started = true) := by
  have begun : attached.accepts opened ([.ended] ++
      if inRoi globals started.cpu && !capturing then [.begun] else []) = true := by
    split <;> rfl
  have left : attached.after opened ([.ended] ++
      if inRoi globals started.cpu && !capturing then [.begun] else []) =
        (inRoi globals started.cpu && !capturing) := by
    cases inRoi globals started.cpu && !capturing <;> rfl
  rw [insnRecords, accepts_append, begun, Bool.true_and, left, accesses_attached, stands]

theorem capture_kept (globals : Globals) (capturing : Bool) (accesses : List (Cpu × Access))
    (plain : (accesses.all fun access => !magicStore globals access) = true) :
    captureAfter globals capturing accesses = capturing := by
  induction accesses with
  | nil => rfl
  | cons access rest ih =>
      rw [List.all_cons, Bool.and_eq_true] at plain
      have ordinary : magicStore globals access = false := by simpa using plain.1
      have later := ih plain.2
      rw [captureAfter, List.foldl_cons, ordinary]
      exact later

theorem body_attached (globals : Globals) (capturing opened : Bool) (started : List Started) :
    attached.accepts opened (bodyRecords globals capturing started) = true ↔
      ∀ begun ∈ started, begun.accesses ≠ [] → stands globals capturing begun = true := by
  induction started generalizing opened with
  | nil => exact iff_of_true rfl fun _ absent => absurd absent List.not_mem_nil
  | cons first rest ih =>
      rw [bodyRecords, accepts_append, Bool.and_eq_true, insn_attached, List.forall_mem_cons]
      apply and_congr_right
      intro met
      have kept : captureAfter globals capturing first.accesses = capturing := by
        by_cases none_ : first.accesses = []
        · rw [none_]
          rfl
        · have stood := met none_
          rw [stands, Bool.and_eq_true] at stood
          exact capture_kept globals capturing _ stood.2
      rw [kept, ih]

theorem crossing_attached (entry : Entry) (block : BlockRun) (opened : Bool) :
    attached.accepts opened (crossing entry.globals block.cpu (marksOf entry.vcpu.data)) = true ↔
      (entry.vcpu.data.brAddr ≠ 0 → opened = true ∧
        (inRoi entry.globals block.cpu = true ∨ entry.vcpu.data.idle = true)) := by
  unfold crossing marksOf
  by_cases clear : entry.vcpu.data.brAddr = 0
  · simp [clear, Monitor.accepts]
  · cases inRoi entry.globals block.cpu <;> cases entry.vcpu.data.idle <;> cases opened <;>
      simp [clear, Monitor.accepts, attached, bracket]

/-- A detailed block entered with a branch pending finds that branch still open and does
not end it by leaving the region of interest; an instruction with memory accesses is
begun and none of them is a magic store. -/
def Attached (watched : Entry × Bool) : Moment → Prop
  | .block .detailed block =>
      (watched.1.vcpu.data.brAddr ≠ 0 → watched.2 = true ∧
        (inRoi watched.1.globals block.cpu = true ∨ watched.1.vcpu.data.idle = true)) ∧
      ∀ started ∈ block.started, started.accesses ≠ [] →
        stands watched.1.globals watched.1.vcpu.data.capturing started = true
  | _ => True

theorem moment_attached (entry next : Entry) (moment : Moment) (calls : List Call) (opened : Bool)
    (taken : stride entry moment = .ok (next, calls)) :
    attached.accepts opened (calls.filterMap record) = true ↔ Attached (entry, opened) moment := by
  cases moment with
  | between happened =>
      rw [stride_between_recorded entry next happened calls taken]
      apply iff_of_true _ trivial
      apply accepts_all
      intro written member at_
      rcases between_only entry happened written member with rfl | rfl | rfl
      all_goals rfl
  | block mode block =>
      rw [block_recorded entry next mode block calls taken]
      by_cases detailed : mode = .detailed
      · rcases detailed with rfl
        rw [block_map_snd, accepts_append, Bool.and_eq_true, crossing_attached, body_attached]
        rfl
      · have nothing : blockRecords entry mode block = [] := if_neg detailed
        rw [nothing]
        apply iff_of_true rfl
        cases mode with
        | detailed => contradiction
        | _ => trivial

def bracketed : Step (Entry × Bool) Moment Call Fault :=
  watch stride fun entry moment _ opened => standing entry moment opened

/-- From a start to the next one, every memory and branch record belongs to an open
instruction exactly when every moment keeps it so. -/
theorem records_attached_iff (threadid : UInt64) (writer : Nat) (entry final : Entry)
    (moments : List Moment) (calls : List Call)
    (single : ∀ moment ∈ moments, moment.isStart = false)
    (done : run stride (started threadid writer entry).1 moments = .ok (final, calls)) :
    attached.accepts false (calls.filterMap record) = true ↔
      Along bracketed Attached ((started threadid writer entry).1, false) moments :=
  run_accepts_iff attached stride record standing Attached (fun moment => moment.isStart = false)
    (fun entry moment next calls opened _ taken => moment_after entry next moment calls opened taken)
    (fun entry moment next calls opened _ taken =>
      moment_attached entry next moment calls opened taken)
    _ final false moments calls single done

def jumped : List Moment :=
  [.between (.mode .detailed), .between .resume, .block .detailed (jumpBlock 0x1000 0x9000 [])]

theorem jump_attached :
    ∃ final calls, run stride (started 0 0 fresh).1
        (jumped ++ [.block .detailed (jumpBlock 0x2000 0xa000 [])]) = .ok (final, calls) ∧
      (attached.accepts false (calls.filterMap record) = true ↔
        Along bracketed Attached ((started 0 0 fresh).1, false)
          (jumped ++ [.block .detailed (jumpBlock 0x2000 0xa000 [])])) := by
  refine ⟨_, _, rfl, records_attached_iff 0 0 fresh _ _ _ ?_ rfl⟩
  intro moment member
  simp only [jumped, List.cons_append, List.nil_append, List.mem_cons, List.not_mem_nil,
    or_false] at member
  rcases member with rfl | rfl | rfl | rfl
  all_goals rfl

/-- An interrupt comes between the jump and its target: the branch record follows the
End that the interrupt has written. -/
theorem branch_after_interrupt :
    ∃ final calls, run stride (started 0 0 fresh).1
        (jumped ++ [.between .interrupt, .block .detailed (jumpBlock 0x2000 0xa000 [])]) =
          .ok (final, calls) ∧
      attached.accepts false (calls.filterMap record) = false :=
  ⟨_, _, rfl, rfl⟩

/-! Idle records. -/

def Settled (watched : Entry × Bool) : Moment → Prop
  | .between .idle =>
      watched.1.vcpu.data.idle = false → watched.1.globals.currentMode ≠ .detailed →
        watched.2 = false
  | _ => True

theorem crossing_settled (entry : Entry) (block : BlockRun) (opened : Bool) :
    settled.accepts opened (crossing entry.globals block.cpu (marksOf entry.vcpu.data)) = true := by
  unfold crossing
  split_ifs <;> rfl

theorem body_settled (globals : Globals) (capturing opened : Bool) (started : List Started) :
    settled.accepts opened (bodyRecords globals capturing started) = true := by
  induction started generalizing capturing opened with
  | nil => rfl
  | cons first rest ih =>
      have accesses : ∀ at_, settled.accepts at_ (accessRecords globals first.accesses) = true := by
        intro at_
        apply accepts_all
        intro written member later
        rcases List.mem_flatMap.mp member with ⟨access, -, here⟩
        cases written with
        | idled => split at here <;> simp at here
        | _ => rfl
      rw [bodyRecords, accepts_append, ih, Bool.and_true, insnRecords, accepts_append, accesses,
        Bool.and_true]
      split <;> rfl

theorem moment_settled (entry next : Entry) (moment : Moment) (calls : List Call) (opened : Bool)
    (taken : stride entry moment = .ok (next, calls)) :
    settled.accepts opened (calls.filterMap record) = true ↔ Settled (entry, opened) moment := by
  cases moment with
  | between happened =>
      rw [stride_between_recorded entry next happened calls taken]
      cases happened with
      | idle =>
          simp only [betweenRecords, Settled]
          by_cases detailed : entry.globals.currentMode = .detailed
          · cases entry.vcpu.data.idle <;> simp [detailed, Monitor.accepts, settled, bracket]
          · cases entry.vcpu.data.idle <;> simp [detailed, Monitor.accepts, settled]
      | interrupt | interruptRet =>
          simp only [betweenRecords, Settled]
          split <;> simp [Monitor.accepts, settled]
      | resume =>
          simp only [betweenRecords, Settled]
          split <;> simp [Monitor.accepts, settled]
      | start _ _ | closed | mode _ | roi _ | magic _ | reset | notice _ =>
          exact iff_of_true rfl trivial
  | block mode block =>
      rw [block_recorded entry next mode block calls taken]
      apply iff_of_true _ trivial
      by_cases detailed : mode = .detailed
      · rcases detailed with rfl
        rw [block_map_snd, accepts_append, crossing_settled, body_settled]
        rfl
      · have nothing : blockRecords entry mode block = [] := if_neg detailed
        rw [nothing]
        rfl

/-- From a start to the next one, the vcpu never goes idle inside an instruction exactly
when every idle callback outside detailed mode finds it between instructions. -/
theorem idle_settled_iff (threadid : UInt64) (writer : Nat) (entry final : Entry)
    (moments : List Moment) (calls : List Call)
    (single : ∀ moment ∈ moments, moment.isStart = false)
    (done : run stride (started threadid writer entry).1 moments = .ok (final, calls)) :
    settled.accepts false (calls.filterMap record) = true ↔
      Along bracketed Settled ((started threadid writer entry).1, false) moments :=
  run_accepts_iff settled stride record standing Settled (fun moment => moment.isStart = false)
    (fun entry moment next calls opened _ taken => moment_after entry next moment calls opened taken)
    (fun entry moment next calls opened _ taken =>
      moment_settled entry next moment calls opened taken)
    _ final false moments calls single done

theorem halt_settled :
    ∃ final calls, run stride (started 0 0 fresh).1 (jumped ++ [.between .idle]) =
        .ok (final, calls) ∧
      (settled.accepts false (calls.filterMap record) = true ↔
        Along bracketed Settled ((started 0 0 fresh).1, false) (jumped ++ [.between .idle])) := by
  refine ⟨_, _, rfl, idle_settled_iff 0 0 fresh _ _ _ ?_ rfl⟩
  intro moment member
  simp only [jumped, List.cons_append, List.nil_append, List.mem_cons, List.not_mem_nil,
    or_false] at member
  rcases member with rfl | rfl | rfl | rfl
  all_goals rfl

/-- Another vcpu has switched to fast-forward before this one halts. -/
theorem idle_inside_instruction :
    ∃ final calls, run stride (started 0 0 fresh).1
        (jumped ++ [.between (.mode .icount), .between .idle]) = .ok (final, calls) ∧
      settled.accepts false (calls.filterMap record) = false :=
  ⟨_, _, rfl, rfl⟩

end Hypersh.Brackets
