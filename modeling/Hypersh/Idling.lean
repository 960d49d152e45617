import Mathlib.Data.List.Chain
import Hypersh.Transduction
import Hypersh.Callbacks
import Hypersh.Blocks
import Hypersh.Timeline
import Hypersh.Control
import Hypersh.System
import Hypersh.Records

/-!
The idle flag. The emulator's idle and resume callbacks and the branch sender of
detailed mode all look at it before they change it and write a record with each
change, so the records take turns. Instructions are begun without looking at it.
-/
namespace Hypersh.Idling
open Callbacks Blocks Timeline Records Transduction

def isRest : Record → Bool
  | .idled | .resumed => true
  | _ => false

def rests (calls : List Call) : List Record := (calls.filterMap record).filter isRest

def TakeTurns (records : List Record) : Prop := List.IsChain (· ≠ ·) (.idled :: records)

/-- The record that a vcpu with the flag has written last. -/
def restOf (idle : Bool) : Record := if idle then .idled else .resumed

/-- Records that take turns after the one for `before` and end with the one for `after`. -/
structure Turns (before : Bool) (records : List Record) (after : Bool) : Prop where
  chain : List.IsChain (· ≠ ·) (restOf before :: records)
  last : (restOf before :: records).getLast? = some (restOf after)

theorem turns_nil (idle : Bool) : Turns idle [] idle where
  chain := List.isChain_singleton _
  last := rfl

theorem turns_change (idle : Bool) : Turns idle [restOf !idle] !idle where
  chain := by
    apply List.isChain_pair.mpr
    cases idle <;> decide
  last := rfl

theorem turns_append (first second third : Bool) (early late : List Record)
    (front : Turns first early second) (back : Turns second late third) :
    Turns first (early ++ late) third := by
  rcases List.getLast?_eq_some_iff.mp front.last with ⟨before, same⟩
  have chain := front.chain
  rw [same] at chain
  constructor
  · rw [← List.cons_append, same]
    exact List.IsChain.append_overlap chain back.chain (List.cons_ne_nil _ _)
  · rw [← List.cons_append, same, List.append_assoc, List.singleton_append, List.getLast?_append,
      back.last]
    rfl

theorem rests_append (early late : List Call) : rests (early ++ late) = rests early ++ rests late := by
  rw [rests, List.filterMap_append, List.filter_append, rests, rests]

/-! One event of a vcpu. -/

theorem crossing_turns (globals : Globals) (cpu : Cpu) (marks : Marks) :
    Turns marks.idle ((crossing globals cpu marks).filter isRest) (crossed globals cpu marks) := by
  unfold crossing crossed
  by_cases clear : marks.brAddr = 0
  · rw [if_pos clear, if_pos clear]
    exact turns_nil _
  · rw [if_neg clear, if_neg clear]
    cases inside : inRoi globals cpu <;> cases idle : marks.idle
    · exact turns_change false
    · exact turns_nil true
    · exact turns_nil false
    · exact turns_change true

theorem mark_turns (globals : Globals) (marks : Marks) (invocation : Invocation) :
    Turns marks.idle ((mark globals marks invocation).2.filter isRest)
      (mark globals marks invocation).1.idle := by
  cases invocation with
  | exec callback userdata cpu =>
      cases callback with
      | branchDetailed => exact crossing_turns globals cpu marks
      | pcNext =>
          simp only [mark]
          split <;> exact turns_nil _
      | _ => exact turns_nil _
  | mem callback userdata cpu access =>
      cases callback with
      | sendDetailed =>
          simp only [mark]
          split <;> exact turns_nil _
      | _ => exact turns_nil _

theorem between_turns (entry : Entry) (happened : Between)
    (other : (Event.between happened).isStart = false) :
    Turns entry.vcpu.data.idle (rests (between entry happened).2)
      (between entry happened).1.vcpu.data.idle := by
  rw [rests, between_recorded]
  cases happened with
  | start threadid writer => contradiction
  | closed =>
      dsimp only [between, Entry.update, closeFile]
      exact turns_nil _
  | idle =>
      dsimp only [between, Entry.update, Entry.setData, vcpuIdleCb, betweenRecords]
      cases idle : entry.vcpu.data.idle
      · split <;> exact turns_change false
      · simp only [↓reduceIte, idle, List.append_nil]
        split <;> exact turns_nil true
  | resume =>
      dsimp only [between, Entry.update, Entry.setData, vcpuResumeCb, betweenRecords]
      cases idle : entry.vcpu.data.idle
      · simp only [Bool.false_eq_true, ↓reduceIte, idle]
        exact turns_nil false
      · exact turns_change true
  | interrupt | interruptRet =>
      dsimp only [between, Entry.update, betweenRecords]
      split <;> exact turns_nil _
  | mode _ | roi _ | magic _ | reset | notice _ => exact turns_nil _

theorem step_turns (entry next : Entry) (event : Event) (calls : List Call)
    (other : event.isStart = false) (taken : step entry event = .ok (next, calls)) :
    Turns entry.vcpu.data.idle (rests calls) next.vcpu.data.idle := by
  cases event with
  | between happened =>
      have turns := between_turns entry happened other
      rwa [Except.ok.inj taken] at turns
  | invoke invocation =>
      have marked := effect_marked _ _ _ _ (step_invoke entry next invocation calls taken).1
      have turns := mark_turns entry.globals (marksOf entry.vcpu.data) invocation
      rwa [marked] at turns

theorem run_turns (entry final : Entry) (events : List Event) (calls : List Call)
    (others : ∀ event ∈ events, event.isStart = false)
    (done : run step entry events = .ok (final, calls)) :
    Turns entry.vcpu.data.idle (rests calls) final.vcpu.data.idle := by
  apply along_relates step (fun _ event => event.isStart = false)
    (fun entry calls final => Turns entry.vcpu.data.idle (rests calls) final.vcpu.data.idle)
    (fun entry => turns_nil _) _ _ entry final events calls (along_all step _ entry events others) done
  · intro entry middle final early late here there
    rw [rests_append]
    exact turns_append _ middle.vcpu.data.idle _ _ _ here there
  · intro entry event next emitted other first
    exact step_turns entry next event emitted other first

/-! A recording of the whole plugin. -/

theorem continues_turns {n : Nat} (vcpu : Fin n) (before after : Control.Trace n)
    (actions : List (Control.Action n)) (continues : System.Continues vcpu before after actions) :
    Turns (before.threads vcpu).data.idle (rests (actions.filterMap (System.seen vcpu)))
      (after.threads vcpu).data.idle := by
  rcases continues with ⟨events, others, ran⟩
  exact run_turns _ _ events _ others ran

theorem along_turns {n : Nat} (vcpu : Fin n) (events : List (System.Event n))
    (before after : Control.Trace n) (actions : List (Control.Action n))
    (single : Along System.step (fun trace event => event.begins trace = false) before events)
    (done : run System.step before events = .ok (after, actions)) :
    Turns (before.threads vcpu).data.idle (rests (actions.filterMap (System.seen vcpu)))
      (after.threads vcpu).data.idle := by
  apply along_relates System.step (fun trace event => event.begins trace = false)
    (fun before actions after => Turns (before.threads vcpu).data.idle
      (rests (actions.filterMap (System.seen vcpu))) (after.threads vcpu).data.idle)
    (fun trace => turns_nil _) _ _ before after events actions single done
  · intro before middle after early late here there
    rw [List.filterMap_append, rests_append]
    exact turns_append _ (middle.threads vcpu).data.idle _ _ _ here there
  · intro trace event next emitted going first
    exact continues_turns vcpu trace next emitted
      (System.step_continues vcpu trace next event emitted going first)

theorem started_idle {n : Nat} (vcpu issuer : Fin n) (answers : Control.Answers n)
    (dir : Option String) (before begun : Control.Trace n) (opened : List (Control.Action n))
    (stopped : before.recording = false)
    (started : System.step before (.control (.command issuer answers (.start dir))) =
      .ok (begun, opened)) :
    (begun.threads vcpu).data.idle = true ∧ opened.filterMap (System.seen vcpu) = [.isOpen] := by
  have begin_ : ∀ path, Control.startIn path answers before = (begun, opened) →
      (begun.threads vcpu).data.idle = true ∧ opened.filterMap (System.seen vcpu) = [.isOpen] := by
    intro path same
    have silent := System.start_in_seen vcpu path answers before
    rw [same] at silent
    refine ⟨?_, silent⟩
    have reached : (Control.startIn path answers before).1 = begun := congrArg Prod.fst same
    rw [← reached]
    rfl
  simp only [System.step, Control.step, Control.perform, Control.recorderStart, stopped,
    Bool.false_eq_true, ↓reduceIte] at started
  split at started
  · exact begin_ _ (Except.ok.inj started)
  · exact begin_ _ (Except.ok.inj started)
  · contradiction

/-- From an accepted start to the next one, whatever happens in whatever order: each
vcpu's idle and resume records take turns, and its flag tells the last of them. -/
theorem idle_resume_alternate {n : Nat} (vcpu issuer : Fin n) (answers : Control.Answers n)
    (dir : Option String) (before begun final : Control.Trace n)
    (opened actions : List (Control.Action n)) (events : List (System.Event n))
    (stopped : before.recording = false)
    (started : System.step before (.control (.command issuer answers (.start dir))) =
      .ok (begun, opened))
    (single : Along System.step (fun trace event => event.begins trace = false) begun events)
    (done : run System.step begun events = .ok (final, actions)) :
    TakeTurns (rests ((opened ++ actions).filterMap (System.seen vcpu))) ∧
      ((final.threads vcpu).data.idle = true ↔
        ∀ last ∈ (rests ((opened ++ actions).filterMap (System.seen vcpu))).getLast?,
          last = .idled) := by
  rcases started_idle vcpu issuer answers dir before begun opened stopped started with ⟨idle, silent⟩
  have turns := along_turns vcpu events begun final actions single done
  rw [List.filterMap_append, silent, rests_append,
    show rests [Call.isOpen] = [] from rfl, List.nil_append]
  rw [idle] at turns
  refine ⟨turns.chain, ?_⟩
  have last := turns.last
  rw [List.getLast?_cons] at last
  cases written : (rests (actions.filterMap (System.seen vcpu))).getLast? with
  | none =>
      rw [written] at last
      cases flag : (final.threads vcpu).data.idle
      · rw [flag] at last
        cases Option.some.inj last
      · simp
  | some record =>
      rw [written] at last
      have same : record = restOf (final.threads vcpu).data.idle := Option.some.inj last
      cases flag : (final.threads vcpu).data.idle
      · simp [same, flag, restOf]
      · simp [same, flag, restOf]

def haltedTwice : List (System.Event 1) :=
  [.control (.command Control.vcpu₀ ⟨0, none, fun _ => true⟩ (.mode "detailed")),
   .resume Control.vcpu₀, .idle Control.vcpu₀, .resume Control.vcpu₀, .idle Control.vcpu₀,
   .idle Control.vcpu₀]

theorem halted_twice_alternates :
    ∃ begun opened final actions,
      System.step (Control.install 1)
          (.control (.command 0 ⟨0, none, fun _ => true⟩ (.start (some "d")))) =
        .ok (begun, opened) ∧
      run System.step begun haltedTwice = .ok (final, actions) ∧
      TakeTurns (rests ((opened ++ actions).filterMap (System.seen 0))) ∧
      ((final.threads 0).data.idle = true ↔
        ∀ last ∈ (rests ((opened ++ actions).filterMap (System.seen 0))).getLast?,
          last = .idled) :=
  ⟨_, _, _, _, rfl, rfl, idle_resume_alternate 0 0 ⟨0, none, fun _ => true⟩ (some "d")
    (Control.install 1) _ _ _ _ haltedTwice rfl rfl ⟨rfl, rfl, rfl, rfl, rfl, rfl, trivial⟩ rfl⟩

/-! Instructions begun while the flag is set. -/

def observed : Step Entry Moment (Bool × Call) Fault :=
  fun entry moment => run (labelled step idleFlag) entry moment.events

def Awake (written : Bool × Call) : Prop := record written.2 = some .begun → written.1 = false

def sends (globals : Globals) : Bool → List Started → Bool
  | _, [] => false
  | capturing, started :: rest =>
      (inRoi globals started.cpu && !capturing) ||
        sends globals (captureAfter globals capturing started.accesses) rest

/-- A detailed block that sends an instruction is entered with no branch pending by a
vcpu that is not idle, or with a branch pending inside the region of interest. -/
def Alert (entry : Entry) : Moment → Prop
  | .block .detailed block =>
      sends entry.globals entry.vcpu.data.capturing block.started = true →
        if entry.vcpu.data.brAddr = 0 then entry.vcpu.data.idle = false
        else inRoi entry.globals block.cpu = true
  | _ => True

theorem awake_flagged (written : List (Bool × Call)) :
    (∀ output ∈ written, Awake output) ↔
      ∀ entry ∈ written.filterMap flagged, entry.2 = .begun → entry.1 = false := by
  constructor
  · intro awake entry member begun
    rcases List.mem_filterMap.mp member with ⟨output, present, same⟩
    rcases Option.map_eq_some_iff.mp same with ⟨found, recorded, rfl⟩
    exact awake output present (by rw [recorded, ← begun])
  · intro awake output member begun
    have found : (output.1, Record.begun) ∈ written.filterMap flagged :=
      List.mem_filterMap.mpr ⟨output, member, by rw [flagged, begun]; rfl⟩
    exact awake _ found rfl

theorem begun_access (globals : Globals) (accesses : List (Cpu × Access)) :
    .begun ∉ accessRecords globals accesses := by
  intro member
  rcases List.mem_flatMap.mp member with ⟨access, -, here⟩
  split at here <;> simp at here

theorem begun_crossing (globals : Globals) (cpu : Cpu) (marks : Marks) :
    .begun ∉ crossing globals cpu marks := by
  unfold crossing
  split_ifs <;> decide

theorem begun_body (globals : Globals) (capturing : Bool) (started : List Started) :
    .begun ∈ bodyRecords globals capturing started ↔ sends globals capturing started = true := by
  induction started generalizing capturing with
  | nil => simp [bodyRecords, sends]
  | cons first rest ih =>
      have absent := begun_access globals first.accesses
      rw [bodyRecords, List.mem_append, ih, sends, Bool.or_eq_true, insnRecords]
      apply or_congr_left
      cases begins : inRoi globals first.cpu && !capturing <;> simp [absent]

theorem block_awake (entry : Entry) (block : BlockRun) :
    (∀ written ∈ blockRecords entry .detailed block, written.2 = .begun → written.1 = false) ↔
      Alert entry (.block .detailed block) := by
  have entered := begun_crossing entry.globals block.cpu (marksOf entry.vcpu.data)
  have body := begun_body entry.globals entry.vcpu.data.capturing block.started
  have flag : crossed entry.globals block.cpu (marksOf entry.vcpu.data) = false ↔
      if entry.vcpu.data.brAddr = 0 then entry.vcpu.data.idle = false
      else inRoi entry.globals block.cpu = true := by
    unfold crossed
    by_cases clear : entry.vcpu.data.brAddr = 0
    · simp [marksOf, clear]
    · simp [marksOf, clear]
  simp only [blockRecords, Alert, ↓reduceIte, ← flag, ← body]
  constructor
  · intro awake sent
    exact awake _ (List.mem_append_right _ (List.mem_map_of_mem sent)) rfl
  · intro alert written member begun
    rcases List.mem_append.mp member with early | late
    · rcases List.mem_map.mp early with ⟨found, present, rfl⟩
      exact absurd (begun ▸ present) entered
    · rcases List.mem_map.mp late with ⟨found, present, rfl⟩
      exact alert (begun ▸ present)

theorem observed_awake (entry next : Entry) (moment : Moment) (written : List (Bool × Call))
    (taken : observed entry moment = .ok (next, written)) :
    (∀ output ∈ written, Awake output) ↔ Alert entry moment := by
  rw [awake_flagged]
  cases moment with
  | between happened =>
      have single : labelled step idleFlag entry (.between happened) = .ok (next, written) := by
        rw [← run_singleton (labelled step idleFlag)]
        exact taken
      rcases (labelled_iff _ _ _ _ _ _).mp single with ⟨calls, stepped, rfl⟩
      have recorded := between_recorded entry happened
      rw [Except.ok.inj stepped] at recorded
      apply iff_of_true _ trivial
      intro found member begun
      rw [flagged_records, recorded] at member
      rcases List.mem_map.mp member with ⟨inner, present, rfl⟩
      rcases between_only entry happened .begun (begun ▸ present) with same | same | same
      all_goals cases same
  | block mode block =>
      rw [block_flagged entry next mode block written taken]
      by_cases detailed : mode = .detailed
      · rcases detailed with rfl
        exact block_awake entry block
      · have nothing : blockRecords entry mode block = [] := if_neg detailed
        rw [nothing]
        apply iff_of_true (fun _ absent => absurd absent List.not_mem_nil)
        cases mode with
        | detailed => contradiction
        | _ => trivial

/-- In a run from installation on, every InstructionBegin is written by a vcpu that is
not idle exactly when every detailed block that sends an instruction is entered awake. -/
theorem begins_awake_iff (moments : List Moment) (final : Entry) (written : List (Bool × Call))
    (done : run observed fresh moments = .ok (final, written)) :
    (∀ output ∈ written, Awake output) ↔ Along observed Alert fresh moments :=
  run_all_iff observed Alert Awake
    (fun entry moment next written taken => observed_awake entry next moment written taken)
    fresh final moments written done

/-- Detailed mode is entered by a vcpu that no resume callback has woken. -/
def enteredIdle : List Moment :=
  [.between (.start 0 0), .between (.mode .detailed), .block .detailed (jumpBlock 0x1000 0x9000 [])]

theorem begun_while_idle :
    ∃ final written, run observed fresh enteredIdle = .ok (final, written) ∧
      ¬ ∀ output ∈ written, Awake output := by
  rcases map_ok (run observed fresh enteredIdle)
    (fun result => result.2.filterMap flagged) [(true, .ended), (true, .begun)] rfl with
    ⟨⟨final, written⟩, done, seen⟩
  refine ⟨final, written, done, ?_⟩
  rw [awake_flagged, seen]
  decide

theorem begun_awake :
    ∃ final written, run observed fresh [.between (.start 0 0), .between (.mode .detailed),
        .between .resume, .block .detailed (jumpBlock 0x1000 0x9000 [])] = .ok (final, written) ∧
      ((∀ output ∈ written, Awake output) ↔ Along observed Alert fresh [.between (.start 0 0),
        .between (.mode .detailed), .between .resume,
        .block .detailed (jumpBlock 0x1000 0x9000 [])]) :=
  ⟨_, _, rfl, begins_awake_iff _ _ _ rfl⟩

end Hypersh.Idling
