import Mathlib.Data.List.FinRange
import Hypersh.Transduction
import Hypersh.Monitors
import Hypersh.Numerals
import Hypersh.Callbacks
import Hypersh.Control
import Hypersh.System
import Hypersh.Inversion

/-!
The writers and fifos of a recording as handles that are made, used and given back. A
fifo is made while the plugin has none of its name and goes when nobody writes to it; a
writer is new, opens fifos that are there, is asked whether it is open before anything
else, and is used by its vcpu alone until it is aborted and deleted.
-/
namespace Hypersh.Handles
open Callbacks Control Monitors Transduction Inversion
variable {n : Nat}

inductive Stage where
  | made
  | asked
  | aborted
  deriving DecidableEq, Repr

structure Handle where
  writer : Nat
  filename : String
  response : String
  stage : Stage
  deriving DecidableEq, Repr

/-- The call is in order: nothing comes before `IsOpen`, nothing after `Abort`. -/
def Handle.takes (handle : Handle) : Call → Bool
  | .isOpen => handle.stage != .aborted
  | _ => handle.stage == .asked

def Handle.called (handle : Handle) : Call → Handle
  | .isOpen => { handle with stage := .asked }
  | .abort => { handle with stage := .aborted }
  | _ => handle

/-- `made` is the number of writers made so far. -/
structure Resources (n : Nat) where
  files : List String
  handles : Fin n → Option Handle
  made : Nat

def Resources.set (resources : Resources n) (vcpu : Fin n) (handle : Option Handle) :
    Resources n :=
  { resources with handles := Function.update resources.handles vcpu handle }

def Resources.hold (resources : Resources n) (vcpu : Fin n) (handle : Handle) : Resources n :=
  { resources.set vcpu (some handle) with made := handle.writer + 1 }

def Resources.unused (resources : Resources n) (path : String) : Bool :=
  (List.finRange n).all fun vcpu => (resources.handles vcpu).all fun handle =>
    handle.filename != path && handle.response != path

def nothing (n : Nat) : Resources n := ⟨[], fun _ => none, 0⟩

def discipline : Monitor (Resources n) (Action n) where
  next resources action :=
    match action with
    | .mkfifo path => { resources with files := resources.files ++ [path] }
    | .unlink path => { resources with files := resources.files.erase path }
    | .newWriter vcpu writer filename response =>
        resources.hold vcpu ⟨writer, filename, response, .made⟩
    | .call vcpu _ call =>
        resources.set vcpu ((resources.handles vcpu).map fun handle => handle.called call)
    | .deleteWriter vcpu _ => resources.set vcpu none
    | _ => resources
  allows resources action :=
    match action with
    | .mkfifo path => !resources.files.contains path
    | .unlink path => resources.files.contains path && resources.unused path
    | .newWriter vcpu writer filename response =>
        (resources.handles vcpu).isNone && decide (resources.made ≤ writer) &&
          resources.files.contains filename && resources.files.contains response
    | .call vcpu writer call =>
        (resources.handles vcpu).any fun handle => handle.writer == writer && handle.takes call
    | .deleteWriter vcpu writer =>
        (resources.handles vcpu).any fun handle =>
          handle.writer == writer && handle.stage == .aborted
    | _ => true

/-- The fifos of a recording in the directory. -/
def fifos (n : Nat) (dir : String) : List String :=
  (List.finRange n).flatMap fun threadid => [siftName dir threadid, responseName dir threadid]

def inUse (dir : String) (vcpu : Fin n) (writer : Nat) : Handle :=
  ⟨writer, siftName dir vcpu, responseName dir vcpu, .asked⟩

/-- The handles there are, beside the plugin's own state. -/
structure Kept (trace : Trace n) (resources : Resources n) : Prop where
  files : resources.files = trace.traceFiles
  made : resources.made ≤ trace.nextWriter
  idle : trace.recording = false → resources.files = [] ∧
    ∀ vcpu, trace.output vcpu = none ∧ resources.handles vcpu = none
  busy : trace.recording = true → ∃ dir, resources.files = fifos n dir ∧
    ∀ vcpu, ∃ writer, trace.output vcpu = some writer ∧
      resources.handles vcpu = some (inUse dir vcpu writer)

/-! The names of the fifos. -/

theorem decimal_injective (left right : Nat) (same : toString left = toString right) :
    left = right := by
  have letters : Nat.toDigits 10 left = Nat.toDigits 10 right := by
    have lists := congrArg String.toList same
    simpa [toString, Nat.repr] using lists
  rw [← Numerals.unsigned_decimal left, letters, Numerals.unsigned_decimal]

theorem sift_name_injective (dir : String) (left right : Fin n)
    (same : siftName dir left = siftName dir right) : left = right := by
  unfold siftName at same
  rw [String.append_left_inj, String.append_right_inj] at same
  exact Fin.ext (decimal_injective _ _ same)

theorem response_name_injective (dir : String) (left right : Fin n)
    (same : responseName dir left = responseName dir right) : left = right := by
  unfold responseName at same
  rw [String.append_left_inj, String.append_right_inj] at same
  exact Fin.ext (decimal_injective _ _ same)

theorem sift_name_not_response (dir : String) (left right : Fin n) :
    siftName dir left ≠ responseName dir right := by
  intro same
  have lists := congrArg String.toList same
  simp [siftName, responseName, String.toList_append] at lists

theorem fifos_nodup (dir : String) : (fifos n dir).Nodup := by
  rw [fifos, List.nodup_flatMap]
  constructor
  · intro threadid _
    simp [sift_name_not_response]
  · apply (List.nodup_finRange n).imp
    intro left right apart path first second
    simp only [List.mem_cons, List.not_mem_nil, or_false] at first second
    rcases first with rfl | rfl
    · rcases second with same | same
      · exact apart (sift_name_injective dir left right same)
      · exact sift_name_not_response dir left right same
    · rcases second with same | same
      · exact sift_name_not_response dir right left same.symm
      · exact apart (response_name_injective dir left right same)

theorem fifos_mem (dir : String) (threadid : Fin n) :
    siftName dir threadid ∈ fifos n dir ∧ responseName dir threadid ∈ fifos n dir := by
  constructor
  · exact List.mem_flatMap.mpr ⟨threadid, List.mem_finRange _, List.mem_cons_self⟩
  · exact List.mem_flatMap.mpr
      ⟨threadid, List.mem_finRange _, List.mem_cons_of_mem _ List.mem_cons_self⟩

/-! What a list of actions does to the handles. -/

def Uses (trace : Trace n) : Action n → Prop
  | .call vcpu writer call => trace.output vcpu = some writer ∧ call ≠ .abort
  | .newWriter _ _ _ _ | .deleteWriter _ _ | .mkfifo _ | .unlink _ => False
  | _ => True

theorem plain_uses (trace : Trace n) (action : Action n) (plain : Plain trace action) :
    Uses trace action := by
  cases action with
  | call vcpu writer call =>
      refine ⟨plain.1, ?_⟩
      rintro rfl
      exact Bool.false_ne_true plain.2
  | newWriter _ _ _ _ | deleteWriter _ _ | mkfifo _ | unlink _ => exact plain
  | _ => trivial

theorem use_read (trace : Trace n) (resources : Resources n) (action : Action n)
    (kept : Kept trace resources) (uses : Uses trace action) :
    discipline.allows resources action = true ∧ discipline.next resources action = resources := by
  cases action with
  | call vcpu writer call =>
      obtain ⟨held, going⟩ := uses
      cases recording : trace.recording with
      | false =>
          rw [((kept.idle recording).2 vcpu).1] at held
          contradiction
      | true =>
          obtain ⟨dir, -, each⟩ := kept.busy recording
          obtain ⟨own, has, handle⟩ := each vcpu
          obtain rfl := Option.some.inj (has.symm.trans held)
          have takes : (inUse dir vcpu own).takes call = true := by
            cases call <;> rfl
          have called : (inUse dir vcpu own).called call = inUse dir vcpu own := by
            cases call with
            | abort => exact absurd rfl going
            | _ => rfl
          constructor
          · simp only [discipline, handle, Option.any_some, takes, Bool.and_true]
            exact beq_self_eq_true own
          · simp only [discipline, Resources.set, handle, Option.map_some, called]
            rw [← handle, Function.update_eq_self]
  | newWriter _ _ _ _ | deleteWriter _ _ | mkfifo _ | unlink _ => exact uses.elim
  | _ => exact ⟨rfl, rfl⟩

theorem uses_read (trace : Trace n) (resources : Resources n) (actions : List (Action n))
    (kept : Kept trace resources) (uses : ∀ action ∈ actions, Uses trace action) :
    discipline.Reads resources actions resources := by
  induction actions with
  | nil => exact reads_nil discipline resources
  | cons action rest ih =>
      obtain ⟨allowed, same⟩ :=
        use_read trace resources action kept (uses action List.mem_cons_self)
      apply reads_cons discipline resources resources action rest allowed
      rw [same]
      exact ih fun other member => uses other (List.mem_cons_of_mem _ member)

theorem mkfifos_read (resources : Resources n) (paths : List String) (distinct : paths.Nodup)
    (absent : ∀ path ∈ paths, path ∉ resources.files) :
    discipline.Reads resources (paths.map .mkfifo)
      { resources with files := resources.files ++ paths } := by
  induction paths generalizing resources with
  | nil =>
      rw [List.append_nil]
      exact reads_nil discipline resources
  | cons path rest ih =>
      obtain ⟨fresh, later⟩ := List.nodup_cons.mp distinct
      have gone := absent path List.mem_cons_self
      have made := ih { resources with files := resources.files ++ [path] } later (by
        intro other member already
        rcases List.mem_append.mp already with before | now
        · exact absent other (List.mem_cons_of_mem _ member) before
        · exact fresh (List.mem_singleton.mp now ▸ member))
      rw [List.append_assoc] at made
      exact reads_cons discipline resources _ _ _ (by simp [discipline, gone]) made

theorem unlinks_read (resources : Resources n) (unused : ∀ vcpu, resources.handles vcpu = none) :
    discipline.Reads resources (resources.files.map .unlink) { resources with files := [] } := by
  obtain ⟨files, handles, made⟩ := resources
  dsimp only at unused ⊢
  induction files with
  | nil => exact reads_nil discipline _
  | cons path rest ih =>
      have free : (Resources.unused ⟨path :: rest, handles, made⟩ path) = true := by
        rw [Resources.unused, List.all_eq_true]
        intro vcpu _
        simp [unused vcpu]
      have removed : discipline.next ⟨path :: rest, handles, made⟩ (Action.unlink path) =
          ⟨rest, handles, made⟩ := by
        simp [discipline]
      apply reads_cons discipline _ _ _ _ (by simp [discipline, free])
      rw [removed]
      exact ih

/-! A start. -/

/-- `openFile` after `thread_data_reset`: one writer, on two fifos that are there. -/
theorem open_read (dir : String) (answers : Answers n) (threadid : Fin n) (writer : Nat)
    (resources : Resources n) (free : resources.handles threadid = none)
    (fresh : resources.made ≤ writer) (files : resources.files = fifos n dir) :
    discipline.Reads resources (openActions dir answers threadid writer none)
      (resources.hold threadid (inUse dir threadid writer)) := by
  obtain ⟨sift, response⟩ := fifos_mem dir threadid
  let new : Handle := ⟨writer, siftName dir threadid, responseName dir threadid, .made⟩
  have asks : discipline.allows (resources.hold threadid new) (.call threadid writer .isOpen) =
      true := by
    simp [discipline, Resources.hold, Resources.set, Handle.takes, new]
  have asked : discipline.next (resources.hold threadid new) (.call threadid writer .isOpen) =
      resources.hold threadid (inUse dir threadid writer) := by
    simp [discipline, Resources.hold, Resources.set, Handle.called, inUse, new]
  have said : ∀ last : List (Action n), discipline.Reads
      (resources.hold threadid (inUse dir threadid writer)) last
      (resources.hold threadid (inUse dir threadid writer)) →
        discipline.Reads resources ([.newWriter threadid writer (siftName dir threadid)
          (responseName dir threadid), .call threadid writer .isOpen] ++ last)
          (resources.hold threadid (inUse dir threadid writer)) := by
    intro last read
    apply reads_cons discipline _ _ _ _ (by simp [discipline, free, fresh, files, sift, response])
    apply reads_cons discipline _ _ _ _ asks
    rw [asked]
    exact read
  unfold openActions
  split
  · exact said [] (reads_nil discipline _)
  · exact said _ (reads_cons discipline _ _ _ _ rfl (reads_nil discipline _))

def heldBy (dir : String) (first : Nat) (resources : Resources n) (vcpus : List (Fin n)) :
    Resources n :=
  vcpus.foldl (fun held vcpu => held.hold vcpu (inUse dir vcpu (first + vcpu.val))) resources

theorem opens_read (dir : String) (answers : Answers n) (first : Nat) (vcpus : List (Fin n))
    (resources : Resources n) (ordered : vcpus.Pairwise (· < ·))
    (free : ∀ vcpu ∈ vcpus, resources.handles vcpu = none)
    (fresh : ∀ vcpu ∈ vcpus, resources.made ≤ first + vcpu.val)
    (files : resources.files = fifos n dir) :
    discipline.Reads resources
      (vcpus.flatMap fun vcpu => openActions dir answers vcpu (first + vcpu.val) none)
      (heldBy dir first resources vcpus) := by
  induction vcpus generalizing resources with
  | nil => exact reads_nil discipline resources
  | cons vcpu rest ih =>
      obtain ⟨before, later⟩ := List.pairwise_cons.mp ordered
      rw [List.flatMap_cons]
      apply reads_append discipline _ _ _ _ _ (open_read dir answers vcpu _ resources
        (free vcpu List.mem_cons_self) (fresh vcpu List.mem_cons_self) files)
      apply ih _ later
      · intro other member
        have apart : other ≠ vcpu := Fin.ne_of_gt (before other member)
        simp [Resources.hold, Resources.set, Function.update_of_ne apart,
          free other (List.mem_cons_of_mem _ member)]
      · intro other member
        have above : vcpu.val < other.val := before other member
        show first + vcpu.val + 1 ≤ first + other.val
        omega
      · exact files

theorem held_by_files (dir : String) (first : Nat) (resources : Resources n)
    (vcpus : List (Fin n)) : (heldBy dir first resources vcpus).files = resources.files := by
  induction vcpus generalizing resources with
  | nil => rfl
  | cons vcpu rest ih => exact ih (resources.hold vcpu (inUse dir vcpu (first + vcpu.val)))

theorem held_by_handles (dir : String) (first : Nat) (resources : Resources n)
    (vcpus : List (Fin n)) (vcpu : Fin n) :
    (heldBy dir first resources vcpus).handles vcpu =
      if vcpu ∈ vcpus then some (inUse dir vcpu (first + vcpu.val))
      else resources.handles vcpu := by
  induction vcpus generalizing resources with
  | nil => simp [heldBy]
  | cons next rest ih =>
      have later := ih (resources.hold next (inUse dir next (first + next.val)))
      rw [show heldBy dir first resources (next :: rest) = heldBy dir first
        (resources.hold next (inUse dir next (first + next.val))) rest from rfl, later]
      by_cases same : vcpu = next
      · obtain rfl := same
        simp [Resources.hold, Resources.set]
      · simp [Resources.hold, Resources.set, same]

theorem held_by_made (dir : String) (first : Nat) (resources : Resources n)
    (vcpus : List (Fin n)) (bound : resources.made ≤ first + n) :
    (heldBy dir first resources vcpus).made ≤ first + n := by
  induction vcpus generalizing resources with
  | nil => exact bound
  | cons vcpu rest ih =>
      apply ih
      show first + vcpu.val + 1 ≤ first + n
      have inside := vcpu.isLt
      omega

theorem started_kept (dir : String) (answers : Answers n) (trace : Trace n)
    (resources : Resources n) (kept : Kept trace resources) (idle : trace.recording = false) :
    ∃ after, discipline.Reads resources (startIn dir answers trace).2 after ∧
      Kept (startIn dir answers trace).1 after := by
  obtain ⟨empty, free⟩ := kept.idle idle
  let named : Resources n := { resources with files := fifos n dir }
  let ready := heldBy dir trace.nextWriter named (List.finRange n)
  have made : discipline.Reads resources ((fifos n dir).map .mkfifo) named := by
    have read := mkfifos_read resources (fifos n dir) (fifos_nodup dir) (by simp [empty])
    rwa [empty, List.nil_append] at read
  have announced : discipline.Reads named [.info ("recording to " ++ dir)] named :=
    reads_cons discipline _ _ _ _ rfl (reads_nil discipline _)
  have opened : discipline.Reads named ((List.finRange n).flatMap fun vcpu =>
      openActions dir answers vcpu (trace.nextWriter + vcpu.val) none) ready := by
    apply opens_read dir answers trace.nextWriter _ named (List.pairwise_lt_finRange n)
    · exact fun vcpu _ => (free vcpu).2
    · exact fun vcpu _ => Nat.le_trans kept.made (Nat.le_add_right _ _)
    · rfl
  have registered : discipline.Reads ready [.registerCallbacks, .tbFlush] ready :=
    reads_cons discipline _ _ _ _ rfl
      (reads_cons discipline _ _ _ _ rfl (reads_nil discipline _))
  have files : ready.files = fifos n dir := held_by_files dir _ named _
  refine ⟨ready, ?_, ?_, ?_, ?_, ?_⟩
  · exact reads_append discipline _ _ _ _ _ (reads_append discipline _ _ _ _ _
      (reads_append discipline _ _ _ _ _ made announced) opened) registered
  · rw [files]
    show fifos n dir = trace.traceFiles ++ fifos n dir
    rw [← kept.files, empty, List.nil_append]
  · exact held_by_made dir _ named _ (Nat.le_trans kept.made (Nat.le_add_right _ n))
  · exact fun stopped => absurd stopped Bool.noConfusion
  · refine fun _ => ⟨dir, files, fun vcpu => ⟨trace.nextWriter + vcpu.val, rfl, ?_⟩⟩
    rw [held_by_handles, if_pos (List.mem_finRange vcpu)]

/-! The callback of a stop. -/

/-- The handle, if any, of the vcpu's writer. -/
def Agree (trace : Trace n) (resources : Resources n) (vcpu : Fin n) : Prop :=
  trace.output vcpu = none ∧ resources.handles vcpu = none ∨
    ∃ dir writer, trace.output vcpu = some writer ∧
      resources.handles vcpu = some (inUse dir vcpu writer)

theorem kept_agree (trace : Trace n) (resources : Resources n) (kept : Kept trace resources)
    (vcpu : Fin n) : Agree trace resources vcpu := by
  cases recording : trace.recording with
  | false => exact .inl ((kept.idle recording).2 vcpu)
  | true =>
      obtain ⟨dir, -, each⟩ := kept.busy recording
      obtain ⟨writer, held, handle⟩ := each vcpu
      exact .inr ⟨dir, writer, held, handle⟩

def without (resources : Resources n) (vcpus : List (Fin n)) : Resources n :=
  vcpus.foldl (fun held vcpu => held.set vcpu none) resources

theorem without_handles (resources : Resources n) (vcpus : List (Fin n)) (vcpu : Fin n) :
    (without resources vcpus).handles vcpu =
      if vcpu ∈ vcpus then none else resources.handles vcpu := by
  induction vcpus generalizing resources with
  | nil => simp [without]
  | cons next rest ih =>
      rw [show without resources (next :: rest) = without (resources.set next none) rest from rfl,
        ih (resources.set next none)]
      by_cases same : vcpu = next
      · obtain rfl := same
        simp [Resources.set]
      · simp [Resources.set, same]

theorem without_rest (resources : Resources n) (vcpus : List (Fin n)) :
    (without resources vcpus).files = resources.files ∧
      (without resources vcpus).made = resources.made := by
  induction vcpus generalizing resources with
  | nil => exact ⟨rfl, rfl⟩
  | cons vcpu rest ih => exact ih (resources.set vcpu none)

theorem close_read (dir : String) (threadid : Fin n) (writer : Nat) (resources : Resources n)
    (held : resources.handles threadid = some (inUse dir threadid writer)) :
    discipline.Reads resources (closeActions threadid (some writer))
      (resources.set threadid none) := by
  have aborted : discipline.next resources (.call threadid writer .abort) =
      resources.set threadid (some { inUse dir threadid writer with stage := .aborted }) := by
    simp [discipline, held, Handle.called]
  apply reads_cons discipline _ _ _ _ (by simp [discipline, held, Handle.takes, inUse])
  rw [aborted]
  apply reads_cons discipline _ _ _ _ (by simp [discipline, Resources.set, inUse])
  simpa [discipline, Resources.set] using reads_nil discipline (resources.set threadid none)

theorem stop_actions_read (trace : Trace n) (resources : Resources n) (threadid : Fin n)
    (agree : Agree trace resources threadid) :
    discipline.Reads resources (Writers.stopActions trace threadid)
      (resources.set threadid none) := by
  have closed : discipline.Reads resources (closeActions threadid (trace.output threadid))
      (resources.set threadid none) := by
    rcases agree with ⟨absent, free⟩ | ⟨dir, writer, held, handle⟩
    · have same : resources.set threadid none = resources := by
        rw [Resources.set, ← free, Function.update_eq_self]
      rw [absent, same]
      exact reads_nil discipline resources
    · rw [held]
      exact close_read dir threadid writer resources handle
  unfold Writers.stopActions
  apply reads_append discipline _ _ _ _ _ closed
  split
  · exact reads_cons discipline _ _ _ _ rfl (reads_nil discipline _)
  · exact reads_nil discipline _

theorem stops_read (trace : Trace n) (vcpus : List (Fin n)) (resources : Resources n)
    (distinct : vcpus.Nodup) (agree : ∀ vcpu ∈ vcpus, Agree trace resources vcpu) :
    discipline.Reads resources (vcpus.flatMap (Writers.stopActions trace))
      (without resources vcpus) := by
  induction vcpus generalizing resources with
  | nil => exact reads_nil discipline resources
  | cons vcpu rest ih =>
      obtain ⟨absent, later⟩ := List.nodup_cons.mp distinct
      rw [List.flatMap_cons]
      apply reads_append discipline _ _ _ _ _
        (stop_actions_read trace resources vcpu (agree vcpu List.mem_cons_self))
      apply ih (resources.set vcpu none) later
      intro other member
      have apart : other ≠ vcpu := fun same => absent (same ▸ member)
      have before := agree other (List.mem_cons_of_mem _ member)
      simpa [Agree, Resources.set, Function.update_of_ne apart] using before

theorem hot_blocks_read (trace : Trace n) (vcpus : List (Fin n)) (resources : Resources n) :
    discipline.Reads resources (vcpus.flatMap fun threadid =>
      [.vcpuInfo threadid "Hot blocks:",
       .hotBlocks threadid (trace.threads threadid).blockCnt]) resources := by
  induction vcpus with
  | nil => exact reads_nil discipline resources
  | cons vcpu rest ih =>
      exact reads_cons discipline _ _ _ _ rfl (reads_cons discipline _ _ _ _ rfl ih)

theorem stopped_kept (trace : Trace n) (resources : Resources n) (kept : Kept trace resources) :
    ∃ after, discipline.Reads resources (stopCallback trace).2 after ∧
      Kept (stopCallback trace).1 after := by
  let closed := without resources (List.finRange n)
  have free : ∀ vcpu, closed.handles vcpu = none := by
    intro vcpu
    rw [without_handles, if_pos (List.mem_finRange vcpu)]
  obtain ⟨files, made⟩ := without_rest resources (List.finRange n)
  have stopped := stops_read trace (List.finRange n) resources (List.nodup_finRange n)
    fun vcpu _ => kept_agree trace resources kept vcpu
  have printed := hot_blocks_read trace ((List.finRange n).take 1) closed
  have removed := unlinks_read closed free
  rw [show closed.files = trace.traceFiles from files.trans kept.files] at removed
  have said : discipline.Reads { closed with files := [] }
      [.setSlomoRate 1, .info "Successfully reset trace."] { closed with files := [] } :=
    reads_cons discipline _ _ _ _ rfl
      (reads_cons discipline _ _ _ _ rfl (reads_nil discipline _))
  refine ⟨{ closed with files := [] }, ?_, rfl, ?_, ?_, ?_⟩
  · exact reads_append discipline _ _ _ _ _ (reads_append discipline _ _ _ _ _
      (reads_append discipline _ _ _ _ _ stopped printed) removed) said
  · exact Nat.le_trans (Nat.le_of_eq made) kept.made
  · exact fun _ => ⟨rfl, fun vcpu => ⟨rfl, free vcpu⟩⟩
  · exact fun recording => absurd recording Bool.noConfusion

theorem alike_kept (before after : Trace n) (resources : Resources n)
    (alike : Alike before after) (kept : Kept before resources) : Kept after resources where
  files := kept.files.trans alike.files.symm
  made := Nat.le_trans kept.made (Nat.le_of_eq alike.counter.symm)
  idle := by
    rw [alike.recording]
    simpa only [alike.output] using kept.idle
  busy := by
    rw [alike.recording]
    simpa only [alike.output] using kept.busy

theorem step_kept (trace next : Trace n) (resources : Resources n) (event : System.Event n)
    (actions : List (Action n)) (kept : Kept trace resources)
    (taken : System.step trace event = .ok (next, actions)) :
    ∃ after, discipline.Reads resources actions after ∧ Kept next after := by
  cases step_happened event trace next actions taken with
  | plain alike plain =>
      have read := uses_read trace resources actions kept fun action member =>
        plain_uses trace action (plain action member)
      exact ⟨resources, read, alike_kept trace next resources alike kept⟩
  | switched request vcpu writer asked held alike plain said =>
      have kept' : Kept (trace.setMode request.mode) resources :=
        ⟨kept.files, kept.made, kept.idle, kept.busy⟩
      refine ⟨resources, uses_read trace resources actions kept ?_,
        alike_kept _ next resources alike kept'⟩
      rw [said]
      intro action member
      simp only [List.mem_append, List.mem_cons, List.not_mem_nil, or_false] at member
      rcases member with (early | rfl | rfl) | late
      · exact plain_uses trace action (plain action early)
      · exact ⟨held, Call.noConfusion⟩
      · trivial
      · split at late
        · exact absurd late List.not_mem_nil
        · rw [List.mem_singleton.mp late]
          trivial
  | started dir answers now idle same =>
      have begun := started_kept dir answers trace resources kept idle
      rw [same] at begun
      exact begun
  | stopped index later same =>
      have dequeued : Kept (trace.dequeue index) resources :=
        ⟨kept.files, kept.made, kept.idle, kept.busy⟩
      have ended := stopped_kept (trace.dequeue index) resources dequeued
      rw [same] at ended
      exact ended

theorem install_kept (n : Nat) : Kept (install n) (nothing n) where
  files := rfl
  made := Nat.le_refl 0
  idle := fun _ => ⟨rfl, fun _ => ⟨rfl, rfl⟩⟩
  busy := fun recording => absurd recording Bool.noConfusion

/-- Whatever the commands, callbacks and vcpus do from installation on, every fifo and
every writer goes through its life in order, and what is there at the end is what the
plugin remembers: nothing, or the fifos of one directory and a writer on each vcpu's two. -/
theorem handles_in_order (events : List (System.Event n)) (final : Trace n)
    (actions : List (Action n)) (done : run System.step (install n) events = .ok (final, actions)) :
    ∃ resources, discipline.Reads (nothing n) actions resources ∧ Kept final resources :=
  run_reads discipline System.step Kept
    (fun trace event next emitted resources kept taken =>
      step_kept trace next resources event emitted kept taken)
    (install n) final (nothing n) events actions (install_kept n) done

def recordedTwice : List (System.Event 1) :=
  [.control (.command vcpu₀ ⟨0, none, fun _ => true⟩ (.start (some "d"))), .resume vcpu₀,
   .control (.command vcpu₀ ⟨0, none, fun _ => true⟩ .stop), .control (.deferred 0),
   .control (.command vcpu₀ ⟨0, some "t", fun _ => false⟩ (.start none)), .resume vcpu₀]

theorem recorded_twice_in_order :
    ∃ final actions, run System.step (install 1) recordedTwice = .ok (final, actions) ∧
      final.output vcpu₀ = some 1 ∧
      ∃ resources, discipline.Reads (nothing 1) actions resources ∧ Kept final resources :=
  ⟨_, _, rfl, rfl, handles_in_order recordedTwice _ _ rfl⟩

end Hypersh.Handles
