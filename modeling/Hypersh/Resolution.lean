import Mathlib.Data.List.Basic
import Mathlib.Tactic.SplitIfs
import Hypersh.Transduction
import Hypersh.Callbacks
import Hypersh.Blocks
import Hypersh.Footprint
import Hypersh.Timeline
import Hypersh.Records
import Hypersh.Translations
import Hypersh.Control
import Hypersh.System
import Hypersh.Captures
import Hypersh.Emulation

/-!
A simulator at the other end of a vcpu's stream. It remembers one translation, the last
one; whatever a block in detailed mode tells it about code or data it can place in the
guest's memory with that.
-/
namespace Hypersh.Resolution
open Callbacks Blocks Footprint Control Transduction
open Records (magicStore captureAfter)

/-- What the simulator makes of a stream: a page of code with its contents, a fetched
instruction, an access, each with its physical address. -/
inductive Resolved where
  | page (vaddr paddr haddr pgd : UInt64)
  | fetch (pc size paddr : UInt64)
  | access (vaddr paddr : UInt64)
  deriving DecidableEq, Repr

abbrev Last := Option (UInt64 × UInt64)

def resolve (last : Last) (address : UInt64) : Except UInt64 UInt64 :=
  match last with
  | some (vaddr, paddr) => if vaddr = address then .ok paddr else .error address
  | none => .error address

/-- A simulator is stuck at an address it cannot place. -/
def read : Step Last Call Resolved UInt64 :=
  fun last call =>
    match call with
    | .translate vaddr paddr => .ok (some (vaddr, paddr), [])
    | .sendICache vaddr haddr pgd =>
        (resolve last vaddr).map fun paddr => (last, [.page vaddr paddr haddr pgd])
    | .instructionBegin pc size _ _ =>
        (resolve last pc).map fun paddr => (last, [.fetch pc size paddr])
    | .instructionMem vaddr =>
        (resolve last vaddr).map fun paddr => (last, [.access vaddr paddr])
    | _ => .ok (last, [])

/-- The calls tell of these things, whatever came before. -/
def Tells (calls : List Call) (things : List Resolved) : Prop :=
  ∀ last, ∃ next, run read last calls = .ok (next, things)

theorem Tells.append {front back : List Call} {early late : List Resolved}
    (first : Tells front early) (second : Tells back late) :
    Tells (front ++ back) (early ++ late) := by
  intro last
  obtain ⟨middle, before⟩ := first last
  obtain ⟨next, after⟩ := second middle
  exact ⟨next, run_append_ok _ _ _ _ _ _ _ _ before after⟩

def addressed : Call → Bool
  | .sendICache _ _ _ | .instructionBegin _ _ _ _ | .instructionMem _ => true
  | _ => false

theorem tells_nothing (calls : List Call) (plain : calls.any addressed = false) :
    Tells calls [] := by
  induction calls with
  | nil => exact fun last => ⟨last, rfl⟩
  | cons call rest ih =>
      obtain ⟨here, later⟩ := Bool.or_eq_false_iff.mp plain
      have first : Tells [call] [] := by
        intro last
        cases call with
        | sendICache vaddr haddr pgd => contradiction
        | instructionBegin pc size predicate executed => contradiction
        | instructionMem vaddr => contradiction
        | translate vaddr paddr => exact ⟨some (vaddr, paddr), rfl⟩
        | _ => exact ⟨last, rfl⟩
      exact first.append (ih later)

theorem tells_translated (vaddr paddr : UInt64) (call : Call) (thing : Resolved)
    (named : read (some (vaddr, paddr)) call = .ok (some (vaddr, paddr), [thing])) :
    Tells [.translate vaddr paddr, call] [thing] := by
  intro last
  refine ⟨some (vaddr, paddr), ?_⟩
  exact run_cons_ok read last (some (vaddr, paddr)) _ (.translate vaddr paddr) [call] [] [thing] rfl
    ((run_singleton _ _ _).trans named)

theorem tells_fetch (pc size paddr : UInt64) :
    Tells [.translate pc paddr, .instructionBegin pc size false true] [.fetch pc size paddr] :=
  tells_translated pc paddr _ _ (by simp [read, resolve, Except.map])

theorem tells_page (vaddr paddr haddr pgd : UInt64) :
    Tells [.translate vaddr paddr, .sendICache vaddr haddr pgd] [.page vaddr paddr haddr pgd] :=
  tells_translated vaddr paddr _ _ (by simp [read, resolve, Except.map])

theorem tells_access (vaddr paddr : UInt64) :
    Tells [.translate vaddr paddr, .instructionMem vaddr] [.access vaddr paddr] :=
  tells_translated vaddr paddr _ _ (by simp [read, resolve, Except.map])

/-! Callbacks that name no address. -/

def plainExec : ExecCallback → Bool
  | .pcNext | .sendIcache | .sendIcache2 => false
  | _ => true

def plain : Invocation → Bool
  | .exec callback _ _ => plainExec callback
  | .mem .sendDetailed _ _ _ => false
  | _ => true

theorem plain_effect (globals : Globals) (thread : ThreadData) (invocation : Invocation)
    (result : Effect) (still : plain invocation = true)
    (done : effect globals thread invocation = .ok result) :
    Tells result.2 [] ∧ result.1.capturing = thread.capturing := by
  cases invocation with
  | exec callback userdata cpu =>
      have kept := exec_written globals cpu userdata thread callback result done
      have only := exec_may_call globals cpu userdata thread callback result done
      constructor
      · apply tells_nothing
        rw [List.any_eq_false]
        intro call member
        have may := List.all_eq_true.mp only call member
        cases call with
        | sendICache vaddr haddr pgd => cases callback <;> contradiction
        | instructionBegin pc size predicate executed => cases callback <;> contradiction
        | instructionMem vaddr => cases callback <;> contradiction
        | _ => exact Bool.false_ne_true
      · rw [kept]
        cases callback <;> rfl
  | mem callback userdata cpu access =>
      have kept := mem_written globals cpu userdata access thread callback
      have only := mem_may_call globals cpu userdata access thread callback
      cases done
      cases callback with
      | sendDetailed => contradiction
      | updatePc =>
          refine ⟨tells_nothing _ rfl, ?_⟩
          rw [kept]
          rfl
      | sendCacheonly =>
          constructor
          · apply tells_nothing
            rw [List.any_eq_false]
            intro call member
            have may := List.all_eq_true.mp only call member
            cases call with
            | sendICache vaddr haddr pgd => contradiction
            | instructionBegin pc size predicate executed => contradiction
            | instructionMem vaddr => contradiction
            | _ => exact Bool.false_ne_true
          · rw [kept]
            rfl

theorem plain_run (globals : Globals) (invocations : List Invocation)
    (still : ∀ invocation ∈ invocations, plain invocation = true) (vcpu final : Vcpu)
    (calls : List Call) (done : run (invoke globals) vcpu invocations = .ok (final, calls)) :
    Tells calls [] ∧ final.data.capturing = vcpu.data.capturing := by
  induction invocations generalizing vcpu calls with
  | nil =>
      cases done
      exact ⟨fun last => ⟨last, rfl⟩, rfl⟩
  | cons invocation rest ih =>
      obtain ⟨here, later⟩ := List.forall_mem_cons.mp still
      obtain ⟨next, early, late, first, tail, rfl⟩ := (run_cons_iff _ _ _ _ _ _).mp done
      obtain ⟨told, kept⟩ := plain_effect globals vcpu.data invocation _ here
        (invoke_effect globals vcpu next invocation early first)
      obtain ⟨rest_, same⟩ := ih later next late tail
      exact ⟨told.append rest_, same.trans kept⟩

/-! A block instrumented for detailed mode. -/

def pages (globals : Globals) (block : BlockRun) : List Resolved :=
  if inRoi globals block.cpu then
    .page block.tb.vaddr block.tb.ramAddr block.tb.haddr (icachePgd block.cpu) ::
      (block.tb.page2.map fun page =>
        .page page.vaddr page.ramAddr page.haddr (icachePgd block.cpu)).toList
  else []

def fetched (globals : Globals) (capturing : Bool) (insn : Insn) (started : Started) :
    List Resolved :=
  if inRoi globals started.cpu && !capturing then
    [.fetch insn.vaddr (insn.next - insn.vaddr) insn.ramAddr]
  else []

def accessed (access : Cpu × Access) : Resolved := .access access.2.vaddr access.2.paddr

/-- The instructions that were started, each with its accesses. Magic stores turn fetches
off and on. -/
def executed (globals : Globals) : Bool → List (Insn × Started) → List Resolved
  | _, [] => []
  | capturing, (insn, started) :: rest =>
      fetched globals capturing insn started ++ started.accesses.map accessed ++
        executed globals (captureAfter globals capturing started.accesses) rest

def captures (globals : Globals) (capturing : Bool) (insns : List (Insn × Started)) : Bool :=
  insns.foldl (fun now entry => captureAfter globals now entry.2.accesses) capturing

theorem invoke_hook (globals : Globals) (cpu : Cpu) (vcpu final : Vcpu)
    (hook : ExecCallback × UInt64) (hooks : List (ExecCallback × UInt64)) (calls : List Call)
    (done : run (invoke globals) vcpu (execInvocations (hook :: hooks) cpu) = .ok (final, calls)) :
    ∃ next early late, execEffect globals cpu hook.2 vcpu.data hook.1 = .ok (next.data, early) ∧
      run (invoke globals) next (execInvocations hooks cpu) = .ok (final, late) ∧
      calls = early ++ late := by
  obtain ⟨next, early, late, first, tail, rfl⟩ := (run_cons_iff _ _ _ _ _ _).mp done
  exact ⟨next, early, late, invoke_effect _ _ _ _ _ first, tail, rfl⟩

theorem plain_hooks (globals : Globals) (cpu : Cpu) (hooks : List (ExecCallback × UInt64))
    (still : ∀ hook ∈ hooks, plainExec hook.1 = true) (vcpu final : Vcpu) (calls : List Call)
    (done : run (invoke globals) vcpu (execInvocations hooks cpu) = .ok (final, calls)) :
    Tells calls [] ∧ final.data.capturing = vcpu.data.capturing := by
  refine plain_run globals _ ?_ vcpu final calls done
  intro invocation member
  obtain ⟨hook, hooked, rfl⟩ := List.mem_map.mp member
  exact still hook hooked

theorem page_told (globals : Globals) (cpu : Cpu) (vaddr ramAddr haddr : UInt64) :
    Tells ((if inRoi globals cpu then [.translate vaddr ramAddr] else []) ++
        if inRoi globals cpu then [.sendICache vaddr haddr (icachePgd cpu)] else [])
      (if inRoi globals cpu then [.page vaddr ramAddr haddr (icachePgd cpu)] else []) := by
  split
  · exact tells_page vaddr ramAddr haddr (icachePgd cpu)
  · exact fun last => ⟨last, rfl⟩

theorem page2_told (globals : Globals) (block : BlockRun) (rest : List (ExecCallback × UInt64))
    (still : ∀ hook ∈ rest, plainExec hook.1 = true) (vcpu final : Vcpu) (calls : List Call)
    (done : run (invoke globals) vcpu (execInvocations (page2Hooks block.tb ++ rest) block.cpu) =
      .ok (final, calls)) :
    Tells calls (if inRoi globals block.cpu then (block.tb.page2.map fun page =>
        .page page.vaddr page.ramAddr page.haddr (icachePgd block.cpu)).toList else []) ∧
      final.data.capturing = vcpu.data.capturing := by
  unfold page2Hooks at done
  cases second : block.tb.page2 with
  | none =>
      rw [second] at done
      obtain ⟨told, kept⟩ := plain_hooks globals block.cpu rest still vcpu final calls done
      refine ⟨?_, kept⟩
      rw [Option.map_none, Option.toList, ite_self]
      exact told
  | some page =>
      simp only [second, List.cons_append, List.nil_append] at done
      obtain ⟨stored, calls₁, late₁, first, done₁, rfl⟩ := invoke_hook _ _ _ _ _ _ _ done
      obtain ⟨looked, calls₂, late₂, second, done₂, rfl⟩ := invoke_hook _ _ _ _ _ _ _ done₁
      obtain ⟨sent, calls₃, late₃, third, done₃, rfl⟩ := invoke_hook _ _ _ _ _ _ _ done₂
      obtain ⟨told, kept⟩ := plain_hooks globals block.cpu rest still sent final late₃ done₃
      obtain ⟨data₁, rfl⟩ := Prod.mk.inj (Except.ok.inj first)
      obtain ⟨data₂, rfl⟩ := Prod.mk.inj (Except.ok.inj second)
      obtain ⟨data₃, rfl⟩ := Prod.mk.inj (Except.ok.inj third)
      have here : stored.data.tbVaddr2 = page.vaddr := by rw [← data₁]
      have same : looked.data.tbVaddr2 = page.vaddr := by rw [← data₂]; exact here
      constructor
      · have paged := (page_told globals block.cpu page.vaddr page.ramAddr page.haddr).append told
        simpa [here, same, List.append_assoc] using paged
      · rw [kept, ← data₃, ← data₂, ← data₁]

theorem entry_told (globals : Globals) (block : BlockRun) (vcpu final : Vcpu) (calls : List Call)
    (done : run (invoke globals) vcpu (block.entry .detailed) = .ok (final, calls)) :
    Tells calls (pages globals block) ∧ final.data.capturing = vcpu.data.capturing := by
  simp only [BlockRun.entry, entry_hooks_detailed, List.cons_append, List.nil_append] at done
  obtain ⟨counted, calls₁, late₁, first, done₁, rfl⟩ := invoke_hook _ _ _ _ _ _ _ done
  obtain ⟨aimed, calls₂, late₂, second, done₂, rfl⟩ := invoke_hook _ _ _ _ _ _ _ done₁
  obtain ⟨branched, calls₃, late₃, third, done₃, rfl⟩ := invoke_hook _ _ _ _ _ _ _ done₂
  obtain ⟨looked, calls₄, late₄, fourth, done₄, rfl⟩ := invoke_hook _ _ _ _ _ _ _ done₃
  obtain ⟨sent, calls₅, late₅, fifth, done₅, rfl⟩ := invoke_hook _ _ _ _ _ _ _ done₄
  have behind := page2_told globals block
    (if block.tb.isBranch then [(.updateFallthrough, block.tb.nextPc)] else []) (by
      intro hook member
      simp only [List.mem_ite_nil_right, List.mem_singleton] at member
      rw [member.2]
      rfl) sent final late₅ done₅
  have quiet := plain_effect globals aimed.data (.exec .branchDetailed 0 block.cpu) _ rfl third
  obtain ⟨data₁, rfl⟩ := Prod.mk.inj (Except.ok.inj first)
  obtain ⟨data₂, rfl⟩ := Prod.mk.inj (Except.ok.inj second)
  obtain ⟨data₄, rfl⟩ := Prod.mk.inj (Except.ok.inj fourth)
  obtain ⟨data₅, rfl⟩ := Prod.mk.inj (Except.ok.inj fifth)
  have here : branched.data.tbVaddr1 = block.tb.vaddr := by
    rw [show branched.data.tbVaddr1 = aimed.data.tbVaddr1 from
      Translations.branch_detailed_vaddr1 _ _ _ _ third, ← data₂]
  have same : looked.data.tbVaddr1 = block.tb.vaddr := by rw [← data₄]; exact here
  constructor
  · have paged := quiet.1.append ((page_told globals block.cpu block.tb.vaddr block.tb.ramAddr
      block.tb.haddr).append behind.1)
    have both : pages globals block =
        (if inRoi globals block.cpu then
          [.page block.tb.vaddr block.tb.ramAddr block.tb.haddr (icachePgd block.cpu)] else []) ++
        if inRoi globals block.cpu then (block.tb.page2.map fun page =>
          .page page.vaddr page.ramAddr page.haddr (icachePgd block.cpu)).toList else [] := by
      unfold pages
      split <;> rfl
    rw [here, same, both]
    simpa only [List.nil_append, List.append_assoc] using paged
  · rw [behind.2, ← data₅, ← data₄, quiet.2, ← data₂, ← data₁]

/-! Instructions. -/

theorem send_detailed_told (globals : Globals) (access : Cpu × Access) (thread : ThreadData) :
    Tells (memSendDetailed globals access.1 access.2 thread).2 [accessed access] ∧
      (memSendDetailed globals access.1 access.2 thread).1.capturing =
        if magicStore globals access then !thread.capturing else thread.capturing := by
  have counted : ∀ other, (countAccess globals access.1 access.2 other).capturing =
      other.capturing := by
    intro other
    unfold countAccess
    split_ifs <;> rfl
  have toggled : (toggleCapture thread).capturing = !thread.capturing := by
    unfold toggleCapture
    cases capturing : thread.capturing <;> simp
  have told := tells_access access.2.vaddr access.2.paddr
  have aborted : Tells [.instructionAbort] [] := fun last => ⟨last, rfl⟩
  unfold memSendDetailed magicStore
  dsimp only
  split
  · exact ⟨aborted.append told, (counted _).trans toggled⟩
  · exact ⟨told, counted thread⟩

theorem accesses_told (globals : Globals) (accesses : List (Cpu × Access)) (vcpu final : Vcpu)
    (calls : List Call)
    (done : run (invoke globals) vcpu
      (accesses.flatMap (accessInvocations [(.sendDetailed, 0)])) = .ok (final, calls)) :
    Tells calls (accesses.map accessed) ∧
      final.data.capturing = captureAfter globals vcpu.data.capturing accesses := by
  induction accesses generalizing vcpu calls with
  | nil =>
      cases done
      exact ⟨fun last => ⟨last, rfl⟩, rfl⟩
  | cons access rest ih =>
      obtain ⟨next, early, late, first, tail, rfl⟩ := (run_cons_iff _ _ _ _ _ _).mp done
      have sent : memSendDetailed globals access.1 access.2 vcpu.data = (next.data, early) :=
        Except.ok.inj (invoke_effect _ _ _ _ _ first)
      obtain ⟨told, flag⟩ := send_detailed_told globals access vcpu.data
      rw [sent] at told flag
      obtain ⟨later, final_⟩ := ih next late tail
      refine ⟨told.append later, ?_⟩
      rw [final_, flag]
      rfl

theorem insn_told (globals : Globals) (tb : Tb) (index : Nat) (insn : Insn) (started : Started)
    (present : tb.insns[index]? = some insn) (vcpu final : Vcpu) (calls : List Call)
    (done : run (invoke globals) vcpu (insnInvocations .detailed tb index started) =
      .ok (final, calls)) :
    Tells calls (fetched globals vcpu.data.capturing insn started ++
        started.accesses.map accessed) ∧
      final.data.capturing = captureAfter globals vcpu.data.capturing started.accesses := by
  rw [insnInvocations, insn_hooks_detailed tb index insn present,
    mem_hooks_detailed tb index insn present] at done
  obtain ⟨begun, early, late, exec, accesses, rfl⟩ := (run_append_iff _ _ _ _ _ _).mp done
  obtain ⟨data, flag⟩ := accesses_told globals started.accesses begun final late accesses
  have code : Tells early (fetched globals vcpu.data.capturing insn started) ∧
      begun.data.capturing = vcpu.data.capturing := by
    simp only [List.cons_append, List.nil_append, List.append_assoc] at exec
    obtain ⟨placed, calls₁, late₁, first, exec₁, rfl⟩ := invoke_hook _ _ _ _ _ _ _ exec
    obtain ⟨looked, calls₂, late₂, second, exec₂, rfl⟩ := invoke_hook _ _ _ _ _ _ _ exec₁
    obtain ⟨opened, calls₃, late₃, third, exec₃, rfl⟩ := invoke_hook _ _ _ _ _ _ _ exec₂
    have rest := plain_hooks globals started.cpu _ (by
      intro hook member
      simp only [List.mem_append, List.mem_ite_nil_right, List.mem_singleton] at member
      rcases member with ⟨-, rfl⟩ | ⟨-, rfl⟩ | ⟨-, rfl⟩
      all_goals rfl) opened begun late₃ exec₃
    have quiet := plain_effect globals vcpu.data (.exec .updatePc insn.vaddr started.cpu) _ rfl first
    have pc : placed.data.pc = insn.vaddr := by
      have stored : (insnExecUpdatePc globals started.cpu insn.vaddr vcpu.data).1 = placed.data :=
        congrArg Prod.fst (Except.ok.inj first)
      rw [← stored]
      dsimp only [insnExecUpdatePc, syncDetailed, countDetailed]
      split_ifs <;> rfl
    obtain ⟨data₂, rfl⟩ := Prod.mk.inj (Except.ok.inj second)
    obtain ⟨data₃, rfl⟩ := Prod.mk.inj (Except.ok.inj third)
    have same : looked.data = placed.data := data₂.symm
    constructor
    · rw [← List.nil_append (fetched globals vcpu.data.capturing insn started)]
      apply quiet.1.append
      unfold fetched
      rw [same, pc, quiet.2]
      have told := rest.1
      cases inRoi globals started.cpu with
      | false => exact told
      | true =>
          cases vcpu.data.capturing with
          | false => exact (tells_fetch _ _ _).append told
          | true =>
              have looked : Tells [.translate insn.vaddr insn.ramAddr] [] :=
                fun last => ⟨some (insn.vaddr, insn.ramAddr), rfl⟩
              exact looked.append told
    · rw [rest.2, ← data₃, same, quiet.2]
  rw [code.2] at flag
  exact ⟨code.1.append data, flag⟩

theorem insns_told (globals : Globals) (tb : Tb) (started : List Started) (index : Nat)
    (inside : index + started.length ≤ tb.insns.length) (vcpu final : Vcpu) (calls : List Call)
    (done : run (invoke globals) vcpu ((started.zipIdx index).flatMap fun entry =>
      insnInvocations .detailed tb entry.2 entry.1) = .ok (final, calls)) :
    Tells calls (executed globals vcpu.data.capturing ((tb.insns.drop index).zip started)) ∧
      final.data.capturing =
        captures globals vcpu.data.capturing ((tb.insns.drop index).zip started) := by
  induction started generalizing index vcpu calls with
  | nil =>
      cases done
      rw [List.zip_nil_right]
      exact ⟨fun last => ⟨last, rfl⟩, rfl⟩
  | cons first rest ih =>
      rw [List.length_cons] at inside
      have bound : index < tb.insns.length := by omega
      rw [List.zipIdx_cons, List.flatMap_cons] at done
      obtain ⟨next, early, late, here, tail, rfl⟩ := (run_append_iff _ _ _ _ _ _).mp done
      obtain ⟨told, flag⟩ := insn_told globals tb index _ first
        (List.getElem?_eq_getElem bound) vcpu next early here
      obtain ⟨later, last⟩ := ih (index + 1) (by omega) next late tail
      rw [List.drop_eq_getElem_cons bound, List.zip_cons_cons]
      rw [flag] at later last
      exact ⟨told.append later, last⟩

theorem block_told (globals : Globals) (block : BlockRun) (vcpu final : Vcpu) (calls : List Call)
    (done : run (invoke globals) vcpu (block.invocations .detailed) = .ok (final, calls)) :
    Tells calls (pages globals block ++ executed globals vcpu.data.capturing block.executed) ∧
      final.data.capturing = captures globals vcpu.data.capturing block.executed := by
  obtain ⟨entered, early, late, entry, body, rfl⟩ := (run_append_iff _ _ _ _ _ _).mp done
  obtain ⟨told, flag⟩ := entry_told globals block vcpu entered early entry
  obtain ⟨insns, last⟩ := insns_told globals block.tb block.started 0
    (by rw [Nat.zero_add]; exact block.bounded) entered final late body
  rw [flag, List.drop_zero] at insns last
  exact ⟨told.append insns, last⟩

/-! Blocks of the other modes. -/

def callbackOf : Invocation → ExecCallback ⊕ MemCallback
  | .exec callback _ _ => .inl callback
  | .mem callback _ _ _ => .inr callback

def registered : Registration → ExecCallback ⊕ MemCallback
  | .tbExec callback _ | .insnExec _ callback _ => .inl callback
  | .mem _ callback _ => .inr callback

/-- Whatever a block invokes was registered when it was translated. -/
theorem invocation_registered (mode : Mode) (block : BlockRun) (invocation : Invocation)
    (member : invocation ∈ block.invocations mode) :
    callbackOf invocation ∈ (vcpuTbTransCb mode block.tb).map registered := by
  apply List.mem_map.mpr
  rcases List.mem_append.mp member with entry | body
  · obtain ⟨hook, hooked, rfl⟩ := List.mem_map.mp entry
    obtain ⟨registration, present, same⟩ := List.mem_filterMap.mp hooked
    refine ⟨registration, present, ?_⟩
    cases registration <;> cases same
    rfl
  · obtain ⟨⟨started, index⟩, -, inside⟩ := List.mem_flatMap.mp body
    rcases List.mem_append.mp inside with exec | access
    · obtain ⟨hook, hooked, rfl⟩ := List.mem_map.mp exec
      obtain ⟨registration, present, same⟩ := List.mem_filterMap.mp hooked
      refine ⟨registration, present, ?_⟩
      cases registration with
      | insnExec i callback userdata =>
          obtain ⟨-, here⟩ := Option.ite_none_right_eq_some.mp same
          cases here
          rfl
      | _ => cases same
    · obtain ⟨_, -, hooks⟩ := List.mem_flatMap.mp access
      obtain ⟨hook, hooked, rfl⟩ := List.mem_map.mp hooks
      obtain ⟨registration, present, same⟩ := List.mem_filterMap.mp hooked
      refine ⟨registration, present, ?_⟩
      cases registration with
      | mem i callback userdata =>
          obtain ⟨-, here⟩ := Option.ite_none_right_eq_some.mp same
          cases here
          rfl
      | _ => cases same

def plainCallback : ExecCallback ⊕ MemCallback → Bool
  | .inl callback => plainExec callback
  | .inr .sendDetailed => false
  | .inr _ => true

theorem registrations_plain (mode : Mode) (tb : Tb) (other : mode ≠ .detailed)
    (registration : Registration) (member : registration ∈ vcpuTbTransCb mode tb) :
    plainCallback (registered registration) = true := by
  cases mode with
  | detailed => contradiction
  | memory =>
      simp only [vcpuTbTransCb, registerMemory, List.mem_cons, List.mem_append, List.mem_flatMap,
        List.mem_ite_nil_right, List.not_mem_nil, or_false] at member
      rcases member with rfl | (⟨entry, -, rfl | rfl | rfl⟩ | rfl | rfl) | ⟨-, rfl | rfl | rfl⟩
      all_goals rfl
  | icount =>
      simp only [vcpuTbTransCb, List.mem_cons, List.not_mem_nil, or_false] at member
      rcases member with rfl | rfl
      all_goals rfl
  | unknown | stop =>
      simp only [vcpuTbTransCb, List.mem_cons, List.not_mem_nil, or_false] at member
      obtain rfl := member
      rfl

theorem other_told (globals : Globals) (mode : Mode) (other : mode ≠ .detailed)
    (block : BlockRun) (vcpu final : Vcpu) (calls : List Call)
    (done : run (invoke globals) vcpu (block.invocations mode) = .ok (final, calls)) :
    Tells calls [] ∧ final.data.capturing = vcpu.data.capturing := by
  refine plain_run globals _ ?_ vcpu final calls done
  intro invocation member
  have known := invocation_registered mode block invocation member
  obtain ⟨registration, present, same⟩ := List.mem_map.mp known
  have still := registrations_plain mode block.tb other registration present
  rw [same] at still
  cases invocation with
  | exec callback userdata cpu => exact still
  | mem callback userdata cpu access =>
      cases callback with
      | sendDetailed => contradiction
      | _ => rfl

/-! Between blocks. -/

theorem between_told (entry : Timeline.Entry) (happened : Timeline.Between) :
    Tells (Timeline.between entry happened).2 [] := by
  apply tells_nothing
  cases happened with
  | notice notice => cases notice <;> rfl
  | closed =>
      dsimp only [Timeline.between, Timeline.Entry.update, closeFile]
      split <;> rfl
  | idle =>
      dsimp only [Timeline.between, Timeline.Entry.update, vcpuIdleCb]
      split_ifs <;> rfl
  | resume =>
      dsimp only [Timeline.between, Timeline.Entry.update, vcpuResumeCb]
      split <;> rfl
  | interrupt | interruptRet =>
      dsimp only [Timeline.between, Timeline.Entry.update, vcpuInterruptCb, vcpuInterruptRetCb]
      split <;> rfl
  | start _ _ | mode _ | roi _ | magic _ | reset => rfl

theorem settled_told (events : List Timeline.Event) (entry final : Timeline.Entry)
    (calls : List Call) (settled : ∀ event ∈ events, System.settled event = true)
    (done : run Timeline.step entry events = .ok (final, calls)) : Tells calls [] := by
  apply along_relates Timeline.step (fun _ event => System.settled event = true)
    (fun _ calls _ => Tells calls []) (fun _ last => ⟨last, rfl⟩) _ _ entry final events calls
    (along_all Timeline.step _ entry events settled) done
  · exact fun _ _ _ early late first second => first.append second
  · intro entry event next emitted here taken
    cases event with
    | invoke invocation => contradiction
    | between happened =>
        obtain ⟨-, rfl⟩ := Timeline.step_between entry next happened emitted taken
        exact between_told entry happened

/-! Runs of the whole plugin. -/

variable {n : Nat}

/-- What happens to the plugin, with the execution of a block in one piece. -/
inductive Moment (n : Nat) where
  | control (event : Control.Event n)
  | report (reported : Emulation.Report n)
  | block (vcpu : Fin n) (mode : Mode) (ran : BlockRun)

def Moment.events : Moment n → List (System.Event n)
  | .control event => [.control event]
  | .report reported => [reported.event]
  | .block vcpu mode ran => (ran.invocations mode).map (System.Event.invoke vcpu)

def stride : Step (Trace n) (Moment n) (Action n) Fault :=
  fun trace moment => run System.step trace moment.events

structure Executed where
  capturing : Bool
  things : List Resolved

/-- The vcpu's execution along a run, told from the blocks it executes, the region of
interest and the magic address. -/
def note (vcpu : Fin n) (trace : Trace n) (moment : Moment n) (_ : List (Action n))
    (done : Executed) : Executed :=
  match moment with
  | .block owner .detailed ran =>
      if owner = vcpu then
        ⟨captures trace.globals done.capturing ran.executed, done.things ++
          (pages trace.globals ran ++ executed trace.globals done.capturing ran.executed)⟩
      else done
  | .control event => if event.begins trace then { done with capturing := false } else done
  | _ => done

theorem block_timeline (vcpu owner : Fin n) (invocations : List Invocation) (trace next : Trace n)
    (actions : List (Action n))
    (taken : run System.step trace (invocations.map (System.Event.invoke owner)) =
      .ok (next, actions)) :
    run Timeline.step (System.view vcpu trace)
        (if owner = vcpu then invocations.map Timeline.Event.invoke else []) =
      .ok (System.view vcpu next, System.written vcpu actions) := by
  induction invocations generalizing trace actions with
  | nil =>
      cases taken
      split <;> rfl
  | cons invocation rest ih =>
      obtain ⟨middle, early, late, first, tail, rfl⟩ := (run_cons_iff _ _ _ _ _ _).mp taken
      obtain ⟨events, becomes, ran⟩ := System.step_becomes vcpu trace middle _ early first
      have later := ih middle late tail
      rw [show events = _ from becomes] at ran
      unfold System.written
      rw [List.filterMap_append]
      by_cases own : owner = vcpu
      · rw [if_pos own] at ran later ⊢
        rw [run_singleton] at ran
        exact run_cons_ok _ _ _ _ _ _ _ _ ran later
      · rw [if_neg own] at ran later ⊢
        exact run_append_ok _ _ _ _ [] [] _ _ ran later

theorem moment_told (vcpu : Fin n) (trace next : Trace n) (event : System.Event n)
    (actions : List (Action n)) (outside : ∀ invocation, event ≠ .invoke vcpu invocation)
    (taken : System.step trace event = .ok (next, actions)) :
    Tells (System.written vcpu actions) [] ∧ (next.threads vcpu).data.capturing =
      if event.begins trace then false else (trace.threads vcpu).data.capturing := by
  obtain ⟨invocation, same, -⟩ | ⟨going, threadid, writer, ran⟩ | ⟨going, -, events, still, ran⟩ :=
    System.step_cases vcpu trace next event actions taken
  · exact absurd same (outside invocation)
  · rw [going]
    obtain ⟨started, calls⟩ := Timeline.step_between _ _ _ _ ran
    have told := between_told (System.view vcpu trace) (.start threadid writer)
    rw [← calls] at told
    exact ⟨told, congrArg (fun entry => entry.vcpu.data.capturing) started⟩
  · rw [going]
    exact ⟨settled_told events _ _ _ still ran, (Captures.settled_captures events _ _ _ still ran).1⟩

theorem stride_told (vcpu : Fin n) (trace next : Trace n) (moment : Moment n)
    (actions : List (Action n)) (past : Executed)
    (flag : (trace.threads vcpu).data.capturing = past.capturing)
    (taken : stride trace moment = .ok (next, actions)) :
    ∃ things, (note vcpu trace moment actions past).things = past.things ++ things ∧
      Tells (System.written vcpu actions) things ∧
      (next.threads vcpu).data.capturing = (note vcpu trace moment actions past).capturing := by
  cases moment with
  | control event =>
      obtain ⟨told, after⟩ := moment_told vcpu trace next (.control event) actions
        (fun _ same => by cases same) ((run_singleton _ _ _).symm.trans taken)
      refine ⟨[], ?_, told, ?_⟩
      · unfold note
        dsimp only
        split <;> exact (List.append_nil _).symm
      · rw [after, flag]
        unfold note System.Event.begins
        dsimp only
        split <;> rfl
  | report reported =>
      obtain ⟨told, after⟩ := moment_told vcpu trace next reported.event actions
        (fun _ same => by cases reported <;> cases same) ((run_singleton _ _ _).symm.trans taken)
      refine ⟨[], (List.append_nil _).symm, told, ?_⟩
      rw [after, flag]
      cases reported <;> rfl
  | block owner mode ran =>
      have seen := block_timeline vcpu owner _ trace next actions taken
      by_cases own : owner = vcpu
      · obtain rfl := own
        rw [if_pos rfl, Timeline.run_invoke] at seen
        obtain ⟨⟨final, calls⟩, ran_, same⟩ := map_ok _ _ _ seen
        obtain ⟨reached, rfl⟩ := Prod.mk.inj same
        have data : final = next.threads owner := congrArg Timeline.Entry.vcpu reached
        by_cases detailed : mode = .detailed
        · obtain rfl := detailed
          obtain ⟨told, after⟩ := block_told trace.globals ran _ final _ ran_
          rw [show (System.view owner trace).vcpu.data.capturing = _ from flag] at told after
          rw [data] at after
          refine ⟨_, ?_, told, ?_⟩
          · simp only [note, if_pos]
          · simp only [note, if_pos]
            exact after
        · obtain ⟨told, after⟩ := other_told trace.globals mode detailed ran _ final _ ran_
          have kept : note owner trace (.block owner mode ran) actions past = past := by
            cases mode <;> first | rfl | contradiction
          rw [kept, ← data]
          exact ⟨[], (List.append_nil _).symm, told, after.trans flag⟩
      · rw [if_neg own] at seen
        obtain ⟨same, none_⟩ := Prod.mk.inj (Except.ok.inj seen)
        have kept : note vcpu trace (.block owner mode ran) actions past = past := by
          unfold note
          cases mode <;> simp [own]
        have data : next.threads vcpu = trace.threads vcpu :=
          (congrArg Timeline.Entry.vcpu same).symm
        rw [kept, ← none_, data]
        exact ⟨[], (List.append_nil _).symm, fun last => ⟨last, rfl⟩, flag⟩

/-- The stream of any vcpu in any run of the plugin, whatever the modes, the region of
interest, captures, interrupts and the other vcpus do between its blocks: a simulator that
remembers only the last translation places every address it is sent, and what it makes of
the stream is what the vcpu has executed in detailed mode. -/
theorem streams_resolve (vcpu : Fin n) (moments : List (Moment n)) (trace : Trace n)
    (past : Executed) (actions : List (Action n))
    (done : run (watch stride (note vcpu)) (install n, ⟨false, []⟩) moments =
      .ok ((trace, past), actions)) :
    ∃ last, run read none (System.written vcpu actions) = .ok (last, past.things) := by
  have told := run_history_invariant (watch stride (note vcpu))
    (fun watched before => (watched.1.threads vcpu).data.capturing = watched.2.capturing ∧
      ∃ last, run read none (System.written vcpu before) = .ok (last, watched.2.things))
    (fun watched before moment next emitted holds taken => by
      obtain ⟨stepped, noted⟩ := (watch_iff _ _ _ _ _ _).mp taken
      obtain ⟨flag, last, early⟩ := holds
      obtain ⟨things, grown, told, after⟩ :=
        stride_told vcpu watched.1 next.1 moment emitted watched.2 flag stepped
      obtain ⟨further, late⟩ := told last
      rw [noted, grown]
      refine ⟨after, further, ?_⟩
      unfold System.written
      rw [List.filterMap_append]
      exact run_append_ok _ _ _ _ _ _ _ _ early late)
    (install n, ⟨false, []⟩) (trace, past) [] moments actions ⟨rfl, none, rfl⟩ done
  exact told.2

def storedBlock : BlockRun where
  tb :=
    { insns := [⟨0x1000, 0x1004, 0x9000, false⟩, ⟨0x1004, 0x1007, 0x9004, false⟩]
      vaddr := 0x1000
      ramAddr := 0x9000
      haddr := 0x7f9000
      nextPc := 0x1007
      page2 := none
      isBranch := false
      isPause := false
      nonempty := List.cons_ne_nil _ _ }
  cpu := ⟨false, 7⟩
  started := [⟨⟨false, 7⟩, [(⟨false, 7⟩, ⟨0x5000, 0xd000, true⟩)]⟩, ⟨⟨false, 7⟩, []⟩]
  bounded := Nat.le_refl 2

def storedTwice : List (Moment 1) :=
  [.control (.command vcpu₀ ⟨7, none, fun _ => true⟩ (.start (some "d"))),
   .control (.command vcpu₀ ⟨7, none, fun _ => true⟩ (.magic 0x5000)),
   .control (.command vcpu₀ ⟨7, none, fun _ => true⟩ (.mode "detailed")),
   .block vcpu₀ .detailed storedBlock, .report (.interrupt vcpu₀),
   .block vcpu₀ .detailed storedBlock,
   .control (.command vcpu₀ ⟨7, none, fun _ => true⟩ .stop), .control (.deferred 0)]

/-- The first store begins a capture and the second ends it. -/
theorem stored_twice_resolve : ∃ trace actions,
    run (watch stride (note vcpu₀)) (install 1, ⟨false, []⟩) storedTwice =
      .ok ((trace, ⟨false,
        [.page 0x1000 0x9000 0x7f9000 7, .fetch 0x1000 4 0x9000, .access 0x5000 0xd000,
         .page 0x1000 0x9000 0x7f9000 7, .access 0x5000 0xd000, .fetch 0x1004 3 0x9004]⟩),
        actions) ∧
    ∃ last, run read none (System.written vcpu₀ actions) = .ok (last,
      [.page 0x1000 0x9000 0x7f9000 7, .fetch 0x1000 4 0x9000, .access 0x5000 0xd000,
       .page 0x1000 0x9000 0x7f9000 7, .access 0x5000 0xd000, .fetch 0x1004 3 0x9004]) :=
  ⟨_, _, rfl, streams_resolve vcpu₀ storedTwice _ ⟨false,
    [.page 0x1000 0x9000 0x7f9000 7, .fetch 0x1000 4 0x9000, .access 0x5000 0xd000,
     .page 0x1000 0x9000 0x7f9000 7, .access 0x5000 0xd000, .fetch 0x1004 3 0x9004]⟩ _ rfl⟩

end Hypersh.Resolution
