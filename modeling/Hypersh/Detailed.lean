import Mathlib.Data.List.ModifyLast
import Hypersh.Transduction
import Hypersh.Callbacks
import Hypersh.Blocks

/-!
The record stream of blocks instrumented in `ModeDetailed`, read back by a strict
decoder: a memory or branch record with nothing open, a second Begin or anything
after a branch outcome is refused. The branch outcome of a block is written one
block late, while the branch instruction is still the open one.
-/
namespace Hypersh.Detailed
open Callbacks Blocks Transduction

structure Decoded where
  pc : UInt64
  size : UInt64
  accesses : List UInt64
  branch : Option Bool
  deriving DecidableEq, Repr

structure Decoder where
  closed : List Decoded
  current : Option Decoded
  deriving DecidableEq, Repr

def Decoder.all (decoder : Decoder) : List Decoded :=
  decoder.closed ++ decoder.current.toList

def decodeCall (decoder : Decoder) : Call → Option Decoder
  | .instructionBegin pc size _ _ =>
      match decoder.current with
      | some _ => none
      | none => some { decoder with current := some ⟨pc, size, [], none⟩ }
  | .instructionMem vaddr =>
      match decoder.current with
      | some ⟨pc, size, accesses, none⟩ =>
          some { decoder with current := some ⟨pc, size, accesses ++ [vaddr], none⟩ }
      | _ => none
  | .instructionBranch taken =>
      match decoder.current with
      | some ⟨pc, size, accesses, none⟩ =>
          some { decoder with current := some ⟨pc, size, accesses, some taken⟩ }
      | _ => none
  | .instructionEnd => some ⟨decoder.all, none⟩
  | _ => some decoder

def decodeFrom : Decoder → List Call → Option Decoder
  | decoder, [] => some decoder
  | decoder, call :: rest => (decodeCall decoder call).bind fun next => decodeFrom next rest

/-- An instruction still open at the end of the stream counts as decoded. -/
def decode (calls : List Call) : Option (List Decoded) :=
  (decodeFrom ⟨[], none⟩ calls).map Decoder.all

theorem decode_call_branch (closed : List Decoded) (pc size : UInt64) (accesses : List UInt64)
    (taken : Bool) :
    decodeCall ⟨closed, some ⟨pc, size, accesses, none⟩⟩ (.instructionBranch taken) =
      some ⟨closed, some ⟨pc, size, accesses, some taken⟩⟩ := rfl

theorem decode_call_resume (decoder : Decoder) : decodeCall decoder .vcpuResume = some decoder :=
  rfl

theorem decode_call_translate (decoder : Decoder) (vaddr paddr : UInt64) :
    decodeCall decoder (.translate vaddr paddr) = some decoder := rfl

theorem decode_call_icache (decoder : Decoder) (vaddr haddr pgd : UInt64) :
    decodeCall decoder (.sendICache vaddr haddr pgd) = some decoder := rfl

theorem decode_append (decoder : Decoder) (front back : List Call) :
    decodeFrom decoder (front ++ back) =
      (decodeFrom decoder front).bind fun next => decodeFrom next back := by
  induction front generalizing decoder with
  | nil => rfl
  | cons call rest ih =>
      cases first : decodeCall decoder call with
      | none => simp [decodeFrom, first]
      | some next => simpa [decodeFrom, first] using ih next

theorem decode_append_some (decoder middle final : Decoder) (front back : List Call)
    (first : decodeFrom decoder front = some middle)
    (second : decodeFrom middle back = some final) :
    decodeFrom decoder (front ++ back) = some final := by
  rw [decode_append, first]
  exact second

/-! The reference: what was started, and where each branch went. -/

def decodedInsn (entry : Insn × Started) : Decoded :=
  ⟨entry.1.vaddr, entry.1.next - entry.1.vaddr, entry.2.accesses.map fun access => access.2.vaddr,
    none⟩

def outcome (block : BlockRun) (next : Option BlockRun) : Option Bool :=
  if block.branched then next.map fun later => later.tb.vaddr != block.tb.nextPc else none

def setBranch (taken : Option Bool) (insns : List Decoded) : List Decoded :=
  match taken with
  | none => insns
  | some taken => insns.modifyLast fun insn => { insn with branch := some taken }

def reference : List BlockRun → List Decoded
  | [] => []
  | block :: rest =>
      setBranch (outcome block rest.head?) (block.executed.map decodedInsn) ++ reference rest

def openInsn (decoder : Decoder) (insn : Decoded) : Decoder := ⟨decoder.all, some insn⟩

theorem open_insns_all (insns : List Decoded) (decoder : Decoder) :
    (insns.foldl openInsn decoder).all = decoder.all ++ insns := by
  induction insns generalizing decoder with
  | nil => simp
  | cons insn rest ih =>
      rw [List.foldl_cons, ih]
      simp [openInsn, Decoder.all]

/-- The outcome written into the open instruction is the outcome of the last one
begun. -/
theorem open_insns_branch (insns : List Decoded) (decoder : Decoder) (taken : Bool)
    (some_ : insns ≠ []) :
    (insns.foldl openInsn decoder).closed ++
        setBranch (some taken) (insns.foldl openInsn decoder).current.toList =
      decoder.all ++ setBranch (some taken) insns := by
  rcases List.eq_nil_or_concat insns with rfl | ⟨early, last, rfl⟩
  · contradiction
  · rw [List.concat_eq_append, List.foldl_append]
    have single := List.modifyLast_concat
      (fun insn : Decoded => { insn with branch := some taken }) last []
    simpa [openInsn, setBranch, open_insns_all, List.modifyLast_concat] using single

/-! One started instruction. -/

/-- The accesses stay out of capture and inside the region. -/
def Observed (globals : Globals) (block : BlockRun) : Prop :=
  inRoi globals block.cpu = true ∧
  ∀ started ∈ block.started, inRoi globals started.cpu = true ∧
    ∀ access ∈ started.accesses, inRoi globals access.1 = true ∧
      ¬ (access.2.vaddr = globals.magic ∧ access.2.isStore = true)

/-- What a piece of the run does to the decoder, with the fields later pieces
depend on. -/
structure Piece (before : Decoder) (entry : ThreadData) (calls : List Call)
    (after : Decoder) (exit_ : ThreadData) : Prop where
  decoded : decodeFrom before calls = some after
  capturing : exit_.capturing = entry.capturing
  address : exit_.brAddr = entry.brAddr
  fallthrough : exit_.brFallthrough = entry.brFallthrough

theorem Piece.append {first second third : Decoder} {entry middle exit_ : ThreadData}
    {early late : List Call} (front : Piece first entry early second middle)
    (back : Piece second middle late third exit_) :
    Piece first entry (early ++ late) third exit_ where
  decoded := decode_append_some _ _ _ _ _ front.decoded back.decoded
  capturing := back.capturing.trans front.capturing
  address := back.address.trans front.address
  fallthrough := back.fallthrough.trans front.fallthrough

theorem mem_send_detailed_piece (globals : Globals) (cpu : Cpu) (access : Access)
    (thread : ThreadData) (closed : List Decoded) (insn : Decoded)
    (ordinary : ¬ (access.vaddr = globals.magic ∧ access.isStore = true))
    (early : insn.branch = none) :
    Piece ⟨closed, some insn⟩ thread (memSendDetailed globals cpu access thread).2
      ⟨closed, some { insn with accesses := insn.accesses ++ [access.vaddr] }⟩
      (memSendDetailed globals cpu access thread).1 := by
  -- An ordinary access never reaches the capturing branch.
  have plain : (inRoi globals cpu && access.vaddr == globals.magic && access.isStore) = false := by
    cases store : access.isStore
    · exact Bool.and_false _
    · have other : (access.vaddr == globals.magic) = false :=
        beq_eq_false_iff_ne.mpr fun same => ordinary ⟨same, store⟩
      rw [other, Bool.and_false, Bool.false_and]
  have sent : (memSendDetailed globals cpu access thread) =
      (countAccess globals cpu access thread,
        [.translate access.vaddr access.paddr, .instructionMem access.vaddr]) := by
    simp [memSendDetailed, plain]
  rw [sent]
  constructor
  · cases insn
    subst early
    rfl
  all_goals
    dsimp only [countAccess]
    split_ifs <;> rfl

theorem accesses_piece (globals : Globals) (accesses : List (Cpu × Access)) (vcpu : Vcpu)
    (closed : List Decoded) (insn : Decoded) (early : insn.branch = none)
    (ordinary : ∀ access ∈ accesses,
      ¬ (access.2.vaddr = globals.magic ∧ access.2.isStore = true)) :
    ∃ next calls, run (invoke globals) vcpu
        (accesses.flatMap (accessInvocations [(.sendDetailed, 0)])) = .ok (next, calls) ∧
      Piece ⟨closed, some insn⟩ vcpu.data calls
        ⟨closed, some { insn with
          accesses := insn.accesses ++ accesses.map fun access => access.2.vaddr }⟩ next.data := by
  induction accesses generalizing vcpu insn with
  | nil => exact ⟨vcpu, [], rfl, by simp [decodeFrom], rfl, rfl, rfl⟩
  | cons access rest ih =>
      have head := mem_send_detailed_piece globals access.1 access.2 vcpu.data closed insn
        (ordinary access List.mem_cons_self) early
      rcases ih ⟨(memSendDetailed globals access.1 access.2 vcpu.data).1, vcpu.blockCnt⟩
        { insn with accesses := insn.accesses ++ [access.2.vaddr] } early
        (fun other member => ordinary other (List.mem_cons_of_mem access member)) with
        ⟨final, late, tail, piece⟩
      refine ⟨final, (memSendDetailed globals access.1 access.2 vcpu.data).2 ++ late, ?_, ?_⟩
      · rw [List.flatMap_cons]
        apply run_append_ok _ _ _ _ _ _ _ _ _ tail
        simp [run, accessInvocations, invoke, effect, memEffect, countBlock, Except.map]
      · simpa using head.append piece

theorem update_pc_piece (globals : Globals) (cpu : Cpu) (vaddr : UInt64) (thread : ThreadData)
    (decoder : Decoder) :
    Piece decoder thread (insnExecUpdatePc globals cpu vaddr thread).2 ⟨decoder.all, none⟩
        (insnExecUpdatePc globals cpu vaddr thread).1 ∧
      (insnExecUpdatePc globals cpu vaddr thread).1.pc = vaddr := by
  refine ⟨⟨?_, ?_, ?_, ?_⟩, ?_⟩
  all_goals
    dsimp only [insnExecUpdatePc, syncDetailed, countDetailed]
    split_ifs <;> rfl

theorem pause_piece (thread : ThreadData) (decoder : Decoder) :
    Piece decoder thread (insnExecPause thread).2 decoder (insnExecPause thread).1 := by
  unfold insnExecPause
  split <;> exact ⟨rfl, rfl, rfl, rfl⟩

theorem cmpxchg_piece (thread : ThreadData) (decoder : Decoder) :
    Piece decoder thread (insnExecCmpxchg thread).2 decoder (insnExecCmpxchg thread).1 := by
  unfold insnExecCmpxchg
  split <;> exact ⟨rfl, rfl, rfl, rfl⟩

theorem begin_piece (globals : Globals) (insn : Insn) (cpu : Cpu) (vcpu : Vcpu)
    (decoder : Decoder) (inside : inRoi globals cpu = true)
    (plain : vcpu.data.capturing = false) :
    ∃ next calls, run (invoke globals) vcpu (execInvocations
        [(.updatePc, insn.vaddr), (.insnItlb, insn.ramAddr), (.pcNext, insn.next)] cpu) =
          .ok (next, calls) ∧
      Piece decoder vcpu.data calls
        (openInsn decoder ⟨insn.vaddr, insn.next - insn.vaddr, [], none⟩) next.data := by
  rcases update_pc_piece globals cpu insn.vaddr vcpu.data decoder with ⟨piece, here⟩
  let updated := (insnExecUpdatePc globals cpu insn.vaddr vcpu.data).1
  have free : updated.capturing = false := piece.capturing.trans plain
  refine ⟨⟨updated, vcpu.blockCnt⟩, (insnExecUpdatePc globals cpu insn.vaddr vcpu.data).2 ++
    [.translate insn.vaddr insn.ramAddr,
     .instructionBegin insn.vaddr (insn.next - insn.vaddr) false true], ?_, ?_⟩
  · simp [run, execInvocations, invoke, effect, execEffect, countBlock, insnExecItlb,
      insnExecPcNext, Except.map, inside, free, here, updated]
  · exact piece.append ⟨rfl, rfl, rfl, rfl⟩

theorem optional_piece (globals : Globals) (callback : ExecCallback) (cpu : Cpu) (vcpu : Vcpu)
    (decoder : Decoder) (condition : Prop) [Decidable condition] (result : Effect)
    (done : execEffect globals cpu 0 vcpu.data callback = .ok result)
    (blocks : countBlock globals vcpu.blockCnt (.exec callback 0 cpu) = vcpu.blockCnt)
    (piece : Piece decoder vcpu.data result.2 decoder result.1) :
    ∃ next calls, run (invoke globals) vcpu (execInvocations
        (if condition then [(callback, 0)] else []) cpu) = .ok (next, calls) ∧
      Piece decoder vcpu.data calls decoder next.data := by
  by_cases holds : condition
  · refine ⟨⟨result.1, vcpu.blockCnt⟩, result.2, ?_, piece⟩
    simp [holds, run, execInvocations, invoke, effect, done, blocks, Except.map]
  · exact ⟨vcpu, [], by rw [if_neg holds]; rfl, rfl, rfl, rfl, rfl⟩

theorem exec_invocations_append (front back : List (ExecCallback × UInt64)) (cpu : Cpu) :
    execInvocations (front ++ back) cpu = execInvocations front cpu ++ execInvocations back cpu :=
  List.map_append

theorem insn_opened (globals : Globals) (tb : Tb) (index : Nat) (insn : Insn)
    (started : Started) (vcpu : Vcpu) (decoder : Decoder) (fetched : tb.insns[index]? = some insn)
    (inside : inRoi globals started.cpu = true) (plain : vcpu.data.capturing = false)
    (ordinary : ∀ access ∈ started.accesses,
      ¬ (access.2.vaddr = globals.magic ∧ access.2.isStore = true)) :
    ∃ next calls, run (invoke globals) vcpu (insnInvocations .detailed tb index started) =
        .ok (next, calls) ∧
      decodeFrom decoder calls = some (openInsn decoder (decodedInsn (insn, started))) ∧
      next.data.capturing = false ∧
      next.data.brAddr =
        (if tb.isBranch ∧ tb.lastIndex = index then tb.lastInsn.vaddr else vcpu.data.brAddr) ∧
      next.data.brFallthrough = vcpu.data.brFallthrough := by
  rcases begin_piece globals insn started.cpu vcpu decoder inside plain with
    ⟨begun, calls₁, run₁, piece₁⟩
  rcases optional_piece globals .cmpxchg started.cpu begun _ (insn.isCmpxchg = true) _ rfl rfl
    (cmpxchg_piece begun.data _) with ⟨exchanged, calls₂, run₂, piece₂⟩
  rcases optional_piece globals .pause started.cpu exchanged _
    (tb.isPause = true ∧ tb.lastIndex = index) _ rfl rfl (pause_piece exchanged.data _) with
    ⟨paused, calls₃, run₃, piece₃⟩
  -- Neither optional Sync closes the instruction just begun.
  have before := (piece₁.append piece₂).append piece₃
  let branched : Vcpu := ⟨{ paused.data with brAddr :=
    if tb.isBranch ∧ tb.lastIndex = index then tb.lastInsn.vaddr else paused.data.brAddr },
    paused.blockCnt⟩
  have run₄ : run (invoke globals) paused (execInvocations
      (if tb.isBranch ∧ tb.lastIndex = index then [(.branch, tb.lastInsn.vaddr)] else [])
      started.cpu) = .ok (branched, []) := by
    by_cases last : tb.isBranch = true ∧ tb.lastIndex = index
    · rw [if_pos last]
      simp [branched, last, run, execInvocations, invoke, effect, execEffect, insnExecBranch,
        countBlock, Except.map]
    · rw [if_neg last]
      simp [branched, last, run, execInvocations]
  rcases accesses_piece globals started.accesses branched decoder.all
    ⟨insn.vaddr, insn.next - insn.vaddr, [], none⟩ rfl ordinary with ⟨final, calls₅, run₅, piece₅⟩
  refine ⟨final, calls₁ ++ calls₂ ++ calls₃ ++ [] ++ calls₅, ?_, ?_, ?_, ?_, ?_⟩
  · rw [insnInvocations, insn_hooks_detailed tb index insn fetched,
      mem_hooks_detailed tb index insn fetched]
    simp only [exec_invocations_append]
    exact run_append_ok _ _ _ _ _ _ _ _ (run_append_ok _ _ _ _ _ _ _ _ (run_append_ok _ _ _ _ _ _
      _ _ (run_append_ok _ _ _ _ _ _ _ _ run₁ run₂) run₃) run₄) run₅
  · rw [List.append_nil]
    exact decode_append_some _ _ _ _ _ before.decoded piece₅.decoded
  · exact piece₅.capturing.trans (before.capturing.trans plain)
  · rw [piece₅.address, ← before.address]
  · exact piece₅.fallthrough.trans before.fallthrough

/-! Block entry. -/

def Decoder.settle (decoder : Decoder) (taken : Bool) : Decoder :=
  ⟨decoder.closed, decoder.current.map fun insn => { insn with branch := some taken }⟩

theorem branch_detailed_decoded (globals : Globals) (cpu : Cpu) (thread : ThreadData)
    (decoder : Decoder) (insn : Decoded) (waiting : thread.brAddr ≠ 0)
    (fallthrough : thread.brFallthrough ≠ 0) (inside : inRoi globals cpu = true)
    (opened : decoder.current = some insn) (early : insn.branch = none) :
    ∃ next calls, tbExecBranchDetailed globals cpu thread = .ok (next, calls) ∧
      decodeFrom decoder calls =
        some (decoder.settle (thread.brTarget != thread.brFallthrough)) ∧
      next.capturing = thread.capturing ∧ next.brAddr = 0 := by
  rw [tbExecBranchDetailed, if_neg waiting, if_neg fallthrough]
  refine ⟨clearBranch (crossRoi globals cpu thread).1, (crossRoi globals cpu thread).2 ++
    [.instructionBranch (thread.brTarget != thread.brFallthrough)], rfl, ?_, ?_, rfl⟩
  · cases decoder
    cases insn
    subst opened early
    cases idle : thread.idle <;>
      simp [crossRoi, inside, idle, decodeFrom, decode_call_branch, decode_call_resume,
        Decoder.settle]
  · cases idle : thread.idle <;> simp [crossRoi, inside, idle, clearBranch]

/-- Everything after the branch sender at block entry: translations, the code
line and, for a block that ends in a branch, its own fall-through. -/
theorem entry_rest (globals : Globals) (block : BlockRun) (vcpu : Vcpu) (decoder : Decoder) :
    ∃ next calls, run (invoke globals) vcpu (execInvocations
        ([(.tbItlb, block.tb.ramAddr), (.sendIcache, block.tb.haddr)] ++ page2Hooks block.tb ++
          if block.tb.isBranch then [(.updateFallthrough, block.tb.nextPc)] else [])
        block.cpu) = .ok (next, calls) ∧
      decodeFrom decoder calls = some decoder ∧
      next.data.capturing = vcpu.data.capturing ∧ next.data.brAddr = vcpu.data.brAddr ∧
      (block.tb.isBranch = true → next.data.brFallthrough = block.tb.nextPc) := by
  rcases page : block.tb.page2 with _ | second <;> cases branch : block.tb.isBranch <;>
    cases inside : inRoi globals block.cpu <;>
    simp [page2Hooks, page, run, execInvocations, invoke, effect, execEffect, countBlock,
      Except.map, tbExecItlb, tbExecItlb2, tbExecSendIcache, tbExecSendIcache2, tbExecVaddr2,
      tbExecUpdateFallthrough, inside, decodeFrom, decode_call_translate, decode_call_icache]

def verdict (previous next : Option BlockRun) : Option Bool :=
  previous.bind fun before => outcome before next

/-- The open instruction is free for the outcome the entered block will write. -/
def Free (previous : Option BlockRun) (decoder : Decoder) : Prop :=
  ∀ before, previous = some before → before.branched = true →
    ∃ insn, decoder.current = some insn ∧ insn.branch = none

theorem branch_entry_decoded (globals : Globals) (previous : Option BlockRun) (block : BlockRun)
    (thread : ThreadData) (decoder : Decoder)
    (nonzero : ∀ before, previous = some before → before.tb.Nonzero)
    (inside : inRoi globals block.cpu = true) (awaiting : Awaiting previous thread)
    (target : thread.brTarget = block.tb.vaddr) (free : Free previous decoder) :
    ∃ next calls, tbExecBranchDetailed globals block.cpu thread = .ok (next, calls) ∧
      (∃ settled, decodeFrom decoder calls = some settled ∧ settled.closed = decoder.closed ∧
        settled.current.toList = setBranch (verdict previous (some block)) decoder.current.toList) ∧
      next.capturing = thread.capturing ∧ next.brAddr = 0 := by
  by_cases branched : ∃ before, previous = some before ∧ before.branched = true
  · rcases branched with ⟨before, rfl, branched⟩
    have isBranch : before.tb.isBranch = true := (Bool.and_eq_true_iff.mp branched).1
    have known := nonzero before rfl isBranch
    have address : thread.brAddr = before.tb.lastInsn.vaddr := by
      simpa [Option.filter, branched] using awaiting.address
    have fallthrough := awaiting.fallthrough before rfl branched
    rcases free before rfl branched with ⟨insn, opened, early⟩
    rcases branch_detailed_decoded globals block.cpu thread decoder insn (address ▸ known.1)
      (fallthrough ▸ known.2) inside opened early with ⟨next, calls, sent, decoded, kept, clear⟩
    refine ⟨next, calls, sent, ⟨_, decoded, rfl, ?_⟩, kept, clear⟩
    simp only [Decoder.settle, opened, setBranch, verdict, outcome, branched, target, fallthrough,
      Option.map_some, Option.toList_some, Option.bind_some, ↓reduceIte]
    exact (List.modifyLast_concat (fun insn : Decoded => { insn with
      branch := some (block.tb.vaddr != before.tb.nextPc) }) insn []).symm
  -- No branch is pending: the sender returns at once and nothing is owed.
  · have clear : thread.brAddr = 0 := by
      rw [awaiting.address]
      cases previous with
      | none => rfl
      | some before =>
          have other : before.branched = false := by simpa using branched
          simp [Option.filter, other]
    have nothing : verdict previous (some block) = none := by
      cases previous with
      | none => rfl
      | some before =>
          have other : before.branched = false := by simpa using branched
          simp [verdict, outcome, other]
    refine ⟨thread, [], ?_, ⟨decoder, rfl, rfl, ?_⟩, rfl, clear⟩
    · rw [tbExecBranchDetailed, if_pos clear]
    · rw [nothing]
      rfl

theorem entry_decoded (globals : Globals) (previous : Option BlockRun) (block : BlockRun)
    (vcpu : Vcpu) (decoder : Decoder)
    (nonzero : ∀ before, previous = some before → before.tb.Nonzero)
    (inside : inRoi globals block.cpu = true) (awaiting : Awaiting previous vcpu.data)
    (free : Free previous decoder) :
    ∃ next calls, run (invoke globals) vcpu (block.entry .detailed) = .ok (next, calls) ∧
      (∃ settled, decodeFrom decoder calls = some settled ∧ settled.closed = decoder.closed ∧
        settled.current.toList = setBranch (verdict previous (some block)) decoder.current.toList) ∧
      next.data.capturing = vcpu.data.capturing ∧ next.data.brAddr = 0 ∧
      (block.tb.isBranch = true → next.data.brFallthrough = block.tb.nextPc) := by
  let targeted := (tbExecUpdateTarget block.tb.vaddr vcpu.data).1
  have waiting : Awaiting previous targeted := ⟨awaiting.address, awaiting.fallthrough⟩
  rcases branch_entry_decoded globals previous block targeted decoder nonzero inside waiting rfl
    free with ⟨sent, early, taken, ⟨settled, decoded, same, current⟩, kept, clear⟩
  let middle : Vcpu := ⟨sent, tbExecHotBlocks globals block.cpu block.tb.vaddr vcpu.blockCnt⟩
  rcases entry_rest globals block middle settled with
    ⟨final, late, rest, quiet, kept', address, fallthrough⟩
  refine ⟨final, early ++ late, ?_,
    ⟨settled, decode_append_some _ _ _ _ _ decoded quiet, same, current⟩,
    kept'.trans kept, address.trans clear, fallthrough⟩
  -- The sender runs before the block's own fall-through is stored.
  have front : run (invoke globals) vcpu (execInvocations
      [(.hotBlocks, block.tb.vaddr), (.updateTarget, block.tb.vaddr), (.branchDetailed, 0)]
      block.cpu) = .ok (middle, early) := by
    have quiet' : (tbExecUpdateTarget block.tb.vaddr vcpu.data).2 = [] := rfl
    simp [run, execInvocations, invoke, effect, execEffect, countBlock, Except.map, targeted,
      quiet', taken, middle]
  rw [BlockRun.entry, entry_hooks_detailed]
  have joined := run_append_ok _ _ _ _ _ _ _ _ front rest
  rwa [← exec_invocations_append] at joined

theorem body_decoded (globals : Globals) (block : BlockRun) (vcpu : Vcpu) (decoder : Decoder)
    (observed : Observed globals block) (plain : vcpu.data.capturing = false)
    (clear : vcpu.data.brAddr = 0)
    (fallthrough : block.tb.isBranch = true → vcpu.data.brFallthrough = block.tb.nextPc) :
    ∃ final calls, run (invoke globals) vcpu (block.body .detailed) = .ok (final, calls) ∧
      decodeFrom decoder calls = some ((block.executed.map decodedInsn).foldl openInsn decoder) ∧
      final.data.capturing = false ∧ Awaiting (some block) final.data := by
  rcases body_rule globals .detailed block
    (fun index current calls =>
      decodeFrom decoder calls =
        some (((block.executed.take index).map decodedInsn).foldl openInsn decoder) ∧
      current.data.capturing = false ∧ current.data.brAddr = branchAt block.tb index ∧
      current.data.brFallthrough = vcpu.data.brFallthrough)
    (by
      rintro index insn started current calls fetched begun ⟨decoded, free, address, kept⟩
      have here := observed.2 started (List.mem_of_getElem? begun)
      rcases insn_opened globals block.tb index insn started current _ fetched here.1 free
        (fun access member => (here.2 access member).2) with
        ⟨next, later, taken, opened, free', branch, same⟩
      refine ⟨next, later, taken, ?_, free', ?_, same.trans kept⟩
      · rw [executed_take_succ block index insn started fetched begun, List.map_append,
          List.foldl_append]
        exact decode_append_some _ _ _ _ _ decoded opened
      · rw [branch, address, branch_at_succ block.tb index insn fetched])
    vcpu [] ⟨rfl, plain, by simpa [branchAt] using clear, rfl⟩ with
    ⟨final, calls, done, decoded, free, address, kept⟩
  refine ⟨final, calls, done, by simpa only [executed_take_all, List.nil_append] using decoded,
    free, ?_, ?_⟩
  · rw [address, branch_at_end]
  · rintro _ ⟨⟩ branched
    rw [kept]
    exact fallthrough (Bool.and_eq_true_iff.mp branched).1

/-- A started branch instruction is the open one at the end of its block. -/
theorem body_free (block : BlockRun) (decoder : Decoder) :
    Free (some block) ((block.executed.map decodedInsn).foldl openInsn decoder) := by
  rintro _ ⟨⟩ branched
  have whole : block.started.length = block.tb.insns.length :=
    eq_of_beq (Bool.and_eq_true_iff.mp branched).2
  have some_ : block.executed ≠ [] := by
    apply List.ne_nil_of_length_pos
    rw [BlockRun.executed, List.length_zip, whole, Nat.min_self]
    exact List.length_pos_iff.mpr block.tb.nonempty
  rcases List.eq_nil_or_concat block.executed with none_ | ⟨early, last, split_⟩
  · contradiction
  · rw [split_, List.concat_eq_append, List.map_append, List.foldl_append]
    exact ⟨decodedInsn last, rfl, rfl⟩

theorem body_all (block : BlockRun) (decoder : Decoder) (next : Option BlockRun) :
    ((block.executed.map decodedInsn).foldl openInsn decoder).closed ++
        setBranch (outcome block next)
          ((block.executed.map decodedInsn).foldl openInsn decoder).current.toList =
      decoder.all ++ setBranch (outcome block next) (block.executed.map decodedInsn) := by
  cases written : outcome block next with
  | none => exact open_insns_all _ decoder
  | some taken =>
      apply open_insns_branch
      intro empty
      have branched : block.branched = true := by
        by_contra other
        simp [outcome, other] at written
      rcases body_free block ⟨[], none⟩ block rfl branched with ⟨insn, opened, -⟩
      rw [empty] at opened
      contradiction

theorem blocks_decoded (globals : Globals) (previous : Option BlockRun) (blocks : List BlockRun)
    (vcpu : Vcpu) (decoder : Decoder)
    (nonzeroBefore : ∀ before, previous = some before → before.tb.Nonzero)
    (nonzero : ∀ block ∈ blocks, block.tb.Nonzero)
    (observed : ∀ block ∈ blocks, Observed globals block)
    (plain : vcpu.data.capturing = false) (awaiting : Awaiting previous vcpu.data)
    (free : Free previous decoder) :
    ∃ final calls, run (invoke globals) vcpu
        (blocks.flatMap (BlockRun.invocations .detailed)) = .ok (final, calls) ∧
      ∃ last, decodeFrom decoder calls = some last ∧
        last.all = decoder.closed ++ setBranch (verdict previous blocks.head?)
          decoder.current.toList ++ reference blocks := by
  induction blocks generalizing previous vcpu decoder with
  | nil =>
      have nothing : verdict previous none = none := by
        cases previous with
        | none => rfl
        | some before => exact ite_self none
      exact ⟨vcpu, [], rfl, decoder, rfl, by simp [nothing, setBranch, reference, Decoder.all]⟩
  | cons block rest ih =>
      have here := observed block List.mem_cons_self
      have nonzero' := nonzero block List.mem_cons_self
      -- Entering the block settles the instruction the block before left open.
      rcases entry_decoded globals previous block vcpu decoder nonzeroBefore here.1 awaiting free
        with ⟨entered, calls₁, run₁, ⟨settled, decoded₁, same, current⟩, kept, clear, target⟩
      rcases body_decoded globals block entered settled here (kept.trans plain) clear target with
        ⟨ended, calls₂, run₂, decoded₂, plain', awaiting'⟩
      rcases ih (some block) ended _ (by rintro _ ⟨⟩; exact nonzero')
        (fun later member => nonzero later (List.mem_cons_of_mem block member))
        (fun later member => observed later (List.mem_cons_of_mem block member)) plain' awaiting'
        (body_free block settled) with ⟨final, calls₃, run₃, last, decoded₃, whole⟩
      refine ⟨final, calls₁ ++ calls₂ ++ calls₃, ?_, last, ?_, ?_⟩
      · rw [List.flatMap_cons]
        exact run_append_ok _ _ _ _ _ _ _ _ (run_append_ok _ _ _ _ _ _ _ _ run₁ run₂) run₃
      · exact decode_append_some _ _ _ _ _ (decode_append_some _ _ _ _ _ decoded₁ decoded₂) decoded₃
      · rw [whole, show verdict (some block) rest.head? = outcome block rest.head? from rfl,
          body_all, Decoder.all, same, current, reference]
        simp only [List.head?_cons, List.append_assoc]

/-- The stream of blocks run inside the region decodes to the started
instructions, each with its accesses and, for a branch followed by another
block, its outcome. -/
theorem detailed_stream_decodes (globals : Globals) (vcpu : Vcpu) (blocks : List BlockRun)
    (noBranch : vcpu.data.brAddr = 0) (plain : vcpu.data.capturing = false)
    (nonzero : ∀ block ∈ blocks, block.tb.Nonzero)
    (observed : ∀ block ∈ blocks, Observed globals block) :
    ∃ final calls, run (invoke globals) vcpu
        (blocks.flatMap (BlockRun.invocations .detailed)) = .ok (final, calls) ∧
      decode calls = some (reference blocks) := by
  rcases blocks_decoded globals none blocks vcpu ⟨[], none⟩ (fun _ absent => nomatch absent)
    nonzero observed plain (awaiting_none vcpu.data noBranch) (fun _ absent => nomatch absent) with
    ⟨final, calls, done, last, decoded, whole⟩
  refine ⟨final, calls, done, ?_⟩
  rw [decode, decoded, Option.map_some, whole]
  rfl

def fellThrough : List BlockRun :=
  [jumpBlock 0x1000 0x9000 [⟨0x5000, 0xd000, true⟩], jumpBlock 0x1002 0x9002 []]

theorem fell_through_decodes :
    ∃ final calls, run (invoke ⟨.detailed, 0, 0xffff⟩) ⟨installed, []⟩
        (fellThrough.flatMap (BlockRun.invocations .detailed)) = .ok (final, calls) ∧
      decode calls = some (reference fellThrough) := by
  apply detailed_stream_decodes ⟨.detailed, 0, 0xffff⟩ ⟨installed, []⟩ fellThrough rfl rfl
  · intro block member
    simp only [fellThrough, List.mem_cons, List.not_mem_nil, or_false] at member
    rcases member with rfl | rfl
    · exact fun _ => ⟨by decide, by decide⟩
    · exact fun _ => ⟨by decide, by decide⟩
  · intro block member
    simp only [fellThrough, List.mem_cons, List.not_mem_nil, or_false] at member
    rcases member with rfl | rfl
    · exact ⟨by decide, by decide⟩
    · exact ⟨by decide, by decide⟩

example : reference fellThrough =
    [⟨0x1000, 2, [0x5000], some false⟩, ⟨0x1002, 2, [], none⟩] := by decide

end Hypersh.Detailed
