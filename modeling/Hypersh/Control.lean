import Mathlib.Data.List.FinRange
import Hypersh.Transduction
import Hypersh.Callbacks
import Hypersh.Blocks
import Hypersh.Ranking

/-!
The state of the trace plugin and the recorder commands of host/trace/control.cc.
`qemu_plugin_vcpu_tb_flush` and `qemu_plugin_reset` queue a callback that runs
some time later; everything else takes effect while the command runs. Loops over
the vcpus touch one entry per pass and are written entry by entry.
-/
namespace Hypersh.Control
open Callbacks Blocks Transduction

inductive Request where
  | fastforward
  | cacheonly
  | detailed
  deriving DecidableEq, Repr

def Request.mode : Request → Mode
  | .fastforward => .icount
  | .cacheonly => .memory
  | .detailed => .detailed

def Request.name : Request → String
  | .fastforward => "fastforward"
  | .cacheonly => "cacheonly"
  | .detailed => "detailed"

def Request.simOpt : Request → SimOpt
  | .fastforward => .instrumentFastforward
  | .cacheonly => .instrumentWarmup
  | .detailed => .instrumentDetailed

def Request.slomoRate : Request → UInt64
  | .fastforward => 1
  | .cacheonly => 1
  | .detailed => 100000

def requestOf (modeStr : String) : Option Request :=
  if modeStr = "fastforward" then some .fastforward
  else if modeStr = "cacheonly" then some .cacheonly
  else if modeStr = "detailed" then some .detailed
  else none

theorem request_of_name (request : Request) : requestOf request.name = some request := by
  cases request <;> decide

inductive Deferred (n : Nat) where
  | modeSwitch (request : Request) (cpuIndex : Fin n)
  | reset (cpuIndex : Fin n)
  | stop
  deriving DecidableEq, Repr

/-- `threads` is `thread_data` with `block_cnt`; writers are numbered in the order
`new` makes them. -/
structure Trace (n : Nat) where
  globals : Globals
  recording : Bool
  threads : Fin n → Vcpu
  traceFiles : List String
  pending : List (Deferred n)
  nextWriter : Nat

/-- What the plugin does. `hotBlocks` is the loop over `sort_map` of a map: it prints
some `Table` of it. -/
inductive Action (n : Nat) where
  | call (vcpu : Fin n) (writer : Nat) (call : Call)
  | newWriter (vcpu : Fin n) (writer : Nat) (filename response : String)
  | deleteWriter (vcpu : Fin n) (writer : Nat)
  | mkfifo (path : String)
  | unlink (path : String)
  | info (text : String)
  | error (text : String)
  | vcpuInfo (vcpu : Fin n) (text : String)
  | vcpuError (vcpu : Fin n) (text : String)
  | hotBlocks (vcpu : Fin n) (blocks : BlockCount)
  | setSlomoRate (rate : UInt64)
  | registerCallbacks
  | tbFlush
  deriving DecidableEq, Repr

/-- What the world answers while a command runs: the issuing vcpu's page directory,
`mkdtemp` and `IsOpen` of each vcpu's writer. -/
structure Answers (n : Nat) where
  pageDirectory : UInt64
  tempDir : Option String
  isOpen : Fin n → Bool

inductive Command where
  | start (dir : Option String)
  | mode (modeStr : String)
  | stop
  | reset
  | gmm (cmdStr : String) (segment argument : UInt64)
  | magic (address : UInt64)
  deriving DecidableEq, Repr

abbrev Outcome (n : Nat) := Except Fault (Trace n × List (Action n))

variable {n : Nat}

def Trace.output (trace : Trace n) (vcpu : Fin n) : Option Nat := (trace.threads vcpu).data.output

def Trace.setMode (trace : Trace n) (mode : Mode) : Trace n :=
  { trace with globals := { trace.globals with currentMode := mode } }

def Trace.setRoi (trace : Trace n) (pageDirectory : UInt64) : Trace n :=
  { trace with globals := { trace.globals with roiCr3 := pageDirectory } }

def Trace.setMagic (trace : Trace n) (address : UInt64) : Trace n :=
  { trace with globals := { trace.globals with magic := address } }

def Trace.defer (trace : Trace n) (callback : Deferred n) : Trace n :=
  { trace with pending := trace.pending ++ [callback] }

def Trace.beginRecording (trace : Trace n) (files : List String) : Trace n :=
  { trace with recording := true, traceFiles := trace.traceFiles ++ files }

def Trace.endRecording (trace : Trace n) : Trace n :=
  { trace with recording := false, traceFiles := [] }

def Trace.dequeue (trace : Trace n) (index : Nat) : Trace n :=
  { trace with pending := trace.pending.eraseIdx index }

/-- A method call through one vcpu's `output` pointer. -/
def callOutput (vcpu : Fin n) (call : Call) (trace : Trace n) : Except Fault (Action n) :=
  match trace.output vcpu with
  | none => .error .nullOutput
  | some writer => .ok (.call vcpu writer call)

def siftName (dir : String) (threadid : Fin n) : String :=
  dir ++ "/vcpu" ++ toString threadid.val ++ ".sift"

def responseName (dir : String) (threadid : Fin n) : String :=
  dir ++ "/response.vcpu" ++ toString threadid.val ++ ".sift"

def closeActions (threadid : Fin n) : Option Nat → List (Action n)
  | none => []
  | some writer => [.call threadid writer .abort, .deleteWriter threadid writer]

def openActions (dir : String) (answers : Answers n) (threadid : Fin n) (writer : Nat)
    (output : Option Nat) : List (Action n) :=
  closeActions threadid output ++
  [.newWriter threadid writer (siftName dir threadid) (responseName dir threadid),
   .call threadid writer .isOpen] ++
  if answers.isOpen threadid then []
  else [.vcpuError threadid
    ("Error: Unable to open the output file " ++ siftName dir threadid)]

def threadDataResetAll (trace : Trace n) : Trace n :=
  { trace with threads := fun threadid =>
      ⟨threadDataReset (UInt64.ofNat threadid.val) (trace.threads threadid).data, []⟩ }

def openFiles (trace : Trace n) : Trace n :=
  { trace with
    threads := fun threadid =>
      { trace.threads threadid with
        data := (openFile (trace.nextWriter + threadid.val) (trace.threads threadid).data).1 }
    nextWriter := trace.nextWriter + n }

def startIn (dir : String) (answers : Answers n) (trace : Trace n) :
    Trace n × List (Action n) :=
  let fresh := threadDataResetAll trace
  let files := (List.finRange n).flatMap fun threadid =>
    [siftName dir threadid, responseName dir threadid]
  (((openFiles fresh).beginRecording files).setMode .icount,
    files.map .mkfifo ++ [.info ("recording to " ++ dir)] ++
    (List.finRange n).flatMap (fun threadid =>
      openActions dir answers threadid (trace.nextWriter + threadid.val) (fresh.output threadid)) ++
    [.registerCallbacks, .tbFlush])

def recorderStart (dir : Option String) (answers : Answers n) (trace : Trace n) : Outcome n :=
  if trace.recording then .ok (trace, [.error "already recording."])
  else
    match dir, answers.tempDir with
    | some dir, _ => .ok (startIn dir answers trace)
    | none, some temp => .ok (startIn temp answers trace)
    -- `assert(dir != NULL)` after a failed mkdtemp
    | none, none => .error .assertion

def recorderStop (vcpu : Fin n) (trace : Trace n) : Outcome n :=
  if !trace.recording then .ok (trace, [.error "not recording"])
  -- Only the stream of the vcpu that asked is ended here.
  else (callOutput vcpu .end trace).map fun ended => (trace.defer .stop, [ended])

def recorderGmm (vcpu : Fin n) (cmdStr : String) (segment arg1 : UInt64) (trace : Trace n) :
    Outcome n :=
  let send := fun call => (callOutput vcpu call trace).map fun sent => (trace, [sent])
  if cmdStr = "create" then send (.gmmCommand 0 segment arg1)
  else if cmdStr = "assign" then send (.gmmCommand 1 segment arg1)
  else if cmdStr = "delete" then send (.gmmCommand 2 segment arg1)
  else if cmdStr = "message" then
    if trace.globals.currentMode = .detailed then send (.sendGMMUserMessage 10 segment arg1)
    else .ok (trace, [])
  else if cmdStr = "sync" then
    if trace.globals.currentMode = .detailed then send (.sendGMMUserMessage 35 0 0)
    else .ok (trace, [])
  else .ok (trace, [.error ("Unknown gmm command " ++ cmdStr ++ ".")])

/-- The three `do_mode_switch` lambdas. -/
def doModeSwitch (request : Request) (cpuIndex : Fin n) (trace : Trace n) : Outcome n :=
  (callOutput cpuIndex (.magic request.simOpt) trace).map fun sent =>
    (trace.setMode request.mode, [sent, .setSlomoRate request.slomoRate])

/-- The loop of assertions before entering detailed mode. -/
def assertOpen (answers : Answers n) (trace : Trace n) :
    List (Fin n) → Except Fault (List (Action n))
  | [] => .ok []
  | threadid :: rest =>
      match callOutput threadid .isOpen trace with
      | .error fault => .error fault
      | .ok asked =>
          if answers.isOpen threadid then (assertOpen answers trace rest).map (asked :: ·)
          else .error .assertion

def hexText (value : UInt64) : String := String.ofList (Nat.toDigits 16 value.toNat)

def recorderMode (vcpu : Fin n) (modeStr : String) (answers : Answers n) (trace : Trace n) :
    Outcome n :=
  if !trace.recording then .ok (trace, [.error "not recording"])
  else
    match requestOf modeStr with
    | none => .ok (trace, [.error ("Unknown mode " ++ modeStr ++ ".")])
    | some request =>
        if trace.globals.currentMode = request.mode then .ok (trace, [])
        else
          match request with
          | .detailed =>
              match assertOpen answers trace (List.finRange n) with
              | .error fault => .error fault
              | .ok asked =>
                  -- Applied at once, unlike the other two.
                  (doModeSwitch .detailed vcpu (trace.setRoi answers.pageDirectory)).map
                    fun switched => (switched.1, asked ++
                      [.info ("CR3: " ++ hexText answers.pageDirectory)] ++ switched.2 ++ [.tbFlush])
          -- The region of interest moves with the command, the mode with the callback.
          | request =>
              .ok ((trace.setRoi answers.pageDirectory).defer (.modeSwitch request vcpu), [])

def recorderReset (vcpu : Fin n) (answers : Answers n) (trace : Trace n) : Outcome n :=
  if !trace.recording then .ok (trace, [.error "not recording."])
  else .ok ((trace.setRoi answers.pageDirectory).defer (.reset vcpu), [])

def setMagicCommand (address : UInt64) (trace : Trace n) : Outcome n :=
  .ok (trace.setMagic address, [.info ("magic = " ++ toString address)])

def perform (vcpu : Fin n) (answers : Answers n) (command : Command) (trace : Trace n) :
    Outcome n :=
  match command with
  | .start dir => recorderStart dir answers trace
  | .mode modeStr => recorderMode vcpu modeStr answers trace
  | .stop => recorderStop vcpu trace
  | .reset => recorderReset vcpu answers trace
  | .gmm cmdStr segment arg1 => recorderGmm vcpu cmdStr segment arg1 trace
  | .magic address => setMagicCommand address trace

/-! Deferred callbacks. -/

def higher (first second : UInt64 × UInt64) : Prop := second.2 ≤ first.2

/-- `sort_map` holds the rows of the map in descending order of their counts. Equal
counts stand as the map happens to iterate, which nothing in the source decides. -/
abbrev SortMap (blocks sorted : BlockCount) : Prop := Ranking.Arranged higher blocks sorted

/-- The rows printed before the loop over `sort_map` breaks. -/
def Table (blocks rows : BlockCount) : Prop :=
  ∃ sorted, SortMap blocks sorted ∧ rows = sorted.take 10

def statistics (thread : ThreadData) : String :=
  "user: " ++ toString thread.icountUser ++ ", other: " ++ toString thread.icountOther ++
    ", loads: " ++ toString thread.loads ++ ", writes: " ++ toString thread.stores

def closeFiles (trace : Trace n) : Trace n :=
  { trace with threads := fun threadid =>
      { trace.threads threadid with data := (closeFile (trace.threads threadid).data).1 } }

def stopCallback (trace : Trace n) : Trace n × List (Action n) :=
  ((closeFiles trace).endRecording,
    (List.finRange n).flatMap (fun threadid =>
      closeActions threadid (trace.output threadid) ++
      if trace.globals.currentMode = .detailed then
        [.vcpuInfo threadid (statistics (trace.threads threadid).data)]
      else []) ++
    -- Only the first vcpu's blocks are reported.
    ((List.finRange n).take 1).flatMap (fun threadid =>
      [.vcpuInfo threadid "Hot blocks:",
       .hotBlocks threadid (trace.threads threadid).blockCnt]) ++
    trace.traceFiles.map .unlink ++
    [.setSlomoRate 1, .info "Successfully reset trace."])

def resetCallback (trace : Trace n) : Trace n :=
  { trace with threads := fun threadid =>
      { trace.threads threadid with data := resetCounters (trace.threads threadid).data } }

def runDeferred (callback : Deferred n) (trace : Trace n) : Outcome n :=
  match callback with
  | .modeSwitch request cpuIndex => doModeSwitch request cpuIndex trace
  | .reset _ => .ok (resetCallback trace, [])
  | .stop => .ok (stopCallback trace)

inductive Event (n : Nat) where
  | command (vcpu : Fin n) (answers : Answers n) (command : Command)
  | deferred (index : Nat)

/-- The event is a start command that will be accepted. -/
def Event.begins (trace : Trace n) : Event n → Bool
  | .command _ _ (.start _) => !trace.recording
  | _ => false

def step : Step (Trace n) (Event n) (Action n) Fault :=
  fun trace event =>
    match event with
    | .command vcpu answers command => perform vcpu answers command trace
    | .deferred index =>
        match trace.pending[index]? with
        -- There is no such callback: nothing happens.
        | none => .ok (trace, [])
        | some callback => runDeferred callback (trace.dequeue index)

def install (n : Nat) : Trace n where
  globals := ⟨.icount, 0, 0⟩
  recording := false
  threads := fun _ => ⟨installed, []⟩
  traceFiles := []
  pending := []
  nextWriter := 0

def vcpu₀ : Fin 1 := ⟨0, Nat.one_pos⟩

end Hypersh.Control
