import Mathlib.Data.List.Basic
import Hypersh.Transduction
import Hypersh.Monitors
import Hypersh.Numerals
import Hypersh.Formats
import Hypersh.Getopt
import Hypersh.Mcount
import Hypersh.Contention
import Hypersh.ReportFile
import Hypersh.Pmem
import Hypersh.Sampling
import Hypersh.Linearization

/-!
The texts that mcount and pmem write. What `fprintf` makes of the values is read back by
formats, and with it everything in the files, however the vcpus have taken turns.
-/
namespace Hypersh.Texts
open Getopt Formats Transduction
open Numerals (decimal)

def plainNumber : Format Nat := number 10 0 (by decide) (by decide)

@[simp]
theorem plain_number_print (value : Nat) : plainNumber.print value = decimal value :=
  numeral_plain 10 value

def word32 : Format UInt32 :=
  plainNumber.along UInt32.ofNat UInt32.toNat fun _ => UInt32.ofNat_toNat

def word64 : Format UInt64 :=
  plainNumber.along UInt64.ofNat UInt64.toNat fun _ => UInt64.ofNat_toNat

@[simp]
theorem word32_print (value : UInt32) : word32.print value = decimal value.toNat :=
  plain_number_print value.toNat

@[simp]
theorem word64_print (value : UInt64) : word64.print value = decimal value.toNat :=
  plain_number_print value.toNat

/-! The lines of pmem. -/

structure Sample where
  cpuId : Nat
  isKernel : Bool
  isStore : Bool
  vaddr : UInt64
  paddr : UInt64
  deriving DecidableEq, Repr

def Sample.output (sample : Sample) : Pmem.Output :=
  .line sample.cpuId sample.isKernel sample.isStore sample.vaddr sample.paddr

/-- `%u %c %c 0x%016lx 0x%08lx`. -/
def Sample.text (sample : Sample) : List Char :=
  decimal sample.cpuId ++ ' ' :: (if sample.isKernel then 'k' else 'u') ::
    ' ' :: (if sample.isStore then 'w' else 'r') ::
    " 0x".toList ++ numeral 16 16 sample.vaddr.toNat ++
    " 0x".toList ++ numeral 16 8 sample.paddr.toNat ++ ['\n']

def pmemText : Pmem.Output → List Char
  | .line cpuId isKernel isStore vaddr paddr => (Sample.mk cpuId isKernel isStore vaddr paddr).text
  | .close => []

def hexadecimal (width : Nat) : Format UInt64 :=
  (number 16 width (by decide) (by decide)).along UInt64.ofNat UInt64.toNat
    fun _ => UInt64.ofNat_toNat

def sampleFields : Format (Nat × Bool × Bool × UInt64 × UInt64) :=
  (plainNumber.behind " ".toList fun _ => rfl).pair
    (((flag 'k' 'u' (by decide)).behind " ".toList fun _ => trivial).pair
      (((flag 'w' 'r' (by decide)).behind " 0x".toList fun _ => trivial).pair
        (((hexadecimal 16).behind " 0x".toList fun _ => rfl).pair
          ((hexadecimal 8).behind "\n".toList fun _ => rfl)
          fun _ _ _ _ => trivial)
        fun _ _ _ _ => trivial)
      fun _ _ _ _ => trivial)
    fun _ _ _ _ => trivial

def sampleLine : Format Sample :=
  sampleFields.along
    (fun fields => ⟨fields.1, fields.2.1, fields.2.2.1, fields.2.2.2.1, fields.2.2.2.2⟩)
    (fun sample =>
      (sample.cpuId, sample.isKernel, sample.isStore, sample.vaddr, sample.paddr))
    fun _ => rfl

theorem sample_print (sample : Sample) : sampleLine.print sample = sample.text := by
  simp [sampleLine, sampleFields, hexadecimal, Sample.text]

theorem sample_fits (sample : Sample) : sampleLine.fits sample :=
  ⟨trivial, trivial, trivial, trivial, trivial⟩

theorem sample_closed (rest : List Char) : sampleLine.ends rest := trivial

theorem sample_present (sample : Sample) : sampleLine.print sample ≠ [] := by
  simp [sample_print, Sample.text]

/-- The file of pmem. -/
def pmemFile : Format (List Sample) := sampleLine.many sample_closed sample_present

def sampleOf : Pmem.Output → Option Sample
  | .line cpuId isKernel isStore vaddr paddr => some ⟨cpuId, isKernel, isStore, vaddr, paddr⟩
  | .close => none

theorem pmem_text_printed (lines : List Pmem.Output) :
    lines.flatMap pmemText = pmemFile.print (lines.filterMap sampleOf) := by
  unfold pmemFile
  rw [many_print]
  induction lines with
  | nil => rfl
  | cons line lines ih =>
      cases line with
      | line cpuId isKernel isStore vaddr paddr =>
          have first : sampleOf (.line cpuId isKernel isStore vaddr paddr) =
              some ⟨cpuId, isKernel, isStore, vaddr, paddr⟩ := rfl
          rw [List.flatMap_cons, List.filterMap_cons_some first, List.flatMap_cons, sample_print, ih]
          rfl
      | close =>
          rw [List.flatMap_cons, List.filterMap_cons_none rfl, ih]
          rfl

/-- Whatever lines are written, they can be read off the file. -/
theorem pmem_text_read (lines : List Pmem.Output) :
    pmemFile.read (lines.flatMap pmemText) = some (lines.filterMap sampleOf, []) := by
  rw [pmem_text_printed]
  exact pmemFile.reads _ (fun sample _ => sample_fits sample) rfl

theorem samples_of_cpu {n : Nat} (vcpu : Fin n) (lines : List Pmem.Output) :
    Linearization.ofCpu vcpu ((lines.filterMap sampleOf).map Sample.output) =
      Linearization.ofCpu vcpu lines := by
  induction lines with
  | nil => rfl
  | cons line lines ih =>
      cases line with
      | line cpuId isKernel isStore vaddr paddr =>
          have first : sampleOf (.line cpuId isKernel isStore vaddr paddr) =
              some ⟨cpuId, isKernel, isStore, vaddr, paddr⟩ := rfl
          rw [List.filterMap_cons_some first, List.map_cons, ← List.singleton_append,
            Linearization.of_cpu_append, ih, ← Linearization.of_cpu_append]
          rfl
      | close =>
          rw [List.filterMap_cons_none rfl, ih]
          rfl

/-- However the callbacks interleave, the file of pmem can be read back, and it tells of
every vcpu the accesses sampled for it, in their order, up to the one whose line it is
still to write. -/
theorem pmem_file_tells {n : Nat} (filename : Option Word) (opens : Bool) (interval : UInt32)
    (attr : UInt8)
    (opened : (Pmem.hypercallPmemInit filename opens interval attr).pmemFile ≠ none)
    (events : List (Linearization.Event n))
    (final : Linearization.State n × List Sampling.Logged) (lines : List Pmem.Output)
    (done : run (watch Linearization.step Linearization.note)
      (Linearization.quiet n (Pmem.hypercallPmemInit filename opens interval attr), []) events =
        .ok (final, lines)) :
    ∃ samples, pmemFile.read (lines.flatMap pmemText) = some (samples, []) ∧
      Linearization.Amounts (Pmem.hypercallPmemInit filename opens interval attr) final.1 final.2
        (samples.map Sample.output) := by
  obtain ⟨sampled, ran, told⟩ := Linearization.run_amounts _ rfl opened events final lines done
  refine ⟨_, pmem_text_read lines, sampled, ran, fun vcpu => ?_⟩
  rw [samples_of_cpu, told vcpu]

theorem overtaken_told : ∃ final lines,
    run (watch Linearization.step Linearization.note)
      (Linearization.quiet 2 (Pmem.hypercallPmemInit none true 2 0), []) Linearization.overtaken =
        .ok (final, lines) ∧
    lines.flatMap pmemText = "1 k w 0x0000000000000050 0x00000060\n".toList ∧
    ∃ samples, pmemFile.read (lines.flatMap pmemText) = some (samples, []) ∧
      Linearization.Amounts (Pmem.hypercallPmemInit none true 2 0) final.1 final.2
        (samples.map Sample.output) :=
  ⟨_, _, rfl, rfl, pmem_file_tells none true 2 0 (by decide) Linearization.overtaken _ _ rfl⟩

/-! The reports of mcount. -/

/-- One map of `flush`. -/
def rowText (index : Nat) (row : Mcount.Row) : List Char :=
  decimal index ++ " = \x7b".toList ++
    row.flatMap (fun entry => decimal entry.1 ++ ": ".toList ++ decimal entry.2 ++ ", ".toList) ++
    "\x7d, ".toList

/-- `flush`. -/
def rowsText (rows : List Mcount.Row) : List Char :=
  rows.zipIdx.flatMap fun row => rowText row.2 row.1

def tagText (tag : Word × UInt64) : List Char :=
  "\x22".toList ++ tag.1 ++ "\x22: ".toList ++ decimal tag.2.toNat ++ ", ".toList

def tagsText (tags : List (Word × UInt64)) : List Char :=
  "tags = \x7b".toList ++ tags.flatMap tagText ++ "\x7d\n".toList

def totalsText (accCnt accIoCnt : UInt64) : List Char :=
  "acc_cnt = ".toList ++ decimal accCnt.toNat ++ "; acc_io_cnt = ".toList ++
    decimal accIoCnt.toNat ++ ['\n']

/-- A null name of the report is printed as `stdout`. -/
def reportName (report : Option Word) : Word := report.getD "stdout".toList

def configText (report : Option Word) (totalMem : UInt64) (memBin accBin : UInt32)
    (ncores : Nat) : List Char :=
  "cfg = \x7b\x22report\x22: ".toList ++ reportName report ++
    ", \x22total_mem\x22: ".toList ++ decimal totalMem.toNat ++
    ", \x22mem_bin\x22: ".toList ++ decimal memBin.toNat ++
    ", \x22acc_bin\x22: ".toList ++ decimal accBin.toNat ++
    ", \x22ncores\x22: ".toList ++ decimal ncores ++ "\x7d\n".toList

def countsText (kernel user : List Mcount.Row) : List Char :=
  "K = \x7b".toList ++ rowsText kernel ++ "\x7d; U = \x7b".toList ++ rowsText user ++
    "\x7d\n".toList

def mcountText : Mcount.Output → List Char
  | .config report totalMem memBin accBin ncores => configText report totalMem memBin accBin ncores
  | .counts kernel user => countsText kernel user
  | .tags tags => tagsText tags
  | .totals accCnt accIoCnt => totalsText accCnt accIoCnt
  | .close => []

def lineText : Contention.Line → List Char
  | .kernel rows => "K = \x7b".toList ++ rowsText rows
  | .user rows => "\x7d; U = \x7b".toList ++ rowsText rows ++ "\x7d\n".toList
  | .tags tags => tagsText tags
  | .totals accCnt accIoCnt => totalsText accCnt accIoCnt
  | .close => []

structure Heading where
  report : Word
  totalMem : UInt64
  memBin : UInt32
  accBin : UInt32
  ncores : Nat
  deriving DecidableEq, Repr

def heading : Format Heading :=
  ((((upTo ',').behind ", \x22total_mem\x22: ".toList fun _ => rfl).pair
    ((word64.behind ", \x22mem_bin\x22: ".toList fun _ => rfl).pair
      ((word32.behind ", \x22acc_bin\x22: ".toList fun _ => rfl).pair
        ((word32.behind ", \x22ncores\x22: ".toList fun _ => rfl).pair
          (plainNumber.behind "\x7d\n".toList fun _ => rfl)
          fun _ _ _ _ => trivial)
        fun _ _ _ _ => trivial)
      fun _ _ _ _ => trivial)
    fun _ _ _ _ => trivial).before "cfg = \x7b\x22report\x22: ".toList).along
    (fun fields => ⟨fields.1, fields.2.1, fields.2.2.1, fields.2.2.2.1, fields.2.2.2.2⟩)
    (fun heading =>
      (heading.report, heading.totalMem, heading.memBin, heading.accBin, heading.ncores))
    fun _ => rfl

theorem heading_print (report : Option Word) (totalMem : UInt64) (memBin accBin : UInt32)
    (ncores : Nat) :
    heading.print ⟨reportName report, totalMem, memBin, accBin, ncores⟩ =
      configText report totalMem memBin accBin ncores := by
  have parts : heading.print ⟨reportName report, totalMem, memBin, accBin, ncores⟩ =
      "cfg = \x7b\x22report\x22: ".toList ++ ((reportName report ++
        ", \x22total_mem\x22: ".toList) ++ ((word64.print totalMem ++
        ", \x22mem_bin\x22: ".toList) ++ ((word32.print memBin ++
        ", \x22acc_bin\x22: ".toList) ++ ((word32.print accBin ++
        ", \x22ncores\x22: ".toList) ++ (plainNumber.print ncores ++ "\x7d\n".toList))))) := rfl
  unfold configText
  rw [parts, word64_print, word32_print, word32_print, plain_number_print]
  repeat rw [List.append_assoc]

def entry : Format (Nat × Nat) :=
  (plainNumber.behind ": ".toList fun _ => rfl).pair (plainNumber.behind ", ".toList fun _ => rfl)
    fun _ _ _ _ => trivial

theorem entry_closed (rest : List Char) : entry.ends rest := trivial

theorem entry_present (value : Nat × Nat) : entry.print value ≠ [] := by
  simp [entry]

theorem entry_stops (rest : List Char) : entry.read ("\x7d, ".toList ++ rest) = none :=
  pair_stops _ _ _ _ (behind_stops _ _ _ _ (number_stops 10 0 _ _ _ rfl))

def entries : Format Mcount.Row := entry.many entry_closed entry_present

def row : Format (Nat × Mcount.Row) :=
  (plainNumber.behind " = \x7b".toList fun _ => rfl).pair
    (entries.behind "\x7d, ".toList entry_stops) fun _ _ _ _ => trivial

theorem row_print (value : Nat × Mcount.Row) : row.print value = rowText value.1 value.2 := by
  have each : entry.print = fun value =>
      decimal value.1 ++ ": ".toList ++ decimal value.2 ++ ", ".toList := by
    funext value
    simp [entry]
  have parts : row.print value = (plainNumber.print value.1 ++ " = \x7b".toList) ++
      (value.2.flatMap entry.print ++ "\x7d, ".toList) := rfl
  rw [parts, plain_number_print, each, rowText, List.append_assoc, List.append_assoc,
    List.append_assoc]

theorem row_closed (rest : List Char) : row.ends rest := trivial

theorem row_present (value : Nat × Mcount.Row) : row.print value ≠ [] := by
  simp [row_print, rowText]

theorem row_stops (rest : List Char) : row.read ('\x7d' :: rest) = none :=
  pair_stops _ _ _ _ (behind_stops _ _ _ _ (number_stops 10 0 _ _ _ rfl))

def rows : Format (List Mcount.Row) :=
  (row.many row_closed row_present).along (fun numbered => numbered.map Prod.snd)
    (fun rows => rows.zipIdx.map fun row => (row.2, row.1))
    fun rows => by
      rw [List.map_map]
      exact List.zipIdx_map_fst 0 rows

theorem rows_print (value : List Mcount.Row) : rows.print value = rowsText value := by
  have each : row.print = fun value => rowText value.1 value.2 := funext row_print
  have parts : rows.print value =
      (value.zipIdx.map fun row => (row.2, row.1)).flatMap row.print := rfl
  rw [parts, each, List.flatMap_map]
  rfl

abbrev Counted := List Mcount.Row × List Mcount.Row

def section_ : Format Counted :=
  ((rows.behind "\x7d; U = \x7b".toList fun _ => row_stops _).pair
    (rows.behind "\x7d\n".toList fun _ => row_stops _) fun _ _ _ _ => trivial).before
      "K = \x7b".toList

theorem section_print (value : Counted) :
    section_.print value = countsText value.1 value.2 := by
  have parts : section_.print value = "K = \x7b".toList ++
      ((rows.print value.1 ++ "\x7d; U = \x7b".toList) ++ (rows.print value.2 ++ "\x7d\n".toList)) :=
    rfl
  unfold countsText
  rw [parts, rows_print, rows_print]
  repeat rw [List.append_assoc]

theorem section_closed (rest : List Char) : section_.ends rest := trivial

theorem section_present (value : Counted) :
    section_.print value ≠ [] := by
  intro empty
  rw [section_print] at empty
  unfold countsText at empty
  repeat rw [List.append_assoc] at empty
  exact absurd (List.append_eq_nil_iff.mp empty).1 (by decide)

def sections : Format (List Counted) :=
  section_.many section_closed section_present

def tag : Format (Word × UInt64) :=
  (((upTo '\x22').behind "\x22: ".toList fun _ => rfl).pair
    (word64.behind ", ".toList fun _ => rfl) fun _ _ _ _ => trivial).before "\x22".toList

theorem tag_print (value : Word × UInt64) : tag.print value = tagText value := by
  have parts : tag.print value = "\x22".toList ++ ((value.1 ++ "\x22: ".toList) ++
      (word64.print value.2 ++ ", ".toList)) := rfl
  rw [parts, word64_print, tagText]
  simp only [List.append_assoc]

theorem tag_closed (rest : List Char) : tag.ends rest := trivial

theorem tag_present (value : Word × UInt64) : tag.print value ≠ [] := by
  simp [tag_print, tagText]

theorem tag_stops (rest : List Char) : tag.read ("\x7d\n".toList ++ rest) = none :=
  before_stops _ _ _ rfl

def tags : Format (List (Word × UInt64)) :=
  ((tag.many tag_closed tag_present).behind "\x7d\n".toList tag_stops).before "tags = \x7b".toList

theorem tags_print (value : List (Word × UInt64)) : tags.print value = tagsText value := by
  have each : tag.print = tagText := funext tag_print
  have parts : tags.print value =
      "tags = \x7b".toList ++ (value.flatMap tag.print ++ "\x7d\n".toList) := rfl
  unfold tagsText
  rw [parts, each, List.append_assoc]

def totals : Format (UInt64 × UInt64) :=
  ((word64.behind "; acc_io_cnt = ".toList fun _ => rfl).pair
    (word64.behind "\n".toList fun _ => rfl) fun _ _ _ _ => trivial).before "acc_cnt = ".toList

theorem totals_print (value : UInt64 × UInt64) :
    totals.print value = totalsText value.1 value.2 := by
  have parts : totals.print value = "acc_cnt = ".toList ++
      ((word64.print value.1 ++ "; acc_io_cnt = ".toList) ++ (word64.print value.2 ++ ['\n'])) := rfl
  unfold totalsText
  rw [parts, word64_print, word64_print]
  repeat rw [List.append_assoc]

/-- Everything that a start and a stop leave behind in the report. -/
abbrev Document :=
  Heading × List Counted × List (Word × UInt64) × UInt64 × UInt64

def ending : Format (List (Word × UInt64) × UInt64 × UInt64) :=
  tags.pair totals fun _ _ _ _ => trivial

theorem ending_stops (value : List (Word × UInt64) × UInt64 × UInt64) (rest : List Char) :
    sections.ends (ending.print value ++ rest) := by
  have front : ending.print value ++ rest =
      "tags = \x7b".toList ++ (value.1.flatMap tag.print ++ "\x7d\n".toList ++
        totals.print value.2 ++ rest) := by
    have parts : ending.print value =
        ("tags = \x7b".toList ++ (value.1.flatMap tag.print ++ "\x7d\n".toList)) ++
          totals.print value.2 := rfl
    rw [parts]
    repeat rw [List.append_assoc]
  show section_.read (ending.print value ++ rest) = none
  rw [front]
  exact before_stops _ _ _ rfl

def document : Format Document :=
  heading.pair (sections.pair ending fun value rest _ _ => ending_stops value rest)
    fun _ _ _ _ => trivial

theorem document_print (report : Option Word) (totalMem : UInt64) (memBin accBin : UInt32)
    (ncores : Nat) (counted : List Counted)
    (named : List (Word × UInt64)) (accCnt accIoCnt : UInt64) :
    document.print (⟨reportName report, totalMem, memBin, accBin, ncores⟩, counted, named, accCnt,
        accIoCnt) =
      configText report totalMem memBin accBin ncores ++
        (counted.flatMap (fun section_ => countsText section_.1 section_.2) ++
          (tagsText named ++ totalsText accCnt accIoCnt)) := by
  have each : section_.print = fun section_ => countsText section_.1 section_.2 :=
    funext section_print
  have parts : document.print (⟨reportName report, totalMem, memBin, accBin, ncores⟩, counted,
      named, accCnt, accIoCnt) =
    heading.print ⟨reportName report, totalMem, memBin, accBin, ncores⟩ ++
      (counted.flatMap section_.print ++ (tags.print named ++ totals.print (accCnt, accIoCnt))) := rfl
  rw [parts, heading_print, each, tags_print, totals_print]

theorem document_reads (report : Option Word) (totalMem : UInt64) (memBin accBin : UInt32)
    (ncores : Nat) (counted : List Counted)
    (named : List (Word × UInt64)) (accCnt accIoCnt : UInt64) (path : ',' ∉ reportName report)
    (names : ∀ tag ∈ named, '\x22' ∉ tag.1) :
    document.read (configText report totalMem memBin accBin ncores ++
        (counted.flatMap (fun section_ => countsText section_.1 section_.2) ++
          (tagsText named ++ totalsText accCnt accIoCnt))) =
      some ((⟨reportName report, totalMem, memBin, accBin, ncores⟩, counted, named, accCnt,
        accIoCnt), []) := by
  rw [← document_print]
  apply document.reads
  · refine ⟨⟨path, trivial, trivial, trivial, trivial⟩, ?_, ?_, trivial, trivial⟩
    · exact fun _ _ => ⟨fun _ _ => ⟨trivial, fun _ _ => ⟨trivial, trivial⟩⟩,
        fun _ _ => ⟨trivial, fun _ _ => ⟨trivial, trivial⟩⟩⟩
    · exact fun tag member => ⟨names tag member, trivial⟩
  · trivial

/-! The report of a process that takes one callback after the other. -/

/-- Accesses, and tag commands whose names have no quotes. -/
def Recorded : Mcount.Event → Prop
  | .access _ _ => True
  | .tag name => '\x22' ∉ name
  | _ => False

def Clean (statics : Mcount.Statics) : Prop := ∀ tag ∈ statics.tags, '\x22' ∉ tag.1

def counts (section_ : Counted) : Mcount.Output :=
  .counts section_.1 section_.2

/-- The report stays where it is, and only sections are added to it. -/
structure Grown (before : Mcount.Statics) (lines : List Mcount.Output) (after : Mcount.Statics) :
    Prop where
  file : after.cfg.report = before.cfg.report
  clean : Clean before → Clean after
  sections : ∃ counted, lines = List.map counts counted

theorem grown_append (before middle after : Mcount.Statics) (early late : List Mcount.Output)
    (first : Grown before early middle) (second : Grown middle late after) :
    Grown before (early ++ late) after := by
  obtain ⟨front, rfl⟩ := first.sections
  obtain ⟨back, rfl⟩ := second.sections
  exact ⟨second.file.trans first.file, fun clean => second.clean (first.clean clean),
    front ++ back, (List.map_append ..).symm⟩

theorem set_tag_clean (name : Word) (value : UInt64) (named : List (Word × UInt64))
    (plain : '\x22' ∉ name) (clean : ∀ tag ∈ named, '\x22' ∉ tag.1) :
    ∀ tag ∈ Mcount.setTag name value named, '\x22' ∉ tag.1 := by
  induction named with
  | nil =>
      intro tag member
      obtain rfl := List.mem_singleton.mp member
      exact plain
  | cons first rest ih =>
      obtain ⟨known, old⟩ := first
      obtain ⟨here, later⟩ := List.forall_mem_cons.mp clean
      unfold Mcount.setTag
      split
      · exact List.forall_mem_cons.mpr ⟨here, later⟩
      · split
        · exact List.forall_mem_cons.mpr ⟨plain, clean⟩
        · exact List.forall_mem_cons.mpr ⟨here, ih later⟩

theorem count_grown (cpuId : Nat) (access : Mcount.Access) (before after : Mcount.Statics)
    (counted : Mcount.countAccess cpuId access before = .ok after) : Grown before [] after := by
  obtain ⟨-, rfl⟩ | ⟨-, -, maps, -, rfl⟩ | ⟨-, -, maps, -, rfl⟩ :=
    Mcount.count_cases cpuId access before after counted
  · exact ⟨rfl, fun clean => clean, [], rfl⟩
  · exact ⟨rfl, fun clean => clean, [], rfl⟩
  · exact ⟨rfl, fun clean => clean, [], rfl⟩

theorem step_grown (before : Mcount.Statics) (event : Mcount.Event) (after : Mcount.Statics)
    (lines : List Mcount.Output) (recorded : Recorded event)
    (taken : Mcount.step before event = .ok (after, lines)) : Grown before lines after := by
  cases event with
  | start report opens totalMem memBin accBin => contradiction
  | stop => contradiction
  | tag name =>
      cases taken
      exact ⟨rfl, set_tag_clean name before.accCnt before.tags recorded, [], rfl⟩
  | access cpuId access =>
      obtain ⟨-, rfl, rfl⟩ | ⟨reported, ⟨rfl, rfl⟩ | report, counted⟩ :=
        Mcount.cb_cases cpuId access before after lines taken
      · exact ⟨rfl, fun clean => clean, [], rfl⟩
      · obtain ⟨file, clean, -⟩ := count_grown cpuId access _ after counted
        exact ⟨file, clean, [], rfl⟩
      · obtain ⟨file, clean, -⟩ := count_grown cpuId access _ after counted
        obtain ⟨kernel, _, user, _, -, -, rfl, rfl⟩ := Mcount.report_cases _ _ _ report
        exact ⟨file, clean, [(kernel, user)], rfl⟩

theorem sections_text (counted : List Counted) :
    (counted.map counts).flatMap mcountText =
      counted.flatMap fun section_ => countsText section_.1 section_.2 := by
  rw [List.flatMap_map]
  rfl

theorem ending_text (statics : Mcount.Statics) (file : statics.cfg.report ≠ none) :
    (Mcount.hypercallMcountFini statics).2.flatMap mcountText =
      tagsText statics.tags ++ totalsText statics.accCnt statics.accIoCnt := by
  unfold Mcount.hypercallMcountFini
  cases open_ : statics.cfg.report with
  | none => exact absurd open_ file
  | some report => cases report <;> simp [Mcount.closeReport, mcountText]

/-- The report of any accesses and tag commands between a start and a stop can be read
back: the configuration, every report of both classes in its order, the tags and the
totals. -/
theorem mcount_report_tells (statics begun : Mcount.Statics) (report : Option Word) (opens : Bool)
    (totalMem : UInt64) (memBin accBin : UInt32) (first : List Mcount.Output)
    (started : Mcount.step statics (.start report opens totalMem memBin accBin) =
      .ok (begun, first))
    (path : ',' ∉ reportName report) (events : List Mcount.Event)
    (recorded : ∀ event ∈ events, Recorded event) (final : Mcount.Statics)
    (lines : List Mcount.Output) (done : run Mcount.step begun events = .ok (final, lines)) :
    ∃ counted, lines = List.map counts counted ∧
      document.read
          ((first ++ lines ++ (Mcount.hypercallMcountFini final).2).flatMap mcountText) =
        some ((⟨reportName report, totalMem, memBin, accBin, statics.ncores⟩, counted, final.tags,
          final.accCnt, final.accIoCnt), []) := by
  obtain ⟨file, -, rfl, rfl⟩ :=
    Mcount.init_cases report opens totalMem memBin accBin statics begun first started
  obtain ⟨same, clean, counted, rfl⟩ := along_relates Mcount.step (fun _ event => Recorded event)
    Grown (fun _ => ⟨rfl, fun clean => clean, [], rfl⟩) grown_append step_grown _ final events lines
    (along_all Mcount.step Recorded _ events recorded) done
  refine ⟨counted, rfl, ?_⟩
  have open_ : final.cfg.report ≠ none := by
    rw [same]
    exact Option.some_ne_none file
  rw [List.flatMap_append, List.flatMap_append, sections_text, ending_text final open_,
    List.flatMap_singleton, List.append_assoc]
  exact document_reads report totalMem memBin accBin statics.ncores counted final.tags final.accCnt
    final.accIoCnt path (clean fun tag absent => absurd absent List.not_mem_nil)

/-- Two reports, the second with a tag before it. -/
def taggedBetween : List Mcount.Event :=
  [.access 1 ⟨0x1800000, false, true⟩, .access 0 ⟨0x10, false, false⟩, .tag "roi".toList,
   .access 0 ⟨0x20, true, false⟩]

theorem tagged_between_told : ∃ begun first final lines,
    Mcount.step (Mcount.installed 2) (.start (some "m.txt".toList) true 0x2000000 0x1000000 1) =
      .ok (begun, first) ∧
    run Mcount.step begun taggedBetween = .ok (final, lines) ∧
    final.tags = [("roi".toList, 2)] ∧
    ∃ counted, lines = List.map counts counted ∧
      document.read
          ((first ++ lines ++ (Mcount.hypercallMcountFini final).2).flatMap mcountText) =
        some ((⟨"m.txt".toList, 0x2000000, 0x1000000, 1, 2⟩, counted, final.tags, final.accCnt,
          final.accIoCnt), []) :=
  ⟨_, _, _, _, rfl, rfl, rfl, mcount_report_tells (Mcount.installed 2) _ (some "m.txt".toList) true
    0x2000000 0x1000000 1 _ rfl (by decide) taggedBetween
    (by simp [taggedBetween, Recorded]) _ _ rfl⟩

/-! The report under concurrent callbacks. -/

section
open Contention ReportFile Monitors

def sectionLines (section_ : Counted) : List Line := [.kernel section_.1, .user section_.2]

/-- Lines in the right order are sections, then the tags and the totals. -/
theorem accepted_sections (lines : List Line) (accepted : wellFormed.accepts .between lines = true)
    (complete : wellFormed.after .between lines ∈ [Progress.totalled, Progress.closed]) :
    ∃ counted named accCnt accIoCnt tail,
      lines = List.flatMap sectionLines counted ++ .tags named :: .totals accCnt accIoCnt :: tail ∧
        tail.flatMap lineText = [] := by
  induction lines using List.twoStepInduction with
  | nil => simp [Monitor.after] at complete
  | singleton line =>
      obtain ⟨here, -⟩ := Bool.and_eq_true_iff.mp accepted
      cases line with
      | kernel rows =>
          exact absurd complete
            (show Progress.halfway ∉ [Progress.totalled, Progress.closed] by decide)
      | tags named =>
          exact absurd complete
            (show Progress.tagged ∉ [Progress.totalled, Progress.closed] by decide)
      | _ => contradiction
  | cons_cons first second rest ih _ =>
      obtain ⟨here, next⟩ := Bool.and_eq_true_iff.mp accepted
      obtain ⟨there, later⟩ := Bool.and_eq_true_iff.mp next
      cases first with
      | kernel rows =>
          cases second with
          | user others =>
              obtain ⟨counted, named, accCnt, accIoCnt, tail, rfl, silent⟩ := ih later complete
              exact ⟨(rows, others) :: counted, named, accCnt, accIoCnt, tail, rfl, silent⟩
          | _ => contradiction
      | tags named =>
          cases second with
          | totals accCnt accIoCnt =>
              refine ⟨[], named, accCnt, accIoCnt, rest, rfl, ?_⟩
              cases rest with
              | nil => rfl
              | cons third rest =>
                  obtain ⟨closes, last⟩ := Bool.and_eq_true_iff.mp later
                  cases third with
                  | close =>
                      cases rest with
                      | nil => rfl
                      | cons fourth rest =>
                          obtain ⟨more, -⟩ := Bool.and_eq_true_iff.mp last
                          cases fourth <;> contradiction
                  | _ => contradiction
          | _ => contradiction
      | _ => contradiction

theorem section_lines_text (counted : List Counted) :
    (List.flatMap sectionLines counted).flatMap lineText =
      counted.flatMap fun section_ => countsText section_.1 section_.2 := by
  rw [List.flatMap_assoc]
  apply List.flatMap_congr
  intro section_ _
  have parts : (sectionLines section_).flatMap lineText =
      ("K = \x7b".toList ++ rowsText section_.1) ++ (("\x7d; U = \x7b".toList ++
        rowsText section_.2 ++ "\x7d\n".toList) ++ []) := rfl
  unfold countsText
  rw [parts, List.append_nil]
  repeat rw [List.append_assoc]

variable {n : Nat}

theorem set_class_tags (kernel : Bool) (maps : Mcount.Maps) (statics : Mcount.Statics) :
    (setClass kernel maps statics).tags = statics.tags := by
  cases kernel with
  | true => rfl
  | false => rfl

/-- No callback stores a tag, and a stop prints the ones there are. -/
theorem step_tags (state next : State n) (event : Event n) (lines : List Line)
    (taken : step state event = .ok (next, lines)) :
    next.statics.tags = state.statics.tags ∧
      ∀ named, .tags named ∈ lines → named = state.statics.tags := by
  obtain ⟨vcpu, access, -, -, rfl, ⟨-, rfl⟩ | ⟨-, rfl⟩⟩ | ⟨vcpu, -, -, rfl, rfl⟩ |
    ⟨vcpu, -, advanced⟩ := step_cases state next event lines taken
  · exact ⟨rfl, by simp⟩
  · exact ⟨rfl, by simp⟩
  · exact ⟨rfl, by simp⟩
  · generalize state.phase vcpu = phase at advanced
    cases advanced with
    | kernel access rows maps file open_ flushed => exact ⟨set_class_tags _ _ _, by simp⟩
    | user access rows maps file open_ flushed => exact ⟨set_class_tags _ _ _, by simp⟩
    | stored access count => exact ⟨set_class_tags _ _ _, by simp⟩
    | _ => exact ⟨rfl, by simp⟩

/-- However the callbacks interleave after a start, as long as stop commands come one at a
time the report that a stop has closed can be read back, and nothing is missing from it. -/
theorem concurrent_report_tells (statics begun : Mcount.Statics) (report : Option Word)
    (opens : Bool) (totalMem : UInt64) (memBin accBin : UInt32) (first : List Mcount.Output)
    (started : Mcount.step statics (.start report opens totalMem memBin accBin) =
      .ok (begun, first))
    (path : ',' ∉ reportName report) (events : List (Event n))
    (alone : Along step Alone (quiet n begun) events) (final : State n) (lines : List Line)
    (done : run step (quiet n begun) events = .ok (final, lines))
    (stopped : final.statics.cfg.report = none) :
    ∃ counted accCnt accIoCnt tail,
      lines = List.flatMap sectionLines counted ++ .tags [] :: .totals accCnt accIoCnt :: tail ∧
      document.read (first.flatMap mcountText ++ lines.flatMap lineText) =
        some ((⟨reportName report, totalMem, memBin, accBin, statics.ncores⟩, counted, [],
          accCnt, accIoCnt), []) := by
  obtain ⟨file, -, rfl, rfl⟩ :=
    Mcount.init_cases report opens totalMem memBin accBin statics begun first started
  have untagged := run_history_invariant step
    (fun state past => state.statics.tags = [] ∧ ∀ named, .tags named ∈ past → named = [])
    (fun state past event next emitted holds taken => by
      obtain ⟨same, printed⟩ := step_tags state next event emitted taken
      refine ⟨same.trans holds.1, fun named member => ?_⟩
      obtain early | late := List.mem_append.mp member
      · exact holds.2 named early
      · exact (printed named late).trans holds.1)
    (quiet n _) final [] events lines ⟨rfl, by simp⟩ done
  obtain ⟨accepted, complete⟩ := lines_accepted (quiet n _) final events lines alone
    (quiet_reporting _ (Option.some_ne_none file)) (quiet_reached _ (Option.some_ne_none file)) done
  obtain ⟨counted, named, accCnt, accIoCnt, tail, rfl, silent⟩ :=
    accepted_sections lines accepted (complete stopped)
  obtain rfl := untagged.2 named (by simp)
  refine ⟨counted, accCnt, accIoCnt, tail, rfl, ?_⟩
  have rest : List.flatMap lineText (.tags [] :: .totals accCnt accIoCnt :: tail) =
      tagsText [] ++ totalsText accCnt accIoCnt := by
    rw [List.flatMap_cons, List.flatMap_cons, silent, List.append_nil]
    rfl
  rw [List.flatMap_append, section_lines_text, rest, List.flatMap_singleton]
  exact document_reads report totalMem memBin accBin statics.ncores counted [] accCnt accIoCnt path
    (by simp)

theorem stopped_within_told : ∃ final lines,
    run step (quiet 2 everyAccess) stoppedWithin = .ok (final, lines) ∧
    ∃ counted accCnt accIoCnt tail,
      lines = List.flatMap sectionLines counted ++ .tags [] :: .totals accCnt accIoCnt :: tail ∧
      document.read (List.flatMap mcountText [.config none 0x2000000 0x1000000 1 2] ++
          lines.flatMap lineText) =
        some ((⟨"stdout".toList, 0x2000000, 0x1000000, 1, 2⟩, counted, [], accCnt, accIoCnt), []) := by
  refine ⟨_, _, rfl, ?_⟩
  exact concurrent_report_tells (Mcount.installed 2) everyAccess none true 0x2000000 0x1000000 1
    [.config none 0x2000000 0x1000000 1 2] rfl (by decide) stoppedWithin (by decide) _ _ rfl rfl

end

end Hypersh.Texts
