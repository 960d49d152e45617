import Mathlib.Algebra.Group.Nat.Defs
import Mathlib.Data.List.Basic
import Hypersh.Transduction
import Hypersh.Getopt
import Hypersh.Numerals
import Hypersh.Commands
import Hypersh.Mcount
import Hypersh.Pmem

/-!
Bin sizes and intervals from the text of an option to the division that uses them:
a signed 64-bit number, for mcount's bins shifted by 20, cut to 32 bits.
-/
namespace Hypersh.Divisors
open Getopt Numerals Commands Transduction

def ask (letter : Char) (asked : Int) : Found → Int
  | .value option optarg => if option = letter then strtol optarg else asked
  | _ => asked

theorem report_cfg (statics next : Mcount.Statics) (lines : List Mcount.Output)
    (done : Mcount.reportCounts statics = .ok (next, lines)) : next.cfg = statics.cfg := by
  obtain ⟨_, _, _, _, -, -, rfl, -⟩ := Mcount.report_cases statics next lines done
  rfl

theorem count_cfg (cpuId : Nat) (access : Mcount.Access) (statics next : Mcount.Statics)
    (done : Mcount.countAccess cpuId access statics = .ok next) : next.cfg = statics.cfg := by
  rcases Mcount.count_cases cpuId access statics next done with
    ⟨-, rfl⟩ | ⟨-, -, _, -, rfl⟩ | ⟨-, -, _, -, rfl⟩
  all_goals rfl

theorem cb_cfg (cpuId : Nat) (access : Mcount.Access) (statics next : Mcount.Statics)
    (lines : List Mcount.Output)
    (done : Mcount.hypercallMcountCb cpuId access statics = .ok (next, lines)) :
    next.cfg = statics.cfg := by
  rcases Mcount.cb_cases cpuId access statics next lines done with
    ⟨-, rfl, -⟩ | ⟨reported, ⟨rfl, -⟩ | report, counted⟩
  · rfl
  · have kept := count_cfg cpuId access _ next counted
    exact kept
  · have kept := report_cfg _ reported lines report
    exact (count_cfg cpuId access reported next counted).trans kept

theorem pmem_cb_kept (cpuId : Nat) (access : Pmem.Access) (statics next : Pmem.Statics)
    (lines : List Pmem.Output)
    (done : Pmem.hypercallPmemCb cpuId access statics = .ok (next, lines)) :
    next.pmemInt = statics.pmemInt ∧ next.pmemFile = statics.pmemFile ∧
      next.mode = statics.mode := by
  unfold Pmem.hypercallPmemCb at done
  split at done
  · cases done
    exact ⟨rfl, rfl, rfl⟩
  · split at done
    · contradiction
    · dsimp only at done
      split at done
      · split at done
        · contradiction
        · cases done
          exact ⟨rfl, rfl, rfl⟩
      · cases done
        exact ⟨rfl, rfl, rfl⟩

end Hypersh.Divisors
