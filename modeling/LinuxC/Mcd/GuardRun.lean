import LinuxC.Mcd.Config
import LinuxC.Mcd.GuardConf
import LinuxC.Mcd.Guarding

/-!
# The start of the guard (`sample/mc-daemon/mc_guard.c`)

`mcd_guard_run` reads the file of the guarded programs and looks which of the programs run already:
`guard_scan` is called for each process and looks its name up, first in the table, which is sorted,
and then among the programs from the file, from the end of the list.  A program that is found for the
first time gets the pid and the state `RUN`.
-/

namespace LinuxC.Mcd.Guards

open GenericProc
open Clients (GuardState)

/-! ## The code -/

/-- `__mc_guard`. -/
def mcGuardTable : List McGuard :=
  [⟨false, asciiBytes "broker", asciiBytes "broker", none, 0, .new⟩,
    ⟨false, asciiBytes "ipc-sample", asciiBytes "ipc-sample server", none, 0, .new⟩]

def mcGuardSearch (guards : List McGuard) (name : List UInt8) : Option ℕ :=
  nameSearch (guards.map McGuard.name) name

/-- `guard_scan`, behind `found`. -/
def scanned (pid : ℤ) (g : McGuard) : McGuard :=
  if g.pid = 0 then { g with pid := pid, state := .run } else g

section Code

variable {W : Type} (host : Host W)

end Code

/-! ## What is attached -/

section Proofs

variable {n i : ℕ} {name : List UInt8} {pid : ℤ} {guards : List McGuard} {g : McGuard}

@[simp] lemma scanned_name : (scanned pid g).name = g.name := by
  unfold scanned
  split_ifs <;> rfl

@[simp] lemma scanned_dynamic : (scanned pid g).dynamic = g.dynamic := by
  unfold scanned
  split_ifs <;> rfl

end Proofs

end LinuxC.Mcd.Guards
