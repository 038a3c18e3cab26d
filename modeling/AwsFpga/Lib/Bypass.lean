import Mathlib.Logic.Function.Basic

/-!
# A memory whose writes take two cycles

A value that is found in one cycle is in a register in the next one, and then in the memory. Who
reads sees the writes that are on their way, the newest one first.
-/

namespace Lib

variable {α β : Type}

structure Bypass (α β : Type) where
  ram : α → β
  /-- The write that goes to the memory in this cycle. -/
  wr : Option (α × β)
  /-- What the last read found: in the memory, and in the two writes on their way. -/
  rd_ram : β
  col_pre : Option β
  col : Option β

namespace Bypass

variable [DecidableEq α] (now : Option (α × β)) (rd : α) (b : Bypass α β)

/-- A write to the address that is read. -/
def hit (wr : Option (α × β)) (a : α) : Option β :=
  wr.bind fun w => if w.1 = a then some w.2 else none

/-- One cycle, with the write `now` found and the address `rd` read. -/
def step : Bypass α β where
  ram := match b.wr with
    | some w => Function.update b.ram w.1 w.2
    | none => b.ram
  wr := now
  rd_ram := b.ram rd
  col_pre := hit now rd
  col := hit b.wr rd

def read : β := b.col_pre.getD (b.col.getD b.rd_ram)

/-- What was written last. -/
def latest (a : α) : β := (hit now a).getD ((hit b.wr a).getD (b.ram a))

variable {now rd b}

theorem hit_none {wr : Option (α × β)} {a : α} (h : ∀ w ∈ wr, w.1 ≠ a) : hit wr a = none := by
  cases wr with
  | none => rfl
  | some w => exact if_neg (h w rfl)

@[simp] theorem hit_some (a : α) (v : β) : hit (some (a, v)) a = some v := if_pos rfl

theorem read_step : (step now rd b).read = latest now b rd := rfl

theorem latest_some (a : α) (v : β) : latest (some (a, v)) b a = v := by
  rw [latest, hit_some, Option.getD_some]

theorem latest_step {now' : Option (α × β)} {a : α} (h : ∀ w ∈ now', w.1 ≠ a) :
    latest now' (step now rd b) a = latest now b a := by
  have hram : (step now rd b).ram a = (hit b.wr a).getD (b.ram a) := by
    unfold step hit
    cases b.wr with
    | none => rfl
    | some w =>
      dsimp only [Option.bind_some]
      by_cases heq : w.1 = a
      · rw [if_pos heq, ← heq, Function.update_self, Option.getD_some]
      · rw [if_neg heq, Function.update_of_ne (Ne.symm heq), Option.getD_none]
  rw [latest, hit_none h, Option.getD_none, hram]
  rfl

end Bypass

end Lib
