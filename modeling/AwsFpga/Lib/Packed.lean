import Mathlib.Data.BitVec
import Mathlib.Logic.Equiv.Defs

/-!
# Packed structs

The fields of a packed struct stand one behind the other in a bit vector. They are listed with the
most significant one first.
-/

namespace Lib.Packed

/-- A field: one bit, or a vector. -/
inductive Slot where
  | flag
  | bits (w : Nat)

namespace Slot

def width : Slot → Nat
  | flag => 1
  | bits w => w

def Value : Slot → Type
  | flag => Bool
  | bits w => BitVec w

def to_bits : (f : Slot) → f.Value → BitVec f.width
  | flag, b => BitVec.ofBool b
  | bits _, v => v

def of_bits : (f : Slot) → BitVec f.width → f.Value
  | flag, v => v.getLsbD 0
  | bits _, v => v

theorem of_bits_to_bits (f : Slot) (x : f.Value) : f.of_bits (f.to_bits x) = x := by
  cases f with
  | flag => cases x <;> rfl
  | bits w => rfl

theorem to_bits_of_bits (f : Slot) (v : BitVec f.width) : f.to_bits (f.of_bits v) = v := by
  cases f with
  | flag =>
    apply BitVec.eq_of_getLsbD_eq
    intro i hi
    have hzero : i = 0 := Nat.lt_one_iff.mp hi
    subst hzero
    exact BitVec.getLsbD_ofBool _ _ |>.trans (by simp [of_bits])
  | bits w => rfl

end Slot

def width : List Slot → Nat
  | [] => 0
  | f :: fs => f.width + width fs

def Fields : List Slot → Type
  | [] => Unit
  | f :: fs => f.Value × Fields fs

def pack : (fs : List Slot) → Fields fs → BitVec (width fs)
  | [], _ => 0#0
  | f :: fs, x => f.to_bits x.1 ++ pack fs x.2

def unpack : (fs : List Slot) → BitVec (width fs) → Fields fs
  | [], _ => ()
  | f :: fs, b =>
    (f.of_bits (b.extractLsb' (width fs) f.width), unpack fs (b.extractLsb' 0 (width fs)))

theorem unpack_pack (fs : List Slot) (x : Fields fs) : unpack fs (pack fs x) = x := by
  induction fs with
  | nil => rfl
  | cons f fs ih =>
    have hhigh : (f.to_bits x.1 ++ pack fs x.2).extractLsb' (width fs) f.width = f.to_bits x.1 :=
      BitVec.extractLsb'_append_eq_left
    have hlow : (f.to_bits x.1 ++ pack fs x.2).extractLsb' 0 (width fs) = pack fs x.2 :=
      BitVec.extractLsb'_append_eq_right
    change (f.of_bits ((f.to_bits x.1 ++ pack fs x.2).extractLsb' (width fs) f.width),
      unpack fs ((f.to_bits x.1 ++ pack fs x.2).extractLsb' 0 (width fs))) = x
    rw [hhigh, hlow, ih, f.of_bits_to_bits]
    rfl

theorem pack_unpack (fs : List Slot) (b : BitVec (width fs)) : pack fs (unpack fs b) = b := by
  induction fs with
  | nil => exact (BitVec.eq_nil b).symm
  | cons f fs ih =>
    change f.to_bits (f.of_bits (b.extractLsb' (width fs) f.width)) ++
      pack fs (unpack fs (b.extractLsb' 0 (width fs))) = b
    rw [ih, f.to_bits_of_bits]
    exact BitVec.extractLsb'_append_extractLsb'

/-- A packed struct is its bits. -/
def packed (fs : List Slot) : Fields fs ≃ BitVec (width fs) where
  toFun := pack fs
  invFun := unpack fs
  left_inv := unpack_pack fs
  right_inv := pack_unpack fs

end Lib.Packed
