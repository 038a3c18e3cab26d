import AwsFpga.Lib.Packed
import AwsFpga.Rtl.SdeDesc

/-!
# The bits of a descriptor (`sde_desc.sv`, `sde_pkg.sv`)

The conversions take a bus and give a bus: they assign it to a packed struct, copy fields and assign
the struct that they have filled. The tables of `sde_pkg.sv` say at which bits a field is.
-/

open Lib Lib.Packed

namespace AwsFpga.Rtl

/-! ## The packed structs -/

def c2h_reg_desc_t : C2hRegDesc ≃ BitVec 128 :=
  Equiv.trans
    { toFun := fun d => (d.rsvd, d.dest_addr, d.len, ())
      invFun := fun f => ⟨f.1, f.2.1, f.2.2.1⟩
      left_inv := fun _ => rfl
      right_inv := fun _ => rfl }
    (packed [.bits 32, .bits 64, .bits 32])

def c2h_reg_sav_desc_t : C2hRegSavDesc ≃ BitVec 96 :=
  Equiv.trans
    { toFun := fun d => (d.dest_addr, d.len, ())
      invFun := fun f => ⟨f.1, f.2.1⟩
      left_inv := fun _ => rfl
      right_inv := fun _ => rfl }
    (packed [.bits 64, .bits 32])

def c2h_comp_desc_t : C2hCompDesc ≃ BitVec 128 :=
  Equiv.trans
    { toFun := fun d => (d.rsvd, d.dest_addr, d.len, ())
      invFun := fun f => ⟨f.1, f.2.1, f.2.2.1⟩
      left_inv := fun _ => rfl
      right_inv := fun _ => rfl }
    (packed [.bits 48, .bits 48, .bits 32])

def c2h_comp_sav_desc_t : C2hCompSavDesc ≃ BitVec 80 :=
  Equiv.trans
    { toFun := fun d => (d.dest_addr, d.len, ())
      invFun := fun f => ⟨f.1, f.2.1⟩
      left_inv := fun _ => rfl
      right_inv := fun _ => rfl }
    (packed [.bits 48, .bits 32])

def h2c_reg_desc_t : H2cRegDesc ≃ BitVec 256 :=
  Equiv.trans
    { toFun := fun d => (d.user, d.rsvd, d.spb, d.eop, d.src_addr, d.len, ())
      invFun := fun f => ⟨f.1, f.2.1, f.2.2.1, f.2.2.2.1, f.2.2.2.2.1, f.2.2.2.2.2.1⟩
      left_inv := fun _ => rfl
      right_inv := fun _ => rfl }
    (packed [.bits 64, .bits 94, .flag, .flag, .bits 64, .bits 32])

def h2c_reg_sav_desc_t : H2cRegSavDesc ≃ BitVec 162 :=
  Equiv.trans
    { toFun := fun d => (d.user, d.spb, d.eop, d.src_addr, d.len, ())
      invFun := fun f => ⟨f.1, f.2.1, f.2.2.1, f.2.2.2.1, f.2.2.2.2.1⟩
      left_inv := fun _ => rfl
      right_inv := fun _ => rfl }
    (packed [.bits 64, .flag, .flag, .bits 64, .bits 32])

def h2c_comp_desc_t : H2cCompDesc ≃ BitVec 128 :=
  Equiv.trans
    { toFun := fun d => (d.rsvd, d.spb, d.eop, d.src_addr, d.len, ())
      invFun := fun f => ⟨f.1, f.2.1, f.2.2.1, f.2.2.2.1, f.2.2.2.2.1⟩
      left_inv := fun _ => rfl
      right_inv := fun _ => rfl }
    (packed [.bits 46, .flag, .flag, .bits 48, .bits 32])

def h2c_comp_sav_desc_t : H2cCompSavDesc ≃ BitVec 82 :=
  Equiv.trans
    { toFun := fun d => (d.spb, d.eop, d.src_addr, d.len, ())
      invFun := fun f => ⟨f.1, f.2.1, f.2.2.1, f.2.2.2.1⟩
      left_inv := fun _ => rfl
      right_inv := fun _ => rfl }
    (packed [.flag, .flag, .bits 48, .bits 32])

/-! ## The conversions -/

/-- The widths of the structs of a format, and their bits. -/
structure DescBits (f : DescFormat) where
  desc_width : Nat
  sav_width : Nat
  desc : f.Desc ≃ BitVec desc_width
  sav : f.Sav ≃ BitVec sav_width

def c2h_reg_bits : DescBits c2h_reg := ⟨128, 96, c2h_reg_desc_t, c2h_reg_sav_desc_t⟩

def c2h_comp_bits : DescBits c2h_comp := ⟨128, 80, c2h_comp_desc_t, c2h_comp_sav_desc_t⟩

def h2c_reg_bits : DescBits h2c_reg := ⟨256, 162, h2c_reg_desc_t, h2c_reg_sav_desc_t⟩

def h2c_comp_bits : DescBits h2c_comp := ⟨128, 82, h2c_comp_desc_t, h2c_comp_sav_desc_t⟩

namespace DescBits

variable {f : DescFormat} (k : DescBits f) {DESC_WIDTH DESC_RAM_WIDTH : Nat}

def cnv_desc_to_sav (in_desc : BitVec DESC_WIDTH) : BitVec DESC_RAM_WIDTH :=
  (k.sav (f.cnv_desc_to_sav (k.desc.symm (in_desc.setWidth k.desc_width)))).setWidth DESC_RAM_WIDTH

def cnv_desc_from_sav (in_desc : BitVec DESC_RAM_WIDTH) : BitVec DESC_WIDTH :=
  (k.desc (f.cnv_desc_from_sav (k.sav.symm (in_desc.setWidth k.sav_width)))).setWidth DESC_WIDTH

def cnv_desc_to_comm (in_desc : BitVec DESC_WIDTH) : CommDesc :=
  f.cnv_desc_to_comm (k.desc.symm (in_desc.setWidth k.desc_width))

theorem from_sav_to_sav (b : BitVec k.desc_width) :
    k.cnv_desc_from_sav (k.cnv_desc_to_sav b : BitVec k.sav_width) =
      k.desc (f.cnv_desc_from_sav (f.cnv_desc_to_sav (k.desc.symm b))) := by
  unfold cnv_desc_from_sav cnv_desc_to_sav
  simp

theorem to_comm_from_sav (b : BitVec k.desc_width) :
    k.cnv_desc_to_comm (k.cnv_desc_from_sav (k.cnv_desc_to_sav b : BitVec k.sav_width) :
      BitVec k.desc_width) = f.cnv_desc_to_comm (k.desc.symm b) := by
  rw [from_sav_to_sav, cnv_desc_to_comm, BitVec.setWidth_eq, Equiv.symm_apply_apply]
  exact f.kept _

end DescBits

section Conversions

variable {DESC_WIDTH DESC_RAM_WIDTH : Nat}

def h2c_cnv_desc_reg2sav : BitVec DESC_WIDTH → BitVec DESC_RAM_WIDTH := h2c_reg_bits.cnv_desc_to_sav

def c2h_cnv_desc_reg2sav : BitVec DESC_WIDTH → BitVec DESC_RAM_WIDTH := c2h_reg_bits.cnv_desc_to_sav

def h2c_cnv_desc_sav2reg : BitVec DESC_RAM_WIDTH → BitVec DESC_WIDTH := h2c_reg_bits.cnv_desc_from_sav

def c2h_cnv_desc_sav2reg : BitVec DESC_RAM_WIDTH → BitVec DESC_WIDTH := c2h_reg_bits.cnv_desc_from_sav

def h2c_cnv_desc_comp2sav : BitVec DESC_WIDTH → BitVec DESC_RAM_WIDTH := h2c_comp_bits.cnv_desc_to_sav

def c2h_cnv_desc_comp2sav : BitVec DESC_WIDTH → BitVec DESC_RAM_WIDTH := c2h_comp_bits.cnv_desc_to_sav

def h2c_cnv_desc_sav2comp : BitVec DESC_RAM_WIDTH → BitVec DESC_WIDTH :=
  h2c_comp_bits.cnv_desc_from_sav

def c2h_cnv_desc_sav2comp : BitVec DESC_RAM_WIDTH → BitVec DESC_WIDTH :=
  c2h_comp_bits.cnv_desc_from_sav

def c2h_cnv_desc_reg2comm : BitVec DESC_WIDTH → CommDesc := c2h_reg_bits.cnv_desc_to_comm

def c2h_cnv_desc_comp2comm : BitVec DESC_WIDTH → CommDesc := c2h_comp_bits.cnv_desc_to_comm

def h2c_cnv_desc_reg2comm : BitVec DESC_WIDTH → CommDesc := h2c_reg_bits.cnv_desc_to_comm

def h2c_cnv_desc_comp2comm : BitVec DESC_WIDTH → CommDesc := h2c_comp_bits.cnv_desc_to_comm

end Conversions

/-! ## The block with its parameters -/

/-- The parameters `H2C_N_C2H` and `DESC_TYPE`. -/
structure DescKind where
  H2C_N_C2H : Bool
  DESC_TYPE : Bool
  deriving DecidableEq

namespace DescKind

variable (k : DescKind)

/-- `C2H_DESC_WIDTH` and `H2C_DESC_WIDTH` of `sde.sv`. -/
def DESC_WIDTH : Nat := if k.H2C_N_C2H then if k.DESC_TYPE then 128 else 256 else 128

def DESC_RAM_WIDTH : Nat :=
  if !k.DESC_TYPE && k.H2C_N_C2H then h2c_reg_bits.sav_width
  else if k.DESC_TYPE && k.H2C_N_C2H then h2c_comp_bits.sav_width
  else if !k.DESC_TYPE && !k.H2C_N_C2H then c2h_reg_bits.sav_width
  else c2h_comp_bits.sav_width

/-- What goes to the descriptor RAM. -/
def ps_desc_wdata_q (ps_desc_wdata : BitVec k.DESC_WIDTH) : BitVec k.DESC_RAM_WIDTH :=
  if !k.DESC_TYPE && k.H2C_N_C2H then h2c_cnv_desc_reg2sav ps_desc_wdata
  else if k.DESC_TYPE && k.H2C_N_C2H then h2c_cnv_desc_comp2sav ps_desc_wdata
  else if !k.DESC_TYPE && !k.H2C_N_C2H then c2h_cnv_desc_reg2sav ps_desc_wdata
  else if k.DESC_TYPE && !k.H2C_N_C2H then c2h_cnv_desc_comp2sav ps_desc_wdata
  else ps_desc_wdata.setWidth k.DESC_RAM_WIDTH

def desc_dm_desc_ff_out_from_sav (desc_dm_desc_ff_out : BitVec k.DESC_RAM_WIDTH) :
    BitVec k.DESC_WIDTH :=
  if !k.DESC_TYPE && k.H2C_N_C2H then h2c_cnv_desc_sav2reg desc_dm_desc_ff_out
  else if k.DESC_TYPE && k.H2C_N_C2H then h2c_cnv_desc_sav2comp desc_dm_desc_ff_out
  else if !k.DESC_TYPE && !k.H2C_N_C2H then c2h_cnv_desc_sav2reg desc_dm_desc_ff_out
  else if k.DESC_TYPE && !k.H2C_N_C2H then c2h_cnv_desc_sav2comp desc_dm_desc_ff_out
  else desc_dm_desc_ff_out.setWidth k.DESC_WIDTH

def desc_dm_desc (desc_dm_desc_ff_out : BitVec k.DESC_RAM_WIDTH) : CommDesc :=
  if !k.DESC_TYPE && k.H2C_N_C2H then
    h2c_cnv_desc_reg2comm (k.desc_dm_desc_ff_out_from_sav desc_dm_desc_ff_out)
  else if k.DESC_TYPE && k.H2C_N_C2H then
    h2c_cnv_desc_comp2comm (k.desc_dm_desc_ff_out_from_sav desc_dm_desc_ff_out)
  else if !k.DESC_TYPE && !k.H2C_N_C2H then
    c2h_cnv_desc_reg2comm (k.desc_dm_desc_ff_out_from_sav desc_dm_desc_ff_out)
  else c2h_cnv_desc_comp2comm (k.desc_dm_desc_ff_out_from_sav desc_dm_desc_ff_out)

end DescKind

/-! ## The tables of `sde_pkg.sv` -/

/-- The rows of the tables, apart from the reserved bits. -/
inductive DescField where
  | length
  | physical_address
  | eop
  | src
  | user_bits
  deriving DecidableEq

/-- High bit and low bit of a field, where the format has it. -/
def documented (k : DescKind) : DescField → Option (Nat × Nat)
  | .length => some (31, 0)
  | .physical_address => if k.DESC_TYPE then some (79, 32) else some (95, 32)
  | .eop => if k.H2C_N_C2H then if k.DESC_TYPE then some (80, 80) else some (96, 96) else none
  | .src => if k.H2C_N_C2H then if k.DESC_TYPE then some (81, 81) else some (97, 97) else none
  | .user_bits =>
    if k.H2C_N_C2H then if k.DESC_TYPE then some (127, 82) else some (255, 192) else none

/-- The rows that the structs have too. Where the table has the user bits of the compact H2C format,
`h2c_comp_desc_t` is reserved. -/
def in_format (k : DescKind) (field : DescField) : Option (Nat × Nat) :=
  if k.H2C_N_C2H && k.DESC_TYPE && field = .user_bits then none else documented k field

/-- What a field of a descriptor is, by a table. -/
def desc_field (k : DescKind) (table : DescField → Option (Nat × Nat)) (desc : BitVec k.DESC_WIDTH)
    (field : DescField) : Option Nat :=
  (table field).map fun row => (desc.extractLsb' row.2 (row.1 + 1 - row.2)).toNat

def comm_field (desc : CommDesc) : DescField → Nat
  | .length => desc.len.toNat
  | .physical_address => if desc.h2c then desc.src_addr.toNat else desc.dest_addr.toNat
  | .eop => desc.eop.toNat
  | .src => desc.spb.toNat
  | .user_bits => desc.user.toNat

/-- A descriptor comes back from its saved form with all its fields, and the common form has them. -/
structure FieldsKept (k : DescKind) (table : DescField → Option (Nat × Nat))
    (desc : BitVec k.DESC_WIDTH) : Prop where
  back : ∀ field, desc_field k table (k.desc_dm_desc_ff_out_from_sav (k.ps_desc_wdata_q desc)) field =
    desc_field k table desc field
  common : ∀ field v, desc_field k table desc field = some v →
    comm_field (k.desc_dm_desc (k.ps_desc_wdata_q desc)) field = v

/-- Two descriptors with different fields are saved differently. -/
def SavedApart (k : DescKind) (table : DescField → Option (Nat × Nat))
    (desc desc' : BitVec k.DESC_WIDTH) : Prop :=
  (∃ field, desc_field k table desc field ≠ desc_field k table desc' field) →
    k.ps_desc_wdata_q desc ≠ k.ps_desc_wdata_q desc'

theorem saved_apart {k : DescKind} {table : DescField → Option (Nat × Nat)}
    {desc desc' : BitVec k.DESC_WIDTH} (h : FieldsKept k table desc)
    (h' : FieldsKept k table desc') : SavedApart k table desc desc' := by
  rintro ⟨field, hne⟩ heq
  apply hne
  rw [← h.back field, ← h'.back field, heq]

theorem in_format_eq {k : DescKind} (hk : ¬(k.H2C_N_C2H = true ∧ k.DESC_TYPE = true)) :
    in_format k = documented k := by
  funext field
  refine if_neg fun hc => hk ?_
  rw [Bool.and_eq_true, Bool.and_eq_true] at hc
  exact hc.1

theorem desc_field_in_format {k : DescKind} {field : DescField} (hfield : field ≠ .user_bits)
    (desc : BitVec k.DESC_WIDTH) :
    desc_field k (in_format k) desc field = desc_field k (documented k) desc field := by
  have hrow : in_format k field = documented k field := if_neg (by simp [hfield])
  rw [desc_field, desc_field, hrow]

/-! ## The four formats -/

namespace DescBits

variable {f : DescFormat} {k : DescBits f} {get : BitVec k.desc_width → DescField → Option Nat}
  {fields : f.Desc → DescField → Option Nat}

theorem back_of (hget : ∀ b field, get b field = fields (k.desc.symm b) field) {field : DescField}
    (hsaved : ∀ d, fields (f.cnv_desc_from_sav (f.cnv_desc_to_sav d)) field = fields d field)
    (b : BitVec k.desc_width) :
    get (k.cnv_desc_from_sav (k.cnv_desc_to_sav b : BitVec k.sav_width)) field = get b field := by
  rw [from_sav_to_sav, hget, hget, Equiv.symm_apply_apply, hsaved]

theorem common_of (hget : ∀ b field, get b field = fields (k.desc.symm b) field)
    {field : DescField}
    (hcomm : ∀ d v, fields d field = some v → comm_field (f.cnv_desc_to_comm d) field = v)
    (b : BitVec k.desc_width) (v : Nat) (hv : get b field = some v) :
    comm_field (k.cnv_desc_to_comm (k.cnv_desc_from_sav (k.cnv_desc_to_sav b :
      BitVec k.sav_width) : BitVec k.desc_width)) field = v := by
  rw [to_comm_from_sav]
  rw [hget] at hv
  exact hcomm _ v hv

end DescBits

def c2h_reg_fields (d : C2hRegDesc) : DescField → Option Nat
  | .length => some d.len.toNat
  | .physical_address => some d.dest_addr.toNat
  | _ => none

def c2h_comp_fields (d : C2hCompDesc) : DescField → Option Nat
  | .length => some d.len.toNat
  | .physical_address => some d.dest_addr.toNat
  | _ => none

def h2c_reg_fields (d : H2cRegDesc) : DescField → Option Nat
  | .length => some d.len.toNat
  | .physical_address => some d.src_addr.toNat
  | .eop => some d.eop.toNat
  | .src => some d.spb.toNat
  | .user_bits => some d.user.toNat

/-- What the table calls user bits is reserved in the struct. -/
def h2c_comp_fields (d : H2cCompDesc) : DescField → Option Nat
  | .length => some d.len.toNat
  | .physical_address => some d.src_addr.toNat
  | .eop => some d.eop.toNat
  | .src => some d.spb.toNat
  | .user_bits => some d.rsvd.toNat

/-! Where the fields of a struct are. -/

theorem c2h_reg_symm (b : BitVec 128) :
    c2h_reg_desc_t.symm b = ⟨b.extractLsb' 96 32, b.extractLsb' 32 64, b.extractLsb' 0 32⟩ := by
  change C2hRegDesc.mk (b.extractLsb' 96 32) ((b.extractLsb' 0 96).extractLsb' 32 64)
    (((b.extractLsb' 0 96).extractLsb' 0 32).extractLsb' 0 32) = _
  simp [BitVec.extractLsb'_extractLsb'_of_le]

theorem c2h_comp_symm (b : BitVec 128) :
    c2h_comp_desc_t.symm b = ⟨b.extractLsb' 80 48, b.extractLsb' 32 48, b.extractLsb' 0 32⟩ := by
  change C2hCompDesc.mk (b.extractLsb' 80 48) ((b.extractLsb' 0 80).extractLsb' 32 48)
    (((b.extractLsb' 0 80).extractLsb' 0 32).extractLsb' 0 32) = _
  simp [BitVec.extractLsb'_extractLsb'_of_le]

theorem h2c_reg_symm (b : BitVec 256) :
    h2c_reg_desc_t.symm b = ⟨b.extractLsb' 192 64, b.extractLsb' 98 94,
      (b.extractLsb' 97 1).getLsbD 0, (b.extractLsb' 96 1).getLsbD 0, b.extractLsb' 32 64,
      b.extractLsb' 0 32⟩ := by
  change H2cRegDesc.mk (b.extractLsb' 192 64) ((b.extractLsb' 0 192).extractLsb' 98 94)
    ((((b.extractLsb' 0 192).extractLsb' 0 98).extractLsb' 97 1).getLsbD 0)
    (((((b.extractLsb' 0 192).extractLsb' 0 98).extractLsb' 0 97).extractLsb' 96 1).getLsbD 0)
    (((((b.extractLsb' 0 192).extractLsb' 0 98).extractLsb' 0 97).extractLsb' 0 96).extractLsb' 32 64)
    ((((((b.extractLsb' 0 192).extractLsb' 0 98).extractLsb' 0 97).extractLsb' 0 96).extractLsb'
      0 32).extractLsb' 0 32) = _
  simp [BitVec.extractLsb'_extractLsb'_of_le]

theorem h2c_comp_symm (b : BitVec 128) :
    h2c_comp_desc_t.symm b = ⟨b.extractLsb' 82 46, (b.extractLsb' 81 1).getLsbD 0,
      (b.extractLsb' 80 1).getLsbD 0, b.extractLsb' 32 48, b.extractLsb' 0 32⟩ := by
  change H2cCompDesc.mk (b.extractLsb' 82 46)
    (((b.extractLsb' 0 82).extractLsb' 81 1).getLsbD 0)
    ((((b.extractLsb' 0 82).extractLsb' 0 81).extractLsb' 80 1).getLsbD 0)
    ((((b.extractLsb' 0 82).extractLsb' 0 81).extractLsb' 0 80).extractLsb' 32 48)
    (((((b.extractLsb' 0 82).extractLsb' 0 81).extractLsb' 0 80).extractLsb' 0 32).extractLsb'
      0 32) = _
  simp [BitVec.extractLsb'_extractLsb'_of_le]

theorem flag_toNat (v : BitVec 1) : v.toNat = (v.getLsbD 0).toNat := by
  have hlt := v.isLt
  have hbit : v.toNat = 0 ∨ v.toNat = 1 := by omega
  unfold BitVec.getLsbD
  rcases hbit with h | h <;> simp [h]

theorem c2h_reg_get (b : BitVec 128) (field : DescField) :
    desc_field ⟨false, false⟩ (documented ⟨false, false⟩) b field = c2h_reg_fields (c2h_reg_desc_t.symm b) field := by
  rw [c2h_reg_symm]
  cases field <;> rfl

theorem c2h_comp_get (b : BitVec 128) (field : DescField) :
    desc_field ⟨false, true⟩ (documented ⟨false, true⟩) b field = c2h_comp_fields (c2h_comp_desc_t.symm b) field := by
  rw [c2h_comp_symm]
  cases field <;> rfl

theorem h2c_reg_get (b : BitVec 256) (field : DescField) :
    desc_field ⟨true, false⟩ (documented ⟨true, false⟩) b field = h2c_reg_fields (h2c_reg_desc_t.symm b) field := by
  rw [h2c_reg_symm]
  cases field with
  | eop => exact congrArg some (flag_toNat _)
  | src => exact congrArg some (flag_toNat _)
  | length => rfl
  | physical_address => rfl
  | user_bits => rfl

theorem h2c_comp_get (b : BitVec 128) (field : DescField) :
    desc_field ⟨true, true⟩ (documented ⟨true, true⟩) b field = h2c_comp_fields (h2c_comp_desc_t.symm b) field := by
  rw [h2c_comp_symm]
  cases field with
  | eop => exact congrArg some (flag_toNat _)
  | src => exact congrArg some (flag_toNat _)
  | length => rfl
  | physical_address => rfl
  | user_bits => rfl

/-! What the conversions to the common form do with the fields. -/

theorem c2h_reg_comm (field : DescField) (d : C2hRegDesc) (v : Nat)
    (h : c2h_reg_fields d field = some v) : comm_field (c2h_reg.cnv_desc_to_comm d) field = v := by
  cases field <;> simp [c2h_reg_fields] at h <;> exact h

theorem c2h_comp_comm (field : DescField) (d : C2hCompDesc) (v : Nat)
    (h : c2h_comp_fields d field = some v) : comm_field (c2h_comp.cnv_desc_to_comm d) field = v := by
  cases field <;> simp [c2h_comp_fields] at h
  case length => exact h
  case physical_address =>
    rw [← h]
    exact BitVec.toNat_setWidth_of_le (by decide)

theorem h2c_reg_comm (field : DescField) (d : H2cRegDesc) (v : Nat)
    (h : h2c_reg_fields d field = some v) : comm_field (h2c_reg.cnv_desc_to_comm d) field = v := by
  cases field <;> simp [h2c_reg_fields] at h <;> exact h

/-- The common form of the compact format has no user bits. -/
theorem h2c_comp_comm (field : DescField) (d : H2cCompDesc) (v : Nat)
    (h : h2c_comp_fields d field = some v) :
    comm_field (h2c_comp.cnv_desc_to_comm d) field = if field = .user_bits then 0 else v := by
  cases field <;> simp [h2c_comp_fields] at h
  case physical_address =>
    rw [← h]
    exact BitVec.toNat_setWidth_of_le (by decide)
  case user_bits => rfl
  all_goals exact h

theorem c2h_reg_kept (b : BitVec 128) : FieldsKept ⟨false, false⟩ (documented ⟨false, false⟩) b where
  back _ := DescBits.back_of (k := c2h_reg_bits) c2h_reg_get (fun _ => rfl) b
  common field := DescBits.common_of (k := c2h_reg_bits) c2h_reg_get (c2h_reg_comm field) b

theorem c2h_comp_kept (b : BitVec 128) : FieldsKept ⟨false, true⟩ (documented ⟨false, true⟩) b where
  back _ := DescBits.back_of (k := c2h_comp_bits) c2h_comp_get (fun _ => rfl) b
  common field := DescBits.common_of (k := c2h_comp_bits) c2h_comp_get (c2h_comp_comm field) b

theorem h2c_reg_kept (b : BitVec 256) : FieldsKept ⟨true, false⟩ (documented ⟨true, false⟩) b where
  back _ := DescBits.back_of (k := h2c_reg_bits) h2c_reg_get (fun _ => rfl) b
  common field := DescBits.common_of (k := h2c_reg_bits) h2c_reg_get (h2c_reg_comm field) b

theorem h2c_comp_user_back (b : BitVec 128) :
    desc_field ⟨true, true⟩ (documented ⟨true, true⟩)
      (DescKind.desc_dm_desc_ff_out_from_sav ⟨true, true⟩ (DescKind.ps_desc_wdata_q ⟨true, true⟩ b))
      .user_bits = some 0 := by
  refine (congrArg (desc_field ⟨true, true⟩ (documented ⟨true, true⟩) · .user_bits)
    (h2c_comp_bits.from_sav_to_sav b)).trans ?_
  refine (h2c_comp_get _ _).trans ?_
  exact congrArg (h2c_comp_fields · .user_bits) (h2c_comp_desc_t.symm_apply_apply _)

theorem h2c_comp_back (b : BitVec 128) {field : DescField} (hfield : field ≠ .user_bits) :
    desc_field ⟨true, true⟩ (documented ⟨true, true⟩)
      (DescKind.desc_dm_desc_ff_out_from_sav ⟨true, true⟩ (DescKind.ps_desc_wdata_q ⟨true, true⟩ b))
      field = desc_field ⟨true, true⟩ (documented ⟨true, true⟩) b field := by
  refine DescBits.back_of (k := h2c_comp_bits) h2c_comp_get (fun d => ?_) b
  cases field <;> first | rfl | exact absurd rfl hfield

theorem h2c_comp_common (b : BitVec 128) {field : DescField} {v : Nat}
    (hv : desc_field ⟨true, true⟩ (documented ⟨true, true⟩) b field = some v) :
    comm_field (DescKind.desc_dm_desc ⟨true, true⟩ (DescKind.ps_desc_wdata_q ⟨true, true⟩ b)) field =
      if field = .user_bits then 0 else v :=
  (congrArg (comm_field · field) (h2c_comp_bits.to_comm_from_sav b)).trans
    (h2c_comp_comm field _ v ((h2c_comp_get b field).symm.trans hv))

theorem h2c_comp_kept_iff (b : BitVec 128) :
    FieldsKept ⟨true, true⟩ (documented ⟨true, true⟩) b ↔
      desc_field ⟨true, true⟩ (documented ⟨true, true⟩) b .user_bits = some 0 := by
  constructor
  · intro h
    exact (h.back .user_bits).symm.trans (h2c_comp_user_back b)
  · intro huser
    refine ⟨fun field => ?_, fun field v hv => (h2c_comp_common b hv).trans ?_⟩
    · by_cases hfield : field = .user_bits
      · rw [hfield, huser]
        exact h2c_comp_user_back b
      · exact h2c_comp_back b hfield
    · split
      case isTrue hfield =>
        rw [hfield, huser] at hv
        exact Option.some.inj hv
      case isFalse => rfl

theorem h2c_comp_kept (b : BitVec 128) :
    FieldsKept ⟨true, true⟩ (in_format ⟨true, true⟩) b where
  back field := by
    by_cases hfield : field = .user_bits
    · rw [hfield]
      rfl
    · exact (desc_field_in_format (k := ⟨true, true⟩) hfield _).trans
        ((h2c_comp_back b hfield).trans (desc_field_in_format (k := ⟨true, true⟩) hfield b).symm)
  common field v hv := by
    by_cases hfield : field = .user_bits
    · rw [hfield] at hv
      cases hv
    · have hv' := (desc_field_in_format (k := ⟨true, true⟩) hfield b).symm.trans hv
      exact (h2c_comp_common b hv').trans (if_neg hfield)

/-! ## All formats -/

theorem fields_kept (k : DescKind) (desc : BitVec k.DESC_WIDTH) : FieldsKept k (in_format k) desc := by
  obtain ⟨h2c, compact⟩ := k
  cases h2c with
  | false =>
    rw [in_format_eq (by simp)]
    cases compact with
    | false => exact c2h_reg_kept desc
    | true => exact c2h_comp_kept desc
  | true =>
    cases compact with
    | false =>
      rw [in_format_eq (by simp)]
      exact h2c_reg_kept desc
    | true => exact h2c_comp_kept desc

/-- All fields of the structs survive the saved form. -/
theorem desc_fields_kept (k : DescKind) (desc desc' : BitVec k.DESC_WIDTH) :
    FieldsKept k (in_format k) desc ∧ SavedApart k (in_format k) desc desc' :=
  ⟨fields_kept k desc, saved_apart (fields_kept k desc) (fields_kept k desc')⟩

theorem desc_fields_kept_iff (k : DescKind) (desc desc' : BitVec k.DESC_WIDTH) :
    (FieldsKept k (documented k) desc ∧ FieldsKept k (documented k) desc' ∧
      SavedApart k (documented k) desc desc') ↔
      (k.H2C_N_C2H = true ∧ k.DESC_TYPE = true →
        desc_field k (documented k) desc .user_bits = some 0 ∧
          desc_field k (documented k) desc' .user_bits = some 0) := by
  have hboth : (FieldsKept k (documented k) desc ∧ FieldsKept k (documented k) desc' ∧
      SavedApart k (documented k) desc desc') ↔
      FieldsKept k (documented k) desc ∧ FieldsKept k (documented k) desc' :=
    ⟨fun h => ⟨h.1, h.2.1⟩, fun h => ⟨h.1, h.2, saved_apart h.1 h.2⟩⟩
  rw [hboth]
  obtain ⟨h2c, compact⟩ := k
  cases h2c with
  | false =>
    cases compact with
    | false => simp [c2h_reg_kept desc, c2h_reg_kept desc']
    | true => simp [c2h_comp_kept desc, c2h_comp_kept desc']
  | true =>
    cases compact with
    | false => simp [h2c_reg_kept desc, h2c_reg_kept desc']
    | true => simp [h2c_comp_kept_iff desc, h2c_comp_kept_iff desc']

/-- A compact H2C descriptor whose lowest user bit is set. -/
def compact_user_bit : BitVec 128 := 1#128 <<< 82

theorem compact_user_bit_lost :
    ¬∀ (k : DescKind) (desc desc' : BitVec k.DESC_WIDTH),
      FieldsKept k (documented k) desc ∧ FieldsKept k (documented k) desc' ∧
        SavedApart k (documented k) desc desc' := by
  intro h
  have hback := (h ⟨true, true⟩ compact_user_bit compact_user_bit).1.back .user_bits
  have hlost := h2c_comp_user_back compact_user_bit
  have hset : desc_field ⟨true, true⟩ (documented ⟨true, true⟩) compact_user_bit .user_bits = some 1 := by decide
  rw [hlost, hset] at hback
  cases hback

end AwsFpga.Rtl
