import AwsFpga.Rtl.ClAxiCtl

/-!
# Requests between two clocks (`cl_kernel_req.sv`)

Requests are counted with `clk_main_a0` and served with `clk_hbm`. Between the clocks stand two
dual clock FIFOs of the vendor, of which only what is documented is known, and whose flags each side
sees late. A step is an edge of one of the clocks. The registers start after the resets.
-/

open Lib Lib.Axi

namespace AwsFpga.Rtl

/-! ## The pipe and the FIFO (`lib_pipe.sv`, `cdc_async_fifo.sv`) -/

section Pipe

variable {α : Type}

/-- The oldest value stands first. -/
def lib_pipe (in_bus : α) (pipe : List α) : List α := pipe.tail ++ [in_bus]

def out_bus (pipe : List α) (zero : α) : α := pipe.headD zero

theorem lib_pipe_length {in_bus : α} {pipe : List α} (h : pipe ≠ []) :
    (lib_pipe in_bus pipe).length = pipe.length := by
  obtain ⟨a, rest, rfl⟩ := List.exists_cons_of_ne_nil h
  simp [lib_pipe]

theorem lib_pipe_zip {β : Type} {p : List α} {q : List β} (hlen : p.length = q.length) (hp : p ≠ [])
    (a : α) (b : β) : (lib_pipe a p).zip (lib_pipe b q) = lib_pipe (a, b) (p.zip q) := by
  obtain ⟨a', p, rfl⟩ := List.exists_cons_of_ne_nil hp
  obtain ⟨b', q, rfl⟩ := List.exists_cons_of_ne_nil (List.ne_nil_of_length_pos (l := q)
    (by rw [← hlen]; exact Nat.succ_pos _))
  unfold lib_pipe
  rw [List.tail_cons, List.tail_cons, List.zip_append (Nat.succ.inj hlen)]
  rfl

end Pipe

/-- `xpm_fifo_async` with the read mode "std" and a latency of one. Its flags are inputs of a run. -/
structure XpmFifoAsync (α : Type) where
  Regs : Type
  reset : Regs
  wr_clk : (wr_en : Bool) → (din : α) → Regs → Regs
  rd_clk : (rd_en : Bool) → Regs → Regs
  data_valid : Regs → Bool
  dout : Regs → α
  /-- What was written and not read, the oldest first. -/
  stored : Regs → List α

/-- What is documented of it: words are read in the order in which they were written, and each is
shown for one cycle of the reader. -/
structure XpmFifoAsync.InOrder {α : Type} (m : XpmFifoAsync α) : Prop where
  reset : m.stored m.reset = [] ∧ m.data_valid m.reset = false
  wr_stored : ∀ wr_en din r,
    m.stored (m.wr_clk wr_en din r) = m.stored r ++ if wr_en then [din] else []
  wr_out : ∀ wr_en din r, m.data_valid (m.wr_clk wr_en din r) = m.data_valid r ∧
    m.dout (m.wr_clk wr_en din r) = m.dout r
  rd_none : ∀ r, m.stored (m.rd_clk false r) = m.stored r ∧ m.data_valid (m.rd_clk false r) = false
  rd_stored : ∀ r, m.stored r ≠ [] → m.data_valid (m.rd_clk true r) ∧
    m.stored r = m.dout (m.rd_clk true r) :: m.stored (m.rd_clk true r)

structure CdcAsyncFifo {α : Type} (m : XpmFifoAsync α) where
  XPM_ASIC_FIFO : m.Regs

namespace CdcAsyncFifo

variable {α : Type} {m : XpmFifoAsync α} (f : CdcAsyncFifo m)

def start (m : XpmFifoAsync α) : CdcAsyncFifo m := ⟨m.reset⟩

def rd_vld : Bool := m.data_valid f.XPM_ASIC_FIFO

def rd_do : α := m.dout f.XPM_ASIC_FIFO

def stored : List α := m.stored f.XPM_ASIC_FIFO

def wr_en (wr_push full : Bool) : Bool := wr_push && !full

def rd_en (rd_pop empty : Bool) : Bool := rd_pop && !empty

def wr_clk (wr_push : Bool) (wr_di : α) (full : Bool) : CdcAsyncFifo m :=
  ⟨m.wr_clk (wr_en wr_push full) wr_di f.XPM_ASIC_FIFO⟩

def rd_clk (rd_pop empty : Bool) : CdcAsyncFifo m :=
  ⟨m.rd_clk (rd_en rd_pop empty) f.XPM_ASIC_FIFO⟩

/-- The words in it, the one that was read first. -/
def words : List α := shown f.rd_vld f.rd_do ++ f.stored

/-- A flag may be late to fall, never to rise. -/
def FullOk (depth : Nat) (full : Bool) : Prop := depth ≤ f.stored.length → full = true

def EmptyOk (empty : Bool) : Prop := f.stored = [] → empty = true

instance (depth : Nat) (full : Bool) : Decidable (f.FullOk depth full) :=
  inferInstanceAs (Decidable (depth ≤ f.stored.length → full = true))

instance (empty : Bool) : Decidable (f.EmptyOk empty) :=
  inferInstanceAs (Decidable (f.stored = [] → empty = true))

variable {f} (hm : m.InOrder)
include hm

theorem start_words : (start m).words = [] := by
  unfold words rd_vld stored start
  rw [hm.reset.1, hm.reset.2]
  rfl

theorem wr_clk_words (wr_push : Bool) (wr_di : α) (full : Bool) :
    (f.wr_clk wr_push wr_di full).words =
      f.words ++ if wr_en wr_push full then [wr_di] else [] := by
  have hout := hm.wr_out (wr_en wr_push full) wr_di f.XPM_ASIC_FIFO
  unfold words rd_vld rd_do stored wr_clk
  rw [hout.1, hout.2, hm.wr_stored, List.append_assoc]

theorem rd_clk_words {empty : Bool} (hempty : f.EmptyOk empty) (rd_pop : Bool) :
    shown f.rd_vld f.rd_do ++ (f.rd_clk rd_pop empty).words = f.words := by
  unfold words
  congr 1
  unfold rd_vld rd_do rd_clk stored
  cases hen : rd_en rd_pop empty with
  | false => rw [(hm.rd_none _).1, (hm.rd_none _).2, shown_false, List.nil_append]
  | true =>
    have hne : f.stored ≠ [] := by
      intro hnil
      rw [hempty hnil] at hen
      simp [rd_en] at hen
    obtain ⟨hvalid, hstored⟩ := hm.rd_stored f.XPM_ASIC_FIFO hne
    rw [hvalid, shown_true, hstored]
    rfl

end CdcAsyncFifo

/-- The two FIFOs of a request block. -/
structure KernelFifos where
  M2H : XpmFifoAsync Unit
  H2M : XpmFifoAsync Bool

structure KernelFifos.InOrder (F : KernelFifos) : Prop where
  M2H : F.M2H.InOrder
  H2M : F.H2M.InOrder

/-! ## The requests of one direction -/

structure KernelReq (F : KernelFifos) (NUM_OT : Nat) where
  PIPE_START_MAIN : List Bool
  main_pend_txns_q : BitVec (Nat.clog 2 NUM_OT + 1)
  CDC_M2H_REQ_FIFO : CdcAsyncFifo F.M2H
  o_hbm_req_pulse : Bool
  hbm_done_q : Bool
  hbm_resp_err_q : Bool
  CDC_H2M_RESP_FIFO : CdcAsyncFifo F.H2M
  PIPE_RQ_DONE_MAIN : List Bool
  PIPE_RQ_RESP_MAIN : List Bool
  PIPE_PEND_MAIN : List (BitVec 32)

/-- The inputs at an edge of `clk_main_a0`, with the flags of the FIFOs. -/
structure KernelReqMain where
  i_main_start_req : Bool
  req_fifo_full : Bool
  resp_fifo_empty : Bool

/-- The inputs at an edge of `clk_hbm`. -/
structure KernelReqHbm where
  i_hbm_done_pulse : Bool
  i_hbm_resp_err : Bool
  req_fifo_empty : Bool
  resp_fifo_full : Bool

namespace KernelReq

def PIPE_STAGES : Nat := 4

def reset (F : KernelFifos) (NUM_OT : Nat) : KernelReq F NUM_OT where
  PIPE_START_MAIN := List.replicate PIPE_STAGES false
  main_pend_txns_q := 0
  CDC_M2H_REQ_FIFO := .start F.M2H
  o_hbm_req_pulse := false
  hbm_done_q := false
  hbm_resp_err_q := false
  CDC_H2M_RESP_FIFO := .start F.H2M
  PIPE_RQ_DONE_MAIN := List.replicate PIPE_STAGES false
  PIPE_RQ_RESP_MAIN := List.replicate PIPE_STAGES false
  PIPE_PEND_MAIN := List.replicate PIPE_STAGES 0

variable {F : KernelFifos} {NUM_OT : Nat} (i : KernelReqMain) (j : KernelReqHbm) (s : KernelReq F NUM_OT)

def main_start_req_q : Bool := out_bus s.PIPE_START_MAIN false

def o_main_req_done : Bool := out_bus s.PIPE_RQ_DONE_MAIN false

def o_main_resp_err : Bool := out_bus s.PIPE_RQ_RESP_MAIN false

def o_main_pend_txns : BitVec 32 := out_bus s.PIPE_PEND_MAIN 0

def inc_pend_txn : Bool :=
  !i.req_fifo_full && s.main_start_req_q && decide (s.main_pend_txns_q.toNat < NUM_OT)

def dec_pend_txn : Bool := s.o_main_req_done

def main_req_done : Bool := s.CDC_H2M_RESP_FIFO.rd_vld

def main_resp_err_vld : Bool := s.CDC_H2M_RESP_FIFO.rd_do && s.main_req_done

def clk_main_a0 : KernelReq F NUM_OT where
  PIPE_START_MAIN := lib_pipe i.i_main_start_req s.PIPE_START_MAIN
  main_pend_txns_q := AxiCtl.pend_nxt s.main_pend_txns_q (inc_pend_txn i s) s.dec_pend_txn
  CDC_M2H_REQ_FIFO := s.CDC_M2H_REQ_FIFO.wr_clk (inc_pend_txn i s) () i.req_fifo_full
  o_hbm_req_pulse := s.o_hbm_req_pulse
  hbm_done_q := s.hbm_done_q
  hbm_resp_err_q := s.hbm_resp_err_q
  CDC_H2M_RESP_FIFO := s.CDC_H2M_RESP_FIFO.rd_clk true i.resp_fifo_empty
  PIPE_RQ_DONE_MAIN := lib_pipe s.main_req_done s.PIPE_RQ_DONE_MAIN
  PIPE_RQ_RESP_MAIN := lib_pipe s.main_resp_err_vld s.PIPE_RQ_RESP_MAIN
  PIPE_PEND_MAIN := lib_pipe (s.main_pend_txns_q.setWidth 32) s.PIPE_PEND_MAIN

def clk_hbm : KernelReq F NUM_OT where
  PIPE_START_MAIN := s.PIPE_START_MAIN
  main_pend_txns_q := s.main_pend_txns_q
  CDC_M2H_REQ_FIFO := s.CDC_M2H_REQ_FIFO.rd_clk true j.req_fifo_empty
  o_hbm_req_pulse := s.CDC_M2H_REQ_FIFO.rd_vld
  hbm_done_q := j.i_hbm_done_pulse
  hbm_resp_err_q := j.i_hbm_resp_err
  CDC_H2M_RESP_FIFO :=
    s.CDC_H2M_RESP_FIFO.wr_clk s.hbm_done_q s.hbm_resp_err_q j.resp_fifo_full
  PIPE_RQ_DONE_MAIN := s.PIPE_RQ_DONE_MAIN
  PIPE_RQ_RESP_MAIN := s.PIPE_RQ_RESP_MAIN
  PIPE_PEND_MAIN := s.PIPE_PEND_MAIN

/-- What the FIFOs promise, with a store of `req_depth` and one of `resp_depth` words. -/
structure MainOk (req_depth : Nat) : Prop where
  full : s.CDC_M2H_REQ_FIFO.FullOk req_depth i.req_fifo_full
  empty : s.CDC_H2M_RESP_FIFO.EmptyOk i.resp_fifo_empty

structure HbmOk (resp_depth : Nat) : Prop where
  empty : s.CDC_M2H_REQ_FIFO.EmptyOk j.req_fifo_empty
  full : s.CDC_H2M_RESP_FIFO.FullOk resp_depth j.resp_fifo_full

instance (req_depth : Nat) : Decidable (MainOk i s req_depth) :=
  decidable_of_iff (s.CDC_M2H_REQ_FIFO.FullOk req_depth i.req_fifo_full ∧
    s.CDC_H2M_RESP_FIFO.EmptyOk i.resp_fifo_empty) ⟨fun h => ⟨h.1, h.2⟩, fun h => ⟨h.1, h.2⟩⟩

instance (resp_depth : Nat) : Decidable (HbmOk j s resp_depth) :=
  decidable_of_iff (s.CDC_M2H_REQ_FIFO.EmptyOk j.req_fifo_empty ∧
    s.CDC_H2M_RESP_FIFO.FullOk resp_depth j.resp_fifo_full)
    ⟨fun h => ⟨h.1, h.2⟩, fun h => ⟨h.1, h.2⟩⟩

/-! ## What passes, and what is on its way -/

/-- A request that is counted. -/
def requested : List Unit := if inc_pend_txn i s then [()] else []

/-- A request that the other side is asked for. -/
def pulsed : List Unit := shown s.o_hbm_req_pulse ()

/-- The requests that are counted and were not asked for. -/
def asking : List Unit := shown s.o_hbm_req_pulse () ++ s.CDC_M2H_REQ_FIFO.words

/-- A completion, with its error flag. -/
def reported : List Bool := shown s.o_main_req_done s.o_main_resp_err

/-- A completion for which the FIFO is full, which nobody looks at. -/
def lost : List Bool := if s.hbm_done_q && j.resp_fifo_full then [s.hbm_resp_err_q] else []

def piped (s : KernelReq F NUM_OT) : List Bool :=
  (s.PIPE_RQ_DONE_MAIN.zip s.PIPE_RQ_RESP_MAIN).flatMap fun w => shown w.1 w.2

/-- The completions that were not reported, the oldest first. -/
def completing : List Bool :=
  s.piped ++ s.CDC_H2M_RESP_FIFO.words ++ shown s.hbm_done_q s.hbm_resp_err_q

structure Piped : Prop where
  done : s.PIPE_RQ_DONE_MAIN.length = PIPE_STAGES
  resp : s.PIPE_RQ_RESP_MAIN.length = PIPE_STAGES
  /-- An error comes with its completion. -/
  err : ∀ w ∈ s.PIPE_RQ_DONE_MAIN.zip s.PIPE_RQ_RESP_MAIN, w.2 → w.1

theorem asking_reset (hF : F.InOrder) : asking (reset F NUM_OT) = [] :=
  CdcAsyncFifo.start_words hF.M2H

theorem completing_reset (hF : F.InOrder) : completing (reset F NUM_OT) = [] := by
  have hpiped : (reset F NUM_OT).piped = [] := rfl
  have hwords : (reset F NUM_OT).CDC_H2M_RESP_FIFO.words = [] := CdcAsyncFifo.start_words hF.H2M
  unfold completing
  rw [hpiped, hwords]
  rfl

variable {i j s}

theorem Piped.reset : Piped (reset F NUM_OT) where
  done := rfl
  resp := rfl
  err := (by decide : ∀ w ∈ (List.replicate PIPE_STAGES false).zip
    (List.replicate PIPE_STAGES false), w.2 → w.1)

theorem Piped.ne_nil (h : Piped s) : s.PIPE_RQ_DONE_MAIN ≠ [] ∧ s.PIPE_RQ_RESP_MAIN ≠ [] :=
  ⟨List.ne_nil_of_length_pos (by rw [h.done]; decide),
    List.ne_nil_of_length_pos (by rw [h.resp]; decide)⟩

theorem Piped.zip_next (h : Piped s) :
    (clk_main_a0 i s).PIPE_RQ_DONE_MAIN.zip (clk_main_a0 i s).PIPE_RQ_RESP_MAIN =
      lib_pipe (s.main_req_done, s.main_resp_err_vld)
        (s.PIPE_RQ_DONE_MAIN.zip s.PIPE_RQ_RESP_MAIN) :=
  lib_pipe_zip (h.done.trans h.resp.symm) h.ne_nil.1 _ _

theorem Piped.clk_main_a0 (h : Piped s) : Piped (clk_main_a0 i s) where
  done := (lib_pipe_length h.ne_nil.1).trans h.done
  resp := (lib_pipe_length h.ne_nil.2).trans h.resp
  err := by
    intro w hw
    rw [h.zip_next] at hw
    rcases List.mem_append.mp hw with hold | hnew
    · exact h.err w (List.mem_of_mem_tail hold)
    · rw [List.mem_singleton.mp hnew]
      exact fun herr => (Bool.and_eq_true_iff.mp herr).2

theorem Piped.clk_hbm (h : Piped s) : Piped (clk_hbm j s) := ⟨h.done, h.resp, h.err⟩

theorem Piped.zip_eq (h : Piped s) : ∃ rest, s.PIPE_RQ_DONE_MAIN.zip s.PIPE_RQ_RESP_MAIN =
    (s.o_main_req_done, s.o_main_resp_err) :: rest := by
  obtain ⟨d, dones, hd⟩ := List.exists_cons_of_ne_nil h.ne_nil.1
  obtain ⟨e, resps, he⟩ := List.exists_cons_of_ne_nil h.ne_nil.2
  refine ⟨dones.zip resps, ?_⟩
  unfold o_main_req_done o_main_resp_err out_bus
  rw [hd, he]
  rfl

theorem reported_err (h : Piped s) : s.o_main_resp_err = s.reported.contains true := by
  obtain ⟨rest, hzip⟩ := h.zip_eq
  have herr := h.err _ (by rw [hzip]; exact List.mem_cons_self)
  dsimp only at herr
  unfold reported
  cases hresp : s.o_main_resp_err with
  | false => cases s.o_main_req_done <;> rfl
  | true => rw [herr hresp]; rfl

theorem piped_next (h : Piped s) : s.reported ++ (clk_main_a0 i s).piped =
    s.piped ++ shown s.CDC_H2M_RESP_FIFO.rd_vld s.CDC_H2M_RESP_FIFO.rd_do := by
  have hnew : shown s.main_req_done s.main_resp_err_vld =
      shown s.CDC_H2M_RESP_FIFO.rd_vld s.CDC_H2M_RESP_FIFO.rd_do := by
    unfold main_resp_err_vld main_req_done
    cases s.CDC_H2M_RESP_FIFO.rd_vld <;> simp
  obtain ⟨rest, hzip⟩ := h.zip_eq
  unfold piped
  rw [h.zip_next, hzip, ← hnew]
  simp [lib_pipe, reported]

theorem main_requests (hF : F.InOrder) : (asking s) ++ requested i s = asking (clk_main_a0 i s) := by
  have hpush : CdcAsyncFifo.wr_en (inc_pend_txn i s) i.req_fifo_full = inc_pend_txn i s := by
    unfold CdcAsyncFifo.wr_en inc_pend_txn
    cases i.req_fifo_full <;> simp
  unfold asking requested
  rw [List.append_assoc]
  simp only [KernelReq.clk_main_a0, CdcAsyncFifo.wr_clk_words hF.M2H, hpush]

theorem hbm_requests (hF : F.InOrder) {resp_depth : Nat} (hok : HbmOk j s resp_depth) :
    asking s = pulsed s ++ asking (clk_hbm j s) := by
  unfold asking pulsed
  rw [← CdcAsyncFifo.rd_clk_words hF.M2H hok.empty true]
  rfl

theorem main_completions (hF : F.InOrder) {req_depth : Nat} (hok : MainOk i s req_depth)
    (h : Piped s) :
    completing s = reported s ++ completing (clk_main_a0 i s) := by
  have hpipe := piped_next (i := i) h
  have hwords := CdcAsyncFifo.rd_clk_words hF.H2M hok.empty true
  unfold completing
  rw [← hwords, ← List.append_assoc, ← List.append_assoc, ← hpipe]
  simp [KernelReq.clk_main_a0]

/-- What comes from the other side stays in order, and only a full FIFO loses of it. -/
theorem hbm_completing (hF : F.InOrder) : (completing (clk_hbm j s)).Sublist
    (completing s ++ shown j.i_hbm_done_pulse j.i_hbm_resp_err) := by
  have hkept : (if CdcAsyncFifo.wr_en s.hbm_done_q j.resp_fifo_full then [s.hbm_resp_err_q]
      else []).Sublist (shown s.hbm_done_q s.hbm_resp_err_q) := by
    unfold CdcAsyncFifo.wr_en
    cases s.hbm_done_q <;> cases j.resp_fifo_full <;> simp
  unfold completing
  simp only [KernelReq.clk_hbm, CdcAsyncFifo.wr_clk_words hF.H2M, ← List.append_assoc]
  exact ((List.Sublist.refl _).append hkept).append (List.Sublist.refl _)

theorem hbm_completing_length (hF : F.InOrder) :
    (completing s).length + (shown j.i_hbm_done_pulse j.i_hbm_resp_err).length =
      (lost j s).length + (completing (clk_hbm j s)).length := by
  have hkept : (shown s.hbm_done_q s.hbm_resp_err_q).length = (lost j s).length +
      (if CdcAsyncFifo.wr_en s.hbm_done_q j.resp_fifo_full then [s.hbm_resp_err_q]
        else []).length := by
    unfold lost CdcAsyncFifo.wr_en
    cases s.hbm_done_q <;> cases j.resp_fifo_full <;> simp
  have hpiped : (clk_hbm j s).piped = s.piped := rfl
  unfold completing
  rw [hpiped]
  simp only [KernelReq.clk_hbm, CdcAsyncFifo.wr_clk_words hF.H2M, List.length_append]
  omega

end KernelReq

end AwsFpga.Rtl
