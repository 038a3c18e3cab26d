import Mathlib.Tactic.IntervalCases
import AwsFpga.Lib.Axi

/-!
# Who owns the HBM (`cva6_hbm_mux.sv`)

The shell (PCIS) and the CPU share one AXI port. The mux follows `cpu_run_i`, but
only when nothing of the owner is in progress, and it counts the addresses it let
through to know that.
-/

open Lib Lib.Axi

namespace AwsFpga.Rtl

/-! ## The bus (`axi_bus_t`) -/

/-- An address, of a write or of a read. -/
structure AxiAddr where
  id : BitVec 16
  addr : BitVec 64
  len : BitVec 8
  size : BitVec 3
  burst : BitVec 2
  deriving DecidableEq

structure AxiW where
  id : BitVec 16
  data : BitVec 512
  strb : BitVec 64
  last : Bool
  deriving DecidableEq

structure AxiB where
  id : BitVec 16
  resp : BitVec 2
  deriving DecidableEq

structure AxiR where
  id : BitVec 16
  data : BitVec 512
  resp : BitVec 2
  last : Bool
  deriving DecidableEq

/-- What the sender of requests drives. -/
structure AxiRequests where
  awvalid : Bool
  aw : AxiAddr
  wvalid : Bool
  w : AxiW
  bready : Bool
  arvalid : Bool
  ar : AxiAddr
  rready : Bool

/-- What the sender of responses drives. -/
structure AxiResponses where
  awready : Bool
  wready : Bool
  bvalid : Bool
  b : AxiB
  arready : Bool
  rvalid : Bool
  r : AxiR

/-! ## The mux -/

inductive HbmOwner where
  | pcis
  | cpu
  deriving DecidableEq

structure HbmMuxIn where
  cpu_run_i : Bool
  master : HbmOwner → AxiRequests
  hbm : AxiResponses

structure HbmMux where
  select_cpu_q : Bool
  writes_outstanding_q : BitVec 9
  reads_outstanding_q : BitVec 9
  deriving DecidableEq

namespace HbmMux

def CPU_DRAM_BASE : BitVec 64 := 0x0000000080000000
def PCIS_HBM_BASE : BitVec 64 := 0x0000001000000000

variable (i : HbmMuxIn) (s : HbmMux)

/-- Whom `select_cpu_q` selects. -/
def owner : HbmOwner := if s.select_cpu_q then .cpu else .pcis

def base : HbmOwner → BitVec 64
  | .cpu => CPU_DRAM_BASE
  | .pcis => PCIS_HBM_BASE

/-- The requests of the owner, as they leave for the HBM. -/
def hbm_axi : AxiRequests :=
  let m := i.master s.owner
  { m with
    aw := { m.aw with addr := m.aw.addr - base s.owner }
    wvalid := m.wvalid && s.writes_outstanding_q != 0
    ar := { m.ar with addr := m.ar.addr - base s.owner } }

def no_responses : AxiResponses := ⟨false, false, false, ⟨0, 0⟩, false, false, ⟨0, 0, 0, false⟩⟩

/-- What a master gets back: inactive masters are backpressured. -/
def responses (o : HbmOwner) : AxiResponses :=
  if o = s.owner then { i.hbm with wready := i.hbm.wready && s.writes_outstanding_q != 0 }
  else no_responses

def aw_fire : Bool := (hbm_axi i s).awvalid && i.hbm.awready
def b_fire : Bool := i.hbm.bvalid && (hbm_axi i s).bready
def ar_fire : Bool := (hbm_axi i s).arvalid && i.hbm.arready
def rlast_fire : Bool := i.hbm.rvalid && (hbm_axi i s).rready && i.hbm.r.last

def selected_awvalid : Bool := (i.master s.owner).awvalid
def selected_wvalid : Bool := (i.master s.owner).wvalid
def selected_arvalid : Bool := (i.master s.owner).arvalid

/-- The counters take one more, one less, or stay. -/
def count (up down : Bool) (q : BitVec 9) : BitVec 9 :=
  match up, down with
  | true, false => q + 1
  | false, true => q - 1
  | _, _ => q

def idle : Bool :=
  s.writes_outstanding_q == 0 && s.reads_outstanding_q == 0 && !selected_awvalid i s &&
    !selected_wvalid i s && !selected_arvalid i s

def step : HbmMux where
  select_cpu_q := if idle i s then i.cpu_run_i else s.select_cpu_q
  writes_outstanding_q := count (aw_fire i s) (b_fire i s) s.writes_outstanding_q
  reads_outstanding_q := count (ar_fire i s) (rlast_fire i s) s.reads_outstanding_q

def circuit : Circuit HbmMuxIn HbmMux := ⟨⟨false, 0, 0⟩, step⟩

/-! ## The channels, on the side of the masters -/

def all : List HbmOwner := [.pcis, .cpu]

def aw_accepted : List (HbmOwner × AxiAddr) :=
  all.flatMap fun o => fire (i.master o).awvalid (responses i s o).awready (o, (i.master o).aw)

def w_accepted : List (HbmOwner × AxiW) :=
  all.flatMap fun o => fire (i.master o).wvalid (responses i s o).wready (o, (i.master o).w)

def ar_accepted : List (HbmOwner × AxiAddr) :=
  all.flatMap fun o => fire (i.master o).arvalid (responses i s o).arready (o, (i.master o).ar)

def b_delivered : List (HbmOwner × AxiB) :=
  all.flatMap fun o => fire (responses i s o).bvalid (i.master o).bready (o, (responses i s o).b)

def r_delivered : List (HbmOwner × AxiR) :=
  all.flatMap fun o => fire (responses i s o).rvalid (i.master o).rready (o, (responses i s o).r)

theorem flatMap_owner {β : Type} (f : HbmOwner → List β) (hf : ∀ o, o ≠ s.owner → f o = []) :
    all.flatMap f = f s.owner := by
  unfold all
  generalize s.owner = w at hf ⊢
  cases w <;> simp [hf]

theorem aw_accepted_eq :
    aw_accepted i s =
      if aw_fire i s then [(s.owner, (i.master s.owner).aw)] else [] := by
  rw [aw_accepted, flatMap_owner s _ fun o ho => by simp [responses, ho, no_responses]]
  simp [responses, aw_fire, hbm_axi, fire]

theorem w_accepted_owner {p : HbmOwner × AxiW} (hp : p ∈ w_accepted i s) : p.1 = s.owner := by
  rw [w_accepted, flatMap_owner s _ fun o ho => by simp [responses, ho, no_responses]] at hp
  unfold fire at hp
  split at hp
  · rw [List.mem_singleton.mp hp]
  · cases hp

theorem ar_accepted_eq :
    ar_accepted i s =
      if ar_fire i s then [(s.owner, (i.master s.owner).ar)] else [] := by
  rw [ar_accepted, flatMap_owner s _ fun o ho => by simp [responses, ho, no_responses]]
  simp [responses, ar_fire, hbm_axi, fire]

theorem b_delivered_eq :
    b_delivered i s = if b_fire i s then [(s.owner, i.hbm.b)] else [] := by
  rw [b_delivered, flatMap_owner s _ fun o ho => by simp [responses, ho, no_responses]]
  simp [responses, b_fire, hbm_axi, fire]

theorem r_delivered_eq :
    r_delivered i s =
      if i.hbm.rvalid && (hbm_axi i s).rready then [(s.owner, i.hbm.r)] else [] := by
  rw [r_delivered, flatMap_owner s _ fun o ho => by simp [responses, ho, no_responses]]
  simp [responses, hbm_axi, fire]

/-! ## What is in progress -/

structure WriteRequest where
  owner : HbmOwner
  aw : AxiAddr
  deriving DecidableEq

/-- `left` beats come before the last one. -/
structure ReadRequest where
  owner : HbmOwner
  id : BitVec 16
  left : Nat
  deriving DecidableEq

/-- A history of the channels, kept by nobody in the design. -/
structure Progress where
  /-- Writes whose data is not complete. -/
  addressed : List WriteRequest
  /-- The data that has no address yet, or is not complete. -/
  data : List (HbmOwner × AxiW)
  /-- Complete writes without their response. -/
  written : List WriteRequest
  reads : List ReadRequest
  deriving DecidableEq

/-- A beat answers the oldest read with its id. -/
def answer_read (id : BitVec 16) : List ReadRequest → List ReadRequest
  | [] => []
  | r :: rs =>
    if r.id = id then (if r.left = 0 then rs else { r with left := r.left - 1 } :: rs)
    else r :: answer_read id rs

namespace Progress

variable (g : Progress)

def none : Progress := ⟨[], [], [], []⟩

/-- The bursts that get complete in this cycle, with their addresses. -/
def paired : List (WriteRequest × List (HbmOwner × AxiW)) × List WriteRequest ×
    List (HbmOwner × AxiW) :=
  pair (fun b => b.2.last) (g.addressed ++ (aw_accepted i s).map fun a => ⟨a.1, a.2⟩)
    (g.data ++ w_accepted i s)

def answered_write : Option WriteRequest := g.written.find? fun r => r.aw.id == i.hbm.b.id

def answered_read : Option ReadRequest := g.reads.find? fun r => r.id == i.hbm.r.id

def next : Progress where
  addressed := (g.paired i s).2.1
  data := (g.paired i s).2.2
  written := (if b_fire i s then g.written.eraseP (fun r => r.aw.id == i.hbm.b.id) else g.written) ++
    (g.paired i s).1.map Prod.fst
  reads := (if i.hbm.rvalid && (hbm_axi i s).rready then answer_read i.hbm.r.id g.reads else g.reads) ++
    (ar_accepted i s).map fun a => ⟨a.1, a.2.id, a.2.len.toNat⟩

/-- No accepted address without its last response, no accepted data without its address. -/
def Quiet : Prop := g.addressed = [] ∧ g.data = [] ∧ g.written = [] ∧ g.reads = []

end Progress

variable (ins : Nat → HbmMuxIn)

def progress : Nat → Progress
  | 0 => .none
  | n + 1 => (progress n).next (ins n) (circuit.state ins n)

/-- What a master owes: it holds what it shows, and its bursts have the length of their address. -/
structure MasterCompliant (o : HbmOwner) : Prop where
  aw : Held (fun n => ((ins n).master o).awvalid)
    (fun n => (responses (ins n) (circuit.state ins n) o).awready) fun n => ((ins n).master o).aw
  w : Held (fun n => ((ins n).master o).wvalid)
    (fun n => (responses (ins n) (circuit.state ins n) o).wready) fun n => ((ins n).master o).w
  ar : Held (fun n => ((ins n).master o).arvalid)
    (fun n => (responses (ins n) (circuit.state ins n) o).arready) fun n => ((ins n).master o).ar
  len : ∀ n, Fits (fun b => b.2.last) (fun a => a.2.len.toNat)
    ((circuit.passed ins aw_accepted n).filter fun a => a.1 = o)
    ((circuit.passed ins w_accepted n).filter fun b => b.1 = o)

/-- What the HBM owes: it answers complete writes, and reads with as many beats as asked. -/
structure HbmCompliant : Prop where
  b : ∀ n, (ins n).hbm.bvalid → ((progress ins n).answered_write (ins n)).isSome
  r : ∀ n, (ins n).hbm.rvalid → ∃ r, (progress ins n).answered_read (ins n) = some r ∧
    (ins n).hbm.r.last = decide (r.left = 0)
  b_held : Held (fun n => (ins n).hbm.bvalid)
    (fun n => (hbm_axi (ins n) (circuit.state ins n)).bready) fun n => (ins n).hbm.b
  r_held : Held (fun n => (ins n).hbm.rvalid)
    (fun n => (hbm_axi (ins n) (circuit.state ins n)).rready) fun n => (ins n).hbm.r

/-- What the mux promises. -/
structure Safe : Prop where
  /-- The owner changes only when nothing is in progress. -/
  switch : ∀ n, (circuit.state ins (n + 1)).owner ≠ (circuit.state ins n).owner →
    (progress ins (n + 1)).Quiet
  b : ∀ n, b_fire (ins n) (circuit.state ins n) →
    ∃ r, (progress ins n).answered_write (ins n) = some r ∧
      b_delivered (ins n) (circuit.state ins n) = [(r.owner, (ins n).hbm.b)]
  r : ∀ n, (ins n).hbm.rvalid && (hbm_axi (ins n) (circuit.state ins n)).rready →
    ∃ r, (progress ins n).answered_read (ins n) = some r ∧
      r_delivered (ins n) (circuit.state ins n) = [(r.owner, (ins n).hbm.r)]
  /-- A complete burst has the address of its own master. -/
  w : ∀ n, ∀ p ∈ ((progress ins n).paired (ins n) (circuit.state ins n)).1, ∀ b ∈ p.2,
    b.1 = p.1.owner
  /-- And so has one that is not complete. -/
  w_pending : ∀ n, ∀ a ∈ (progress ins n).addressed, ∀ b ∈ (progress ins n).data, b.1 = a.owner

/-! ## What one cycle keeps -/

/-- The counters have nine bits, and they count no data. -/
structure May (g : Progress) : Prop where
  writes : s.writes_outstanding_q = 511 → aw_fire i s → b_fire i s
  reads : s.reads_outstanding_q = 511 → ar_fire i s → rlast_fire i s
  /-- An owner whose data came before its address is asked to go only while it shows a request. -/
  data : s.writes_outstanding_q = 0 → s.reads_outstanding_q = 0 → g.data ≠ [] →
    i.cpu_run_i ≠ s.select_cpu_q →
    selected_awvalid i s ∨ selected_wvalid i s ∨ selected_arvalid i s

structure Inv (g : Progress) : Prop where
  writes : g.addressed.length + g.written.length = s.writes_outstanding_q.toNat
  reads : g.reads.length = s.reads_outstanding_q.toNat
  addressed : ∀ a ∈ g.addressed, a.owner = s.owner
  data : ∀ b ∈ g.data, b.1 = s.owner
  written : ∀ r ∈ g.written, r.owner = s.owner
  reading : ∀ r ∈ g.reads, r.owner = s.owner

variable {i s} {g : Progress}

theorem inv_reset : Inv circuit.reset .none :=
  ⟨rfl, rfl, by simp [Progress.none], by simp [Progress.none], by simp [Progress.none],
    by simp [Progress.none]⟩

theorem paired_addresses :
    (g.paired i s).1.map Prod.fst ++ (g.paired i s).2.1 =
      g.addressed ++ (aw_accepted i s).map fun a => ⟨a.1, a.2⟩ :=
  pair_addresses _ _

theorem paired_data :
    (g.paired i s).1.flatMap Prod.snd ++ (g.paired i s).2.2 = g.data ++ w_accepted i s :=
  pair_beats _ _

theorem paired_owner (h : Inv s g) {r : WriteRequest}
    (hr : r ∈ (g.paired i s).1.map Prod.fst ++ (g.paired i s).2.1) : r.owner = s.owner := by
  rw [paired_addresses, aw_accepted_eq, List.mem_append] at hr
  rcases hr with hr | hr
  · exact h.addressed r hr
  · obtain ⟨a, ha, rfl⟩ := List.mem_map.mp hr
    split at ha
    · rw [List.mem_singleton.mp ha]
    · cases ha

theorem paired_data_owner (h : Inv s g) {b : HbmOwner × AxiW}
    (hb : b ∈ (g.paired i s).1.flatMap Prod.snd ++ (g.paired i s).2.2) : b.1 = s.owner := by
  rw [paired_data, List.mem_append] at hb
  rcases hb with hb | hb
  · exact h.data b hb
  · exact w_accepted_owner i s hb

theorem count_toNat {up down : Bool} {q : BitVec 9} (hup : q = 511 → up → down)
    (hdown : down → 0 < q.toNat) : (count up down q).toNat + down.toNat = q.toNat + up.toNat := by
  cases up <;> cases down <;> simp only [count, Bool.toNat_true, Bool.toNat_false]
  · have hpos := hdown rfl
    bv_omega
  · have hne : q.toNat ≠ 511 := by
      intro heq
      have hq : q = 511 := by
        apply BitVec.eq_of_toNat_eq
        rw [heq]
        rfl
      exact Bool.false_ne_true (hup hq rfl)
    bv_omega

theorem written_pos (hb : (g.answered_write i).isSome) : 0 < g.written.length := by
  unfold Progress.answered_write at hb
  cases hw : g.written with
  | nil => simp [hw] at hb
  | cons r rs => simp

theorem writes_step (h : Inv s g) (hmay : May i s g)
    (hb : i.hbm.bvalid → (g.answered_write i).isSome) :
    (g.next i s).addressed.length + (g.next i s).written.length =
      (step i s).writes_outstanding_q.toNat := by
  have hanswered : b_fire i s → (g.answered_write i).isSome := by
    intro hfire
    unfold b_fire at hfire
    rw [Bool.and_eq_true] at hfire
    exact hb hfire.1
  have hcount := count_toNat hmay.writes fun hfire => by
    have hpos := written_pos (hanswered hfire)
    have hlen := h.writes
    omega
  have hwritten : (if b_fire i s then g.written.eraseP (fun r => r.aw.id == i.hbm.b.id)
      else g.written).length + (b_fire i s).toNat = g.written.length := by
    cases hfire : b_fire i s with
    | false => simp
    | true =>
      have hsome := hanswered hfire
      have hpos := written_pos hsome
      unfold Progress.answered_write at hsome
      rw [List.find?_isSome] at hsome
      obtain ⟨r, hr, hid⟩ := hsome
      rw [if_pos rfl, List.length_eraseP_of_mem hr hid, Bool.toNat_true]
      omega
  have hpaired := congrArg List.length (paired_addresses (i := i) (s := s) (g := g))
  have hfired : ((aw_accepted i s).map fun a => (⟨a.1, a.2⟩ : WriteRequest)).length =
      (aw_fire i s).toNat := by
    rw [aw_accepted_eq]
    cases aw_fire i s <;> rfl
  rw [List.length_append, List.length_append, hfired, List.length_map] at hpaired
  unfold Progress.next step
  dsimp only
  rw [List.length_append, List.length_map]
  have hlen := h.writes
  omega

theorem answer_read_length {reads : List ReadRequest} {id : BitVec 16} {r : ReadRequest}
    (h : reads.find? (fun r => r.id == id) = some r) :
    (answer_read id reads).length + (decide (r.left = 0)).toNat = reads.length := by
  induction reads with
  | nil => cases h
  | cons x xs ih =>
    rw [List.find?_cons] at h
    unfold answer_read
    split at h
    next hid =>
      cases h
      rw [if_pos (by simpa using hid)]
      split
      next hleft => simp [hleft]
      next hleft => simp [hleft]
    next hid =>
      rw [if_neg (by simpa using hid)]
      have hlen := ih h
      simp only [List.length_cons]
      omega

theorem answer_read_owner {reads : List ReadRequest} {id : BitVec 16} {o : HbmOwner}
    (h : ∀ r ∈ reads, r.owner = o) : ∀ r ∈ answer_read id reads, r.owner = o := by
  induction reads with
  | nil => simp [answer_read]
  | cons x xs ih =>
    rw [List.forall_mem_cons] at h
    unfold answer_read
    split
    · split
      · exact h.2
      · rw [List.forall_mem_cons]
        exact h
    · rw [List.forall_mem_cons]
      exact ⟨h.1, ih h.2⟩

theorem reads_step (h : Inv s g) (hmay : May i s g)
    (hr : i.hbm.rvalid → ∃ r, g.answered_read i = some r ∧ i.hbm.r.last = decide (r.left = 0)) :
    (g.next i s).reads.length = (step i s).reads_outstanding_q.toNat := by
  have hreads : (if i.hbm.rvalid && (hbm_axi i s).rready then answer_read i.hbm.r.id g.reads
      else g.reads).length + (rlast_fire i s).toNat = g.reads.length := by
    unfold rlast_fire
    cases hfire : i.hbm.rvalid && (hbm_axi i s).rready with
    | false => simp
    | true =>
      rw [Bool.and_eq_true] at hfire
      obtain ⟨r, hfind, hlast⟩ := hr hfire.1
      rw [if_pos rfl, Bool.true_and, hlast]
      exact answer_read_length hfind
  have hcount := count_toNat hmay.reads fun hfire => by
    have hlen := h.reads
    rw [hfire, Bool.toNat_true] at hreads
    omega
  have hfired : ((ar_accepted i s).map fun a =>
      (⟨a.1, a.2.id, a.2.len.toNat⟩ : ReadRequest)).length = (ar_fire i s).toNat := by
    rw [ar_accepted_eq]
    cases ar_fire i s <;> rfl
  unfold Progress.next step
  dsimp only
  rw [List.length_append, hfired]
  have hlen := h.reads
  omega

/-- Before the owner changes, every list is empty, and nothing passes. -/
theorem quiet_of_switch (h : Inv s g) (hmay : May i s g)
    (hb : i.hbm.bvalid → (g.answered_write i).isSome)
    (hr : i.hbm.rvalid → ∃ r, g.answered_read i = some r ∧ i.hbm.r.last = decide (r.left = 0))
    (hidle : idle i s) (hrun : i.cpu_run_i ≠ s.select_cpu_q) : (g.next i s).Quiet := by
  unfold idle at hidle
  simp only [Bool.and_eq_true, beq_iff_eq, Bool.not_eq_true'] at hidle
  obtain ⟨⟨⟨⟨hwrites, hreads⟩, haw⟩, hw⟩, har⟩ := hidle
  have hwlen := h.writes
  have hrlen := h.reads
  have hzero : (0 : BitVec 9).toNat = 0 := rfl
  rw [hwrites, hzero] at hwlen
  rw [hreads, hzero] at hrlen
  have haddressed : g.addressed = [] := List.eq_nil_of_length_eq_zero (by omega)
  have hwritten : g.written = [] := List.eq_nil_of_length_eq_zero (by omega)
  have hreading : g.reads = [] := List.eq_nil_of_length_eq_zero (by omega)
  have hdata : g.data = [] := by
    by_contra hne
    simpa [haw, hw, har] using hmay.data hwrites hreads hne hrun
  have hbvalid : i.hbm.bvalid = false := by
    by_contra hne
    simpa [Progress.answered_write, hwritten] using hb (Bool.not_eq_false _ ▸ hne)
  have hrvalid : i.hbm.rvalid = false := by
    by_contra hne
    simpa [Progress.answered_read, hreading] using hr (Bool.not_eq_false _ ▸ hne)
  have hno_aw : aw_accepted i s = [] := by
    rw [aw_accepted_eq, if_neg]
    unfold selected_awvalid at haw
    simp [aw_fire, hbm_axi, haw]
  have hno_w : w_accepted i s = [] := by
    unfold selected_wvalid at hw
    rw [w_accepted, flatMap_owner s _ fun o ho => by simp [responses, ho, no_responses], hw]
    rfl
  have hno_ar : ar_accepted i s = [] := by
    rw [ar_accepted_eq, if_neg]
    unfold selected_arvalid at har
    simp [ar_fire, hbm_axi, har]
  have hpaired : g.paired i s = ([], [], []) := by
    unfold Progress.paired
    rw [haddressed, hdata, hno_aw, hno_w]
    rfl
  unfold Progress.Quiet Progress.next
  simp [hpaired, hwritten, hreading, hno_ar, hrvalid]

theorem owner_step (hidle : ¬(idle i s ∧ i.cpu_run_i ≠ s.select_cpu_q)) :
    (step i s).owner = s.owner := by
  have hselect : (step i s).select_cpu_q = s.select_cpu_q := by
    change (if idle i s then i.cpu_run_i else s.select_cpu_q) = _
    split
    case isTrue hyes =>
      by_contra hne
      exact hidle ⟨hyes, hne⟩
    case isFalse => rfl
  unfold owner
  rw [hselect]

theorem next_owner (h : Inv s g) :
    (∀ a ∈ (g.next i s).addressed, a.owner = s.owner) ∧
      (∀ b ∈ (g.next i s).data, b.1 = s.owner) ∧
      (∀ r ∈ (g.next i s).written, r.owner = s.owner) ∧
      ∀ r ∈ (g.next i s).reads, r.owner = s.owner := by
  refine ⟨?_, ?_, ?_, ?_⟩
  · intro a ha
    exact paired_owner h (List.mem_append_right _ ha)
  · intro b hb
    exact paired_data_owner h (List.mem_append_right _ hb)
  · intro r hr
    rcases List.mem_append.mp hr with hr | hr
    · split at hr
      · exact h.written r (List.mem_of_mem_eraseP hr)
      · exact h.written r hr
    · exact paired_owner h (List.mem_append_left _ hr)
  · intro r hr
    rcases List.mem_append.mp hr with hr | hr
    · split at hr
      · exact answer_read_owner h.reading r hr
      · exact h.reading r hr
    · obtain ⟨a, ha, rfl⟩ := List.mem_map.mp hr
      rw [ar_accepted_eq] at ha
      split at ha
      · rw [List.mem_singleton.mp ha]
      · cases ha

theorem inv_step (h : Inv s g) (hmay : May i s g)
    (hb : i.hbm.bvalid → (g.answered_write i).isSome)
    (hr : i.hbm.rvalid → ∃ r, g.answered_read i = some r ∧ i.hbm.r.last = decide (r.left = 0)) :
    Inv (step i s) (g.next i s) := by
  have hwrites := writes_step h hmay hb
  have hreads := reads_step h hmay hr
  by_cases hswitch : idle i s ∧ i.cpu_run_i ≠ s.select_cpu_q
  · obtain ⟨haddressed, hdata, hwritten, hreading⟩ :=
      quiet_of_switch h hmay hb hr hswitch.1 hswitch.2
    exact ⟨hwrites, hreads, by simp [haddressed], by simp [hdata], by simp [hwritten],
      by simp [hreading]⟩
  · obtain ⟨haddressed, hdata, hwritten, hreading⟩ := next_owner (i := i) h
    rw [← owner_step hswitch] at haddressed hdata hwritten hreading
    exact ⟨hwrites, hreads, haddressed, hdata, hwritten, hreading⟩

/-! ## Whole runs -/

variable {ins : Nat → HbmMuxIn}

theorem inv_state (hhbm : HbmCompliant ins)
    (hmay : ∀ n, May (ins n) (circuit.state ins n) (progress ins n)) (n : Nat) :
    Inv (circuit.state ins n) (progress ins n) := by
  induction n with
  | zero => exact inv_reset
  | succ n ih => exact inv_step ih (hmay n) (hhbm.b n) (hhbm.r n)

/-- As long as no counter overflows, and no owner is asked to go between its data and the address. -/
theorem safe_of_may (ins : Nat → HbmMuxIn) (hhbm : HbmCompliant ins)
    (hmay : ∀ n, May (ins n) (circuit.state ins n) (progress ins n)) : Safe ins where
  switch n hchange := by
    by_cases hswitch : idle (ins n) (circuit.state ins n) ∧
        (ins n).cpu_run_i ≠ (circuit.state ins n).select_cpu_q
    · exact quiet_of_switch (inv_state hhbm hmay n) (hmay n) (hhbm.b n) (hhbm.r n) hswitch.1 hswitch.2
    · exact absurd (owner_step hswitch) hchange
  b n hfire := by
    have hvalid : (ins n).hbm.bvalid := by
      unfold b_fire at hfire
      rw [Bool.and_eq_true] at hfire
      exact hfire.1
    obtain ⟨r, hr⟩ := Option.isSome_iff_exists.mp (hhbm.b n hvalid)
    have howner := (inv_state hhbm hmay n).written r (List.mem_of_find?_eq_some hr)
    refine ⟨r, hr, ?_⟩
    rw [b_delivered_eq, if_pos hfire, howner]
  r n hfire := by
    have hvalid : (ins n).hbm.rvalid := by
      rw [Bool.and_eq_true] at hfire
      exact hfire.1
    obtain ⟨r, hr, -⟩ := hhbm.r n hvalid
    have howner := (inv_state hhbm hmay n).reading r (List.mem_of_find?_eq_some hr)
    refine ⟨r, hr, ?_⟩
    rw [r_delivered_eq, if_pos hfire, howner]
  w n p hp b hb := by
    have hinv := inv_state hhbm hmay n
    have haddr := paired_owner (i := ins n) hinv
      (List.mem_append_left _ (List.mem_map_of_mem (f := Prod.fst) hp))
    have hdata := paired_data_owner (i := ins n) hinv
      (List.mem_append_left _ (List.mem_flatMap.mpr ⟨p, hp, hb⟩))
    rw [haddr, hdata]
  w_pending n a ha b hb := by
    have hinv := inv_state hhbm hmay n
    rw [hinv.addressed a ha, hinv.data b hb]

def no_requests : AxiRequests where
  awvalid := false
  aw := ⟨0, 0, 0, 6, 1⟩
  wvalid := false
  w := ⟨0, 7, 1, true⟩
  bready := true
  arvalid := false
  ar := ⟨0, 0, 0, 6, 1⟩
  rready := true

/-- The shell writes one beat, then the CPU reads one. -/
def write_then_read (n : Nat) : HbmMuxIn where
  cpu_run_i := 3 ≤ n
  master
    | .pcis => { no_requests with awvalid := n = 0, wvalid := n = 1 }
    | .cpu => { no_requests with arvalid := n = 4 }
  hbm := ⟨true, true, n = 2, ⟨0, 0⟩, true, n = 5, ⟨0, 7, 0, true⟩⟩

theorem write_then_read_hbm : HbmCompliant write_then_read where
  b n hvalid := by
    obtain rfl : n = 2 := by simpa [write_then_read] using hvalid
    decide
  r n hvalid := by
    obtain rfl : n = 5 := by simpa [write_then_read] using hvalid
    exact ⟨⟨.cpu, 0, 0⟩, by decide, by decide⟩
  b_held n hvalid hready := by
    obtain rfl : n = 2 := by simpa [write_then_read] using hvalid
    exact absurd hready (by decide)
  r_held n hvalid hready := by
    obtain rfl : n = 5 := by simpa [write_then_read] using hvalid
    exact absurd hready (by decide)

theorem write_then_read_state (n : Nat) (hn : 6 ≤ n) :
    circuit.state write_then_read n = ⟨true, 0, 0⟩ := by
  refine Circuit.state_eq_of_step_eq (by decide) ?_ n hn
  intro n hn
  have hin : write_then_read n = write_then_read 6 := by
    simp [write_then_read, show n ≠ 0 by omega, show n ≠ 1 by omega, show n ≠ 2 by omega,
      show n ≠ 4 by omega, show n ≠ 5 by omega, show 3 ≤ n by omega]
  rw [hin]
  decide

theorem safe_write_then_read :
    Safe write_then_read ∧
      circuit.passed write_then_read r_delivered 6 = [(.cpu, ⟨0, 7, 0, true⟩)] := by
  refine ⟨safe_of_may write_then_read write_then_read_hbm fun n => ?_, by decide +kernel⟩
  rcases Nat.lt_or_ge n 6 with hlt | hge
  · interval_cases n <;> exact ⟨by decide, by decide, by decide⟩
  · rw [write_then_read_state n hge]
    refine ⟨fun h => absurd h (by decide), fun h => absurd h (by decide),
      fun _ _ _ hrun => absurd ?_ hrun⟩
    simp [write_then_read, show 3 ≤ n by omega]

/-- The shell sends the data of its second write before the address, and has to go in between. -/
def early_data (n : Nat) : HbmMuxIn where
  cpu_run_i := true
  master
    | .pcis => { no_requests with awvalid := n = 0 || 4 ≤ n, wvalid := n = 1 || n = 2 }
    | .cpu => no_requests
  hbm := ⟨true, true, n = 2, ⟨0, 0⟩, true, false, ⟨0, 0, 0, false⟩⟩

theorem early_data_last {n : Nat} (hn : 4 ≤ n) : early_data n = early_data 4 := by
  simp [early_data, hn, show n ≠ 0 by omega, show n ≠ 1 by omega, show n ≠ 2 by omega]

theorem early_data_state (n : Nat) (hn : 4 ≤ n) : circuit.state early_data n = ⟨true, 0, 0⟩ := by
  refine Circuit.state_eq_of_step_eq (by decide) ?_ n hn
  intro n hn
  rw [early_data_last hn]
  decide

theorem early_data_passed (n : Nat) :
    circuit.passed early_data aw_accepted n = circuit.passed early_data aw_accepted (min n 4) ∧
      circuit.passed early_data w_accepted n = circuit.passed early_data w_accepted (min n 4) := by
  rcases Nat.le_total n 4 with hle | hge
  · rw [Nat.min_eq_left hle]
    exact ⟨rfl, rfl⟩
  · rw [Nat.min_eq_right hge]
    constructor
    all_goals
      refine Circuit.passed_eq_of_nil (fun n hn => ?_) n hge
      rw [early_data_state n hn, early_data_last hn]
      decide

theorem early_data_master (o : HbmOwner) : MasterCompliant early_data o where
  aw n hvalid hready := by
    rcases Nat.lt_or_ge n 4 with hlt | hge
    · cases o <;> interval_cases n <;> revert hvalid hready <;> decide
    · dsimp only at hvalid ⊢
      rw [early_data_last hge] at hvalid
      rw [early_data_last hge, early_data_last (Nat.le_succ_of_le hge)]
      exact ⟨hvalid, rfl⟩
  w n hvalid hready := by
    rcases Nat.lt_or_ge n 4 with hlt | hge
    · cases o <;> interval_cases n <;> revert hvalid hready <;> decide
    · dsimp only at hvalid ⊢
      rw [early_data_last hge] at hvalid
      rw [early_data_last hge, early_data_last (Nat.le_succ_of_le hge)]
      exact ⟨hvalid, rfl⟩
  ar n hvalid hready := by
    cases o <;> simp [early_data, no_requests] at hvalid
  len n := by
    rw [(early_data_passed n).1, (early_data_passed n).2]
    have hle : min n 4 ≤ 4 := Nat.min_le_right n 4
    generalize min n 4 = k at hle
    constructor
    all_goals cases o <;> interval_cases k <;> decide

theorem early_data_hbm : HbmCompliant early_data where
  b n hvalid := by
    obtain rfl : n = 2 := by simpa [early_data] using hvalid
    decide
  r n hvalid := by simp [early_data] at hvalid
  b_held n hvalid hready := by
    obtain rfl : n = 2 := by simpa [early_data] using hvalid
    exact absurd hready (by decide)
  r_held n hvalid hready := by simp [early_data] at hvalid

theorem not_safe :
    ¬ ∀ ins, (∀ o, MasterCompliant ins o) → HbmCompliant ins → Safe ins := by
  intro h
  have hquiet := (h early_data early_data_master early_data_hbm).switch 3 (by decide)
  have hdata : (progress early_data 4).data ≠ [] := by decide
  exact hdata hquiet.2.1

end HbmMux

end AwsFpga.Rtl
