import AwsFpga.Lib.Bursts
import AwsFpga.Rtl.SdeC2hRuns

/-!
# The bursts of the C2H data mover (`sde_c2h_data.sv`)

A descriptor gets the next bytes of the stream, up to its length or to the end of the packet. However
they come in, they are written in bursts that tile them.
-/

open Lib Lib.Axi

namespace AwsFpga.Rtl

namespace C2hData

variable (i : C2hDataIn) (s : C2hData)

def dm_pm_awaddr : BitVec 64 := s.curr_desc_dest_addr

def dm_pm_awlen : Nat := s.curr_txn.awlen

/-- The burst that is asked for in `REQ_ADDR`, and sent in `REQ_DATA`. -/
def burst : Burst 64 where
  addr := dm_pm_awaddr s
  bytes := s.curr_txn.num_bytes
  beats := dm_pm_awlen s + 1

/-- The descriptor that is popped. -/
def popped : List C2hIfDesc := if dm_desc_pop i s then [desc_dm_desc_in i] else []

/-- The burst whose address is taken. -/
def issued : List (Burst 64) := if aw_req_done i s then [burst s] else []

end C2hData

namespace C2h

open C2hBuf (BUF_SIZE_BYTES bytes Packed unread row_up)
open C2hData (PCIM_MAX_WR_SIZE_BYTES)

/-! ## What a descriptor gets -/

/-- The bytes of a descriptor that starts at a place of the stream: its length, or up to the end of the
packet if that comes first. -/
def desc_bytes (beats : List AxisBeat) (pos len : Nat) : Nat :=
  if (beats.drop (pos / PCIM_DATA_WIDTH_BYTES)).any AxisBeat.last then
    min len (unread (beats.drop (pos / PCIM_DATA_WIDTH_BYTES)) (pos % PCIM_DATA_WIDTH_BYTES))
  else len

/-- Where the next descriptor starts. Behind the end of a packet that is the next row. -/
def desc_end (beats : List AxisBeat) (pos len : Nat) : Nat :=
  if (beats.drop (pos / PCIM_DATA_WIDTH_BYTES)).any AxisBeat.last ∧
      unread (beats.drop (pos / PCIM_DATA_WIDTH_BYTES)) (pos % PCIM_DATA_WIDTH_BYTES) ≤ len then
    row_up (pos + desc_bytes beats pos len)
  else pos + desc_bytes beats pos len

/-- The bursts of each descriptor tile what it gets. -/
def Tiled (p : C2hDataParams) (beats : List AxisBeat) :
    (pos : Nat) → List C2hIfDesc → List (List (Burst 64)) → Prop
  | _, [], [] => True
  | pos, d :: ds, bs :: bss =>
    Burst.Tiles d.dest_addr (desc_bytes beats pos d.len.toNat) bs ∧
      (∀ b ∈ bs, b.Good PCIM_DATA_WIDTH_BYTES (PCIM_MAX_WR_SIZE_BYTES p)) ∧
      Tiled p beats (desc_end beats pos d.len.toNat) ds bss
  | _, _, _ => False

section Runs

variable (p : C2hDataParams) (ins : Nat → C2hIn)

/-- The descriptors popped before cycle `n`. -/
def descs_in (n : Nat) : List C2hIfDesc :=
  (circuit p).passed ins (fun i s => C2hData.popped (data_in p i s) s.SDE_C2H_DATA) n

/-- The bursts whose addresses were taken before cycle `n`. -/
def writes_out (n : Nat) : List (Burst 64) :=
  (circuit p).passed ins (fun i s => C2hData.issued (data_in p i s) s.SDE_C2H_DATA) n

/-- The bursts of the descriptor that is being written: those whose addresses were taken since it was
popped. -/
def bursts_started : Nat → List (Burst 64)
  | 0 => []
  | n + 1 =>
    if C2hData.data_desc_done ((circuit p).state ins n).SDE_C2H_DATA then []
    else bursts_started n ++ C2hData.issued (data_in p (ins n) ((circuit p).state ins n))
      ((circuit p).state ins n).SDE_C2H_DATA

/-- The bursts of each descriptor that was done before cycle `n`. -/
def bursts_done : Nat → List (List (Burst 64))
  | 0 => []
  | n + 1 => bursts_done n ++
    if C2hData.data_desc_done ((circuit p).state ins n).SDE_C2H_DATA then
      [bursts_started p ins n ++ C2hData.issued (data_in p (ins n) ((circuit p).state ins n))
        ((circuit p).state ins n).SDE_C2H_DATA]
    else []

/-- The descriptor that is being written. -/
def in_progress (n : Nat) : Option C2hIfDesc :=
  if ((circuit p).state ins n).SDE_C2H_DATA.req_state = .REQ_IDLE then none
  else (descs_in p ins n).getLast?

/-- The descriptors that were written before cycle `n`. -/
def descs_written (n : Nat) : List C2hIfDesc :=
  if ((circuit p).state ins n).SDE_C2H_DATA.req_state = .REQ_IDLE then descs_in p ins n
  else (descs_in p ins n).dropLast

/-- What is expected of the bursts of cycle `n`: those of each descriptor tile what it gets, and those of
the last one are the first that do. -/
def WritesTile (n : Nat) : Prop :=
  ∃ complete started, writes_out p ins n = complete.flatten ++ started ∧
    Tiled p (beats_in p ins n) 0 (descs_written p ins n) complete ∧
    match in_progress p ins n with
    | none => started = []
    | some d =>
      ∃ sent, sent ≤ desc_bytes (beats_in p ins n)
          ((descs_written p ins n).foldl (fun pos d => desc_end (beats_in p ins n) pos d.len.toNat) 0)
          d.len.toNat ∧
        Burst.Tiles d.dest_addr sent started ∧
        ∀ b ∈ started, b.Good PCIM_DATA_WIDTH_BYTES (PCIM_MAX_WR_SIZE_BYTES p)

end Runs

/-! ## The first end behind a place -/

/-- The place is on a byte of its beat. -/
def OnByte (beats : List AxisBeat) (pos : Nat) : Prop :=
  ∀ b, beats[pos / PCIM_DATA_WIDTH_BYTES]? = some b → pos % PCIM_DATA_WIDTH_BYTES < bytes b

variable {beats new : List AxisBeat} {pos len sent next : Nat}

theorem OnByte.append (h : OnByte beats pos) (hfits : pos ≤ PCIM_DATA_WIDTH_BYTES * beats.length)
    (hpacked : ∀ b ∈ new, Packed b) : OnByte (beats ++ new) pos := by
  intro b hget
  rcases Nat.lt_or_ge (pos / PCIM_DATA_WIDTH_BYTES) beats.length with hlt | hge
  · rw [List.getElem?_append_left hlt] at hget
    exact h b hget
  · rw [List.getElem?_append_right hge] at hget
    have hpos := (hpacked b (List.mem_of_getElem? hget)).1
    rw [width_val] at *
    omega

theorem unread_first {l : List AxisBeat} {offset : Nat} (hany : l.any AxisBeat.last)
    (hpacked : ∀ b ∈ l, Packed b) (hoffset : offset ≤ PCIM_DATA_WIDTH_BYTES) (hon : ∀ b, l[0]? = some b → offset ≤ bytes b) :
    ∃ k b, l[k]? = some b ∧ b.last = true ∧
      (∀ (j : Nat) (b' : AxisBeat), j < k → l[j]? = some b' → b'.last = false) ∧
      offset + unread l offset = PCIM_DATA_WIDTH_BYTES * k + bytes b := by
  induction l generalizing offset with
  | nil => cases hany
  | cons b l ih =>
    rw [unread]
    cases hlast : b.last with
    | true =>
      have hle := hon b rfl
      refine ⟨0, b, rfl, hlast, fun j _ hj => absurd hj (Nat.not_lt_zero j), ?_⟩
      rw [if_pos rfl]
      omega
    | false =>
      rw [List.any_cons, hlast, Bool.false_or] at hany
      have hfull := (hpacked b (List.mem_cons_self ..)).2.2 hlast
      obtain ⟨k, b', hget, hlast', hfirst, hsum⟩ :=
        ih hany (fun x hx => hpacked x (List.mem_cons_of_mem _ hx)) (Nat.zero_le _)
          fun _ _ => Nat.zero_le _
      refine ⟨k + 1, b', hget, hlast', ?_, ?_⟩
      · intro j b'' hj hget'
        cases j with
        | zero =>
          obtain rfl : b = b'' := Option.some.inj hget'
          exact hlast
        | succ j => exact hfirst j b'' (by omega) hget'
      · rw [if_neg Bool.false_ne_true, Nat.mul_succ]
        omega

/-- Behind a place that is on a byte, the first end is where the bytes that are unread end. -/
theorem first_end (hpacked : ∀ b ∈ beats, Packed b) (hon : OnByte beats pos)
    (hany : (beats.drop (pos / PCIM_DATA_WIDTH_BYTES)).any AxisBeat.last) :
    EndsAt beats (pos + unread (beats.drop (pos / PCIM_DATA_WIDTH_BYTES)) (pos % PCIM_DATA_WIDTH_BYTES)) ∧
      pos < pos + unread (beats.drop (pos / PCIM_DATA_WIDTH_BYTES)) (pos % PCIM_DATA_WIDTH_BYTES) ∧
      Unbroken beats pos
        (pos + unread (beats.drop (pos / PCIM_DATA_WIDTH_BYTES)) (pos % PCIM_DATA_WIDTH_BYTES)) := by
  have hlt : pos % PCIM_DATA_WIDTH_BYTES < PCIM_DATA_WIDTH_BYTES := Nat.mod_lt _ (by decide)
  have hsplit := Nat.div_add_mod pos PCIM_DATA_WIDTH_BYTES
  have hrest : ∀ b ∈ beats.drop (pos / PCIM_DATA_WIDTH_BYTES), Packed b := fun b hb =>
    hpacked b (List.mem_of_mem_drop hb)
  obtain ⟨k, b, hget, hlast, hfirst, hsum⟩ := unread_first hany hrest (Nat.le_of_lt hlt) (by
    intro b hget
    rw [List.getElem?_drop] at hget
    exact Nat.le_of_lt (hon b hget))
  rw [List.getElem?_drop] at hget
  have hend : pos + unread (beats.drop (pos / PCIM_DATA_WIDTH_BYTES)) (pos % PCIM_DATA_WIDTH_BYTES) =
      PCIM_DATA_WIDTH_BYTES * (pos / PCIM_DATA_WIDTH_BYTES + k) + bytes b := by
    rw [Nat.mul_add]
    omega
  rw [hend]
  refine ⟨⟨_, b, hget, hlast, rfl⟩, ?_, ?_⟩
  · rcases Nat.eq_zero_or_pos k with rfl | hk
    · have hbyte := hon b hget
      rw [Nat.add_zero]
      omega
    · rw [width_val] at *
      omega
  · rintro x ⟨k', b', hget', hlast', rfl⟩ hx
    have hrow := end_row hx
    rcases Nat.lt_trichotomy k' (pos / PCIM_DATA_WIDTH_BYTES + k) with hk | rfl | hk
    · have hno := hfirst (k' - pos / PCIM_DATA_WIDTH_BYTES) b' (by omega) (by
        rw [List.getElem?_drop, Nat.add_sub_cancel' hrow, hget'])
      rw [hno] at hlast'
      cases hlast'
    · rw [hget, Option.some.injEq] at hget'
      rw [hget']
    · have hle := C2hBuf.bytes_le b
      rw [width_val] at *
      omega

theorem no_end_behind (hnone : (beats.drop (pos / PCIM_DATA_WIDTH_BYTES)).any AxisBeat.last = false)
    {x : Nat} (hend : EndsAt beats x) : x ≤ pos := by
  obtain ⟨k, b, hget, hlast, rfl⟩ := hend
  by_contra hlt
  have hrow := end_row (b := b) (k := k) (Nat.lt_of_not_le hlt)
  rw [← Nat.add_sub_cancel' hrow, ← List.getElem?_drop] at hget
  rw [List.any_eq_false] at hnone
  exact hnone b (List.mem_of_getElem? hget) hlast

/-- A descriptor got its bytes, and the next one starts at `next`. -/
structure Got (beats : List AxisBeat) (pos len sent next : Nat) : Prop where
  packed : ∀ b ∈ beats, Packed b
  on_byte : OnByte beats pos
  fits : pos + sent ≤ PCIM_DATA_WIDTH_BYTES * beats.length
  some : 0 < len → 0 < sent
  le : sent ≤ len
  unbroken : Unbroken beats pos (pos + sent)
  done : (0 < sent ∧ EndsAt beats (pos + sent)) ∧ next = row_up (pos + sent) ∨
    ¬(0 < sent ∧ EndsAt beats (pos + sent)) ∧ sent = len ∧ next = pos + sent

theorem Got.append (h : Got beats pos len sent next) (hpacked : ∀ b ∈ new, Packed b) :
    Got (beats ++ new) pos len sent next where
  packed b hb := (List.mem_append.mp hb).elim (h.packed b) (hpacked b)
  on_byte := h.on_byte.append ((Nat.le_add_right _ _).trans h.fits) hpacked
  fits := h.fits.trans (Nat.mul_le_mul_left _ (by simp))
  some := h.some
  le := h.le
  unbroken := h.unbroken.append h.fits
  done := by
    rw [endsAt_append_iff hpacked h.fits]
    exact h.done

theorem Got.eq (h : Got beats pos len sent next) :
    desc_bytes beats pos len = sent ∧ desc_end beats pos len = next := by
  have hle := h.le
  unfold desc_end desc_bytes
  cases hany : (beats.drop (pos / PCIM_DATA_WIDTH_BYTES)).any AxisBeat.last with
  | true =>
    obtain ⟨hend, hlt, hfirst⟩ := first_end h.packed h.on_byte hany
    have hsent := h.unbroken _ hend hlt
    rw [if_pos rfl]
    rcases h.done with ⟨⟨hpos, hends⟩, rfl⟩ | ⟨hno, rfl, rfl⟩
    · have hback := hfirst _ hends (by omega)
      have heq : unread (beats.drop (pos / PCIM_DATA_WIDTH_BYTES)) (pos % PCIM_DATA_WIDTH_BYTES) =
          sent := by omega
      rw [heq, Nat.min_eq_right hle, if_pos ⟨rfl, hle⟩]
      exact ⟨rfl, rfl⟩
    · have hmore : ¬unread (beats.drop (pos / PCIM_DATA_WIDTH_BYTES)) (pos % PCIM_DATA_WIDTH_BYTES) ≤
          sent := by
        intro hall
        have heq : pos + unread (beats.drop (pos / PCIM_DATA_WIDTH_BYTES))
            (pos % PCIM_DATA_WIDTH_BYTES) = pos + sent := by omega
        rw [heq] at hend
        exact hno ⟨by omega, hend⟩
      rw [Nat.min_eq_left (by omega), if_neg fun hc => hmore hc.2]
      exact ⟨rfl, rfl⟩
  | false =>
    rcases h.done with ⟨⟨hpos, hends⟩, -⟩ | ⟨-, rfl, rfl⟩
    · have hbehind := no_end_behind hany hends
      omega
    · simp

/-! ## Descriptors one after another -/

/-- The descriptors that were written, with the bursts of each, and the place behind them. -/
inductive Chain (p : C2hDataParams) (beats : List AxisBeat) :
    List C2hIfDesc → List (List (Burst 64)) → Nat → Prop
  | nil : Chain p beats [] [] 0
  | snoc {ds : List C2hIfDesc} {bss : List (List (Burst 64))} {pos : Nat} {d : C2hIfDesc}
      {bs : List (Burst 64)} {sent next : Nat} (before : Chain p beats ds bss pos)
      (got : Got beats pos d.len.toNat sent next) (tiles : Burst.Tiles d.dest_addr sent bs)
      (good : ∀ b ∈ bs, 0 < b.bytes → b.Good PCIM_DATA_WIDTH_BYTES (PCIM_MAX_WR_SIZE_BYTES p)) :
      Chain p beats (ds ++ [d]) (bss ++ [bs]) next

section Chains

variable {p : C2hDataParams} {ds : List C2hIfDesc} {bss : List (List (Burst 64))}

theorem Chain.append (h : Chain p beats ds bss pos) (hpacked : ∀ b ∈ new, Packed b) :
    Chain p (beats ++ new) ds bss pos := by
  induction h with
  | nil => exact .nil
  | snoc _ got tiles good ih => exact .snoc ih (got.append hpacked) tiles good

theorem Tiled.concat {d : C2hIfDesc} {bs : List (Burst 64)} (h : Tiled p beats pos ds bss)
    (htiles : Burst.Tiles d.dest_addr (desc_bytes beats
      (ds.foldl (fun pos d => desc_end beats pos d.len.toNat) pos) d.len.toNat) bs)
    (hgood : ∀ b ∈ bs, b.Good PCIM_DATA_WIDTH_BYTES (PCIM_MAX_WR_SIZE_BYTES p)) :
    Tiled p beats pos (ds ++ [d]) (bss ++ [bs]) := by
  induction ds generalizing pos bss with
  | nil =>
    cases bss with
    | nil => exact ⟨htiles, hgood, trivial⟩
    | cons _ _ => exact h.elim
  | cons d' ds ih =>
    cases bss with
    | nil => exact h.elim
    | cons bs' bss => exact ⟨h.1, h.2.1, ih h.2.2 htiles⟩

theorem Chain.place (h : Chain p beats ds bss pos) :
    ds.foldl (fun pos d => desc_end beats pos d.len.toNat) 0 = pos := by
  induction h with
  | nil => rfl
  | snoc _ got _ _ ih =>
    rw [List.foldl_append, ih]
    exact got.eq.2

theorem Chain.from_dest (h : Chain p beats ds bss pos) :
    List.Forall₂ (fun d bs => ∃ sent ≤ d.len.toNat, Burst.Tiles d.dest_addr sent bs) ds bss := by
  induction h with
  | nil => exact .nil
  | @snoc ds bss pos d bs sent next before got tiles good ih =>
    exact List.rel_append ih (.cons ⟨sent, got.le, tiles⟩ .nil)

theorem Chain.tiled (h : Chain p beats ds bss pos) (hsome : ∀ b ∈ bss.flatten, 0 < b.bytes) :
    Tiled p beats 0 ds bss := by
  induction h with
  | nil => trivial
  | snoc before got tiles good ih =>
    rw [List.flatten_append, List.flatten_singleton] at hsome
    refine (ih fun b hb => hsome b (List.mem_append_left _ hb)).concat ?_ fun b hb =>
      good b hb (hsome b (List.mem_append_right _ hb))
    rw [before.place, got.eq.1]
    exact tiles

end Chains

/-! ## A descriptor that is being written -/

/-- Descriptor `d` started at `pos`. The bursts up to `base` are sent, and in `REQ_DATA` the one from
there on is on its way. -/
structure Current (p : C2hDataParams) (beats : List AxisBeat) (pos base : Nat) (d : C2hIfDesc)
    (dm : C2hData) (started : List (Burst 64)) : Prop where
  on_byte : OnByte beats pos
  le : pos ≤ base
  fits : base ≤ PCIM_DATA_WIDTH_BYTES * beats.length
  unbroken : Unbroken beats pos base
  no_end : pos < base → ¬EndsAt beats base
  len : dm.curr_desc_len + (base - pos) = d.len.toNat
  dest : dm.curr_desc_dest_addr = d.dest_addr + BitVec.ofNat 64 (base - pos)
  bursts : ∃ sent, Burst.Tiles d.dest_addr (base - pos) sent ∧
    (∀ b ∈ sent, 0 < b.bytes → b.Good PCIM_DATA_WIDTH_BYTES (PCIM_MAX_WR_SIZE_BYTES p)) ∧
    started = sent ++ if dm.req_state = .REQ_DATA then [C2hData.burst dm] else []

section Desc

variable {p : C2hDataParams} {dm dm' : C2hData} {base rows : Nat} {d : C2hIfDesc} {q : C2hJob}
  {started : List (Burst 64)}

theorem max_dvd (p : C2hDataParams) : PCIM_DATA_WIDTH_BYTES ∣ PCIM_MAX_WR_SIZE_BYTES p := by
  unfold PCIM_MAX_WR_SIZE_BYTES
  split <;> decide

theorem burst_dest (hserves : C2hData.Serves p base q dm) (hchosen : Chosen p beats rows base q dm) :
    (C2hData.burst dm).addr.toNat % PCIM_DATA_WIDTH_BYTES = q.dest := by
  rw [← hserves.held.dest, C2hData.txn_dest_idx, hchosen.dest]
  rfl

theorem good_of_chosen (hserves : C2hData.Serves p base q dm)
    (hchosen : Chosen p beats rows base q dm)
    (hmax : dm.curr_desc_max_minus_dest_addr =
      PCIM_MAX_WR_SIZE_BYTES p - dm.curr_desc_dest_addr.toNat % PCIM_MAX_WR_SIZE_BYTES p)
    (hbytes : 0 < dm.curr_txn.num_bytes) :
    (C2hData.burst dm).Good PCIM_DATA_WIDTH_BYTES (PCIM_MAX_WR_SIZE_BYTES p) := by
  have hrow : 0 < PCIM_DATA_WIDTH_BYTES := by decide
  have hheld := hserves.held
  have hsome : 0 < q.bytes := hheld.num_bytes ▸ hbytes
  have hlt := Nat.mod_lt dm.curr_desc_dest_addr.toNat (max_pos p)
  have hinside : dm.curr_desc_dest_addr.toNat % PCIM_MAX_WR_SIZE_BYTES p + dm.curr_txn.num_bytes ≤
      PCIM_MAX_WR_SIZE_BYTES p := by
    have hle := hchosen.max
    rw [hmax, ← hheld.num_bytes] at hle
    omega
  have hdest : dm.curr_desc_dest_addr.toNat % PCIM_DATA_WIDTH_BYTES = q.dest :=
    burst_dest hserves hchosen
  have hbeats : dm.curr_txn.awlen + 1 =
      (touched PCIM_DATA_WIDTH_BYTES dm.curr_desc_dest_addr.toNat dm.curr_txn.num_bytes).card := by
    rw [hserves.awlen hsome, card_touched hrow _ hbytes, C2hJob.beats_some hheld.num_bytes.symm hbytes,
      ← hdest]
  refine ⟨hbytes, hinside, hbeats, ?_⟩
  change dm.curr_txn.awlen + 1 ≤ _
  rw [hbeats]
  exact card_touched_le hrow (max_dvd p) hinside

theorem current_of_pop (hon : OnByte beats pos) (hfits : pos ≤ PCIM_DATA_WIDTH_BYTES * beats.length)
    (hlen : dm.curr_desc_len = d.len.toNat) (hdest : dm.curr_desc_dest_addr = d.dest_addr)
    (hstate : dm.req_state ≠ .REQ_DATA) : Current p beats pos pos d dm [] where
  on_byte := hon
  le := Nat.le_refl pos
  fits := hfits
  unbroken _ _ hx := Nat.le_of_lt hx
  no_end hlt := absurd hlt (Nat.lt_irrefl pos)
  len := by rw [hlen, Nat.sub_self, Nat.add_zero]
  dest := by
    rw [hdest, Nat.sub_self]
    exact (BitVec.add_zero _).symm
  bursts := ⟨[], Nat.sub_self pos, by simp, by rw [if_neg hstate]; rfl⟩

theorem Current.keep (h : Current p beats pos base d dm started) (hpacked : ∀ b ∈ new, Packed b)
    (hlen : dm'.curr_desc_len = dm.curr_desc_len)
    (hdest : dm'.curr_desc_dest_addr = dm.curr_desc_dest_addr) {issued : List (Burst 64)}
    (hburst : (if dm.req_state = .REQ_DATA then [C2hData.burst dm] else []) ++ issued =
      if dm'.req_state = .REQ_DATA then [C2hData.burst dm'] else []) :
    Current p (beats ++ new) pos base d dm' (started ++ issued) where
  on_byte := h.on_byte.append (h.le.trans h.fits) hpacked
  le := h.le
  fits := h.fits.trans (Nat.mul_le_mul_left _ (by simp))
  unbroken := h.unbroken.append h.fits
  no_end hlt := by
    rw [endsAt_append_iff hpacked h.fits]
    exact h.no_end hlt
  len := by rw [hlen, h.len]
  dest := by rw [hdest, h.dest]
  bursts := by
    obtain ⟨sent, htiles, hgood, hstarted⟩ := h.bursts
    refine ⟨sent, htiles, hgood, ?_⟩
    rw [hstarted, List.append_assoc, hburst]

theorem Current.all_sent (h : Current p beats pos base d dm started)
    (hstate : dm.req_state = .REQ_DATA) (hserves : C2hData.Serves p base q dm)
    (hchosen : Chosen p beats rows base q dm)
    (hmax : dm.curr_desc_max_minus_dest_addr =
      PCIM_MAX_WR_SIZE_BYTES p - dm.curr_desc_dest_addr.toNat % PCIM_MAX_WR_SIZE_BYTES p) :
    Burst.Tiles d.dest_addr (base + q.bytes - pos) started ∧
      (∀ b ∈ started, 0 < b.bytes → b.Good PCIM_DATA_WIDTH_BYTES (PCIM_MAX_WR_SIZE_BYTES p)) ∧
      Unbroken beats pos (base + q.bytes) := by
  have hle := h.le
  obtain ⟨sent, htiles, hgood, hstarted⟩ := h.bursts
  rw [hstate, if_pos rfl] at hstarted
  have hmore := htiles.concat (b := C2hData.burst dm) h.dest
  have hbytes : (C2hData.burst dm).bytes = q.bytes := hserves.held.num_bytes
  have hsum : base - pos + q.bytes = base + q.bytes - pos := by omega
  rw [hbytes, hsum] at hmore
  rw [hstarted]
  refine ⟨hmore, ?_, ?_⟩
  · intro b hb
    rcases List.mem_append.mp hb with hb | hb
    · exact hgood b hb
    · obtain rfl := List.mem_singleton.mp hb
      exact good_of_chosen hserves hchosen hmax
  · intro x hend hx
    rcases Nat.lt_or_ge base x with hlt | hge
    · exact hchosen.unbroken x hend hlt
    · have hbase := h.unbroken x hend hx
      have heq : x = base := by omega
      subst heq
      exact absurd hend (h.no_end hx)

/-- A burst with which no packet ends leaves the descriptor within one. -/
theorem Current.not_ended (h : Current p beats pos base d dm started)
    (hchosen : Chosen p beats rows base q dm) (hends : q.ends = false) (hlt : pos < base + q.bytes) :
    ¬EndsAt beats (base + q.bytes) := by
  intro hend
  rcases Nat.eq_zero_or_pos q.bytes with hnull | hsome
  · rw [hnull] at hend hlt
    exact h.no_end hlt hend
  · rw [hchosen.ends.mpr ⟨hsome, hend⟩] at hends
    cases hends

theorem Current.got (h : Current p beats pos base d dm started) (hpacked : ∀ b ∈ beats, Packed b)
    (hserves : C2hData.Serves p base q dm) (hchosen : Chosen p beats rows base q dm)
    (hrows : rows ≤ beats.length) (hunbroken : Unbroken beats pos (base + q.bytes))
    (hdone : dm.curr_desc_len ≤ dm.curr_txn.num_bytes ∨ q.ends) :
    Got beats pos d.len.toNat (base + q.bytes - pos) (base_next base q) := by
  have hle := h.le
  have hlen := h.len
  have hsize := hchosen.len
  have hsome := hchosen.some
  have hsum : pos + (base + q.bytes - pos) = base + q.bytes := by omega
  refine ⟨hpacked, h.on_byte, ?_, by omega, by omega, ?_, ?_⟩
  · rw [hsum]
    exact hchosen.fits.trans (Nat.mul_le_mul_left _ hrows)
  · rw [hsum]
    exact hunbroken
  · rw [hsum, base_next]
    cases hends : q.ends with
    | true =>
      obtain ⟨hpos, hend⟩ := hchosen.ends.mp hends
      exact .inl ⟨⟨by omega, hend⟩, rfl⟩
    | false =>
      have hall : dm.curr_desc_len ≤ dm.curr_txn.num_bytes := by
        rcases hdone with hall | hc
        · exact hall
        · rw [hends] at hc
          cases hc
      rw [hserves.held.num_bytes] at hall
      exact .inr ⟨fun hc => h.not_ended hchosen hends (by omega) hc.2, by omega, rfl⟩

theorem Current.goes_on (h : Current p beats pos base d dm started)
    (hserves : C2hData.Serves p base q dm) (hchosen : Chosen p beats rows base q dm)
    (hrows : rows ≤ beats.length) (hunbroken : Unbroken beats pos (base + q.bytes))
    (htiles : Burst.Tiles d.dest_addr (base + q.bytes - pos) started)
    (hgood : ∀ b ∈ started, 0 < b.bytes → b.Good PCIM_DATA_WIDTH_BYTES (PCIM_MAX_WR_SIZE_BYTES p))
    (hends : q.ends = false) (hpacked : ∀ b ∈ new, Packed b)
    (hlen : dm'.curr_desc_len = dm.curr_desc_len - dm.curr_txn.num_bytes)
    (hdest : dm'.curr_desc_dest_addr =
      dm.curr_desc_dest_addr + BitVec.ofNat 64 dm.curr_txn.num_bytes)
    (hstate : dm'.req_state ≠ .REQ_DATA) :
    Current p (beats ++ new) pos (base + q.bytes) d dm' started := by
  have hle := h.le
  have hlen' := h.len
  have hsize := hchosen.len
  have hfits : base + q.bytes ≤ PCIM_DATA_WIDTH_BYTES * beats.length :=
    hchosen.fits.trans (Nat.mul_le_mul_left _ hrows)
  have hsum : base - pos + q.bytes = base + q.bytes - pos := by omega
  refine ⟨h.on_byte.append ((h.le.trans h.fits)) hpacked, by omega,
    hfits.trans (Nat.mul_le_mul_left _ (by simp)), hunbroken.append hfits, fun hlt => ?_, ?_, ?_, ?_⟩
  · rw [endsAt_append_iff hpacked hfits]
    exact h.not_ended hchosen hends hlt
  · rw [hlen, hserves.held.num_bytes]
    omega
  · rw [hdest, h.dest, hserves.held.num_bytes, BitVec.add_assoc, ← BitVec.ofNat_add, hsum]
  · refine ⟨started, htiles, hgood, ?_⟩
    rw [if_neg hstate, List.append_nil]

end Desc

/-- Before the last beat of a burst, an address that is taken is that of the burst that is sent next. -/
theorem burst_step {p : C2hDataParams} {i : C2hDataIn} {dm : C2hData}
    (hbusy : dm.req_state ≠ .REQ_IDLE) (hdone : C2hData.data_tx_done dm = false) :
    ((if dm.req_state = .REQ_DATA then [C2hData.burst dm] else []) ++ C2hData.issued i dm =
        if (C2hData.step p i dm).req_state = .REQ_DATA then [C2hData.burst (C2hData.step p i dm)]
        else []) ∧ (C2hData.step p i dm).req_state ≠ .REQ_IDLE := by
  have hdesc := (@desc_kept p i dm hdone hbusy).1
  have hburst : dm.req_state ≠ .REQ_WAIT_DATA →
      C2hData.burst (C2hData.step p i dm) = C2hData.burst dm := by
    intro hnot
    have htxn : (C2hData.step p i dm).curr_txn = dm.curr_txn := if_neg hnot
    simp only [C2hData.burst, C2hData.dm_pm_awaddr, C2hData.dm_pm_awlen, hdesc, htxn]
  have hnext : (C2hData.step p i dm).req_state = C2hData.req_state_next i dm := rfl
  have hissued : dm.req_state ≠ .REQ_ADDR → C2hData.issued i dm = [] := by
    intro hnot
    simp [C2hData.issued, C2hData.aw_req_done, C2hData.dm_pm_awvalid, hnot]
  rw [hnext, C2hData.req_state_next]
  cases hstate : dm.req_state with
  | REQ_IDLE => exact absurd hstate hbusy
  | REQ_GET_DESC => simp [hissued (by simp [hstate])]
  | REQ_WAIT_DATA =>
    rw [hissued (by simp [hstate])]
    cases C2hData.curr_txn_data_avail dm && !C2hData.dp_wb_ff_full dm &&
      C2hData.bresp_prealloc_avail dm <;> simp
  | REQ_ADDR =>
    rw [hburst (by simp [hstate]), C2hData.issued]
    cases C2hData.aw_req_done i dm <;> simp
  | REQ_DATA =>
    rw [hissued (by simp [hstate]), hburst (by simp [hstate])]
    simp [hdone]
  | REQ_WAIT_CALC => simp [hissued (by simp [hstate])]

/-! ## Whole runs -/

/-- Before cycle `n` the descriptors `ds` were written, and `cur` is on its way. -/
structure Progress (p : C2hDataParams) (ins : Nat → C2hIn) (n : Nat) (ds : List C2hIfDesc)
    (cur : Option C2hIfDesc) (pos : Nat) : Prop where
  descs : descs_in p ins n = ds ++ cur.toList
  idle : ((circuit p).state ins n).SDE_C2H_DATA.req_state = .REQ_IDLE ↔ cur = none
  chain : Chain p (beats_in p ins n) ds (bursts_done p ins n) pos
  none : cur = none → bursts_started p ins n = [] ∧ place p ins n = pos
  current : ∀ d, cur = some d → Current p (beats_in p ins n) pos (place p ins n) d
    ((circuit p).state ins n).SDE_C2H_DATA (bursts_started p ins n)

section Progress

variable {p : C2hDataParams} {ins : Nat → C2hIn} {n : Nat} {ds : List C2hIfDesc}
  {cur : Option C2hIfDesc} {pos : Nat}

theorem progress_zero : Progress p ins 0 [] none 0 where
  descs := rfl
  idle := ⟨fun _ => rfl, fun _ => rfl⟩
  chain := .nil
  none := fun _ => ⟨rfl, rfl⟩
  current := nofun

theorem descs_in_succ : descs_in p ins (n + 1) = descs_in p ins n ++
    C2hData.popped (data_in p (ins n) ((circuit p).state ins n))
      ((circuit p).state ins n).SDE_C2H_DATA := rfl

theorem writes_out_succ : writes_out p ins (n + 1) = writes_out p ins n ++
    C2hData.issued (data_in p (ins n) ((circuit p).state ins n))
      ((circuit p).state ins n).SDE_C2H_DATA := rfl

/-- The bursts of the descriptors are all bursts. -/
theorem writes_split (n : Nat) :
    writes_out p ins n = (bursts_done p ins n).flatten ++ bursts_started p ins n := by
  induction n with
  | zero => rfl
  | succ n ih =>
    rw [writes_out_succ, ih, bursts_done, bursts_started]
    split <;> simp

theorem bursts_of_descs_kept (hdone : C2hData.data_tx_done ((circuit p).state ins n).SDE_C2H_DATA = false) :
    bursts_done p ins (n + 1) = bursts_done p ins n ∧
      bursts_started p ins (n + 1) = bursts_started p ins n ++
        C2hData.issued (data_in p (ins n) ((circuit p).state ins n))
          ((circuit p).state ins n).SDE_C2H_DATA := by
  simp [bursts_done, bursts_started, C2hData.data_desc_done, hdone]

theorem not_issued {i : C2hDataIn} {dm : C2hData} (hnot : dm.req_state ≠ .REQ_ADDR) :
    C2hData.issued i dm = [] := by
  simp [C2hData.issued, C2hData.aw_req_done, C2hData.dm_pm_awvalid, hnot]

theorem progress_idle (h : Progress p ins n ds none pos)
    (hheld : Holds p ((circuit p).state ins n) (beats_in p ins n) (beats_in p ins (n - 1))
      (place p ins n))
    (hpacked : ∀ b ∈ accepted (ins n) ((circuit p).state ins n), Packed b) :
    ∃ ds' cur' pos', Progress p ins (n + 1) ds' cur' pos' := by
  have hstate := h.idle.mpr rfl
  obtain ⟨hnone, hplace⟩ := h.none rfl
  obtain ⟨bqq, rp, r, hlinked, hphase⟩ := hheld
  have hempty : C2hData.Empty ((circuit p).state ins n).SDE_C2H_DATA ∧ r = place p ins n := by
    cases hphase with
    | idle state empty started here => exact ⟨empty, here⟩
    | next state => rw [hstate] at state; cases state
    | wait state => rw [hstate] at state; cases state
    | addr q state => rw [hstate] at state; cases state
    | load q state => rw [hstate] at state; cases state
    | data q c state => rw [hstate] at state; cases state
  have hplace' : place p ins (n + 1) = place p ins n := place_kept hempty.1.no_tx_done _
  obtain ⟨hbss, hstarted⟩ := bursts_of_descs_kept hempty.1.no_tx_done
  rw [hnone, not_issued (by rw [hstate]; decide), List.append_nil] at hstarted
  have hchain : Chain p (beats_in p ins (n + 1)) ds (bursts_done p ins (n + 1)) pos := by
    rw [hbss]
    exact h.chain.append hpacked
  have hdescs := h.descs
  rw [Option.toList_none, List.append_nil] at hdescs
  have hnext : ((circuit p).state ins (n + 1)).SDE_C2H_DATA.req_state =
      if (ins n).desc_dm_desc_valid then .REQ_WAIT_DATA else .REQ_IDLE := by
    change C2hData.req_state_next _ _ = _
    rw [C2hData.req_state_next, hstate]
    rfl
  cases hvalid : (ins n).desc_dm_desc_valid with
  | false =>
    rw [hvalid, if_neg Bool.false_ne_true] at hnext
    have hpop : C2hData.popped (data_in p (ins n) ((circuit p).state ins n))
        ((circuit p).state ins n).SDE_C2H_DATA = [] := by
      simp [C2hData.popped, C2hData.dm_desc_pop, data_in, hvalid]
    exact ⟨ds, none, pos,
      { descs := by rw [descs_in_succ, hpop, hdescs]; rfl
        idle := ⟨fun _ => rfl, fun _ => hnext⟩
        chain := hchain
        none := fun _ => ⟨hstarted, hplace'.trans hplace⟩
        current := fun _ hd => absurd hd.symm (Option.some_ne_none _) }⟩
  | true =>
    rw [hvalid, if_pos rfl] at hnext
    have hgo : C2hData.dm_desc_pop (data_in p (ins n) ((circuit p).state ins n))
        ((circuit p).state ins n).SDE_C2H_DATA = true := by
      simp [C2hData.dm_desc_pop, hstate, data_in, hvalid]
    have hfits : pos ≤ PCIM_DATA_WIDTH_BYTES * (beats_in p ins n).length := by
      have hrows := C2hBuf.read_rows hlinked.track
      have hread := hlinked.track.read
      have hle : PCIM_DATA_WIDTH_BYTES * bqq.length ≤
          PCIM_DATA_WIDTH_BYTES * (beats_in p ins n).length := Nat.mul_le_mul_left _ (by omega)
      omega
    have hon : OnByte (beats_in p ins n) pos := by
      have hbyte := hlinked.track.on_byte
      rw [hempty.2, hplace] at hbyte
      exact hbyte
    refine ⟨ds, some (c2h_cnv_desc_comm2if (ins n).desc_dm_desc), pos, ?_⟩
    exact
      { descs := by rw [descs_in_succ, C2hData.popped, if_pos hgo, hdescs]; rfl
        idle := by simp [hnext]
        chain := hchain
        none := fun hc => absurd hc (Option.some_ne_none _)
        current := by
          intro d hd
          obtain rfl := Option.some.inj hd
          have hmore : beats_in p ins n <+: beats_in p ins (n + 1) := List.prefix_append _ _
          rw [hplace', hplace, hstarted]
          exact current_of_pop (hon.append hfits hpacked)
            (hfits.trans (Nat.mul_le_mul_left _ hmore.length_le)) (if_pos hgo) (if_pos hgo)
            (by rw [hnext]; decide) }

theorem popped_busy {i : C2hDataIn} {dm : C2hData} (hbusy : dm.req_state ≠ .REQ_IDLE) :
    C2hData.popped i dm = [] := by
  simp [C2hData.popped, C2hData.dm_desc_pop, hbusy]

theorem progress_busy {d : C2hIfDesc} (h : Progress p ins n ds (some d) pos)
    (hpacked : ∀ b ∈ accepted (ins n) ((circuit p).state ins n), Packed b)
    (hdone : C2hData.data_tx_done ((circuit p).state ins n).SDE_C2H_DATA = false) :
    Progress p ins (n + 1) ds (some d) pos := by
  have hbusy : ((circuit p).state ins n).SDE_C2H_DATA.req_state ≠ .REQ_IDLE := fun hidle =>
    absurd (h.idle.mp hidle) (Option.some_ne_none _)
  obtain ⟨hburst, hnext⟩ := @burst_step p (data_in p (ins n) ((circuit p).state ins n))
    ((circuit p).state ins n).SDE_C2H_DATA hbusy hdone
  obtain ⟨hdest, hlen⟩ := @desc_kept p (data_in p (ins n) ((circuit p).state ins n))
    ((circuit p).state ins n).SDE_C2H_DATA hdone hbusy
  have hplace : place p ins (n + 1) = place p ins n := place_kept hdone _
  obtain ⟨hbss, hstarted⟩ := bursts_of_descs_kept hdone
  exact
    { descs := by rw [descs_in_succ, popped_busy hbusy, List.append_nil, h.descs]
      idle := ⟨fun hidle => absurd hidle hnext, fun hc => absurd hc (Option.some_ne_none _)⟩
      chain := by
        rw [hbss]
        exact h.chain.append hpacked
      none := fun hc => absurd hc (Option.some_ne_none _)
      current := by
        intro d' hd
        rw [hplace, hstarted]
        exact (h.current d' hd).keep hpacked hlen hdest hburst }

theorem Progress.desc_done {d : C2hIfDesc} {sent next : Nat} (h : Progress p ins n ds (some d) pos)
    (hpacked : ∀ b ∈ accepted (ins n) ((circuit p).state ins n), Packed b)
    (hdone : C2hData.data_tx_done ((circuit p).state ins n).SDE_C2H_DATA = true)
    (hstate : ((circuit p).state ins n).SDE_C2H_DATA.req_state = .REQ_DATA)
    (hdesc : C2hData.data_desc_done ((circuit p).state ins n).SDE_C2H_DATA = true)
    (hgot : Got (beats_in p ins n) pos d.len.toNat sent next)
    (htiles : Burst.Tiles d.dest_addr sent (bursts_started p ins n))
    (hgood : ∀ b ∈ bursts_started p ins n,
      0 < b.bytes → b.Good PCIM_DATA_WIDTH_BYTES (PCIM_MAX_WR_SIZE_BYTES p))
    (hplace : place p ins (n + 1) = next) :
    Progress p ins (n + 1) (ds ++ [d]) Option.none next where
  descs := by
    have hbusy : ((circuit p).state ins n).SDE_C2H_DATA.req_state ≠ .REQ_IDLE := by
      rw [hstate]
      decide
    rw [descs_in_succ, popped_busy hbusy, h.descs, List.append_nil]
    exact (List.append_nil _).symm
  idle := by
    have hnext := @state_done p (data_in p (ins n) ((circuit p).state ins n)) _ hdone hstate
    rw [if_pos hdesc] at hnext
    exact ⟨fun _ => rfl, fun _ => hnext⟩
  chain := by
    rw [bursts_done, if_pos hdesc, not_issued (by rw [hstate]; decide), List.append_nil]
    exact (h.chain.append hpacked).snoc (hgot.append hpacked) htiles hgood
  none := fun _ => ⟨if_pos hdesc, hplace⟩
  current := fun _ hd => absurd hd.symm (Option.some_ne_none _)

theorem Progress.burst_done {d : C2hIfDesc} (h : Progress p ins n ds (some d) pos)
    (hpacked : ∀ b ∈ accepted (ins n) ((circuit p).state ins n), Packed b)
    (hdone : C2hData.data_tx_done ((circuit p).state ins n).SDE_C2H_DATA = true)
    (hstate : ((circuit p).state ins n).SDE_C2H_DATA.req_state = .REQ_DATA)
    (hdesc : C2hData.data_desc_done ((circuit p).state ins n).SDE_C2H_DATA = false)
    (hcur : ((circuit p).state ins (n + 1)).SDE_C2H_DATA.req_state = .REQ_WAIT_CALC →
      Current p (beats_in p ins (n + 1)) pos (place p ins (n + 1)) d
        ((circuit p).state ins (n + 1)).SDE_C2H_DATA (bursts_started p ins n)) :
    Progress p ins (n + 1) ds (some d) pos := by
  have hnext : ((circuit p).state ins (n + 1)).SDE_C2H_DATA.req_state =
      if C2hData.data_desc_done ((circuit p).state ins n).SDE_C2H_DATA then .REQ_IDLE
      else .REQ_WAIT_CALC := state_done hdone hstate
  rw [hdesc, if_neg Bool.false_ne_true] at hnext
  have hbss : bursts_done p ins (n + 1) = bursts_done p ins n := by
    rw [bursts_done, hdesc, if_neg Bool.false_ne_true, List.append_nil]
  have hstarted : bursts_started p ins (n + 1) = bursts_started p ins n := by
    rw [bursts_started, hdesc, if_neg Bool.false_ne_true, not_issued (by rw [hstate]; decide),
      List.append_nil]
  refine ⟨?_, ⟨fun hidle => ?_, fun hc => absurd hc (Option.some_ne_none _)⟩, ?_,
    fun hc => absurd hc (Option.some_ne_none _), fun d' hd => ?_⟩
  · have hbusy : ((circuit p).state ins n).SDE_C2H_DATA.req_state ≠ .REQ_IDLE := by
      rw [hstate]
      decide
    rw [descs_in_succ, popped_busy hbusy, List.append_nil, h.descs]
  · rw [hnext] at hidle
    cases hidle
  · rw [hbss]
    exact h.chain.append hpacked
  · obtain rfl := Option.some.inj hd
    rw [hstarted]
    exact hcur hnext

theorem progress_done {d : C2hIfDesc} (h : Progress p ins n ds (some d) pos)
    (hheld : Holds p ((circuit p).state ins n) (beats_in p ins n) (beats_in p ins (n - 1))
      (place p ins n))
    (hpacked : ∀ b ∈ accepted (ins n) ((circuit p).state ins n), Packed b)
    (hdone : C2hData.data_tx_done ((circuit p).state ins n).SDE_C2H_DATA = true) :
    ∃ ds' cur' pos', Progress p ins (n + 1) ds' cur' pos' := by
  obtain ⟨bqq, rp, r, hlinked, hphase⟩ := hheld
  cases hphase with
  | idle state empty => rw [empty.no_tx_done] at hdone; cases hdone
  | next state empty => rw [empty.no_tx_done] at hdone; cases hdone
  | wait state empty => rw [empty.no_tx_done] at hdone; cases hdone
  | addr q state empty => rw [empty.no_tx_done] at hdone; cases hdone
  | load q state empty => rw [empty.no_tx_done] at hdone; cases hdone
  | data q c state flow loaded here before serves chosen rdata =>
    have hrows : bqq.length ≤ (beats_in p ins n).length := by
      have hrows := C2hBuf.read_rows hlinked.track
      omega
    have heop := (last_beat flow serves hdone).2.2.2.2.1
    have hplace : place p ins (n + 1) = base_next (place p ins n) q :=
      place_done hdone state serves.held.num_bytes heop _
    have hcur := h.current d rfl
    obtain ⟨htiles, hgood, hunbroken⟩ := hcur.all_sent state serves chosen
      (hlinked.max (by rw [state]; decide))
    cases hdesc : C2hData.data_desc_done ((circuit p).state ins n).SDE_C2H_DATA with
    | true =>
      have hgot := hcur.got hlinked.track.packed serves chosen hrows hunbroken
        ((desc_done_iff hdone heop).mp hdesc)
      exact ⟨_, _, _, h.desc_done hpacked hdone state hdesc hgot htiles hgood hplace⟩
    | false =>
      have hends := not_ends_of_more hdone heop hdesc
      refine ⟨_, _, _, h.burst_done hpacked hdone state hdesc fun hnext => ?_⟩
      rw [hplace, base_next, hends, if_neg Bool.false_ne_true]
      exact hcur.goes_on serves chosen hrows hunbroken htiles hgood hends hpacked
        (len_done hdone state) (dest_done hdone state) (by rw [hnext]; decide)

theorem progress_state (hpacked : ∀ n, (ins n).axis_buf_valid → Packed (ins n).axis_buf) (n : Nat) :
    ∃ ds cur pos, Progress p ins n ds cur pos := by
  induction n with
  | zero => exact ⟨_, _, _, progress_zero⟩
  | succ n ih =>
    obtain ⟨ds, cur, pos, h⟩ := ih
    have hheld := holds_state (p := p) hpacked n
    have hnew : ∀ b ∈ accepted (ins n) ((circuit p).state ins n), Packed b := by
      obtain ⟨bqq, rp, r, hlinked, -⟩ := hheld
      exact fun b hb => C2hBuf.packed_step (i := buf_in (ins n) ((circuit p).state ins n))
        hlinked.track (hpacked n) b (List.mem_append_right _ hb)
    cases cur with
    | none => exact progress_idle h hheld hnew
    | some d =>
      cases hdone : C2hData.data_tx_done ((circuit p).state ins n).SDE_C2H_DATA with
      | true => exact progress_done h hheld hnew hdone
      | false => exact ⟨_, _, _, progress_busy h hnew hdone⟩

theorem Progress.descs_eq (h : Progress p ins n ds cur pos) :
    descs_written p ins n = ds ∧ in_progress p ins n = cur := by
  unfold descs_written in_progress
  cases cur with
  | none =>
    rw [if_pos (h.idle.mpr rfl), if_pos (h.idle.mpr rfl), h.descs]
    simp
  | some d =>
    have hbusy : ((circuit p).state ins n).SDE_C2H_DATA.req_state ≠ .REQ_IDLE := fun hidle =>
      absurd (h.idle.mp hidle) (Option.some_ne_none _)
    rw [if_neg hbusy, if_neg hbusy, h.descs]
    simp

theorem le_desc_bytes {beats : List AxisBeat} {len sent : Nat} (hpacked : ∀ b ∈ beats, Packed b)
    (hon : OnByte beats pos)
    (hunbroken : Unbroken beats pos (pos + sent)) (hle : sent ≤ len) :
    sent ≤ desc_bytes beats pos len := by
  unfold desc_bytes
  split
  case isTrue hany =>
    obtain ⟨hend, hlt, -⟩ := first_end hpacked hon hany
    have hfirst := hunbroken _ hend hlt
    omega
  case isFalse => exact hle

/-- What was started of a descriptor is the first of what it gets. -/
theorem Current.tiles_first {d : C2hIfDesc} {beats bq : List AxisBeat} {base : Nat} {s : C2h}
    {started : List (Burst 64)} (h : Current p beats pos base d s.SDE_C2H_DATA started)
    (hheld : Holds p s beats bq base) :
    ∃ sent, sent ≤ desc_bytes beats pos d.len.toNat ∧ Burst.Tiles d.dest_addr sent started ∧
      ∀ b ∈ started, 0 < b.bytes → b.Good PCIM_DATA_WIDTH_BYTES (PCIM_MAX_WR_SIZE_BYTES p) := by
  have hle := h.le
  have hlen := h.len
  obtain ⟨bqq, rp, r, hlinked, hphase⟩ := hheld
  have hpacked := hlinked.track.packed
  by_cases hstate : s.SDE_C2H_DATA.req_state = .REQ_DATA
  · obtain ⟨q, hserves, hchosen⟩ := hphase.sends hstate
    have hmax := hlinked.max (by rw [hstate]; decide)
    obtain ⟨htiles, hgood, hunbroken⟩ := h.all_sent hstate hserves hchosen hmax
    have hsum : pos + (base + q.bytes - pos) = base + q.bytes := by omega
    have hsize := hchosen.len
    exact ⟨_, le_desc_bytes hpacked h.on_byte (by rw [hsum]; exact hunbroken) (by omega), htiles,
      hgood⟩
  · obtain ⟨sent, htiles, hgood, hstarted⟩ := h.bursts
    have hsum : pos + (base - pos) = base := by omega
    rw [if_neg hstate, List.append_nil] at hstarted
    rw [hstarted]
    exact ⟨_, le_desc_bytes hpacked h.on_byte (by rw [hsum]; exact h.unbroken) (by omega), htiles,
      hgood⟩

theorem writes_some (hpacked : ∀ n, (ins n).axis_buf_valid → Packed (ins n).axis_buf)
    (hbyte : ∀ n, HasByte (ins n)) (n : Nat) : ∀ b ∈ writes_out p ins n, 0 < b.bytes := by
  induction n with
  | zero => exact fun b hb => absurd hb List.not_mem_nil
  | succ n ih =>
    intro b hb
    rw [writes_out_succ] at hb
    rcases List.mem_append.mp hb with hb | hb
    · exact ih b hb
    · have hlen := len_pos (p := p) hbyte n
      obtain ⟨bqq, rp, r, -, hphase⟩ := holds_state (p := p) hpacked n
      cases hphase with
      | addr q state empty started here before serves chosen =>
        rw [C2hData.issued] at hb
        split at hb
        · obtain rfl := List.mem_singleton.mp hb
          change 0 < ((circuit p).state ins n).SDE_C2H_DATA.curr_txn.num_bytes
          rw [serves.held.num_bytes]
          exact chosen.some (hlen (by rw [state]; decide))
        · exact absurd hb List.not_mem_nil
      | idle state => rw [not_issued (by rw [state]; decide)] at hb; cases hb
      | next state => rw [not_issued (by rw [state]; decide)] at hb; cases hb
      | wait state => rw [not_issued (by rw [state]; decide)] at hb; cases hb
      | load q state => rw [not_issued (by rw [state]; decide)] at hb; cases hb
      | data q c state => rw [not_issued (by rw [state]; decide)] at hb; cases hb

theorem Progress.writes_tile (h : Progress p ins n ds cur pos)
    (hheld : Holds p ((circuit p).state ins n) (beats_in p ins n) (beats_in p ins (n - 1))
      (place p ins n)) (hsome : ∀ b ∈ writes_out p ins n, 0 < b.bytes) : WritesTile p ins n := by
  obtain ⟨hwritten, hcur⟩ := h.descs_eq
  rw [writes_split] at hsome
  have htiled := h.chain.tiled fun b hb => hsome b (List.mem_append_left _ hb)
  refine ⟨_, _, writes_split n, by rw [hwritten]; exact htiled, ?_⟩
  rw [hcur, hwritten, h.chain.place]
  cases cur with
  | none => exact (h.none rfl).1
  | some d =>
    obtain ⟨sent, hle, htiles, hgood⟩ := (h.current d rfl).tiles_first hheld
    exact ⟨sent, hle, htiles, fun b hb => hgood b hb (hsome b (List.mem_append_right _ hb))⟩

end Progress

/-- In every run in which the packets come in as they should and each descriptor has a byte, the bursts
tile what the descriptors get, and the number of beats is never found to be wrong. -/
theorem write_bursts_tile (p : C2hDataParams) (ins : Nat → C2hIn)
    (hpacked : ∀ n, (ins n).axis_buf_valid → Packed (ins n).axis_buf)
    (hbyte : ∀ n, HasByte (ins n)) (n : Nat) :
    WritesTile p ins n ∧ ((circuit p).state ins n).SDE_C2H_DATA.dm_num_beats_err = false := by
  obtain ⟨ds, cur, pos, h⟩ := @progress_state p ins hpacked n
  refine ⟨h.writes_tile (holds_state hpacked n) (writes_some hpacked hbyte n), ?_⟩
  cases n with
  | zero => rfl
  | succ n => exact no_beats_err (holds_state hpacked n) (len_pos hbyte n)

/-- The sizes of the example design. -/
def default_params : C2hDataParams := { C2hBuf.default_params with PCIM_MAX_WR_SIZE := 3 }

/-- A packet of three bytes, and a descriptor with more room, from two bytes before a boundary on. -/
def at_boundary (n : Nat) : C2hIn where
  axis_buf_valid := n = 0
  axis_buf := ⟨0x030201, 7, 5, true⟩
  desc_dm_desc_valid := n = 1
  desc_dm_desc := ⟨0, false, false, 100, 0, 0x1ffe, false, false⟩
  pm_dm_awready := true
  pm_dm_wready := true
  pm_dm_bvalid := false
  pm_dm_bresp := 0
  wb_dm_md_grant := false

theorem at_boundary_packed (n : Nat) : (at_boundary n).axis_buf_valid → Packed (at_boundary n).axis_buf := by
  intro _
  change Packed ⟨0x030201, 7, 5, true⟩
  unfold Packed
  decide

theorem at_boundary_bursts :
    (∀ n, WritesTile default_params at_boundary n ∧
      ((circuit default_params).state at_boundary n).SDE_C2H_DATA.dm_num_beats_err = false) ∧
    descs_written default_params at_boundary 24 = [⟨0x1ffe, 100, false⟩] ∧
    writes_out default_params at_boundary 24 = [⟨0x1ffe, 2, 1⟩, ⟨0x2000, 1, 1⟩] := by
  refine ⟨fun n => write_bursts_tile default_params at_boundary at_boundary_packed (fun _ _ => ?_) n, ?_, ?_⟩
  · change (100 : BitVec 32) ≠ 0
    decide
  · decide +kernel
  · rfl

end C2h

end AwsFpga.Rtl
