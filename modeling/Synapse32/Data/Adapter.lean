import Synapse32.Rtl.Memory
import Synapse32.Lib.Clocked

/-! # The adapter serves each request once

A granted access is fired `latency - 1` cycles later and answered one cycle after that, at once
without latency; until its answer the adapter grants and fires nothing else. -/

namespace Synapse32

namespace MemAdapter

/-- What `mem_adapter.v` reads in a cycle. -/
structure Waveform where
  req : Bool
  access : StoreReq
  storeRdata : Word

/-- The clock edge on the inputs. -/
def edge (latency : ℕ) (a : MemAdapter) (i : Waveform) : MemAdapter :=
  a.next latency i.req i.access i.storeRdata

variable {latency : ℕ} {a : MemAdapter} {i : Waveform}

/-- The counter is wide enough for its last value. -/
theorem le_countWidth (hl : latency ≤ 256) (h1 : 1 ≤ latency) :
    latency - 1 < 2 ^ countWidth latency := by
  unfold countWidth
  split_ifs <;> omega

/-- The last value of the counter. -/
theorem last_eq (hl : latency ≤ 256) (h1 : 1 ≤ latency) : last latency = latency - 1 :=
  Nat.mod_eq_of_lt (le_countWidth hl h1)

/-! ## The phases of an access -/

/-- The access `q` has been waiting for `k` cycles. -/
structure Waiting (q : StoreReq) (k : ℕ) (a : MemAdapter) : Prop where
  busy : a.busy = true
  count : a.count = k
  held : a.held = q
  rvalid : a.rvalid = false

/-- The answer `v` is presented. -/
structure Answering (v : Word) (a : MemAdapter) : Prop where
  busy : a.busy = false
  rdata : a.rdata = v
  rvalid : a.rvalid = true

/-- The adapter accepts a request while it is neither busy nor answering. -/
theorem gnt_iff (hl : latency ≠ 0) {req : Bool} :
    a.gnt latency req = true ↔ req = true ∧ a.busy = false ∧ a.rvalid = false := by
  simp [gnt, hl, and_assoc]

/-- While a request waits no other is accepted. -/
theorem Waiting.not_gnt {q : StoreReq} {k : ℕ} (h : Waiting q k a) (hl : latency ≠ 0)
    (req : Bool) : a.gnt latency req = false := by
  simp [gnt, hl, h.busy]

/-- While a request is answered no other is accepted. -/
theorem Answering.not_gnt {v : Word} (h : Answering v a) (hl : latency ≠ 0) (req : Bool) :
    a.gnt latency req = false := by
  simp [gnt, hl, h.rvalid]

/-- An access of latency one is sampled as it is accepted. -/
theorem answering_of_gnt (hg : a.gnt 1 i.req = true) :
    Answering i.storeRdata (edge 1 a i) := by
  have hb := ((gnt_iff one_ne_zero).mp hg).2.1
  constructor <;> simp [edge, next, sampleOnAccept, hg, hb]

/-- A request that is accepted waits from its first cycle on. -/
theorem waiting_of_gnt (hl : 2 ≤ latency) (hg : a.gnt latency i.req = true) :
    Waiting i.access 1 (edge latency a i) := by
  have h0 : latency ≠ 0 := by omega
  have h1 : latency ≠ 1 := by omega
  constructor <;> simp [edge, next, sampleOnAccept, hg, h0, h1]

namespace Waiting

variable {q : StoreReq} {k : ℕ}

/-- Memory is sampled when the counter is at its last value. -/
theorem sampleNow_eq (h : Waiting q k a) (hl : latency ≤ 256) (h1 : 1 ≤ latency) :
    a.sampleNow latency = (k == latency - 1) := by
  rw [sampleNow, h.busy, h.count, last_eq hl h1, Bool.true_and]

/-- Before the last cycle of its wait an access waits on. -/
theorem step (h : Waiting q k a) (hl : latency ≤ 256) (hk : k + 1 < latency) :
    Waiting q (k + 1) (edge latency a i) := by
  have h0 : latency ≠ 0 := by omega
  have hs : a.sampleNow latency = false := by
    rw [h.sampleNow_eq hl (by omega), beq_eq_false_iff_ne]
    omega
  have hlt := le_countWidth hl (by omega)
  have hmod : (k + 1) % 2 ^ countWidth latency = k + 1 := Nat.mod_eq_of_lt (by omega)
  have hnext : edge latency a i = { a with count := k + 1, rvalid := false } := by
    rw [edge, next, if_neg h0, h.not_gnt h0, hs, h.busy, h.count, hmod]
    rfl
  rw [hnext]
  exact ⟨h.busy, rfl, h.held, rfl⟩

/-- In the last cycle of its wait an access is sampled. -/
theorem answer (h : Waiting q k a) (hl : latency ≤ 256) (hk : k + 1 = latency) :
    Answering i.storeRdata (edge latency a i) := by
  have h0 : latency ≠ 0 := by omega
  have hs : a.sampleNow latency = true := by
    rw [h.sampleNow_eq hl (by omega), beq_iff_eq]
    omega
  have hnext : edge latency a i =
      { a with rdata := i.storeRdata, rvalid := true, busy := false, count := 0 } := by
    rw [edge, next, if_neg h0, h.not_gnt h0, hs]
    rfl
  rw [hnext]
  exact ⟨rfl, rfl, rfl⟩

end Waiting

/-! ## Runs -/

variable {ins : ℕ → Waveform}

/-- The registers before cycle `n` of the run from reset. -/
def runFrom (latency : ℕ) (ins : ℕ → Waveform) (n : ℕ) : MemAdapter :=
  Clocked.run (edge latency) reset ins n

/-- `gnt` in cycle `n`. -/
def Granted (latency : ℕ) (ins : ℕ → Waveform) (n : ℕ) : Prop :=
  (runFrom latency ins n).gnt latency (ins n).req = true

/-- `write_fire` or `read_fire` in cycle `n`. -/
def Fired (latency : ℕ) (ins : ℕ → Waveform) (n : ℕ) : Prop :=
  (runFrom latency ins n).writeFire latency (ins n).req (ins n).access = true ∨
    (runFrom latency ins n).readFire latency (ins n).req (ins n).access = true

/-- `rvalid` in cycle `n`. -/
def Answered (latency : ℕ) (ins : ℕ → Waveform) (n : ℕ) : Prop :=
  (runFrom latency ins n).rvalidOut latency (ins n).req = true

/-- When memory is accessed: at the sample, or with the grant when the latency is 1. -/
theorem fired_iff {n : ℕ} (hl : latency ≠ 0) : Fired latency ins n ↔
    (runFrom latency ins n).sampleNow latency = true ∨
      (Granted latency ins n ∧ latency = 1) := by
  unfold Fired writeFire readFire sampleOnAccept Granted
  rw [if_neg hl, if_neg hl]
  cases (runFrom latency ins n).sampleNow latency <;>
    cases (runFrom latency ins n).held.we <;> cases (ins n).access.we <;> simp

/-- A granted access waits until the last cycle before its answer. -/
theorem Granted.waiting {g : ℕ} (h : Granted latency ins g) (hl : latency ≤ 256) :
    ∀ k, 1 ≤ k → k < latency → Waiting (ins g).access k (runFrom latency ins (g + k)) := by
  intro k h1
  induction k, h1 using Nat.le_induction with
  | base => exact fun hk => waiting_of_gnt hk h
  | succ k h1 ih => exact fun hk => (ih (by omega)).step hl hk

/-- A granted access is answered with what storage read in the cycle before. -/
theorem Granted.answering {g : ℕ} (h : Granted latency ins g) (hl : latency ≤ 256)
    (h1 : 1 ≤ latency) :
    Answering (ins (g + (latency - 1))).storeRdata (runFrom latency ins (g + latency)) := by
  rcases Nat.lt_or_ge 1 latency with h2 | h2
  · have hw := h.waiting hl (latency - 1) (by omega) (by omega)
    have ha := hw.answer (i := ins (g + (latency - 1))) hl (by omega)
    rwa [show g + latency = g + (latency - 1) + 1 by omega]
  · obtain rfl : latency = 1 := by omega
    exact answering_of_gnt h

/-- An adapter that grants nothing and waits for nothing comes to rest. -/
theorem edge_of_rest (hl : latency ≠ 0) (hg : a.gnt latency i.req = false) (hb : a.busy = false) :
    (edge latency a i).busy = false ∧ (edge latency a i).rvalid = false := by
  simp [edge, next, sampleNow, hl, hg, hb]

/-- **Origin.** The adapter waits for, and answers, only what it granted. -/
theorem origin (hl : latency ≤ 256) (h1 : 1 ≤ latency) (n : ℕ) :
    ((runFrom latency ins n).busy = true →
        ∃ g, Granted latency ins g ∧ g < n ∧ n < g + latency) ∧
      ((runFrom latency ins n).rvalid = true → ∃ g, Granted latency ins g ∧ g + latency = n) := by
  have h0 : latency ≠ 0 := by omega
  induction n with
  | zero => exact ⟨fun h => Bool.noConfusion h, fun h => Bool.noConfusion h⟩
  | succ n ih =>
    by_cases hg : Granted latency ins n
    · -- granted in this cycle: it waits from the next on, or is answered there
      refine ⟨fun hb => ⟨n, hg, by omega, ?_⟩, fun hv => ⟨n, hg, ?_⟩⟩
      · by_contra hle
        have ha := hg.answering hl h1
        rw [show latency = 1 by omega] at ha hb
        exact Bool.noConfusion (ha.busy.symm.trans hb)
      · by_contra hne
        have hw := hg.waiting hl 1 le_rfl (by omega)
        exact Bool.noConfusion (hw.rvalid.symm.trans hv)
    · by_cases hb : (runFrom latency ins n).busy = true
      · -- waiting since `g`: one cycle more, or the last one
        obtain ⟨g, hg', hlt, hgt⟩ := ih.1 hb
        refine ⟨fun hb' => ⟨g, hg', by omega, ?_⟩, fun hv => ⟨g, hg', ?_⟩⟩
        · by_contra hle
          have ha := hg'.answering hl h1
          rw [show g + latency = n + 1 by omega] at ha
          exact Bool.noConfusion (ha.busy.symm.trans hb')
        · by_contra hne
          have hw := hg'.waiting hl (n + 1 - g) (by omega) (by omega)
          rw [show g + (n + 1 - g) = n + 1 by omega] at hw
          exact Bool.noConfusion (hw.rvalid.symm.trans hv)
      · have hrest := edge_of_rest (i := ins n) h0 (Bool.eq_false_iff.mpr hg)
          (Bool.eq_false_iff.mpr hb)
        exact ⟨fun h => Bool.noConfusion (hrest.1.symm.trans h),
          fun h => Bool.noConfusion (hrest.2.symm.trans h)⟩

/-- An answer comes `latency` cycles after a grant, and after each. -/
theorem answered_iff (hl : latency ≤ 256) {n : ℕ} :
    Answered latency ins n ↔ ∃ g, Granted latency ins g ∧ g + latency = n := by
  rcases Nat.eq_zero_or_pos latency with rfl | h1
  · simp [Answered, Granted, rvalidOut, gnt]
  · have h0 : latency ≠ 0 := by omega
    unfold Answered
    rw [rvalidOut, if_neg h0]
    constructor
    · exact (origin hl h1 n).2
    · rintro ⟨g, hg, rfl⟩
      exact (hg.answering hl h1).rvalid

/-- Storage is accessed in the cycle before an answer, and at once without latency. -/
theorem fired_iff_granted (hl : latency ≤ 256) {n : ℕ} :
    Fired latency ins n ↔ ∃ g, Granted latency ins g ∧ g + (latency - 1) = n := by
  rcases Nat.eq_zero_or_pos latency with rfl | h1
  · unfold Fired Granted writeFire readFire gnt
    cases (ins n).access.we <;> simp
  · have h0 : latency ≠ 0 := by omega
    rw [fired_iff h0]
    constructor
    · rintro (hs | ⟨hg, rfl⟩)
      · have hb : (runFrom latency ins n).busy = true := by
          simp only [sampleNow, Bool.and_eq_true] at hs
          exact hs.1
        obtain ⟨g, hg, hlt, hgt⟩ := (origin hl h1 n).1 hb
        have hw := hg.waiting hl (n - g) (by omega) (by omega)
        rw [show g + (n - g) = n by omega] at hw
        rw [hw.sampleNow_eq hl h1, beq_iff_eq] at hs
        exact ⟨g, hg, by omega⟩
      · exact ⟨n, hg, rfl⟩
    · rintro ⟨g, hg, rfl⟩
      rcases Nat.lt_or_ge 1 latency with h2 | h2
      · have hw := hg.waiting hl (latency - 1) (by omega) (by omega)
        left
        rw [hw.sampleNow_eq hl h1, beq_self_eq_true]
      · right
        obtain rfl : latency = 1 := by omega
        exact ⟨hg, rfl⟩

/-- What an access granted in cycle `g` leads to. -/
structure ServedOnce (latency : ℕ) (ins : ℕ → Waveform) (g : ℕ) : Prop where
  /-- It is fired `latency - 1` cycles later, as it was at its grant. -/
  fired : (runFrom latency ins (g + (latency - 1))).writeFire latency (ins (g + (latency - 1))).req
        (ins (g + (latency - 1))).access = (ins g).access.we ∧
      (runFrom latency ins (g + (latency - 1))).readFire latency (ins (g + (latency - 1))).req
        (ins (g + (latency - 1))).access = !(ins g).access.we
  store : (runFrom latency ins (g + (latency - 1))).storeReq latency
        (ins (g + (latency - 1))).req = true ∧
      (runFrom latency ins (g + (latency - 1))).store latency (ins (g + (latency - 1))).access =
        (ins g).access
  /-- It is answered after `latency` cycles, with what storage read as it fired. -/
  answered : Answered latency ins (g + latency)
  rdata : (runFrom latency ins (g + latency)).rdataOut latency (ins (g + latency)).storeRdata =
    (ins (g + (latency - 1))).storeRdata
  /-- Until then nothing else is granted, fired or answered. -/
  alone : ∀ n, g ≤ n → n ≤ g + latency →
    (Granted latency ins n → n = g) ∧ (Fired latency ins n → n = g + (latency - 1)) ∧
      (Answered latency ins n → n = g + latency)

/-- Two grants are more than `latency` cycles apart. -/
theorem Granted.apart {g n : ℕ} (h : Granted latency ins g) (hl : latency ≤ 256)
    (hlt : g < n) (hle : n ≤ g + latency) : ¬ Granted latency ins n := by
  intro hn
  have h0 : latency ≠ 0 := by omega
  have hidle := (gnt_iff h0).mp hn
  rcases Nat.lt_or_ge n (g + latency) with hwait | hend
  · have hw := h.waiting hl (n - g) (by omega) (by omega)
    rw [show g + (n - g) = n by omega] at hw
    exact Bool.noConfusion (hidle.2.1.symm.trans hw.busy)
  · have ha := h.answering hl (by omega)
    rw [show g + latency = n by omega] at ha
    exact Bool.noConfusion (hidle.2.2.symm.trans ha.rvalid)

/-- Two grants whose waits overlap are one. -/
theorem Granted.eq_of_overlap {g m : ℕ} (h : Granted latency ins g) (h' : Granted latency ins m)
    (hl : latency ≤ 256) (h1 : g ≤ m + latency) (h2 : m ≤ g + latency) : m = g := by
  rcases Nat.lt_trichotomy m g with hlt | heq | hgt
  · exact absurd h (h'.apart hl hlt h1)
  · exact heq
  · exact absurd h' (h.apart hl hgt h2)

/-- What storage sees of an access in the cycle that fires it. -/
theorem Granted.fire {g : ℕ} (h : Granted latency ins g) (hl : latency ≤ 256) :
    let n := g + (latency - 1)
    (runFrom latency ins n).writeFire latency (ins n).req (ins n).access = (ins g).access.we ∧
      (runFrom latency ins n).readFire latency (ins n).req (ins n).access = !(ins g).access.we ∧
      (runFrom latency ins n).storeReq latency (ins n).req = true ∧
      (runFrom latency ins n).store latency (ins n).access = (ins g).access := by
  intro n
  rcases Nat.eq_zero_or_pos latency with rfl | h1
  · have hr : (ins g).req = true := h
    simp [n, writeFire, readFire, storeReq, store, hr]
  · have h0 : latency ≠ 0 := by omega
    rcases Nat.lt_or_ge 1 latency with h2 | h2
    · have hw := h.waiting hl (latency - 1) (by omega) (by omega)
      have hs := hw.sampleNow_eq hl h1
      have h3 : latency ≠ 1 := by omega
      have hn : n = g + (latency - 1) := rfl
      rw [← hn] at hw hs
      simp [writeFire, readFire, storeReq, store, sampleOnAccept, h0, h3, hs, hw.busy, hw.held]
    · obtain rfl : latency = 1 := by omega
      have hb := ((gnt_iff one_ne_zero).mp h).2.1
      have hg : (runFrom 1 ins g).gnt 1 (ins g).req = true := h
      simp [n, writeFire, readFire, storeReq, store, sampleOnAccept, sampleNow, hg, hb]

/-- What the answer to an access carries. -/
theorem Granted.rdata {g : ℕ} (h : Granted latency ins g) (hl : latency ≤ 256) :
    (runFrom latency ins (g + latency)).rdataOut latency (ins (g + latency)).storeRdata =
      (ins (g + (latency - 1))).storeRdata := by
  rcases Nat.eq_zero_or_pos latency with rfl | h1
  · rfl
  · rw [rdataOut, if_neg (by omega)]
    exact (h.answering hl h1).rdata

/-- **A request that is granted is served once.** -/
theorem Granted.servedOnce {g : ℕ} (h : Granted latency ins g) (hl : latency ≤ 256) :
    ServedOnce latency ins g where
  fired := ⟨(h.fire hl).1, (h.fire hl).2.1⟩
  store := (h.fire hl).2.2
  answered := (answered_iff hl).mpr ⟨g, h, rfl⟩
  rdata := h.rdata hl
  alone := by
    intro n hge hle
    refine ⟨fun hn => h.eq_of_overlap hn hl (by omega) hle, ?_, ?_⟩
    · intro hf
      obtain ⟨m, hm, hmn⟩ := (fired_iff_granted hl).mp hf
      have hmg := h.eq_of_overlap hm hl (by omega) (by omega)
      omega
    · intro ha
      obtain ⟨m, hm, hmn⟩ := (answered_iff hl).mp ha
      have hmg := h.eq_of_overlap hm hl (by omega) (by omega)
      omega

/-- **Each accepted access is performed exactly once.** Grants, accesses of storage and answers
correspond one to one, whatever the inputs do. -/
theorem performed_once (hl : latency ≤ 256) (ins : ℕ → Waveform) :
    (∀ g, Granted latency ins g → ServedOnce latency ins g) ∧
      (∀ n, Fired latency ins n ↔ ∃ g, Granted latency ins g ∧ g + (latency - 1) = n) ∧
      ∀ n, Answered latency ins n ↔ ∃ g, Granted latency ins g ∧ g + latency = n :=
  ⟨fun _ h => h.servedOnce hl, fun _ => fired_iff_granted hl, fun _ => answered_iff hl⟩

/-- A request that never goes away, with an address that changes every cycle. -/
def pressing (n : ℕ) : Waveform := ⟨true, ⟨BitVec.ofNat 32 (4 * n), true, 0xf#4, 7#32⟩, 9#32⟩

/-- A request that is kept up throughout, at latency 3. -/
theorem performed_once_pressing :
    3 ≤ 256 ∧ Granted 3 pressing 4 ∧ ServedOnce 3 pressing 4 := by
  have hg : Granted 3 pressing 4 := by
    unfold Granted
    decide
  exact ⟨by decide, hg, (performed_once (by decide) pressing).1 4 hg⟩

end MemAdapter

end Synapse32
