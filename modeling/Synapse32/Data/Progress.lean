import Synapse32.Cache.Progress
import Synapse32.Data.Adapter
import Synapse32.Data.Answers
import Synapse32.Data.Origin
import Synapse32.Data.Settled

/-! # The data side answers the core

A write that the core holds gets into the store buffer, a read is answered, and a buffer that is
given time drains; the page walker gets the port once the core asks for nothing. Each of the three
masters of the port is served in the end, since the oldest buffered write is. -/

namespace Synapse32

namespace MemAdapter

variable {latency : ℕ} {ins : ℕ → Waveform}

/-- Without latency the adapter keeps no state. -/
theorem runFrom_zero (n : ℕ) : runFrom 0 ins n = reset := by
  induction n with
  | zero => rfl
  | succ n ih =>
    change edge 0 (runFrom 0 ins n) (ins n) = _
    rw [ih]
    rfl

/-- **What the adapter is asked for or works on is answered**, at the latest when its latency is
over. -/
theorem exists_answered (hl : latency ≤ 256) {n : ℕ}
    (h : (runFrom latency ins n).busy = true ∨ (runFrom latency ins n).rvalid = true ∨
      (ins n).req = true) : ∃ k ≥ n, k ≤ n + latency ∧ Answered latency ins k := by
  rcases Nat.eq_zero_or_pos latency with rfl | h1
  · rw [runFrom_zero] at h
    have hreq : (ins n).req = true := by
      rcases h with h | h | h
      · exact absurd h Bool.false_ne_true
      · exact absurd h Bool.false_ne_true
      · exact h
    exact ⟨n, le_rfl, le_rfl, hreq⟩
  · have h0 : latency ≠ 0 := by omega
    cases hb : (runFrom latency ins n).busy
    · cases hv : (runFrom latency ins n).rvalid
      · -- An adapter at rest takes the request.
        have hreq : (ins n).req = true := by simpa [hb, hv] using h
        have hg : Granted latency ins n := (gnt_iff h0).mpr ⟨hreq, hb, hv⟩
        exact ⟨n + latency, by omega, le_rfl, (answered_iff hl).mpr ⟨n, hg, rfl⟩⟩
      · obtain ⟨g, hg, heq⟩ := (origin hl h1 n).2 hv
        exact ⟨n, le_rfl, by omega, (answered_iff hl).mpr ⟨g, hg, heq⟩⟩
    · obtain ⟨g, hg, hlt, hgt⟩ := (origin hl h1 n).1 hb
      exact ⟨g + latency, by omega, by omega, (answered_iff hl).mpr ⟨g, hg, rfl⟩⟩

end MemAdapter

namespace DataBus

variable {P : BusParams} {s init : DataBus} {i : DataIn} {ins : ℕ → DataIn}

/-! ## The memory answers -/

/-- **What progress rests on**: the engine cleans sets that are dirty, and a bypass is held by the
adapter until it is answered. -/
structure ProgressInv (P : BusParams) (s : DataBus) : Prop extends OwnerInv P s where
  target : Dcache.CleanTarget P.cache s.cache
  bypass : CacheSystem.BypassHeld (DataBus.system s)

/-- **Step.** -/
theorem ProgressInv.next (h : ProgressInv P s) (hi : AlignedAccess i) :
    ProgressInv P (next P s i) where
  toOwnerInv := h.toOwnerInv.next hi
  target := h.target.next
  bypass := by
    rw [system_next h.adapter h.system]
    exact h.bypass.next

/-- The registers after reset satisfy the invariant. -/
theorem progressInv_reset (data : ℕ → ℕ → Word) (tag : ℕ → ℕ → ℕ) (dataRd : ℕ → Word)
    (tagRd : ℕ → ℕ) (mem : UnifiedMem) :
    ProgressInv P (reset (Dcache.reset data tag dataRd tagRd) mem) where
  toQueueInv := queueInv_reset data tag dataRd tagRd mem
  walk h := absurd h Bool.false_ne_true
  held h := absurd h (by simp [reset, Dcache.reset])
  target h := absurd h Bool.false_ne_true
  bypass h := absurd h (by simp [system, reset, Dcache.reset])

/-- What the adapter of the data side reads in each cycle. -/
def waveform (P : BusParams) (init : DataBus) (ins : ℕ → DataIn) (n : ℕ) : MemAdapter.Waveform :=
  ⟨memReq P (run P init ins n) (ins n), memStore P (run P init ins n) (ins n),
    memReadData P (run P init ins n) (ins n)⟩

/-- The adapter sees the waveform on the bus. -/
theorem run_adapter (ha : init.adapter = MemAdapter.reset) (n : ℕ) :
    (run P init ins n).adapter = MemAdapter.runFrom P.memLatency (waveform P init ins) n := by
  induction n with
  | zero => exact ha
  | succ n ih => exact congrArg (fun a => MemAdapter.edge P.memLatency a (waveform P init ins n)) ih

/-- The owner of a cycle without an answer is the owner of the next. -/
theorem owner_next (h : OwnerInv P s) (hv : dcacheRvalid P s i = false) :
    (next P s i).walkOwner = walkOwns P s i ∧ (next P s i).drainOwner = drainOwns P s i := by
  have hwalk : (next P s i).walkOwner = if dcacheRvalid P s i then false
      else if dcacheGnt P s i then walkSel P s i else s.walkOwner := rfl
  have hdrain : (next P s i).drainOwner = if dcacheRvalid P s i then false
      else if dcacheGnt P s i then drainSel P s i else s.drainOwner := rfl
  rw [hwalk, hdrain, hv, if_neg Bool.false_ne_true, if_neg Bool.false_ne_true, walkOwns, drainOwns]
  cases hg : dcacheGnt P s i
  · simp
  · obtain ⟨hw, hd, -⟩ := idle_of_gnt h hg
    simp [hw, hd]

/-- The core presents a translated access to `a`, a write or a read. -/
structure Presents (i : DataIn) (a : Word) (we : Bool) : Prop where
  req : cpuDataBusReq i = true
  addr : i.physAddr = a
  we_eq : i.memWriteEn = we

/-- When a read may go before the buffer: no buffered write is to its word, and behind a read of a
device none is left at all. -/
theorem loadGo_iff (h : BusInv P s) {a : Word} (hp : Presents i a false) :
    cpuLoadGo P s i = true ↔
      (∀ e ∈ s.buffer.entries, DcacheParams.wordAddr e.addr ≠ DcacheParams.wordAddr a) ∧
        (isDevice a = true → s.buffer.entries = []) := by
  have hmatch : s.buffer.hasMatch P.storeBufferDepth a = false ↔
      ∀ e ∈ s.buffer.entries, DcacheParams.wordAddr e.addr ≠ DcacheParams.wordAddr a := by
    rw [← Bool.not_eq_true, StoreBuffer.hasMatch_iff h.count]
    simp
  have hgo : cpuLoadGo P s i = true ↔ s.buffer.hasMatch P.storeBufferDepth a = false ∧
      (isDevice a = true → s.buffer.empty = true) := by
    rw [cpuLoadGo, hp.req, hp.we_eq, cpuDeviceAccess, hp.addr]
    cases isDevice a <;> simp
  rw [hgo, hmatch, StoreBuffer.empty_iff]

/-- **An access that the core presents goes before the walker.** -/
theorem walkSel_of_presents (h : BusInv P s) (hq : cpuDataBusReq i = true) :
    walkSel P s i = false := by
  rw [walkSel]
  cases hgo : cpuLoadGo P s i
  · -- What keeps it back is a buffered write, which goes before the walker too.
    have hdrain : drainReq P s i = true := by
      by_contra hd
      rw [drainReq, Bool.or_eq_true, not_or, Bool.not_eq_true', Bool.not_eq_false] at hd
      obtain ⟨he, hp⟩ := hd
      have hnil := StoreBuffer.empty_iff.mp he
      cases hw : i.memWriteEn
      · have hgo' := (loadGo_iff h (a := i.physAddr) ⟨hq, rfl, hw⟩).mpr
          ⟨fun e hmem => by rw [hnil] at hmem; exact absurd hmem List.not_mem_nil, fun _ => hnil⟩
        exact Bool.false_ne_true (hgo.symm.trans hgo')
      · refine hp ?_
        rw [storeBufPushReq, hq, hw, Bool.true_and, Bool.true_and, Bool.not_eq_true']
        by_contra hf
        have hlen := (StoreBuffer.full_iff P.depth_le).mp (Bool.eq_true_of_not_eq_false hf)
        rw [hnil] at hlen
        have hpos := P.depth_pos
        rw [← hlen] at hpos
        exact absurd hpos (by decide)
    rw [hdrain, Bool.not_true, Bool.and_false]
  · rw [Bool.not_true, Bool.and_false, Bool.false_and]

section Runs

variable (hl : P.memLatency ≤ 256) (h0 : ProgressInv P init)
  (ha : init.adapter = MemAdapter.reset) (hi : ∀ n, AlignedAccess (ins n))
include hl h0 ha hi

omit hl ha in
/-- **Run lemma.** The invariant holds before every cycle. -/
theorem progressInv_run (n : ℕ) : ProgressInv P (run P init ins n) :=
  Clocked.run_invariant h0 (fun n h => h.next (hi n)) n

/-- **The cache of the data side is attended to.** -/
theorem attended : Dcache.Attended P.cache (fun n => (run P init ins n).cache)
    (fun n => dcacheReq P (run P init ins n) (ins n))
    (fun n => memRsp P (run P init ins n) (ins n)) 0 where
  step _ := rfl
  inv n := ⟨_, (progressInv_run h0 hi n).system.cache⟩
  target n := (progressInv_run h0 hi n).target
  answers n _ hw := by
    have hinv := progressInv_run h0 hi n
    have hpend : (run P init ins n).adapter.busy = true ∨
        (run P init ins n).adapter.rvalid = true ∨
        memReq P (run P init ins n) (ins n) = true := by
      rcases CacheSystem.pending_of_waits (r := dcacheReq P (run P init ins n) (ins n))
        hinv.bypass hw with hreq | hport
      · exact .inr (.inr hreq)
      · by_contra hno
        simp only [not_or, Bool.not_eq_true] at hno
        exact hport (port_of_idle hno.1 hno.2.1)
    rw [run_adapter ha] at hpend
    obtain ⟨k, hk, -, hv⟩ := MemAdapter.exists_answered hl hpend
    refine ⟨k, hk, ?_⟩
    rw [MemAdapter.Answered, ← run_adapter ha] at hv
    exact hv
  accepts n _ hgo := by
    have hgo := hgo n le_rfl
    have hidle : (run P init ins n).cache.eng.state = .idle := by
      simp only [Dcache.bypassGo, Bool.and_eq_true, beq_iff_eq] at hgo
      exact hgo.1.2
    have hreq : memReq P (run P init ins n) (ins n) = true := by
      rw [memReq, Dcache.memReq, hgo, Bool.or_true]
    -- An idle engine leaves the adapter at rest.
    have hinv := progressInv_run h0 hi n
    have hport := CacheSystem.port_idle hinv.system hidle
    have hb : (run P init ins n).adapter.busy = false := by
      by_contra hb
      have hw := port_of_busy hinv.adapter (Bool.eq_true_of_not_eq_false hb)
      cases hport.symm.trans hw
    have hv : (run P init ins n).adapter.rvalid = false := by
      by_contra hv
      have hd := port_of_rvalid (s := run P init ins n) (Bool.eq_true_of_not_eq_false hv)
      cases hport.symm.trans hd
    refine ⟨n, le_rfl, ?_⟩
    change (run P init ins n).adapter.gnt P.memLatency (memReq P (run P init ins n) (ins n)) = true
    rw [MemAdapter.gnt, hreq, hb, hv]
    exact ite_self _

/-- **Who is granted owns the port up to the answer.** -/
theorem answer_of_gnt {n : ℕ} (hg : dcacheGnt P (run P init ins n) (ins n) = true) :
    ∃ k ≥ n, dcacheRvalid P (run P init ins k) (ins k) = true ∧
      walkOwns P (run P init ins k) (ins k) = walkSel P (run P init ins n) (ins n) ∧
      drainOwns P (run P init ins k) (ins k) = drainSel P (run P init ins n) (ins n) := by
  obtain ⟨k, hk, hv, hgnt, hrv⟩ := (attended hl h0 ha hi).answered (Nat.zero_le n) hg
  refine ⟨k, hk, hv, ?_⟩
  clear hv
  induction k, hk using Nat.le_induction with
  | base =>
    obtain ⟨hw, hd, -⟩ := idle_of_gnt (progressInv_run h0 hi n).toOwnerInv hg
    simp [walkOwns, drainOwns, hw, hd, hg]
  | succ k hk ih =>
    obtain ⟨hw, hd⟩ := ih (fun j h1 h2 => hgnt j h1 (by omega)) fun j h1 h2 => hrv j h1 (by omega)
    have hv : dcacheRvalid P (run P init ins k) (ins k) = false := hrv k hk (Nat.lt_succ_self k)
    have hg' : dcacheGnt P (run P init ins (k + 1)) (ins (k + 1)) = false :=
      hgnt (k + 1) (by omega) le_rfl
    obtain ⟨hwn, hdn⟩ := owner_next (progressInv_run h0 hi k).toOwnerInv hv
    change (run P init ins (k + 1)).walkOwner = _ at hwn
    change (run P init ins (k + 1)).drainOwner = _ at hdn
    rw [walkOwns, drainOwns, hg', hwn, hdn, hw, hd]
    simp

/-- **A walk that owns the port is answered.** -/
theorem walkOwner_answered (hw : init.walkOwner = false) {n : ℕ}
    (ho : (run P init ins n).walkOwner = true) :
    ∃ k ≥ n, walkRvalid P (run P init ins k) (ins k) = true := by
  induction n with
  | zero => exact absurd (hw.symm.trans ho) Bool.false_ne_true
  | succ n ih =>
    have hnext : (run P init ins (n + 1)).walkOwner =
        if dcacheRvalid P (run P init ins n) (ins n) then false
        else if dcacheGnt P (run P init ins n) (ins n) then
          walkSel P (run P init ins n) (ins n)
        else (run P init ins n).walkOwner := rfl
    rw [hnext] at ho
    split at ho
    · exact absurd ho Bool.false_ne_true
    rename_i hv
    -- It is answered later, since it is not answered in this cycle.
    obtain ⟨k, hk, hrv⟩ : ∃ k ≥ n, walkRvalid P (run P init ins k) (ins k) = true := by
      split at ho
      · rename_i hg
        obtain ⟨k, hk, hv', hown, -⟩ := answer_of_gnt hl h0 ha hi hg
        exact ⟨k, hk, by rw [walkRvalid, hv', hown, ho]; rfl⟩
      · exact ih ho
    refine ⟨k, ?_, hrv⟩
    rcases Nat.eq_or_lt_of_le hk with rfl | hlt
    · rw [walkRvalid, Bool.and_eq_true] at hrv
      exact absurd hrv.1 hv
    · exact hlt

/-- A request that stands at the cache is granted. -/
theorem exists_gnt {a : Word} {n1 : ℕ}
    (hasks : ∀ n ≥ n1, (dcacheReq P (run P init ins n) (ins n)).Asks a) :
    ∃ n ≥ n1, dcacheGnt P (run P init ins n) (ins n) = true :=
  (attended hl h0 ha hi).granted (Nat.zero_le n1) hasks

/-! ## The store buffer drains -/

omit hl ha in
/-- Without a pop the oldest write stays. -/
theorem slot_succ {n : ℕ} (he : (run P init ins n).buffer.empty = false)
    (hp : storeBufPop P (run P init ins n) (ins n) = false) :
    (run P init ins (n + 1)).buffer.slot 0 = (run P init ins n).buffer.slot 0 := by
  have hnext := entries_next (i := ins n) (progressInv_run h0 hi n).toBusInv
  rw [hp, if_neg Bool.false_ne_true, StoreBuffer.entries_of_not_empty he] at hnext
  have hne : (run P init ins (n + 1)).buffer.empty = false := by
    by_contra hemp
    have hnil := StoreBuffer.empty_iff.mp (Bool.eq_true_of_not_eq_false hemp)
    exact absurd (hnil.symm.trans hnext) (by simp)
  have hcons := StoreBuffer.entries_of_not_empty hne
  exact (List.cons.inj (hcons.symm.trans hnext)).1

/-- **The oldest write leaves the buffer** if it is selected until it does. -/
theorem exists_pop {n1 : ℕ} (hsel : ∀ n ≥ n1,
    (∀ j, n1 ≤ j → j < n → storeBufPop P (run P init ins j) (ins j) = false) →
      drainSel P (run P init ins n) (ins n) = true ∧ (run P init ins n).buffer.empty = false) :
    ∃ n ≥ n1, storeBufPop P (run P init ins n) (ins n) = true := by
  by_contra hnone
  have hno : ∀ n ≥ n1, storeBufPop P (run P init ins n) (ins n) = false :=
    fun n hn => Bool.eq_false_of_not_eq_true fun hp => hnone ⟨n, hn, hp⟩
  have hsel : ∀ n ≥ n1, drainSel P (run P init ins n) (ins n) = true ∧
      (run P init ins n).buffer.empty = false := fun n hn => hsel n hn fun j hj _ => hno j hj
  have hslot : ∀ n ≥ n1, (run P init ins n).buffer.slot 0 = (run P init ins n1).buffer.slot 0 := by
    intro n hn
    induction n, hn using Nat.le_induction with
    | base => rfl
    | succ n hn ih => exact (slot_succ h0 hi (hsel n hn).2 (hno n hn)).trans ih
  have hasks : ∀ n ≥ n1, (dcacheReq P (run P init ins n) (ins n)).Asks
      ((run P init ins n1).buffer.slot 0).addr := by
    intro n hn
    obtain ⟨hd, he⟩ := hsel n hn
    obtain ⟨hreq, -, haddr, -⟩ := dcacheReq_of_drainSel hd
    rw [drainEntry, he, if_neg Bool.false_ne_true, hslot n hn] at haddr
    exact ⟨hreq, haddr⟩
  obtain ⟨n, hn, hg⟩ := exists_gnt hl h0 ha hi hasks
  obtain ⟨k, hk, hv, -, hown⟩ := answer_of_gnt hl h0 ha hi hg
  refine hnone ⟨k, hn.trans hk, ?_⟩
  rw [storeBufPop, drainDone, hv, hown, (hsel n hn).1, (hsel k (hn.trans hk)).2]
  rfl

/-- **Draining reaches its goal** if nothing is pushed and the oldest write is selected until
then. -/
theorem eventually_of_pops {goal : ℕ → Prop} {n1 : ℕ}
    (hpush : ∀ n ≥ n1, storeBufPushReq P (run P init ins n) (ins n) = false)
    (hsel : ∀ n ≥ n1, ¬ goal n → drainSel P (run P init ins n) (ins n) = true ∧
      (run P init ins n).buffer.empty = false)
    (hstay : ∀ n ≥ n1, ¬ goal n → storeBufPop P (run P init ins n) (ins n) = false →
      ¬ goal (n + 1)) : ∃ n ≥ n1, goal n := by
  apply Clocked.eventually_of_rank (fun n => (run P init ins n).buffer.entries.length)
    (fun n => ¬ goal n) (fun n => storeBufPop P (run P init ins n) (ins n) = true)
  · intro n hn hno
    have hnext := entries_next (i := ins n) (progressInv_run h0 hi n).toBusInv
    have hnp : storeBufPush P (run P init ins n) (ins n) = false := by
      rw [storeBufPush, hpush n hn, Bool.false_and]
    rw [hnp, if_neg Bool.false_ne_true, List.append_nil] at hnext
    change (run P init ins (n + 1)).buffer.entries = _ at hnext
    rw [hnext]
    cases hp : storeBufPop P (run P init ins n) (ins n)
    · exact .inr ⟨hno, Bool.false_ne_true, le_rfl⟩
    · left
      rw [if_pos rfl, StoreBuffer.entries_of_not_empty (hsel n hn hno).2, List.tail_cons,
        List.length_cons]
      exact Nat.lt_succ_self _
  · intro n hn hno
    apply exists_pop hl h0 ha hi
    intro k hk hnp
    -- Until the first pop the goal is not reached.
    suffices hnk : ¬ goal k from hsel k (hn.trans hk) hnk
    induction k, hk using Nat.le_induction with
    | base => exact hno
    | succ k hk ih =>
      exact hstay k (hn.trans hk) (ih fun j h1 h2 => hnp j h1 (by omega)) (hnp k hk (by omega))

/-! ## Accesses of the core -/

/-- A write that is held gets into the buffer. -/
theorem write_answered {a : Word} {n1 : ℕ} (hheld : ∀ n ≥ n1, Presents (ins n) a true) :
    ∃ n ≥ n1, cpuDataRvalid P (run P init ins n) (ins n) = true := by
  have hrv : ∀ n ≥ n1, cpuDataRvalid P (run P init ins n) (ins n) =
      !(run P init ins n).buffer.full P.storeBufferDepth := by
    intro n hn
    rw [cpuDataRvalid, (hheld n hn).we_eq, if_pos rfl, storeBufPushReq, (hheld n hn).req,
      (hheld n hn).we_eq]
    rfl
  by_contra hnone
  have hfull : ∀ n ≥ n1, (run P init ins n).buffer.full P.storeBufferDepth = true := by
    intro n hn
    by_contra hf
    refine hnone ⟨n, hn, ?_⟩
    rw [hrv n hn, Bool.eq_false_of_not_eq_true hf]
    rfl
  have hlen : ∀ n ≥ n1, (run P init ins n).buffer.entries.length = P.storeBufferDepth :=
    fun n hn => (StoreBuffer.full_iff P.depth_le).mp (hfull n hn)
  have hne : ∀ n ≥ n1, (run P init ins n).buffer.empty = false := by
    intro n hn
    by_contra he
    have hnil := StoreBuffer.empty_iff.mp (Bool.eq_true_of_not_eq_false he)
    have hd := P.depth_pos
    rw [← hlen n hn, hnil] at hd
    exact absurd hd (by decide)
  -- The full buffer has the port, so a write leaves it.
  have hsel : ∀ n ≥ n1, drainSel P (run P init ins n) (ins n) = true := by
    intro n hn
    have hgo : cpuLoadGo P (run P init ins n) (ins n) = false := by
      simp [cpuLoadGo, (hheld n hn).we_eq]
    rw [drainSel, drainReq, hne n hn, hgo]
    rfl
  obtain ⟨n, hn, hp⟩ := exists_pop hl h0 ha hi fun n (hn : n ≥ n1) _ => ⟨hsel n hn, hne n hn⟩
  have hnext := entries_next (i := ins n) (progressInv_run h0 hi n).toBusInv
  have hpush : storeBufPush P (run P init ins n) (ins n) = false := by
    rw [storeBufPush, storeBufPushReq, hfull n hn, Bool.not_true, Bool.and_false, Bool.false_and]
  rw [hp, hpush, if_pos rfl, if_neg Bool.false_ne_true, List.append_nil] at hnext
  have hlen' := hlen (n + 1) (by omega)
  change (run P init ins (n + 1)).buffer.entries = _ at hnext
  rw [hnext, List.length_tail, hlen n hn] at hlen'
  have hd := P.depth_pos
  omega

/-- A read that is held goes before the buffer, once what it has to wait for has drained. -/
theorem exists_loadGo {a : Word} {n1 : ℕ} (hheld : ∀ n ≥ n1, Presents (ins n) a false) :
    ∃ n2 ≥ n1, ∀ n ≥ n2, cpuLoadGo P (run P init ins n) (ins n) = true := by
  have hpush : ∀ n ≥ n1, storeBufPushReq P (run P init ins n) (ins n) = false := by
    intro n hn
    rw [storeBufPushReq, (hheld n hn).we_eq, Bool.and_false, Bool.false_and]
  have hgo := fun n (hn : n ≥ n1) => loadGo_iff (progressInv_run h0 hi n).toBusInv (hheld n hn)
  have hnext : ∀ n ≥ n1, (run P init ins (n + 1)).buffer.entries =
      if storeBufPop P (run P init ins n) (ins n) then (run P init ins n).buffer.entries.tail
      else (run P init ins n).buffer.entries := by
    intro n hn
    have hnext := entries_next (i := ins n) (progressInv_run h0 hi n).toBusInv
    rwa [storeBufPush, hpush n hn, Bool.false_and, if_neg Bool.false_ne_true,
      List.append_nil] at hnext
  -- Writes only leave the buffer.
  have hmono : ∀ n ≥ n1, cpuLoadGo P (run P init ins n) (ins n) = true →
      cpuLoadGo P (run P init ins (n + 1)) (ins (n + 1)) = true := by
    intro n hn hg
    obtain ⟨hm, hdev⟩ := (hgo n hn).mp hg
    refine (hgo (n + 1) (by omega)).mpr ⟨fun e he => ?_, fun hd => ?_⟩
    · rw [hnext n hn] at he
      split at he
      · exact hm e (List.mem_of_mem_tail he)
      · exact hm e he
    · rw [hnext n hn, hdev hd]
      exact ite_self _
  obtain ⟨n2, hn2, hg⟩ : ∃ n ≥ n1, cpuLoadGo P (run P init ins n) (ins n) = true := by
    apply eventually_of_pops hl h0 ha hi hpush
    · intro n hn hno
      -- What holds the read back is in the buffer.
      have hne : (run P init ins n).buffer.empty = false := by
        by_contra he
        have hnil := StoreBuffer.empty_iff.mp (Bool.eq_true_of_not_eq_false he)
        refine hno ((hgo n hn).mpr ⟨fun e hmem => ?_, fun _ => hnil⟩)
        rw [hnil] at hmem
        exact absurd hmem List.not_mem_nil
      refine ⟨?_, hne⟩
      rw [drainSel, drainReq, hne, Bool.eq_false_of_not_eq_true hno]
      rfl
    · intro n hn hno hp hg
      have hsame := hnext n hn
      rw [hp, if_neg Bool.false_ne_true] at hsame
      rw [hgo (n + 1) (by omega), hsame] at hg
      exact hno ((hgo n hn).mpr hg)
  refine ⟨n2, hn2, fun n hn => ?_⟩
  induction n, hn using Nat.le_induction with
  | base => exact hg
  | succ n hn ih => exact hmono n (hn2.trans hn) ih

/-- A read that is held is answered. -/
theorem read_answered {a : Word} {n1 : ℕ} (hheld : ∀ n ≥ n1, Presents (ins n) a false) :
    ∃ n ≥ n1, cpuDataRvalid P (run P init ins n) (ins n) = true := by
  obtain ⟨n2, hn2, hgo⟩ := exists_loadGo hl h0 ha hi hheld
  have hsel : ∀ n ≥ n2, walkSel P (run P init ins n) (ins n) = false ∧
      drainSel P (run P init ins n) (ins n) = false := by
    intro n hn
    simp [walkSel, drainSel, hgo n hn]
  have hasks : ∀ n ≥ n2, (dcacheReq P (run P init ins n) (ins n)).Asks a := by
    intro n hn
    obtain ⟨hw, hd⟩ := hsel n hn
    exact ⟨by simp [dcacheReq, hgo n hn], by simp [dcacheReq, hw, hd, (hheld n (by omega)).addr]⟩
  obtain ⟨n, hn, hg⟩ := exists_gnt hl h0 ha hi hasks
  obtain ⟨k, hk, hv, hw, hd⟩ := answer_of_gnt hl h0 ha hi hg
  obtain ⟨hw', hd'⟩ := hsel n hn
  refine ⟨k, by omega, ?_⟩
  rw [cpuDataRvalid, (hheld k (by omega)).we_eq, if_neg Bool.false_ne_true, hv, hw, hd, hw', hd']
  rfl

/-- **An access that the core holds is answered.** -/
theorem core_answered {a : Word} {we : Bool} {n1 : ℕ} (hheld : ∀ n ≥ n1,
    (∀ k, n1 ≤ k → k < n → cpuDataRvalid P (run P init ins k) (ins k) = false) →
      Presents (ins n) a we) : ∃ n ≥ n1, cpuDataRvalid P (run P init ins n) (ins n) = true := by
  by_contra hnone
  have hheld : ∀ n ≥ n1, Presents (ins n) a we := fun n hn => hheld n hn fun k hk _ =>
    Bool.eq_false_of_not_eq_true fun hv => hnone ⟨k, hk, hv⟩
  cases we
  · exact hnone (read_answered hl h0 ha hi hheld)
  · exact hnone (write_answered hl h0 ha hi hheld)

/-! ## While the core is quiet -/

/-- **The buffer drains** while the core asks for nothing. -/
theorem exists_empty {n1 : ℕ} (hquiet : ∀ n ≥ n1,
    (∀ k, n1 ≤ k → k < n → (run P init ins k).buffer.empty = false) →
      cpuDataBusReq (ins n) = false) : ∃ n ≥ n1, (run P init ins n).buffer.empty = true := by
  by_contra hnone
  have hne : ∀ n ≥ n1, (run P init ins n).buffer.empty = false :=
    fun n hn => Bool.eq_false_of_not_eq_true fun he => hnone ⟨n, hn, he⟩
  have hquiet : ∀ n ≥ n1, cpuDataBusReq (ins n) = false :=
    fun n hn => hquiet n hn fun k hk _ => hne k hk
  apply hnone
  apply eventually_of_pops hl h0 ha hi
  · exact fun n hn => by rw [storeBufPushReq, hquiet n hn, Bool.false_and, Bool.false_and]
  · intro n hn _
    refine ⟨?_, hne n hn⟩
    have hgo : cpuLoadGo P (run P init ins n) (ins n) = false := by
      simp [cpuLoadGo, hquiet n hn]
    rw [drainSel, drainReq, hne n hn, hgo]
    rfl
  · exact fun n hn _ _ he => absurd ((hne (n + 1) (by omega)).symm.trans he) Bool.false_ne_true

/-- **A walk gets the port** while the core asks for nothing, and is answered. -/
theorem walk_answered {a : Word} {n1 : ℕ} (hheld : ∀ n ≥ n1,
    (∀ k, n1 ≤ k → k < n → walkGnt P (run P init ins k) (ins k) = false) →
      cpuDataBusReq (ins n) = false ∧ (ins n).walkReq = true ∧ (ins n).walkAddr = a) :
    ∃ n ≥ n1, walkGnt P (run P init ins n) (ins n) = true ∧
      ∃ k ≥ n, walkRvalid P (run P init ins k) (ins k) = true := by
  obtain ⟨n, hn, hg⟩ : ∃ n ≥ n1, walkGnt P (run P init ins n) (ins n) = true := by
    by_contra hnone
    have hheld := fun n (hn : n ≥ n1) => hheld n hn fun k hk _ =>
      Bool.eq_false_of_not_eq_true fun hg => hnone ⟨k, hk, hg⟩
    have hpush : ∀ n ≥ n1, storeBufPushReq P (run P init ins n) (ins n) = false := fun n hn => by
      rw [storeBufPushReq, (hheld n hn).1, Bool.false_and, Bool.false_and]
    obtain ⟨n2, hn2, he⟩ := exists_empty hl h0 ha hi fun n hn _ => (hheld n hn).1
    have hempty : ∀ n ≥ n2, (run P init ins n).buffer.empty = true := by
      intro n hn
      induction n, hn using Nat.le_induction with
      | base => exact he
      | succ n hn ih =>
        rw [StoreBuffer.empty_iff] at ih ⊢
        refine List.eq_nil_iff_forall_not_mem.mpr fun e hmem => ?_
        rcases mem_entries_next (progressInv_run h0 hi n).toBusInv hmem with hmem | ⟨-, hp⟩
        · rw [ih] at hmem
          exact absurd hmem List.not_mem_nil
        · exact absurd ((hpush n (by omega)).symm.trans hp) Bool.false_ne_true
    have hsel : ∀ n ≥ n2, walkSel P (run P init ins n) (ins n) = true := by
      intro n hn
      obtain ⟨hq, hw, -⟩ := hheld n (by omega)
      simp [walkSel, cpuLoadGo, drainReq, hq, hw, hempty n hn, hpush n (by omega)]
    have hasks : ∀ n ≥ n2, (dcacheReq P (run P init ins n) (ins n)).Asks a := fun n hn =>
      ⟨by simp [dcacheReq, hsel n hn], by simp [dcacheReq, hsel n hn, (hheld n (by omega)).2.2]⟩
    obtain ⟨n, hn, hg⟩ := exists_gnt hl h0 ha hi hasks
    exact hnone ⟨n, by omega, by rw [walkGnt, hg, hsel n hn]; rfl⟩
  have hg' := hg
  rw [walkGnt, Bool.and_eq_true] at hg'
  obtain ⟨k, hk, hv, hw, -⟩ := answer_of_gnt hl h0 ha hi hg'.1
  exact ⟨n, hn, hg, k, hk, by rw [walkRvalid, hv, hw, hg'.2]; rfl⟩

end Runs

/-- **No master of the data port waits for ever**, with any latency of the memory up to 256. From
any cycle of any run on: an access of the core, once presented and held, is answered, whatever is
buffered and whatever the walker and FENCE.I do; the store buffer drains while the core presents
nothing; and a walk that is held meanwhile is granted, and then answered. -/
theorem data_side_live (P : BusParams) (hl : P.memLatency ≤ 256) (data : ℕ → ℕ → Word)
    (tag : ℕ → ℕ → ℕ) (dataRd : ℕ → Word) (tagRd : ℕ → ℕ) (mem : UnifiedMem) (ins : ℕ → DataIn)
    (hi : ∀ n, AlignedAccess (ins n)) :
    let s := run P (reset (Dcache.reset data tag dataRd tagRd) mem) ins
    (∀ n1 a we, (∀ n ≥ n1, (∀ k, n1 ≤ k → k < n → cpuDataRvalid P (s k) (ins k) = false) →
        Presents (ins n) a we) → ∃ n ≥ n1, cpuDataRvalid P (s n) (ins n) = true) ∧
      (∀ n1, (∀ n ≥ n1, (∀ k, n1 ≤ k → k < n → (s k).buffer.empty = false) →
        cpuDataBusReq (ins n) = false) → ∃ n ≥ n1, (s n).buffer.empty = true) ∧
      ∀ n1 a, (∀ n ≥ n1, (∀ k, n1 ≤ k → k < n → walkGnt P (s k) (ins k) = false) →
          cpuDataBusReq (ins n) = false ∧ (ins n).walkReq = true ∧ (ins n).walkAddr = a) →
        ∃ n ≥ n1, walkGnt P (s n) (ins n) = true ∧ ∃ k ≥ n, walkRvalid P (s k) (ins k) = true := by
  intro s
  have h0 := progressInv_reset (P := P) data tag dataRd tagRd mem
  exact ⟨fun _ _ _ hheld => core_answered hl h0 rfl hi hheld,
    fun _ hquiet => exists_empty hl h0 rfl hi hquiet,
    fun _ _ hheld => walk_answered hl h0 rfl hi hheld⟩

/-- Memories of latency three, and a store buffer of three entries. -/
def slowBus : BusParams := .ofDepth 3 3 CacheSystem.smallParams (by decide)

/-- The core writes a word of RAM in every cycle. -/
def pressingStore (_ : ℕ) : DataIn where
  memReadEn := false
  memWriteEn := true
  loadPageFault := false
  storePageFault := false
  mmuEnable := false
  dataReady := true
  physAddr := 0x80000100#32
  byteEnable := 0b1111#4
  writeData := 7#32
  loadType := 0b010#3
  nextDataAddr := 0x80000100#32
  cleanReq := true
  walkReq := true
  walkAddr := 0x80000200#32
  deviceData := 0#32

/-- The core writes for nine cycles, and then leaves the port to the walker. -/
def storesThenWalk (n : ℕ) : DataIn := { pressingStore n with memWriteEn := decide (n < 9) }

/-- The port after reset, with zeros in every memory. -/
def zeroPort : DataBus :=
  reset (Dcache.reset (fun _ _ => 0#32) (fun _ _ => 0) (fun _ => 0#32) fun _ => 0) fun _ => 0#32

/-- The write of cycle nine is accepted in the end; and where there is none, what is still buffered
then drains, and the walker is granted its read and answered. -/
theorem data_side_live_pressingStore :
    (∃ n ≥ 9, cpuDataRvalid slowBus (run slowBus zeroPort pressingStore n) (pressingStore n) =
        true) ∧
      (run slowBus zeroPort storesThenWalk 9).buffer.empty = false ∧
      (∃ n ≥ 9, (run slowBus zeroPort storesThenWalk n).buffer.empty = true) ∧
      ∃ n ≥ 9, walkGnt slowBus (run slowBus zeroPort storesThenWalk n) (storesThenWalk n) = true ∧
        ∃ k ≥ n, walkRvalid slowBus (run slowBus zeroPort storesThenWalk k) (storesThenWalk k) =
          true := by
  have hstore : AlignedStore 0x80000100#32 0b1111#4 := .inr (.inr ⟨rfl, by decide⟩)
  have hquiet : ∀ n ≥ 9, cpuDataBusReq (storesThenWalk n) = false := by
    intro n hn
    have hwr : (storesThenWalk n).memWriteEn = false := decide_eq_false (by omega)
    rw [cpuDataBusReq, cpuDataReq, hwr]
    rfl
  have haligned : ∀ n, AlignedAccess (storesThenWalk n) := by
    intro n hreq _
    have hwr : (storesThenWalk n).memWriteEn = true := by
      refine decide_eq_true (Nat.lt_of_not_le fun hn => ?_)
      exact Bool.false_ne_true ((hquiet n hn).symm.trans hreq)
    rw [if_pos hwr]
    exact hstore
  obtain ⟨hcore, -, -⟩ := data_side_live slowBus (by decide) _ _ _ _ _ pressingStore
    fun _ _ _ => hstore
  obtain ⟨-, hdrain, hwalk⟩ := data_side_live slowBus (by decide) _ _ _ _ _ storesThenWalk haligned
  exact ⟨hcore 9 0x80000100#32 true fun _ _ _ => ⟨rfl, rfl, rfl⟩, by decide +kernel,
    hdrain 9 fun n hn _ => hquiet n hn,
    hwalk 9 0x80000200#32 fun n hn _ => ⟨hquiet n hn, rfl, rfl⟩⟩

end DataBus

end Synapse32
