import Synapse32.Core.FetchPath
import Synapse32.Soc.Runs

/-! # The fetch port

The instruction cache reads the RAM through an adapter of its own. The adapter is busy only for the
request that the cache presents, and what it answers is what the RAM held while the request stood;
so the cache is surrounded as it has to be. -/

namespace Synapse32

/-! ## The RAM by fetches -/

/-- The word that a fetch of word address `w` reads. -/
def UnifiedMem.fetchWord (u : UnifiedMem) (w : ℕ) : Word := u.fetch (BitVec.ofNat 32 (4 * w))

/-- A fetch reads the word its address lies in. -/
theorem UnifiedMem.fetch_eq (u : UnifiedMem) (a : Word) :
    u.fetch a = u.fetchWord (DcacheParams.wordAddr a) := by
  have hlt := a.isLt
  have hword : (BitVec.ofNat 32 (4 * (a.toNat / 4))).toNat = 4 * (a.toNat / 4) := by
    rw [BitVec.toNat_ofNat]
    omega
  unfold fetchWord fetch DcacheParams.wordAddr
  rw [physToLocal_eq, physToLocal_eq, hword]
  by_cases h1 : 0x80000000 ≤ a.toNat ∧ a.toNat ≤ 0x83FFFFFF
  · have h1' : 0x80000000 ≤ 4 * (a.toNat / 4) ∧ 4 * (a.toNat / 4) ≤ 0x83FFFFFF := by omega
    have hq : (4 * (a.toNat / 4) - 0x80000000) / 4 = (a.toNat - 0x80000000) / 4 := by omega
    simp only [if_pos h1, if_pos h1', hq]
  · have h1' : ¬ (0x80000000 ≤ 4 * (a.toNat / 4) ∧ 4 * (a.toNat / 4) ≤ 0x83FFFFFF) := by omega
    by_cases h2 : 0x10000000 ≤ a.toNat ∧ a.toNat ≤ 0x100FFFFF
    · have h2' : 0x10000000 ≤ 4 * (a.toNat / 4) ∧ 4 * (a.toNat / 4) ≤ 0x100FFFFF := by omega
      have hq : (4 * (a.toNat / 4) - 0x10000000 + 0x04000000) / 4 =
          (a.toNat - 0x10000000 + 0x04000000) / 4 := by omega
      simp only [if_neg h1, if_neg h1', if_pos h2, if_pos h2', hq]
    · have h2' : ¬ (0x10000000 ≤ 4 * (a.toNat / 4) ∧ 4 * (a.toNat / 4) ≤ 0x100FFFFF) := by omega
      simp only [if_neg h1, if_neg h1', if_neg h2, if_neg h2']

/-- In RAM it is the word of the data side. -/
theorem UnifiedMem.fetchWord_of_ram (u : UnifiedMem) {a : Word} (h : isRam a = true) :
    u.fetchWord (DcacheParams.wordAddr a) = u.words (DcacheParams.wordAddr a) := by
  obtain ⟨l, hl, hfit, -⟩ := physToLocal_of_ram h
  rw [words_wordAddr h hl, ← fetch_eq]
  simp [fetch, hl, hfit]

namespace Top

variable {P : TopParams} {m : PowerOn} {ins : ℕ → TopIn} {s : Top} {d : TopIn}

/-! ## The port -/

/-- The address that a fill reads. -/
def fillAddr (P : TopParams) (c : Icache) : Word :=
  BitVec.ofNat 32 (P.icache.lines.lineWord c.fillLine c.fillWord * 4)

/-- **The adapter of the fetch side**: while it is busy the cache waits, and in a fill the access is
that of the next word; a response that it presents is waited for. -/
structure FetchPort (P : TopParams) (s : Top) : Prop where
  waits : s.instrAdapter.busy = true ∨ s.instrAdapter.rvalid = true →
    s.icache.state = .fill ∨ s.icache.state = .bypass
  silent : s.instrAdapter.busy = true → s.instrAdapter.rvalid = false
  held : s.instrAdapter.busy = true → s.icache.state = .fill →
    s.instrAdapter.held.addr = fillAddr P s.icache
  direct : P.fetchLatency = 0 → s.instrAdapter.busy = false ∧ s.instrAdapter.rvalid = false

/-- A cycle in which the adapter takes a request or works on one answers nothing. -/
structure Waits (P : TopParams) (s : Top) (d : TopIn) : Prop where
  rvalid : (icacheIn P s d).memRvalid = false
  asks : s.icache.state = .fill ∨ s.icache.state = .bypass ∨
    (Icache.bypassReq s.icache (icacheIn P s d) = true ∧ (icacheIn P s d).memGnt = true)
  addr : s.icache.state = .fill →
    (s.instrAdapter.store P.fetchLatency (icacheStore P s)).addr = fillAddr P s.icache

/-- The cache goes on waiting, for the same word. -/
theorem Waits.next (h : Waits P s d) :
    ((Top.next P s d).icache.state = .fill ∨ (Top.next P s d).icache.state = .bypass) ∧
      ((Top.next P s d).icache.state = .fill → s.icache.state = .fill ∧
        fillAddr P (Top.next P s d).icache = fillAddr P s.icache) := by
  have hstate : (Top.next P s d).icache.state =
      Icache.nextState P.icache s.icache (icacheIn P s d) := rfl
  have hfw : Icache.fillWrite s.icache (icacheIn P s d) = false := by
    rw [Icache.fillWrite, h.rvalid, Bool.and_false]
  rcases h.asks with hs | hs | ⟨hb, hg⟩
  · -- A fill stays at its word until the answer.
    have hn : (Top.next P s d).icache.state = .fill := by
      rw [hstate, Icache.nextState, hs]
      dsimp only
      rw [Icache.fillLast, hfw, Bool.false_and, if_neg Bool.false_ne_true]
    refine ⟨.inl hn, fun _ => ⟨hs, ?_⟩⟩
    obtain ⟨hline, -, hword, -⟩ :=
      Icache.fill_registers (P := P.icache) (x := icacheIn P s d) hs
    rw [hfw, if_neg Bool.false_ne_true] at hword
    have hline : (Top.next P s d).icache.fillLine = s.icache.fillLine := hline
    have hword : (Top.next P s d).icache.fillWord = s.icache.fillWord := hword
    rw [fillAddr, hline, hword, fillAddr]
  · have hn : (Top.next P s d).icache.state = .bypass := by
      rw [hstate, Icache.nextState, hs]
      dsimp only
      rw [h.rvalid, if_neg Bool.false_ne_true]
    exact ⟨.inr hn, fun hf => by rw [hn] at hf; cases hf⟩
  · have hn : (Top.next P s d).icache.state = .bypass := by
      have hb' := hb
      simp only [Icache.bypassReq, Bool.and_eq_true, beq_iff_eq, Bool.not_eq_true'] at hb'
      obtain ⟨⟨-, hc⟩, hs⟩ := hb'
      have hm : Icache.miss P.icache s.icache (icacheIn P s d) = false := by
        simp [Icache.miss, Icache.lookup, hc]
      rw [hstate, Icache.nextState, hs]
      dsimp only
      rw [hm, hb, hg, h.rvalid]
      rfl
    exact ⟨.inr hn, fun hf => by rw [hn] at hf; cases hf⟩

/-- What the adapter does in a cycle: it takes a request or works on one, or it becomes idle. -/
theorem FetchPort.cases (h : FetchPort P s) (hl : P.fetchLatency ≠ 0) :
    Waits P s d ∨
      ((next P s d).instrAdapter.busy = false ∧ (next P s d).instrAdapter.rvalid = false) := by
  have hrv : (icacheIn P s d).memRvalid = s.instrAdapter.rvalid := if_neg hl
  have hgnt : (icacheIn P s d).memGnt =
      (icacheMemReq s && !s.instrAdapter.busy && !s.instrAdapter.rvalid) := if_neg hl
  cases hg : (icacheIn P s d).memGnt
  · cases hb : s.instrAdapter.busy
    · right
      -- Nothing is held and nothing is granted.
      have hnext : (next P s d).instrAdapter = { s.instrAdapter with rvalid := false } := by
        change s.instrAdapter.next _ _ _ _ = _
        have hg : s.instrAdapter.gnt P.fetchLatency (icacheMemReq s) = false := hg
        simp [MemAdapter.next, hl, hg, MemAdapter.sampleNow, hb]
      rw [hnext]
      exact ⟨hb, rfl⟩
    · left
      refine ⟨hrv.trans (h.silent hb), ?_, fun hs => ?_⟩
      · rcases h.waits (.inl hb) with hs | hs
        · exact .inl hs
        · exact .inr (.inl hs)
      · rw [MemAdapter.store, if_neg hl, if_pos hb]
        exact h.held hb hs
  · left
    rw [hgnt, Bool.and_eq_true, Bool.and_eq_true, Bool.not_eq_true', Bool.not_eq_true'] at hg
    obtain ⟨⟨hreq, hb⟩, hr⟩ := hg
    refine ⟨hrv.trans hr, ?_, fun hs => ?_⟩
    · have hask : ((s.icache.state == .fill) ||
          Icache.bypassReq s.icache (icacheIn P s d)) = true := hreq
      rw [Bool.or_eq_true, beq_iff_eq] at hask
      rcases hask with hs | hby
      · exact .inl hs
      · exact .inr (.inr ⟨hby, by rw [hgnt, hreq, hb, hr]; rfl⟩)
    · rw [MemAdapter.store, if_neg hl, hb, if_neg Bool.false_ne_true]
      exact if_pos hs

/-- The adapter after the edge: while it is busy it holds the access of the cycle, and what it
answers is the word read in the cycle. -/
theorem adapter_next (hl : P.fetchLatency ≠ 0) :
    ((Top.next P s d).instrAdapter.busy = true →
      (Top.next P s d).instrAdapter.rvalid = false ∧
      (Top.next P s d).instrAdapter.held =
        s.instrAdapter.store P.fetchLatency (icacheStore P s)) ∧
    ((Top.next P s d).instrAdapter.rvalid = true →
      (Top.next P s d).instrAdapter.rdata = instrStoreRdata P s) := by
  have hnext : (Top.next P s d).instrAdapter = s.instrAdapter.next P.fetchLatency
      (icacheMemReq s) (icacheStore P s) (instrStoreRdata P s) := rfl
  have hstore : s.instrAdapter.store P.fetchLatency (icacheStore P s) =
      if s.instrAdapter.busy then s.instrAdapter.held else icacheStore P s := if_neg hl
  rw [hnext, hstore, MemAdapter.next, if_neg hl]
  split
  · rename_i hg
    -- A granted access is held, or with latency one made at once.
    have hb : s.instrAdapter.busy = false := by
      rw [MemAdapter.gnt, if_neg hl] at hg
      simp only [Bool.and_eq_true, Bool.not_eq_true'] at hg
      exact hg.1.2
    rw [hb]
    split
    · exact ⟨fun hbusy => absurd hbusy Bool.false_ne_true, fun _ => rfl⟩
    · exact ⟨fun _ => ⟨rfl, rfl⟩, fun hr => absurd hr Bool.false_ne_true⟩
  · split
    · exact ⟨fun hbusy => absurd hbusy Bool.false_ne_true, fun _ => rfl⟩
    · split
      · exact ⟨fun _ => ⟨rfl, rfl⟩, fun hr => absurd hr Bool.false_ne_true⟩
      · rename_i hb
        exact ⟨fun hbusy => absurd hbusy hb, fun hr => absurd hr Bool.false_ne_true⟩

/-- **Step.** -/
theorem FetchPort.next (h : FetchPort P s) : FetchPort P (Top.next P s d) := by
  by_cases hl : P.fetchLatency = 0
  · obtain ⟨hb, hr⟩ := h.direct hl
    -- Without latency the adapter has no state.
    have hnext : (Top.next P s d).instrAdapter = s.instrAdapter := if_pos hl
    constructor
    · rw [hnext, hb, hr]
      exact fun hw => absurd hw (by decide)
    · rw [hnext, hb]
      exact nofun
    · rw [hnext, hb]
      exact nofun
    · rw [hnext]
      exact fun _ => ⟨hb, hr⟩
  · rcases h.cases (d := d) hl with hw | ⟨hb, hr⟩
    · obtain ⟨hstate, hfill⟩ := hw.next
      obtain ⟨hbusy, -⟩ := adapter_next (s := s) (d := d) hl
      refine ⟨fun _ => hstate, fun hb => (hbusy hb).1, fun hb hs => ?_, fun h0 => absurd h0 hl⟩
      obtain ⟨hs0, haddr⟩ := hfill hs
      rw [(hbusy hb).2, haddr]
      exact hw.addr hs0
    · constructor
      · rw [hb, hr]
        exact fun hw => absurd hw (by decide)
      · rw [hb]
        exact nofun
      · rw [hb]
        exact nofun
      · exact fun _ => ⟨hb, hr⟩

/-- The registers after reset satisfy the invariant. -/
theorem fetchPort_reset : FetchPort P (reset m) where
  waits h := absurd h (by rintro (h | h) <;> exact Bool.false_ne_true h)
  silent h := absurd h Bool.false_ne_true
  held h := absurd h Bool.false_ne_true
  direct _ := ⟨rfl, rfl⟩

/-- **Run lemma.** The invariant of the fetch port holds before every cycle. -/
theorem fetchPort_run (n : ℕ) : FetchPort P (run P m ins n) :=
  Clocked.run_invariant fetchPort_reset (fun _ h => h.next) n

/-! ## What surrounds the instruction cache -/

/-- What the RAM holds for fetches, in each cycle of a run. -/
def fetchHistory (P : TopParams) (m : PowerOn) (ins : ℕ → TopIn) : History :=
  fun n w => (run P m ins n).bus.mem.fetchWord w

/-- **The answers of the fetch port**: what the RAM held in some cycle in which the request
stood. -/
theorem served_run : Icache.Served P.icache (reset m).icache (icacheIns P m ins)
    (fetchHistory P m ins) where
  preRead n := physInstrAddr_mod _
  answers n a hreq hv := by
    rw [← run_icache] at hreq
    have hmem : Icache.memReq (run P m ins n).icache (icacheIns P m ins n) = true := by
      by_contra hno
      rw [Icache.request, if_neg hno] at hreq
      cases hreq
    have haddr : Icache.memAddr P.icache (run P m ins n).icache (icacheIns P m ins n) = a := by
      rw [Icache.request, if_pos hmem] at hreq
      exact Option.some.inj hreq
    by_cases hl : P.fetchLatency = 0
    · refine ⟨n, le_rfl, fun j hj hjn => ?_, ?_⟩
      · obtain rfl := Nat.le_antisymm hj hjn
        rw [← run_icache]
        exact hreq
      · have hdata : (icacheIns P m ins n).memRdata = instrStoreRdata P (run P m ins n) :=
          if_pos hl
        have hstore : (run P m ins n).instrAdapter.store P.fetchLatency
            (icacheStore P (run P m ins n)) = icacheStore P (run P m ins n) := if_pos hl
        rw [hdata, instrStoreRdata, hstore, UnifiedMem.fetch_eq]
        exact congrArg _ (congrArg _ haddr)
    · -- A registered response: the RAM was read one cycle earlier.
      have hr : (run P m ins n).instrAdapter.rvalid = true := by
        have hv : (run P m ins n).instrAdapter.rvalidOut P.fetchLatency _ = true := hv
        rwa [MemAdapter.rvalidOut, if_neg hl] at hv
      have hdata : (icacheIns P m ins n).memRdata = (run P m ins n).instrAdapter.rdata :=
        if_neg hl
      have hfill : (run P m ins n).icache.state = .fill := by
        rcases (fetchPort_run n).waits (.inr hr) with hs | hs
        · exact hs
        · simp [Icache.memReq, Icache.bypassReq, hs] at hmem
      cases n with
      | zero => exact absurd hr Bool.false_ne_true
      | succ n =>
        have hport := @fetchPort_run P m ins n
        rcases hport.cases (d := ins n) hl with hw | ⟨-, hno⟩
        · obtain ⟨-, hstays⟩ := hw.next
          obtain ⟨-, hread⟩ := adapter_next (s := run P m ins n) (d := ins n) hl
          obtain ⟨hs0, hsame⟩ := hstays hfill
          have hreq0 : Icache.request P.icache (run P m ins n).icache (icacheIns P m ins n) =
              some a := by
            have hm0 : Icache.memReq (run P m ins n).icache (icacheIns P m ins n) = true := by
              simp [Icache.memReq, hs0]
            rw [Icache.memAddr, if_pos hfill] at haddr
            rw [Icache.request, if_pos hm0, Icache.memAddr, if_pos hs0]
            exact congrArg some (hsame.symm.trans haddr)
          refine ⟨n, Nat.le_succ n, fun j hj hjn => ?_, ?_⟩
          · rw [← run_icache]
            rcases Nat.eq_or_lt_of_le hj with rfl | hlt
            · exact hreq0
            · obtain rfl : j = n + 1 := by omega
              exact hreq
          · have hstore : ((run P m ins n).instrAdapter.store P.fetchLatency
                (icacheStore P (run P m ins n))).addr = a := by
              rw [Icache.memAddr, if_pos hfill] at haddr
              exact (hw.addr hs0).trans (hsame.symm.trans haddr)
            rw [hdata]
            refine (hread hr).trans ?_
            rw [instrStoreRdata, hstore, UnifiedMem.fetch_eq]
            rfl
        · exact absurd (hno.symm.trans hr) Bool.false_ne_true

/-! ## Grants and answers of fetches -/

/-- The cache waits for an uncached fetch only behind its grant. -/
theorem grantCycle_of_bypass {n : ℕ} (h : (run P m ins n).icache.state = .bypass) :
    (RiscvCpu.grantCycle (cpuIns P m ins) n).isSome = true := by
  induction n with
  | zero => cases h
  | succ n ih =>
    set c := (run P m ins n).icache
    set x := icacheIns P m ins n
    have hstate : Icache.nextState P.icache c x = .bypass := h
    have hrv : (cpuIns P m ins n).instrRvalidIn = Icache.rvalid P.icache c x := rfl
    have hgnt : (cpuIns P m ins n).instrGntIn = Icache.gnt P.icache c x := rfl
    rw [RiscvCpu.grantCycle, hrv, hgnt]
    rw [Icache.nextState] at hstate
    -- A bypass in flight was granted now or is the one of the cycle before.
    cases hs : c.state <;> rw [hs] at hstate <;> dsimp only at hstate
    case fill => split at hstate <;> cases hstate
    case refill => cases hstate
    case idle =>
      split at hstate
      · cases hstate
      · split at hstate
        · rename_i hb
          simp only [Bool.and_eq_true, Bool.not_eq_true'] at hb
          obtain ⟨⟨hb, hg⟩, hv⟩ := hb
          have hh : Icache.hit P.icache c x = false := by
            simp only [Icache.bypassReq, Bool.and_eq_true, Bool.not_eq_true'] at hb
            simp [Icache.hit, Icache.lookup, hb.1.2]
          simp [Icache.rvalid, Icache.gnt, hh, hb, hg, hv]
        · cases hstate
    case bypass =>
      split at hstate
      · cases hstate
      · rename_i hv
        have hh : Icache.hit P.icache c x = false := by simp [Icache.hit, Icache.lookup, hs]
        have hv : x.memRvalid = false := Bool.eq_false_of_not_eq_true hv
        simp [Icache.rvalid, Icache.gnt, Icache.bypassReq, hh, hs, hv, ih hs]

/-- **An answer is to a fetch that was granted.** -/
theorem answeredGrant_isSome {n : ℕ} (hv : (cpuIns P m ins n).instrRvalidIn = true) :
    (RiscvCpu.answeredGrant (cpuIns P m ins) n).isSome = true := by
  set c := (run P m ins n).icache with hc
  set x := icacheIns P m ins n
  have hgnt : (cpuIns P m ins n).instrGntIn = Icache.gnt P.icache c x := rfl
  have hv : (Icache.hit P.icache c x ||
      (x.memRvalid && (Icache.bypassReq c x || c.state == .bypass))) = true := hv
  rw [RiscvCpu.answeredGrant, hgnt]
  split
  · rfl
  rename_i hg
  simp only [Bool.or_eq_true, Bool.and_eq_true, beq_iff_eq] at hv
  rcases hv with hh | ⟨hr, hb | hs⟩
  · exact absurd (by simp [Icache.gnt, hh]) hg
  · -- An idle cache is answered only in the cycle of the grant.
    have hl : P.fetchLatency = 0 := by
      by_contra hl
      have hr : (run P m ins n).instrAdapter.rvalidOut P.fetchLatency _ = true := hr
      rw [MemAdapter.rvalidOut, if_neg hl] at hr
      have hidle : c.state = .idle := by
        simp only [Icache.bypassReq, Bool.and_eq_true, beq_iff_eq] at hb
        exact hb.2
      rcases (fetchPort_run n).waits (.inr hr) with hs | hs
      · exact absurd (hidle.symm.trans hs) (by decide)
      · exact absurd (hidle.symm.trans hs) (by decide)
    have hgm : x.memGnt = true := by
      have hmem : icacheMemReq (run P m ins n) = true := by
        change ((c.state == .fill) || Icache.bypassReq c x) = true
        rw [hb, Bool.or_true]
      exact (if_pos hl).trans hmem
    exact absurd (by simp [Icache.gnt, hb, hgm]) hg
  · exact grantCycle_of_bypass hs

/-- **Behind its cache the core fetches the program's path.** -/
theorem fetchesPath (n : ℕ) : RiscvCpu.FetchesPath (cpuIns P m ins) n := by
  apply RiscvCpu.fetchesPath_of_fetchInv
  intro k
  exact RiscvCpu.fetchInv_run (fun j hv => answeredGrant_isSome hv) k

end Top

end Synapse32
