import Synapse32.Cache.Step
import Synapse32.Rtl.MemPort

/-! # The cache and its memory port

The port holds the engine's request as long as the engine is in the state that made it, so that
every response is for the word the engine waits for. -/

namespace Synapse32

open ByteLanes

variable {P : DcacheParams}

namespace Dcache

/-- The word of the line transfer in progress. -/
def lineReqWord (P : DcacheParams) (d : Dcache) : ℕ :=
  if d.eng.state = .evictWrite then P.lineWord (d.eng.evictLine P) d.eng.word
  else P.lineWord (head d).line d.eng.word

variable {d : Dcache} {r : DcacheReq} {m : MemRsp} {ram : Ram}

/-- The states of a line transfer. -/
theorem memLine_iff : memLine d = true ↔ d.eng.state = .evictWrite ∨ d.eng.state = .fill := by
  simp [memLine]

/-- A filling engine has an oldest MSHR. -/
theorem head_of_fill (h : Inv P d ram) (hs : d.eng.state = .fill) :
    d.lines.mshr.head? = some (head d) := by
  obtain ⟨L, hL, -⟩ := h.eng.head ⟨h.eng.fill_mode hs, Or.inr (Or.inr (Or.inr hs))⟩
  unfold Lines.waiting at hL
  unfold head
  cases hml : d.lines.mshr with
  | nil => simp [hml] at hL
  | cons a t => rfl

/-- The line that is transferred is a RAM line, and the engine is inside it. -/
theorem ramLine_of_memLine (h : Inv P d ram) (hm : memLine d = true) :
    d.eng.word < P.words ∧
      ∃ L, P.RamLine L ∧ lineReqWord P d = P.lineWord L d.eng.word := by
  rcases memLine_iff.mp hm with hs | hs
  · exact ⟨h.eng.write_word hs, _, h.eng.evict_ram (Or.inr hs), by simp [lineReqWord, hs]⟩
  · refine ⟨h.eng.fill_word hs, (head d).line, ?_, by simp [lineReqWord, hs]⟩
    have hmem : head d ∈ d.lines.mshr := List.mem_of_mem_head? (head_of_fill h hs)
    exact h.lines.ram_waiting (List.mem_map_of_mem hmem)

/-- While a line moves, the port's address is that of its next word. -/
theorem memAddr_of_line (hw : d.eng.word < P.words) (hm : memLine d = true) :
    memAddr P d r = BitVec.ofNat 32 (lineReqWord P d * 4) := by
  have hidx : engWordIndex P d = d.eng.word := Nat.mod_eq_of_lt hw
  unfold memAddr lineReqWord
  rcases memLine_iff.mp hm with hs | hs
  · rw [if_pos hs, if_pos hs, hidx]
    rfl
  · have hne : ¬ d.eng.state = .evictWrite := by simp [hs]
    rw [if_neg hne, if_neg hne, if_pos hs, hidx]

/-- The address of a line transfer is that of its word. -/
theorem wordAddr_memAddr (h : Inv P d ram) (hm : memLine d = true) :
    DcacheParams.wordAddr (memAddr P d r) = lineReqWord P d := by
  obtain ⟨hw, L, hL, hword⟩ := ramLine_of_memLine h hm
  have hlt := (ramLine_word hL hw).1
  rw [← hword] at hlt
  rw [memAddr_of_line hw hm, DcacheParams.wordAddr, BitVec.toNat_ofNat, Nat.mod_eq_of_lt hlt]
  omega

/-- A line transfer always goes to RAM. -/
theorem isRam_memAddr (h : Inv P d ram) (hm : memLine d = true) :
    isRam (memAddr P d r) = true := by
  obtain ⟨hw, L, hL, hword⟩ := ramLine_of_memLine h hm
  rw [memAddr_of_line hw hm, hword]
  exact (ramLine_word hL hw).2

/-- A line transfer's request does not depend on the core side. -/
theorem memRequest_of_line (hm : memLine d = true) (r' : DcacheReq) :
    memRequest P d r = memRequest P d r' := by
  rcases memLine_iff.mp hm with hs | hs <;>
    simp [memRequest, memAddr, memWe, memBe, memWdata, memLine, hs]

end Dcache

open Dcache

/-! ## The port invariant -/

/-- **Whose request the port holds**: the engine's, for the word it is at, or a bypass the engine
waits for. -/
structure PortOwner (P : DcacheParams) (d : Dcache) (q : MemReq) : Prop where
  line : q.line = true → memLine d = true ∧ ∀ r, q = memRequest P d r
  bypass : q.line = false → d.eng.state = .bypass

/-- **The port invariant**: besides its owner, an access that is done has had its effect. -/
def PortInv (P : DcacheParams) (d : Dcache) (ram : Ram) : MemPort → Prop
  | .idle => True
  | .waiting q => PortOwner P d q
  | .done q v => PortOwner P d q ∧ (q.line = true →
      if q.we then ram (DcacheParams.wordAddr q.addr) = q.wdata
      else v = ram (DcacheParams.wordAddr q.addr))

/-- Within a cycle the port may also hold the bypass request it has just accepted. -/
structure PortMidOwner (P : DcacheParams) (d : Dcache) (r : DcacheReq) (q : MemReq) : Prop where
  line : q.line = true → memLine d = true ∧ ∀ r, q = memRequest P d r
  bypass : q.line = false → d.eng.state = .bypass ∨ bypassGo d r = true

section Cycle

variable {s : CacheSystem} {r : DcacheReq} {c : MemChoice}

/-- The line flag of a presented request. -/
theorem request_owner {q : MemReq} (hq : CacheSystem.request P s r = some q) :
    PortMidOwner P s.cache r q := by
  unfold CacheSystem.request at hq
  split at hq
  · rename_i hreq
    obtain rfl := Option.some_inj.mp hq
    refine ⟨fun hl => ⟨hl, fun r' => memRequest_of_line hl r'⟩, fun hl => Or.inr ?_⟩
    have hl' : memLine s.cache = false := hl
    simpa [memReq, hl'] using hreq
  · exact absurd hq (by simp)

/-- The request held after the cycle's acceptance, and whether it was there before. -/
theorem accepted_cases (hp : PortInv P s.cache s.ram s.port) {q : MemReq}
    (h : s.port.accepted (CacheSystem.request P s r) c = .waiting q) :
    PortMidOwner P s.cache r q ∧
      (q.line = false → s.cache.eng.state = .bypass ∨
        s.port.gnt (CacheSystem.request P s r) c = true) := by
  unfold MemPort.accepted at h
  cases hport : s.port with
  | idle =>
    cases hreq : CacheSystem.request P s r with
    | none => simp [hport, hreq] at h
    | some q' =>
      rw [hport, hreq] at h
      cases hc : c.accept
      · simp [hc] at h
      · obtain rfl : q' = q := by simpa [hc] using h
        exact ⟨request_owner hreq, fun _ => Or.inr (by simp [MemPort.gnt, hc])⟩
  | waiting q' =>
    rw [hport] at h
    obtain rfl : q' = q := by simpa using h
    rw [hport] at hp
    exact ⟨⟨hp.line, fun hl => Or.inl (hp.bypass hl)⟩, fun hl => Or.inl (hp.bypass hl)⟩
  | done q' v =>
    rw [hport] at h
    exact absurd h (by simp)

/-- A request that was done before is done still. -/
theorem accepted_done (hp : PortInv P s.cache s.ram s.port) {q : MemReq} {v : Word}
    (h : s.port.accepted (CacheSystem.request P s r) c = .done q v) :
    PortOwner P s.cache q ∧ (q.line = true →
      if q.we then s.ram (DcacheParams.wordAddr q.addr) = q.wdata
      else v = s.ram (DcacheParams.wordAddr q.addr)) := by
  unfold MemPort.accepted at h
  cases hport : s.port with
  | idle =>
    rw [hport] at h
    cases hreq : CacheSystem.request P s r with
    | none => simp [hreq] at h
    | some q' =>
      rw [hreq] at h
      cases hc : c.accept <;> simp [hc] at h
  | waiting q' =>
    rw [hport] at h
    exact absurd h (by simp)
  | done q' v' =>
    rw [hport] at h hp
    obtain ⟨rfl, rfl⟩ : q' = q ∧ v' = v := by simpa using h
    exact hp

/-- A line request is a write exactly in an eviction, of the buffer's word, all lanes. -/
theorem lineRequest_write (h : Inv P s.cache s.ram) (hm : memLine s.cache = true) (r : DcacheReq) :
    ((memRequest P s.cache r).we = true ↔ s.cache.eng.state = .evictWrite) ∧
      (memRequest P s.cache r).be = 0b1111#4 ∧
      (s.cache.eng.state = .evictWrite →
        (memRequest P s.cache r).wdata = s.cache.eng.evictBuf s.cache.eng.word) := by
  have hidx : engWordIndex P s.cache = s.cache.eng.word :=
    Nat.mod_eq_of_lt (ramLine_of_memLine h hm).1
  refine ⟨?_, ?_, ?_⟩
  · simp [memRequest, memWe, hm]
  · simp [memRequest, memBe, hm]
  · intro hs
    simp [memRequest, memWdata, hs, hidx]

/-- **The RAM changes only by the write of the word being evicted.** -/
theorem ramAfter_cases (h : Inv P s.cache s.ram) (hp : PortInv P s.cache s.ram s.port) :
    (s.cache.eng.state = .evictWrite ∧
        WritesBack P s.cache.eng s.ram (CacheSystem.ramAfter P s r c)) ∨
      CacheSystem.ramAfter P s r c = s.ram := by
  unfold CacheSystem.ramAfter MemPort.ramAfter
  cases hacc : s.port.accepted (CacheSystem.request P s r) c with
  | idle => exact Or.inr rfl
  | done q v => exact Or.inr rfl
  | waiting q =>
    dsimp only
    split
    · rename_i hw
      simp only [Bool.and_eq_true] at hw
      obtain ⟨hm, hq⟩ := (accepted_cases hp hacc).1.line hw.1.2
      obtain ⟨hwe, hbe, hdata⟩ := lineRequest_write h hm r
      have hs : s.cache.eng.state = .evictWrite := hwe.mp (hq r ▸ hw.2)
      refine Or.inl ⟨hs, Or.inr ?_⟩
      have haddr : DcacheParams.wordAddr q.addr =
          P.lineWord (s.cache.eng.evictLine P) s.cache.eng.word := by
        rw [hq r]
        exact (wordAddr_memAddr h hm).trans (by simp [lineReqWord, hs])
      rw [haddr, hq r, hbe, hdata hs, merge_allOnes]
    · exact Or.inr rfl

/-- The invariant survives the RAM access of the cycle. -/
theorem inv_ramAfter (h : Inv P s.cache s.ram) (hp : PortInv P s.cache s.ram s.port) :
    Inv P s.cache (CacheSystem.ramAfter P s r c) ∧
      view P s.cache.lines s.cache.eng (CacheSystem.ramAfter P s r c) =
        view P s.cache.lines s.cache.eng s.ram := by
  rcases ramAfter_cases (r := r) (c := c) h hp with ⟨hs, hw⟩ | heq
  · exact ⟨⟨h.lines, h.eng.writeBack hs hw, h.rd⟩, view_writeBack h.lines h.eng hs hw⟩
  · rw [heq]
    exact ⟨h, rfl⟩

/-- **An access that is done has had its effect**, and its response is for the engine's word. -/
theorem portAfter_done (h : Inv P s.cache s.ram) (hp : PortInv P s.cache s.ram s.port)
    {q : MemReq} {v : Word} (hd : CacheSystem.portAfter P s r c = .done q v) :
    PortMidOwner P s.cache r q ∧ (q.line = true →
      if q.we then CacheSystem.ramAfter P s r c (DcacheParams.wordAddr q.addr) = q.wdata
      else v = CacheSystem.ramAfter P s r c (DcacheParams.wordAddr q.addr)) ∧
      (q.line = false → s.cache.eng.state = .bypass ∨
        s.port.gnt (CacheSystem.request P s r) c = true) := by
  unfold CacheSystem.portAfter MemPort.accessed at hd
  unfold CacheSystem.ramAfter MemPort.ramAfter
  cases hacc : s.port.accepted (CacheSystem.request P s r) c with
  | idle => simp [hacc] at hd
  | done q' v' =>
    rw [hacc] at hd
    -- The access was made in an earlier cycle.
    obtain ⟨rfl, rfl⟩ : q' = q ∧ v' = v := by simpa using hd
    obtain ⟨hown, heff⟩ := accepted_done hp hacc
    exact ⟨⟨hown.line, fun hl => Or.inl (hown.bypass hl)⟩, heff, fun hl => Or.inl (hown.bypass hl)⟩
  | waiting q' =>
    rw [hacc] at hd
    -- The access is made now, if at all.
    cases hc : c.access
    · simp [hc] at hd
    · obtain ⟨rfl, hv⟩ : q' = q ∧
          (if q'.line then s.ram (DcacheParams.wordAddr q'.addr) else c.device) = v := by
        simpa [hc] using hd
      obtain ⟨hmid, hnew⟩ := accepted_cases hp hacc
      refine ⟨hmid, fun hl => ?_, hnew⟩
      obtain ⟨hm, hq⟩ := hmid.line hl
      obtain ⟨-, hbe, -⟩ := lineRequest_write h hm r
      rw [hl] at hv
      simp only [if_true] at hv
      cases hwe : q'.we
      · simp [hl, hv, hwe]
      · have hbe' : q'.be = 0b1111#4 := hq r ▸ hbe
        simp [hl, hbe', hwe]

/-- A request still waiting after the cycle. -/
theorem portAfter_waiting (hp : PortInv P s.cache s.ram s.port) {q : MemReq}
    (hw : CacheSystem.portAfter P s r c = .waiting q) :
    PortMidOwner P s.cache r q ∧ (q.line = false → s.cache.eng.state = .bypass ∨
      s.port.gnt (CacheSystem.request P s r) c = true) := by
  unfold CacheSystem.portAfter MemPort.accessed at hw
  cases hacc : s.port.accepted (CacheSystem.request P s r) c with
  | idle => simp [hacc] at hw
  | done q' v' => simp [hacc] at hw
  | waiting q' =>
    rw [hacc] at hw
    cases hc : c.access
    · obtain rfl : q' = q := by simpa [hc] using hw
      exact accepted_cases hp hacc
    · simp [hc] at hw

/-- What the response of the cycle is for. -/
theorem response_done (hrv : (CacheSystem.response P s r c).rvalid = true) :
    ∃ q v, CacheSystem.portAfter P s r c = .done q v ∧
      (CacheSystem.response P s r c).rdata = v := by
  unfold CacheSystem.response MemPort.rvalid at hrv
  unfold CacheSystem.response MemPort.rdata
  cases hpa : CacheSystem.portAfter P s r c with
  | idle => simp [hpa] at hrv
  | waiting q => simp [hpa] at hrv
  | done q v =>
    have hc : c.respond = true := by simpa [hpa] using hrv
    exact ⟨q, v, rfl, if_pos hc⟩

/-- In a line transfer the port's request is the engine's. -/
theorem line_of_memLine {q : MemReq} (hmid : PortMidOwner P s.cache r q)
    (hm : memLine s.cache = true) : q.line = true := by
  by_contra hl
  rcases memLine_iff.mp hm with hs | hs <;>
    rcases hmid.bypass (by simpa using hl) with hb | hb <;>
      simp [bypassGo, hs] at hb

/-- **The memory answers as the engine needs it.** -/
theorem memOk_response (h : Inv P s.cache s.ram) (hp : PortInv P s.cache s.ram s.port) :
    MemOk P s.cache (CacheSystem.ramAfter P s r c) (CacheSystem.response P s r c) := by
  constructor <;> intro hs hrv
  · obtain ⟨q, v, hpa, hv⟩ := response_done hrv
    obtain ⟨hmid, heff, -⟩ := portAfter_done h hp hpa
    have hm : memLine s.cache = true := memLine_iff.mpr (Or.inr hs)
    have hl := line_of_memLine hmid hm
    have hq := (hmid.line hl).2 r
    have heff := heff hl
    -- A fill reads its word of the line.
    have hwe : q.we = false := by
      by_contra hwe
      have := (lineRequest_write h hm r).1.mp (hq ▸ by simpa using hwe)
      simp [hs] at this
    rw [hwe] at heff
    simp only [Bool.false_eq_true, if_false] at heff
    have haddr : DcacheParams.wordAddr q.addr =
        P.lineWord (head s.cache).line s.cache.eng.word := by
      rw [hq]
      exact (wordAddr_memAddr h hm).trans (by simp [lineReqWord, hs])
    rw [hv, heff, haddr]
  · obtain ⟨q, v, hpa, -⟩ := response_done hrv
    obtain ⟨hmid, heff, -⟩ := portAfter_done h hp hpa
    have hm : memLine s.cache = true := memLine_iff.mpr (Or.inl hs)
    have hl := line_of_memLine hmid hm
    have hq := (hmid.line hl).2 r
    have heff := heff hl
    obtain ⟨hwe, -, hdata⟩ := lineRequest_write h hm r
    -- An eviction writes its word of the buffer.
    have hwe' : q.we = true := hq ▸ hwe.mpr hs
    rw [hwe'] at heff
    simp only [if_true] at heff
    have haddr : DcacheParams.wordAddr q.addr =
        P.lineWord (s.cache.eng.evictLine P) s.cache.eng.word := by
      rw [hq]
      exact (wordAddr_memAddr h hm).trans (by simp [lineReqWord, hs])
    rw [haddr, hq, hdata hs] at heff
    exact heff

/-- Without a response a line transfer stays where it is, its request the same. -/
theorem memRequest_next (h : Inv P s.cache s.ram) (hm : memLine s.cache = true) {m : MemRsp}
    (hrv : m.rvalid = false) (r' : DcacheReq) :
    memLine (s.cache.next P r m) = true ∧
      memRequest P (s.cache.next P r m) r' = memRequest P s.cache r' := by
  have hf : fillWrite s.cache m = false := by simp [fillWrite, hrv]
  have heng : (s.cache.next P r m).eng = s.cache.eng := by
    change nextEng P s.cache r m = s.cache.eng
    rcases memLine_iff.mp hm with hs | hs <;> simp [nextEng, hs, hrv, fillLast, hf]
  have hmem : memLine (s.cache.next P r m) = true := by
    unfold memLine
    rw [heng]
    exact hm
  refine ⟨hmem, ?_⟩
  -- A new request goes to the end of the MSHRs, so the first one stays.
  have hhead : s.cache.eng.state = .fill →
      (head (s.cache.next P r m)).line = (head s.cache).line := by
    intro hs
    have hserves := serves_served' (r := r) (m := m) h
    have hlines : (s.cache.next P r m).lines = served' P s.cache r m :=
      next_lines_of_quiet (by simp [hs]) hf
    have hold : s.cache.lines.waiting.head? = some (head s.cache).line := by
      rw [Lines.waiting, List.head?_map, head_of_fill h hs]
      rfl
    have hnew := hserves.head hold
    rw [← hlines] at hnew
    unfold head Lines.waiting at *
    cases hml : (s.cache.next P r m).lines.mshr with
    | nil => simp [hml] at hnew
    | cons a t => simpa [hml] using hnew
  rcases memLine_iff.mp hm with hs | hs
  · simp [memRequest, memAddr, memWe, memBe, memWdata, memLine, engWordIndex, heng, hs]
  · simp [memRequest, memAddr, memWe, memBe, memWdata, memLine, engWordIndex, heng, hs, hhead hs]

/-- A bypass without a response leaves the engine waiting for it. -/
theorem bypass_next {m : MemRsp} (hrv : m.rvalid = false)
    (hb : s.cache.eng.state = .bypass ∨ (bypassGo s.cache r = true ∧ m.gnt = true)) :
    (s.cache.next P r m).eng.state = .bypass := by
  change (nextEng P s.cache r m).state = .bypass
  rcases hb with hs | ⟨hgo, hg⟩
  · simp [nextEng, hs, hrv]
  · have hs : s.cache.eng.state = .idle := by
      simp only [bypassGo, Bool.and_eq_true, beq_iff_eq] at hgo
      exact hgo.1.2
    simp [nextEng, hs, hgo, hg, hrv]

/-- The owner of an unanswered request after the edge. -/
theorem owner_next (h : Inv P s.cache s.ram) {q : MemReq} (hmid : PortMidOwner P s.cache r q)
    (hnew : q.line = false → s.cache.eng.state = .bypass ∨
      s.port.gnt (CacheSystem.request P s r) c = true)
    (hrv : (CacheSystem.response P s r c).rvalid = false) :
    PortOwner P (CacheSystem.next P s r c).cache q := by
  refine ⟨fun hl => ?_, fun hl => ?_⟩
  · obtain ⟨hm, hq⟩ := hmid.line hl
    exact ⟨(memRequest_next h hm hrv r).1, fun r' =>
      (hq r').trans (memRequest_next h hm hrv r').2.symm⟩
  · refine bypass_next hrv ?_
    rcases hnew hl with hs | hg
    · exact Or.inl hs
    · rcases hmid.bypass hl with hs | hgo
      · exact Or.inl hs
      · exact Or.inr ⟨hgo, hg⟩

/-- **The port invariant after the cycle.** -/
theorem portInv_next (h : Inv P s.cache s.ram) (hp : PortInv P s.cache s.ram s.port) :
    PortInv P (CacheSystem.next P s r c).cache (CacheSystem.next P s r c).ram
      (CacheSystem.next P s r c).port := by
  change PortInv P _ (CacheSystem.ramAfter P s r c) ((CacheSystem.portAfter P s r c).responded c)
  cases hpa : CacheSystem.portAfter P s r c with
  | idle => trivial
  | waiting q =>
    have hrv : (CacheSystem.response P s r c).rvalid = false := by
      simp [CacheSystem.response, MemPort.rvalid, hpa]
    obtain ⟨hmid, hnew⟩ := portAfter_waiting hp hpa
    exact owner_next h hmid hnew hrv
  | done q v =>
    obtain ⟨hmid, heff, hnew⟩ := portAfter_done h hp hpa
    cases hc : c.respond
    · have hrv : (CacheSystem.response P s r c).rvalid = false := by
        simp [CacheSystem.response, MemPort.rvalid, hpa, hc]
      simp only [MemPort.responded, hc]
      exact ⟨owner_next h hmid hnew hrv, heff⟩
    · simp only [MemPort.responded, hc]
      trivial

end Cycle

/-- **The invariant of the cache with its memory.** -/
structure SystemInv (P : DcacheParams) (s : CacheSystem) : Prop where
  cache : Inv P s.cache s.ram
  port : PortInv P s.cache s.ram s.port

/-- **A cycle keeps the invariant.** -/
theorem SystemInv.next {s : CacheSystem} (h : SystemInv P s) (r : DcacheReq) (c : MemChoice) :
    SystemInv P (CacheSystem.next P s r c) :=
  ⟨inv_next (inv_ramAfter h.cache h.port).1 (memOk_response h.cache h.port),
    portInv_next h.cache h.port⟩

end Synapse32
