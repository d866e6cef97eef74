import Synapse32.Lib.Clocked
import Synapse32.Isa.Memory
import Synapse32.Cache.Port

/-! # The data cache refines a flat memory

Over every run of the cache and its memory, the view is the array of bytes that the served stores
have written, and a served load reads that array. -/

namespace Synapse32

open ByteLanes

/-! ## Loads and stores of a flat memory -/

/-- A naturally aligned store of a byte, a halfword or a word. -/
def AlignedStore (addr : Word) (be : BitVec 4) : Prop :=
  be = 0b0001#4 ∨ (be = 0b0011#4 ∧ addr.toNat % 2 = 0) ∨ (be = 0b1111#4 ∧ addr.toNat % 4 = 0)

/-- A naturally aligned load of a byte, a halfword or a word. -/
def AlignedLoad (addr : Word) (kind : BitVec 3) : Prop :=
  kind = 0b000#3 ∨ kind = 0b100#3 ∨
    ((kind = 0b001#3 ∨ kind = 0b101#3) ∧ addr.toNat % 2 = 0) ∨
    (kind = 0b010#3 ∧ addr.toNat % 4 = 0)

/-- A naturally aligned request. -/
def DcacheReq.Aligned (r : DcacheReq) : Prop :=
  if r.we = true then AlignedStore r.addr r.be else AlignedLoad r.addr r.loadType

/-- An aligned store stays inside its word. -/
theorem AlignedStore.fitsWord {addr : Word} {be : BitVec 4} (h : AlignedStore addr be) :
    FitsWord addr.toNat be := by
  intro k hk hbe
  have hoff : addr.toNat % 4 < 4 := Nat.mod_lt _ (by omega)
  rcases h with hb | ⟨hb, ha⟩ | ⟨hb, ha⟩ <;> rw [hb] at hbe
  · have hk0 : k = 0 := by
      obtain rfl | rfl | rfl | rfl : k = 0 ∨ k = 1 ∨ k = 2 ∨ k = 3 := by omega
      all_goals first | rfl | exact absurd hbe (by decide)
    omega
  · have hk1 : k < 2 := by
      obtain rfl | rfl | rfl | rfl : k = 0 ∨ k = 1 ∨ k = 2 ∨ k = 3 := by omega
      all_goals first | omega | exact absurd hbe (by decide)
    omega
  · omega

/-- **An aligned load reads the word of its address only.** -/
theorem AlignedLoad.congr {addr : Word} {kind : BitVec 3} (h : AlignedLoad addr kind)
    {m m' : ℕ → BitVec 8} (hm : ∀ x, x / 4 = addr.toNat / 4 → m x = m' x) :
    loadValue m addr.toNat kind = loadValue m' addr.toNat kind := by
  have hbyte : m addr.toNat = m' addr.toNat := hm _ rfl
  unfold loadValue
  rcases h with hk | hk | ⟨hk, ha⟩ | ⟨hk, ha⟩
  · simp [hk, hbyte]
  · simp [hk, hbyte]
  · have hhalf : loadHalf m addr.toNat = loadHalf m' addr.toNat := by
      unfold loadHalf
      rw [hbyte, hm (addr.toNat + 1) (by omega)]
    rcases hk with hk | hk <;> simp [hk, hhalf]
  · have hword : loadWord m addr.toNat = loadWord m' addr.toNat := by
      refine ext_byte fun k hk4 => ?_
      rw [loadWord, loadWord, byte_ofBytes _ hk4, byte_ofBytes _ hk4, hm _ (by omega)]
    simp [hk, hword]

/-- **`format_load` reads the flat memory** at an aligned address. -/
theorem formatLoad_eq_loadValue {mem : ℕ → Word} {r : DcacheReq}
    (h : AlignedLoad r.addr r.loadType) :
    formatLoad (mem (DcacheParams.wordAddr r.addr)) (Dcache.byteOffset r) r.loadType =
      loadValue (bytes mem) r.addr.toNat r.loadType := by
  have hbyte : (mem (r.addr.toNat / 4) >>> (8 * (r.addr.toNat % 4))).extractLsb' 0 8 =
      bytes mem r.addr.toNat := extractLsb'_ushiftRight _ _ _
  have hhalf : r.addr.toNat % 2 = 0 →
      (mem (r.addr.toNat / 4) >>> (8 * (r.addr.toNat % 4))).extractLsb' 0 16 =
        loadHalf (bytes mem) r.addr.toNat := fun ha => by
    rw [extractLsb'_ushiftRight, loadHalf_bytes mem ha]
  unfold formatLoad loadValue DcacheParams.wordAddr Dcache.byteOffset
  rcases h with hk | hk | ⟨hk | hk, ha⟩ | ⟨hk, ha⟩ <;> simp only [hk, hbyte]
  · simp
  · simp
  · simp [hhalf ha]
  · simp [hhalf ha]
  · simp [loadWord_bytes mem ha]

/-! ## Served requests -/

namespace Dcache

variable {P : DcacheParams} {d : Dcache} {r : DcacheReq} {m : MemRsp} {ram : Ram}

/-- For a cacheable request, granted and answered means served. -/
theorem gnt_and_rvalid (hc : isRam r.addr = true) :
    (gnt P d r m && rvalid P d r m) = served P d r m := by
  have hgo : bypassGo d r = false := by simp [bypassGo, cacheable, hc]
  unfold gnt rvalid
  rw [hgo]
  cases served P d r m <;> simp

/-- A served request is a request for RAM. -/
theorem req_of_served (h : served P d r m = true) : r.req = true ∧ isRam r.addr = true := by
  have hl : lookup P d r m = true := by
    by_contra hl
    obtain ⟨h1, h2, h3, h4⟩ := served_of_no_lookup (P := P) (r := r) (m := m) (by simpa using hl)
    have h5 : loadHit P d r m = false := by simp [loadHit, by simpa using hl]
    simp [served, h1, h2, h3, h5] at h
  simp only [lookup, Bool.and_eq_true, cacheable] at hl
  exact hl.1.1.1

/-- A store is served exactly if it is granted and answered. -/
theorem served_store (hwe : r.we = true) : served P d r m = storeServed P d r m := by
  simp [served, storeServed, loadHit, hwe]

/-- A load never counts as a served store. -/
theorem storeServed_of_load (hwe : r.we = false) : storeServed P d r m = false := by
  simp [storeServed, storeHit, storeMerge, storeAlloc, hwe]

/-- A load is served exactly by a hit. -/
theorem served_load (hwe : r.we = false) : served P d r m = loadHit P d r m := by
  simp [served, storeHit, storeMerge, storeAlloc, hwe]

/-- **A served load returns the addressed bytes of the view.** -/
theorem rdata_of_served (h : Inv P d ram) (hal : r.Aligned) (hwe : r.we = false)
    (hs : served P d r m = true) :
    rdata P d r m = loadValue (bytes (view P d.lines d.eng ram)) r.addr.toNat r.loadType := by
  have hhit : loadHit P d r m = true := served_load hwe ▸ hs
  have hl := hhit
  simp only [loadHit, Bool.and_eq_true] at hl
  have hload : AlignedLoad r.addr r.loadType := by
    simpa [DcacheReq.Aligned, hwe] using hal
  rw [rdata, if_pos hhit, hitWord_eq h hl.1.1 hl.2, formatLoad_eq_loadValue hload]

/-- **The bytes after the edge**: a served store has written its enabled bytes. -/
theorem bytes_view_next (h : Inv P d ram) (hm : MemOk P d ram m)
    (hal : r.req = true → isRam r.addr = true → r.Aligned) :
    bytes (view P (next P d r m).lines (next P d r m).eng ram) =
      if storeServed P d r m then
        store (bytes (view P d.lines d.eng ram)) r.addr.toNat r.be r.wdata
      else bytes (view P d.lines d.eng ram) := by
  rw [view_next h hm]
  split
  · rename_i hs
    have hwe : r.we = true := by
      by_contra hwe
      rw [storeServed_of_load (by simpa using hwe)] at hs
      exact absurd hs (by simp)
    obtain ⟨hreq, hram⟩ := req_of_served ((served_store hwe).trans hs)
    have hstore : AlignedStore r.addr r.be := by
      simpa [DcacheReq.Aligned, hwe] using hal hreq hram
    exact bytes_update_merge _ _ _ _ hstore.fitsWord
  · rfl

/-- **A clean cache stands for the RAM behind it.** -/
theorem view_of_clean (h : Inv P d ram) (hc : clean P d = true) :
    view P d.lines d.eng ram = ram := by
  simp only [clean, Bool.and_eq_true, Bool.not_eq_true', beq_iff_eq] at hc
  obtain ⟨⟨hdirty, hmshr⟩, hidle⟩ := hc
  have hquiet : ¬ d.eng.Evicting := by simp [Engine.Evicting, hidle]
  funext n
  have hw : n % P.words < P.words := Nat.mod_lt _ P.words_pos
  -- The word in terms of its line, which is how the view looks it up.
  have hn : P.lineWord (n / P.words) (n % P.words) = n := by
    unfold DcacheParams.lineWord
    rw [Nat.mul_comm]
    exact Nat.div_add_mod _ _
  unfold view
  by_cases hold : ∃ i, d.lines.Holds P (n / P.words) i
  · obtain ⟨i, hi⟩ := hold
    -- In a way: no way is dirty, so the way agrees with the RAM.
    have hcl : d.lines.dirty i (P.setOf (n / P.words)) = false := by
      by_contra hne
      have hany : dirtyAny P d = true :=
        anyIndex_iff.mpr ⟨_, P.setOf_lt _, anyIndex_iff.mpr ⟨i, hi.1, by simpa using hne⟩⟩
      rw [hdirty] at hany
      exact absurd hany (by simp)
    rw [viewWord_of_holds (fun k hk => h.lines.unique hk hi) hi,
      h.eng.clean_data hi hcl (fun he => hquiet he.1) _ hw, hn]
  · -- In no way: no MSHR is allocated, so nothing lies over the RAM's word.
    have hpend : d.lines.pending (n / P.words) = none := by
      have hnil : d.lines.mshr = [] := List.isEmpty_iff.mp hmshr
      simp [Lines.pending, hnil]
    rw [viewWord_of_not_holds (fun i hi => hold ⟨i, hi⟩), hpend]
    simp [overlay, uncachedWord, hquiet, hn]

end Dcache

/-! ## Runs -/

namespace CacheSystem

variable (P : DcacheParams)

/-- The cache after reset, the port idle. -/
def reset (data : ℕ → ℕ → Word) (tag : ℕ → ℕ → ℕ) (dataRd : ℕ → Word) (tagRd : ℕ → ℕ)
    (ram : Ram) : CacheSystem :=
  ⟨Dcache.reset data tag dataRd tagRd, .idle, ram⟩

/-- The state before cycle `n` of the run from `init`. -/
def run (init : CacheSystem) (ins : ℕ → DcacheReq × MemChoice) : ℕ → CacheSystem :=
  Clocked.run (fun s i => next P s i.1 i.2) init ins

/-- The memory of words that a state stands for. -/
def view (s : CacheSystem) : Ram := Synapse32.view P s.cache.lines s.cache.eng s.ram

/-- The request of the cycle is granted and answered by the cache itself. -/
def serves (s : CacheSystem) (r : DcacheReq) (c : MemChoice) : Bool :=
  Dcache.gnt P s.cache r (response P s r c) && Dcache.rvalid P s.cache r (response P s r c) &&
    isRam r.addr

/-- **The flat memory**: the bytes that the stores served before cycle `n` leave. -/
def flatMemory (init : CacheSystem) (ins : ℕ → DcacheReq × MemChoice) : ℕ → ℕ → BitVec 8
  | 0 => bytes init.ram
  | n + 1 =>
    if serves P (run P init ins n) (ins n).1 (ins n).2 && (ins n).1.we then
      store (flatMemory init ins n) (ins n).1.addr.toNat (ins n).1.be (ins n).1.wdata
    else flatMemory init ins n

variable {P}

/-- A request that is served is the request the cache serves. -/
theorem serves_eq (s : CacheSystem) (r : DcacheReq) (c : MemChoice) :
    serves P s r c = Dcache.served P s.cache r (response P s r c) := by
  unfold serves
  cases hram : isRam r.addr
  · cases hs : Dcache.served P s.cache r (response P s r c)
    · simp
    · exact absurd (Dcache.req_of_served hs).2 (by simp [hram])
  · rw [Dcache.gnt_and_rvalid hram, Bool.and_true]

/-- **One cycle**: the bytes change by the served store, if there is one. -/
theorem view_next {s : CacheSystem} (h : SystemInv P s) {r : DcacheReq} (c : MemChoice)
    (hal : r.req = true → isRam r.addr = true → r.Aligned) :
    bytes (view P (next P s r c)) =
      if serves P s r c && r.we then store (bytes (view P s)) r.addr.toNat r.be r.wdata
      else bytes (view P s) := by
  obtain ⟨hinv, hview⟩ := inv_ramAfter (r := r) (c := c) h.cache h.port
  have hstep := Dcache.bytes_view_next hinv (memOk_response h.cache h.port) hal
  rw [hview] at hstep
  have hserved : (serves P s r c && r.we) =
      Dcache.storeServed P s.cache r (response P s r c) := by
    rw [serves_eq]
    cases hwe : r.we
    · rw [Dcache.storeServed_of_load hwe, Bool.and_false]
    · rw [Dcache.served_store hwe, Bool.and_true]
  rw [hserved]
  exact hstep

/-- The invariant before every cycle. -/
theorem systemInv_run (data : ℕ → ℕ → Word) (tag : ℕ → ℕ → ℕ) (dataRd : ℕ → Word)
    (tagRd : ℕ → ℕ) (ram : Ram) (ins : ℕ → DcacheReq × MemChoice) (n : ℕ) :
    SystemInv P (run P (reset data tag dataRd tagRd ram) ins n) :=
  Clocked.run_invariant ⟨Dcache.inv_reset P data tag dataRd tagRd ram, trivial⟩
    (fun _ h => h.next _ _) n

/-- The view before every cycle is the flat memory. -/
theorem bytes_view_run (data : ℕ → ℕ → Word) (tag : ℕ → ℕ → ℕ) (dataRd : ℕ → Word)
    (tagRd : ℕ → ℕ) (ram : Ram) (ins : ℕ → DcacheReq × MemChoice)
    (hal : ∀ n, (ins n).1.req = true → isRam (ins n).1.addr = true → (ins n).1.Aligned) (n : ℕ) :
    bytes (view P (run P (reset data tag dataRd tagRd ram) ins n)) =
      flatMemory P (reset data tag dataRd tagRd ram) ins n := by
  induction n with
  | zero => exact congrArg bytes (Dcache.view_reset P data tag dataRd tagRd ram)
  | succ n ih =>
    have hinv := systemInv_run (P := P) data tag dataRd tagRd ram ins n
    rw [flatMemory, ← ih]
    exact view_next hinv (ins n).2 (hal n)

/-- **The cache refines a flat memory.** Before every cycle of every run from reset, whatever the
block RAMs hold, the view is the flat memory, and a load served in the cycle returns the bytes of
the flat memory as its kind says. -/
theorem run_refines_flat (data : ℕ → ℕ → Word) (tag : ℕ → ℕ → ℕ) (dataRd : ℕ → Word)
    (tagRd : ℕ → ℕ) (ram : Ram) (ins : ℕ → DcacheReq × MemChoice)
    (hal : ∀ n, (ins n).1.req = true → isRam (ins n).1.addr = true → (ins n).1.Aligned) (n : ℕ) :
    let s := run P (reset data tag dataRd tagRd ram) ins n
    let flat := flatMemory P (reset data tag dataRd tagRd ram) ins n
    bytes (view P s) = flat ∧
      (serves P s (ins n).1 (ins n).2 = true → (ins n).1.we = false →
        Dcache.rdata P s.cache (ins n).1 (response P s (ins n).1 (ins n).2) =
          loadValue flat (ins n).1.addr.toNat (ins n).1.loadType) := by
  intro s flat
  have hview : bytes (view P s) = flat := bytes_view_run data tag dataRd tagRd ram ins hal n
  refine ⟨hview, fun hs hwe => ?_⟩
  have hinv := systemInv_run (P := P) data tag dataRd tagRd ram ins n
  obtain ⟨hafter, hram⟩ := inv_ramAfter (r := (ins n).1) (c := (ins n).2) hinv.cache hinv.port
  rw [serves_eq] at hs
  obtain ⟨hreq, hisRam⟩ := Dcache.req_of_served hs
  rw [Dcache.rdata_of_served hafter (hal n hreq hisRam) hwe hs, hram]
  exact congrArg (loadValue · _ _) hview

/-- Two ways, two sets, two words a line, one MSHR. -/
def smallParams : DcacheParams := .ofValues 1 1 1 1 (by decide)

/-- A byte stored for nine cycles and then loaded back, with an immediate memory. -/
def byteStoreLoad (n : ℕ) : DcacheReq × MemChoice :=
  (⟨0#32, false, true, 0x80000101#32, decide (n < 9), 0b0001#4, 0xAB#32, 0b000#3⟩,
    ⟨true, true, true, 0#32, 0#32⟩)

/-- A byte store and a load of its word, on a small cache. -/
theorem run_refines_flat_byteStoreLoad :
    let init := reset (fun _ _ => 0#32) (fun _ _ => 0) (fun _ => 0#32) (fun _ => 0) fun _ => 0#32
    let s := run smallParams init byteStoreLoad 10
    let flat := flatMemory smallParams init byteStoreLoad 10
    bytes (view smallParams s) = flat ∧
      (serves smallParams s (byteStoreLoad 10).1 (byteStoreLoad 10).2 = true →
        (byteStoreLoad 10).1.we = false →
        Dcache.rdata smallParams s.cache (byteStoreLoad 10).1
            (response smallParams s (byteStoreLoad 10).1 (byteStoreLoad 10).2) =
          loadValue flat (byteStoreLoad 10).1.addr.toNat (byteStoreLoad 10).1.loadType) :=
  run_refines_flat _ _ _ _ _ byteStoreLoad
    (fun n _ _ => by simp [DcacheReq.Aligned, AlignedStore, AlignedLoad, byteStoreLoad]) 10

end CacheSystem

end Synapse32
