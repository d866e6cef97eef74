import Synapse32.Rtl.StoreBuffer
import Synapse32.Cache.Step
import Synapse32.Lib.Clocked

/-! # The store buffer as a queue

The shift register holds the list of its first `count` entries: a push appends, a pop drops the
oldest. -/

namespace Synapse32

namespace StoreBuffer

variable {depth : ℕ} {b : StoreBuffer}

/-- The buffered writes, oldest first. -/
def entries (b : StoreBuffer) : List StoreEntry := (List.range b.count).map b.slot

/-- There are as many entries as the counter says. -/
@[simp] theorem length_entries : b.entries.length = b.count := by simp [entries]

/-- After reset nothing is buffered. -/
@[simp] theorem entries_reset : reset.entries = [] := rfl

/-- The entries are the slots from the tail on, the oldest first. -/
theorem getElem?_entries (j : ℕ) :
    b.entries[j]? = if j < b.count then some (b.slot j) else none := by
  unfold entries
  by_cases hj : j < b.count
  · rw [if_pos hj, List.getElem?_map, List.getElem?_range hj]
    rfl
  · rw [if_neg hj, List.getElem?_eq_none (by simpa using hj)]

/-- `empty` says that nothing is buffered. -/
theorem empty_iff : b.empty = true ↔ b.entries = [] := by
  rw [empty, beq_iff_eq, ← length_entries, List.length_eq_zero_iff]

/-- The oldest entry. -/
theorem entries_of_not_empty (h : b.empty = false) :
    b.entries = b.slot 0 :: b.entries.tail := by
  have hpos : 0 < b.count := by
    rw [empty, beq_eq_false_iff_ne] at h
    omega
  have hhead : b.entries.head? = some (b.slot 0) := by
    rw [List.head?_eq_getElem?, getElem?_entries, if_pos hpos]
  exact List.eq_cons_of_mem_head? hhead

/-- The counter is wide enough for the depth. -/
theorem lt_countWidth (h : depth ≤ 255) : depth < 2 ^ countWidth depth := by
  unfold countWidth
  split_ifs <;> omega

/-- The depth as the counter holds it. -/
theorem depthCount_eq (h : depth ≤ 255) : depthCount depth = depth :=
  Nat.mod_eq_of_lt (lt_countWidth h)

/-- A buffer that is not full has room. -/
theorem full_eq_false (h : depth ≤ 255) (hc : b.count ≤ depth) (hf : b.full depth = false) :
    b.count < depth := by
  rw [full, depthCount_eq h, beq_eq_false_iff_ne] at hf
  omega

/-- The slot of a push: the end of the queue, one less if the oldest entry leaves. -/
theorem tail_eq (h : depth ≤ 255) (hc : b.count ≤ depth) {pop : Bool}
    (hpop : pop = true → 0 < b.count) : tail depth b pop = b.count - pop.toNat := by
  have hlt := lt_countWidth h
  cases pop
  · rfl
  · have hpos := hpop rfl
    have hsub : b.count + 2 ^ countWidth depth - 1 = (b.count - 1) + 2 ^ countWidth depth := by
      omega
    simp only [tail, if_true, Bool.toNat_true]
    rw [hsub, Nat.add_mod_right, Nat.mod_eq_of_lt (by omega)]

/-- The entry count after the edge. -/
theorem count_next (h : depth ≤ 255) (hc : b.count ≤ depth) {push pop : Bool} (e : StoreEntry)
    (hpop : pop = true → 0 < b.count) (hpush : push = true → b.count - pop.toNat < depth) :
    (b.next depth push e pop).count = b.count - pop.toNat + push.toNat := by
  have hlt := lt_countWidth h
  have hle : b.count - pop.toNat + push.toNat ≤ depth := by
    cases push
    · simp only [Bool.toNat_false]
      omega
    · have := hpush rfl
      simp only [Bool.toNat_true]
      omega
  change (tail depth b pop + push.toNat) % 2 ^ countWidth depth = _
  rw [tail_eq h hc hpop, Nat.mod_eq_of_lt (by omega)]

/-- A slot after the edge. -/
theorem nextSlot_eq (h0 : 1 ≤ depth) (h : depth ≤ 255) (hc : b.count ≤ depth) {push pop : Bool}
    (e : StoreEntry) (hpop : pop = true → 0 < b.count) {j : ℕ} (hj : j < depth) :
    nextSlot depth b push e pop j =
      if push = true ∧ j = b.count - pop.toNat then e
      else if pop = true ∧ j + 1 < depth then b.slot (j + 1)
      else b.slot j := by
  have hlt := lt_countWidth h
  have hsub : depth + 2 ^ countWidth depth - 1 = (depth - 1) + 2 ^ countWidth depth := by omega
  have hlast :
      (depthCount depth + 2 ^ countWidth depth - 1) % 2 ^ countWidth depth = depth - 1 := by
    rw [depthCount_eq h, hsub, Nat.add_mod_right, Nat.mod_eq_of_lt (by omega)]
  unfold nextSlot
  rw [tail_eq h hc hpop, hlast]
  by_cases hj1 : j + 1 < depth
  · simp [hj1]
  · have hjd : j + 1 = depth := by omega
    have hiff : b.count - pop.toNat = depth - 1 ↔ j = b.count - pop.toNat := by omega
    simp [hjd, hiff]

/-- **The edge on the queue.** -/
theorem entries_next (h0 : 1 ≤ depth) (h : depth ≤ 255) (hc : b.count ≤ depth) {push pop : Bool}
    (e : StoreEntry) (hpop : pop = true → 0 < b.count)
    (hpush : push = true → b.count - pop.toNat < depth) :
    (b.next depth push e pop).entries =
      (if pop then b.entries.tail else b.entries) ++ if push then [e] else [] := by
  have hold : ∀ j, (if pop then b.entries.tail else b.entries)[j]? =
      if j < b.count - pop.toNat then some (b.slot (j + pop.toNat)) else none := by
    intro j
    cases pop
    · simpa using getElem?_entries j
    · have hpos := hpop rfl
      simp only [if_true, List.getElem?_tail, getElem?_entries, Bool.toNat_true]
      exact if_congr (by omega) rfl rfl
  have hlen : (if pop then b.entries.tail else b.entries).length = b.count - pop.toNat := by
    cases pop <;> simp
  refine List.ext_getElem? fun j => ?_
  rw [getElem?_entries, count_next h hc e hpop hpush, List.getElem?_append, hlen, hold]
  change (if j < b.count - pop.toNat + push.toNat then
    some (nextSlot depth b push e pop j) else none) = _
  by_cases hj : j < b.count - pop.toNat
  · -- an entry that was there: it moves down exactly if the oldest one leaves
    have hne : ¬ (push = true ∧ j = b.count - pop.toNat) := by omega
    rw [if_pos (by omega), if_pos hj, if_pos hj, nextSlot_eq h0 h hc e hpop (by omega), if_neg hne]
    cases pop
    · simp
    · have hpos := hpop rfl
      simp only [Bool.toNat_true] at hj
      rw [if_pos ⟨rfl, by omega⟩, Bool.toNat_true]
  · rw [if_neg hj]
    cases push
    · simp [hj]
    · have hcount := hpush rfl
      simp only [Bool.toNat_true, if_true]
      by_cases hend : j = b.count - pop.toNat
      · rw [if_pos (by omega), nextSlot_eq h0 h hc e hpop (by omega), if_pos ⟨rfl, hend⟩, hend,
          Nat.sub_self]
        rfl
      · rw [if_neg (by omega), List.getElem?_eq_none]
        simp only [List.length_singleton]
        omega

/-- **A match is an entry that writes the word.** -/
theorem hasMatch_iff (hc : b.count ≤ depth) {addr : Word} :
    b.hasMatch depth addr = true ↔
      ∃ e ∈ b.entries, DcacheParams.wordAddr e.addr = DcacheParams.wordAddr addr := by
  unfold hasMatch entries
  rw [anyIndex_iff]
  constructor
  · rintro ⟨i, -, hi⟩
    simp only [Bool.and_eq_true, decide_eq_true_eq, beq_iff_eq] at hi
    exact ⟨b.slot i, List.mem_map_of_mem (List.mem_range.mpr hi.1), hi.2⟩
  · rintro ⟨e, he, haddr⟩
    obtain ⟨i, hi, rfl⟩ := List.mem_map.mp he
    have hlt := List.mem_range.mp hi
    exact ⟨i, by omega, by simp [hlt, haddr]⟩

/-! ## Runs -/

/-- What `store_buffer.v` reads at a clock edge. -/
structure Request where
  push : Bool
  entry : StoreEntry
  pop : Bool

/-- A push finds room, or the oldest entry leaves at the same edge; a pop finds an entry. -/
structure Fits (depth : ℕ) (b : StoreBuffer) (r : Request) : Prop where
  push : r.push = true → b.full depth = false ∨ r.pop = true
  pop : r.pop = true → b.empty = false

/-- The clock edge on a request. -/
def edge (depth : ℕ) (b : StoreBuffer) (r : Request) : StoreBuffer :=
  b.next depth r.push r.entry r.pop

/-- The write that a request puts in. -/
def pushed (_ : StoreBuffer) (r : Request) : List StoreEntry := if r.push then [r.entry] else []

/-- The write that a request takes out: what `head_*` shows. -/
def popped (b : StoreBuffer) (r : Request) : List StoreEntry := if r.pop then [b.slot 0] else []

namespace Fits

variable {r : Request}

/-- A pop that fits takes an entry that is there. -/
theorem pos (h : Fits depth b r) (hp : r.pop = true) : 0 < b.count := by
  have hne := h.pop hp
  rw [empty, beq_eq_false_iff_ne] at hne
  omega

/-- A push that fits finds room. -/
theorem room (h : Fits depth b r) (hd : depth ≤ 255) (hc : b.count ≤ depth)
    (hp : r.push = true) : b.count - r.pop.toNat < depth := by
  rcases h.push hp with hfull | hpop
  · have hlt := full_eq_false hd hc hfull
    omega
  · have hpos := h.pos hpop
    rw [hpop, Bool.toNat_true]
    omega

/-- The counter after the edge. -/
theorem count_edge (h : Fits depth b r) (hd : depth ≤ 255) (hc : b.count ≤ depth) :
    (edge depth b r).count = b.count - r.pop.toNat + r.push.toNat :=
  count_next hd hc r.entry h.pos (h.room hd hc)

/-- The buffer never holds more than its depth. -/
theorem count_le (h : Fits depth b r) (hd : depth ≤ 255) (hc : b.count ≤ depth) :
    (edge depth b r).count ≤ depth := by
  rw [h.count_edge hd hc]
  cases hp : r.push
  · rw [Bool.toNat_false]
    omega
  · have hroom := h.room hd hc hp
    rw [Bool.toNat_true]
    omega

/-- **One edge.** What was buffered and comes in is what goes out and is buffered then. -/
theorem entries_edge (h : Fits depth b r) (h0 : 1 ≤ depth) (hd : depth ≤ 255)
    (hc : b.count ≤ depth) :
    b.entries ++ pushed b r = popped b r ++ (edge depth b r).entries := by
  have hnext := entries_next h0 hd hc r.entry h.pos (h.room hd hc)
  change (edge depth b r).entries = _ at hnext
  rw [hnext, ← List.append_assoc]
  congr 1
  cases hp : r.pop
  · simp [popped, hp]
  · rw [if_pos rfl, popped, if_pos hp, List.singleton_append]
    exact entries_of_not_empty (h.pop hp)

end Fits

/-- `drained` says that nothing is buffered behind the edge. -/
theorem drained_iff (hd : depth ≤ 255) (hc : b.count ≤ depth) {r : Request} (h : Fits depth b r) :
    drained depth b r.push r.pop = true ↔ (edge depth b r).entries = [] := by
  rw [← List.length_eq_zero_iff, length_entries, h.count_edge hd hc, drained,
    tail_eq hd hc h.pos, Bool.and_eq_true, beq_iff_eq, Bool.not_eq_true']
  cases hp : r.push
  · simp
  · simp

/-- `full` says that every slot is taken. -/
theorem full_iff (hd : depth ≤ 255) : b.full depth = true ↔ b.entries.length = depth := by
  rw [full, beq_iff_eq, depthCount_eq hd, length_entries]

/-- What the outputs of `store_buffer.v` say about the queue of the first `n` requests. -/
structure IsQueue (depth : ℕ) (rs : ℕ → Request) (n : ℕ) (b : StoreBuffer) : Prop where
  /-- The buffered writes are the pushed ones that no pop took. -/
  buffered : b.entries =
    (Clocked.log (edge depth) reset rs pushed n).drop (n.count fun m => (rs m).pop = true)
  /-- The pops took the oldest ones, in order. -/
  taken : Clocked.log (edge depth) reset rs popped n =
    (Clocked.log (edge depth) reset rs pushed n).take (n.count fun m => (rs m).pop = true)
  bounded : b.entries.length ≤ depth
  step : (edge depth b (rs n)).entries =
    (if (rs n).pop then b.entries.tail else b.entries) ++ if (rs n).push then [(rs n).entry] else []
  head : b.entries ≠ [] → b.entries.head? = some (b.slot 0)
  empty : b.empty = true ↔ b.entries.length = 0
  full : b.full depth = true ↔ b.entries.length = depth
  drained : b.drained depth (rs n).push (rs n).pop = true ↔ (edge depth b (rs n)).entries = []
  hasMatch : ∀ addr, b.hasMatch depth addr = true ↔
    ∃ e ∈ b.entries, DcacheParams.wordAddr e.addr = DcacheParams.wordAddr addr

/-- As many entries have left as pops were asked for. -/
theorem length_popped_log (rs : ℕ → Request) (n : ℕ) :
    (Clocked.log (edge depth) reset rs popped n).length = n.count fun m => (rs m).pop = true := by
  induction n with
  | zero => rfl
  | succ n ih =>
    rw [Clocked.log_succ, List.length_append, ih, Nat.count_succ, popped]
    split <;> rfl

/-- **Run lemma.** The buffer never holds more than its depth. -/
theorem count_le_run {rs : ℕ → Request} (hd : depth ≤ 255)
    (hfits : ∀ n, Fits depth (Clocked.run (edge depth) reset rs n) (rs n)) (n : ℕ) :
    (Clocked.run (edge depth) reset rs n).count ≤ depth := by
  induction n with
  | zero => exact Nat.zero_le _
  | succ n ih => exact (hfits n).count_le hd ih

/-- What was pushed so far is what was popped, and behind it what is buffered. -/
theorem pushed_log_eq (h0 : 1 ≤ depth) (hd : depth ≤ 255) {rs : ℕ → Request}
    (hfits : ∀ n, Fits depth (Clocked.run (edge depth) reset rs n) (rs n)) (n : ℕ) :
    Clocked.log (edge depth) reset rs pushed n =
      Clocked.log (edge depth) reset rs popped n ++
        (Clocked.run (edge depth) reset rs n).entries := by
  have hstep : ∀ m < n,
      (Clocked.run (edge depth) reset rs m).entries ++
          pushed (Clocked.run (edge depth) reset rs m) (rs m) =
        popped (Clocked.run (edge depth) reset rs m) (rs m) ++
          (Clocked.run (edge depth) reset rs (m + 1)).entries := by
    intro m _
    exact (hfits m).entries_edge h0 hd (count_le_run hd hfits m)
  exact Clocked.log_conserved rs entries pushed popped n hstep

/-- **The store buffer is a bounded queue.** -/
theorem isQueue_run (h0 : 1 ≤ depth) (hd : depth ≤ 255) {rs : ℕ → Request}
    (hfits : ∀ n, Fits depth (Clocked.run (edge depth) reset rs n) (rs n)) (n : ℕ) :
    IsQueue depth rs n (Clocked.run (edge depth) reset rs n) where
  buffered := by
    rw [pushed_log_eq h0 hd hfits, ← @length_popped_log depth rs, List.drop_left]
  taken := by
    rw [pushed_log_eq h0 hd hfits, ← @length_popped_log depth rs, List.take_left]
  bounded := by
    rw [length_entries]
    exact count_le_run hd hfits n
  step := entries_next h0 hd (count_le_run hd hfits n) _ (hfits n).pos
    ((hfits n).room hd (count_le_run hd hfits n))
  head := by
    intro hne
    have hempty := mt empty_iff.mp hne
    rw [entries_of_not_empty (Bool.eq_false_iff.mpr hempty)]
    rfl
  empty := by rw [empty_iff, List.length_eq_zero_iff]
  full := full_iff hd
  drained := drained_iff hd (count_le_run hd hfits n) (hfits n)
  hasMatch := fun _ => hasMatch_iff (count_le_run hd hfits n)

/-- A buffer of one entry is filled, and then pushed and popped at one edge. -/
def replacing : ℕ → Request
  | 0 => ⟨true, ⟨0x80000000#32, 0xf#4, 1#32, true⟩, false⟩
  | 1 => ⟨true, ⟨0x80000004#32, 0xf#4, 2#32, true⟩, true⟩
  | _ => ⟨false, ⟨0#32, 0#4, 0#32, false⟩, false⟩

/-- A buffer of depth 1, its entry replaced in the cycle it leaves. -/
theorem isQueue_replacing :
    (∀ n, Fits 1 (Clocked.run (edge 1) reset replacing n) (replacing n)) ∧
      IsQueue 1 replacing 2 (Clocked.run (edge 1) reset replacing 2) := by
  have hfits : ∀ n, Fits 1 (Clocked.run (edge 1) reset replacing n) (replacing n) := by
    intro n
    match n with
    | 0 => exact ⟨fun _ => Or.inl rfl, fun h => by simp [replacing] at h⟩
    | 1 => exact ⟨fun _ => Or.inr rfl, fun _ => rfl⟩
    | n + 2 => exact ⟨fun h => by simp [replacing] at h, fun h => by simp [replacing] at h⟩
  exact ⟨hfits, isQueue_run (by decide) (by decide) hfits 2⟩

end StoreBuffer

end Synapse32
