import ForeignCall.Proofs.Leaves
import ForeignCall.Proofs.Memory.Allocation
import ForeignCall.Proofs.Memory.Segment
import Mathlib.Data.Finset.Card
import Mathlib.Order.Interval.Finset.Nat

/-!
# What an arena hands out

The buffers of new chunks may come from any source: `Scratch.Supplies` says what a source has to provide,
and memory is one (`Scratch.Sound.supplies`).

* `Scratch.allocateInPlace`: an allocation with the order in which it changes the arena, so that what a
  fault leaves behind can be seen.  `Scratch.allocate` is its result (`Scratch.allocate_eq_inPlace`);
* `Scratch.History`: an arena that has handed out some segments, with writes through them in between;
* `Scratch.Ledger`: the invariant of a history.  Opening a chunk, handing out bytes of the latest chunk and
  writing each preserve it;
* `Scratch.History.hands_over_fresh`: what an allocation does after any history.
-/

namespace ForeignCall

variable {n size alignment unit : Nat} {m m' : Memory} {t u : Segment} {given : List Segment}

/-! ### Where segments lie -/

namespace Segment

/-- The address is one of the bytes of the segment. -/
def Holds (t : Segment) (a : Nat) : Prop := t.address.toNat ≤ a ∧ a < t.address.toNat + t.length

/-- One of the segments ends before the other one starts. -/
def Apart (t u : Segment) : Prop :=
  t.address.toNat + t.length ≤ u.address.toNat ∨ u.address.toNat + u.length ≤ t.address.toNat

/-- The segment lies inside the buffer of the chunk. -/
def Within (t : Segment) (c : Chunk) : Prop :=
  c.base ≤ t.address.toNat ∧ t.address.toNat + t.length ≤ c.base + c.capacity

theorem exists_bytes {ts : List Segment} (h : ts.Pairwise Apart) : ∃ bytes : Finset Nat,
    bytes.card = (ts.map Segment.length).sum ∧ ∀ a ∈ bytes, ∃ t ∈ ts, t.Holds a := by
  induction ts with
  | nil => exact ⟨∅, rfl, fun a ha => absurd ha (Finset.notMem_empty a)⟩
  | cons t ts ih =>
    obtain ⟨hhead, htail⟩ := List.pairwise_cons.1 h
    obtain ⟨bytes, hcard, hbytes⟩ := ih htail
    refine ⟨Finset.Ico t.address.toNat (t.address.toNat + t.length) ∪ bytes, ?_, fun a ha => ?_⟩
    · rw [Finset.card_union_of_disjoint, Nat.card_Ico, hcard, List.map_cons, List.sum_cons,
        Nat.add_sub_cancel_left]
      refine Finset.disjoint_left.2 fun a ha ha' => ?_
      obtain ⟨u, hu, hlo, hhi⟩ := hbytes a ha'
      have hapart := hhead u hu
      have hat := Finset.mem_Ico.1 ha
      unfold Apart at hapart
      omega
    · rcases Finset.mem_union.1 ha with ha | ha
      · exact ⟨t, by simp, Finset.mem_Ico.1 ha⟩
      · obtain ⟨u, hu, hholds⟩ := hbytes a ha
        exact ⟨u, by simp [hu], hholds⟩

/-- Segments that lie apart below an address have no more bytes than there are below it. -/
theorem sum_length_le {ts : List Segment} (h : ts.Pairwise Apart)
    (hend : ∀ t ∈ ts, t.address.toNat + t.length ≤ n) : (ts.map Segment.length).sum ≤ n := by
  obtain ⟨bytes, hcard, hbytes⟩ := exists_bytes h
  rw [← hcard, ← Finset.card_range n]
  refine Finset.card_le_card fun a ha => ?_
  obtain ⟨t, ht, -, hlt⟩ := hbytes a ha
  have := hend t ht
  exact Finset.mem_range.2 (by omega)

end Segment

namespace Chunk

def Holds (c : Chunk) (a : Nat) : Prop := c.base ≤ a ∧ a < c.base + c.capacity

/-- One of the buffers ends before the other one starts. -/
def Apart (c d : Chunk) : Prop := c.base + c.capacity ≤ d.base ∨ d.base + d.capacity ≤ c.base

end Chunk

/-! ### Rounding up -/

theorem alignUp_lt {a r : Nat} (h : alignUp size a = .ok r) : r < size + a := by
  obtain ⟨raised, hraised, h'⟩ := bind_eq_ok.1 h
  obtain ⟨last, -, h'⟩ := bind_eq_ok.1 h'
  obtain ⟨mask, hmask, -⟩ := bind_eq_ok.1 h'
  obtain ⟨r', hr', -, hlt⟩ := exists_alignUp (checkedAdd_eq_ok.1 hraised).1 (checkedSub_eq_ok.1 hmask).1
  rwa [ok_unique h hr']

namespace Scratch

variable {s s' : Scratch} {reserve : Nat → Except Fault (Nat × Memory)}

/-! ### Allocating in place -/

/-- Find room for `size` bytes in the latest chunk or in a new one: their offset in the chunk, the chunk
with the bytes taken, the chunks before it, and the memory with the buffer of a new chunk. -/
def makeRoom (s : Scratch) (reserve : Nat → Except Fault (Nat × Memory)) (m : Memory) (size unit : Nat) :
    Except Fault (Nat × Chunk × List Chunk × Memory) := do
  match ← s.bumpLatest? size unit with
  | some (start, chunk, older) => return (start, chunk, older, m)
  | none =>
    let capacity ← s.newChunkSize size unit
    let (base, m) ← reserve capacity
    let some (start, chunk) ← Chunk.bump? ⟨base, Memory.bufferCapacity capacity, 0⟩ size unit
      | throw .chunkTooSmall
    return (start, chunk, s.chunks, m)

/-- An allocation that changes arena and memory in place.  The chunk is stored before the bytes are counted,
so a fault of the counter would leave the arena with bytes that no one was given. -/
def allocateInPlace (s : Scratch) (reserve : Nat → Except Fault (Nat × Memory)) (m : Memory)
    (size alignment : Nat) :
    EStateM.Result Fault (Scratch × Memory) Segment :=
  if s.isOpen = false then .error .scratchClosed (s, m)
  else
    match s.makeRoom reserve m size (max alignment 1) with
    | .error f => .error f (s, m)
    | .ok (start, chunk, older, m') =>
      match checkedAdd s.allocated size with
      | .error o => .error (.overflow o) ({ s with chunks := chunk :: older }, m')
      | .ok allocated =>
        .ok ⟨BitVec.ofNat 64 (chunk.base + start), size, .scratch chunk.base⟩
          ({ s with chunks := chunk :: older, allocated := allocated }, m')

/-- **An allocation is the result of the one in place**, with chunks from memory. -/
theorem allocate_eq_inPlace (s : Scratch) (m : Memory) (size alignment : Nat) :
    s.allocate m size alignment =
      match s.allocateInPlace (m.reserve · Chunk.alignment) m size alignment with
      | .ok t (s', m') => .ok (t, s', m')
      | .error f _ => .error f := by
  unfold allocate allocateInPlace makeRoom
  split
  · rfl
  dsimp only
  cases s.bumpLatest? size (max alignment 1) with
  | error f => rfl
  | ok r =>
    cases r with
    | some r =>
      simp only [ok_bind, grant]
      cases checkedAdd s.allocated size <;> rfl
    | none =>
      simp only [ok_bind]
      cases s.newChunkSize size (max alignment 1) with
      | error f => rfl
      | ok capacity =>
        simp only [ok_bind]
        cases m.reserve capacity Chunk.alignment with
        | error f => rfl
        | ok r =>
          simp only [ok_bind]
          cases Chunk.bump? ⟨r.1, Memory.bufferCapacity capacity, 0⟩ size (max alignment 1) with
          | error f => rfl
          | ok r' =>
            cases r' with
            | none => rfl
            | some r' =>
              simp only [ok_bind, grant]
              cases checkedAdd s.allocated size <;> rfl

/-! ### Where new chunks come from -/

/-- A source of buffers for the next chunk of an arena.  A buffer does not reach the end of the address
space, lies apart from all chunks and is zeroed; the bytes in the chunks stay as they are. -/
structure Supplies (s : Scratch) (m : Memory) (reserve : Nat → Except Fault (Nat × Memory)) : Prop where
  end_lt : ∀ {capacity base m'}, reserve capacity = .ok (base, m') →
    base + Memory.bufferCapacity capacity < wordLimit
  apart : ∀ {capacity base m'}, reserve capacity = .ok (base, m') →
    ∀ c ∈ s.chunks, Chunk.Apart ⟨base, Memory.bufferCapacity capacity, 0⟩ c
  zeroed : ∀ {capacity base m'}, reserve capacity = .ok (base, m') →
    ∀ a, base ≤ a → a < base + Memory.bufferCapacity capacity → m'.bytes a = 0
  kept : ∀ {capacity base m'}, reserve capacity = .ok (base, m') →
    ∀ c ∈ s.chunks, ∀ a, c.Holds a → m'.bytes a = m.bytes a
  /-- A source has faults of its own. -/
  fault : ∀ capacity, reserve capacity ≠ .error .chunkTooSmall

theorem Sound.supplies (h : s.Sound m) : s.Supplies m (m.reserve · Chunk.alignment) := by
  have hlimits : Memory.addressLimit < wordLimit := by decide
  have hgives (capacity : Nat) : Gives (m.reserve capacity Chunk.alignment) _ := m.reserve_gives (by decide)
  refine ⟨fun hok => ?_, fun hok c hc => ?_, fun hok a hlo hhi => ?_, fun hok c hc a ha => ?_,
    fun capacity hfault => ?_⟩
  · have := ((hgives _).elim hok).2.1
    dsimp only at this
    omega
  · obtain ⟨hbase, -, -⟩ := (hgives _).elim hok
    obtain ⟨-, htop, -⟩ := h.chunks c hc
    exact .inr (by dsimp only at hbase ⊢; omega)
  · obtain ⟨-, -, hm'⟩ := (hgives _).elim hok
    dsimp only at hm'
    subst hm'
    exact if_pos ⟨hlo, hhi⟩
  · obtain ⟨hbase, -, hm'⟩ := (hgives _).elim hok
    obtain ⟨-, htop, -⟩ := h.chunks c hc
    dsimp only at hbase hm'
    subst hm'
    refine if_neg fun hin => ?_
    have := ha.2
    omega
  · have := hgives capacity
    rw [hfault] at this
    cases this

/-! ### Histories -/

/-- Memory after writes through the segments that were handed out, and anywhere outside the arena. -/
def WrittenThrough (s : Scratch) (given : List Segment) (m m' : Memory) : Prop :=
  ∀ c ∈ s.chunks, ∀ a, c.Holds a → (∀ t ∈ given, ¬ t.Holds a) → m'.bytes a = m.bytes a

theorem WrittenThrough.of_set {offset : Nat} {v : Value} (ht : t ∈ given) (h : t.set m offset v = .ok m') :
    s.WrittenThrough given m m' := by
  intro c _ a _ hgiven
  obtain ⟨kind, -, -, hlength, rfl⟩ := Segment.of_set_eq_ok h
  rw [Memory.bytes_store, if_neg]
  rintro ⟨hlo, hhi⟩
  exact hgiven t ht ⟨by omega, by omega⟩

theorem WrittenThrough.of_copyFrom (ht : t ∈ given) (h : t.copyFrom m u = .ok m') :
    s.WrittenThrough given m m' := by
  intro c _ a _ hgiven
  obtain ⟨-, hlength, rfl⟩ := Segment.of_copyFrom_eq_ok h
  rw [Memory.bytes_copy, if_neg]
  rintro ⟨hlo, hhi⟩
  exact hgiven t ht ⟨hlo, by omega⟩

/-- An arena and its memory after some allocations, with writes in between, and the segments handed out, the
latest first.  An allocation that faults is no step: it changes nothing (`Ledger.allocateInPlace`). -/
inductive History (capacity : Nat) : Scratch → Memory → List Segment → Prop
  | new (m : Memory) : History capacity (Scratch.new capacity) m []
  | allocate {s s' : Scratch} {m m' : Memory} {given : List Segment} {t : Segment}
      {reserve : Nat → Except Fault (Nat × Memory)} {size alignment : Nat} (h : History capacity s m given)
      (hreserve : s.Supplies m reserve) (hrun : s.allocateInPlace reserve m size alignment = .ok t (s', m')) :
      History capacity s' m' (t :: given)
  | write {s : Scratch} {m m' : Memory} {given : List Segment} (h : History capacity s m given)
      (hwrite : s.WrittenThrough given m m') : History capacity s m' given

/-! ### The invariant -/

/-- Every segment handed out lies in the used part of a chunk, apart from all others, and the rest of the
latest chunk is still zero. -/
structure Ledger (s : Scratch) (m : Memory) (given : List Segment) : Prop where
  isOpen : s.isOpen = true
  chunks : ∀ c ∈ s.chunks, c.used ≤ c.capacity ∧ c.base + c.capacity < wordLimit
  apart : s.chunks.Pairwise Chunk.Apart
  used : ∀ t ∈ given, ∃ c ∈ s.chunks, c.base ≤ t.address.toNat ∧ t.address.toNat + t.length ≤ c.base + c.used
  disjoint : given.Pairwise Segment.Apart
  counted : s.allocated = (given.map Segment.length).sum
  zero : ∀ c older, s.chunks = c :: older → ∀ a, c.base + c.used ≤ a → a < c.base + c.capacity → m.bytes a = 0

namespace Ledger

theorem new (capacity : Nat) (m : Memory) : (Scratch.new capacity).Ledger m [] :=
  ⟨rfl, fun _ hc => absurd hc List.not_mem_nil, .nil, fun _ ht => absurd ht List.not_mem_nil, .nil, rfl,
    fun _ _ hchunks => by cases hchunks⟩

theorem within (h : s.Ledger m given) (ht : t ∈ given) : ∃ c ∈ s.chunks, t.Within c := by
  obtain ⟨c, hc, hlo, hhi⟩ := h.used t ht
  have := (h.chunks c hc).1
  exact ⟨c, hc, hlo, by omega⟩

/-- Segments that were handed out do not reach into the unused part of the latest chunk. -/
theorem below_unused {c : Chunk} {older : List Chunk} (h : s.Ledger m given) (hchunks : s.chunks = c :: older)
    (ht : t ∈ given) :
    t.address.toNat + t.length ≤ c.base + c.used ∨ c.base + c.capacity ≤ t.address.toNat := by
  obtain ⟨d, hd, hlo, hhi⟩ := h.used t ht
  have hfit := (h.chunks d hd).1
  rw [hchunks] at hd
  rcases List.mem_cons.1 hd with rfl | hd
  · exact .inl hhi
  · have happart := h.apart
    rw [hchunks] at happart
    have := (List.pairwise_cons.1 happart).1 d hd
    unfold Chunk.Apart at this
    omega

theorem write (h : s.Ledger m given) (hwrite : s.WrittenThrough given m m') : s.Ledger m' given := by
  refine ⟨h.isOpen, h.chunks, h.apart, h.used, h.disjoint, h.counted, fun c older hchunks a hlo hhi => ?_⟩
  rw [hwrite c (by simp [hchunks]) a ⟨by omega, hhi⟩ fun t ht hholds => ?_]
  · exact h.zero c older hchunks a hlo hhi
  · have := h.below_unused hchunks ht
    unfold Segment.Holds at hholds
    omega

theorem addChunk {capacity base : Nat} (h : s.Ledger m given) (hreserve : s.Supplies m reserve)
    (hok : reserve capacity = .ok (base, m')) :
    Ledger { s with chunks := ⟨base, Memory.bufferCapacity capacity, 0⟩ :: s.chunks } m' given := by
  refine ⟨h.isOpen, fun c hc => ?_, List.pairwise_cons.2 ⟨hreserve.apart hok, h.apart⟩,
    fun t ht => ?_, h.disjoint, h.counted, fun c older hchunks a hlo hhi => ?_⟩
  · rcases List.mem_cons.1 hc with rfl | hc
    · exact ⟨Nat.zero_le _, hreserve.end_lt hok⟩
    · exact h.chunks c hc
  · obtain ⟨c, hc, hused⟩ := h.used t ht
    exact ⟨c, List.mem_cons_of_mem _ hc, hused⟩
  · cases hchunks
    exact hreserve.zeroed hok a hlo hhi

theorem grant {c : Chunk} {older : List Chunk} {start : Nat} (h : s.Ledger m given)
    (hchunks : s.chunks = c :: older) (hstart : c.used ≤ start) (hfit : start + size ≤ c.capacity)
    (ht : t.address.toNat = c.base + start) (hlength : t.length = size) :
    Ledger { s with chunks := { c with used := start + size } :: older, allocated := s.allocated + size } m
      (t :: given) := by
  have hc := (h.chunks c (by simp [hchunks])).2
  have hapart := h.apart
  rw [hchunks] at hapart
  refine ⟨h.isOpen, fun d hd => ?_, ?_, fun u hu => ?_, ?_, ?_, fun d rest heq a hlo hhi => ?_⟩
  · rcases List.mem_cons.1 hd with rfl | hd
    · exact ⟨hfit, hc⟩
    · exact h.chunks d (by simp [hchunks, hd])
  · obtain ⟨hhead, htail⟩ := List.pairwise_cons.1 hapart
    exact List.pairwise_cons.2 ⟨hhead, htail⟩
  · rcases List.mem_cons.1 hu with rfl | hu
    · exact ⟨_, List.mem_cons_self, by dsimp only; omega, by dsimp only; omega⟩
    · obtain ⟨d, hd, hlo, hhi⟩ := h.used u hu
      rw [hchunks] at hd
      rcases List.mem_cons.1 hd with rfl | hd
      · exact ⟨_, List.mem_cons_self, hlo, by dsimp only; omega⟩
      · exact ⟨d, List.mem_cons_of_mem _ hd, hlo, hhi⟩
  · refine List.pairwise_cons.2 ⟨fun u hu => ?_, h.disjoint⟩
    have := h.below_unused hchunks hu
    unfold Segment.Apart
    omega
  · simp only [List.map_cons, List.sum_cons, h.counted, hlength]
    omega
  · cases heq
    dsimp only at hlo hhi
    exact h.zero c older hchunks a (by omega) hhi

/-- The counter cannot overflow: all that was handed out lies apart below the end of the address space. -/
theorem allocated_lt (h : s.Ledger m given) : s.allocated < wordLimit := by
  rw [h.counted]
  refine Nat.lt_of_le_of_lt (Segment.sum_length_le (n := wordLimit - 1) h.disjoint fun t ht => ?_) (by decide)
  obtain ⟨c, hc, -, hhi⟩ := h.used t ht
  obtain ⟨hused, hend⟩ := h.chunks c hc
  omega

end Ledger

/-! ### One allocation -/

theorem makeRoom_eq_ok {start : Nat} {chunk : Chunk} {older : List Chunk}
    (h : s.makeRoom reserve m size unit = .ok (start, chunk, older, m')) :
    ∃ c, c.bump? size unit = .ok (some (start, chunk)) ∧
      ((s.chunks = c :: older ∧ m' = m) ∨
        ∃ capacity base, reserve capacity = .ok (base, m') ∧ c = ⟨base, Memory.bufferCapacity capacity, 0⟩ ∧
          older = s.chunks) := by
  obtain ⟨r, hbump, h⟩ := bind_eq_ok.1 h
  cases r with
  | some r =>
    cases h
    unfold bumpLatest? at hbump
    split at hbump
    · cases hbump
    · next c rest hchunks =>
      obtain ⟨r', hbump', hbump⟩ := bind_eq_ok.1 hbump
      cases r' with
      | none => cases hbump
      | some r' =>
        cases hbump
        exact ⟨c, hbump', .inl ⟨hchunks, rfl⟩⟩
  | none =>
    obtain ⟨capacity, -, h⟩ := bind_eq_ok.1 h
    obtain ⟨⟨base, _⟩, hreserve, h⟩ := bind_eq_ok.1 h
    obtain ⟨r, hbump, h⟩ := bind_eq_ok.1 h
    cases r with
    | none => cases h
    | some r =>
      cases h
      exact ⟨_, hbump, .inr ⟨capacity, base, hreserve, rfl, rfl⟩⟩

theorem bump?_aligned {c chunk : Chunk} {start k : Nat} (h : c.bump? size (2 ^ k) = .ok (some (start, chunk))) :
    2 ^ k ∣ c.base + start := by
  obtain ⟨cursor, hcursor, h⟩ := bind_eq_ok.1 h
  obtain ⟨aligned, haligned, h⟩ := bind_eq_ok.1 h
  obtain ⟨offset, hoffset, h⟩ := bind_eq_ok.1 h
  obtain ⟨hle, rfl⟩ := checkedSub_eq_ok.1 (lift_overflow_eq_ok.1 hoffset)
  have hdvd := pow_dvd_of_alignUp (lift_overflow_eq_ok.1 haligned)
  have h := pure_eq_ok.1 h
  split at h
  · cases h
    rwa [Nat.add_sub_cancel' hle]
  · cases h

theorem bump?_ne_none {c : Chunk} (hfit : c.used + size + unit ≤ c.capacity) :
    c.bump? size unit ≠ .ok none := by
  intro h
  obtain ⟨cursor, hcursor, h⟩ := bind_eq_ok.1 h
  obtain ⟨aligned, haligned, h⟩ := bind_eq_ok.1 h
  obtain ⟨start, hstart, h⟩ := bind_eq_ok.1 h
  obtain ⟨-, rfl⟩ := checkedAdd_eq_ok.1 (lift_overflow_eq_ok.1 hcursor)
  obtain ⟨hle, rfl⟩ := checkedSub_eq_ok.1 (lift_overflow_eq_ok.1 hstart)
  have hlt := alignUp_lt (lift_overflow_eq_ok.1 haligned)
  have h := pure_eq_ok.1 h
  rw [if_pos (by omega)] at h
  cases h

theorem le_of_newChunkSize {capacity : Nat} (h : s.newChunkSize size unit = .ok capacity) :
    size + unit ≤ capacity := by
  obtain ⟨wanted, hwanted, h⟩ := bind_eq_ok.1 h
  obtain ⟨-, rfl⟩ := checkedAdd_eq_ok.1 (lift_overflow_eq_ok.1 hwanted)
  split at h
  · cases h
    omega
  · obtain ⟨twice, -, h⟩ := bind_eq_ok.1 h
    cases h
    omega

/-! ### Faults -/

theorem lift_ne_chunkTooSmall {α : Type} (x : Except Overflow α) :
    (liftM x : Except Fault α) ≠ .error .chunkTooSmall := by
  cases x <;> exact nofun

theorem bump?_ne_chunkTooSmall (c : Chunk) (size unit : Nat) : c.bump? size unit ≠ .error .chunkTooSmall :=
  bind_ne_error (lift_ne_chunkTooSmall _) fun _ _ => bind_ne_error (lift_ne_chunkTooSmall _) fun _ _ =>
    bind_ne_error (lift_ne_chunkTooSmall _) fun _ _ => nofun

theorem newChunkSize_ne_chunkTooSmall : s.newChunkSize size unit ≠ .error .chunkTooSmall := by
  refine bind_ne_error (lift_ne_chunkTooSmall _) fun _ _ => ?_
  split
  · exact nofun
  · exact bind_ne_error (lift_ne_chunkTooSmall _) fun _ _ => nofun

/-- **A new chunk is never too small**, whatever the alignment. -/
theorem makeRoom_ne_chunkTooSmall (hreserve : s.Supplies m reserve) :
    s.makeRoom reserve m size unit ≠ .error .chunkTooSmall := by
  refine bind_ne_error ?_ fun r _ => ?_
  · unfold bumpLatest?
    split
    · exact nofun
    · refine bind_ne_error (bump?_ne_chunkTooSmall _ _ _) fun r _ => ?_
      cases r <;> exact nofun
  · cases r with
    | some r => exact nofun
    | none =>
      refine bind_ne_error newChunkSize_ne_chunkTooSmall fun capacity hcapacity =>
        bind_ne_error (hreserve.fault capacity) fun r _ => bind_ne_error (bump?_ne_chunkTooSmall _ _ _)
          fun r hbump => ?_
      cases r with
      | some r => exact nofun
      | none =>
        have hle := le_of_newChunkSize hcapacity
        refine absurd hbump (bump?_ne_none ?_)
        dsimp only [Memory.bufferCapacity]
        omega

/-! ### One allocation, and all of them -/

/-- What an allocation hands out: a segment of the size and the alignment asked for, inside a chunk of the
arena, apart from what was handed out before, and zero. -/
structure HandsOver (s : Scratch) (m : Memory) (given : List Segment) (size alignment : Nat)
    (t : Segment) : Prop where
  length : t.length = size
  within : ∃ c ∈ s.chunks, t.Within c
  apart : ∀ u ∈ given, t.Apart u
  zero : ∀ a, t.Holds a → m.bytes a = 0
  aligned : ∀ k, alignment = 2 ^ k → alignment ∣ t.address.toNat

/-- Opening a chunk preserves the invariant, whether it is the latest or a new one. -/
theorem Ledger.makeRoom {start : Nat} {chunk : Chunk} {older : List Chunk} (h : s.Ledger m given)
    (hreserve : s.Supplies m reserve) (hroom : s.makeRoom reserve m size unit = .ok (start, chunk, older, m')) :
    ∃ c, c.bump? size unit = .ok (some (start, chunk)) ∧ Ledger { s with chunks := c :: older } m' given := by
  obtain ⟨c, hbump, ⟨hchunks, rfl⟩ | ⟨capacity, base, hok, rfl, rfl⟩⟩ := makeRoom_eq_ok hroom
  · refine ⟨c, hbump, ?_⟩
    rw [← hchunks]
    exact h
  · exact ⟨_, hbump, h.addChunk hreserve hok⟩

/-- An allocation preserves the invariant, and one that faults changes nothing. -/
theorem Ledger.allocateInPlace (h : s.Ledger m given) (hreserve : s.Supplies m reserve) (size alignment : Nat) :
    match s.allocateInPlace reserve m size alignment with
    | .ok t (s', m') => s'.Ledger m' (t :: given) ∧ s'.HandsOver m' given size alignment t
    | .error f r => r = (s, m) ∧ f ≠ .chunkTooSmall := by
  unfold Scratch.allocateInPlace
  rw [if_neg (by simp [h.isOpen])]
  cases hroom : s.makeRoom reserve m size (max alignment 1) with
  | error f => exact ⟨rfl, fun hf => makeRoom_ne_chunkTooSmall hreserve (hf ▸ hroom)⟩
  | ok r =>
    obtain ⟨start, chunk, older, m'⟩ := r
    obtain ⟨c, hbump, hopened⟩ := h.makeRoom hreserve hroom
    obtain ⟨hstart, hfit, rfl⟩ := bump?_eq_ok hbump
    have hend := (hopened.chunks c (by simp)).2
    have haddress : (BitVec.ofNat 64 (c.base + start)).toNat = c.base + start := toNat_ofNat_word (by omega)
    have hgranted := hopened.grant (t := ⟨BitVec.ofNat 64 (c.base + start), size, .scratch c.base⟩) rfl
      hstart hfit haddress rfl
    -- The counter is below the limit because the segments, the new one among them, lie apart.
    have hcount : checkedAdd s.allocated size = .ok (s.allocated + size) :=
      checkedAdd_eq_ok.2 ⟨hgranted.allocated_lt, rfl⟩
    dsimp only
    rw [hcount]
    refine ⟨hgranted, rfl, hgranted.within List.mem_cons_self,
      (List.pairwise_cons.1 hgranted.disjoint).1, fun a ⟨hlo, hhi⟩ => ?_, ?_⟩
    · dsimp only at hlo hhi
      rw [haddress] at hlo hhi
      exact hopened.zero c older rfl a (by omega) (by omega)
    · rintro k rfl
      dsimp only
      rw [haddress]
      rw [Nat.max_eq_left Nat.one_le_two_pow] at hbump
      exact bump?_aligned hbump

theorem History.ledger {capacity : Nat} (h : History capacity s m given) : s.Ledger m given := by
  induction h with
  | new m => exact .new capacity m
  | @allocate s s' m m' given t reserve size alignment _ hreserve hrun ih =>
    have hstep := ih.allocateInPlace hreserve size alignment
    rw [hrun] at hstep
    exact hstep.1
  | write _ hwrite ih => exact ih.write hwrite

/-- **The arena never overlaps, misaligns or runs off a chunk.**  After any history the segments handed out
lie inside chunks and apart from each other, and the counter has their total size.  An allocation hands out
a fresh zeroed segment, or faults and changes nothing; a new chunk is never too small. -/
theorem History.hands_over_fresh {capacity : Nat} (h : History capacity s m given)
    (hreserve : s.Supplies m reserve) (size alignment : Nat) :
    (∀ t ∈ given, ∃ c ∈ s.chunks, t.Within c) ∧ given.Pairwise Segment.Apart ∧
      s.allocated = (given.map Segment.length).sum ∧
      (match s.allocateInPlace reserve m size alignment with
      | .ok t (s', m') => s'.HandsOver m' given size alignment t ∧ s'.allocated = s.allocated + size
      | .error f r => r = (s, m) ∧ f ≠ .chunkTooSmall) ∧
      s.allocate m size alignment =
        match s.allocateInPlace (m.reserve · Chunk.alignment) m size alignment with
        | .ok t (s', m') => .ok (t, s', m')
        | .error f _ => .error f := by
  have hledger := h.ledger
  refine ⟨fun t => hledger.within, hledger.disjoint, hledger.counted, ?_,
    allocate_eq_inPlace s m size alignment⟩
  have hstep := hledger.allocateInPlace hreserve size alignment
  cases hrun : s.allocateInPlace reserve m size alignment with
  | error f r =>
    rw [hrun] at hstep
    exact hstep
  | ok t r =>
    rw [hrun] at hstep
    obtain ⟨hafter, hands⟩ := hstep
    refine ⟨hands, ?_⟩
    have := hafter.counted
    rw [List.map_cons, List.sum_cons, ← hledger.counted, hands.length] at this
    omega

/-- Three bytes are handed out and one of them is written; then eight bytes at a multiple of 8 are zero. -/
theorem hands_over_fresh_after_write :
    ∃ s m t, History 64 s m [t] ∧ s.Supplies m (m.reserve · Chunk.alignment) ∧
    m.bytes t.address.toNat = 7 ∧
    ∃ t' s' m', s.allocateInPlace (m.reserve · Chunk.alignment) m 8 8 = .ok t' (s', m') ∧
      t'.Apart t ∧ 8 ∣ t'.address.toNat ∧ m'.bytes t'.address.toNat = 0 ∧ s'.allocated = 11 := by
  let s : Scratch := ⟨[⟨Memory.firstAddress, 256, 3⟩], true, 64, 3⟩
  let t : Segment := ⟨BitVec.ofNat 64 Memory.firstAddress, 3, .scratch Memory.firstAddress⟩
  let m : Memory := { Memory.empty.clear Memory.firstAddress 256 with top := Memory.firstAddress + 257 }
  have hempty : (Scratch.new 64).Sound Memory.empty :=
    new_sound ⟨by decide, fun _ hb => absurd hb List.not_mem_nil⟩ 64
  have hrun : (Scratch.new 64).allocateInPlace (Memory.empty.reserve · Chunk.alignment) Memory.empty 3 1
      = .ok t (s, m) := rfl
  have hfirst : History 64 s m [t] := .allocate (.new Memory.empty) hempty.supplies hrun
  have hset : t.set m 0 (.i8 7) = .ok (m.store Memory.firstAddress 1 7) := rfl
  have hwritten : History 64 s (m.store Memory.firstAddress 1 7) [t] :=
    .write hfirst (.of_set List.mem_cons_self hset)
  have hsound : s.Sound (m.store Memory.firstAddress 1 7) :=
    ⟨rfl, ⟨by decide, nofun⟩, by decide, by decide, by decide⟩
  have hbyte : (m.store Memory.firstAddress 1 7).bytes t.address.toNat = 7 := by
    rw [show t.address.toNat = Memory.firstAddress from rfl, Memory.bytes_store,
      if_pos (by decide), Nat.sub_self]
    rfl
  refine ⟨s, _, t, hwritten, hsound.supplies, hbyte, _, _, _, rfl, ?_⟩
  obtain ⟨-, -, -, ⟨hands, hcount⟩, -⟩ := hwritten.hands_over_fresh hsound.supplies 8 8
  exact ⟨hands.apart t List.mem_cons_self, hands.aligned 3 rfl, hands.zero _ ⟨Nat.le_refl _, by decide⟩, hcount⟩

end Scratch

end ForeignCall
