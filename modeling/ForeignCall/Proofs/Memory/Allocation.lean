import ForeignCall.Proofs.Layout
import ForeignCall.Scratch
import Mathlib.Algebra.Ring.Nat

/-!
# Allocation

* `Gives x Q`: `x` gives a value with the property `Q`, unless memory is exhausted.  This is how
  "allocations succeed" is assumed;
* `Memory.Sound`, `Scratch.Sound`: the invariants of memory and of an open scratch arena on it;
* `Memory.Reserved`: bytes that no allocation will hand out;
* `Scratch.Spare`: the addresses that the arena may still hand out.  Everything else is settled;
* `Scratch.draws_of_allocate`: all that an allocation can do (`Scratch.Draws`).  `Scratch.allocate_eq_ok`:
  it takes its bytes from the spare addresses and changes no settled byte (`Scratch.Granted`);
* `Scratch.allocate_gives`: an allocation at one of the alignments of layouts succeeds.
-/

namespace ForeignCall

variable {α β : Type} {m m' : Memory} {size alignment : Nat}

/-! ### Running out of memory -/

/-- There is no memory left, or the buffer is larger than any memory. -/
def Fault.isExhaustion : Fault → Bool
  | .outOfMemory _ => true
  | .invalidBuffer size alignment => Memory.maxBufferSize < Memory.bufferCapacity size + max alignment 1
  | _ => false

/-- `x` gives a value with the property, unless memory is exhausted. -/
def Gives (x : Except Fault α) (Q : α → Prop) : Prop :=
  match x with
  | .ok a => Q a
  | .error f => f.isExhaustion = true

namespace Gives

variable {x : Except Fault α} {Q : α → Prop}

theorem bind {f : α → Except Fault β} {P : β → Prop} (h : Gives x Q) (hf : ∀ a, Q a → Gives (f a) P) :
    Gives (x >>= f) P := by
  cases x with
  | ok a => exact hf a h
  | error e => exact h

theorem of_eq {a : α} (h : x = .ok a) (hQ : Q a) : Gives x Q := by
  rw [h]
  exact hQ

theorem and_ok {P : α → Prop} (h : Gives x Q) (hP : ∀ a, x = .ok a → P a) : Gives x P := by
  cases x with
  | ok a => exact hP a rfl
  | error e => exact h

theorem elim {a : α} (h : Gives x Q) (hx : x = .ok a) : Q a := by
  rw [hx] at h
  exact h

end Gives

/-! ### Reserving memory -/

namespace Memory

/-- Allocation has stayed below its limit, and chunks that were given back lie in memory that was reserved. -/
structure Sound (m : Memory) : Prop where
  top_le : m.top ≤ addressLimit + 1
  released_lt : ∀ b ∈ m.released, b < m.top

/-- The bytes lie in memory that is reserved, or where no allocation reaches. -/
def Reserved (m : Memory) (a size : Nat) : Prop := a + size ≤ m.top ∨ addressLimit ≤ a

theorem Reserved.mono {a : Nat} (h : m.Reserved a size) (htop : m.top ≤ m'.top) : m'.Reserved a size := by
  rcases h with hle | hle
  · exact .inl (Nat.le_trans hle htop)
  · exact .inr hle

theorem le_roundUp {a unit : Nat} (h : 0 < unit) : a ≤ (a + unit - 1) / unit * unit := by
  have hdiv := Nat.div_add_mod (a + unit - 1) unit
  have hmod := Nat.mod_lt (a + unit - 1) h
  rw [Nat.mul_comm] at hdiv
  omega

/-- A fresh buffer lies above everything that was reserved before. -/
theorem reserve_gives (m : Memory) (hpower : max alignment 1 &&& (max alignment 1 - 1) = 0) :
    Gives (m.reserve size alignment) fun r => m.top ≤ r.1 ∧ r.1 + bufferCapacity size ≤ addressLimit ∧
      r.2 = { m.clear r.1 (bufferCapacity size) with top := r.1 + bufferCapacity size + 1 } := by
  unfold reserve
  dsimp only
  split
  · next h =>
    obtain h | h := h
    · exact absurd hpower h
    · exact decide_eq_true h
  · split
    · next h => exact ⟨le_roundUp (by omega), h, rfl⟩
    · rfl

theorem bytes_clear {a b n : Nat} : (m.clear a n).bytes b = if a ≤ b ∧ b < a + n then 0 else m.bytes b := rfl

end Memory

/-! ### Scratch arenas -/

namespace Scratch

open Memory

variable {s s' : Scratch}

/-- The arena is open, its chunks are reserved and were not given back, and its books are right. -/
structure Sound (s : Scratch) (m : Memory) : Prop where
  isOpen : s.isOpen = true
  memory : m.Sound
  chunks : ∀ c ∈ s.chunks, c.used ≤ c.capacity ∧ c.base + c.capacity < m.top ∧ c.base ∉ m.released
  allocated_le : s.allocated ≤ (s.chunks.map Chunk.used).sum
  total_le : (s.chunks.map Chunk.capacity).sum ≤ m.top

/-- The address may still be handed out: it lies in memory that is not reserved, or in the unused part of
the latest chunk. -/
def Spare (s : Scratch) (m : Memory) (a : Nat) : Prop :=
  (m.top ≤ a ∧ a < addressLimit) ∨
    ∃ c older, s.chunks = c :: older ∧ c.base + c.used ≤ a ∧ a < c.base + c.capacity

/-- An arena comes from another one by allocations and writes. -/
structure Evolves (s : Scratch) (m : Memory) (s' : Scratch) (m' : Memory) : Prop where
  sound : s'.Sound m'
  spare : ∀ a, s'.Spare m' a → s.Spare m a
  released : m'.released = m.released
  top_le : m.top ≤ m'.top
  chunks : ∀ c ∈ s'.chunks, c.base ∈ s.chunks.map Chunk.base ∨ m.top ≤ c.base

/-- What an allocation does: the segment takes spare addresses, and settled bytes stay as they are. -/
structure Granted (s : Scratch) (m : Memory) (size : Nat) (t : Segment) (s' : Scratch)
    (m' : Memory) : Prop where
  evolves : s.Evolves m s' m'
  length : t.length = size
  alive : t.isAlive m' = true
  end_le : t.address.toNat + size ≤ addressLimit
  end_lt_top : t.address.toNat + size < m'.top
  fresh : ∀ i < size, s.Spare m (t.address.toNat + i)
  taken : ∀ i < size, ¬ s'.Spare m' (t.address.toNat + i)
  bytes : ∀ a, ¬ s.Spare m a → m'.bytes a = m.bytes a

theorem new_sound (h : m.Sound) (capacity : Nat) : (Scratch.new capacity).Sound m :=
  ⟨rfl, h, by simp [Scratch.new], by simp [Scratch.new], by simp [Scratch.new]⟩

theorem Sound.evolves_refl (h : s.Sound m) : s.Evolves m s m :=
  ⟨h, fun _ ha => ha, rfl, Nat.le_refl _, fun _ hc => .inl (List.mem_map_of_mem hc)⟩

/-- An arena without chunks has nothing to hand out but memory that is not reserved. -/
theorem spare_iff {a : Nat} (h : s.chunks = []) : s.Spare m a ↔ m.top ≤ a ∧ a < addressLimit := by
  refine ⟨?_, .inl⟩
  rintro (ha | ⟨c, older, hchunks, -⟩)
  · exact ha
  · rw [h] at hchunks
    cases hchunks

/-! ### Allocating -/

/-- The next aligned offset of a chunk, which is less than one unit further on. -/
theorem bump?_eq {c : Chunk} {unit : Nat} (hunit : 0 < unit) (h : c.base + c.used + unit < wordLimit)
    (size : Nat) :
    ∃ start, c.used ≤ start ∧ start < c.used + unit ∧
      c.bump? size unit
        = .ok (if start + size ≤ c.capacity then some (start, { c with used := start + size }) else none) := by
  obtain ⟨aligned, haligned, hle, hlt⟩ := exists_alignUp h hunit
  refine ⟨aligned - c.base, by omega, by omega, ?_⟩
  refine bind_eq_ok.2 ⟨_, lift_overflow_eq_ok.2 (checkedAdd_eq_ok.2 ⟨by omega, rfl⟩), ?_⟩
  refine bind_eq_ok.2 ⟨_, lift_overflow_eq_ok.2 haligned, ?_⟩
  exact bind_eq_ok.2 ⟨_, lift_overflow_eq_ok.2 (checkedSub_eq_ok.2 ⟨by omega, rfl⟩), rfl⟩

theorem bump?_eq_ok {c c' : Chunk} {unit start : Nat} (h : c.bump? size unit = .ok (some (start, c'))) :
    c.used ≤ start ∧ start + size ≤ c.capacity ∧ c' = { c with used := start + size } := by
  obtain ⟨cursor, hcursor, h⟩ := bind_eq_ok.1 h
  obtain ⟨aligned, haligned, h⟩ := bind_eq_ok.1 h
  obtain ⟨start', hstart, h⟩ := bind_eq_ok.1 h
  obtain ⟨-, rfl⟩ := checkedAdd_eq_ok.1 (lift_overflow_eq_ok.1 hcursor)
  obtain ⟨-, rfl⟩ := checkedSub_eq_ok.1 (lift_overflow_eq_ok.1 hstart)
  have hle := le_of_alignUp (lift_overflow_eq_ok.1 haligned)
  have h := pure_eq_ok.1 h
  split at h
  · next hfit =>
    cases h
    exact ⟨by omega, hfit, rfl⟩
  · cases h

theorem bumpLatest?_eq_ok {unit start : Nat} {chunk : Chunk} {older : List Chunk}
    (h : s.bumpLatest? size unit = .ok (some (start, chunk, older))) :
    ∃ c, s.chunks = c :: older ∧ chunk = { c with used := start + size } ∧ c.used ≤ start ∧
      start + size ≤ c.capacity := by
  unfold bumpLatest? at h
  split at h
  · cases h
  · next c rest hchunks =>
    obtain ⟨r, hbump, h⟩ := bind_eq_ok.1 h
    cases r with
    | none => cases h
    | some r =>
      cases h
      obtain ⟨hstart, hfit, hchunk⟩ := bump?_eq_ok hbump
      exact ⟨c, hchunks, hchunk, hstart, hfit⟩

theorem sum_used_le {chunks : List Chunk} (h : ∀ c ∈ chunks, c.used ≤ c.capacity) :
    (chunks.map Chunk.used).sum ≤ (chunks.map Chunk.capacity).sum := by
  induction chunks with
  | nil => simp
  | cons c chunks ih =>
    have hc := h c (by simp)
    have hrest := ih fun d hd => h d (by simp [hd])
    simp only [List.map_cons, List.sum_cons]
    omega

theorem grant_eq_ok {start : Nat} {chunk : Chunk} {older : List Chunk} {t : Segment} :
    s.grant size start chunk older = .ok (t, s') ↔ s.allocated + size < wordLimit ∧
      t = ⟨BitVec.ofNat 64 (chunk.base + start), size, .scratch chunk.base⟩ ∧
      s' = { s with chunks := chunk :: older, allocated := s.allocated + size } := by
  constructor
  · intro h
    obtain ⟨allocated, hadd, h⟩ := bind_eq_ok.1 h
    obtain ⟨hlimit, rfl⟩ := checkedAdd_eq_ok.1 (lift_overflow_eq_ok.1 hadd)
    cases h
    exact ⟨hlimit, rfl, rfl⟩
  · rintro ⟨hlimit, rfl, rfl⟩
    exact bind_eq_ok.2 ⟨_, lift_overflow_eq_ok.2 (checkedAdd_eq_ok.2 ⟨hlimit, rfl⟩), rfl⟩

theorem grant_gives {c : Chunk} {older : List Chunk} {start : Nat} (h : s.Sound m)
    (hchunks : s.chunks = c :: older) (hstart : c.used ≤ start) (hfit : start + size ≤ c.capacity) :
    Gives (s.grant size start { c with used := start + size } older) fun r => s.Granted m size r.1 r.2 m := by
  obtain ⟨hused, htop, hkept⟩ := h.chunks c (by simp [hchunks])
  have hlimit := h.memory.top_le
  have hallocated := h.allocated_le
  have htotal := h.total_le
  simp only [hchunks, List.map_cons, List.sum_cons] at hallocated htotal
  have hsum : (older.map Chunk.used).sum ≤ (older.map Chunk.capacity).sum :=
    sum_used_le fun d hd => (h.chunks d (by simp [hchunks, hd])).1
  have hlimits : addressLimit + 1 < wordLimit := by decide
  have haddress : (BitVec.ofNat 64 (c.base + start)).toNat = c.base + start := toNat_ofNat_word (by omega)
  refine .of_eq (grant_eq_ok.2 ⟨by omega, rfl, rfl⟩) ?_
  have hspare : ∀ a,
      ({ s with chunks := { c with used := start + size } :: older, allocated := s.allocated + size } :
        Scratch).Spare m a →
      (m.top ≤ a ∧ a < addressLimit) ∨ (c.base + (start + size) ≤ a ∧ a < c.base + c.capacity) := by
    rintro a (ha | ⟨d, rest, heq, ha⟩)
    · exact .inl ha
    · cases heq
      exact .inr ha
  refine ⟨⟨⟨h.isOpen, h.memory, ?_, ?_, ?_⟩, ?_, rfl, Nat.le_refl _, ?_⟩, rfl, ?_, ?_, ?_, ?_, ?_,
    fun _ _ => rfl⟩
  · intro d hd
    rcases List.mem_cons.1 hd with rfl | hd
    · exact ⟨hfit, htop, hkept⟩
    · exact h.chunks d (by simp [hchunks, hd])
  · simp only [List.map_cons, List.sum_cons]
    omega
  · simpa only [List.map_cons, List.sum_cons] using htotal
  · intro a ha
    rcases hspare a ha with ha | ha
    · exact .inl ha
    · exact .inr ⟨c, older, hchunks, by omega, by omega⟩
  · intro d hd
    rcases List.mem_cons.1 hd with rfl | hd
    · exact .inl (by simp [hchunks])
    · exact .inl (List.mem_map_of_mem (by simp [hchunks, hd]))
  · simpa [Segment.isAlive] using hkept
  · dsimp only
    omega
  · dsimp only
    omega
  · intro i hi
    dsimp only
    exact .inr ⟨c, older, hchunks, by omega, by omega⟩
  · intro i hi hs
    rcases hspare _ hs with hs | hs <;> (dsimp only at hs; omega)

theorem newChunkSize_gives (h : s.Sound m) {unit : Nat} (hsize : size + unit < wordLimit) :
    Gives (s.newChunkSize size unit) fun capacity => size + unit ≤ capacity := by
  refine .bind (.of_eq (lift_overflow_eq_ok.2 (checkedAdd_eq_ok.2 ⟨hsize, rfl⟩)) rfl) ?_
  rintro _ rfl
  split
  · show size + unit ≤ _
    omega
  · next last older hchunks =>
    have hlast := h.chunks last (by simp [hchunks])
    have hlimit := h.memory.top_le
    have hlimits : 2 * addressLimit < wordLimit := by decide
    refine .bind (.of_eq (lift_overflow_eq_ok.2 (checkedMul_eq_ok.2 ⟨by omega, rfl⟩)) rfl) ?_
    rintro _ rfl
    show size + unit ≤ _
    omega

/-- A new chunk keeps the arena sound, and nothing but fresh memory changes. -/
theorem addChunk_evolves (h : s.Sound m) {base capacity : Nat} (hbase : m.top ≤ base)
    (hlimit : base + capacity ≤ addressLimit) :
    let m' : Memory := { m.clear base capacity with top := base + capacity + 1 }
    let s' : Scratch := { s with chunks := ⟨base, capacity, 0⟩ :: s.chunks }
    s.Evolves m s' m' ∧ ∀ a, ¬ s.Spare m a → m'.bytes a = m.bytes a := by
  intro m' s'
  have hreleased : ∀ b ∈ m.released, b < m.top := h.memory.released_lt
  refine ⟨⟨⟨h.isOpen, ⟨?_, ?_⟩, ?_, ?_, ?_⟩, ?_, rfl, ?_, ?_⟩, ?_⟩
  · show base + capacity + 1 ≤ _
    omega
  · intro b hb
    have := hreleased b hb
    show b < base + capacity + 1
    omega
  · intro c hc
    rcases List.mem_cons.1 hc with rfl | hc
    · refine ⟨Nat.zero_le _, Nat.lt_succ_self _, fun hb => ?_⟩
      have := hreleased _ hb
      dsimp only at this
      omega
    · obtain ⟨hused, htop, hkept⟩ := h.chunks c hc
      refine ⟨hused, ?_, hkept⟩
      show c.base + c.capacity < base + capacity + 1
      omega
  · have := h.allocated_le
    simp only [s', List.map_cons, List.sum_cons]
    omega
  · have := h.total_le
    simp only [s', m', List.map_cons, List.sum_cons]
    omega
  · rintro a (⟨hle, hlt⟩ | ⟨c, older, hchunks, hle, hlt⟩)
    · dsimp only [m'] at hle
      exact .inl ⟨by omega, hlt⟩
    · cases hchunks
      dsimp only at hle hlt
      exact .inl ⟨by omega, by omega⟩
  · show m.top ≤ base + capacity + 1
    omega
  · intro c hc
    rcases List.mem_cons.1 hc with rfl | hc
    · exact .inr hbase
    · exact .inl (List.mem_map_of_mem hc)
  · intro a ha
    show (m.clear base capacity).bytes a = m.bytes a
    rw [bytes_clear, if_neg]
    rintro ⟨hle, hlt⟩
    exact ha (.inl ⟨by omega, by omega⟩)

theorem Evolves.trans {s₁ s₂ s₃ : Scratch} {m₁ m₂ m₃ : Memory} (h : s₁.Evolves m₁ s₂ m₂)
    (h' : s₂.Evolves m₂ s₃ m₃) :
    s₁.Evolves m₁ s₃ m₃ := by
  refine ⟨h'.sound, fun a ha => h.spare a (h'.spare a ha), h'.released.trans h.released,
    Nat.le_trans h.top_le h'.top_le, ?_⟩
  intro c hc
  rcases h'.chunks c hc with hbase | hbase
  · obtain ⟨d, hd, heq⟩ := List.mem_map.1 hbase
    rw [← heq]
    exact h.chunks d hd
  · exact .inr (Nat.le_trans h.top_le hbase)

/-- The segment lies in a chunk of the new arena, which has kept all chunks. -/
structure HandsOut (s : Scratch) (t : Segment) (s' : Scratch) : Prop where
  scope : ∃ c ∈ s'.chunks, t.scope = .scratch c.base
  kept : ∀ b ∈ s.chunks.map Chunk.base, b ∈ s'.chunks.map Chunk.base

/-- What an allocation takes: bytes behind the used ones of a chunk, which is the latest of the arena or a
new one. -/
structure Draws (s : Scratch) (m : Memory) (size : Nat) (c : Chunk) (older : List Chunk) (start : Nat)
    (m' : Memory) : Prop where
  unused : c.used ≤ start
  fits : start + size ≤ c.capacity
  grants : s.allocated + size < wordLimit
  chunk : (s.chunks = c :: older ∧ m' = m) ∨
    ∃ capacity base, m.reserve capacity Chunk.alignment = .ok (base, m') ∧
      c = ⟨base, bufferCapacity capacity, 0⟩ ∧
      older = s.chunks

/-- All that an allocation can do, also in an arena in disorder. -/
theorem draws_of_allocate {t : Segment} (h : s.allocate m size alignment = .ok (t, s', m')) :
    ∃ c older start, s.Draws m size c older start m' ∧
      t = ⟨BitVec.ofNat 64 (c.base + start), size, .scratch c.base⟩ ∧
      s' = { s with chunks := { c with used := start + size } :: older, allocated := s.allocated + size } := by
  unfold allocate at h
  split at h
  · cases h
  obtain ⟨r, hbump, h⟩ := bind_eq_ok.1 h
  cases r with
  | some r =>
    obtain ⟨start, chunk, older⟩ := r
    obtain ⟨⟨t', s''⟩, hgrant, h⟩ := bind_eq_ok.1 h
    cases h
    obtain ⟨c, hchunks, rfl, hstart, hfit⟩ := bumpLatest?_eq_ok hbump
    obtain ⟨hlimit, ht, hs⟩ := grant_eq_ok.1 hgrant
    exact ⟨c, older, start, ⟨hstart, hfit, hlimit, .inl ⟨hchunks, rfl⟩⟩, ht, hs⟩
  | none =>
    obtain ⟨capacity, -, h⟩ := bind_eq_ok.1 h
    obtain ⟨⟨base, _⟩, hreserve, h⟩ := bind_eq_ok.1 h
    obtain ⟨r, hbump, h⟩ := bind_eq_ok.1 h
    cases r with
    | none => cases h
    | some r =>
      obtain ⟨⟨t', s''⟩, hgrant, h⟩ := bind_eq_ok.1 h
      cases h
      obtain ⟨hstart, hfit, hchunk⟩ := bump?_eq_ok hbump
      obtain ⟨hlimit, ht, hs⟩ := grant_eq_ok.1 hgrant
      rw [hchunk] at ht hs
      exact ⟨_, s.chunks, _, ⟨hstart, hfit, hlimit, .inr ⟨capacity, base, hreserve, rfl, rfl⟩⟩, ht, hs⟩

/-- **An allocation takes its bytes from the spare addresses and changes no settled byte.** -/
theorem allocate_eq_ok {t : Segment} (h : s.Sound m) (hrun : s.allocate m size alignment = .ok (t, s', m')) :
    s.Granted m size t s' m' ∧ s.HandsOut t s' := by
  obtain ⟨c, older, start, ⟨hstart, hfit, hlimit, hchunk⟩, rfl, rfl⟩ := draws_of_allocate hrun
  rcases hchunk with ⟨hchunks, rfl⟩ | ⟨capacity, base, hreserve, rfl, rfl⟩
  · refine ⟨(grant_gives h hchunks hstart hfit).elim (grant_eq_ok.2 ⟨hlimit, rfl, rfl⟩),
      ⟨_, List.mem_cons_self, rfl⟩, fun b hb => ?_⟩
    rw [hchunks] at hb
    simpa using hb
  · obtain ⟨hbase, hend, hm'⟩ := (reserve_gives m (by decide)).elim hreserve
    dsimp only at hbase hend hm'
    obtain ⟨hevolves, hbytes⟩ := addChunk_evolves h hbase hend
    rw [← hm'] at hevolves hbytes
    have hgranted := (grant_gives hevolves.sound rfl hstart hfit).elim (grant_eq_ok.2 ⟨hlimit, rfl, rfl⟩)
    refine ⟨⟨hevolves.trans hgranted.evolves, hgranted.length, hgranted.alive, hgranted.end_le,
      hgranted.end_lt_top,
      fun i hi => hevolves.spare _ (hgranted.fresh i hi), hgranted.taken, hbytes⟩, ⟨_, List.mem_cons_self, rfl⟩,
        fun b hb => ?_⟩
    exact List.mem_cons_of_mem _ hb

theorem bumpLatest?_gives (h : s.Sound m) {unit : Nat} (hunit : 0 < unit) (hunit' : unit ≤ 8) :
    Gives (s.bumpLatest? size unit) fun _ => True := by
  have hlimits : addressLimit + 16 < wordLimit := by decide
  unfold bumpLatest?
  split
  · trivial
  · next c older hchunks =>
    obtain ⟨hused, htop, -⟩ := h.chunks c (by simp [hchunks])
    have hlimit := h.memory.top_le
    obtain ⟨start, -, -, hbump⟩ := bump?_eq (c := c) hunit (by omega) size
    refine .bind (.of_eq (Q := fun _ => True) hbump trivial) fun r _ => ?_
    cases r <;> trivial

/-- **An allocation succeeds.**  The alignments of layouts are at most 8. -/
theorem allocate_gives (h : s.Sound m) (hsize : size + 8 < wordLimit) (halignment : alignment ≤ 8) :
    Gives (s.allocate m size alignment) fun r => s.Granted m size r.1 r.2.1 r.2.2 := by
  have hunit : 0 < max alignment 1 := by omega
  have hunit' : max alignment 1 ≤ 8 := by omega
  have hlimits : addressLimit + 16 < wordLimit := by decide
  refine .and_ok (Q := fun _ => True) ?_ fun r hr => (allocate_eq_ok h hr).1
  unfold allocate
  rw [if_neg (by simp [h.isOpen])]
  refine .bind ((bumpLatest?_gives h hunit hunit').and_ok fun r hr => hr) fun r hr => ?_
  split
  · next start chunk older =>
    obtain ⟨c, hchunks, rfl, hstart, hfit⟩ := bumpLatest?_eq_ok hr
    exact .bind (grant_gives h hchunks hstart hfit) fun _ _ => trivial
  · refine .bind (newChunkSize_gives h (by omega)) fun capacity hcapacity => ?_
    refine .bind (reserve_gives m (by decide)) ?_
    rintro ⟨base, m₁⟩ ⟨hbase, hlimit, -⟩
    dsimp only at hbase hlimit ⊢
    obtain ⟨start, hstart, hlt, hbump⟩ :=
      bump?_eq (c := ⟨base, bufferCapacity capacity, 0⟩) hunit (by dsimp only; omega) size
    dsimp only at hstart hlt
    have hfit : start + size ≤ bufferCapacity capacity := by
      unfold bufferCapacity
      omega
    rw [if_pos hfit] at hbump
    refine .bind (.of_eq hbump rfl) ?_
    rintro _ rfl
    have hgrant := grant_gives (addChunk_evolves h hbase hlimit).1.sound rfl hstart hfit
    exact .bind (x := s.grant size start _ s.chunks) hgrant fun _ _ => trivial

end Scratch

end ForeignCall
