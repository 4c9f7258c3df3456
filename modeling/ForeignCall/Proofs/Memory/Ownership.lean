import ForeignCall.Proofs.Engine.Yields

/-!
# Memory that outlives a call

* `Memory.Extends`: what code from outside may do with memory while a call is waiting for it.  The arena of
  the call stays sound (`Scratch.Sound.extends`);
* `Memory.Grows`: what a call does with memory before it runs code from outside;
* `Memory.Sound.reserve`, `Segment.allocate_gives`: fresh memory, and segments in it that are no part of any
  arena (`Yields.allocateOwned`, `Yields.toOwned`);
* `Engine.closeScratch_extends`: closing an arena gives back nothing but its own chunks.
-/

namespace ForeignCall

variable {σ : Type} {m m' m'' : Memory} {s : Scratch} {size alignment : Nat} {chunks : List Nat}

namespace Memory

/-- Memory that comes from other memory by allocations and writes, and by giving chunks back that were not there
before. -/
structure Extends (m m' : Memory) : Prop where
  sound : m'.Sound
  top_le : m.top ≤ m'.top
  released : ∀ b ∈ m'.released, b ∈ m.released ∨ m.top ≤ b

namespace Extends

theorem refl (h : m.Sound) : m.Extends m := ⟨h, Nat.le_refl _, fun _ hb => .inl hb⟩

theorem trans (h : m.Extends m') (h' : m'.Extends m'') : m.Extends m'' := by
  refine ⟨h'.sound, Nat.le_trans h.top_le h'.top_le, fun b hb => ?_⟩
  rcases h'.released b hb with hb | hb
  · exact h.released b hb
  · exact .inr (Nat.le_trans h.top_le hb)

theorem release (h : m.Extends m') (hchunks : ∀ b ∈ chunks, m.top ≤ b ∧ b < m'.top) :
    m.Extends (m'.release chunks) := by
  refine ⟨⟨h.sound.top_le, fun b hb => ?_⟩, h.top_le, fun b hb => ?_⟩
  · rcases List.mem_append.1 hb with hb | hb
    · exact (hchunks b hb).2
    · exact h.sound.released_lt b hb
  · rcases List.mem_append.1 hb with hb | hb
    · exact .inr (hchunks b hb).1
    · exact h.released b hb

end Extends

/-- Memory that comes from other memory by reserving more of it: no byte that was reserved changes. -/
structure Grows (m m' : Memory) : Prop extends Extends m m' where
  bytes : ∀ a, ¬ (m.top ≤ a ∧ a < Memory.addressLimit) → m'.bytes a = m.bytes a

theorem Grows.trans (h : m.Grows m') (h' : m'.Grows m'') : m.Grows m'' := by
  refine ⟨h.toExtends.trans h'.toExtends, fun a ha => ?_⟩
  have hle := h.top_le
  rw [h'.bytes a (by omega), h.bytes a ha]

theorem Sound.copy (h : m.Sound) (target source n : Nat) : m.Extends (m.copy target source n) :=
  ⟨⟨h.top_le, h.released_lt⟩, Nat.le_refl _, fun _ hb => .inl hb⟩

end Memory

namespace Scratch

theorem Evolves.extends {s' : Scratch} (h : s.Evolves m s' m') : m.Extends m' := by
  refine ⟨h.sound.memory, h.top_le, fun b hb => .inl ?_⟩
  rwa [h.released] at hb

/-- An arena stays sound whatever code from outside does with memory. -/
theorem Sound.extends (h : s.Sound m) (hext : m.Extends m') : s.Sound m' := by
  refine ⟨h.isOpen, hext.sound, fun c hc => ?_, h.allocated_le, Nat.le_trans h.total_le hext.top_le⟩
  obtain ⟨hused, htop, hkept⟩ := h.chunks c hc
  have hle := hext.top_le
  refine ⟨hused, by omega, fun hb => ?_⟩
  rcases hext.released _ hb with hb | hb
  · exact hkept hb
  · omega

theorem Spare.of_extends {a : Nat} (h : s.Spare m' a) (hext : m.Extends m') : s.Spare m a := by
  have hle := hext.top_le
  rcases h with ⟨htop, hlimit⟩ | hchunk
  · exact .inl ⟨by omega, hlimit⟩
  · exact .inr hchunk

theorem Sound.evolves (h : s.Sound m) (hext : m.Extends m') (hreleased : m'.released = m.released) :
    s.Evolves m s m' :=
  ⟨h.extends hext, fun _ ha => ha.of_extends hext, hreleased, hext.top_le,
    fun _ hc => .inl (List.mem_map_of_mem hc)⟩

end Scratch

/-! ### Owned segments -/

/-- A fresh buffer lies above everything that was reserved before, which stays as it is. -/
theorem Memory.Sound.reserve (h : m.Sound) (hpower : max alignment 1 &&& (max alignment 1 - 1) = 0) :
    Gives (m.reserve size alignment) fun r => m.Grows r.2 ∧ r.2.released = m.released ∧ m.top ≤ r.1 ∧
      r.1 + bufferCapacity size < r.2.top := by
  refine .and_ok (m.reserve_gives hpower) fun r hr => ?_
  obtain ⟨base, m'⟩ := r
  obtain ⟨hbase, hlimit, hm'⟩ := (m.reserve_gives hpower).elim hr
  dsimp only at hbase hlimit hm'
  subst hm'
  refine ⟨⟨⟨⟨?_, fun b hb => ?_⟩, ?_, fun _ hb => .inl hb⟩, fun a ha => ?_⟩, rfl, hbase, ?_⟩
  · dsimp only
    omega
  · have := h.released_lt b hb
    dsimp only
    omega
  · dsimp only
    omega
  · show (m.clear base (bufferCapacity size)).bytes a = m.bytes a
    rw [bytes_clear, if_neg (by omega)]
  · dsimp only
    omega

/-- A new segment outside of all that was reserved before. -/
structure Segment.New (t : Segment) (m : Memory) (size : Nat) (m' : Memory) : Prop where
  scope : t.scope = .owned
  length : t.length = size
  memory : m.Grows m'
  released : m'.released = m.released
  top_le : m.top ≤ t.address.toNat
  end_lt_top : t.address.toNat + size < m'.top

theorem Segment.allocate_gives (h : m.Sound) (hpower : max alignment 1 &&& (max alignment 1 - 1) = 0) :
    Gives (Segment.allocate m size alignment) fun r => r.1.New m size r.2 := by
  refine .bind (h.reserve hpower) ?_
  rintro ⟨base, m'⟩ ⟨hgrows, hreleased, hbase, hend⟩
  dsimp only at hgrows hreleased hbase hend
  have hcapacity : size ≤ Memory.bufferCapacity size := Nat.le_max_left _ _
  have hlimits : Memory.addressLimit + 1 < wordLimit := by decide
  have htop := hgrows.sound.top_le
  have haddress : (BitVec.ofNat 64 base).toNat = base := toNat_ofNat_word (by omega)
  refine ⟨rfl, rfl, hgrows, hreleased, ?_, ?_⟩
  · dsimp only
    omega
  · dsimp only
    omega

variable {k : Machine σ} {t : Segment}

theorem Yields.allocateOwned {Q : Segment → Machine σ → Prop} (hk : k.memory.Sound)
    (hpower : max alignment 1 &&& (max alignment 1 - 1) = 0)
    (hQ : ∀ t m', t.New k.memory size m' → Q t { k with memory := m' }) :
    Yields (Engine.allocateOwned size alignment) k Q := by
  unfold Engine.allocateOwned
  refine bind (of_ok (Engine.get_apply k) (bind (lift (Segment.allocate_gives hk hpower) ?_)))
  rintro ⟨t, m'⟩ hnew
  exact hQ t m' hnew

theorem Segment.toOwned_gives {t : Segment} (h : m.Sound) (ht : t.isAlive m = true)
    (hkept : ∀ i < t.length, ¬ (m.top ≤ t.address.toNat + i ∧ t.address.toNat + i < Memory.addressLimit)) :
    Gives (t.toOwned m) fun r => r.1.scope = .owned ∧ r.1.length = t.length ∧
      ∀ i < t.length, r.2.bytes (r.1.address.toNat + i) = m.bytes (t.address.toNat + i) := by
  refine .bind (Segment.allocate_gives h (by decide)) ?_
  rintro ⟨copy, m'⟩ hnew
  have ht' : t.isAlive m' = true := (Segment.isAlive_congr hnew.released t).trans ht
  refine .bind (.of_eq
    (Segment.copyFrom_eq (Segment.isAlive_of_owned hnew.scope) ht' (Nat.le_of_eq hnew.length.symm)) rfl) ?_
  rintro _ rfl
  refine ⟨hnew.scope, hnew.length, fun i hi => ?_⟩
  dsimp only
  rw [Memory.bytes_copy, if_pos (by omega), show copy.address.toNat + i - copy.address.toNat = i by omega,
    hnew.memory.bytes _ (hkept i hi)]

theorem Yields.toOwned {Q : Segment → Machine σ → Prop} (hk : k.memory.Sound) (ht : t.isAlive k.memory = true)
    (hkept : ∀ i < t.length,
      ¬ (k.memory.top ≤ t.address.toNat + i ∧ t.address.toNat + i < Memory.addressLimit))
    (hQ : ∀ copy m', copy.scope = .owned → copy.length = t.length →
      (∀ i < t.length, m'.bytes (copy.address.toNat + i) = k.memory.bytes (t.address.toNat + i)) →
      Q copy { k with memory := m' }) : Yields (Engine.toOwned t) k Q := by
  unfold Engine.toOwned
  refine bind (of_ok (Engine.get_apply k) (bind (lift (Segment.toOwned_gives hk ht hkept) ?_)))
  rintro ⟨copy, m'⟩ ⟨hscope, hlength, hbytes⟩
  exact hQ copy m' hscope hlength hbytes

/-! ### Closing an arena -/

theorem Engine.closeScratch_memory (hk : k.scratch.isOpen = true) :
    (Engine.closeScratch k).memory = k.memory.release (k.scratch.chunks.map Chunk.base) := by
  unfold Engine.closeScratch Scratch.close
  rw [if_pos hk]

theorem Engine.closeScratch_frame (k : Machine σ) : (Engine.closeScratch k).frame = k.frame := rfl

theorem Engine.closeScratch_bytes (k : Machine σ) : (Engine.closeScratch k).memory.bytes = k.memory.bytes := by
  by_cases hopen : k.scratch.isOpen = true <;> simp [Engine.closeScratch, Scratch.close, hopen, Memory.release]

theorem Engine.closeScratch_extends (hk : k.scratch.Sound k.memory) (h : m.Extends k.memory)
    (hchunks : ∀ c ∈ k.scratch.chunks, m.top ≤ c.base) : m.Extends (Engine.closeScratch k).memory := by
  rw [closeScratch_memory hk.isOpen]
  refine h.release fun b hb => ?_
  obtain ⟨c, hc, rfl⟩ := List.mem_map.1 hb
  obtain ⟨-, htop, -⟩ := hk.chunks c hc
  exact ⟨hchunks c hc, by omega⟩

end ForeignCall
