import ForeignCall.Interpreter
import ForeignCall.Proofs.Arrangement.Placement
import ForeignCall.Proofs.Engine.Yields
import ForeignCall.Proofs.Frame

/-!
# What moving values does to a machine

* `Marshals m n`: `n` comes from `m` by moving values.  The scratch arena has evolved, and settled bytes are the
  same;
* `Writes ss m n`: `n` comes from `m` by writing the storages `ss` and nothing else, and `MovesInto ss m n` by
  moving values that end up there;
* `Fills t m n`: `n` comes from `m` by writing inside the segment `t`;
* `Segment.Live`: a segment whose bytes no allocation will hand out;
* `Placement.Holds`: the storages of a placement hold a value, and `Value.IsCopy`: a value is a copy of another.
-/

namespace ForeignCall

variable {σ : Type} {m n k : Machine σ} {ss ts : List Storage} {s t : Storage} {w : Word} {l : Layout}

/-! ### Machines -/

/-- The arena of the machine is open and sound. -/
def Machine.Ready (m : Machine σ) : Prop := m.scratch.Sound m.memory

/-- The arena of the machine will not hand out any of the `size` bytes from `a` on. -/
def Machine.Settled (m : Machine σ) (a size : Nat) : Prop := ∀ i < size, ¬ m.scratch.Spare m.memory (a + i)

/-- `n` comes from `m` by moving values. -/
structure Marshals (m n : Machine σ) : Prop where
  world : n.world = m.world
  evolves : m.scratch.Evolves m.memory n.scratch n.memory
  bytes : ∀ a, ¬ m.scratch.Spare m.memory a → n.memory.bytes a = m.memory.bytes a

namespace Marshals

theorem refl (h : m.Ready) : Marshals m m := ⟨rfl, h.evolves_refl, fun _ _ => rfl⟩

theorem withLog (h : m.Ready) (log : Array LogEvent) : Marshals m { m with log := log } :=
  ⟨rfl, h.evolves_refl, fun _ _ => rfl⟩

theorem trans (h : Marshals m n) (h' : Marshals n k) : Marshals m k := by
  refine ⟨h'.world.trans h.world, h.evolves.trans h'.evolves, fun a ha => ?_⟩
  rw [h'.bytes a fun hs => ha (h.evolves.spare a hs), h.bytes a ha]

theorem ready (h : Marshals m n) : n.Ready := h.evolves.sound

theorem settled {a size : Nat} (h : Marshals m n) (hs : m.Settled a size) : n.Settled a size :=
  fun i hi hn => hs i hi (h.evolves.spare _ hn)

theorem bytes_settled {a size i : Nat} (h : Marshals m n) (hs : m.Settled a size) (hi : i < size) :
    n.memory.bytes (a + i) = m.memory.bytes (a + i) := h.bytes _ (hs i hi)

theorem isAlive (h : Marshals m n) (s : Segment) : s.isAlive n.memory = s.isAlive m.memory :=
  Segment.isAlive_congr h.evolves.released s

end Marshals

/-- `n` comes from `m` by writing some storages. -/
structure Writes (ss : List Storage) (m n : Machine σ) : Prop where
  memory : n.memory = m.memory
  scratch : n.scratch = m.scratch
  world : n.world = m.world
  layout : n.frame.layout = m.frame.layout
  others : ∀ i, (∀ s ∈ ss, ¬ m.frame.layout.WordOf s i) → n.frame.words[i]? = m.frame.words[i]?

/-- `n` comes from `m` by moving values into some storages. -/
structure MovesInto (ss : List Storage) (m n : Machine σ) : Prop where
  marshals : Marshals m n
  layout : n.frame.layout = m.frame.layout
  words : ∀ t, (∀ s ∈ ss, m.frame.layout.Apart s t) → n.frame.wordAt t = m.frame.wordAt t

theorem Marshals.movesInto (h : Marshals m n) (hframe : n.frame = m.frame) : MovesInto [] m n :=
  ⟨h, by rw [hframe], fun t _ => by rw [hframe]⟩

namespace Writes

theorem refl (m : Machine σ) : Writes [] m m := ⟨rfl, rfl, rfl, rfl, fun _ _ => rfl⟩

theorem record (e : LogEvent) (h : Writes ss { m with log := m.log.push e } n) : Writes ss m n :=
  ⟨h.memory, h.scratch, h.world, h.layout, h.others⟩

theorem trans (h : Writes ss m n) (h' : Writes ts n k) : Writes (ss ++ ts) m k := by
  refine ⟨h'.memory.trans h.memory, h'.scratch.trans h.scratch, h'.world.trans h.world,
    h'.layout.trans h.layout, ?_⟩
  intro i hi
  rw [h'.others i fun s hs => h.layout ▸ hi s (by simp [hs]), h.others i fun s hs => hi s (by simp [hs])]

theorem words (h : Writes ss m n) (t : Storage) (ht : ∀ s ∈ ss, m.frame.layout.Apart s t) :
    n.frame.wordAt t = m.frame.wordAt t := by
  refine Frame.wordAt_congr h.layout ?_
  rintro _ ⟨o, ho, rfl⟩
  refine h.others _ fun s hs => ?_
  rintro ⟨o', ho', heq⟩
  exact ht s hs o' o ho' ho heq

theorem marshals (h : Writes ss m n) (hm : m.Ready) : Marshals m n := by
  refine ⟨h.world, ?_, fun a _ => by rw [h.memory]⟩
  rw [h.memory, h.scratch]
  exact hm.evolves_refl

theorem movesInto (h : Writes ss m n) (hm : m.Ready) : MovesInto ss m n := ⟨h.marshals hm, h.layout, h.words⟩

theorem setWord {offset : Nat} (ho : m.frame.layout.offset? s = some offset) :
    Writes [s] m { m with frame := m.frame.setWord offset w } :=
  ⟨rfl, rfl, rfl, rfl, fun _ hi => Frame.words_setWord ho (hi s (by simp))⟩

end Writes

theorem MovesInto.record (e : LogEvent) (h : MovesInto ss { m with log := m.log.push e } n) :
    MovesInto ss m n :=
  ⟨⟨h.marshals.world, h.marshals.evolves, h.marshals.bytes⟩, h.layout, h.words⟩

theorem MovesInto.trans (h : MovesInto ss m n) (h' : MovesInto ts n k) : MovesInto (ss ++ ts) m k := by
  refine ⟨h.marshals.trans h'.marshals, h'.layout.trans h.layout, fun t ht => ?_⟩
  rw [h'.words t fun s hs => h.layout ▸ ht s (by simp [hs]), h.words t fun s hs => ht s (by simp [hs])]

/-! ### Segments -/

/-- An arena without chunks hands out nothing that is reserved. -/
theorem Memory.Reserved.settled {a size : Nat} (h : m.memory.Reserved a size)
    (hscratch : m.scratch.chunks = []) :
    m.Settled a size := by
  intro i hi hspare
  have hfree := (Scratch.spare_iff hscratch).1 hspare
  rcases h with hle | hle <;> omega

/-- A segment that is alive and whose bytes are not for allocation. -/
structure Segment.Live (s : Segment) (m : Machine σ) : Prop where
  valid : s.Valid m.memory
  reserved : m.memory.Reserved s.address.toNat s.length
  settled : m.Settled s.address.toNat s.length

theorem Segment.Valid.live {s : Segment} (h : s.Valid m.memory)
    (hreserved : m.memory.Reserved s.address.toNat s.length) (hscratch : m.scratch.chunks = []) :
    s.Live m :=
  ⟨h, hreserved, hreserved.settled hscratch⟩

theorem Segment.Live.marshals {s : Segment} (h : s.Live m) (hmn : Marshals m n) : s.Live n := by
  refine ⟨⟨(hmn.isAlive s).trans h.valid.alive, h.valid.end_le⟩, ?_, hmn.settled h.settled⟩
  exact h.reserved.mono hmn.evolves.top_le

theorem Segment.Live.length_lt {s : Segment} (h : s.Live m) (hm : m.Ready) : s.length + 8 < wordLimit := by
  have htop := hm.memory.top_le
  have hend := h.valid.end_le
  have hlimit : 8 < Memory.addressLimit ∧ Memory.addressLimit + 9 < wordLimit := by decide
  rcases h.reserved with hle | hle <;> omega

/-! ### Filling a new segment -/

/-- `n` comes from `m` by writing inside a segment. -/
structure Fills (t : Segment) (m n : Machine σ) : Prop where
  frame : n.frame = m.frame
  scratch : n.scratch = m.scratch
  world : n.world = m.world
  top : n.memory.top = m.memory.top
  released : n.memory.released = m.memory.released
  bytes : ∀ a, ¬ (t.address.toNat ≤ a ∧ a < t.address.toNat + t.length) → n.memory.bytes a = m.memory.bytes a

namespace Fills

variable {t : Segment} {size : Nat}

theorem refl (t : Segment) (m : Machine σ) : Fills t m m := ⟨rfl, rfl, rfl, rfl, rfl, fun _ _ => rfl⟩

theorem trans (h : Fills t m n) (h' : Fills t n k) : Fills t m k := by
  refine ⟨h'.frame.trans h.frame, h'.scratch.trans h.scratch, h'.world.trans h.world, h'.top.trans h.top,
    h'.released.trans h.released, fun a ha => ?_⟩
  rw [h'.bytes a ha, h.bytes a ha]

theorem spare (h : Fills t m n) (a : Nat) : n.scratch.Spare n.memory a ↔ m.scratch.Spare m.memory a := by
  unfold Scratch.Spare
  rw [h.scratch, h.top]

theorem store {offset width : Nat} (h : offset + width ≤ t.length) (value : Nat) (log : Array LogEvent) :
    Fills t m { m with memory := m.memory.store (t.address.toNat + offset) width value, log := log } := by
  refine ⟨rfl, rfl, rfl, rfl, rfl, fun b hb => ?_⟩
  rw [Memory.bytes_store, if_neg (by omega)]

theorem copy (source : Nat) (h : size ≤ t.length) :
    Fills t m { m with memory := m.memory.copy t.address.toNat source size } := by
  refine ⟨rfl, rfl, rfl, rfl, rfl, fun b hb => ?_⟩
  rw [Memory.bytes_copy, if_neg (by omega)]

theorem isAlive (h : Fills t m n) (s : Segment) : s.isAlive n.memory = s.isAlive m.memory :=
  Segment.isAlive_congr h.released s

theorem valid {s : Segment} (h : Fills t m n) (hs : s.Valid m.memory) : s.Valid n.memory :=
  ⟨(h.isAlive s).trans hs.alive, hs.end_le⟩

theorem ready (h : Fills t m n) (hm : m.Ready) : n.Ready := by
  have hmemory : n.memory.Sound := by
    refine ⟨?_, ?_⟩
    · rw [h.top]
      exact hm.memory.top_le
    · rw [h.top, h.released]
      exact hm.memory.released_lt
  refine ⟨?_, hmemory, ?_, ?_, ?_⟩ <;> rw [h.scratch]
  · exact hm.isOpen
  · rw [h.top, h.released]
    exact hm.chunks
  · exact hm.allocated_le
  · rw [h.top]
    exact hm.total_le

theorem evolves (h : Fills t m n) (hm : m.Ready) : m.scratch.Evolves m.memory n.scratch n.memory := by
  refine ⟨h.ready hm, fun a ha => (h.spare a).1 ha, h.released, Nat.le_of_eq h.top.symm, fun c hc => .inl ?_⟩
  rw [h.scratch] at hc
  exact List.mem_map_of_mem hc

/-- Reserving a segment and filling it leaves settled bytes alone. -/
theorem marshals (h : Fills t n k) (hworld : n.world = m.world)
    (hgranted : m.scratch.Granted m.memory size t n.scratch n.memory) : Marshals m k := by
  refine ⟨h.world.trans hworld, hgranted.evolves.trans (h.evolves hgranted.evolves.sound), fun a ha => ?_⟩
  rw [h.bytes a, hgranted.bytes a ha]
  rintro ⟨hle, hlt⟩
  rw [hgranted.length] at hlt
  have hfresh := hgranted.fresh (a - t.address.toNat) (by omega)
  rw [show t.address.toNat + (a - t.address.toNat) = a by omega] at hfresh
  exact ha hfresh

theorem settled (h : Fills t n k) (hgranted : m.scratch.Granted m.memory size t n.scratch n.memory) :
    k.Settled t.address.toNat size :=
  fun i hi hs => hgranted.taken i hi ((h.spare _).1 hs)

end Fills

/-! ### Values in storages -/

/-- The value has the carrier of the layout, and a segment covers it. -/
structure Value.Fits (v : Value) (l : Layout) : Prop where
  carrier : v.carrier? = some l.carrier
  length : ∀ s, v = .segment s → ∃ size, l.byteSize = .ok size ∧ size ≤ s.length

theorem Value.Fits.segment {v : Value} (h : v.Fits l) (haggregate : l.isAggregate = true) :
    ∃ segment size, v = .segment segment ∧ l.byteSize = .ok size ∧ size ≤ segment.length := by
  have hcarrier : l.carrier = .segment := by simpa [Layout.isAggregate] using haggregate
  obtain ⟨segment, rfl⟩ := Value.carrier?_eq_segment.1 (hcarrier ▸ h.carrier)
  obtain ⟨size, hsize, hle⟩ := h.length segment rfl
  exact ⟨segment, size, rfl, hsize, hle⟩

/-- The storages of a placement hold a value of the layout, with the bytes that its segment has in the
memory `m₀`. -/
def Placement.Holds (l : Layout) (v : Value) (m₀ : Memory) (m : Machine σ) : Placement → Prop
  | .whole s =>
    match l with
    | .value kind => kind.decode (m.frame.wordAt s) = v
    | _ => Value.address (m.frame.wordAt s) = v
  | .pieces ps => ∃ s, v = .segment s ∧
      ∀ p ∈ ps, p.kind.decode (m.frame.wordAt p.storage) = m₀.field p.kind (s.address.toNat + p.offset)
  | .reference r => ∃ s size, v = .segment s ∧ l.byteSize = .ok size ∧ m.Settled (m.frame.wordAt r).toNat size ∧
      m.memory.Reserved (m.frame.wordAt r).toNat size ∧
      ∀ i < size, m.memory.bytes ((m.frame.wordAt r).toNat + i) = m₀.bytes (s.address.toNat + i)

/-- The value is the same, or a segment of exactly the bytes that the other one has in the memory `m₀`. -/
def Value.IsCopy (l : Layout) (v v' : Value) (m₀ : Memory) (m : Machine σ) : Prop :=
  match v with
  | .segment s =>
    ∃ t size, v' = .segment t ∧ l.byteSize = .ok size ∧ t.length = size ∧ t.isAlive m.memory = true ∧
      m.Settled t.address.toNat size ∧
      ∀ i < size, m.memory.bytes (t.address.toNat + i) = m₀.bytes (s.address.toNat + i)
  | v => v' = v

theorem Value.isCopy_self {v : Value} (h : ∀ s, v ≠ .segment s) (m₀ : Memory) (m : Machine σ) :
    v.IsCopy l v m₀ m := by
  cases v with
  | segment s => exact absurd rfl (h s)
  | _ => rfl

theorem Value.IsCopy.marshals {v v' : Value} {m₀ : Memory} (h : v.IsCopy l v' m₀ m) (hmn : Marshals m n) :
    v.IsCopy l v' m₀ n := by
  cases v with
  | segment s =>
    obtain ⟨t, size, rfl, hsize, hlength, halive, hsettled, hbytes⟩ := h
    refine ⟨t, size, rfl, hsize, hlength, (hmn.isAlive t).trans halive, hmn.settled hsettled, fun i hi => ?_⟩
    rw [hmn.bytes_settled hsettled hi, hbytes i hi]
  | _ => exact h

/-- Storages that hold a value keep holding it while other values move. -/
theorem Placement.Holds.marshals {p : Placement} {v : Value} {m₀ : Memory} (h : p.Holds l v m₀ m)
    (hmn : Marshals m n) (hwords : ∀ s ∈ p.storages, n.frame.wordAt s = m.frame.wordAt s) :
    p.Holds l v m₀ n := by
  cases p with
  | whole s =>
    have hs := hwords s (by simp [storages])
    cases l <;> simpa only [Holds, hs] using h
  | pieces ps =>
    obtain ⟨s, rfl, hps⟩ := h
    refine ⟨s, rfl, fun p hp => ?_⟩
    rw [hwords p.storage (List.mem_map_of_mem hp), hps p hp]
  | reference r =>
    obtain ⟨s, size, rfl, hsize, hsettled, hreserved, hbytes⟩ := h
    refine ⟨s, size, rfl, hsize, ?_⟩
    rw [hwords r (by simp [storages])]
    refine ⟨hmn.settled hsettled, hreserved.mono hmn.evolves.top_le, fun i hi => ?_⟩
    rw [hmn.bytes_settled hsettled hi, hbytes i hi]

end ForeignCall
