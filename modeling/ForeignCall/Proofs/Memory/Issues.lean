import ForeignCall.Proofs.Memory.Ownership

/-!
# What an arena issues, and its end

* `Segment.CarvedFrom`: the segments in the chunks of an arena;
* `Scratch.Issues`: an arena hands out segments on requests, one after the other, whatever happens to memory
  in between. It counts their bytes (`Scratch.Issues.allocated`), and each lies in a chunk
  (`Scratch.Issues.carvedFrom`);
* `Segment.Dead`: no access to a segment reads or writes a byte;
* `Engine.dead_of_closeScratch`: when an arena is closed, all that was carved from it is dead.
-/

namespace ForeignCall

variable {σ : Type} {m m' : Memory} {s s' s'' : Scratch} {t : Segment} {given given' : List Segment}
  {requests requests' : List (Nat × Nat)} {size alignment : Nat}

/-! ### Reserving memory -/

namespace Memory

variable {r : Nat × Memory}

theorem power_of_reserve_eq_ok (h : m.reserve size alignment = .ok r) :
    max alignment 1 &&& (max alignment 1 - 1) = 0 := by
  by_contra hpower
  unfold reserve at h
  rw [if_pos (.inl hpower)] at h
  cases h

/-- Reserving memory changes nothing that was reserved before, and nothing where no allocation reaches. -/
theorem bytes_of_reserve (h : m.reserve size alignment = .ok r) {a : Nat} (ha : a < m.top ∨ addressLimit ≤ a) :
    r.2.bytes a = m.bytes a := by
  obtain ⟨hbase, hlimit, hr⟩ := (reserve_gives m (power_of_reserve_eq_ok h)).elim h
  rw [hr]
  exact if_neg (by omega)

end Memory

/-! ### Issuing segments -/

/-- The segment is scratch memory in a chunk of the arena. -/
def Segment.CarvedFrom (t : Segment) (s : Scratch) : Prop := ∃ c ∈ s.chunks, t.scope = .scratch c.base

/-- As long as an arena is sound, all that was carved from it is alive. -/
theorem Segment.CarvedFrom.isAlive (h : t.CarvedFrom s) (hs : s.Sound m) : t.isAlive m = true := by
  obtain ⟨c, hc, hscope⟩ := h
  exact (Segment.isAlive_iff_of_scratch hscope).2 (hs.chunks c hc).2.2

namespace Scratch

/-- What is handed out and counted, also by an arena in disorder. -/
theorem allocate_books (h : s.allocate m size alignment = .ok (t, s', m')) :
    s'.isOpen = s.isOpen ∧ s'.allocated = s.allocated + size ∧ t.length = size ∧ s.HandsOut t s' := by
  obtain ⟨c, older, start, hdraws, rfl, rfl⟩ := draws_of_allocate h
  refine ⟨rfl, rfl, rfl, ⟨_, List.mem_cons_self, rfl⟩, fun b hb => ?_⟩
  rcases hdraws.chunk with ⟨hchunks, -⟩ | ⟨_, _, -, -, rfl⟩
  · rw [hchunks] at hb
    simpa using hb
  · exact List.mem_cons_of_mem _ hb

theorem bytes_of_allocate (h : s.allocate m size alignment = .ok (t, s', m')) {a : Nat}
    (ha : a < m.top ∨ Memory.addressLimit ≤ a) : m'.bytes a = m.bytes a := by
  obtain ⟨c, older, start, hdraws, -, -⟩ := draws_of_allocate h
  rcases hdraws.chunk with ⟨-, rfl⟩ | ⟨_, _, hreserve, -, -⟩
  · rfl
  · exact Memory.bytes_of_reserve hreserve ha

/-- The arena hands out the segments on the requests for sizes and alignments, in their order, and comes to
be `s'`.  Each allocation may find memory as it likes. -/
inductive Issues : Scratch → List (Nat × Nat) → List Segment → Scratch → Prop
  | nil (s : Scratch) : Issues s [] [] s
  | cons {s s' s'' : Scratch} {m m' : Memory} {size alignment : Nat} {t : Segment} {requests : List (Nat × Nat)}
      {given : List Segment} : s.allocate m size alignment = .ok (t, s', m') → Issues s' requests given s'' →
      Issues s ((size, alignment) :: requests) (t :: given) s''

namespace Issues

theorem single (h : s.allocate m size alignment = .ok (t, s', m')) : s.Issues [(size, alignment)] [t] s' :=
  .cons h (.nil s')

theorem trans (h : s.Issues requests given s') (h' : s'.Issues requests' given' s'') :
    s.Issues (requests ++ requests') (given ++ given') s'' := by
  induction h with
  | nil s => exact h'
  | cons hrun _ ih => exact .cons hrun (ih h')

theorem lengths (h : s.Issues requests given s') : given.map Segment.length = requests.map Prod.fst := by
  induction h with
  | nil s => rfl
  | cons hrun _ ih => rw [List.map_cons, List.map_cons, ih, (allocate_books hrun).2.2.1]

/-- **The arena counts the bytes that it hands out.** -/
theorem allocated (h : s.Issues requests given s') :
    s'.allocated = s.allocated + (given.map Segment.length).sum := by
  induction h with
  | nil s => simp
  | cons hrun _ ih =>
    obtain ⟨-, hallocated, hlength, -⟩ := allocate_books hrun
    rw [ih, hallocated, List.map_cons, List.sum_cons, hlength, Nat.add_assoc]

theorem isOpen (h : s.Issues requests given s') : s'.isOpen = s.isOpen := by
  induction h with
  | nil s => rfl
  | cons hrun _ ih => rw [ih, (allocate_books hrun).1]

theorem kept (h : s.Issues requests given s') (ht : t.CarvedFrom s) : t.CarvedFrom s' := by
  induction h with
  | nil s => exact ht
  | cons hrun _ ih =>
    obtain ⟨c, hc, hscope⟩ := ht
    obtain ⟨c', hc', hbase⟩ := List.mem_map.1 ((allocate_books hrun).2.2.2.kept c.base (List.mem_map_of_mem hc))
    exact ih ⟨c', hc', hbase ▸ hscope⟩

theorem carvedFrom (h : s.Issues requests given s') : ∀ t ∈ given, t.CarvedFrom s' := by
  induction h with
  | nil s => simp
  | cons hrun hrest ih => exact List.forall_mem_cons.2 ⟨hrest.kept (allocate_books hrun).2.2.2.scope, ih⟩

end Issues

end Scratch

/-! ### Dead segments -/

namespace Segment

theorem of_allocate_eq_ok (h : allocate m size alignment = .ok (t, m')) :
    t.scope = .owned ∧ t.length = size ∧ m'.released = m.released ∧ (m.Sound → t.New m size m') := by
  obtain ⟨⟨base, m''⟩, hreserve, h'⟩ := bind_eq_ok.1 h
  have hpower := Memory.power_of_reserve_eq_ok hreserve
  refine ⟨?_, ?_, ?_, fun hm => (allocate_gives hm hpower).elim h⟩
  · cases h'
    rfl
  · cases h'
    rfl
  · cases h'
    have hm' : m' = _ := ((Memory.reserve_gives m hpower).elim hreserve).2.2
    rw [hm']
    rfl

theorem of_toOwned_eq_ok {u : Segment} (h : t.toOwned m = .ok (u, m')) :
    ∃ m'', allocate m t.length ownedAlignment = .ok (u, m'') ∧
      m' = m''.copy u.address.toNat t.address.toNat t.length := by
  obtain ⟨⟨u', m''⟩, hallocate, h⟩ := bind_eq_ok.1 h
  obtain ⟨_, hcopy, h⟩ := bind_eq_ok.1 h
  cases h
  exact ⟨m'', hallocate, (of_copyFrom_eq_ok hcopy).2.2⟩

end Segment

/-- Every access to the segment faults, whatever is in memory. -/
structure Segment.Dead (t : Segment) (m : Memory) : Prop where
  isAlive : t.isAlive m = false
  get : ∀ kind offset, t.get m kind offset = .error (.scopeClosed t.address)
  set : ∀ offset v,
    t.set m offset v = .error (if v.primitive?.isSome then .scopeClosed t.address else .notStorable v)
  take : ∀ n, t.take m n = .error (.scopeClosed t.address)
  bytes : t.bytes m = .error (.scopeClosed t.address)
  copyFrom : ∀ u, ∃ f, t.copyFrom m u = .error f
  copyTo : ∀ u : Segment, u.copyFrom m t = .error (.scopeClosed t.address)
  toOwned : ∃ f, t.toOwned m = .error f

theorem Segment.dead_of_released {b : Nat} (hscope : t.scope = .scratch b) (hb : b ∈ m.released) :
    t.Dead m := by
  have halive : t.isAlive m = false := Bool.eq_false_iff.2 fun h => (isAlive_iff_of_scratch hscope).1 h hb
  have hcheck (m' : Memory) (hm' : t.isAlive m' = false) (offset size : Nat) :
      t.check m' offset size = .error (.scopeClosed t.address) := if_pos hm'
  have hfails {α : Type} (offset size : Nat) (rest : Unit → Except Fault α) :
      (t.check m offset size >>= rest) = .error (.scopeClosed t.address) := by
    rw [hcheck m halive]
    rfl
  refine ⟨halive, fun _ _ => hfails _ _ _, fun offset v => ?_, fun _ => hfails _ _ _, hfails _ _ _, fun u => ?_,
    fun u => hfails _ _ _, ?_⟩
  · unfold set
    cases v.primitive? with
    | none => rfl
    | some kind => exact hfails _ _ _
  · unfold copyFrom
    cases u.check m 0 u.length with
    | error f => exact ⟨f, rfl⟩
    | ok _ => exact ⟨_, hfails _ _ _⟩
  · unfold toOwned
    cases hrun : allocate m t.length ownedAlignment with
    | error f => exact ⟨f, rfl⟩
    | ok r =>
      -- New memory gives no chunk back.
      have hdead : t.isAlive r.2 = false := (isAlive_congr (of_allocate_eq_ok hrun).2.2.1 t).trans halive
      refine ⟨.scopeClosed t.address, ?_⟩
      show (r.1.copyFrom r.2 t >>= _) = _
      rw [copyFrom, hcheck r.2 hdead]
      rfl

/-! ### The end of a call -/

namespace Engine

variable {k m n : Machine σ}

/-- Closing the arena of a call gives its chunks back and records what it has handed out. -/
theorem closeScratch_eq (h : k.scratch.isOpen = true) : closeScratch k =
    { k with
      scratch := { k.scratch with chunks := [], isOpen := false }
      memory := k.memory.release (k.scratch.chunks.map Chunk.base)
      log := k.log.push (.release k.scratch.allocated k.scratch.chunks.length) } := by
  unfold closeScratch Scratch.close
  rw [if_pos h, if_pos h]

/-- **All that was carved from the arena is dead** when it is closed, and stays so in any memory that has
got the chunks back. -/
theorem dead_of_closeScratch (h : k.scratch.isOpen = true) {later : Memory}
    (hlater : ∀ b ∈ (closeScratch k).memory.released, b ∈ later.released) (ht : t.CarvedFrom k.scratch) :
    t.Dead later := by
  obtain ⟨c, hc, hscope⟩ := ht
  refine Segment.dead_of_released hscope (hlater c.base ?_)
  rw [closeScratch_memory h]
  exact List.mem_append_left _ (List.mem_map_of_mem hc)

end Engine

end ForeignCall
