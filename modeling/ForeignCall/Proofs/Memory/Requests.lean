import ForeignCall.Proofs.Engine.LeadsTo
import ForeignCall.Proofs.Memory.Allocation
import ForeignCall.Proofs.Memory.Segment

/-!
# Requests for scratch memory

* `Scratch.Serves`: an arena serves some requests one after the other.  What it hands out does not depend on
  what is in memory (`Scratch.Serves.congr`);
* `Scratch.Sound.serves`: a sound arena serves any requests at the alignments of layouts, unless memory is
  exhausted;
* `Segment.InScratch`: a segment in a chunk of an arena, which is alive as long as the arena is open.
-/

namespace ForeignCall

variable {σ α β γ δ : Type} {m m' : Memory} {s : Scratch} {size alignment : Nat} {F : Fault → Prop}

/-! ### Memory with other bytes -/

/-- The two give related values, or the same fault. -/
def Agrees (R : α → β → Prop) : Except Fault α → Except Fault β → Prop
  | .ok a, .ok b => R a b
  | .error f, .error g => f = g
  | _, _ => False

namespace Agrees

variable {R : α → β → Prop} {S : γ → δ → Prop} {x : Except Fault α} {y : Except Fault β}

theorem same (x : Except Fault α) : Agrees Eq x x := by
  cases x <;> rfl

theorem bind {f : α → Except Fault γ} {g : β → Except Fault δ} (h : Agrees R x y)
    (hf : ∀ a b, R a b → Agrees S (f a) (g b)) : Agrees S (x >>= f) (y >>= g) := by
  cases x <;> cases y
  · exact h
  · exact h.elim
  · exact h.elim
  · exact hf _ _ h

end Agrees

theorem Memory.reserve_congr (htop : m'.top = m.top) :
    Agrees (fun r r' => r.1 = r'.1 ∧ r.2.top = r'.2.top) (m'.reserve size alignment)
      (m.reserve size alignment) := by
  unfold reserve
  rw [htop]
  dsimp only
  split
  · rfl
  · split
    · exact ⟨rfl, rfl⟩
    · rfl

namespace Scratch

/-- Which memory is handed out does not depend on what is in it. -/
theorem allocate_congr (s : Scratch) (size alignment : Nat) (htop : m'.top = m.top) :
    Agrees (fun r r' => r.1 = r'.1 ∧ r.2.1 = r'.2.1 ∧ r.2.2.top = r'.2.2.top) (s.allocate m' size alignment)
      (s.allocate m size alignment) := by
  unfold allocate
  split
  · rfl
  refine .bind (.same _) ?_
  rintro r _ rfl
  split
  · refine .bind (.same _) ?_
    rintro r _ rfl
    exact ⟨rfl, rfl, htop⟩
  · refine .bind (.same _) ?_
    rintro capacity _ rfl
    refine .bind (Memory.reserve_congr htop) ?_
    rintro ⟨base, k'⟩ ⟨_, k⟩ ⟨rfl, hk⟩
    refine .bind (.same _) ?_
    rintro r _ rfl
    split
    · refine .bind (.same _) ?_
      rintro r _ rfl
      exact ⟨rfl, rfl, hk⟩
    · rfl

/-- The arena serves requests for sizes and alignments, one after the other.  One that it refuses ends in a
fault of `F`. -/
def Serves (F : Fault → Prop) : Scratch → Memory → List (Nat × Nat) → Prop
  | _, _, [] => True
  | s, m, (size, alignment) :: rest =>
    match s.allocate m size alignment with
    | .ok (_, s', m') => Serves F s' m' rest
    | .error f => F f

theorem Serves.congr {requests : List (Nat × Nat)} (h : s.Serves F m requests) (htop : m'.top = m.top) :
    s.Serves F m' requests := by
  induction requests generalizing s m m' with
  | nil => trivial
  | cons request requests ih =>
    obtain ⟨size, alignment⟩ := request
    have hagrees := allocate_congr s size alignment htop
    unfold Serves at h ⊢
    generalize s.allocate m size alignment = x at h hagrees
    generalize s.allocate m' size alignment = x' at hagrees ⊢
    cases x <;> cases x'
    · exact hagrees ▸ h
    · exact hagrees.elim
    · exact hagrees.elim
    · obtain ⟨-, hs, hk⟩ := hagrees
      dsimp only at h ⊢
      rw [hs]
      exact ih h hk

theorem Sound.serves (h : s.Sound m) (requests : List (Nat × Nat))
    (hrequests : ∀ r ∈ requests, r.1 + 8 < wordLimit ∧ r.2 ≤ 8) :
    s.Serves (fun f => f.isExhaustion = true) m requests := by
  induction requests generalizing s m with
  | nil => trivial
  | cons request requests ih =>
    obtain ⟨size, alignment⟩ := request
    obtain ⟨hsize, halignment⟩ := hrequests (size, alignment) (by simp)
    have hgives := allocate_gives h hsize halignment
    unfold Serves
    generalize s.allocate m size alignment = x at hgives
    cases x with
    | error f => exact hgives
    | ok r => exact ih hgives.evolves.sound fun r hr => hrequests r (List.mem_cons_of_mem _ hr)

end Scratch

/-! ### Segments in scratch memory -/

/-- The segment has `n` bytes in a chunk of the arena, below the end of reserved memory. -/
structure Segment.InScratch (s : Scratch) (m : Memory) (t : Segment) (n : Nat) : Prop where
  length : t.length = n
  scope : ∃ c ∈ s.chunks, t.scope = .scratch c.base
  end_le : t.address.toNat + n ≤ m.top

namespace Segment.InScratch

variable {t : Segment} {n : Nat} {s' : Scratch}

theorem valid (h : t.InScratch s m n) (hs : s.Sound m) : t.Valid m := by
  obtain ⟨c, hc, hscope⟩ := h.scope
  have hlimits : Memory.addressLimit + 1 ≤ wordLimit := by decide
  have htop := hs.memory.top_le
  have hend := h.end_le
  have hlength := h.length
  exact ⟨(isAlive_iff_of_scratch hscope).2 (hs.chunks c hc).2.2, by omega⟩

theorem mono (h : t.InScratch s m n) (hkept : ∀ b ∈ s.chunks.map Chunk.base, b ∈ s'.chunks.map Chunk.base)
    (htop : m.top ≤ m'.top) : t.InScratch s' m' n := by
  obtain ⟨c, hc, hscope⟩ := h.scope
  obtain ⟨c', hc', heq⟩ := List.mem_map.1 (hkept c.base (List.mem_map_of_mem hc))
  exact ⟨h.length, ⟨c', hc', heq ▸ hscope⟩, Nat.le_trans h.end_le htop⟩

end Segment.InScratch

theorem Scratch.Granted.valid {t : Segment} {s' : Scratch} (h : s.Granted m size t s' m') : t.Valid m' := by
  have hlimits : Memory.addressLimit < wordLimit := by decide
  have hend := h.end_le
  have hlength := h.length
  exact ⟨h.alive, by omega⟩

theorem Scratch.Granted.inScratch {t : Segment} {s' : Scratch} (h : s.Granted m size t s' m')
    (hout : s.HandsOut t s') :
    t.InScratch s' m' size :=
  ⟨h.length, hout.scope, Nat.le_of_lt h.end_lt_top⟩

/-! ### Allocating -/

/-- Whatever is handed out has the size that was asked for, also by an arena in disorder. -/
theorem Scratch.allocate_length {t : Segment} {s' : Scratch}
    (h : s.allocate m size alignment = .ok (t, s', m')) :
    t.length = size ∧ size < wordLimit := by
  obtain ⟨c, older, start, hdraws, rfl, -⟩ := draws_of_allocate h
  have hlimit := hdraws.grants
  exact ⟨rfl, by omega⟩

theorem Engine.allocateScratch_length {m n : Machine σ} {t : Segment}
    (h : Engine.allocateScratch size alignment m = .ok t n) :
    t.length = size ∧ size < wordLimit := by
  unfold allocateScratch at h
  obtain ⟨_, _, -, h⟩ := bind_eq_ok.1 h
  split at h
  -- An open arena first records a new chunk; all else is the same for a closed one.
  case' isTrue => obtain ⟨⟨⟩, _, -, h⟩ := bind_eq_ok.1 h
  all_goals
    obtain ⟨_, _, -, h⟩ := bind_eq_ok.1 h
    obtain ⟨⟨t', s', memory'⟩, _, hallocate, h⟩ := bind_eq_ok.1 h
    obtain ⟨⟨⟩, _, -, h⟩ := bind_eq_ok.1 h
    obtain ⟨⟨⟩, _, -, h⟩ := bind_eq_ok.1 h
    cases h
    exact Scratch.allocate_length (lift_eq_ok.1 hallocate).1

theorem LeadsTo.allocateScratch {m : Machine σ} {rest : List (Nat × Nat)} (hm : m.scratch.Sound m.memory)
    (h : m.scratch.Serves F m.memory ((size, alignment) :: rest)) :
    LeadsTo F (Engine.allocateScratch size alignment) m fun t n => n.frame = m.frame ∧ n.world = m.world ∧
      m.scratch.Granted m.memory size t n.scratch n.memory ∧ m.scratch.HandsOut t n.scratch ∧
        n.scratch.Serves F n.memory rest := by
  unfold Engine.allocateScratch
  refine bind (of_ok (Engine.get_apply m) ?_)
  rw [if_pos hm.isOpen]
  refine andThen (recordChunk size alignment m) ?_
  rintro _ _ ⟨log, rfl⟩
  refine bind (of_ok (Engine.get_apply _) ?_)
  unfold Scratch.Serves at h
  dsimp only
  cases hrun : m.scratch.allocate m.memory size alignment with
  | error f =>
    rw [hrun] at h
    exact h
  | ok r =>
    obtain ⟨t, s, memory⟩ := r
    rw [hrun] at h
    obtain ⟨hgranted, hout⟩ := Scratch.allocate_eq_ok hm hrun
    exact ⟨rfl, rfl, hgranted, hout, h⟩

end ForeignCall
