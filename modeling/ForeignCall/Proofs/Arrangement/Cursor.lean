import ForeignCall.Arrangement.Basic
import ForeignCall.Proofs.Stopping

/-!
# What a cursor gives out

* `Cursor.Takes`, `Cursor.Gives`: the storages that a cursor gives out one after the other, and the cursor
  behind them;
* `Cursor.Gives.between`: each of them lies between the two cursors;
* `Cursor.Gives.pairwise`: no two of them are at one location, as long as the stack slots have indices of 16
  bits;
* `Cursor.scalar_eq_ok` and its kin: the operations of an arrangement give out storages.
-/

namespace ForeignCall.Cursor

variable {c c' c₁ c₂ c₃ : Cursor} {s t : Storage} {ss ts : List Storage} {kind : Primitive}

/-- A cursor gives out the next storage of a class. -/
inductive Takes : Cursor → Storage → Cursor → Prop
  | integer {c : Cursor} : c.integers < c.convention.slotCount c.integerClass →
      Takes c (Storage.slot c.integerClass c.integers (Convention.slotWidth c.integerClass))
        { c with integers := c.integers + 1 }
  | vector {c : Cursor} : c.vectors < c.convention.slotCount c.vectorClass →
      Takes c (Storage.slot c.vectorClass c.vectors (Convention.slotWidth c.vectorClass))
        { c with vectors := c.vectors + 1 }
  | stack {c : Cursor} : Takes c (Convention.stackSlot c.stack) { c with stack := c.stack + 1 }

/-- A cursor gives out storages one after the other.  In between it may leave no register of a class free. -/
inductive Gives : Cursor → List Storage → Cursor → Prop
  | nil {c : Cursor} : Gives c [] c
  | cons {c next c' : Cursor} {s : Storage} {ss : List Storage} :
      Takes c s next → Gives next ss c' → Gives c (s :: ss) c'
  | exhaustIntegers {c c' : Cursor} {ss : List Storage} : Gives c.exhaustIntegers ss c' → Gives c ss c'
  | exhaustVectors {c c' : Cursor} {ss : List Storage} : Gives c.exhaustVectors ss c' → Gives c ss c'

/-- The classes of the cursor are those of arguments or of results, and it has not given out more registers
than there are. -/
structure Sound (c : Cursor) : Prop where
  classes : c.integerClass = .integerArg ∧ c.vectorClass = .vectorArg ∨
    c.integerClass = .integerRet ∧ c.vectorClass = .vectorRet
  integers_le : c.integers ≤ c.convention.slotCount c.integerClass
  vectors_le : c.vectors ≤ c.convention.slotCount c.vectorClass

/-- A later cursor of the same side. -/
structure Before (c c' : Cursor) : Prop where
  convention : c'.convention = c.convention
  integerClass : c'.integerClass = c.integerClass
  vectorClass : c'.vectorClass = c.vectorClass
  integers : c.integers ≤ c'.integers
  vectors : c.vectors ≤ c'.vectors
  stack : c.stack ≤ c'.stack

/-- The storage is given out between two cursors. -/
def Between (c c' : Cursor) (s : Storage) : Prop :=
  (s.kind = c.integerClass ∧ c.integers ≤ s.index.toNat ∧ s.index.toNat < c'.integers) ∨
  (s.kind = c.vectorClass ∧ c.vectors ≤ s.index.toNat ∧ s.index.toNat < c'.vectors) ∨
  (s.kind = .stack ∧ c.stack ≤ s.index.toNat ∧ s.index.toNat < c'.stack)

theorem arguments_sound (c : Convention) : (arguments c).Sound :=
  ⟨.inl ⟨rfl, rfl⟩, Nat.zero_le _, Nat.zero_le _⟩

theorem results_sound (c : Convention) : (results c).Sound := ⟨.inr ⟨rfl, rfl⟩, Nat.zero_le _, Nat.zero_le _⟩

theorem Before.refl (c : Cursor) : c.Before c := ⟨rfl, rfl, rfl, Nat.le_refl _, Nat.le_refl _, Nat.le_refl _⟩

theorem Before.trans (h : c₁.Before c₂) (h' : c₂.Before c₃) : c₁.Before c₃ :=
  ⟨h'.convention.trans h.convention, h'.integerClass.trans h.integerClass, h'.vectorClass.trans h.vectorClass,
    Nat.le_trans h.integers h'.integers, Nat.le_trans h.vectors h'.vectors, Nat.le_trans h.stack h'.stack⟩

theorem Between.mono (h : Between c₁ c₂ s) (hle : c.Before c₁) (hle' : c₂.Before c') : Between c c' s := by
  have := hle.integers
  have := hle.vectors
  have := hle.stack
  have := hle'.integers
  have := hle'.vectors
  have := hle'.stack
  rcases h with ⟨hkind, _, _⟩ | ⟨hkind, _, _⟩ | ⟨hkind, _, _⟩
  · exact .inl ⟨hkind.trans hle.integerClass, by omega, by omega⟩
  · exact .inr (.inl ⟨hkind.trans hle.vectorClass, by omega, by omega⟩)
  · exact .inr (.inr ⟨hkind, by omega, by omega⟩)

/-! ### One storage -/

namespace Takes

theorem before (h : Takes c s c') (hc : c.Sound) : c'.Sound ∧ c.Before c' := by
  cases h with
  | integer hlt =>
    exact ⟨⟨hc.classes, hlt, hc.vectors_le⟩, rfl, rfl, rfl, Nat.le_succ _, Nat.le_refl _, Nat.le_refl _⟩
  | vector hlt =>
    exact ⟨⟨hc.classes, hc.integers_le, hlt⟩, rfl, rfl, rfl, Nat.le_refl _, Nat.le_succ _, Nat.le_refl _⟩
  | stack =>
    exact ⟨⟨hc.classes, hc.integers_le, hc.vectors_le⟩, rfl, rfl, rfl, Nat.le_refl _, Nat.le_refl _,
      Nat.le_succ _⟩

theorem between (h : Takes c s c') (hstack : c'.stack ≤ 65536) : Between c c' s := by
  cases h with
  | integer hlt =>
    have := c.convention.slotCount_le c.integerClass
    refine .inl ⟨rfl, ?_⟩
    rw [Storage.toNat_index_slot (by omega)]
    exact ⟨Nat.le_refl _, Nat.lt_succ_self _⟩
  | vector hlt =>
    have := c.convention.slotCount_le c.vectorClass
    refine .inr (.inl ⟨rfl, ?_⟩)
    rw [Storage.toNat_index_slot (by omega)]
    exact ⟨Nat.le_refl _, Nat.lt_succ_self _⟩
  | stack =>
    refine .inr (.inr ⟨rfl, ?_⟩)
    rw [Convention.stackSlot, Storage.toNat_index_slot hstack]
    exact ⟨Nat.le_refl _, Nat.lt_succ_self _⟩

/-- What a cursor gives out next is not at the location of anything later. -/
theorem apart (h : Takes c s c₁) (hc : c.Sound) (hstack : c₁.stack ≤ 65536) (ht : Between c₁ c₂ t) :
    s.sameLocation t = false := by
  rw [Bool.eq_false_iff]
  intro hsame
  obtain ⟨hkind, hindex⟩ := Storage.sameLocation_eq_true.1 hsame
  have hs := h.between hstack
  have hbefore := (h.before hc).2
  unfold Between at hs ht
  rw [hbefore.integerClass, hbefore.vectorClass, ← hkind, ← hindex] at ht
  -- Both lie in one class, whose counter has passed the index of the first before the second is given out.
  rcases hc.classes with ⟨hi, hv⟩ | ⟨hi, hv⟩ <;> rw [hi, hv] at hs ht <;> cases hk : s.kind <;>
    simp [hk] at hs ht <;>
    omega

theorem stack_le (h : Takes c s c') : c'.stack ≤ c.stack + 1 := by
  cases h with
  | stack => exact Nat.le_refl _
  | _ => exact Nat.le_succ _

theorem freeVectors_le (h : Takes c s c') : c.freeVectors ≤ c'.freeVectors + 1 := by
  unfold freeVectors
  cases h with
  | vector =>
    dsimp only
    omega
  | _ => exact Nat.le_succ _

theorem stack_eq (h : Takes c s c') (hc : c.Sound) : c'.stack = c.stack + if s.kind = .stack then 1 else 0 := by
  cases h with
  | integer =>
    rcases hc.classes with ⟨hi, -⟩ | ⟨hi, -⟩ <;> simp [Storage.slot, hi]
  | vector =>
    rcases hc.classes with ⟨-, hv⟩ | ⟨-, hv⟩ <;> simp [Storage.slot, hv]
  | stack => rfl

end Takes

theorem exhaustIntegers_before (hc : c.Sound) : c.exhaustIntegers.Sound ∧ c.Before c.exhaustIntegers :=
  ⟨⟨hc.classes, Nat.le_refl _, hc.vectors_le⟩, rfl, rfl, rfl, hc.integers_le, Nat.le_refl _, Nat.le_refl _⟩

theorem exhaustVectors_before (hc : c.Sound) : c.exhaustVectors.Sound ∧ c.Before c.exhaustVectors :=
  ⟨⟨hc.classes, hc.integers_le, Nat.le_refl _⟩, rfl, rfl, rfl, Nat.le_refl _, hc.vectors_le, Nat.le_refl _⟩

/-! ### Many storages -/

namespace Gives

theorem append (h : Gives c₁ ss c₂) (h' : Gives c₂ ts c₃) : Gives c₁ (ss ++ ts) c₃ := by
  induction h with
  | nil => exact h'
  | cons htakes _ ih => exact .cons htakes (ih h')
  | exhaustIntegers _ ih => exact .exhaustIntegers (ih h')
  | exhaustVectors _ ih => exact .exhaustVectors (ih h')

theorem before (h : Gives c ss c') (hc : c.Sound) : c'.Sound ∧ c.Before c' := by
  induction h with
  | nil => exact ⟨hc, .refl _⟩
  | cons htakes _ ih =>
    obtain ⟨hnext, hbefore⟩ := htakes.before hc
    obtain ⟨hsound, hrest⟩ := ih hnext
    exact ⟨hsound, hbefore.trans hrest⟩
  | exhaustIntegers _ ih =>
    obtain ⟨hnext, hbefore⟩ := exhaustIntegers_before hc
    obtain ⟨hsound, hrest⟩ := ih hnext
    exact ⟨hsound, hbefore.trans hrest⟩
  | exhaustVectors _ ih =>
    obtain ⟨hnext, hbefore⟩ := exhaustVectors_before hc
    obtain ⟨hsound, hrest⟩ := ih hnext
    exact ⟨hsound, hbefore.trans hrest⟩

theorem between (h : Gives c ss c') (hc : c.Sound) (hstack : c'.stack ≤ 65536) : ∀ s ∈ ss, Between c c' s := by
  induction h with
  | nil => simp
  | cons htakes hrest ih =>
    obtain ⟨hnext, hbefore⟩ := htakes.before hc
    have hlast := (hrest.before hnext).2
    intro s hs
    rcases List.mem_cons.1 hs with rfl | hs
    · exact (htakes.between (Nat.le_trans hlast.stack hstack)).mono (.refl _) hlast
    · exact (ih hnext hstack s hs).mono hbefore (.refl _)
  | exhaustIntegers _ ih =>
    obtain ⟨hnext, hbefore⟩ := exhaustIntegers_before hc
    exact fun s hs => (ih hnext hstack s hs).mono hbefore (.refl _)
  | exhaustVectors _ ih =>
    obtain ⟨hnext, hbefore⟩ := exhaustVectors_before hc
    exact fun s hs => (ih hnext hstack s hs).mono hbefore (.refl _)

theorem kind_cases (h : Gives c ss c') (hc : c.Sound) {s : Storage} (hs : s ∈ ss) :
    s.kind = c.integerClass ∨ s.kind = c.vectorClass ∨ s.kind = .stack := by
  induction h with
  | nil => cases hs
  | cons htakes _ ih =>
    obtain ⟨hnext, hbefore⟩ := htakes.before hc
    rcases List.mem_cons.1 hs with rfl | hs
    · cases htakes with
      | integer => exact .inl rfl
      | vector => exact .inr (.inl rfl)
      | stack => exact .inr (.inr rfl)
    · have hrest := ih hnext hs
      rwa [hbefore.integerClass, hbefore.vectorClass] at hrest
  | exhaustIntegers _ ih => exact ih (exhaustIntegers_before hc).1 hs
  | exhaustVectors _ ih => exact ih (exhaustVectors_before hc).1 hs

/-- **No two storages that a cursor gives out are at one location**, as long as there are no more stack
slots than indices of 16 bits. -/
theorem pairwise (h : Gives c ss c') (hc : c.Sound) (hstack : c'.stack ≤ 65536) :
    ss.Pairwise fun s t => s.sameLocation t = false := by
  induction h with
  | nil => exact .nil
  | cons htakes hrest ih =>
    have hnext := (htakes.before hc).1
    have hle := Nat.le_trans (hrest.before hnext).2.stack hstack
    exact .cons (fun t ht => htakes.apart hc hle (hrest.between hnext hstack t ht)) (ih hnext hstack)
  | exhaustIntegers _ ih => exact ih (exhaustIntegers_before hc).1 hstack
  | exhaustVectors _ ih => exact ih (exhaustVectors_before hc).1 hstack

theorem index_lt (h : Gives c ss c') (hc : c.Sound) (hstack : c'.stack ≤ 65536) (hs : s ∈ ss)
    (hkind : s.kind ≠ .stack) :
    s.index.toNat < c.convention.slotCount s.kind := by
  obtain ⟨hsound, hbefore⟩ := h.before hc
  have hintegers := hsound.integers_le
  have hvectors := hsound.vectors_le
  rw [hbefore.convention, hbefore.integerClass] at hintegers
  rw [hbefore.convention, hbefore.vectorClass] at hvectors
  rcases h.between hc hstack s hs with ⟨hclass, -, hlt⟩ | ⟨hclass, -, hlt⟩ | ⟨hclass, -, -⟩
  · rw [hclass]
    omega
  · rw [hclass]
    omega
  · exact absurd hclass hkind

theorem countP_stack (h : Gives c ss c') (hc : c.Sound) :
    c.stack + ss.countP (fun s => s.kind = .stack) = c'.stack := by
  induction h with
  | nil => rfl
  | cons htakes _ ih =>
    have hih := ih (htakes.before hc).1
    rw [htakes.stack_eq hc] at hih
    rw [List.countP_cons]
    simp only [decide_eq_true_eq] at hih ⊢
    omega
  | exhaustIntegers _ ih => exact ih (exhaustIntegers_before hc).1
  | exhaustVectors _ ih => exact ih (exhaustVectors_before hc).1

end Gives

/-! ### Operations -/

theorem integer?_eq_ok {r : Option Storage} (h : c.integer? = .ok (r, c')) :
    match r with
    | some s => Takes c s c' ∧ c'.stack = c.stack
    | none => c.freeIntegers = 0 ∧ c' = c := by
  unfold integer? at h
  split at h
  · next hfree =>
    obtain ⟨s, hs, h⟩ := bind_eq_ok.1 h
    cases h
    obtain ⟨rfl, -⟩ := Convention.storage_eq_ok (lift_fault_eq_ok.1 hs)
    exact ⟨.integer (by unfold freeIntegers at hfree; omega), rfl⟩
  · cases h
    exact ⟨by omega, rfl⟩

theorem vector?_eq_ok {r : Option Storage} (h : c.vector? = .ok (r, c')) :
    match r with
    | some s => Takes c s c' ∧ c'.stack = c.stack
    | none => c.freeVectors = 0 ∧ c' = c := by
  unfold vector? at h
  split at h
  · next hfree =>
    obtain ⟨s, hs, h⟩ := bind_eq_ok.1 h
    cases h
    obtain ⟨rfl, -⟩ := Convention.storage_eq_ok (lift_fault_eq_ok.1 hs)
    exact ⟨.vector (by unfold freeVectors at hfree; omega), rfl⟩
  · cases h
    exact ⟨by omega, rfl⟩

theorem integer_eq_ok (h : c.integer = .ok (s, c')) : Takes c s c' := by
  obtain ⟨⟨r, next⟩, hnext, h⟩ := bind_eq_ok.1 h
  have hr := integer?_eq_ok hnext
  cases r with
  | some t =>
    cases h
    exact hr.1
  | none =>
    cases h
    rw [hr.2]
    exact .stack

theorem scalar_eq_ok (h : c.scalar kind = .ok (s, c')) : Takes c s c' := by
  unfold scalar at h
  split at h
  · obtain ⟨⟨r, next⟩, hnext, h⟩ := bind_eq_ok.1 h
    have hr := vector?_eq_ok hnext
    cases r with
    | some t =>
      cases h
      exact hr.1
    | none =>
      cases h
      rw [hr.2]
      exact .stack
  · exact integer_eq_ok h

end ForeignCall.Cursor
