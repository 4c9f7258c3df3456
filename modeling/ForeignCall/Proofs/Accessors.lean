import ForeignCall.FrameSlot
import ForeignCall.Proofs.Engine.Access

/-!
# Slots by class and index

The typed accessors of a frame take any index, but a storage names a slot by 16 bits of it.

* `FrameLayout.slotWord`: the word of a slot.  No two slots have the same one;
* `Frame.Reader`, `Frame.Writer`: the accessors, with the class that each of them goes to;
* `Frame.get_eq`, `Frame.put_eq`: an access with an index of 16 bits touches just the slot that it names.
  `Frame.get_mod`, `Frame.put_mod`: any other index is reduced to 16 bits before that;
* `accessors_address_slots`, `accessor_index_wraps`: what follows for the accessors.
-/

namespace ForeignCall

variable {σ : Type} {c : Convention} {f : Frame} {kind : StorageClass} {n index : Nat} {w : Word}

/-- A storage can name the slots of a class below this index, two to the power of 16. -/
def indexLimit : Nat := 0x10000

/-- The word of the slot of a class at an index. -/
def FrameLayout.slotWord (l : FrameLayout) (kind : StorageClass) (i : Nat) : Nat :=
  l.slotOffset kind i / wordSize

theorem Storage.slot_mod (kind : StorageClass) (index width : Nat) :
    Storage.slot kind (index % indexLimit) width = Storage.slot kind index width := by
  have hindex : BitVec.ofNat 16 (index % indexLimit) = BitVec.ofNat 16 index := by
    apply BitVec.eq_of_toNat_eq
    rw [BitVec.toNat_ofNat, BitVec.toNat_ofNat]
    exact Nat.mod_mod index indexLimit
  unfold slot
  rw [hindex]

namespace Frame

/-! ### Accessors -/

/-- An accessor that reads slots: the class that it goes to and what it shows of a word. -/
inductive Reader : {α : Type} → (Frame → Nat → Except Fault α) → StorageClass → (Word → α) → Prop
  | intArg : Reader intArg .integerArg id
  | pointerArg : Reader pointerArg .integerArg id
  | vectorArg : Reader vectorArg .vectorArg id
  | f64Arg : Reader f64Arg .vectorArg id
  | f32Arg : Reader f32Arg .vectorArg (BitVec.setWidth 32)
  | stackArg : Reader stackArg .stack id
  | intRet : Reader intRet .integerRet id
  | vectorRet : Reader vectorRet .vectorRet id

/-- An accessor that replaces the word of a slot of a class. -/
inductive Writer : (Frame → Nat → Word → Except Fault Frame) → StorageClass → Prop
  | intArg : Writer setIntArg .integerArg
  | vectorArg : Writer setVectorArg .vectorArg
  | stackArg : Writer setStackArg .stack
  | intRet : Writer setIntRet .integerRet
  | vectorRet : Writer setVectorRet .vectorRet

theorem get_mod (f : Frame) (kind : StorageClass) (index : Nat) :
    f.get kind (index % indexLimit) = f.get kind index := by
  unfold get
  rw [Storage.slot_mod]

theorem put_mod (f : Frame) (kind : StorageClass) (index : Nat) (w : Word) :
    f.put kind (index % indexLimit) w = f.put kind index w := by
  unfold put
  rw [Storage.slot_mod]

/-! ### Indices of 16 bits -/

theorem offset_slot (hindex : index < indexLimit) (width : Nat) :
    f.layout.offset (.slot kind index width) =
      if index < f.layout.slotCount kind then .ok (f.layout.slotOffset kind index)
      else .error (.outsideFrame (.slot kind index width)) := by
  have hoffset : f.layout.offset? (.slot kind index width) =
      if index < f.layout.slotCount kind then some (f.layout.slotOffset kind index) else none := by
    unfold FrameLayout.offset?
    rw [Storage.toNat_index_slot hindex]
    rfl
  unfold FrameLayout.offset
  rw [hoffset]
  by_cases h : index < f.layout.slotCount kind
  · rw [if_pos h, if_pos h]
  · rw [if_neg h, if_neg h]

/-- **Reading gives the word of the slot**, or faults if the class has no such slot. -/
theorem get_eq (hf : FrameLayout.withStackSlots c n = .ok f.layout) (hindex : index < indexLimit) :
    (index < f.layout.slotCount kind →
      ∃ w, f.words[f.layout.slotWord kind index]? = some w ∧ f.get kind index = .ok w) ∧
    (f.layout.slotCount kind ≤ index →
      f.get kind index = .error (.outsideFrame (.slot kind index wordSize))) := by
  unfold get read
  rw [offset_slot hindex]
  constructor
  · intro h
    have hword : f.layout.slotWord kind index < f.words.size := by
      rw [f.size_words]
      exact FrameLayout.slotOffset_lt hf h
    refine ⟨f.words[f.layout.slotWord kind index], Array.getElem?_eq_getElem hword, ?_⟩
    rw [if_pos h, ok_bind]
    unfold readWord
    rw [show f.words[f.layout.slotOffset kind index / wordSize]? = _ from Array.getElem?_eq_getElem hword]
  · intro h
    rw [if_neg (Nat.not_lt.2 h)]
    rfl

/-- **Writing replaces the word of the slot and no other**, or faults if the class has no such slot. -/
theorem put_eq (hf : FrameLayout.withStackSlots c n = .ok f.layout) (hindex : index < indexLimit) (w : Word) :
    (index < f.layout.slotCount kind →
      ∃ g, f.put kind index w = .ok g ∧ g.layout = f.layout ∧
        ∀ i, g.words[i]? = if i = f.layout.slotWord kind index then some w else f.words[i]?) ∧
    (f.layout.slotCount kind ≤ index →
      f.put kind index w = .error (.outsideFrame (.slot kind index wordSize))) := by
  unfold put write
  rw [offset_slot hindex]
  constructor
  · intro h
    have hword : f.layout.slotOffset kind index / wordSize < f.words.size := by
      rw [f.size_words]
      exact FrameLayout.slotOffset_lt hf h
    refine ⟨f.setWord (f.layout.slotOffset kind index) w, ?_, rfl, fun i => ?_⟩
    · rw [if_pos h, ok_bind]
      unfold writeWord checkWord
      rw [if_pos hword]
      rfl
    · unfold setWord FrameLayout.slotWord
      rw [Array.getElem?_setIfInBounds]
      by_cases hi : i = f.layout.slotOffset kind index / wordSize
      · rw [if_pos hi, if_pos hi.symm, if_pos hword]
      · rw [if_neg hi, if_neg (Ne.symm hi)]
  · intro h
    rw [if_neg (Nat.not_lt.2 h)]
    rfl

/-! ### What accessors do -/

theorem Reader.eq {α : Type} {read : Frame → Nat → Except Fault α} {view : Word → α}
    (h : Reader read kind view) :
    ∀ f index, read f index = view <$> f.get kind index := by
  intro f index
  cases h with
  | f32Arg => rfl
  | _ => exact (id_map _).symm

theorem Writer.eq {write : Frame → Nat → Word → Except Fault Frame} (h : Writer write kind) :
    write = fun f index w => f.put kind index w := by
  cases h <;> rfl

end Frame

theorem Engine.writeSlot_failed {m m' : Machine σ} {slot : FrameSlot} {e : Fault}
    (h : Engine.writeSlot slot w m = .error e m') :
    m' = m := by
  unfold writeSlot at h
  rw [get_bind_apply, bind_apply] at h
  cases hwrite : m.frame.writeSlot slot w with
  | ok g =>
    rw [hwrite] at h
    cases h
  | error e =>
    rw [hwrite] at h
    cases h
    rfl

/-- **Accessors address the slot that they are asked for, as long as its index has 16 bits.**  An accessor
with such an index reads or replaces the word of the slot of its class at the index, and no other word;
where the class has no such slot it faults, and native code that writes through it has changed nothing.  No
two slots share a word.  An accessor with any other index does what it does with the index reduced to 16
bits. -/
theorem accessors_address_slots (hf : FrameLayout.withStackSlots c n = .ok f.layout) :
    (∀ {α : Type} {read : Frame → Nat → Except Fault α} {kind : StorageClass} {view : Word → α},
      Frame.Reader read kind view →
        (∀ index < indexLimit,
          (index < f.layout.slotCount kind →
            ∃ w, f.words[f.layout.slotWord kind index]? = some w ∧ read f index = .ok (view w)) ∧
          (f.layout.slotCount kind ≤ index →
            read f index = .error (.outsideFrame (.slot kind index wordSize)))) ∧
        ∀ index, read f index = read f (index % indexLimit)) ∧
    (∀ {write : Frame → Nat → Word → Except Fault Frame} {kind : StorageClass}, Frame.Writer write kind →
      ∀ w : Word,
        (∀ index < indexLimit,
          (index < f.layout.slotCount kind →
            ∃ g, write f index w = .ok g ∧ g.layout = f.layout ∧
              ∀ i, g.words[i]? = if i = f.layout.slotWord kind index then some w else f.words[i]?) ∧
          (f.layout.slotCount kind ≤ index →
            write f index w = .error (.outsideFrame (.slot kind index wordSize)))) ∧
        ∀ index, write f index w = write f (index % indexLimit) w) ∧
    (∀ (m m' : Machine σ) slot w e, Engine.writeSlot slot w m = .error e m' → m' = m) ∧
    ∀ kind kind' i i', i < f.layout.slotCount kind → i' < f.layout.slotCount kind' →
      f.layout.slotWord kind i = f.layout.slotWord kind' i' → kind = kind' ∧ i = i' := by
  refine ⟨fun hread => ⟨fun index hindex => ?_, fun index => ?_⟩, fun hwrite w => ?_,
    fun _ _ _ _ _ h => Engine.writeSlot_failed h, fun _ _ _ _ hi hi' =>
      FrameLayout.slotOffset_injective hf hi hi'⟩
  · obtain ⟨hinside, houtside⟩ := Frame.get_eq hf hindex
    rw [hread.eq]
    refine ⟨fun h => ?_, fun h => by rw [houtside h]; rfl⟩
    obtain ⟨w, hw, hget⟩ := hinside h
    exact ⟨w, hw, by rw [hget]; rfl⟩
  · rw [hread.eq, hread.eq, Frame.get_mod]
  · rw [hwrite.eq]
    exact ⟨fun index hindex => Frame.put_eq hf hindex w, fun index => (Frame.put_mod f _ index w).symm⟩

/-- A frame of AArch64 with one stack slot.  Setting that slot changes the word behind the argument
registers, and there is no ninth vector register. -/
theorem accessors_address_slots_aarch64 :
    let l : FrameLayout :=
      ⟨[⟨0, 8, 8⟩, ⟨64, 8, 8⟩, ⟨128, 1, 8⟩, ⟨136, 1, 8⟩, ⟨144, 2, 8⟩, ⟨160, 4, 8⟩, ⟨192, 0, 16⟩], 192⟩
    let f : Frame := ⟨l, Array.replicate l.wordCount 0, Array.size_replicate⟩
    FrameLayout.withStackSlots .aarch64 1 = .ok l ∧
    (∃ g, f.setStackArg 0 77 = .ok g ∧ ∀ i, g.words[i]? = if i = 16 then some 77 else f.words[i]?) ∧
    f.f32Arg 8 = .error (.outsideFrame (.slot .vectorArg 8 8)) ∧ f.stackArg 65536 = f.stackArg 0 := by
  intro l f
  have hf : FrameLayout.withStackSlots .aarch64 1 = .ok f.layout := by rfl
  obtain ⟨hreaders, hwriters, -⟩ := accessors_address_slots (σ := Unit) hf
  obtain ⟨g, hg, -, hwords⟩ := ((hwriters .stackArg 77).1 0 (by decide)).1 (by decide)
  have hword : f.layout.slotWord .stack 0 = 16 := by decide
  rw [hword] at hwords
  exact ⟨hf, ⟨g, hg, hwords⟩, ((hreaders .f32Arg).1 8 (by decide)).2 (by decide), (hreaders .stackArg).2 65536⟩

/-- **An index of more than 16 bits wraps around.**  In a frame with six integer registers the accessor of
the 65537th does not fault but sets the first one, and in a frame with 65537 stack slots the accessor of the
last one reads the first. -/
theorem accessor_index_wraps :
    (∃ f g : Frame, FrameLayout.withStackSlots .sysV 0 = .ok f.layout ∧ f.layout.slotCount .integerArg = 6 ∧
      f.setIntArg 65536 7 = .ok g ∧ f.intArg 0 = .ok 0 ∧ g.intArg 0 = .ok 7) ∧
    ∃ l, FrameLayout.withStackSlots .sysV 65537 = .ok l ∧ l.slotCount .stack = 65537 ∧
      l.slotWord .stack 65536 ≠ l.slotWord .stack 0 ∧
      ∀ f : Frame, f.layout = l → f.stackArg 65536 = f.stackArg 0 := by
  constructor
  · let l : FrameLayout :=
      ⟨[⟨0, 6, 8⟩, ⟨48, 8, 8⟩, ⟨112, 0, 8⟩, ⟨112, 0, 8⟩, ⟨112, 2, 8⟩, ⟨128, 2, 8⟩, ⟨144, 2, 16⟩], 176⟩
    let f : Frame := ⟨l, Array.replicate l.wordCount 0, Array.size_replicate⟩
    exact ⟨f, f.setWord 0 7, rfl, rfl, by cbv, by decide, by decide⟩
  · refine ⟨⟨[⟨0, 6, 8⟩, ⟨48, 8, 8⟩, ⟨112, 65537, 8⟩, ⟨524408, 0, 8⟩, ⟨524408, 2, 8⟩, ⟨524424, 2, 8⟩,
      ⟨524440, 2, 16⟩], 524472⟩, by decide, rfl, by decide, fun f _ => ?_⟩
    exact (Frame.get_mod f .stack 65536).symm

end ForeignCall
