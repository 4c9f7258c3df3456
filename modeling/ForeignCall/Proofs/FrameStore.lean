import ForeignCall.Proofs.Arrangement.Locations

/-!
# Frames store the words of storages

* `FrameLayout.exists_offset_iff`, `FrameLayout.offset?_within`, `FrameLayout.offset?_disjoint`: which
  storages have a place in a frame, and that the places lie apart;
* `Frame.write_read`: after one write the storage has its word, and every other one the word it had.
  `Frame.writeAll_read`: after many, each has the word that it was given last;
* `frames_store_faithfully`: so a frame keeps what it is given, and there is one for each arranged sequence.
-/

namespace ForeignCall

variable {c : Convention} {s t : Storage} {l : FrameLayout} {f : Frame} {o o' n : Nat}

/-! ### Places -/

namespace FrameLayout

theorem slotCount_eq (h : withStackSlots c n = .ok l) (kind : StorageClass) :
    l.slotCount kind = if kind = .stack then n else c.slotCount kind := by
  obtain ⟨-, -, hcount, -⟩ := area_mem h kind
  exact hcount

theorem size_dvd (h : withStackSlots c n = .ok l) : 8 ∣ l.size :=
  (layOut_eq_ok (withStackSlots_eq_ok h) (Nat.dvd_zero 8)).1

theorem wordCount_eq (h : withStackSlots c n = .ok l) : l.wordCount = l.size / 8 := by
  have hdvd := size_dvd h
  unfold wordCount wordSize
  omega

/-- **The storages of a frame** are those whose index is below the number of slots of their class. -/
theorem exists_offset_iff : (∃ o, l.offset? s = some o) ↔ s.index.toNat < l.slotCount s.kind := by
  constructor
  · rintro ⟨o, ho⟩
    exact (offset?_eq_some.1 ho).1
  · intro h
    exact ⟨_, offset?_eq_some.2 ⟨h, rfl⟩⟩

theorem offset?_within (h : withStackSlots c n = .ok l) (ho : l.offset? s = some o) :
    8 ∣ o ∧ o + Convention.slotWidth s.kind ≤ l.size := by
  obtain ⟨hindex, rfl⟩ := offset?_eq_some.1 ho
  obtain ⟨hdvd, -, hend⟩ := slotOffset_bounds h hindex
  obtain ⟨-, -, -, -, -, hstop⟩ := area_mem h s.kind
  exact ⟨hdvd, Nat.le_trans hend hstop⟩

/-- **Storages of different locations share no byte.** -/
theorem offset?_disjoint (h : withStackSlots c n = .ok l) (hst : s.sameLocation t = false)
    (ho : l.offset? s = some o) (ho' : l.offset? t = some o') :
    o + Convention.slotWidth s.kind ≤ o' ∨ o' + Convention.slotWidth t.kind ≤ o := by
  obtain ⟨hs, rfl⟩ := offset?_eq_some.1 ho
  obtain ⟨ht, rfl⟩ := offset?_eq_some.1 ho'
  refine slotOffset_disjoint h hs ht fun ⟨hkind, hindex⟩ => ?_
  simp [Storage.sameLocation, hkind, BitVec.eq_of_toNat_eq hindex] at hst

theorem offset?_congr (hst : s.sameLocation t = true) : l.offset? s = l.offset? t := by
  obtain ⟨hkind, hindex⟩ := Storage.sameLocation_eq_true.1 hst
  unfold offset?
  rw [hkind, hindex]

theorem has_of_offset (h : withStackSlots c n = .ok l) (ho : l.offset? s = some o) : l.Has s := by
  obtain ⟨hindex, rfl⟩ := offset?_eq_some.1 ho
  exact ⟨_, ho, slotOffset_lt h hindex⟩

end FrameLayout

/-! ### Words -/

namespace Frame

variable {w : Word} {writes : List (Storage × Word)}

theorem write_eq (ho : f.layout.offset? s = some o) (hlt : o / wordSize < f.layout.wordCount) :
    f.write s w = .ok (f.setWord o w) := by
  have hword : o / wordSize < f.words.size := by rwa [f.size_words]
  unfold write FrameLayout.offset
  rw [ho, ok_bind]
  unfold writeWord checkWord
  rw [if_pos hword, ok_bind]
  rfl

/-- **One write.** -/
theorem write_read (h : FrameLayout.withStackSlots c n = .ok f.layout)
    (ho : f.layout.offset? s = some o) (w : Word) :
    ∃ g, f.write s w = .ok g ∧ g.layout = f.layout ∧
      ∀ t, g.read t = if t.sameLocation s then .ok w else f.read t := by
  have hlt : o / wordSize < f.layout.wordCount := by
    obtain ⟨p, hp, hlt⟩ := FrameLayout.has_of_offset h ho
    rwa [Option.some.inj (hp.symm.trans ho)] at hlt
  refine ⟨f.setWord o w, write_eq ho hlt, rfl, fun t => ?_⟩
  cases ht : f.layout.offset? t with
  | none =>
    -- A storage without a place has no location in common with one that has.
    have hst : ¬ t.sameLocation s = true := fun hst => by
      rw [FrameLayout.offset?_congr hst, ho] at ht
      cases ht
    rw [if_neg hst]
    unfold read FrameLayout.offset
    rw [show (f.setWord o w).layout = f.layout from rfl, ht]
    rfl
  | some o' =>
    have hhas := FrameLayout.has_of_offset h ht
    rw [read_eq (f := f.setWord o w) hhas, read_eq hhas]
    by_cases hst : t.sameLocation s = true
    · have ht' : f.layout.offset? t = some o := (FrameLayout.offset?_congr hst).trans ho
      rw [if_pos hst, wordAt_setWord ht' hlt]
    · have hapart := FrameLayout.withStackSlots_apart h (Bool.not_eq_true _ ▸ hst)
      rw [if_neg hst, wordAt_congr (f := f) (g := f.setWord o w) rfl fun i hi => words_setWord ho fun hi' => ?_]
      obtain ⟨p, hp, rfl⟩ := hi
      obtain ⟨p', hp', heq⟩ := hi'
      exact hapart p p' hp hp' heq.symm

/-- Write some words, one after the other. -/
def writeAll (f : Frame) : List (Storage × Word) → Except Fault Frame
  | [] => .ok f
  | (s, w) :: writes => do (← f.write s w).writeAll writes

/-- The word that a location is given last. -/
def lastWord? (t : Storage) : List (Storage × Word) → Option Word
  | [] => none
  | (s, w) :: writes => (lastWord? t writes).or (if t.sameLocation s then some w else none)

/-- **Many writes.** -/
theorem writeAll_read (h : FrameLayout.withStackSlots c n = .ok f.layout)
    (hwrites : ∀ p ∈ writes, ∃ o, f.layout.offset? p.1 = some o) :
    ∃ g, f.writeAll writes = .ok g ∧ g.layout = f.layout ∧
      ∀ t, g.read t = (lastWord? t writes).elim (f.read t) .ok := by
  induction writes generalizing f with
  | nil => exact ⟨f, rfl, rfl, fun _ => rfl⟩
  | cons p writes ih =>
    obtain ⟨s, w⟩ := p
    obtain ⟨⟨o, ho⟩, hrest⟩ := List.forall_mem_cons.1 hwrites
    obtain ⟨g, hg, hlayout, hread⟩ := write_read h ho w
    obtain ⟨g', hg', hlayout', hread'⟩ := @ih g (hlayout ▸ h) (hlayout ▸ hrest)
    refine ⟨g', ?_, hlayout'.trans hlayout, fun t => ?_⟩
    · rw [writeAll, hg, ok_bind, hg']
    · rw [hread', lastWord?]
      -- A later write of the location counts, else this one does.
      cases lastWord? t writes with
      | some w' => rfl
      | none =>
        rw [Option.elim_none, Option.none_or, hread]
        by_cases hst : t.sameLocation s = true <;> simp [hst]

end Frame

/-- **A frame keeps the words of its storages.**  Whatever the number of stack slots, a storage has a place
in the frame iff its index is below the number of slots of its class; the places start at words, end in the
frame and share no byte.  A frame has just the words of its size.  A storage that is written has its word
from then on, until its location is written again. All storages of an arranged sequence have a place in the
frame that is made for it. -/
theorem frames_store_faithfully (c : Convention) :
    (∀ n l, FrameLayout.withStackSlots c n = .ok l →
      (∀ kind, l.slotCount kind = if kind = .stack then n else c.slotCount kind) ∧
      (∀ s, (∃ o, l.offset? s = some o) ↔ s.index.toNat < l.slotCount s.kind) ∧
      (∀ s o, l.offset? s = some o → 8 ∣ o ∧ o + Convention.slotWidth s.kind ≤ l.size) ∧
      (∀ s t o o', s.sameLocation t = false → l.offset? s = some o → l.offset? t = some o' →
        o + Convention.slotWidth s.kind ≤ o' ∨ o' + Convention.slotWidth t.kind ≤ o) ∧
      ∀ f : Frame, f.layout = l → f.words.size = l.size / 8 ∧
        (∀ s, (∃ o, l.offset? s = some o) → (∃ w, f.read s = .ok w) ∧
          ∀ w, ∃ g, f.write s w = .ok g ∧ g.layout = l ∧
            ∀ t, g.read t = if t.sameLocation s then .ok w else f.read t) ∧
        ∀ writes, (∀ p ∈ writes, ∃ o, l.offset? p.1 = some o) →
          ∃ g, f.writeAll writes = .ok g ∧ ∀ t, g.read t = (Frame.lastWord? t writes).elim (f.read t) .ok) ∧
    ∀ d direction sequence, arrange c d direction = .ok sequence →
      ∃ l, FrameLayout.covering c sequence.storages = .ok l ∧
        ∀ s ∈ sequence.storages, ∃ o, l.offset? s = some o := by
  refine ⟨fun n l h => ⟨FrameLayout.slotCount_eq h, fun s => FrameLayout.exists_offset_iff,
    fun s o => FrameLayout.offset?_within h, fun s t o o' => FrameLayout.offset?_disjoint h, ?_⟩,
    fun d direction sequence h => ?_⟩
  · rintro f rfl
    refine ⟨f.size_words.trans (FrameLayout.wordCount_eq h), fun s ⟨o, ho⟩ =>
      ⟨⟨f.wordAt s, ?_⟩, Frame.write_read h ho⟩, fun writes hwrites => ?_⟩
    · exact Frame.read_eq (FrameLayout.has_of_offset h ho)
    · obtain ⟨g, hg, -, hread⟩ := Frame.writeAll_read h hwrites
      exact ⟨g, hg, hread⟩
  · obtain ⟨l, hl⟩ := FrameLayout.exists_covering c sequence.storages
    refine ⟨l, hl, fun s hs => ?_⟩
    obtain ⟨o, ho, -⟩ := arrange_has h hl s (Storage.mem_sortedSet.1 hs)
    exact ⟨o, ho⟩

/-- The frame of System V with three stack slots. -/
def FrameLayout.threeSlots : FrameLayout :=
  ⟨[⟨0, 6, 8⟩, ⟨48, 8, 8⟩, ⟨112, 3, 8⟩, ⟨136, 0, 8⟩, ⟨136, 2, 8⟩, ⟨152, 2, 8⟩, ⟨168, 2, 16⟩], 200⟩

/-- The two result registers of 16 bytes end the frame, one behind the other; each keeps its word, whatever
width it is named with.  The seventh integer of a call has a place in the frame of the call. -/
theorem frames_store_faithfully_sysV :
    (∃ f g, FrameLayout.withStackSlots .sysV 3 = .ok .threeSlots ∧ Frame.new .threeSlots = .ok f ∧
      f.words.size = 25 ∧
      FrameLayout.threeSlots.offset? (.slot .x87Ret 0 16) = some 168 ∧
      FrameLayout.threeSlots.offset? (.slot .x87Ret 1 16) = some 184 ∧ 184 + 16 ≤ FrameLayout.threeSlots.size ∧
      f.writeAll [(.slot .x87Ret 0 16, 5), (.slot .x87Ret 1 16, 6), (.slot .x87Ret 0 16, 7)] = .ok g ∧
      g.read (.slot .x87Ret 0 10) = .ok 7 ∧ g.read (.slot .stack 2 8) = .ok 0) ∧
    ∃ s l, arrange .sysV ⟨List.replicate 7 (.value .i64), none⟩ .downcall = .ok s ∧
      FrameLayout.covering .sysV s.storages = .ok l ∧ ∃ o, l.offset? (.slot .stack 0 8) = some o := by
  obtain ⟨hframes, hsequences⟩ := frames_store_faithfully .sysV
  constructor
  · obtain ⟨-, -, hwithin, -, hstore⟩ := hframes 3 .threeSlots rfl
    obtain ⟨hsize, -, hwrites⟩ := hstore ⟨.threeSlots, Array.replicate 25 0, rfl⟩ rfl
    obtain ⟨g, hg, hread⟩ :=
      hwrites [(.slot .x87Ret 0 16, 5), (.slot .x87Ret 1 16, 6), (.slot .x87Ret 0 16, 7)] (by
      simp only [List.forall_mem_cons]
      exact ⟨⟨168, rfl⟩, ⟨184, rfl⟩, ⟨168, rfl⟩, nofun⟩)
    exact ⟨_, g, rfl, rfl, hsize, rfl, rfl, (hwithin (.slot .x87Ret 1 16) 184 rfl).2, hg, hread _, hread _⟩
  · have hs : (arrange .sysV ⟨List.replicate 7 (.value .i64), none⟩ .downcall).toOption.any
        (fun s => .slot .stack 0 8 ∈ Program.storages s.steps) = true := by cbv
    obtain ⟨s, hs, hmem⟩ := exists_ok_of_any hs
    obtain ⟨l, hl, hplaces⟩ := hsequences _ _ s hs
    exact ⟨s, l, hs, hl, hplaces _ (Storage.mem_sortedSet.2 (of_decide_eq_true hmem))⟩

end ForeignCall
