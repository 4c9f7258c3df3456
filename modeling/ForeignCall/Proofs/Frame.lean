import ForeignCall.Frame
import ForeignCall.Proofs.Stopping

/-!
# The geometry of frames

* `FrameLayout.Has`, `FrameLayout.WordOf`, `FrameLayout.Apart`: a storage that is part of a frame, the word
  that belongs to it, and two storages that share no word;
* `FrameLayout.layOut_eq_ok`: the areas of a frame follow each other, each at a word boundary;
* `FrameLayout.slotOffset_disjoint`: the bytes of different slots do not overlap.  So different slots, and
  storages of different locations, share no word (`FrameLayout.slotOffset_injective`,
  `FrameLayout.withStackSlots_apart`);
* `FrameLayout.covering_has`, `FrameLayout.exists_covering`: there is a frame for any storages, and they are
  part of it.  With nothing in the stack it is the frame of the registers (`FrameLayout.covering_registers`);
* `Frame.wordAt`: the word of a storage.  Writing one storage changes no other word (`Frame.words_setWord`).
-/

namespace ForeignCall

variable {c : Convention} {count : StorageClass → Nat} {kind : StorageClass} {kinds : List StorageClass}
  {areas : List Area} {s t : Storage} {l : FrameLayout} {f : Frame} {offset o last n i : Nat} {w : Word}

/-- The first byte behind an area. -/
def Area.stop (a : Area) : Nat := a.base + a.count * a.width

namespace FrameLayout

/-- The storage is part of the frame. -/
def Has (l : FrameLayout) (s : Storage) : Prop := ∃ o, l.offset? s = some o ∧ o / wordSize < l.wordCount

/-- No word of the frame belongs to both storages. -/
def Apart (l : FrameLayout) (s t : Storage) : Prop :=
  ∀ o o', l.offset? s = some o → l.offset? t = some o' → o / wordSize ≠ o' / wordSize

/-- The `i`-th word of the frame belongs to the storage. -/
def WordOf (l : FrameLayout) (s : Storage) (i : Nat) : Prop := ∃ o, l.offset? s = some o ∧ o / wordSize = i

/-- The storages are part of the frame and share no word of it. -/
structure Separates (l : FrameLayout) (ss : List Storage) : Prop where
  has : ∀ s ∈ ss, l.Has s
  apart : ss.Pairwise l.Apart

theorem separates_append {ss ts : List Storage} :
    l.Separates (ss ++ ts) ↔ l.Separates ss ∧ l.Separates ts ∧ ∀ s ∈ ss, ∀ t ∈ ts, l.Apart s t := by
  constructor
  · rintro ⟨hhas, hapart⟩
    rw [List.pairwise_append] at hapart
    obtain ⟨hss, hts, hbetween⟩ := hapart
    exact ⟨⟨fun s hs => hhas s (List.mem_append_left _ hs), hss⟩,
      ⟨fun t ht => hhas t (List.mem_append_right _ ht), hts⟩, hbetween⟩
  · rintro ⟨hss, hts, hbetween⟩
    refine ⟨fun s hs => ?_, List.pairwise_append.2 ⟨hss.apart, hts.apart, hbetween⟩⟩
    rcases List.mem_append.1 hs with hs | hs
    · exact hss.has s hs
    · exact hts.has s hs

theorem Apart.symm (h : l.Apart s t) : l.Apart t s := fun o o' ho ho' heq => h o' o ho' ho heq.symm

/-! ### Areas -/

theorem slotWidth_cases (kind : StorageClass) :
    Convention.slotWidth kind = 8 ∨ Convention.slotWidth kind = 16 := by
  cases kind <;> simp [Convention.slotWidth]

/-- The areas of some classes follow each other from `offset` on.  Each starts at a word boundary and has
the slots of its class. -/
theorem layOut_eq_ok (h : layOut count offset kinds = .ok (areas, last)) (hoffset : 8 ∣ offset) :
    8 ∣ last ∧ offset ≤ last ∧ areas.Pairwise (fun a b => a.stop ≤ b.base) ∧
      (∀ a ∈ areas, 8 ∣ a.base ∧ offset ≤ a.base ∧ a.stop ≤ last) ∧
      areas.map (fun a => (a.count, a.width)) = kinds.map fun k => (count k, Convention.slotWidth k) := by
  induction kinds generalizing offset areas with
  | nil =>
    cases h
    exact ⟨hoffset, Nat.le_refl _, .nil, by simp, rfl⟩
  | cons kind kinds ih =>
    obtain ⟨bytes, hbytes, h⟩ := bind_eq_ok.1 h
    obtain ⟨next, hnext, h⟩ := bind_eq_ok.1 h
    obtain ⟨⟨rest, stop⟩, hrest, h⟩ := bind_eq_ok.1 h
    cases h
    obtain ⟨-, rfl⟩ := checkedMul_eq_ok.1 hbytes
    obtain ⟨-, rfl⟩ := checkedAdd_eq_ok.1 hnext
    have hdvd : 8 ∣ offset + count kind * Convention.slotWidth kind := by
      rcases slotWidth_cases kind with hw | hw <;> rw [hw] <;> omega
    obtain ⟨hlast, hle, hpairwise, hareas, hmap⟩ := ih hrest hdvd
    refine ⟨hlast, by omega, List.pairwise_cons.2 ⟨fun a ha => (hareas a ha).2.1, hpairwise⟩, ?_,
      by simp [hmap]⟩
    intro a ha
    rcases List.mem_cons.1 ha with rfl | ha
    · exact ⟨hoffset, Nat.le_refl _, hle⟩
    · obtain ⟨hbase, hbefore, hbehind⟩ := hareas a ha
      exact ⟨hbase, by omega, hbehind⟩

/-- The number of slots of a class in a frame with the given number of stack slots. -/
def slotsOf (c : Convention) (stackSlots : Nat) (kind : StorageClass) : Nat :=
  if kind = .stack then stackSlots else c.slotCount kind

theorem withStackSlots_eq_ok (h : withStackSlots c n = .ok l) :
    layOut (slotsOf c n) 0 StorageClass.all = .ok (l.areas, l.size) := by
  obtain ⟨⟨areas, size⟩, hlayOut, h⟩ := bind_eq_ok.1 h
  cases h
  exact hlayOut

theorem all_getElem (kind : StorageClass) : StorageClass.all[kind.index]? = some kind := by
  cases kind <;> rfl

theorem area_mem (h : withStackSlots c n = .ok l) (kind : StorageClass) :
    ∃ hi : kind.index < l.areas.length, l.area kind = l.areas[kind.index] ∧
      (l.area kind).count = slotsOf c n kind ∧
      (l.area kind).width = Convention.slotWidth kind ∧ 8 ∣ (l.area kind).base ∧
        (l.area kind).stop ≤ l.size := by
  obtain ⟨-, -, -, hareas, hmap⟩ := layOut_eq_ok (withStackSlots_eq_ok h) (by omega)
  have hlength : l.areas.length = StorageClass.all.length := by simpa using congrArg List.length hmap
  have hi : kind.index < l.areas.length := by
    rw [hlength]
    cases kind <;> decide
  have harea : l.area kind = l.areas[kind.index] := by
    unfold area
    rw [List.getD_eq_getElem?_getD, List.getElem?_eq_getElem hi, Option.getD_some]
  have hslots : (l.areas[kind.index].count, l.areas[kind.index].width) = (slotsOf c n kind,
    Convention.slotWidth kind) := by
    have hget := congrArg (fun x => x[kind.index]?) hmap
    simp only [List.getElem?_map, all_getElem, List.getElem?_eq_getElem hi, Option.map_some,
      Option.some.injEq] at hget
    exact hget
  obtain ⟨hcount, hwidth⟩ := Prod.mk.inj hslots
  obtain ⟨hbase, -, hstop⟩ := hareas l.areas[kind.index] (List.getElem_mem hi)
  exact ⟨hi, harea, harea ▸ hcount, harea ▸ hwidth, harea ▸ hbase, harea ▸ hstop⟩

/-! ### Words of storages -/

theorem offset?_eq_some : l.offset? s = some o ↔
    s.index.toNat < (l.area s.kind).count ∧
      o = (l.area s.kind).base + s.index.toNat * (l.area s.kind).width := by
  unfold offset?
  by_cases h : s.index.toNat < (l.area s.kind).count <;> simp [h, eq_comm]

theorem of_offset_eq_ok (h : l.offset s = .ok o) : l.offset? s = some o := by
  unfold offset at h
  split at h
  · next ho =>
    cases h
    exact ho
  · cases h

/-- The byte offset of the slot of a class at an index. -/
def slotOffset (l : FrameLayout) (kind : StorageClass) (i : Nat) : Nat :=
  (l.area kind).base + i * (l.area kind).width

theorem slotOffset_bounds (h : withStackSlots c n = .ok l) (hi : i < l.slotCount kind) :
    8 ∣ l.slotOffset kind i ∧ (l.area kind).base ≤ l.slotOffset kind i ∧
      l.slotOffset kind i + Convention.slotWidth kind ≤ (l.area kind).stop := by
  obtain ⟨-, -, -, hwidth, hbase, -⟩ := area_mem h kind
  have hstop : i * (l.area kind).width + (l.area kind).width ≤ (l.area kind).count * (l.area kind).width := by
    rw [← Nat.succ_mul]
    exact Nat.mul_le_mul_right _ hi
  unfold Area.stop slotOffset
  rcases slotWidth_cases kind with hw | hw <;> rw [hwidth, hw] at hstop ⊢ <;> omega

theorem slotOffset_lt (h : withStackSlots c n = .ok l) (hi : i < l.slotCount kind) :
    l.slotOffset kind i / wordSize < l.wordCount := by
  obtain ⟨-, -, -, -, -, hstop⟩ := area_mem h kind
  obtain ⟨-, -, hend⟩ := slotOffset_bounds h hi
  unfold wordCount wordSize
  rcases slotWidth_cases kind with hw | hw <;> rw [hw] at hend <;> omega

theorem has_of_index_lt (h : withStackSlots c n = .ok l) (hs : s.index.toNat < slotsOf c n s.kind) :
    l.Has s := by
  obtain ⟨-, -, hcount, -⟩ := area_mem h s.kind
  have hi : s.index.toNat < l.slotCount s.kind := Nat.lt_of_lt_of_eq hs hcount.symm
  exact ⟨_, offset?_eq_some.2 ⟨hi, rfl⟩, slotOffset_lt h hi⟩

theorem area_disjoint (h : withStackSlots c n = .ok l) {kind' : StorageClass} (hlt : kind.index < kind'.index) :
    (l.area kind).stop ≤ (l.area kind').base := by
  obtain ⟨-, -, hpairwise, -, -⟩ := layOut_eq_ok (withStackSlots_eq_ok h) (by omega)
  obtain ⟨hi, harea, -⟩ := area_mem h kind
  obtain ⟨hj, harea', -⟩ := area_mem h kind'
  rw [harea, harea']
  exact List.pairwise_iff_getElem.1 hpairwise _ _ hi hj hlt

theorem index_injective {kind' : StorageClass} (h : kind.index = kind'.index) : kind = kind' := by
  cases kind <;> cases kind' <;> first | rfl | cases h

/-- The bytes of different slots do not overlap. -/
theorem slotOffset_disjoint (h : withStackSlots c n = .ok l) {kind' : StorageClass} {i' : Nat}
    (hi : i < l.slotCount kind) (hi' : i' < l.slotCount kind') (hne : ¬ (kind = kind' ∧ i = i')) :
    l.slotOffset kind i + Convention.slotWidth kind ≤ l.slotOffset kind' i' ∨
      l.slotOffset kind' i' + Convention.slotWidth kind' ≤ l.slotOffset kind i := by
  obtain ⟨-, hbase, hstop⟩ := slotOffset_bounds h hi
  obtain ⟨-, hbase', hstop'⟩ := slotOffset_bounds h hi'
  rcases Nat.lt_trichotomy kind.index kind'.index with hlt | heq | hlt
  · have := area_disjoint h hlt
    omega
  · obtain rfl := index_injective heq
    obtain ⟨-, -, -, hwidth, -, -⟩ := area_mem h kind
    unfold slotOffset
    rw [hwidth]
    -- Slots of one class follow each other.
    rcases Nat.lt_or_gt_of_ne fun heq => hne ⟨rfl, heq⟩ with hlt | hlt
    · have := Nat.mul_le_mul_right (Convention.slotWidth kind) (Nat.succ_le_of_lt hlt)
      rw [Nat.succ_mul] at this
      omega
    · have := Nat.mul_le_mul_right (Convention.slotWidth kind) (Nat.succ_le_of_lt hlt)
      rw [Nat.succ_mul] at this
      omega
  · have := area_disjoint h hlt
    omega

/-- Different slots share no word. -/
theorem slotOffset_injective (h : withStackSlots c n = .ok l) {kind' : StorageClass} {i' : Nat}
    (hi : i < l.slotCount kind) (hi' : i' < l.slotCount kind')
    (heq : l.slotOffset kind i / wordSize = l.slotOffset kind' i' / wordSize) : kind = kind' ∧ i = i' := by
  refine Classical.byContradiction fun hne => ?_
  have hdvd := (slotOffset_bounds h hi).1
  have hdvd' := (slotOffset_bounds h hi').1
  have hdisjoint := slotOffset_disjoint h hi hi' hne
  unfold wordSize at heq
  rcases slotWidth_cases kind with hw | hw <;> rcases slotWidth_cases kind' with hw' | hw' <;> omega

theorem withStackSlots_apart (h : withStackSlots c n = .ok l) (hst : s.sameLocation t = false) :
    l.Apart s t := by
  intro o o' ho ho' heq
  obtain ⟨hs, rfl⟩ := offset?_eq_some.1 ho
  obtain ⟨ht, rfl⟩ := offset?_eq_some.1 ho'
  obtain ⟨hkind, hindex⟩ := slotOffset_injective h hs ht heq
  simp [Storage.sameLocation, hkind, BitVec.eq_of_toNat_eq hindex] at hst

/-! ### Coverings -/

theorem foldl_stackSlots_le (storages : List Storage) (start : Nat) :
    storages.foldl (fun n s => if s.kind = .stack then max n (s.index.toNat + 1) else n) start ≤ n ↔
      start ≤ n ∧ ∀ s ∈ storages, s.kind = .stack → s.index.toNat < n := by
  induction storages generalizing start with
  | nil => simp
  | cons s storages ih =>
    rw [List.foldl_cons, ih]
    by_cases hs : s.kind = .stack
    · simp only [hs, if_true, List.forall_mem_cons]
      constructor
      · rintro ⟨hle, hrest⟩
        exact ⟨by omega, fun _ => by omega, hrest⟩
      · rintro ⟨hle, hlt, hrest⟩
        have := hlt trivial
        exact ⟨by omega, hrest⟩
    · simp [hs]

theorem stackSlots_le {storages : List Storage} :
    stackSlots storages ≤ n ↔ ∀ s ∈ storages, s.kind = .stack → s.index.toNat < n := by
  unfold stackSlots
  rw [foldl_stackSlots_le]
  simp

/-- A call that moves nothing through the stack has the frame of its registers. -/
theorem covering_registers {storages : List Storage} (h : ∀ s ∈ storages, s.kind ≠ .stack) :
    covering c (Storage.sortedSet storages) = withStackSlots c 0 := by
  have hnone : stackSlots (Storage.sortedSet storages) ≤ 0 :=
    stackSlots_le.2 fun s hs hkind => absurd hkind (h s (Storage.mem_sortedSet.1 hs))
  rw [covering, Nat.le_zero.1 hnone]

theorem covering_sysV {storages : List Storage} (h : ∀ s ∈ storages, s.kind ≠ .stack) :
    covering .sysV (Storage.sortedSet storages) = .ok
      ⟨[⟨0, 6, 8⟩, ⟨48, 8, 8⟩, ⟨112, 0, 8⟩, ⟨112, 0, 8⟩, ⟨112, 2, 8⟩, ⟨128, 2, 8⟩, ⟨144, 2, 16⟩], 176⟩ :=
  covering_registers h

theorem covering_aarch64 {storages : List Storage} (h : ∀ s ∈ storages, s.kind ≠ .stack) :
    covering .aarch64 (Storage.sortedSet storages) = .ok
      ⟨[⟨0, 8, 8⟩, ⟨64, 8, 8⟩, ⟨128, 0, 8⟩, ⟨128, 1, 8⟩, ⟨136, 2, 8⟩, ⟨152, 4, 8⟩, ⟨184, 0, 16⟩], 184⟩ :=
  covering_registers h

/-- Every storage that a frame was made for is part of it, if it is one of the convention. -/
theorem covering_has {storages : List Storage} (h : covering c storages = .ok l) (hs : s ∈ storages)
    (hregister : s.kind ≠ .stack → s.index.toNat < c.slotCount s.kind) : l.Has s := by
  refine has_of_index_lt h ?_
  unfold slotsOf
  split
  · next hstack => exact stackSlots_le.1 (Nat.le_refl _) s hs hstack
  · next hkind => exact hregister hkind

theorem exists_layOut (hcount : ∀ kind, count kind ≤ 65536) (h : offset + kinds.length * 1048576 < wordLimit) :
    ∃ r, layOut count offset kinds = .ok r := by
  induction kinds generalizing offset with
  | nil => exact ⟨_, rfl⟩
  | cons kind kinds ih =>
    have hbytes : count kind * Convention.slotWidth kind ≤ 1048576 := by
      have := hcount kind
      rcases slotWidth_cases kind with hw | hw <;> rw [hw] <;> omega
    rw [List.length_cons] at h
    obtain ⟨⟨rest, last⟩, hrest⟩ := @ih (offset + count kind * Convention.slotWidth kind) (by omega)
    refine ⟨(⟨offset, count kind, Convention.slotWidth kind⟩ :: rest, last), ?_⟩
    refine bind_eq_ok.2 ⟨_, checkedMul_eq_ok.2 ⟨by omega, rfl⟩, ?_⟩
    refine bind_eq_ok.2 ⟨_, checkedAdd_eq_ok.2 ⟨by omega, rfl⟩, ?_⟩
    exact bind_eq_ok.2 ⟨_, hrest, rfl⟩

/-- Indices have 16 bits, so that there is a frame for any storages. -/
theorem exists_covering (c : Convention) (storages : List Storage) : ∃ l, covering c storages = .ok l := by
  have hle : stackSlots storages ≤ 65536 := stackSlots_le.2 fun s _ _ => s.index.isLt
  have hcount : ∀ kind, slotsOf c (stackSlots storages) kind ≤ 65536 := by
    intro kind
    have := c.slotCount_le kind
    unfold slotsOf
    split <;> omega
  obtain ⟨⟨areas, size⟩, h⟩ := @exists_layOut _ StorageClass.all 0 hcount (by decide)
  exact ⟨⟨areas, size⟩, bind_eq_ok.2 ⟨_, h, rfl⟩⟩

end FrameLayout

namespace Frame

/-- The word of a storage, zero if it is not part of the frame. -/
def wordAt (f : Frame) (s : Storage) : Word :=
  match f.read s with
  | .ok w => w
  | .error _ => 0

theorem wordAt_eq (ho : f.layout.offset? s = some o) : f.wordAt s = f.words[o / wordSize]?.getD 0 := by
  have hread : f.read s = f.readWord o := by
    unfold read FrameLayout.offset
    rw [ho]
    rfl
  unfold wordAt
  rw [hread]
  unfold readWord
  cases f.words[o / wordSize]? <;> rfl

theorem read_eq (h : f.layout.Has s) : f.read s = .ok (f.wordAt s) := by
  obtain ⟨o, ho, hlt⟩ := h
  have hword : o / wordSize < f.words.size := by rwa [f.size_words]
  rw [wordAt_eq ho, Array.getElem?_eq_getElem hword]
  unfold read FrameLayout.offset
  rw [ho]
  show f.readWord o = _
  unfold readWord
  rw [Array.getElem?_eq_getElem hword]
  rfl

theorem wordAt_congr {g : Frame} (hlayout : g.layout = f.layout)
    (hwords : ∀ i, f.layout.WordOf s i → g.words[i]? = f.words[i]?) : g.wordAt s = f.wordAt s := by
  cases ho : f.layout.offset? s with
  | none =>
    unfold wordAt read FrameLayout.offset
    rw [hlayout, ho]
    rfl
  | some o => rw [wordAt_eq ho, wordAt_eq (f := g) (hlayout ▸ ho), hwords _ ⟨o, ho, rfl⟩]

theorem wordAt_setWord (ho : f.layout.offset? s = some o) (hlt : o / wordSize < f.layout.wordCount) :
    (f.setWord o w).wordAt s = w := by
  have hword : o / wordSize < f.words.size := by rwa [f.size_words]
  rw [wordAt_eq (f := f.setWord o w) ho]
  simp [setWord, hword]

theorem words_setWord {i : Nat} (ho : f.layout.offset? s = some o) (hi : ¬ f.layout.WordOf s i) :
    (f.setWord o w).words[i]? = f.words[i]? :=
  Array.getElem?_setIfInBounds_ne fun heq => hi ⟨o, ho, heq⟩

end Frame

end ForeignCall
