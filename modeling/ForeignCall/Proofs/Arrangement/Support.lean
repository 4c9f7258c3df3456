import ForeignCall.Proofs.Arrangement.Placement
import ForeignCall.Proofs.Leaves

/-!
# Which layouts can be placed

* `Decides P x`: the computation gives a value if `P` holds, and otherwise refuses a layout;
* `TailFits`: the last of the 8-byte pieces of an aggregate has a size that some integer kind has;
* `Convention.place_decides`, `Convention.placeResult?_decides`: a layout can be placed iff its size allows
  it, whatever registers are left.
-/

namespace ForeignCall

variable {α β : Type} {x : Arranging α} {P Q : Prop} {l : Layout} {c : Cursor} {size : Nat}
  {chunks : List (Nat × Nat)}

/-! ### Computations that decide -/

/-- The computation gives a value if `P` holds, and otherwise refuses a layout. -/
def Decides (P : Prop) (x : Arranging α) : Prop := (P → ∃ a, x = .ok a) ∧ (¬ P → ∃ cause, x = refuse cause)

namespace Decides

theorem of_ok {a : α} (h : x = .ok a) (hP : P) : Decides P x := ⟨fun _ => ⟨a, h⟩, fun hn => absurd hP hn⟩

theorem of_refuse {cause : Unsupported} (h : x = refuse cause) (hP : ¬ P) : Decides P x :=
  ⟨fun hp => absurd hp hP, fun _ => ⟨cause, h⟩⟩

theorem congr (h : Decides P x) (hPQ : P ↔ Q) : Decides Q x :=
  ⟨fun hq => h.1 (hPQ.2 hq), fun hq => h.2 fun hp => hq (hPQ.1 hp)⟩

theorem bind {f : α → Arranging β} (h : Decides P x) (hf : ∀ a, x = .ok a → Decides Q (f a)) :
    Decides (P ∧ Q) (x >>= f) := by
  by_cases hP : P
  · obtain ⟨a, ha⟩ := h.1 hP
    rw [ha, ok_bind]
    exact (hf a ha).congr (and_iff_right hP).symm
  · obtain ⟨cause, hcause⟩ := h.2 hP
    exact .of_refuse (by rw [hcause]; rfl) fun hPQ => hP hPQ.1

theorem map {f : α → Arranging β} (h : Decides P x) (hf : ∀ a, x = .ok a → ∃ b, f a = .ok b) :
    Decides P (x >>= f) := by
  refine (h.bind (Q := True) fun a ha => ?_).congr (and_iff_left trivial)
  obtain ⟨b, hb⟩ := hf a ha
  exact .of_ok hb trivial

end Decides

/-! ### Sizes of pieces -/

/-- The last of the 8-byte pieces has a size that some integer kind has. -/
def TailFits (size : Nat) : Prop := size % 8 ≠ 3 ∧ size % 8 ≠ 5 ∧ size % 8 ≠ 6 ∧ size % 8 ≠ 7

instance : DecidablePred TailFits := fun _ => inferInstanceAs (Decidable (_ ∧ _))

/-- Some integer kind has the size. -/
def IntegerSize (size : Nat) : Prop := size = 1 ∨ size = 2 ∨ size = 4 ∨ size = 8

theorem integerKind_decides : Decides (IntegerSize size) (integerKind l size) := by
  by_cases h : IntegerSize size
  · rcases id h with rfl | rfl | rfl | rfl <;> exact .of_ok rfl h
  · refine .of_refuse (show _ = refuse (.integerPiece l size) from ?_) h
    unfold IntegerSize at h
    have hnone : Primitive.integralOfSize? size = none := by
      unfold Primitive.integralOfSize?
      split <;> first | rfl | omega
    unfold integerKind
    rw [hnone]

theorem Primitive.byteSize_of_isFloat (p : Primitive) (h : p.isFloat = true) :
    p.byteSize = 4 ∨ p.byteSize = 8 := by
  cases p with
  | f32 => exact .inl rfl
  | f64 => exact .inr rfl
  | _ => cases h

theorem floatKind_eq (h : size = 4 ∨ size = 8) : ∃ kind, floatKind l size = .ok kind := by
  rcases h with rfl | rfl
  · exact ⟨.f32, rfl⟩
  · exact ⟨.f64, rfl⟩

theorem eightbytes_fit : (∀ chunk ∈ eightbytes size, IntegerSize chunk.2) ↔ TailFits size := by
  unfold IntegerSize TailFits
  constructor
  · intro h
    by_cases hzero : size % 8 = 0
    · omega
    · have hlast := h _ (List.mem_map_of_mem (List.mem_range.2 (show size / 8 < (size + 7) / 8 by omega)))
      dsimp only at hlast
      omega
  · intro h chunk hchunk
    obtain ⟨i, hi, rfl⟩ := List.mem_map.1 hchunk
    have := List.mem_range.1 hi
    dsimp only
    omega

theorem length_eightbytes (size : Nat) : (eightbytes size).length = (size + 7) / 8 := by simp [eightbytes]

/-! ### Registers that are left -/

namespace Cursor

theorem integer?_of_free (h : 0 < c.freeIntegers) : c.integer? =
    .ok (some (.slot c.integerClass c.integers (Convention.slotWidth c.integerClass)),
      { c with integers := c.integers + 1 }) := by
  have hstorage : c.convention.storage c.integerClass c.integers = .ok _ :=
    if_pos (.inr (by unfold freeIntegers at h; omega))
  rw [integer?, if_pos h, hstorage]
  rfl

theorem vector?_of_free (h : 0 < c.freeVectors) : c.vector? =
    .ok (some (.slot c.vectorClass c.vectors (Convention.slotWidth c.vectorClass)),
      { c with vectors := c.vectors + 1 }) := by
  have hstorage : c.convention.storage c.vectorClass c.vectors = .ok _ :=
    if_pos (.inr (by unfold freeVectors at h; omega))
  rw [vector?, if_pos h, hstorage]
  rfl

theorem exists_integer (c : Cursor) : ∃ r, c.integer = .ok r := by
  by_cases h : 0 < c.freeIntegers
  · exact ⟨_, by rw [integer, integer?_of_free h]; rfl⟩
  · exact ⟨_, by rw [integer, integer?, if_neg h]; rfl⟩

theorem exists_scalar (c : Cursor) (kind : Primitive) : ∃ r, c.scalar kind = .ok r := by
  unfold scalar
  split
  · by_cases h : 0 < c.freeVectors
    · exact ⟨_, by rw [vector?_of_free h]; rfl⟩
    · exact ⟨_, by rw [vector?, if_neg h]; rfl⟩
  · exact c.exists_integer

end Cursor

/-! ### Pieces -/

theorem stackPiecesFrom_decides :
    Decides (∀ chunk ∈ chunks, IntegerSize chunk.2) (stackPiecesFrom l c chunks) := by
  induction chunks generalizing c with
  | nil => exact .of_ok rfl (by simp)
  | cons chunk chunks ih =>
    rw [List.forall_mem_cons]
    exact integerKind_decides.bind fun kind _ => ih.map fun _ _ => ⟨_, rfl⟩

theorem stackPieces_decides (hsize : l.byteSize = .ok size) : Decides (TailFits size) (stackPieces l c) := by
  unfold stackPieces
  rw [lift_overflow_halt_eq_ok.2 hsize, ok_bind]
  exact stackPiecesFrom_decides.congr eightbytes_fit

theorem integerPiecesFrom_decides (hfree : chunks.length ≤ c.freeIntegers) :
    Decides (∀ chunk ∈ chunks, IntegerSize chunk.2) (integerPiecesFrom l c chunks) := by
  induction chunks generalizing c with
  | nil => exact .of_ok rfl (by simp)
  | cons chunk chunks ih =>
    rw [List.length_cons] at hfree
    rw [List.forall_mem_cons]
    refine integerKind_decides.bind fun kind _ => ?_
    rw [Cursor.integer?_of_free (by omega), ok_bind]
    refine (ih ?_).map fun _ _ => ⟨_, rfl⟩
    unfold Cursor.freeIntegers at hfree ⊢
    dsimp only
    omega

theorem integerPieces_decides (hsize : l.byteSize = .ok size) (hfree : (size + 7) / 8 ≤ c.freeIntegers) :
    Decides (TailFits size) (integerPieces l c) := by
  unfold integerPieces
  rw [lift_overflow_halt_eq_ok.2 hsize, ok_bind]
  exact (integerPiecesFrom_decides (by rwa [length_eightbytes])).congr eightbytes_fit

theorem checkNotEmpty_of_pos (hsize : l.byteSize = .ok size) (hpos : 0 < size) : checkNotEmpty l = .ok () := by
  unfold checkNotEmpty
  rw [lift_overflow_halt_eq_ok.2 hsize, ok_bind, if_neg (by omega)]
  rfl

theorem checkNotEmpty_decides (hsize : l.byteSize = .ok size) : Decides (0 < size) (checkNotEmpty l) := by
  unfold checkNotEmpty
  rw [lift_overflow_halt_eq_ok.2 hsize, ok_bind]
  by_cases h : size = 0
  · exact .of_refuse (if_pos h) (by omega)
  · exact .of_ok (if_neg h) (by omega)

/-! ### System V -/

namespace SysV

theorem registerPieces_decides {classes : List (Nat × Nat × EightbyteClass)}
    (hsse : ∀ e ∈ classes, e.2.2 = .sse → e.2.1 = 4 ∨ e.2.1 = 8)
    (hintegers : (classes.filter fun e => e.2.2 == .integer).length ≤ c.freeIntegers)
    (hvectors : classes.length - (classes.filter fun e => e.2.2 == .integer).length ≤ c.freeVectors) :
    Decides (∀ e ∈ classes, IntegerSize e.2.1) (registerPieces l c classes) := by
  induction classes generalizing c with
  | nil => exact .of_ok rfl (by simp)
  | cons e classes ih =>
    obtain ⟨offset, size, kind⟩ := e
    have hle := List.length_filter_le (fun e : Nat × Nat × EightbyteClass => e.2.2 == .integer) classes
    have hrest : ∀ e ∈ classes, e.2.2 = .sse → e.2.1 = 4 ∨ e.2.1 = 8 :=
      fun e he => hsse e (List.mem_cons_of_mem _ he)
    rw [List.forall_mem_cons]
    rw [registerPieces]
    cases kind with
    | integer =>
      rw [List.filter_cons_of_pos rfl, List.length_cons] at hintegers hvectors
      rw [List.length_cons] at hvectors
      rw [register?, Cursor.integer?_of_free (by omega), ok_bind]
      refine integerKind_decides.bind fun moved _ => (ih hrest ?_ ?_).map fun _ _ => ⟨_, rfl⟩
      · unfold Cursor.freeIntegers at hintegers ⊢
        dsimp only
        omega
      · exact Nat.le_trans (by omega) hvectors
    | sse =>
      have hsize : size = 4 ∨ size = 8 := hsse (offset, size, .sse) (by simp) rfl
      obtain ⟨moved, hmoved⟩ := floatKind_eq (l := l) hsize
      have hfits : IntegerSize size := by
        unfold IntegerSize
        omega
      rw [List.filter_cons_of_neg (by simp)] at hintegers hvectors
      rw [List.length_cons] at hvectors
      rw [register?, Cursor.vector?_of_free (by omega), ok_bind]
      dsimp only
      rw [pieceKind, hmoved, ok_bind]
      have hrest := ih (c := { c with vectors := c.vectors + 1 }) hrest hintegers (by
        unfold Cursor.freeVectors at hvectors ⊢
        dsimp only
        omega)
      exact (hrest.map fun _ _ => ⟨_, rfl⟩).congr (and_iff_right hfits).symm

/-- An eightbyte with a floating-point number only travels in a vector register, so its size is that of such
a number: the number is aligned, and its size divides that of the aggregate. -/
theorem size_of_sse {fields : List ScalarField} {offset length : Nat} (hsize : l.byteSize = .ok size)
    (hfields : l.scalars = .ok fields) (hchunk : (offset, length) ∈ eightbytes size)
    (hclass : classOf fields offset = .sse) : length = 4 ∨ length = 8 := by
  obtain ⟨f, hf, hfloat, hle⟩ : ∃ f ∈ fields, f.kind.isFloat = true ∧ offset ≤ f.offset := by
    unfold classOf at hclass
    dsimp only at hclass
    split at hclass
    · next h =>
      rw [Bool.and_eq_true, List.all_eq_true] at h
      obtain ⟨hne, hall⟩ := h
      obtain ⟨f, hf⟩ := List.exists_mem_of_ne_nil _ (show fields.filter _ ≠ [] by
        intro hnil
        rw [hnil] at hne
        cases hne)
      obtain ⟨hmem, hinside⟩ := List.mem_filter.1 hf
      rw [Bool.and_eq_true, decide_eq_true_eq] at hinside
      exact ⟨f, hmem, hall f hf, hinside.1⟩
    · cases hclass
  obtain ⟨i, -, hi⟩ := List.mem_map.1 hchunk
  cases hi
  have hend := ((Layout.scalars_ordered hfields hsize).bounds.2 f hf).2
  have hdvd := Nat.dvd_trans (Layout.scalars_aligned hfields f hf).1 (l.alignment_dvd_byteSize hsize)
  obtain hfour | height := f.kind.byteSize_of_isFloat hfloat
  · rw [hfour] at hend hdvd
    omega
  · rw [height] at hend hdvd
    omega

theorem classify_empty (hsize : l.byteSize = .ok 0) : classify l = refuse (.emptyAggregate l) := by
  unfold classify checkNotEmpty
  rw [lift_overflow_halt_eq_ok.2 hsize]
  rfl

theorem classify_large (hsize : l.byteSize = .ok size) (hlarge : maxRegisterAggregate < size) :
    classify l = .ok none := by
  have hempty : checkNotEmpty l = .ok () := checkNotEmpty_of_pos hsize (by omega)
  unfold classify
  rw [hempty, ok_bind, lift_overflow_halt_eq_ok.2 hsize, ok_bind, if_pos hlarge]
  rfl

/-- No leaf is misaligned, so a small aggregate is cut into eightbytes. -/
theorem classify_small (hsize : l.byteSize = .ok size) (hlimit : size < wordLimit) (hpos : 0 < size)
    (hsmall : size ≤ maxRegisterAggregate) :
    ∃ classes, classify l = .ok (some classes) ∧ classes.map (fun e => (e.1, e.2.1)) = eightbytes size ∧
      ∀ e ∈ classes, e.2.2 = .sse → e.2.1 = 4 ∨ e.2.1 = 8 := by
  obtain ⟨fields, hfields⟩ := Layout.exists_scalars hsize hlimit
  have hempty : checkNotEmpty l = .ok () := checkNotEmpty_of_pos hsize (by omega)
  have haligned : (fields.any fun f => f.offset % f.kind.byteSize ≠ 0) = false := by
    rw [List.any_eq_false]
    intro f hf
    simpa using Nat.mod_eq_zero_of_dvd (Layout.scalars_aligned hfields f hf).2
  have hclassify : classify l =
      .ok (some ((eightbytes size).map fun e => (e.1, e.2, classOf fields e.1))) := by
    unfold classify
    rw [hempty, ok_bind, lift_overflow_halt_eq_ok.2 hsize, ok_bind, if_neg (by omega),
      lift_overflow_halt_eq_ok.2 hfields, ok_bind, haligned]
    rfl
  refine ⟨_, hclassify, ?_, ?_⟩
  · rw [List.map_map]
    exact List.map_id _
  · intro e he hclass
    obtain ⟨⟨offset, length⟩, hchunk, rfl⟩ := List.mem_map.1 he
    exact size_of_sse hsize hfields hchunk hclass

/-- **An aggregate can be passed iff its size allows it**, whatever registers are left. -/
theorem argumentPieces_decides (hsize : l.byteSize = .ok size) (hlimit : size < wordLimit) :
    Decides (0 < size ∧ TailFits size) (argumentPieces l c) := by
  unfold argumentPieces
  obtain rfl | hpos := Nat.eq_zero_or_pos size
  · refine .of_refuse (show _ = refuse (.emptyAggregate l) from ?_) (by simp)
    rw [classify_empty hsize]
    rfl
  refine Decides.congr ?_ (and_iff_right hpos).symm
  by_cases hlarge : maxRegisterAggregate < size
  · rw [classify_large hsize hlarge, ok_bind]
    exact stackPieces_decides hsize
  obtain ⟨classes, hclasses, hchunks, hsse⟩ := classify_small hsize hlimit hpos (by omega)
  rw [hclasses, ok_bind]
  dsimp only
  split
  · next henough =>
    refine (registerPieces_decides hsse henough.1 henough.2).congr ?_
    rw [← eightbytes_fit, ← hchunks, List.forall_mem_map]
  · exact stackPieces_decides hsize

theorem placeResult?_decides_aggregate (hsize : l.byteSize = .ok size) (hlimit : size < wordLimit)
    (hl : l.isAggregate = true) :
    Decides (0 < size ∧ (TailFits size ∨ maxRegisterAggregate < size)) (placeResult? l) := by
  unfold placeResult?
  dsimp only
  split
  · cases hl
  · cases hl
  obtain rfl | hpos := Nat.eq_zero_or_pos size
  · refine .of_refuse (show _ = refuse (.emptyAggregate l) from ?_) (by simp)
    rw [classify_empty hsize]
    rfl
  by_cases hlarge : maxRegisterAggregate < size
  · rw [classify_large hsize hlarge, ok_bind]
    exact .of_ok rfl ⟨hpos, .inr hlarge⟩
  obtain ⟨classes, hclasses, hchunks, hsse⟩ := classify_small hsize hlimit hpos (by omega)
  rw [hclasses, ok_bind]
  have hlength : classes.length ≤ 2 := by
    have hlength := congrArg List.length hchunks
    rw [List.length_map, length_eightbytes] at hlength
    unfold maxRegisterAggregate at hlarge
    omega
  have hfilter := List.length_filter_le (fun e : Nat × Nat × EightbyteClass => e.2.2 == .integer) classes
  have hdecides := registerPieces_decides (l := l) (c := .results .sysV) hsse (Nat.le_trans hfilter hlength)
    (Nat.le_trans (Nat.sub_le _ _) hlength)
  refine (hdecides.map fun _ _ => ⟨_, rfl⟩).congr ?_
  rw [and_iff_right hpos, or_iff_left hlarge, ← eightbytes_fit, ← hchunks, List.forall_mem_map]

end SysV

/-! ### AArch64 -/

namespace AArch64

variable {kind : Primitive} {fields : List ScalarField}

theorem exists_homogeneous? (hsize : l.byteSize = .ok size) (hlimit : size < wordLimit) :
    ∃ r, homogeneous? l = .ok r := by
  obtain ⟨fields, hfields⟩ := Layout.exists_scalars hsize hlimit
  unfold homogeneous?
  rw [lift_overflow_halt_eq_ok.2 hfields, ok_bind]
  cases fields with
  | nil => exact ⟨_, rfl⟩
  | cons first rest =>
    dsimp only
    split
    · next h =>
      rw [Bool.and_eq_true, Bool.and_eq_true, decide_eq_true_eq] at h
      have hlength : (first :: rest).length ≤ 4 := h.1.2
      have hbytes := Nat.mul_le_mul hlength first.kind.byteSize_le
      rw [lift_overflow_halt_eq_ok.2 (checkedMul_eq_ok.2 ⟨Nat.lt_of_le_of_lt hbytes (by decide), rfl⟩), ok_bind,
        lift_overflow_halt_eq_ok.2 hsize, ok_bind]
      exact ⟨_, rfl⟩
    · exact ⟨_, rfl⟩

theorem homogeneous?_isFloat (h : homogeneous? l = .ok (some (kind, fields))) : kind.isFloat = true := by
  obtain ⟨fields', -, h⟩ := bind_eq_ok.1 h
  cases fields' with
  | nil => cases h
  | cons first rest =>
    dsimp only at h
    split at h
    · next hall =>
      obtain ⟨bytes, -, h⟩ := bind_eq_ok.1 h
      obtain ⟨size, -, h⟩ := bind_eq_ok.1 h
      split at h
      · cases h
        rw [Bool.and_eq_true, Bool.and_eq_true] at hall
        exact hall.1.1
      · cases h
    · cases h

/-- Homogeneous aggregates can be cut into pieces for the stack. -/
theorem tailFits_of_homogeneous (h : homogeneous? l = .ok (some (kind, fields)))
    (hsize : l.byteSize = .ok size) :
    TailFits size := by
  obtain rfl := ok_unique hsize (homogeneous?_eq_ok h).2.2.2.2
  unfold TailFits
  rcases kind.byteSize_of_isFloat (homogeneous?_isFloat h) with heq | heq <;> rw [heq] <;> omega

theorem exists_vectorPieces (kind : Primitive) (hfree : fields.length ≤ c.freeVectors) :
    ∃ r, vectorPieces kind c fields = .ok r := by
  induction fields generalizing c with
  | nil => exact ⟨_, rfl⟩
  | cons f fields ih =>
    rw [List.length_cons] at hfree
    obtain ⟨r, hr⟩ := ih (c := { c with vectors := c.vectors + 1 }) (by
      unfold Cursor.freeVectors at hfree ⊢
      dsimp only
      omega)
    exact ⟨_, bind_eq_ok.2 ⟨_, Cursor.vector?_of_free (by omega), bind_eq_ok.2 ⟨r, hr, rfl⟩⟩⟩

theorem exists_vectorResultPieces (kind : Primitive) (index : Nat) (hindex : index + fields.length ≤ 4) :
    ∃ ps, vectorResultPieces kind index fields = .ok ps := by
  induction fields generalizing index with
  | nil => exact ⟨_, rfl⟩
  | cons f fields ih =>
    rw [List.length_cons] at hindex
    obtain ⟨ps, hps⟩ := ih (index + 1) (by omega)
    have hstorage : Convention.aarch64.storage .vectorRet index = .ok _ :=
      if_pos (.inr (show index < 4 by omega))
    exact ⟨_, bind_eq_ok.2 ⟨_, lift_fault_eq_ok.2 hstorage, bind_eq_ok.2 ⟨ps, hps, rfl⟩⟩⟩

theorem placeAggregate_decides (hsize : l.byteSize = .ok size) (hlimit : size < wordLimit) :
    Decides (0 < size ∧ (TailFits size ∨ maxRegisterAggregate < size)) (placeAggregate l c) := by
  unfold placeAggregate
  refine (checkNotEmpty_decides hsize).bind fun _ _ => ?_
  obtain ⟨homogeneous, hhomogeneous⟩ := exists_homogeneous? hsize hlimit
  rw [hhomogeneous, ok_bind]
  cases homogeneous with
  | some r =>
    obtain ⟨kind, fields⟩ := r
    have htail := tailFits_of_homogeneous hhomogeneous hsize
    dsimp only
    split
    · next hfree =>
      obtain ⟨r, hr⟩ := exists_vectorPieces kind hfree
      rw [hr]
      exact .of_ok rfl (.inl htail)
    · refine ((stackPieces_decides hsize).map fun _ _ => ⟨_, rfl⟩).congr ?_
      simp [htail]
  | none =>
    dsimp only
    rw [lift_overflow_halt_eq_ok.2 hsize, ok_bind]
    split
    · next hlarge =>
      obtain ⟨r, hr⟩ := c.exists_integer
      rw [hr]
      exact .of_ok rfl (.inr hlarge)
    · next hlarge =>
      rw [or_iff_left hlarge]
      split
      · next hfree => exact (integerPieces_decides hsize hfree).map fun _ _ => ⟨_, rfl⟩
      · exact (stackPieces_decides hsize).map fun _ _ => ⟨_, rfl⟩

theorem placeResult?_decides_aggregate (hsize : l.byteSize = .ok size) (hlimit : size < wordLimit)
    (hl : l.isAggregate = true) :
    Decides (0 < size ∧ (TailFits size ∨ maxRegisterAggregate < size)) (placeResult? l) := by
  unfold placeResult?
  dsimp only
  split
  · cases hl
  · cases hl
  refine (checkNotEmpty_decides hsize).bind fun _ _ => ?_
  obtain ⟨homogeneous, hhomogeneous⟩ := exists_homogeneous? hsize hlimit
  rw [hhomogeneous, ok_bind]
  cases homogeneous with
  | some r =>
    obtain ⟨kind, fields⟩ := r
    have hlength := (homogeneous?_eq_ok hhomogeneous).2.2.1
    obtain ⟨ps, hps⟩ := exists_vectorResultPieces kind 0 (show 0 + fields.length ≤ 4 by
      rwa [Nat.zero_add])
    dsimp only
    rw [hps]
    exact .of_ok rfl (.inl (tailFits_of_homogeneous hhomogeneous hsize))
  | none =>
    dsimp only
    rw [lift_overflow_halt_eq_ok.2 hsize, ok_bind]
    split
    · next hlarge => exact .of_ok rfl (.inr hlarge)
    · next hlarge =>
      rw [or_iff_left hlarge]
      have hfree : (size + 7) / 8 ≤ (Cursor.results .aarch64).freeIntegers := by
        unfold maxRegisterAggregate at hlarge
        exact show (size + 7) / 8 ≤ 2 by omega
      exact (integerPieces_decides hsize hfree).map fun _ _ => ⟨_, rfl⟩

end AArch64

/-! ### Both conventions -/

/-- An argument that can be passed: an aggregate is not empty, and its last piece has a size that some
integer kind has unless it goes by reference. -/
def Convention.Passes (convention : Convention) (l : Layout) : Prop :=
  l.isAggregate = true → ∀ size, l.byteSize = .ok size →
    0 < size ∧ (TailFits size ∨ convention = .aarch64 ∧ maxRegisterAggregate < size)

/-- A result that can be returned, under either convention: a large aggregate goes to memory. -/
def Layout.Returnable (l : Layout) : Prop :=
  l.isAggregate = true → ∀ size, l.byteSize = .ok size → 0 < size ∧
    (TailFits size ∨ maxRegisterAggregate < size)

theorem Layout.forall_size_iff {R : Nat → Prop} (hl : l.isAggregate = true) (hsize : l.byteSize = .ok size) :
    (l.isAggregate = true → ∀ n, l.byteSize = .ok n → R n) ↔ R size :=
  ⟨fun h => h hl size hsize, fun h _ _ hn => ok_unique hsize hn ▸ h⟩

namespace Convention

variable {convention : Convention}

/-- **A layout can be an argument iff its size allows it**, whatever registers are left. -/
theorem place_decides (hl : l.Sized) : Decides (convention.Passes l) (convention.place l c) := by
  obtain ⟨size, hsize, hlimit⟩ := hl
  by_cases haggregate : l.isAggregate = true
  · refine Decides.congr ?_ (Layout.forall_size_iff haggregate hsize).symm
    cases convention with
    | sysV =>
      simp only [reduceCtorEq, false_and, or_false]
      show Decides _ (SysV.place l c)
      unfold SysV.place
      split
      · cases haggregate
      · cases haggregate
      · exact (SysV.argumentPieces_decides hsize hlimit).map fun _ _ => ⟨_, rfl⟩
    | aarch64 =>
      simp only [true_and]
      show Decides _ (AArch64.place l c)
      unfold AArch64.place
      split
      · cases haggregate
      · cases haggregate
      · exact AArch64.placeAggregate_decides hsize hlimit
  · have hpasses : convention.Passes l := fun h => absurd h haggregate
    cases l with
    | value kind =>
      obtain ⟨r, hr⟩ := c.exists_scalar kind
      cases convention <;> exact .of_ok (bind_eq_ok.2 ⟨r, hr, rfl⟩) hpasses
    | address =>
      obtain ⟨r, hr⟩ := c.exists_integer
      cases convention <;> exact .of_ok (bind_eq_ok.2 ⟨r, hr, rfl⟩) hpasses
    | _ => exact absurd rfl haggregate

/-- **A layout can be a result iff its size allows it.** -/
theorem placeResult?_decides (convention : Convention) (hl : l.Sized) :
    Decides l.Returnable (convention.placeResult? l) := by
  obtain ⟨size, hsize, hlimit⟩ := hl
  by_cases haggregate : l.isAggregate = true
  · refine Decides.congr ?_ (Layout.forall_size_iff haggregate hsize).symm
    cases convention with
    | sysV => exact SysV.placeResult?_decides_aggregate hsize hlimit haggregate
    | aarch64 => exact AArch64.placeResult?_decides_aggregate hsize hlimit haggregate
  · have hreturnable : l.Returnable := fun h => absurd h haggregate
    cases l with
    | value kind =>
      obtain ⟨r, hr⟩ := (Cursor.results convention).exists_scalar kind
      cases convention <;> exact .of_ok (bind_eq_ok.2 ⟨r, hr, rfl⟩) hreturnable
    | address => cases convention <;> exact .of_ok rfl hreturnable
    | _ => exact absurd rfl haggregate

theorem exists_resultPointer (convention : Convention) :
    ∃ r, convention.resultPointer (.arguments convention) = .ok r := by
  cases convention <;> exact ⟨_, rfl⟩

end Convention

end ForeignCall
