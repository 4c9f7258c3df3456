import ForeignCall.Arrangement.Sequence
import ForeignCall.Proofs.Arrangement.Cursor
import ForeignCall.Proofs.Layout

/-!
# Placements fit their layouts

* `Piece.Tiles`: pieces that cover an aggregate without gaps;
* `Placement.Carries`: a placement that fits its layout;
* `Convention.place_eq_ok`, `Convention.placeResult?_eq_ok`: the placements of arguments and results fit
  their layouts, and their storages are those that the cursor gives out;
* `Placement.storages_program`, `Placement.requests_program`: the programs of a placement move through its
  storages, in either direction, and ask for no scratch memory but that of the layout.
-/

namespace ForeignCall

variable {l : Layout} {c c' : Cursor} {p : Placement} {ps : List Piece} {size : Nat} {kind : Primitive}
  {fields : List ScalarField} {chunks : List (Nat × Nat)}

/-- The byte at `i` belongs to the piece. -/
def Piece.Covers (p : Piece) (i : Nat) : Prop := p.offset ≤ i ∧ i < p.offset + p.kind.byteSize

/-- The pieces cover `size` bytes and lie within them.  None is a truth value, which would keep one bit of a
byte only. -/
structure Piece.Tiles (size : Nat) (ps : List Piece) : Prop where
  kind_ne : ∀ p ∈ ps, p.kind ≠ .bool
  end_le : ∀ p ∈ ps, p.offset + p.kind.byteSize ≤ size
  cover : ∀ i < size, ∃ p ∈ ps, p.Covers i

/-- A placement that fits its layout. -/
def Placement.Carries (l : Layout) : Placement → Prop
  | .whole _ => l.isAggregate = false
  | .pieces ps => l.isAggregate = true ∧ ∃ size, l.byteSize = .ok size ∧ 0 < size ∧ Piece.Tiles size ps
  | .reference _ => l.isAggregate = true

theorem Placement.Carries.storages_ne_nil (h : p.Carries l) : p.storages ≠ [] := by
  cases p with
  | pieces ps =>
    obtain ⟨-, size, -, hpos, htiles⟩ := h
    obtain ⟨p, hp, -⟩ := htiles.cover 0 hpos
    exact List.ne_nil_of_mem (List.mem_map_of_mem hp)
  | _ => simp [Placement.storages]

/-- A placement of a result in registers that a cursor gives out. -/
structure Placement.Returns (l : Layout) (c : Cursor) (p : Placement) : Prop where
  gives : ∃ c', c.Gives p.storages c' ∧ c'.stack ≤ 1
  carries : p.Carries l
  ne_reference : ∀ s, p ≠ .reference s
  size_le : ∀ size, l.byteSize = .ok size → size ≤ 32

theorem Placement.returns_whole {s : Storage} (h : c.Takes s c') (hc : c.stack = 0)
    (hl : l.isAggregate = false) :
    (Placement.whole s).Returns l c := by
  have hstack := h.stack_le
  refine ⟨⟨c', .cons h .nil, by omega⟩, hl, by simp, fun size hsize => ?_⟩
  have := Layout.byteSize_le_of_not_aggregate hl hsize
  omega

/-! ### Pieces -/

/-- The offset and the size of a piece. -/
def Piece.span (p : Piece) : Nat × Nat := (p.offset, p.kind.byteSize)

theorem integerKind_eq_ok (h : integerKind l size = .ok kind) : kind.byteSize = size ∧ kind ≠ .bool := by
  unfold integerKind at h
  split at h
  · next found hfound =>
    cases h
    unfold Primitive.integralOfSize? at hfound
    split at hfound <;> cases hfound <;> exact ⟨rfl, by decide⟩
  · simp [refuse] at h

theorem floatKind_eq_ok (h : floatKind l size = .ok kind) : kind.byteSize = size ∧ kind ≠ .bool := by
  unfold floatKind at h
  split at h
  · next found hfound =>
    cases h
    unfold Primitive.floatOfSize? at hfound
    split at hfound <;> cases hfound <;> exact ⟨rfl, by decide⟩
  · simp [refuse] at h

/-- Pieces with the spans of chunks that leave no gap tile their layout. -/
theorem Piece.tiles_of_span (hspan : ps.map Piece.span = chunks) (hne : ∀ p ∈ ps, p.kind ≠ .bool)
    (hle : ∀ chunk ∈ chunks, chunk.1 + chunk.2 ≤ size)
    (hcover : ∀ i < size, ∃ chunk ∈ chunks, chunk.1 ≤ i ∧ i < chunk.1 + chunk.2) : Piece.Tiles size ps := by
  subst hspan
  refine ⟨hne, fun p hp => hle p.span (List.mem_map_of_mem hp), fun i hi => ?_⟩
  obtain ⟨chunk, hchunk, hbetween⟩ := hcover i hi
  obtain ⟨p, hp, rfl⟩ := List.mem_map.1 hchunk
  exact ⟨p, hp, hbetween⟩

theorem Piece.tiles_of_eightbytes (hspan : ps.map Piece.span = eightbytes size)
    (hne : ∀ p ∈ ps, p.kind ≠ .bool) :
    Piece.Tiles size ps := by
  refine tiles_of_span hspan hne (fun chunk hchunk => ?_) fun i hi => ?_
  · obtain ⟨i, hi, rfl⟩ := List.mem_map.1 hchunk
    have := List.mem_range.1 hi
    dsimp only
    omega
  · refine ⟨_, List.mem_map_of_mem (List.mem_range.2 (show i / 8 < (size + 7) / 8 by omega)), ?_⟩
    dsimp only
    omega

/-- Pieces with the given spans, through the storages that a cursor gives out. -/
structure Cursor.Fills (c : Cursor) (chunks : List (Nat × Nat)) (ps : List Piece) (c' : Cursor) : Prop where
  gives : c.Gives (ps.map Piece.storage) c'
  span : ps.map Piece.span = chunks
  kind_ne : ∀ p ∈ ps, p.kind ≠ .bool

namespace Cursor.Fills

theorem nil (c : Cursor) : c.Fills [] [] c := ⟨.nil, rfl, by simp⟩

theorem cons {next : Cursor} {s : Storage} {offset : Nat} (hs : c.Takes s next) (hsize : kind.byteSize = size)
    (hne : kind ≠ .bool) (h : next.Fills chunks ps c') :
    c.Fills ((offset, size) :: chunks) (⟨offset, kind, s⟩ :: ps) c' := by
  refine ⟨.cons hs h.gives, ?_, ?_⟩
  · rw [List.map_cons, h.span, Piece.span, hsize]
  · intro p hp
    rcases List.mem_cons.1 hp with rfl | hp
    · exact hne
    · exact h.kind_ne p hp

end Cursor.Fills

theorem stackPiecesFrom_eq_ok (h : stackPiecesFrom l c chunks = .ok (ps, c')) : c.Fills chunks ps c' := by
  induction chunks generalizing c ps with
  | nil =>
    cases h
    exact .nil _
  | cons chunk chunks ih =>
    obtain ⟨kind, hkind, h⟩ := bind_eq_ok.1 h
    obtain ⟨⟨rest, last⟩, hrest, h⟩ := bind_eq_ok.1 h
    cases h
    obtain ⟨hsize, hne⟩ := integerKind_eq_ok hkind
    exact .cons .stack hsize hne (ih hrest)

theorem integerPiecesFrom_eq_ok (h : integerPiecesFrom l c chunks = .ok (ps, c')) :
    c.Fills chunks ps c' ∧ c'.stack = c.stack := by
  induction chunks generalizing c ps with
  | nil =>
    cases h
    exact ⟨.nil _, rfl⟩
  | cons chunk chunks ih =>
    obtain ⟨kind, hkind, h⟩ := bind_eq_ok.1 h
    obtain ⟨⟨s?, next⟩, hnext, h⟩ := bind_eq_ok.1 h
    cases s? with
    | none => cases h
    | some s =>
      obtain ⟨⟨rest, last⟩, hrest, h⟩ := bind_eq_ok.1 h
      cases h
      obtain ⟨hsize, hne⟩ := integerKind_eq_ok hkind
      obtain ⟨htakes, hstack⟩ := Cursor.integer?_eq_ok hnext
      obtain ⟨hfills, hrest⟩ := ih hrest
      exact ⟨.cons htakes hsize hne hfills, hrest.trans hstack⟩

theorem Cursor.Fills.returns (h : c.Fills chunks ps c') (hc : c.stack = 0) (hstack : c'.stack = c.stack)
    (hcarries : (Placement.pieces ps).Carries l) (hsize : l.byteSize = .ok size) (hle : size ≤ 32) :
    (Placement.pieces ps).Returns l c :=
  ⟨⟨c', h.gives, by omega⟩, hcarries, by simp, fun _ h => ok_unique hsize h ▸ hle⟩

theorem Cursor.Fills.carries (h : c.Fills (eightbytes size) ps c') (hl : l.isAggregate = true)
    (hsize : l.byteSize = .ok size) (hpos : 0 < size) : (Placement.pieces ps).Carries l :=
  ⟨hl, size, hsize, hpos, Piece.tiles_of_eightbytes h.span h.kind_ne⟩

theorem stackPieces_eq_ok (h : stackPieces l c = .ok (ps, c')) :
    ∃ size, l.byteSize = .ok size ∧ c.Fills (eightbytes size) ps c' := by
  obtain ⟨size, hsize, h⟩ := bind_eq_ok.1 h
  exact ⟨size, lift_overflow_halt_eq_ok.1 hsize, stackPiecesFrom_eq_ok h⟩

theorem integerPieces_eq_ok (h : integerPieces l c = .ok (ps, c')) :
    ∃ size, l.byteSize = .ok size ∧ c.Fills (eightbytes size) ps c' ∧ c'.stack = c.stack := by
  obtain ⟨size, hsize, h⟩ := bind_eq_ok.1 h
  exact ⟨size, lift_overflow_halt_eq_ok.1 hsize, integerPiecesFrom_eq_ok h⟩

theorem checkNotEmpty_eq_ok (h : checkNotEmpty l = .ok ()) : ∃ size, l.byteSize = .ok size ∧ 0 < size := by
  obtain ⟨size, hsize, h⟩ := bind_eq_ok.1 h
  refine ⟨size, lift_overflow_halt_eq_ok.1 hsize, ?_⟩
  split at h
  · simp [refuse] at h
  · omega

theorem stackPieces_carries (h : stackPieces l c = .ok (ps, c')) (hl : l.isAggregate = true)
    (hempty : checkNotEmpty l = .ok ()) :
    c.Gives (ps.map Piece.storage) c' ∧ (Placement.pieces ps).Carries l := by
  obtain ⟨size, hsize, hpos⟩ := checkNotEmpty_eq_ok hempty
  obtain ⟨size', hsize', hfills⟩ := stackPieces_eq_ok h
  obtain rfl := ok_unique hsize hsize'
  exact ⟨hfills.gives, hfills.carries hl hsize hpos⟩

/-! ### System V -/

namespace SysV

theorem classify_eq_ok {classes : List (Nat × Nat × EightbyteClass)} (h : classify l = .ok (some classes)) :
    ∃ size, l.byteSize = .ok size ∧ 0 < size ∧ size ≤ maxRegisterAggregate ∧
      classes.map (fun e => (e.1, e.2.1)) = eightbytes size := by
  obtain ⟨⟨⟩, hempty, h⟩ := bind_eq_ok.1 h
  obtain ⟨size, hsize, hpos⟩ := checkNotEmpty_eq_ok hempty
  obtain ⟨size', hsize', h⟩ := bind_eq_ok.1 h
  obtain rfl := ok_unique hsize (lift_overflow_halt_eq_ok.1 hsize')
  split at h
  · cases h
  · next hle =>
    obtain ⟨fields, -, h⟩ := bind_eq_ok.1 h
    split at h
    · cases h
    · cases h
      refine ⟨size, hsize, hpos, by omega, ?_⟩
      rw [List.map_map]
      exact List.map_id _

theorem registerPieces_eq_ok {classes : List (Nat × Nat × EightbyteClass)}
    (h : registerPieces l c classes = .ok (ps, c')) :
    c.Fills (classes.map fun e => (e.1, e.2.1)) ps c' ∧ c'.stack = c.stack := by
  induction classes generalizing c ps with
  | nil =>
    cases h
    exact ⟨.nil _, rfl⟩
  | cons e classes ih =>
    obtain ⟨offset, size, kind⟩ := e
    obtain ⟨⟨s?, next⟩, hnext, h⟩ := bind_eq_ok.1 h
    obtain ⟨moved, hmoved, h⟩ := bind_eq_ok.1 h
    cases s? with
    | none => cases h
    | some s =>
      obtain ⟨⟨rest, last⟩, hrest, h⟩ := bind_eq_ok.1 h
      cases h
      obtain ⟨hfills, hrest⟩ := ih hrest
      cases kind with
      | integer =>
        obtain ⟨hsize, hne⟩ := integerKind_eq_ok hmoved
        obtain ⟨htakes, hstack⟩ := Cursor.integer?_eq_ok hnext
        exact ⟨.cons htakes hsize hne hfills, hrest.trans hstack⟩
      | sse =>
        obtain ⟨hsize, hne⟩ := floatKind_eq_ok hmoved
        obtain ⟨htakes, hstack⟩ := Cursor.vector?_eq_ok hnext
        exact ⟨.cons htakes hsize hne hfills, hrest.trans hstack⟩

theorem classify_carries {classes : List (Nat × Nat × EightbyteClass)} (h : classify l = .ok (some classes))
    (hl : l.isAggregate = true) (hfills : c.Fills (classes.map fun e => (e.1, e.2.1)) ps c') :
    (Placement.pieces ps).Carries l := by
  obtain ⟨size, hsize, hpos, -, heq⟩ := classify_eq_ok h
  rw [heq] at hfills
  exact hfills.carries hl hsize hpos

theorem argumentPieces_eq_ok (h : argumentPieces l c = .ok (ps, c')) (hl : l.isAggregate = true) :
    c.Gives (ps.map Piece.storage) c' ∧ (Placement.pieces ps).Carries l := by
  obtain ⟨classes?, hclasses, h⟩ := bind_eq_ok.1 h
  have hempty : checkNotEmpty l = .ok () := by
    obtain ⟨⟨⟩, hempty, -⟩ := bind_eq_ok.1 hclasses
    exact hempty
  cases classes? with
  | none => exact stackPieces_carries h hl hempty
  | some classes =>
    dsimp only at h
    split at h
    · obtain ⟨hfills, -⟩ := registerPieces_eq_ok h
      exact ⟨hfills.gives, classify_carries hclasses hl hfills⟩
    · exact stackPieces_carries h hl hempty

theorem place_eq_ok (h : place l c = .ok (p, c')) : c.Gives p.storages c' ∧ p.Carries l := by
  unfold place at h
  split at h
  · obtain ⟨⟨s, next⟩, hnext, h⟩ := bind_eq_ok.1 h
    cases h
    exact ⟨.cons (Cursor.scalar_eq_ok hnext) .nil, rfl⟩
  · obtain ⟨⟨s, next⟩, hnext, h⟩ := bind_eq_ok.1 h
    cases h
    exact ⟨.cons (Cursor.integer_eq_ok hnext) .nil, rfl⟩
  · next hvalue haddress =>
    obtain ⟨⟨ps, next⟩, hnext, h⟩ := bind_eq_ok.1 h
    cases h
    exact argumentPieces_eq_ok hnext (Layout.isAggregate_of_ne hvalue haddress)

theorem placeResult?_eq_ok (h : placeResult? l = .ok (some p)) : p.Returns l (Cursor.results .sysV) := by
  unfold placeResult? at h
  dsimp only at h
  split at h
  · obtain ⟨⟨s, next⟩, hnext, h⟩ := bind_eq_ok.1 h
    cases h
    exact Placement.returns_whole (Cursor.scalar_eq_ok hnext) rfl rfl
  · obtain ⟨s, hs, h⟩ := bind_eq_ok.1 h
    cases h
    rw [(Convention.storage_eq_ok (lift_fault_eq_ok.1 hs)).1]
    exact Placement.returns_whole (.integer (c := Cursor.results .sysV) (by decide)) rfl rfl
  · next hvalue haddress =>
    obtain ⟨classes?, hclasses, h⟩ := bind_eq_ok.1 h
    cases classes? with
    | none => cases h
    | some classes =>
      obtain ⟨⟨ps, next⟩, hnext, h⟩ := bind_eq_ok.1 h
      cases h
      obtain ⟨hfills, hstack⟩ := registerPieces_eq_ok hnext
      obtain ⟨size, hsize, -, hle, -⟩ := classify_eq_ok hclasses
      have hcarries := classify_carries hclasses (Layout.isAggregate_of_ne hvalue haddress) hfills
      exact hfills.returns rfl hstack hcarries hsize (Nat.le_trans hle (by decide))

theorem isAggregate_of_placeResult? (h : placeResult? l = .ok none) : l.isAggregate = true := by
  unfold placeResult? at h
  dsimp only at h
  split at h
  · obtain ⟨_, -, h⟩ := bind_eq_ok.1 h
    cases h
  · obtain ⟨_, -, h⟩ := bind_eq_ok.1 h
    cases h
  · next hvalue haddress => exact Layout.isAggregate_of_ne hvalue haddress

end SysV

/-! ### AArch64 -/

namespace AArch64

/-- A homogeneous aggregate consists of its leaves, which leave no gap. -/
theorem homogeneous?_eq_ok (h : homogeneous? l = .ok (some (kind, fields))) :
    l.scalars = .ok fields ∧ kind ≠ .bool ∧ fields.length ≤ maxHomogeneousMembers ∧
      (∀ f ∈ fields, f.kind = kind) ∧
      l.byteSize = .ok (fields.length * kind.byteSize) := by
  obtain ⟨fields', hfields', h⟩ := bind_eq_ok.1 h
  cases fields' with
  | nil => cases h
  | cons first rest =>
    dsimp only at h
    split at h
    · next hall =>
      obtain ⟨bytes, hbytes, h⟩ := bind_eq_ok.1 h
      obtain ⟨size, hsize, h⟩ := bind_eq_ok.1 h
      split at h
      · next heq =>
        cases h
        simp only [Bool.and_eq_true, List.all_eq_true, beq_iff_eq, decide_eq_true_eq] at hall
        obtain ⟨⟨hfloat, hlength⟩, hall⟩ := hall
        refine ⟨lift_overflow_halt_eq_ok.1 hfields', ?_, hlength, hall, ?_⟩
        · rintro hbool
          rw [hbool] at hfloat
          cases hfloat
        · obtain ⟨-, rfl⟩ := checkedMul_eq_ok.1 (lift_overflow_halt_eq_ok.1 hbytes)
          rw [lift_overflow_halt_eq_ok.1 hsize, heq]
      · cases h
    · cases h

theorem homogeneous?_carries (h : homogeneous? l = .ok (some (kind, fields)))
    (hempty : checkNotEmpty l = .ok ()) (hl : l.isAggregate = true)
    (hfills : c.Fills (fields.map fun f => (f.offset, kind.byteSize)) ps c') :
    (Placement.pieces ps).Carries l := by
  obtain ⟨hfields, -, -, hkind, hsize⟩ := homogeneous?_eq_ok h
  obtain ⟨size, hsize', hpos⟩ := checkNotEmpty_eq_ok hempty
  obtain rfl := ok_unique hsize' hsize
  have hordered := Layout.scalars_ordered hfields hsize
  have hsum : (fields.map fun f => f.kind.byteSize).sum = fields.length * kind.byteSize := by
    rw [List.map_congr_left fun f hf => by rw [hkind f hf], List.map_const', List.sum_replicate_nat]
  refine ⟨hl, _, hsize, hpos, Piece.tiles_of_span hfills.span hfills.kind_ne (fun chunk hchunk => ?_)
    fun i hi => ?_⟩
  · obtain ⟨f, hf, rfl⟩ := List.mem_map.1 hchunk
    have := hordered.bounds.2 f hf
    rw [hkind f hf] at this
    exact this.2
  · obtain ⟨f, hf, hle, hlt⟩ := hordered.cover (by omega) (Nat.zero_le i) hi
    rw [hkind f hf] at hlt
    exact ⟨_, List.mem_map_of_mem hf, hle, hlt⟩

theorem vectorPieces_eq_ok (h : vectorPieces kind c fields = .ok (ps, c')) (hne : kind ≠ .bool)
    (hfree : fields.length ≤ c.freeVectors) :
    c.Fills (fields.map fun f => (f.offset, kind.byteSize)) ps c' := by
  induction fields generalizing c ps with
  | nil =>
    cases h
    exact .nil _
  | cons f fields ih =>
    obtain ⟨⟨s?, next⟩, hnext, h⟩ := bind_eq_ok.1 h
    cases s? with
    | none =>
      have := (Cursor.vector?_eq_ok hnext).1
      rw [List.length_cons] at hfree
      omega
    | some s =>
      obtain ⟨⟨rest, last⟩, hrest, h⟩ := bind_eq_ok.1 h
      cases h
      obtain ⟨htakes, -⟩ := Cursor.vector?_eq_ok hnext
      have hle := htakes.freeVectors_le
      rw [List.length_cons] at hfree
      exact .cons htakes rfl hne (ih hrest (by omega))

theorem vectorResultPieces_eq_ok {index : Nat} (h : vectorResultPieces kind index fields = .ok ps)
    (hne : kind ≠ .bool) (hc : c.convention = .aarch64) (hclass : c.vectorClass = .vectorRet)
    (hindex : c.vectors = index) :
    ∃ c', c.Fills (fields.map fun f => (f.offset, kind.byteSize)) ps c' ∧ c'.stack = c.stack := by
  induction fields generalizing c index ps with
  | nil =>
    cases h
    exact ⟨c, .nil _, rfl⟩
  | cons f fields ih =>
    obtain ⟨s, hs, h⟩ := bind_eq_ok.1 h
    obtain ⟨rest, hrest, h⟩ := bind_eq_ok.1 h
    cases h
    obtain ⟨hs, hlt⟩ := Convention.storage_eq_ok (lift_fault_eq_ok.1 hs)
    have hlt : c.vectors < c.convention.slotCount c.vectorClass := by
      rw [hc, hclass, hindex]
      exact hlt (by decide)
    have htakes : c.Takes s { c with vectors := c.vectors + 1 } := by
      rw [hs, ← hclass, ← hindex]
      exact .vector hlt
    obtain ⟨c', hfills, hstack⟩ :=
      ih (c := { c with vectors := c.vectors + 1 }) hrest hc hclass (congrArg (· + 1) hindex)
    exact ⟨c', .cons htakes rfl hne hfills, hstack⟩

theorem placeAggregate_eq_ok (h : placeAggregate l c = .ok (p, c')) (hl : l.isAggregate = true) :
    c.Gives p.storages c' ∧ p.Carries l := by
  obtain ⟨⟨⟩, hempty, h⟩ := bind_eq_ok.1 h
  obtain ⟨size, hsize, hpos⟩ := checkNotEmpty_eq_ok hempty
  obtain ⟨homogeneous, hhomogeneous, h⟩ := bind_eq_ok.1 h
  split at h
  · next kind fields =>
    dsimp only at h
    split at h
    · next hfree =>
      obtain ⟨⟨ps, next⟩, hps, h⟩ := bind_eq_ok.1 h
      cases h
      have hfills := vectorPieces_eq_ok hps (homogeneous?_eq_ok hhomogeneous).2.1 hfree
      exact ⟨hfills.gives, homogeneous?_carries hhomogeneous hempty hl hfills⟩
    · obtain ⟨⟨ps, next⟩, hps, h⟩ := bind_eq_ok.1 h
      cases h
      obtain ⟨hgives, hcarries⟩ := stackPieces_carries hps hl hempty
      exact ⟨.exhaustVectors hgives, hcarries⟩
  · obtain ⟨size', hsize', h⟩ := bind_eq_ok.1 h
    obtain rfl := ok_unique hsize (lift_overflow_halt_eq_ok.1 hsize')
    split at h
    · obtain ⟨⟨s, next⟩, hs, h⟩ := bind_eq_ok.1 h
      cases h
      exact ⟨.cons (Cursor.integer_eq_ok hs) .nil, hl⟩
    · dsimp only at h
      split at h
      · obtain ⟨⟨ps, next⟩, hps, h⟩ := bind_eq_ok.1 h
        cases h
        obtain ⟨size', hsize', hfills, -⟩ := integerPieces_eq_ok hps
        obtain rfl := ok_unique hsize hsize'
        exact ⟨hfills.gives, hfills.carries hl hsize hpos⟩
      · obtain ⟨⟨ps, next⟩, hps, h⟩ := bind_eq_ok.1 h
        cases h
        obtain ⟨hgives, hcarries⟩ := stackPieces_carries hps hl hempty
        exact ⟨.exhaustIntegers hgives, hcarries⟩

theorem place_eq_ok (h : place l c = .ok (p, c')) : c.Gives p.storages c' ∧ p.Carries l := by
  unfold place at h
  split at h
  · obtain ⟨⟨s, next⟩, hnext, h⟩ := bind_eq_ok.1 h
    cases h
    exact ⟨.cons (Cursor.scalar_eq_ok hnext) .nil, rfl⟩
  · obtain ⟨⟨s, next⟩, hnext, h⟩ := bind_eq_ok.1 h
    cases h
    exact ⟨.cons (Cursor.integer_eq_ok hnext) .nil, rfl⟩
  · next hvalue haddress => exact placeAggregate_eq_ok h (Layout.isAggregate_of_ne hvalue haddress)

theorem placeResult?_eq_ok (h : placeResult? l = .ok (some p)) : p.Returns l (Cursor.results .aarch64) := by
  unfold placeResult? at h
  dsimp only at h
  split at h
  · obtain ⟨⟨s, next⟩, hnext, h⟩ := bind_eq_ok.1 h
    cases h
    exact Placement.returns_whole (Cursor.scalar_eq_ok hnext) rfl rfl
  · obtain ⟨s, hs, h⟩ := bind_eq_ok.1 h
    cases h
    rw [(Convention.storage_eq_ok (lift_fault_eq_ok.1 hs)).1]
    exact Placement.returns_whole (.integer (c := Cursor.results .aarch64) (by decide)) rfl rfl
  · next hvalue haddress =>
    have hl := Layout.isAggregate_of_ne hvalue haddress
    obtain ⟨⟨⟩, hempty, h⟩ := bind_eq_ok.1 h
    obtain ⟨homogeneous, hhomogeneous, h⟩ := bind_eq_ok.1 h
    split at h
    · next kind fields =>
      obtain ⟨ps, hps, h⟩ := bind_eq_ok.1 h
      cases h
      obtain ⟨-, hne, hlength, -, hsize⟩ := homogeneous?_eq_ok hhomogeneous
      obtain ⟨c', hfills, hstack⟩ := vectorResultPieces_eq_ok (c := Cursor.results .aarch64) hps hne rfl rfl rfl
      exact hfills.returns rfl hstack (homogeneous?_carries hhomogeneous hempty hl hfills) hsize
        (Nat.mul_le_mul hlength kind.byteSize_le)
    · obtain ⟨size', hsize', h⟩ := bind_eq_ok.1 h
      split at h
      · cases h
      · next hle =>
        obtain ⟨⟨ps, next⟩, hps, h⟩ := bind_eq_ok.1 h
        cases h
        obtain ⟨size, hsize, hpos⟩ := checkNotEmpty_eq_ok hempty
        obtain ⟨size'', hsize'', hfills, hstack⟩ := integerPieces_eq_ok hps
        obtain rfl := ok_unique hsize hsize''
        obtain rfl := ok_unique hsize (lift_overflow_halt_eq_ok.1 hsize')
        have hle : size ≤ 32 := Nat.le_trans (Nat.le_of_not_lt hle) (by decide)
        exact hfills.returns rfl hstack (hfills.carries hl hsize hpos) hsize hle

theorem isAggregate_of_placeResult? (h : placeResult? l = .ok none) : l.isAggregate = true := by
  unfold placeResult? at h
  dsimp only at h
  split at h
  · obtain ⟨_, -, h⟩ := bind_eq_ok.1 h
    cases h
  · obtain ⟨_, -, h⟩ := bind_eq_ok.1 h
    cases h
  · next hvalue haddress => exact Layout.isAggregate_of_ne hvalue haddress

end AArch64

/-! ### Both conventions -/

namespace Convention

variable {convention : Convention}

/-- **The placement of an argument fits its layout**, and the cursor gives out its storages. -/
theorem place_eq_ok (h : convention.place l c = .ok (p, c')) : c.Gives p.storages c' ∧ p.Carries l := by
  cases convention with
  | sysV => exact SysV.place_eq_ok h
  | aarch64 => exact AArch64.place_eq_ok h

/-- **The placement of a result fits its layout**, and a cursor gives out its storages. -/
theorem placeResult?_eq_ok (h : convention.placeResult? l = .ok (some p)) :
    p.Returns l (Cursor.results convention) := by
  cases convention with
  | sysV => exact SysV.placeResult?_eq_ok h
  | aarch64 => exact AArch64.placeResult?_eq_ok h

theorem isAggregate_of_placeResult? (h : convention.placeResult? l = .ok none) : l.isAggregate = true := by
  cases convention with
  | sysV => exact SysV.isAggregate_of_placeResult? h
  | aarch64 => exact AArch64.isAggregate_of_placeResult? h

/-- The address of an in-memory result takes the next storage of the cursor or the register that is for
nothing else. -/
theorem resultPointer_eq_ok {s : Storage} (h : convention.resultPointer c = .ok (s, c')) :
    c.Takes s c' ∨ c' = c ∧ s.kind = .indirectResult ∧
      s.index.toNat < convention.slotCount .indirectResult := by
  cases convention with
  | sysV =>
    obtain ⟨⟨s?, next⟩, hnext, h⟩ := bind_eq_ok.1 h
    cases s? with
    | none => cases h
    | some s =>
      cases h
      exact .inl (Cursor.integer?_eq_ok hnext).1
  | aarch64 =>
    cases h
    exact .inr ⟨rfl, rfl, by decide⟩

end Convention

/-! ### Programs -/

/-- The size and the alignment of the scratch memory that a step asks for. -/
def Step.request? : Step → Option (Nat × Nat)
  | .copy size alignment | .allocate size alignment => some (size, alignment)
  | _ => none

/-- What the steps of a program ask for, in order. -/
def Program.requests (p : Program) : List (Nat × Nat) := p.filterMap Step.request?

theorem Program.requests_cons (step : Step) (p : Program) :
    Program.requests (step :: p) = step.request?.toList ++ p.requests := by
  unfold requests
  cases h : step.request? <;> simp [h]

theorem Program.storages_cons (step : Step) (p : Program) :
    Program.storages (step :: p) = step.storage?.toList ++ p.storages := by
  unfold storages
  cases h : step.storage? <;> simp [h]

theorem Step.copyOf_eq_ok {step : Step} (h : Step.copyOf l = .ok step) :
    ∃ size, l.byteSize = .ok size ∧ step = .copy size l.alignment := by
  obtain ⟨size, hsize, h⟩ := bind_eq_ok.1 h
  exact ⟨size, hsize, (pure_eq_ok.1 h).symm⟩

theorem Step.allocateFor_eq_ok {step : Step} (h : Step.allocateFor l = .ok step) :
    ∃ size, l.byteSize = .ok size ∧ step = .allocate size l.alignment := by
  obtain ⟨size, hsize, h⟩ := bind_eq_ok.1 h
  exact ⟨size, hsize, (pure_eq_ok.1 h).symm⟩

namespace Placement

theorem storages_takeApart : ∀ ps : List Piece, Program.storages (takeApart ps) = ps.map Piece.storage
  | [] => rfl
  | [p] => rfl
  | p :: q :: ps => by
    have ih := storages_takeApart (q :: ps)
    unfold Program.storages at ih ⊢
    rw [takeApart, List.map_cons, ← ih]
    · rfl
    · simp

theorem storages_putTogether : ∀ ps : List Piece, Program.storages (putTogether ps) = ps.map Piece.storage
  | [] => rfl
  | p :: ps => congrArg (p.storage :: ·) (storages_putTogether ps)

theorem storages_scalarProgram (l : Layout) (s : Storage) (unboxes : Bool) :
    Program.storages (scalarProgram l s unboxes) = [s] := by
  cases l <;> cases unboxes <;> rfl

/-- The programs of a placement move through its storages, in either direction. -/
theorem storages_program {unboxes : Bool} {program : Program} (h : p.program l unboxes = .ok program) :
    Program.storages program = p.storages := by
  cases p with
  | whole s =>
    cases h
    exact storages_scalarProgram l s unboxes
  | pieces ps =>
    cases unboxes with
    | true =>
      cases h
      exact storages_takeApart ps
    | false =>
      obtain ⟨allocate, hallocate, h⟩ := bind_eq_ok.1 h
      cases h
      obtain ⟨size, -, rfl⟩ := Step.allocateFor_eq_ok hallocate
      exact storages_putTogether ps
  | reference s =>
    obtain ⟨copy, hcopy, h⟩ := bind_eq_ok.1 h
    obtain ⟨size, -, rfl⟩ := Step.copyOf_eq_ok hcopy
    cases h
    cases unboxes <;> rfl

theorem requests_takeApart : ∀ ps : List Piece, Program.requests (takeApart ps) = []
  | [] => rfl
  | [p] => rfl
  | p :: q :: ps => by
    have ih := requests_takeApart (q :: ps)
    rw [takeApart, ← ih]
    · rfl
    · simp

theorem requests_putTogether : ∀ ps : List Piece, Program.requests (putTogether ps) = []
  | [] => rfl
  | _ :: ps => requests_putTogether ps

theorem requests_scalarProgram (l : Layout) (s : Storage) (unboxes : Bool) :
    (scalarProgram l s unboxes).requests = [] := by
  cases l <;> cases unboxes <;> rfl

/-- Taking a value apart needs no scratch memory, unless the value is passed by reference. -/
theorem requests_unboxing {program : Program} (hne : ∀ s, p ≠ .reference s)
    (h : p.program l true = .ok program) :
    program.requests = [] := by
  cases p with
  | whole s =>
    cases h
    exact requests_scalarProgram l s true
  | pieces ps =>
    cases h
    exact requests_takeApart ps
  | reference s => exact absurd rfl (hne s)

/-- The programs of a placement ask for no scratch memory but that of the layout. -/
theorem requests_program {unboxes : Bool} {program : Program} (h : p.program l unboxes = .ok program) :
    ∀ r ∈ program.requests, l.byteSize = .ok r.1 ∧ r.2 = l.alignment := by
  cases p with
  | whole s =>
    cases h
    simp [requests_scalarProgram]
  | pieces ps =>
    cases unboxes with
    | true =>
      cases h
      simp [requests_takeApart]
    | false =>
      obtain ⟨allocate, hallocate, h⟩ := bind_eq_ok.1 h
      cases h
      obtain ⟨size, hsize, rfl⟩ := Step.allocateFor_eq_ok hallocate
      intro r hr
      rw [Program.requests_cons, requests_putTogether] at hr
      obtain rfl : r = (size, l.alignment) := by simpa [Step.request?] using hr
      exact ⟨hsize, rfl⟩
  | reference s =>
    obtain ⟨copy, hcopy, h⟩ := bind_eq_ok.1 h
    obtain ⟨size, hsize, rfl⟩ := Step.copyOf_eq_ok hcopy
    cases h
    intro r hr
    obtain rfl : r = (size, l.alignment) := by
      cases unboxes <;> simpa [Program.requests, Step.request?, eq_comm] using hr
    exact ⟨hsize, rfl⟩

end Placement

end ForeignCall
