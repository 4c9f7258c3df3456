import ForeignCall.Proofs.Arrangement.Decision
import ForeignCall.Proofs.Arrangement.Locations

/-!
# Which arguments get registers

* `Demand`, `Convention.demand?`: the registers that a value asks for;
* `Cursor.Serves`, `Cursor.Spills`: a cursor gives out just these registers, or stack slots only;
* `Convention.place_settles`: a value gets registers iff enough of them are left, and all of it goes to the
  stack otherwise.  Under AArch64 it then leaves no register of its class;
* `arranged_registers`: so do the arguments of each sequence that is arranged.
-/

namespace ForeignCall

variable {convention : Convention} {c c' next : Cursor} {ss : List Storage} {l : Layout}
  {kind : Primitive} {ps : List Piece} {p : Placement} {size : Nat}

/-! ### Demands -/

/-- How many registers of each class a value asks for. -/
structure Demand where
  integers : Nat
  vectors : Nat
  deriving DecidableEq

def Demand.ofScalar (kind : Primitive) : Demand := if kind.isFloat then ⟨0, 1⟩ else ⟨1, 0⟩

namespace SysV

/-- Each eightbyte asks for a register of its class. -/
def demandOf (classes : List (Nat × Nat × EightbyteClass)) : Demand :=
  ⟨classes.countP fun e => e.2.2 = .integer, classes.countP fun e => e.2.2 = .sse⟩

/-- The registers that a value asks for; nothing if it always goes to the stack. -/
def demand? : Layout → Option Demand
  | .value kind => some (.ofScalar kind)
  | .address => some ⟨1, 0⟩
  | l => (classify l).toOption.join.map demandOf

end SysV

namespace AArch64

/-- Whether a value travels in vector registers: a floating-point scalar or a homogeneous aggregate. -/
def takesVectors : Layout → Bool
  | .value kind => kind.isFloat
  | .address => false
  | l => isHomogeneous l

/-- The registers that a value asks for.  A large aggregate is passed by its address. -/
def demand : Layout → Demand
  | .value kind => .ofScalar kind
  | .address => ⟨1, 0⟩
  | l =>
    match homogeneous? l with
    | .ok (some (_, fields)) => ⟨0, fields.length⟩
    | _ => if maxRegisterAggregate < l.aggregateSize then ⟨1, 0⟩ else ⟨(l.aggregateSize + 7) / 8, 0⟩

end AArch64

namespace Convention

def demand? : Convention → Layout → Option Demand
  | .sysV => SysV.demand?
  | .aarch64 => fun l => some (AArch64.demand l)

/-- Where a cursor stands before a value that does not fit goes to the stack.  Under AArch64 such a value
leaves no register of its class. -/
def beforeSpill (convention : Convention) (l : Layout) (c : Cursor) : Cursor :=
  match convention with
  | .sysV => c
  | .aarch64 => if AArch64.takesVectors l then c.exhaustVectors else c.exhaustIntegers

end Convention

/-! ### What a cursor gives out -/

namespace Cursor

variable {s : Storage}

/-- Enough registers are left. -/
def Fits (c : Cursor) (d : Demand) : Prop := d.integers ≤ c.freeIntegers ∧ d.vectors ≤ c.freeVectors

/-- The storages are registers, as many of each class as are asked for. -/
structure Serves (c : Cursor) (d : Demand) (ss : List Storage) (c' : Cursor) : Prop where
  next : c' = { c with integers := c.integers + d.integers, vectors := c.vectors + d.vectors }
  integers : Storage.count c.integerClass ss = d.integers
  vectors : Storage.count c.vectorClass ss = d.vectors
  registers : ∀ s ∈ ss, s.kind ≠ .stack

/-- The storages are stack slots. -/
structure Spills (c : Cursor) (ss : List Storage) (c' : Cursor) : Prop where
  next : c' = { c with stack := c'.stack }
  stack : ∀ s ∈ ss, s.kind = .stack

theorem Sound.classes_ne (hc : c.Sound) :
    c.integerClass ≠ c.vectorClass ∧ c.integerClass ≠ .stack ∧ c.vectorClass ≠ .stack := by
  rcases hc.classes with ⟨hi, hv⟩ | ⟨hi, hv⟩ <;> rw [hi, hv] <;> decide

theorem integer?_some (h : c.integer? = .ok (some s, next)) :
    s.kind = c.integerClass ∧ next = { c with integers := c.integers + 1 } := by
  by_cases hfree : 0 < c.freeIntegers
  · rw [integer?_of_free hfree] at h
    cases h
    exact ⟨rfl, rfl⟩
  · rw [integer?, if_neg hfree] at h
    cases h

theorem vector?_some (h : c.vector? = .ok (some s, next)) :
    s.kind = c.vectorClass ∧ next = { c with vectors := c.vectors + 1 } := by
  by_cases hfree : 0 < c.freeVectors
  · rw [vector?_of_free hfree] at h
    cases h
    exact ⟨rfl, rfl⟩
  · rw [vector?, if_neg hfree] at h
    cases h

theorem Serves.nil (c : Cursor) : c.Serves ⟨0, 0⟩ [] c := ⟨rfl, rfl, rfl, by simp⟩

theorem Serves.integer {d : Demand} (hc : c.Sound) (h : c.integer? = .ok (some s, next))
    (hrest : next.Serves d ss c') :
    c.Serves ⟨d.integers + 1, d.vectors⟩ (s :: ss) c' := by
  obtain ⟨hkind, rfl⟩ := integer?_some h
  obtain ⟨hne, hstack, -⟩ := hc.classes_ne
  refine ⟨?_, ?_, ?_, ?_⟩
  · rw [hrest.next]
    simp only [Nat.add_assoc, Nat.add_comm 1]
  · rw [Storage.count_cons, if_pos hkind, hrest.integers]
  · rw [Storage.count_cons, if_neg (by rwa [hkind]), hrest.vectors]
    rfl
  · exact List.forall_mem_cons.2 ⟨by rwa [hkind], hrest.registers⟩

theorem Serves.vector {d : Demand} (hc : c.Sound) (h : c.vector? = .ok (some s, next))
    (hrest : next.Serves d ss c') :
    c.Serves ⟨d.integers, d.vectors + 1⟩ (s :: ss) c' := by
  obtain ⟨hkind, rfl⟩ := vector?_some h
  obtain ⟨hne, -, hstack⟩ := hc.classes_ne
  refine ⟨?_, ?_, ?_, ?_⟩
  · rw [hrest.next]
    simp only [Nat.add_assoc, Nat.add_comm 1]
  · rw [Storage.count_cons, if_neg (by rw [hkind]; exact hne.symm), hrest.integers]
    rfl
  · rw [Storage.count_cons, if_pos hkind, hrest.vectors]
  · exact List.forall_mem_cons.2 ⟨by rwa [hkind], hrest.registers⟩

theorem Spills.nil (c : Cursor) : c.Spills [] c := ⟨rfl, by simp⟩

theorem Spills.cons (h : Spills { c with stack := c.stack + 1 } ss c') :
    c.Spills (Convention.stackSlot c.stack :: ss) c' :=
  ⟨h.next, List.forall_mem_cons.2 ⟨rfl, h.stack⟩⟩

/-- A value gets the registers that it asks for if they are left, and otherwise goes to the stack, from
where the cursor `e` stands. -/
def Settles (c : Cursor) (d : Demand) (e : Cursor) (ss : List Storage) (c' : Cursor) : Prop :=
  c.Fits d ∧ c.Serves d ss c' ∨ ¬ c.Fits d ∧ e.Spills ss c'

/-- The storages show which of the two it was. -/
theorem Settles.serves {d : Demand} {e : Cursor} (h : c.Settles d e ss c') (hne : ss ≠ [])
    (hregisters : ∀ s ∈ ss, s.kind ≠ .stack) : c.Fits d ∧ c.Serves d ss c' := by
  obtain ⟨first, hfirst⟩ := List.exists_mem_of_ne_nil _ hne
  exact h.resolve_right fun ⟨_, hspills⟩ => hregisters first hfirst (hspills.stack first hfirst)

theorem Settles.spills {d : Demand} {e : Cursor} (h : c.Settles d e ss c') (hne : ss ≠ [])
    (hstack : ∀ s ∈ ss, s.kind = .stack) : ¬ c.Fits d ∧ e.Spills ss c' := by
  obtain ⟨first, hfirst⟩ := List.exists_mem_of_ne_nil _ hne
  exact h.resolve_left fun ⟨_, hserves⟩ => hserves.registers first hfirst (hstack first hfirst)

theorem Settles.inStack_iff {d : Demand} {e : Cursor} (h : c.Settles d e ss c') (hne : ss ≠ []) :
    (∀ s ∈ ss, s.kind = .stack) ↔ ¬ c.Fits d := by
  refine ⟨fun hstack => (h.spills hne hstack).1, fun hfits => ?_⟩
  exact (h.resolve_left fun ⟨hfits', _⟩ => hfits hfits').2.stack

theorem integer_settles (hc : c.Sound) {r : Option Storage × Cursor} (h : c.integer? = .ok r)
    (hr : orStack r = (s, c')) :
    c.Settles ⟨1, 0⟩ c [s] c' := by
  obtain ⟨r, next⟩ := r
  cases r with
  | some t =>
    cases hr
    have hfree : 0 < c.freeIntegers := by
      by_contra hfree
      rw [integer?, if_neg hfree] at h
      cases h
    exact .inl ⟨⟨hfree, Nat.zero_le _⟩, .integer hc h (.nil _)⟩
  | none =>
    obtain ⟨hfree, rfl⟩ := integer?_eq_ok h
    cases hr
    refine .inr ⟨fun hfits => ?_, .cons (.nil _)⟩
    have := hfits.1
    dsimp only at this
    omega

theorem vector_settles (hc : c.Sound) {r : Option Storage × Cursor} (h : c.vector? = .ok r)
    (hr : orStack r = (s, c')) :
    c.Settles ⟨0, 1⟩ c [s] c' := by
  obtain ⟨r, next⟩ := r
  cases r with
  | some t =>
    cases hr
    have hfree : 0 < c.freeVectors := by
      by_contra hfree
      rw [vector?, if_neg hfree] at h
      cases h
    exact .inl ⟨⟨Nat.zero_le _, hfree⟩, .vector hc h (.nil _)⟩
  | none =>
    obtain ⟨hfree, rfl⟩ := vector?_eq_ok h
    cases hr
    refine .inr ⟨fun hfits => ?_, .cons (.nil _)⟩
    have := hfits.2
    dsimp only at this
    omega

theorem scalar_settles (hc : c.Sound) (h : c.scalar kind = .ok (s, c')) :
    c.Settles (.ofScalar kind) c [s] c' := by
  unfold scalar at h
  unfold Demand.ofScalar
  split at h
  · next hfloat =>
    obtain ⟨r, hr, h⟩ := bind_eq_ok.1 h
    rw [if_pos hfloat]
    exact vector_settles hc hr (pure_eq_ok.1 h)
  · next hfloat =>
    obtain ⟨r, hr, h⟩ := bind_eq_ok.1 h
    rw [if_neg hfloat]
    exact integer_settles hc hr (pure_eq_ok.1 h)

end Cursor

/-! ### Pieces -/

theorem stackPiecesFrom_spills {chunks : List (Nat × Nat)} (h : stackPiecesFrom l c chunks = .ok (ps, c')) :
    c.Spills (ps.map Piece.storage) c' := by
  induction chunks generalizing c ps with
  | nil =>
    cases h
    exact .nil _
  | cons chunk chunks ih =>
    obtain ⟨kind, -, h⟩ := bind_eq_ok.1 h
    obtain ⟨⟨rest, last⟩, hrest, h⟩ := bind_eq_ok.1 h
    cases h
    exact .cons (ih hrest)

theorem stackPieces_spills (h : stackPieces l c = .ok (ps, c')) : c.Spills (ps.map Piece.storage) c' := by
  obtain ⟨size, -, h⟩ := bind_eq_ok.1 h
  exact stackPiecesFrom_spills h

theorem integerPiecesFrom_serves {chunks : List (Nat × Nat)} (hc : c.Sound)
    (h : integerPiecesFrom l c chunks = .ok (ps, c')) :
    c.Serves ⟨chunks.length, 0⟩ (ps.map Piece.storage) c' := by
  induction chunks generalizing c ps with
  | nil =>
    cases h
    exact .nil _
  | cons chunk chunks ih =>
    obtain ⟨kind, -, h⟩ := bind_eq_ok.1 h
    obtain ⟨⟨s?, next⟩, hnext, h⟩ := bind_eq_ok.1 h
    cases s? with
    | none => cases h
    | some s =>
      obtain ⟨⟨rest, last⟩, hrest, h⟩ := bind_eq_ok.1 h
      cases h
      exact .integer hc hnext (ih ((Cursor.integer?_eq_ok hnext).1.before hc).1 hrest)

theorem SysV.registerPieces_serves {classes : List (Nat × Nat × EightbyteClass)} (hc : c.Sound)
    (h : registerPieces l c classes = .ok (ps, c')) :
    c.Serves (demandOf classes) (ps.map Piece.storage) c' := by
  induction classes generalizing c ps with
  | nil =>
    cases h
    exact .nil _
  | cons e classes ih =>
    obtain ⟨offset, size, kind⟩ := e
    obtain ⟨⟨s?, next⟩, hnext, h⟩ := bind_eq_ok.1 h
    obtain ⟨moved, -, h⟩ := bind_eq_ok.1 h
    cases s? with
    | none => cases h
    | some s =>
      obtain ⟨⟨rest, last⟩, hrest, h⟩ := bind_eq_ok.1 h
      cases h
      cases kind with
      | integer =>
        have hserves := ih ((Cursor.integer?_eq_ok hnext).1.before hc).1 hrest
        simpa [demandOf] using Cursor.Serves.integer hc hnext hserves
      | sse =>
        have hserves := ih ((Cursor.vector?_eq_ok hnext).1.before hc).1 hrest
        simpa [demandOf] using Cursor.Serves.vector hc hnext hserves

theorem AArch64.vectorPieces_serves {fields : List ScalarField} (hc : c.Sound)
    (h : vectorPieces kind c fields = .ok (ps, c')) (hfree : fields.length ≤ c.freeVectors) :
    c.Serves ⟨0, fields.length⟩ (ps.map Piece.storage) c' := by
  induction fields generalizing c ps with
  | nil =>
    cases h
    exact .nil _
  | cons f fields ih =>
    rw [List.length_cons] at hfree
    obtain ⟨⟨s?, next⟩, hnext, h⟩ := bind_eq_ok.1 h
    cases s? with
    | none =>
      have := (Cursor.vector?_eq_ok hnext).1
      omega
    | some s =>
      obtain ⟨⟨rest, last⟩, hrest, h⟩ := bind_eq_ok.1 h
      cases h
      obtain ⟨htakes, -⟩ := Cursor.vector?_eq_ok hnext
      have hle := htakes.freeVectors_le
      exact .vector hc hnext (ih (htakes.before hc).1 hrest (by omega))

/-! ### Values -/

theorem SysV.demand?_eq (hl : l.isAggregate = true) : demand? l = (classify l).toOption.join.map demandOf := by
  cases l <;> first | rfl | cases hl

theorem SysV.demandOf_eq (classes : List (Nat × Nat × EightbyteClass)) :
    demandOf classes = ⟨(classes.filter fun e => e.2.2 == .integer).length,
      classes.length - (classes.filter fun e => e.2.2 == .integer).length⟩ := by
  have hlength :=
    List.length_eq_countP_add_countP (fun e : Nat × Nat × EightbyteClass => e.2.2 == .integer) (l := classes)
  have hvectors : classes.countP (fun e => e.2.2 = .sse)
      = classes.countP (fun e => ¬ (e.2.2 == .integer) = true) :=
    List.countP_congr fun e _ => by cases h : e.2.2 <;> simp
  rw [demandOf, hvectors, ← List.countP_eq_length_filter, hlength, Nat.add_sub_cancel_left]
  rfl

theorem SysV.place_settles (hc : c.Sound) (h : place l c = .ok (p, c')) :
    (∃ d, demand? l = some d ∧ c.Settles d c p.storages c') ∨ demand? l = none ∧ c.Spills p.storages c' := by
  unfold place at h
  split at h
  · next kind =>
    obtain ⟨⟨s, next⟩, hnext, h⟩ := bind_eq_ok.1 h
    cases h
    exact .inl ⟨_, rfl, Cursor.scalar_settles hc hnext⟩
  · obtain ⟨⟨s, next⟩, hnext, h⟩ := bind_eq_ok.1 h
    cases h
    obtain ⟨r, hr, hnext⟩ := bind_eq_ok.1 hnext
    exact .inl ⟨_, rfl, Cursor.integer_settles hc hr (pure_eq_ok.1 hnext)⟩
  · next hvalue haddress =>
    have hl := Layout.isAggregate_of_ne hvalue haddress
    obtain ⟨⟨ps, next⟩, hnext, h⟩ := bind_eq_ok.1 h
    cases h
    obtain ⟨classes?, hclasses, hnext⟩ := bind_eq_ok.1 hnext
    rw [demand?_eq hl, hclasses]
    cases classes? with
    | none => exact .inr ⟨rfl, stackPieces_spills hnext⟩
    | some classes =>
      refine .inl ⟨_, rfl, ?_⟩
      dsimp only at hnext
      split at hnext
      · next hfits => exact .inl ⟨by rwa [demandOf_eq], registerPieces_serves hc hnext⟩
      · next hfits => exact .inr ⟨by rwa [demandOf_eq], stackPieces_spills hnext⟩

namespace AArch64

theorem demand_eq (hl : l.isAggregate = true) : demand l =
    match homogeneous? l with
    | .ok (some (_, fields)) => ⟨0, fields.length⟩
    | _ => if maxRegisterAggregate < l.aggregateSize then ⟨1, 0⟩ else ⟨(l.aggregateSize + 7) / 8, 0⟩ := by
  cases l <;> first | rfl | cases hl

theorem takesVectors_eq (hl : l.isAggregate = true) : takesVectors l = isHomogeneous l := by
  cases l <;> first | rfl | cases hl

theorem exhaustIntegers_eq (hc : c.Sound) (h : c.freeIntegers = 0) : c.exhaustIntegers = c := by
  have := hc.integers_le
  unfold Cursor.freeIntegers at h
  unfold Cursor.exhaustIntegers
  rw [show c.convention.slotCount c.integerClass = c.integers by omega]

theorem exhaustVectors_eq (hc : c.Sound) (h : c.freeVectors = 0) : c.exhaustVectors = c := by
  have := hc.vectors_le
  unfold Cursor.freeVectors at h
  unfold Cursor.exhaustVectors
  rw [show c.convention.slotCount c.vectorClass = c.vectors by omega]

theorem settles_integer (hc : c.Sound) (h : c.Settles ⟨1, 0⟩ c ss c') :
    c.Settles ⟨1, 0⟩ c.exhaustIntegers ss c' := by
  refine h.imp_right fun ⟨hfits, hspills⟩ => ⟨hfits, ?_⟩
  rw [exhaustIntegers_eq hc]
  · exact hspills
  · unfold Cursor.Fits at hfits
    dsimp only at hfits
    omega

theorem settles_vector (hc : c.Sound) (h : c.Settles ⟨0, 1⟩ c ss c') :
    c.Settles ⟨0, 1⟩ c.exhaustVectors ss c' := by
  refine h.imp_right fun ⟨hfits, hspills⟩ => ⟨hfits, ?_⟩
  rw [exhaustVectors_eq hc]
  · exact hspills
  · unfold Cursor.Fits at hfits
    dsimp only at hfits
    omega

theorem placeAggregate_settles (hc : c.Sound) (hl : l.isAggregate = true)
    (h : placeAggregate l c = .ok (p, c')) :
    c.Settles (demand l) (Convention.beforeSpill .aarch64 l c) p.storages c' := by
  obtain ⟨⟨⟩, hempty, h⟩ := bind_eq_ok.1 h
  obtain ⟨size, hsize, -⟩ := checkNotEmpty_eq_ok hempty
  obtain ⟨homogeneous, hhomogeneous, h⟩ := bind_eq_ok.1 h
  rw [demand_eq hl, hhomogeneous, Convention.beforeSpill, takesVectors_eq hl, isHomogeneous, hhomogeneous,
    Layout.aggregateSize_eq hl hsize]
  split at h
  · next kind fields =>
    dsimp only at h
    split at h
    · next hfree =>
      obtain ⟨⟨ps, next⟩, hps, h⟩ := bind_eq_ok.1 h
      cases h
      exact .inl ⟨⟨Nat.zero_le _, hfree⟩, vectorPieces_serves hc hps hfree⟩
    · next hfree =>
      obtain ⟨⟨ps, next⟩, hps, h⟩ := bind_eq_ok.1 h
      cases h
      exact .inr ⟨fun hfits => hfree hfits.2, stackPieces_spills hps⟩
  · obtain ⟨size', hsize', h⟩ := bind_eq_ok.1 h
    obtain rfl := ok_unique hsize (lift_overflow_halt_eq_ok.1 hsize')
    dsimp only
    split at h
    · next hlarge =>
      obtain ⟨⟨s, next⟩, hnext, h⟩ := bind_eq_ok.1 h
      cases h
      obtain ⟨r, hr, hnext⟩ := bind_eq_ok.1 hnext
      rw [if_pos hlarge]
      exact settles_integer hc (Cursor.integer_settles hc hr (pure_eq_ok.1 hnext))
    · next hlarge =>
      rw [if_neg hlarge]
      dsimp only at h
      split at h
      · next hfree =>
        obtain ⟨⟨ps, next⟩, hps, h⟩ := bind_eq_ok.1 h
        cases h
        obtain ⟨size', hsize', hps⟩ := bind_eq_ok.1 hps
        obtain rfl := ok_unique hsize (lift_overflow_halt_eq_ok.1 hsize')
        have hserves := integerPiecesFrom_serves hc hps
        rw [length_eightbytes] at hserves
        exact .inl ⟨⟨hfree, Nat.zero_le _⟩, hserves⟩
      · next hfree =>
        obtain ⟨⟨ps, next⟩, hps, h⟩ := bind_eq_ok.1 h
        cases h
        exact .inr ⟨fun hfits => hfree hfits.1, stackPieces_spills hps⟩

theorem place_settles (hc : c.Sound) (h : place l c = .ok (p, c')) :
    c.Settles (demand l) (Convention.beforeSpill .aarch64 l c) p.storages c' := by
  unfold place at h
  split at h
  · next kind =>
    obtain ⟨⟨s, next⟩, hnext, h⟩ := bind_eq_ok.1 h
    cases h
    have hsettles := Cursor.scalar_settles hc hnext
    show c.Settles (.ofScalar kind) (if kind.isFloat then c.exhaustVectors else c.exhaustIntegers) [s] c'
    unfold Demand.ofScalar at hsettles ⊢
    split at hsettles
    · next hfloat =>
      rw [if_pos hfloat, if_pos hfloat]
      exact settles_vector hc hsettles
    · next hfloat =>
      rw [if_neg hfloat, if_neg hfloat]
      exact settles_integer hc hsettles
  · obtain ⟨⟨s, next⟩, hnext, h⟩ := bind_eq_ok.1 h
    cases h
    obtain ⟨r, hr, hnext⟩ := bind_eq_ok.1 hnext
    exact settles_integer hc (Cursor.integer_settles hc hr (pure_eq_ok.1 hnext))
  · next hvalue haddress => exact placeAggregate_settles hc (Layout.isAggregate_of_ne hvalue haddress) h

end AArch64

/-- **A value gets its registers iff they are left, and all of it goes to the stack otherwise.**  A value
that asks for no registers always goes to the stack. -/
theorem Convention.place_settles (hc : c.Sound) (h : convention.place l c = .ok (p, c')) :
    (∃ d, convention.demand? l = some d ∧ c.Settles d (convention.beforeSpill l c) p.storages c') ∨
      convention.demand? l = none ∧ (convention.beforeSpill l c).Spills p.storages c' := by
  cases convention with
  | sysV => exact SysV.place_settles hc h
  | aarch64 => exact .inl ⟨_, rfl, AArch64.place_settles hc h⟩

/-! ### Arguments -/

/-- All of the value is moved through the stack. -/
def Binding.InStack (b : Binding) : Prop := ∀ s ∈ Program.storages b.program, s.kind = .stack

/-- All of the value is moved through registers. -/
def Binding.InRegisters (b : Binding) : Prop := ∀ s ∈ Program.storages b.program, s.kind ≠ .stack

/-- The number of registers of a class that some programs leave. -/
def Convention.left (convention : Convention) (kind : StorageClass) (programs : List Program) : Nat :=
  convention.slotCount kind - Storage.count kind (Program.storages programs.flatten)

namespace Placed

variable {unboxes : Bool} {last : Cursor} {ls : List Layout} {placements : List Placement}
  {before after bs : List Binding} {b : Binding}

theorem split (h : Placed convention unboxes c ls placements (before ++ b :: after) last) :
    ∃ middle next ls₁ ls₂ placements₁ placements₂ p,
      Placed convention unboxes c ls₁ placements₁ before middle ∧
      convention.place b.layout middle = .ok (p, next) ∧ p.program b.layout unboxes = .ok b.program ∧
      Placed convention unboxes next ls₂ placements₂ after last := by
  induction before generalizing c ls placements with
  | nil =>
    cases h with
    | cons hplace hprogram hrest => exact ⟨_, _, _, _, _, _, _, .nil, hplace, hprogram, hrest⟩
  | cons b' before ih =>
    cases h with
    | cons hplace hprogram hrest =>
      obtain ⟨middle, next, _, _, _, _, p, hbefore, hb, hprogram', hafter⟩ := ih hrest
      exact ⟨middle, next, _, _, _, _, p, .cons hplace hprogram hbefore, hb, hprogram', hafter⟩

/-- Under System V a cursor counts the registers that the arguments use, and no others. -/
theorem sysV_counts (h : Placed .sysV unboxes c ls placements bs last) (hc : c.Sound) :
    last.integers = c.integers + Storage.count c.integerClass (bs.flatMap fun b => Program.storages b.program) ∧
      last.vectors = c.vectors + Storage.count c.vectorClass (bs.flatMap fun b =>
        Program.storages b.program) := by
  induction h with
  | nil => exact ⟨rfl, rfl⟩
  | @cons cursor next _ _ _ _ _ _ _ hplace hprogram _ ih =>
    have hnext := (Convention.place_eq_ok hplace).1.before hc
    obtain ⟨hintegers, hvectors⟩ := ih hnext.1
    rw [hnext.2.integerClass] at hintegers
    rw [hnext.2.vectorClass] at hvectors
    rw [List.flatMap_cons, Placement.storages_program hprogram, Storage.count_append, Storage.count_append]
    obtain ⟨-, hi, hv⟩ := hc.classes_ne
    have hspilled {ss : List Storage} (h : cursor.Spills ss next) :
        next.integers = cursor.integers + Storage.count cursor.integerClass ss ∧
          next.vectors = cursor.vectors + Storage.count cursor.vectorClass ss := by
      rw [Storage.count_eq_zero fun s hs => by rw [h.stack s hs]; exact hi.symm,
        Storage.count_eq_zero fun s hs => by rw [h.stack s hs]; exact hv.symm, h.next]
      exact ⟨rfl, rfl⟩
    obtain ⟨d, -, ⟨-, hserves⟩ | ⟨-, hspills⟩⟩ | ⟨-, hspills⟩ := Convention.place_settles hc hplace
    · rw [hserves.integers, hserves.vectors]
      rw [hserves.next] at hintegers hvectors
      dsimp only at hintegers hvectors
      omega
    · obtain ⟨hsame, hsame'⟩ := hspilled hspills
      omega
    · obtain ⟨hsame, hsame'⟩ := hspilled hspills
      omega

end Placed

theorem Convention.planResult_counts {l? : Option Layout} {plan : ResultPlan}
    (h : Convention.sysV.planResult l? = .ok (plan, c)) :
    c.integers = Storage.count .integerArg plan.pointer?.toList ∧
      c.vectors = Storage.count .vectorArg plan.pointer?.toList := by
  rcases Convention.planResult_pointer? h with ⟨hnone, rfl⟩ | ⟨pointer, hsome, hpointer⟩
  · rw [hnone]
    exact ⟨rfl, rfl⟩
  · rw [hsome]
    cases hpointer
    exact ⟨rfl, rfl⟩

theorem Convention.planResult_convention {l? : Option Layout} {plan : ResultPlan}
    (h : convention.planResult l? = .ok (plan, c)) : c.convention = convention := by
  rcases Convention.planResult_pointer? h with ⟨-, rfl⟩ | ⟨pointer, -, hpointer⟩
  · rfl
  · cases convention <;> cases hpointer <;> rfl

variable {d : Descriptor} {direction : Direction} {s : CallingSequence} {before after : List Binding}
  {b : Binding}

/-- The programs that take their storages before an argument does. -/
def CallingSequence.programsBefore (s : CallingSequence) (before : List Binding) : List Program :=
  s.pointerProgram?.toList ++ before.map (·.program)

theorem CallingSequence.storages_programsBefore {plan : ResultPlan}
    (h : plan.Describes direction (s.indirect.map fun i => (i.pointer, i.layout)) s.result) :
    Program.storages (s.programsBefore before).flatten
      = plan.pointer?.toList ++ before.flatMap fun b => Program.storages b.program := by
  rw [Program.storages_flatten, programsBefore, List.flatMap_append, List.flatMap_map, h.pointerProgram?]
  cases plan.pointer? with
  | none => rfl
  | some pointer => simp [Placement.storages_scalarProgram]

/-- Where the cursor stands when an argument is placed.  Under System V the registers that it has free are
those that the programs before leave. -/
theorem exists_cursor (h : arrange convention d direction = .ok s) (hs : s.arguments = before ++ b :: after) :
    ∃ c c' p last, c.ForArguments ∧ c.convention = convention ∧ convention.place b.layout c = .ok (p, c') ∧
      p.storages = Program.storages b.program ∧
        c'.Gives (after.flatMap fun b => Program.storages b.program) last ∧
      (convention = .sysV → c.freeIntegers = convention.left .integerArg (s.programsBefore before) ∧
        c.freeVectors = convention.left .vectorArg (s.programsBefore before)) := by
  obtain ⟨plan, cursor, placements, last, hplan, hplaced, hdescribes, -, -⟩ := arrange_eq_ok h
  rw [hs] at hplaced
  obtain ⟨c, c', _, _, _, _, p, hbefore, hplace, hprogram, hafter⟩ := hplaced.split
  have hcursor := Convention.planResult_forArguments hplan
  have hc := hbefore.gives.forArguments hcursor
  have hconvention : c.convention = convention :=
    (hbefore.gives.before hcursor.sound).2.convention.trans (Convention.planResult_convention hplan)
  refine ⟨c, c', p, last, hc, hconvention, hplace, (Placement.storages_program hprogram).symm, hafter.gives, ?_⟩
  rintro rfl
  obtain ⟨hintegers, hvectors⟩ := hbefore.sysV_counts hcursor.sound
  obtain ⟨hpointer, hpointer'⟩ := Convention.planResult_counts hplan
  rw [hcursor.integerClass, hpointer] at hintegers
  rw [hcursor.vectorClass, hpointer'] at hvectors
  unfold Cursor.freeIntegers Cursor.freeVectors Convention.left
  rw [CallingSequence.storages_programsBefore hdescribes, Storage.count_append,
    Storage.count_append, hconvention, hc.integerClass, hc.vectorClass, hintegers, hvectors]
  exact ⟨rfl, rfl⟩

theorem Convention.left_of_inStack (hb : b.InStack) {kind : StorageClass} (hkind : kind ≠ .stack) :
    convention.left kind (s.programsBefore (before ++ [b]))
      = convention.left kind (s.programsBefore before) := by
  have hcount : Storage.count kind (Program.storages b.program) = 0 :=
    Storage.count_eq_zero fun storage hstorage heq => hkind (heq.symm.trans (hb storage hstorage))
  have hprograms : s.programsBefore (before ++ [b]) = s.programsBefore before ++ [b.program] := by
    simp [CallingSequence.programsBefore]
  rw [left, left, hprograms, List.flatten_append, Program.storages_append, Storage.count_append,
    List.flatten_singleton, hcount, Nat.add_zero]

theorem Placement.Carries.size_pos (h : p.Carries l) (hl : l.isAggregate = true)
    (hreference : p.isReference = false) (hsize : l.byteSize = .ok size) : 0 < size := by
  cases p with
  | whole storage => exact absurd (hl.symm.trans h) (by decide)
  | pieces ps =>
    obtain ⟨-, size', hsize', hpos, -⟩ := h
    rwa [ok_unique hsize hsize']
  | reference storage => cases hreference

/-- The class of registers that a value travels in under AArch64. -/
def AArch64.argumentClass (l : Layout) : StorageClass := if takesVectors l then .vectorArg else .integerArg

/-- A value in the stack leaves no register of its class. -/
theorem AArch64.no_register_after_spill (hc : c.ForArguments)
    (hspills : (Convention.beforeSpill .aarch64 l c).Spills ss c') (hc' : c'.Sound) {ts : List Storage}
    {last : Cursor} (hafter : c'.Gives ts last) :
    ∀ t ∈ ts, t.kind ≠ argumentClass l := by
  have hfull : c'.next (argumentClass l) = c'.convention.slotCount (argumentClass l) := by
    rw [hspills.next]
    unfold argumentClass Convention.beforeSpill
    cases takesVectors l <;>
      simp [Cursor.next, Cursor.exhaustIntegers, Cursor.exhaustVectors, hc.integerClass, hc.vectorClass]
  have hclass : argumentClass l ≠ .stack := by
    unfold argumentClass
    split <;> decide
  have hroom := hafter.next_add_count_le hc' hclass
  intro t ht hkind
  have hcount : 0 < Storage.count (argumentClass l) ts := List.countP_pos_iff.2 ⟨t, ht, by simpa using hkind⟩
  omega

theorem SysV.demand?_small (hl : l.isAggregate = true) (hsize : l.byteSize = .ok size) (hpos : 0 < size)
    (hsmall : size ≤ maxRegisterAggregate) :
    ∃ classes, classify l = .ok (some classes) ∧ demand? l = some (demandOf classes) := by
  obtain ⟨classes, hclasses, -⟩ := classify_small hsize (Nat.lt_of_le_of_lt hsmall (by decide)) hpos hsmall
  exact ⟨classes, hclasses, by rw [demand?_eq hl, hclasses]; rfl⟩

/-- **Argument placement follows the conventions.**  An argument is moved through registers or through the
stack as a whole.  Under System V it goes to the stack iff the programs before leave too few registers of a
class; then it leaves them all to the others, and otherwise it uses just those that it asks for.  An
aggregate of at most 16 bytes asks for one register for each eightbyte.  Under AArch64 no argument after one
in the stack uses a register of the class of that. -/
theorem arranged_registers (h : arrange convention d direction = .ok s)
    (hs : s.arguments = before ++ b :: after) :
    (b.InStack ∨ b.InRegisters) ∧
      (convention = .sysV →
        (∀ size, b.layout.isAggregate = true → b.layout.byteSize = .ok size → size ≤ maxRegisterAggregate →
          ∃ classes, SysV.classify b.layout = .ok (some classes) ∧
            SysV.demand? b.layout = some (SysV.demandOf classes)) ∧
        (∀ demand, SysV.demand? b.layout = some demand →
          (b.InStack ↔ convention.left .integerArg (s.programsBefore before) < demand.integers ∨
            convention.left .vectorArg (s.programsBefore before) < demand.vectors) ∧
          (b.InRegisters → Storage.count .integerArg (Program.storages b.program) = demand.integers ∧
            Storage.count .vectorArg (Program.storages b.program) = demand.vectors)) ∧
        (b.InStack → ∀ kind ≠ .stack,
          convention.left kind (s.programsBefore (before ++ [b]))
            = convention.left kind (s.programsBefore before))) ∧
      (convention = .aarch64 → b.InStack → ∀ b' ∈ after, ∀ storage ∈ Program.storages b'.program,
        storage.kind ≠ AArch64.argumentClass b.layout) := by
  obtain ⟨c, c', p, last, hc, hconvention, hplace, hstorages, hafter, hleft⟩ := exists_cursor h hs
  obtain ⟨hgives, hcarries⟩ := Convention.place_eq_ok hplace
  have hc' := hgives.forArguments hc
  have hsettles := Convention.place_settles hc.sound hplace
  have hne := hcarries.storages_ne_nil
  rw [hstorages] at hsettles hne
  refine ⟨?_, ?_, ?_⟩
  · obtain ⟨_, -, ⟨-, hserves⟩ | ⟨-, hspills⟩⟩ | ⟨-, hspills⟩ := hsettles
    · exact .inr hserves.registers
    · exact .inl hspills.stack
    · exact .inl hspills.stack
  · rintro rfl
    obtain ⟨hintegers, hvectors⟩ := hleft rfl
    refine ⟨fun size hl hsize hsmall => ?_, fun demand hdemand => ?_,
      fun hb kind => Convention.left_of_inStack hb⟩
    · exact SysV.demand?_small hl hsize (hcarries.size_pos hl (SysV.place_isReference hplace) hsize) hsmall
    · obtain ⟨_, hd, hsettles⟩ | ⟨hnone, -⟩ := hsettles
      · cases hd.symm.trans hdemand
        refine ⟨(hsettles.inStack_iff hne).trans ?_, fun hb => ?_⟩
        · rw [← hintegers, ← hvectors, Cursor.Fits]
          omega
        · obtain ⟨-, hserves⟩ := hsettles.serves hne hb
          exact ⟨hc.integerClass ▸ hserves.integers, hc.vectorClass ▸ hserves.vectors⟩
      · cases hnone.symm.trans hdemand
  · rintro rfl hb b' hb' storage hstorage
    obtain ⟨_, -, hsettles⟩ | ⟨hnone, -⟩ := hsettles
    · exact AArch64.no_register_after_spill hc (hsettles.spills hne hb).2 hc'.sound hafter storage
        (List.mem_flatMap.2 ⟨b', hb', hstorage⟩)
    · cases hnone

/-- Five words leave one integer register.  A structure of two words goes to the stack, and the word after
it gets the register. -/
theorem arranged_registers_backfill :
    let word (i : Nat) : Binding := ⟨.primitive .i64, .value .i64, [.move (.slot .integerArg i 8) .i64]⟩
    let pair : Layout := .struct [.value .i64, .value .i64]
    let d : Descriptor := ⟨List.replicate 5 (.value .i64) ++ [pair, .value .i64], none⟩
    ∃ s b, arrange .sysV d .downcall = .ok s ∧ s.arguments = (List.range 5).map word ++ b :: [word 5] ∧
      b.layout = pair ∧ b.InStack := by
  intro word pair d
  let b : Binding := ⟨.segment, pair, [.dup, .field 0 .i64, .move (Convention.stackSlot 0) .i64,
    .field 8 .i64, .move (Convention.stackSlot 1) .i64]⟩
  have hs : (arrange .sysV d .downcall).toOption.any
      (fun s => s.arguments = (List.range 5).map word ++ b :: [word 5] ∧ s.indirect = none) = true := by
    decide +kernel
  obtain ⟨s, hs, hsplit⟩ := exists_ok_of_any hs
  obtain ⟨hsplit, hindirect⟩ := of_decide_eq_true hsplit
  obtain ⟨-, hsysV, -⟩ := arranged_registers hs hsplit
  have hleft : Convention.sysV.left .integerArg (s.programsBefore ((List.range 5).map word)) < 2 := by
    unfold CallingSequence.programsBefore CallingSequence.pointerProgram?
    rw [hindirect]
    decide
  exact ⟨s, b, hs, hsplit, rfl, ((hsysV rfl).2.1 ⟨2, 0⟩ rfl).1.2 (.inl hleft)⟩

end ForeignCall
