import ForeignCall.Proofs.Arrangement.Routes
import ForeignCall.Proofs.Arrangement.Support

/-!
# How much scratch memory a call asks for

* `Program.scratch`: the bytes that a program asks for, and `SequenceBuilder.scratchSize_eq`, the checked
  sum of a builder;
* `Convention.isLarge`: the aggregates that do not travel in pieces, which `Convention.placeResult?_isNone`
  finds among the results and `Convention.place_isReference` among the arguments;
* `Convention.scratch`: what a function shape asks for in one direction, read off its layouts;
* `CallingSequence.scratch_steps`: the programs of a sequence ask for just that.
-/

namespace ForeignCall

variable {c : Convention} {d : Descriptor} {direction : Direction} {s : CallingSequence} {l : Layout}
  {ls : List Layout} {p : Placement} {cursor last : Cursor} {size : Nat} {unboxes : Bool}
  {program : Program}

/-! ### Programs -/

namespace Program

/-- The bytes of scratch memory that a program asks for. -/
def scratch (p : Program) : Nat := (p.map Step.scratchSize).sum

@[simp] theorem scratch_nil : scratch [] = 0 := rfl

@[simp] theorem scratch_cons (step : Step) (p : Program) :
    scratch (step :: p) = step.scratchSize + p.scratch := by
  simp [scratch]

@[simp] theorem scratch_append (p q : Program) : scratch (p ++ q) = p.scratch + q.scratch := by
  simp [scratch]

theorem scratch_flatten (programs : List Program) : scratch programs.flatten = (programs.map scratch).sum := by
  induction programs with
  | nil => rfl
  | cons p programs ih => rw [List.flatten_cons, scratch_append, ih, List.map_cons, List.sum_cons]

theorem scratch_eq_zero {p : Program} (h : p.requests = []) : p.scratch = 0 := by
  induction p with
  | nil => rfl
  | cons step p ih =>
    rw [requests_cons, List.append_eq_nil_iff] at h
    have hstep : step.scratchSize = 0 := by
      cases step <;> first | rfl | cases h.1
    rw [scratch_cons, hstep, ih h.2]

end Program

/-- The checked sum of a builder fails iff the sum is not a size. -/
theorem SequenceBuilder.scratchSize_eq (p : Program) :
    scratchSize p = if p.scratch < wordLimit then .ok p.scratch else .error .add := by
  -- Every partial sum is a size, or the sum has failed before.
  have hfrom (total : Nat) (htotal : total < wordLimit) :
      p.foldlM (fun total step => checkedAdd total step.scratchSize) total
        = if total + p.scratch < wordLimit then .ok (total + p.scratch) else .error .add := by
    induction p generalizing total with
    | nil =>
      rw [Program.scratch_nil, Nat.add_zero, if_pos htotal]
      rfl
    | cons step p ih =>
      rw [List.foldlM_cons, Program.scratch_cons, ← Nat.add_assoc]
      by_cases hnext : total + step.scratchSize < wordLimit
      · rw [checkedAdd_eq_ok.2 ⟨hnext, rfl⟩, ok_bind, ih _ hnext]
      · rw [checkedAdd, if_neg hnext, if_neg (by omega)]
        rfl
  rw [scratchSize, hfrom 0 (by decide), Nat.zero_add]

/-! ### Aggregates that do not travel in pieces -/

/-- The size of an aggregate.  Scalars and addresses count as zero. -/
def Layout.aggregateSize (l : Layout) : Nat := if l.isAggregate then l.byteSize.toOption.getD 0 else 0

theorem Layout.aggregateSize_eq (hl : l.isAggregate = true) (hsize : l.byteSize = .ok size) :
    l.aggregateSize = size := by
  rw [aggregateSize, if_pos hl, hsize]
  rfl

theorem Layout.aggregateSize_eq_zero (hl : l.isAggregate = false) : l.aggregateSize = 0 := by
  rw [aggregateSize, hl]
  rfl

/-- Whether an aggregate is a homogeneous floating-point one. -/
def AArch64.isHomogeneous (l : Layout) : Bool := (homogeneous? l).toOption.any Option.isSome

/-- Whether an aggregate is too large for registers.  Under AArch64 homogeneous aggregates never are. -/
def Convention.isLarge (c : Convention) (l : Layout) : Bool :=
  maxRegisterAggregate < l.aggregateSize && !(c = .aarch64 && AArch64.isHomogeneous l)

theorem Convention.isLarge_eq_false (hl : l.isAggregate = false) : c.isLarge l = false := by
  rw [isLarge, Layout.aggregateSize_eq_zero hl]
  rfl

def Placement.isReference : Placement → Bool
  | .reference _ => true
  | _ => false

namespace SysV

theorem isLarge_eq (hl : l.isAggregate = true) (hsize : l.byteSize = .ok size) :
    Convention.sysV.isLarge l = decide (maxRegisterAggregate < size) := by
  simp [Convention.isLarge, Layout.aggregateSize_eq hl hsize]

theorem place_isReference {r : Placement × Cursor} (h : place l cursor = .ok r) : r.1.isReference = false := by
  unfold place at h
  split at h <;> obtain ⟨a, -, h⟩ := bind_eq_ok.1 h <;> cases h <;> rfl

theorem placeResult?_isNone {p? : Option Placement} (hl : l.Sized) (h : placeResult? l = .ok p?) :
    p?.isNone = Convention.sysV.isLarge l := by
  obtain ⟨size, hsize, hlimit⟩ := hl
  unfold placeResult? at h
  dsimp only at h
  split at h
  · obtain ⟨_, -, h⟩ := bind_eq_ok.1 h
    cases h
    exact (Convention.isLarge_eq_false rfl).symm
  · obtain ⟨_, -, h⟩ := bind_eq_ok.1 h
    cases h
    exact (Convention.isLarge_eq_false rfl).symm
  · next hvalue haddress =>
    rw [isLarge_eq (Layout.isAggregate_of_ne hvalue haddress) hsize]
    obtain ⟨classes?, hclasses, h⟩ := bind_eq_ok.1 h
    cases classes? with
    | none =>
      cases h
      obtain ⟨⟨⟩, hempty, -⟩ := bind_eq_ok.1 hclasses
      obtain ⟨size', hsize', hpos⟩ := checkNotEmpty_eq_ok hempty
      obtain rfl := ok_unique hsize hsize'
      refine (decide_eq_true ?_).symm
      by_contra hsmall
      obtain ⟨classes, hsome, -⟩ := classify_small hsize hlimit hpos (by omega)
      cases ok_unique hclasses hsome
    | some classes =>
      obtain ⟨r, -, h⟩ := bind_eq_ok.1 h
      cases h
      obtain ⟨size', hsize', -, hle, -⟩ := classify_eq_ok hclasses
      obtain rfl := ok_unique hsize hsize'
      exact (decide_eq_false (by omega)).symm

end SysV

namespace AArch64

variable {homogeneous : Option (Primitive × List ScalarField)}

theorem isLarge_eq (hl : l.isAggregate = true) (hsize : l.byteSize = .ok size)
    (h : homogeneous? l = .ok homogeneous) :
    Convention.aarch64.isLarge l = (maxRegisterAggregate < size && homogeneous.isNone) := by
  simp [Convention.isLarge, isHomogeneous, Layout.aggregateSize_eq hl hsize, h, Except.toOption]

/-- Just the large aggregates are passed by reference. -/
theorem placeAggregate_isReference {r : Placement × Cursor} (hl : l.isAggregate = true)
    (h : placeAggregate l cursor = .ok r) : r.1.isReference = Convention.aarch64.isLarge l := by
  obtain ⟨⟨⟩, hempty, h⟩ := bind_eq_ok.1 h
  obtain ⟨size, hsize, -⟩ := checkNotEmpty_eq_ok hempty
  obtain ⟨homogeneous, hhomogeneous, h⟩ := bind_eq_ok.1 h
  rw [isLarge_eq hl hsize hhomogeneous]
  split at h
  · rw [Option.isNone_some, Bool.and_false]
    dsimp only at h
    split at h <;> obtain ⟨pieces, -, h⟩ := bind_eq_ok.1 h <;> cases h <;> rfl
  · obtain ⟨size', hsize', h⟩ := bind_eq_ok.1 h
    obtain rfl := ok_unique hsize (lift_overflow_halt_eq_ok.1 hsize')
    rw [Option.isNone_none, Bool.and_true]
    split at h
    · next hlarge =>
      obtain ⟨storage, -, h⟩ := bind_eq_ok.1 h
      cases h
      exact (decide_eq_true hlarge).symm
    · next hlarge =>
      rw [decide_eq_false hlarge]
      dsimp only at h
      split at h <;> obtain ⟨pieces, -, h⟩ := bind_eq_ok.1 h <;> cases h <;> rfl

theorem place_isReference {r : Placement × Cursor} (h : place l cursor = .ok r) :
    r.1.isReference = Convention.aarch64.isLarge l := by
  unfold place at h
  split at h
  · obtain ⟨_, -, h⟩ := bind_eq_ok.1 h
    cases h
    exact (Convention.isLarge_eq_false rfl).symm
  · obtain ⟨_, -, h⟩ := bind_eq_ok.1 h
    cases h
    exact (Convention.isLarge_eq_false rfl).symm
  · next hvalue haddress => exact placeAggregate_isReference (Layout.isAggregate_of_ne hvalue haddress) h

theorem placeResult?_isNone {p? : Option Placement} (h : placeResult? l = .ok p?) :
    p?.isNone = Convention.aarch64.isLarge l := by
  unfold placeResult? at h
  dsimp only at h
  split at h
  · obtain ⟨_, -, h⟩ := bind_eq_ok.1 h
    cases h
    exact (Convention.isLarge_eq_false rfl).symm
  · obtain ⟨_, -, h⟩ := bind_eq_ok.1 h
    cases h
    exact (Convention.isLarge_eq_false rfl).symm
  · next hvalue haddress =>
    obtain ⟨⟨⟩, hempty, h⟩ := bind_eq_ok.1 h
    obtain ⟨size, hsize, -⟩ := checkNotEmpty_eq_ok hempty
    obtain ⟨homogeneous, hhomogeneous, h⟩ := bind_eq_ok.1 h
    rw [isLarge_eq (Layout.isAggregate_of_ne hvalue haddress) hsize hhomogeneous]
    split at h
    · obtain ⟨pieces, -, h⟩ := bind_eq_ok.1 h
      cases h
      exact (Bool.and_false _).symm
    · obtain ⟨size', hsize', h⟩ := bind_eq_ok.1 h
      obtain rfl := ok_unique hsize (lift_overflow_halt_eq_ok.1 hsize')
      rw [Option.isNone_none, Bool.and_true]
      split at h
      · next hlarge =>
        cases h
        exact (decide_eq_true hlarge).symm
      · next hlarge =>
        obtain ⟨pieces, -, h⟩ := bind_eq_ok.1 h
        cases h
        exact (decide_eq_false hlarge).symm

end AArch64

namespace Convention

/-- Whether an argument is passed as the address of a private copy. -/
def copies (c : Convention) (l : Layout) : Bool := c = .aarch64 && c.isLarge l

theorem place_isReference {r : Placement × Cursor} (h : c.place l cursor = .ok r) :
    r.1.isReference = c.copies l := by
  cases c with
  | sysV => exact SysV.place_isReference h
  | aarch64 => exact AArch64.place_isReference h

/-- **Just the large aggregates are returned in memory.** -/
theorem placeResult?_isNone {p? : Option Placement} (hl : l.Sized) (h : c.placeResult? l = .ok p?) :
    p?.isNone = c.isLarge l := by
  cases c with
  | sysV => exact SysV.placeResult?_isNone hl h
  | aarch64 => exact AArch64.placeResult?_isNone h

/-! ### Function shapes -/

/-- The scratch memory of an argument: an aggregate is put together in it, and a private copy is made in it. -/
def argumentScratch (c : Convention) (unboxes : Bool) (l : Layout) : Nat :=
  if unboxes && !c.copies l then 0 else l.aggregateSize

/-- The scratch memory of a result: an aggregate that comes in registers is put together in it. -/
def resultScratch (c : Convention) (unboxes : Bool) (l : Layout) : Nat :=
  if unboxes || c.isLarge l then 0 else l.aggregateSize

/-- The scratch memory of all arguments and the result of a function. -/
def scratch (c : Convention) (d : Descriptor) (direction : Direction) : Nat :=
  (d.args.map (c.argumentScratch direction.unboxesArguments)).sum
    + (d.result.map (c.resultScratch direction.unboxesResult)).getD 0

end Convention

/-! ### Programs of placements -/

theorem scratch_scalarProgram (l : Layout) (s : Storage) (unboxes : Bool) :
    (scalarProgram l s unboxes).scratch = 0 :=
  Program.scratch_eq_zero (Placement.requests_scalarProgram l s unboxes)

/-- A program asks for memory to put an aggregate together, and for a private copy. -/
theorem Placement.scratch_program (hcarries : p.Carries l) (h : p.program l unboxes = .ok program) :
    program.scratch = if unboxes && !p.isReference then 0 else l.aggregateSize := by
  cases p with
  | whole s =>
    cases h
    rw [scratch_scalarProgram, Layout.aggregateSize_eq_zero hcarries, ite_self]
  | pieces ps =>
    cases unboxes with
    | true =>
      cases h
      exact Program.scratch_eq_zero (requests_takeApart ps)
    | false =>
      obtain ⟨allocate, hallocate, h⟩ := bind_eq_ok.1 h
      obtain ⟨size, hsize, rfl⟩ := Step.allocateFor_eq_ok hallocate
      cases h
      rw [Program.scratch_cons, Program.scratch_eq_zero (requests_putTogether ps),
        Layout.aggregateSize_eq hcarries.1 hsize]
      rfl
  | reference s =>
    obtain ⟨copy, hcopy, h⟩ := bind_eq_ok.1 h
    obtain ⟨size, hsize, rfl⟩ := Step.copyOf_eq_ok hcopy
    cases h
    rw [Layout.aggregateSize_eq hcarries hsize]
    cases unboxes <;> simp [isReference, Step.scratchSize]

theorem Placed.scratch {placements : List Placement} {bindings : List Binding}
    (h : Placed c unboxes cursor ls placements bindings last) :
    (bindings.map fun b => Program.scratch b.program).sum = (ls.map (c.argumentScratch unboxes)).sum := by
  induction h with
  | nil => rfl
  | cons hplace hprogram _ ih =>
    obtain ⟨-, hcarries⟩ := Convention.place_eq_ok hplace
    rw [List.map_cons, List.map_cons, List.sum_cons, List.sum_cons, ih,
      Placement.scratch_program hcarries hprogram, Convention.place_isReference hplace]
    rfl

theorem ResultPlan.Describes.scratch_resultProgram {plan : ResultPlan} (hd : ∀ l ∈ d.result, l.Sized)
    (hplan : c.planResult d.result = .ok (plan, cursor))
    (h : plan.Describes direction (s.indirect.map fun i => (i.pointer, i.layout)) s.result) :
    s.resultProgram.scratch = (d.result.map (c.resultScratch direction.unboxesResult)).getD 0 := by
  cases hresult : d.result with
  | none =>
    rw [hresult] at hplan
    cases hplan
    rw [CallingSequence.resultProgram, h.2]
    rfl
  | some l =>
    rw [hresult] at hplan
    obtain ⟨placement?, hplace, hplan⟩ := bind_eq_ok.1 hplan
    have hlarge := Convention.placeResult?_isNone (hd l hresult) hplace
    show _ = c.resultScratch direction.unboxesResult l
    rw [Convention.resultScratch, ← hlarge]
    cases placement? with
    | some placement =>
      cases hplan
      obtain ⟨-, hcarries, hne, -⟩ := Convention.placeResult?_eq_ok hplace
      have hreference : placement.isReference = false := by
        cases placement with
        | reference s => exact absurd rfl (hne s)
        | _ => rfl
      rw [Placement.scratch_program hcarries h.resultProgram_storages, hreference]
      simp
    | none =>
      obtain ⟨⟨pointer, next⟩, -, hplan⟩ := bind_eq_ok.1 hplan
      -- The program moves an address, or nothing at all.
      obtain ⟨returned, rfl⟩ : ∃ returned, plan = .memory l pointer returned := by
        dsimp only at hplan
        split at hplan
        · obtain ⟨register, -, hplan⟩ := bind_eq_ok.1 hplan
          cases hplan
          exact ⟨_, rfl⟩
        · cases hplan
          exact ⟨_, rfl⟩
      rw [h.resultProgram_memory]
      cases returned with
      | none => simp
      | some r => simp [scratch_scalarProgram]

/-- **The programs of a sequence ask for the scratch memory of its function shape.** -/
theorem CallingSequence.scratch_steps {plan : ResultPlan} {placements : List Placement}
    (hd : ∀ l ∈ d.result, l.Sized) (hplan : c.planResult d.result = .ok (plan, cursor))
    (hplaced : Placed c direction.unboxesArguments cursor d.args placements s.arguments last)
    (h : plan.Describes direction (s.indirect.map fun i => (i.pointer, i.layout)) s.result) :
    Program.scratch s.steps = c.scratch d direction := by
  have hpointer : (s.pointerProgram?.toList.map Program.scratch).sum = 0 := by
    rw [h.pointerProgram?]
    cases plan.pointer? with
    | none => rfl
    | some p => exact scratch_scalarProgram .address p _
  rw [steps, Program.scratch_append, Program.scratch_flatten, argumentPrograms, List.map_append,
    List.sum_append, hpointer, Nat.zero_add, userPrograms, List.map_map, h.scratch_resultProgram hd hplan]
  exact congrArg (· + _) hplaced.scratch

end ForeignCall
