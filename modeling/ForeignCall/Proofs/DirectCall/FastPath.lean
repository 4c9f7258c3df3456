import ForeignCall.Proofs.Arrangement.Registers
import ForeignCall.Proofs.DirectCall.Deciding

/-!
# Which functions are compiled

* `Convention.MovesDirectly`: the values that a single move carries.  They are those that take one register
  (`Convention.movesDirectly_iff`);
* `Placement.Made.isDirect_iff`: the program of a value is direct iff a single move carries it and it is not
  in the stack;
* `Placed.inRegisters`: within the budget of arguments none of them goes to the stack;
* `arranged_direct`: the sequence of an arranged function passes the check iff all its values are of this
  kind and there are few enough arguments.
-/

namespace ForeignCall

variable {c : Convention} {direction : Direction} {settings : Settings} {s : CallingSequence}
  {d d' : Descriptor} {l l' : Layout} {p : Placement} {program : Program} {ps : List Piece}
  {storage : Storage} {cursor last : Cursor} {size : Nat} {unboxes : Bool}

/-! ### Values that one register holds -/

/-- A homogeneous aggregate of two or more members takes a register for each of them. -/
def AArch64.TakesManyVectors (l : Layout) : Prop :=
  ∃ kind fields, homogeneous? l = .ok (some (kind, fields)) ∧ 2 ≤ fields.length

/-- A single move carries the value: it is a scalar or an address, or an aggregate of at most 8 bytes that
is taken apart. -/
inductive Convention.MovesDirectly (c : Convention) (unboxes : Bool) (l : Layout) : Prop
  | scalar (hl : l.isAggregate = false)
  | aggregate (hl : l.isAggregate = true) (hunboxes : unboxes = true) (size : Nat)
      (hsize : l.byteSize = .ok size)
      (hsmall : size ≤ 8) (hvectors : c = .aarch64 → ¬ AArch64.TakesManyVectors l)

/-- The functions whose calls are compiled. -/
structure Descriptor.Direct (c : Convention) (direction : Direction) (d : Descriptor) : Prop where
  count_le : d.args.length ≤ c.maxDirectArguments direction
  arguments : ∀ l ∈ d.args, c.MovesDirectly direction.unboxesArguments l
  result : ∀ l ∈ d.result, c.MovesDirectly direction.unboxesResult l

/-! ### Direct programs of placements -/

theorem isDirect_scalarProgram :
    (scalarProgram l storage unboxes).IsDirect size ↔ storage.isDirect size = true := by
  constructor
  · rintro ⟨hsteps, -⟩
    unfold scalarProgram at hsteps
    split at hsteps
    · exact hsteps _ List.mem_cons_self
    · cases unboxes
      · exact hsteps _ List.mem_cons_self
      · exact hsteps (.move storage .i64) (by simp)
  · intro h
    unfold scalarProgram
    split
    · exact ⟨by simpa [Step.IsDirect] using h, rfl⟩
    · cases unboxes
      · exact ⟨by simpa [Step.IsDirect] using h, rfl⟩
      · exact ⟨by simpa [Step.IsDirect] using h, rfl⟩

theorem isDirect_takeApart :
    (takeApart ps).IsDirect size ↔ ∃ piece, ps = [piece] ∧ piece.storage.isDirect size = true := by
  constructor
  · rintro ⟨hsteps, hmoves⟩
    match ps with
    | [] => cases hmoves
    | [piece] => exact ⟨piece, rfl, hsteps (.move piece.storage piece.kind) (by simp [takeApart])⟩
    | _ :: _ :: _ => exact (hsteps .dup (by simp [takeApart])).elim
  · rintro ⟨piece, rfl, h⟩
    exact ⟨by simpa [takeApart, Step.IsDirect] using h, rfl⟩

/-- The placements whose programs are direct: one storage that is direct, of the value itself or of its only
piece. -/
theorem Placement.isDirect_program (h : p.program l unboxes = .ok program) : program.IsDirect size ↔
    (∃ storage, p = .whole storage ∧ storage.isDirect size = true) ∨
      unboxes = true ∧ ∃ piece, p = .pieces [piece] ∧ piece.storage.isDirect size = true := by
  cases p with
  | whole storage =>
    cases h
    simp [isDirect_scalarProgram]
  | pieces ps =>
    cases unboxes with
    | true =>
      cases h
      simp [isDirect_takeApart]
    | false =>
      obtain ⟨step, hstep, h⟩ := bind_eq_ok.1 h
      obtain ⟨n, -, rfl⟩ := Step.allocateFor_eq_ok hstep
      cases h
      simp only [reduceCtorEq, false_and, exists_false, or_self, iff_false]
      exact fun hp => hp.steps (.allocate n l.alignment) (by simp)
  | reference storage =>
    obtain ⟨step, hstep, h⟩ := bind_eq_ok.1 h
    obtain ⟨n, -, rfl⟩ := Step.copyOf_eq_ok hstep
    cases h
    simp only [reduceCtorEq, false_and, exists_false, and_false, or_self, iff_false]
    exact fun hp => hp.steps (.copy n l.alignment) (by cases unboxes <;> simp)

/-! ### How many registers a value takes -/

def Demand.total (d : Demand) : Nat := d.integers + d.vectors

theorem Demand.total_ofScalar (kind : Primitive) : (Demand.ofScalar kind).total = 1 := by
  unfold ofScalar
  split <;> rfl

theorem SysV.total_demandOf (classes : List (Nat × Nat × EightbyteClass)) :
    (demandOf classes).total = classes.length := by
  have := List.length_filter_le (fun e : Nat × Nat × EightbyteClass => e.2.2 == .integer) classes
  rw [demandOf_eq, Demand.total]
  dsimp only
  omega

theorem Convention.demand?_scalar (hl : l.isAggregate = false) :
    ∃ demand, c.demand? l = some demand ∧ demand.total = 1 := by
  cases l with
  | value kind => cases c <;> exact ⟨_, rfl, Demand.total_ofScalar kind⟩
  | address => cases c <;> exact ⟨_, rfl, rfl⟩
  | _ => cases hl

theorem SysV.total_of_demand? {demand : Demand} (hl : l.isAggregate = true) (hsize : l.byteSize = .ok size)
    (h : demand? l = some demand) : demand.total = (size + 7) / 8 := by
  rw [demand?_eq hl] at h
  cases hclassify : classify l with
  | error e =>
    rw [hclassify] at h
    cases h
  | ok classes? =>
    rw [hclassify] at h
    cases classes? with
    | none => cases h
    | some classes =>
      cases h
      obtain ⟨size', hsize', -, -, hspan⟩ := classify_eq_ok hclassify
      obtain rfl := ok_unique hsize hsize'
      have hlength := congrArg List.length hspan
      rw [List.length_map, length_eightbytes] at hlength
      rw [total_demandOf, hlength]

theorem AArch64.homogeneous_size {kind : Primitive} {fields : List ScalarField}
    (h : homogeneous? l = .ok (some (kind, fields))) (hsize : l.byteSize = .ok size) :
    size ≤ fields.length * 8 := by
  obtain rfl := ok_unique hsize (homogeneous?_eq_ok h).2.2.2.2
  exact Nat.mul_le_mul_left _ kind.byteSize_le

theorem AArch64.isHomogeneous_eq_false (h : ∀ kind fields, homogeneous? l ≠ .ok (some (kind, fields))) :
    isHomogeneous l = false := by
  unfold isHomogeneous
  cases hresult : homogeneous? l with
  | error e => rfl
  | ok r =>
    cases r with
    | none => rfl
    | some r => exact absurd hresult (h r.1 r.2)

theorem AArch64.demand_cases (hl : l.isAggregate = true) (hsize : l.byteSize = .ok size)
    (hlarge : Convention.aarch64.isLarge l = false) :
    (∃ kind fields, homogeneous? l = .ok (some (kind, fields)) ∧ demand l = ⟨0, fields.length⟩) ∨
      ¬ TakesManyVectors l ∧ demand l = ⟨(size + 7) / 8, 0⟩ := by
  rw [demand_eq hl, Layout.aggregateSize_eq hl hsize]
  split
  · next kind fields h => exact .inl ⟨kind, fields, h, rfl⟩
  · next h =>
    refine .inr ⟨fun ⟨kind, fields, hsome, _⟩ => h kind fields hsome, if_neg ?_⟩
    simpa [Convention.isLarge, isHomogeneous_eq_false h, Layout.aggregateSize_eq hl hsize] using hlarge

theorem Convention.MovesDirectly.size_le (h : c.MovesDirectly unboxes l) :
    ∃ size, l.byteSize = .ok size ∧ size ≤ 8 := by
  cases h with
  | scalar hl =>
    have hsize : ∃ size, l.byteSize = .ok size := by cases l <;> first | exact ⟨_, rfl⟩ | cases hl
    exact hsize.imp fun size hsize => ⟨hsize, Layout.byteSize_le_of_not_aggregate hl hsize⟩
  | aggregate _ _ size hsize hsmall _ => exact ⟨size, hsize, hsmall⟩

theorem Convention.copies_of_small (hsize : l.byteSize = .ok size) (hsmall : size ≤ 8) :
    c.copies l = false ∧ c.isLarge l = false := by
  have hlarge : c.isLarge l = false := by
    cases hl : l.isAggregate with
    | false => exact isLarge_eq_false hl
    | true =>
      rw [isLarge, Layout.aggregateSize_eq hl hsize, decide_eq_false (by rw [maxRegisterAggregate]; omega),
        Bool.false_and]
  exact ⟨by rw [copies, hlarge, Bool.and_false], hlarge⟩

theorem SysV.takesOne_iff (hl : l.isAggregate = true) (hsize : l.byteSize = .ok size) (hpos : 0 < size) :
    size ≤ 8 ↔ ∃ demand, demand? l = some demand ∧ demand.total = 1 := by
  constructor
  · intro hsmall
    obtain ⟨classes, -, hdemand⟩ := demand?_small hl hsize hpos (Nat.le_trans hsmall (by decide))
    have htotal := total_of_demand? hl hsize hdemand
    exact ⟨_, hdemand, by omega⟩
  · rintro ⟨demand, hdemand, hone⟩
    have htotal := total_of_demand? hl hsize hdemand
    omega

theorem AArch64.takesOne_iff (hl : l.isAggregate = true) (hsize : l.byteSize = .ok size) (hpos : 0 < size)
    (hlarge : Convention.aarch64.isLarge l = false) :
    size ≤ 8 ∧ ¬ TakesManyVectors l ↔ (demand l).total = 1 := by
  obtain ⟨kind, fields, hfields, hdemand⟩ | ⟨hvectors, hdemand⟩ := demand_cases hl hsize hlarge
  · have hle := homogeneous_size hfields hsize
    have hmany : TakesManyVectors l ↔ 2 ≤ fields.length := by
      constructor
      · rintro ⟨kind', fields', hfields', hmany⟩
        cases ok_unique hfields hfields'
        exact hmany
      · exact fun hmany => ⟨kind, fields, hfields, hmany⟩
    rw [hmany, hdemand, Demand.total]
    dsimp only
    omega
  · rw [hdemand, Demand.total]
    dsimp only
    simp only [hvectors, not_false_eq_true, and_true]
    omega

/-- **A single move carries an aggregate iff it takes one register** and is not passed by its address. -/
theorem Convention.movesDirectly_iff (hl : l.isAggregate = true) (hsize : l.byteSize = .ok size)
    (hpos : 0 < size) :
    c.MovesDirectly true l ↔ c.copies l = false ∧ ∃ demand, c.demand? l = some demand ∧ demand.total = 1 := by
  have hiff : c.MovesDirectly true l ↔ size ≤ 8 ∧ (c = .aarch64 → ¬ AArch64.TakesManyVectors l) := by
    constructor
    · rintro (hscalar | ⟨-, -, size', hsize', hsmall, hvectors⟩)
      · exact absurd (hl.symm.trans hscalar) (by decide)
      · obtain rfl := ok_unique hsize hsize'
        exact ⟨hsmall, hvectors⟩
    · rintro ⟨hsmall, hvectors⟩
      exact .aggregate hl rfl size hsize hsmall hvectors
  rw [hiff]
  cases c with
  | sysV => simpa [copies, demand?] using SysV.takesOne_iff hl hsize hpos
  | aarch64 =>
    constructor
    · rintro ⟨hsmall, hvectors⟩
      obtain ⟨hcopies, hlarge⟩ := copies_of_small (c := .aarch64) hsize hsmall
      exact ⟨hcopies, _, rfl, (AArch64.takesOne_iff hl hsize hpos hlarge).1 ⟨hsmall, hvectors rfl⟩⟩
    · rintro ⟨hcopies, _, ⟨⟩, hone⟩
      have hlarge : Convention.aarch64.isLarge l = false := by simpa [copies] using hcopies
      obtain ⟨hsmall, hvectors⟩ := (AArch64.takesOne_iff hl hsize hpos hlarge).2 hone
      exact ⟨hsmall, fun _ => hvectors⟩

/-! ### Programs of values -/

/-- A placement as a convention makes it: through words that a cursor gives out, as many as the value asks
for unless it goes to the stack. -/
structure Placement.Made (c : Convention) (l : Layout) (p : Placement) : Prop where
  carries : p.Carries l
  isReference : p.isReference = c.copies l
  isDirect : ∀ storage ∈ p.storages, ∀ size, storage.isDirect size = true ↔ storage.kind ≠ .stack ∧ size ≤ 8
  length : l.isAggregate = true → p.isReference = false → (∀ storage ∈ p.storages, storage.kind ≠ .stack) →
    ∃ demand, c.demand? l = some demand ∧ p.storages.length = demand.total

/-- **The program of a value is direct iff a single move carries the value** and it is not in the stack. -/
theorem Placement.Made.isDirect_iff (hp : p.Made c l) (h : p.program l unboxes = .ok program) :
    (∃ size, l.byteSize = .ok size ∧ program.IsDirect size) ↔
      c.MovesDirectly unboxes l ∧ ∀ storage ∈ p.storages, storage.kind ≠ .stack := by
  obtain ⟨hcarries, hreference, hdirect, hlength⟩ := hp
  simp only [isDirect_program h]
  cases p with
  | whole storage =>
    have hl : l.isAggregate = false := hcarries
    have hmoves : c.MovesDirectly unboxes l := .scalar hl
    obtain ⟨size, hsize, hsmall⟩ := hmoves.size_le
    have hstorage := hdirect storage (by simp [storages])
    constructor
    · rintro ⟨size, -, ⟨_, ⟨⟩, h⟩ | ⟨-, piece, ⟨⟩, -⟩⟩
      exact ⟨hmoves, by simpa [storages] using ((hstorage size).1 h).1⟩
    · rintro ⟨-, hkind⟩
      exact ⟨size, hsize, .inl ⟨storage, rfl, (hstorage size).2 ⟨hkind storage (by simp [storages]), hsmall⟩⟩⟩
  | reference storage =>
    simp only [reduceCtorEq, false_and, exists_false, and_false, or_self, false_iff, not_and]
    intro hmoves
    obtain ⟨size, hsize, hsmall⟩ := hmoves.size_le
    cases (show true = c.copies l from hreference).trans (Convention.copies_of_small hsize hsmall).1
  | pieces ps =>
    obtain ⟨hl, size, hsize, hpos, -⟩ := hcarries
    have hmoves := Convention.movesDirectly_iff (c := c) hl hsize hpos
    constructor
    · rintro ⟨size', hsize', ⟨_, ⟨⟩, -⟩ | ⟨rfl, piece, ⟨⟩, hpiece⟩⟩
      have hkind : ∀ storage ∈ storages (.pieces [piece]), storage.kind ≠ .stack := by
        simpa [storages] using ((hdirect piece.storage (by simp [storages]) size').1 hpiece).1
      obtain ⟨demand, hdemand, htotal⟩ := hlength hl rfl hkind
      exact ⟨hmoves.2 ⟨hreference.symm, demand, hdemand, htotal.symm⟩, hkind⟩
    · rintro ⟨hdirectly, hkind⟩
      cases hdirectly with
      | scalar hscalar => exact absurd (hl.symm.trans hscalar) (by decide)
      | aggregate _ hunboxes size' hsize' hsmall hvectors =>
        obtain ⟨-, demand, hdemand, hone⟩ := hmoves.1 (.aggregate hl rfl size' hsize' hsmall hvectors)
        obtain ⟨demand', hdemand', htotal⟩ := hlength hl rfl hkind
        cases hdemand.symm.trans hdemand'
        obtain ⟨piece, rfl⟩ : ∃ piece, ps = [piece] := by
          rw [hone, storages, List.length_map] at htotal
          exact List.length_eq_one_iff.1 htotal
        have hmem : piece.storage ∈ storages (.pieces [piece]) := by simp [storages]
        exact ⟨size', hsize', .inr ⟨hunboxes, piece, rfl, (hdirect _ hmem size').2 ⟨hkind _ hmem, hsmall⟩⟩⟩

/-! ### Placements of arguments and results -/

/-- A word is direct for small values, unless it is a stack slot. -/
theorem Storage.isDirect_word (hwidth : storage.byteSize = 8) (hindirect : storage.kind ≠ .indirectResult)
    (hx87 : storage.kind ≠ .x87Ret) : storage.isDirect size = true ↔ storage.kind ≠ .stack ∧ size ≤ 8 := by
  unfold isDirect
  rw [hwidth]
  cases hkind : storage.kind with
  | stack => simp
  | indirectResult => exact absurd hkind hindirect
  | x87Ret => exact absurd hkind hx87
  | integerArg | integerRet => simp
  | vectorArg | vectorRet =>
    rw [directVectorWidth, BEq.rfl, Bool.true_and, decide_eq_true_iff]
    simp

theorem Cursor.Gives.isDirect_iff {ss : List Storage} (h : cursor.Gives ss last) (hc : cursor.Sound) :
    ∀ storage ∈ ss, ∀ size, storage.isDirect size = true ↔ storage.kind ≠ .stack ∧ size ≤ 8 := by
  intro storage hstorage size
  have hkinds := h.kind_cases hc hstorage
  refine Storage.isDirect_word (h.byteSize hc storage hstorage) (fun hkind => ?_) fun hkind => ?_
  all_goals
    rw [hkind] at hkinds
    rcases hc.classes with ⟨hi, hv⟩ | ⟨hi, hv⟩ <;> rw [hi, hv] at hkinds <;> revert hkinds <;> decide

theorem Storage.length_eq_count {a b : StorageClass} {ss : List Storage} (hne : a ≠ b)
    (h : ∀ t ∈ ss, t.kind = a ∨ t.kind = b) : ss.length = count a ss + count b ss := by
  induction ss with
  | nil => rfl
  | cons t ss ih =>
    obtain ⟨ht, hrest⟩ := List.forall_mem_cons.1 h
    rw [List.length_cons, count_cons, count_cons, ih hrest]
    rcases ht with ht | ht
    · rw [if_pos ht, if_neg (by rwa [ht])]
      omega
    · rw [if_neg (by rw [ht]; exact hne.symm), if_pos ht]
      omega

theorem Cursor.Serves.length {ss : List Storage} {demand : Demand} {next : Cursor}
    (h : cursor.Serves demand ss next) (hgives : cursor.Gives ss last) (hc : cursor.Sound) :
    ss.length = demand.total := by
  rw [Storage.length_eq_count hc.classes_ne.1 fun t ht => ?_, h.integers, h.vectors, Demand.total]
  rcases hgives.kind_cases hc ht with hkind | hkind | hkind
  · exact .inl hkind
  · exact .inr hkind
  · exact absurd hkind (h.registers t ht)

theorem Convention.place_made {next : Cursor} (hc : cursor.Sound) (h : c.place l cursor = .ok (p, next)) :
    p.Made c l := by
  obtain ⟨hgives, hcarries⟩ := Convention.place_eq_ok h
  refine ⟨hcarries, Convention.place_isReference h, hgives.isDirect_iff hc, fun _ _ hregisters => ?_⟩
  have hne := hcarries.storages_ne_nil
  obtain ⟨demand, hdemand, hsettles⟩ | ⟨-, hspills⟩ := Convention.place_settles hc h
  · exact ⟨demand, hdemand, (hsettles.serves hne hregisters).2.length hgives hc⟩
  · obtain ⟨first, hfirst⟩ := List.exists_mem_of_ne_nil _ hne
    exact absurd (hspills.stack first hfirst) (hregisters first hfirst)

theorem Cursor.Fills.length {chunks : List (Nat × Nat)} (h : cursor.Fills chunks ps last) :
    ps.length = chunks.length := by
  simpa using congrArg List.length h.span

theorem SysV.placeResult?_length (hl : l.isAggregate = true) (h : placeResult? l = .ok (some p)) :
    ∃ demand, demand? l = some demand ∧ p.storages.length = demand.total := by
  unfold placeResult? at h
  dsimp only at h
  split at h
  · cases hl
  · cases hl
  · obtain ⟨classes?, hclasses, h⟩ := bind_eq_ok.1 h
    cases classes? with
    | none => cases h
    | some classes =>
      obtain ⟨⟨ps, next⟩, hnext, h⟩ := bind_eq_ok.1 h
      cases h
      refine ⟨demandOf classes, by rw [demand?_eq hl, hclasses]; rfl, ?_⟩
      rw [Placement.storages, List.length_map, (registerPieces_eq_ok hnext).1.length, List.length_map,
        total_demandOf]

theorem AArch64.placeResult?_length (hl : l.isAggregate = true) (h : placeResult? l = .ok (some p)) :
    p.storages.length = (demand l).total := by
  unfold placeResult? at h
  dsimp only at h
  split at h
  · cases hl
  · cases hl
  · obtain ⟨⟨⟩, hempty, h⟩ := bind_eq_ok.1 h
    obtain ⟨size, hsize, -⟩ := checkNotEmpty_eq_ok hempty
    obtain ⟨homogeneous, hhomogeneous, h⟩ := bind_eq_ok.1 h
    rw [demand_eq hl, hhomogeneous, Layout.aggregateSize_eq hl hsize]
    split at h
    · next kind fields =>
      obtain ⟨ps, hps, h⟩ := bind_eq_ok.1 h
      cases h
      have hne := (homogeneous?_eq_ok hhomogeneous).2.1
      obtain ⟨_, hfills, -⟩ := vectorResultPieces_eq_ok (c := Cursor.results .aarch64) hps hne rfl rfl rfl
      rw [Placement.storages, List.length_map, hfills.length, List.length_map]
      exact (Nat.zero_add _).symm
    · obtain ⟨size', hsize', h⟩ := bind_eq_ok.1 h
      obtain rfl := ok_unique hsize (lift_overflow_halt_eq_ok.1 hsize')
      split at h
      · cases h
      · next hlarge =>
        obtain ⟨⟨ps, next⟩, hps, h⟩ := bind_eq_ok.1 h
        cases h
        obtain ⟨size', hsize', hfills, -⟩ := integerPieces_eq_ok hps
        obtain rfl := ok_unique hsize hsize'
        rw [Placement.storages, List.length_map, hfills.length, length_eightbytes]
        dsimp only
        rw [if_neg hlarge]
        rfl

theorem Convention.placeResult?_made (h : c.placeResult? l = .ok (some p)) :
    p.Made c l ∧ ∀ storage ∈ p.storages, storage.kind ≠ .stack := by
  have hreturns := Convention.placeResult?_eq_ok h
  obtain ⟨next, hgives, -⟩ := hreturns.gives
  have hreference : p.isReference = false := by
    cases p with
    | reference storage => exact absurd rfl (hreturns.ne_reference storage)
    | _ => rfl
  have hdirect := hgives.isDirect_iff (Cursor.results_sound c)
  refine ⟨⟨hreturns.carries, ?_, hdirect, fun hl _ _ => ?_⟩, fun storage hstorage hkind => ?_⟩
  · rw [hreference]
    cases c with
    | sysV => rfl
    | aarch64 => simpa [copies] using AArch64.placeResult?_isNone h
  · cases c with
    | sysV => exact SysV.placeResult?_length hl h
    | aarch64 => exact ⟨_, rfl, AArch64.placeResult?_length hl h⟩
  · have hrole := Convention.placeResult?_isReturn h storage hstorage
    rw [hkind] at hrole
    cases hrole

/-! ### Arguments -/

/-- A value that a single move carries asks for one register. -/
theorem Placement.Made.exists_demand (hp : p.Made c l) (h : c.MovesDirectly unboxes l) :
    ∃ demand, c.demand? l = some demand ∧ demand.total = 1 := by
  cases h with
  | scalar hl => exact Convention.demand?_scalar hl
  | aggregate hl _ size hsize hsmall hvectors =>
    have hreference := hp.isReference.trans (Convention.copies_of_small hsize hsmall).1
    have hpos := hp.carries.size_pos hl hreference hsize
    exact ((Convention.movesDirectly_iff hl hsize hpos).1 (.aggregate hl rfl size hsize hsmall hvectors)).2

namespace Placed

variable {ls : List Layout} {placements : List Placement} {bs : List Binding}

/-- The arguments that pass the check are those that a single move carries, unless they are in the stack. -/
theorem isDirect_iff (h : Placed c unboxes cursor ls placements bs last) (hc : cursor.Sound) :
    (∀ b ∈ bs, b.IsDirect) ↔ (∀ l ∈ ls, c.MovesDirectly unboxes l) ∧ ∀ b ∈ bs, b.InRegisters := by
  induction h with
  | nil => simp
  | @cons cursor next last l ls p placements program bindings hplace hprogram _ ih =>
    have hmade := Convention.place_made hc hplace
    have hstorages := Placement.storages_program hprogram
    have hb : (⟨l.carrier, l, program⟩ : Binding).IsDirect ↔
        c.MovesDirectly unboxes l ∧ (⟨l.carrier, l, program⟩ : Binding).InRegisters := by
      rw [Binding.InRegisters, hstorages]
      exact hmade.isDirect_iff hprogram
    rw [List.forall_mem_cons, List.forall_mem_cons, List.forall_mem_cons, hb,
      ih ((Convention.place_eq_ok hplace).1.before hc).1]
    exact and_and_and_comm

/-- **Within the budget nothing goes to the stack**: each argument asks for one register, and there are
enough of both classes for all of them. -/
theorem inRegisters (h : Placed c unboxes cursor ls placements bs last) (hcursor : cursor.ForArguments)
    (hconvention : cursor.convention = c) (hls : ∀ l ∈ ls, c.MovesDirectly unboxes l)
    (hintegers : cursor.integers + ls.length ≤ c.slotCount .integerArg)
    (hvectors : cursor.vectors + ls.length ≤ c.slotCount .vectorArg) : ∀ b ∈ bs, b.InRegisters := by
  induction h with
  | nil => simp
  | @cons cursor next last l ls p placements program bindings hplace hprogram _ ih =>
    obtain ⟨hl, hls⟩ := List.forall_mem_cons.1 hls
    rw [List.length_cons] at hintegers hvectors
    have hgives := (Convention.place_eq_ok hplace).1
    obtain ⟨demand, hdemand, htotal⟩ := (Convention.place_made hcursor.sound hplace).exists_demand hl
    rw [Demand.total] at htotal
    have hfits : cursor.Fits demand := by
      unfold Cursor.Fits Cursor.freeIntegers Cursor.freeVectors
      rw [hcursor.integerClass, hcursor.vectorClass, hconvention]
      omega
    obtain ⟨_, hsome, ⟨-, hserves⟩ | ⟨hfull, -⟩⟩ | ⟨hnone, -⟩ := Convention.place_settles hcursor.sound hplace
    · cases hdemand.symm.trans hsome
      have hnext := (hgives.before hcursor.sound).2.convention.trans hconvention
      refine List.forall_mem_cons.2 ⟨?_, ih (hgives.forArguments hcursor) hnext hls ?_ ?_⟩
      · rw [Binding.InRegisters, Placement.storages_program hprogram]
        exact hserves.registers
      · rw [hserves.next]
        dsimp only
        omega
      · rw [hserves.next]
        dsimp only
        omega
    · cases hdemand.symm.trans hsome
      exact absurd hfits hfull
    · cases hdemand.symm.trans hnone

end Placed

theorem Convention.maxDirectArguments_le (c : Convention) (direction : Direction) :
    c.maxDirectArguments direction ≤ c.slotCount .integerArg ∧
      c.maxDirectArguments direction ≤ c.slotCount .vectorArg := by
  cases c <;> cases direction <;> decide

/-! ### Results -/

/-- A result passes the check iff a single move carries it; none of those is in memory. -/
theorem ResultPlan.Describes.isDirect_iff {plan : ResultPlan}
    (hplan : c.planResult d.result = .ok (plan, cursor))
    (h : plan.Describes direction (s.indirect.map fun i => (i.pointer, i.layout)) s.result) :
    (s.indirect = none ∧ ∀ b ∈ s.result, b.IsDirect) ↔
      ∀ l ∈ d.result, c.MovesDirectly direction.unboxesResult l := by
  cases hresult : d.result with
  | none =>
    rw [hresult] at hplan
    cases hplan
    obtain ⟨hindirect, hnone⟩ := h
    simp [Option.map_eq_none_iff.1 hindirect, hnone]
  | some l =>
    rw [hresult] at hplan
    obtain ⟨placement?, hplace, hplan⟩ := bind_eq_ok.1 hplan
    cases placement? with
    | some placement =>
      cases hplan
      obtain ⟨hindirect, program, hprogram, hsome⟩ := h
      obtain ⟨hmade, hregisters⟩ := Convention.placeResult?_made hplace
      rw [Option.map_eq_none_iff.1 hindirect, hsome]
      simpa [Binding.IsDirect] using (hmade.isDirect_iff hprogram).trans (and_iff_left hregisters)
    | none =>
      have hmemory : s.indirect ≠ none := by
        intro hnone
        rw [hnone] at h
        obtain ⟨⟨pointer, next⟩, -, hplan⟩ := bind_eq_ok.1 hplan
        dsimp only at hplan
        split at hplan
        · obtain ⟨register, -, hplan⟩ := bind_eq_ok.1 hplan
          cases hplan
          cases h.1
        · cases hplan
          cases h.1
      have hlarge : ¬ c.MovesDirectly direction.unboxesResult l := by
        intro hmoves
        obtain ⟨size, hsize, hsmall⟩ := hmoves.size_le
        have hlarge :=
          Convention.placeResult?_isNone ⟨size, hsize, Nat.lt_of_le_of_lt hsmall (by decide)⟩ hplace
        cases hlarge.trans (Convention.copies_of_small hsize hsmall).2
      simp [hmemory, hlarge]

/-! ### Functions -/

/-- **An arranged function is compiled iff all its values are of the kind that a single move carries**, and
there are few enough of them. -/
theorem checkEligible_arranged (h : arrange c d direction = .ok s)
    (hallowed : settings.allowsDirect direction = true) :
    checkEligible s c settings = .ok () ↔ d.Direct c direction := by
  obtain ⟨plan, cursor, placements, last, hplan, hplaced, hdescribes, hdirection, -⟩ := arrange_eq_ok h
  have hlength : s.arguments.length = d.args.length := by rw [← hplaced.layouts, List.length_map]
  have hcursor := Convention.planResult_forArguments hplan
  have harguments := hplaced.isDirect_iff hcursor.sound
  have hresult := hdescribes.isDirect_iff hplan
  rw [checkEligible_eq_ok, hdirection, hlength]
  constructor
  · rintro ⟨-, hindirect, hcount, hdirect, hdirect'⟩
    exact ⟨hcount, (harguments.1 hdirect).1, hresult.1 ⟨hindirect, hdirect'⟩⟩
  · rintro ⟨hcount, hmoves, hmoves'⟩
    obtain ⟨hindirect, hdirect'⟩ := hresult.2 hmoves'
    have hstart : cursor = .arguments c := by
      rcases Convention.planResult_pointer? hplan with ⟨-, rfl⟩ | ⟨pointer, hsome, -⟩
      · rfl
      · have hmemory := hdescribes.isIndirect
        rw [CallingSequence.isIndirect, hindirect, hsome] at hmemory
        cases hmemory
    obtain ⟨hintegers, hvectors⟩ := c.maxDirectArguments_le direction
    have hregisters : ∀ b ∈ s.arguments, b.InRegisters := by
      subst hstart
      refine hplaced.inRegisters hcursor rfl hmoves ?_ ?_ <;> simp only [Cursor.arguments] <;> omega
    exact ⟨hallowed, hindirect, hcount, harguments.2 ⟨hmoves, hregisters⟩, hdirect'⟩

/-- The layout stays the same, or is an aggregate that gets no larger. -/
inductive Layout.Shrinks (l : Layout) : Layout → Prop
  | same : l.Shrinks l
  | aggregate {l' : Layout} (hl : l.isAggregate = true) (hl' : l'.isAggregate = true) (size size' : Nat)
      (hsize : l.byteSize = .ok size) (hsize' : l'.byteSize = .ok size') (hle : size' ≤ size) : l.Shrinks l'

/-- Each value of a function stays the same or shrinks. -/
structure Descriptor.Shrinks (d d' : Descriptor) : Prop where
  args : List.Forall₂ Layout.Shrinks d.args d'.args
  result : Option.Rel Layout.Shrinks d.result d'.result

theorem Convention.MovesDirectly.shrinks (h : Convention.sysV.MovesDirectly unboxes l) (hl : l.Shrinks l') :
    Convention.sysV.MovesDirectly unboxes l' := by
  cases hl with
  | same => exact h
  | aggregate hl hl' size size' hsize hsize' hle =>
    cases h with
    | scalar hscalar => exact absurd (hl.symm.trans hscalar) (by decide)
    | aggregate _ hunboxes small hsmall hle' _ =>
      obtain rfl := ok_unique hsize hsmall
      exact .aggregate hl' hunboxes size' hsize' (Nat.le_trans hle hle') nofun

theorem Convention.MovesDirectly.shrinks_all {ls ls' : List Layout} (hls : List.Forall₂ Layout.Shrinks ls ls')
    (h : ∀ l ∈ ls, Convention.sysV.MovesDirectly unboxes l) :
    ∀ l' ∈ ls', Convention.sysV.MovesDirectly unboxes l' := by
  induction hls with
  | nil => exact h
  | cons hl _ ih =>
    obtain ⟨hfirst, hrest⟩ := List.forall_mem_cons.1 h
    exact List.forall_mem_cons.2 ⟨hfirst.shrinks hl, ih hrest⟩

theorem Descriptor.Direct.shrinks (h : d.Direct .sysV direction) (hd : d.Shrinks d') :
    d'.Direct .sysV direction := by
  refine ⟨hd.args.length_eq ▸ h.count_le, Convention.MovesDirectly.shrinks_all hd.args h.arguments,
    fun l' hl' => ?_⟩
  have hrel := hd.result
  rw [Option.mem_def.1 hl'] at hrel
  cases hresult : d.result with
  | none =>
    rw [hresult] at hrel
    cases hrel
  | some l =>
    rw [hresult] at hrel
    cases hrel with
    | some hl => exact (h.result l hresult).shrinks hl

/-- **Which functions are compiled.**  If compiling is on for the direction, the sequence of an arranged
function passes the check iff it has few enough arguments and each of its values is carried by a single
move.  A side that takes values apart does this for scalars, addresses and aggregates of at most 8 bytes,
except under AArch64 for homogeneous aggregates of two or more members; a side that puts values together
does it for scalars and addresses.  Under System V a function whose aggregates shrink is still compiled. -/
theorem arranged_direct (h : arrange c d direction = .ok s)
    (hallowed : settings.allowsDirect direction = true) :
    (checkEligible s c settings = .ok () ↔ d.Direct c direction) ∧
      (c = .sysV → checkEligible s c settings = .ok () → ∀ d' s', d.Shrinks d' →
        arrange c d' direction = .ok s' →
        checkEligible s' c settings = .ok ()) := by
  refine ⟨checkEligible_arranged h hallowed, ?_⟩
  rintro rfl heligible d' s' hd h'
  exact (checkEligible_arranged h' hallowed).2 (((checkEligible_arranged h hallowed).1 heligible).shrinks hd)

/-- A pair of 32-bit words and an address are compiled, and still are when one word is left of the pair. -/
theorem arranged_direct_pair :
    let d : Descriptor := ⟨[.struct [.value .i32, .value .i32], .address], some (.value .f64)⟩
    let d' : Descriptor := ⟨[.struct [.value .i32], .address], some (.value .f64)⟩
    ∃ s s', arrange .sysV d .downcall = .ok s ∧ arrange .sysV d' .downcall = .ok s' ∧
      Settings.everything.allowsDirect .downcall = true ∧ d.Shrinks d' ∧
      checkEligible s .sysV .everything = .ok () ∧ checkEligible s' .sysV .everything = .ok () := by
  intro d d'
  have hs : (arrange .sysV d .downcall).toOption.any (fun _ => true) = true := by decide +kernel
  have hs' : (arrange .sysV d' .downcall).toOption.any (fun _ => true) = true := by decide +kernel
  have hpair : Convention.sysV.MovesDirectly true (.struct [.value .i32, .value .i32]) :=
    .aggregate rfl rfl 8 rfl (by decide) (by simp)
  have hdirect : d.Direct .sysV .downcall := by
    refine ⟨by decide, ?_, ?_⟩
    · exact List.forall_mem_cons.2 ⟨hpair, List.forall_mem_cons.2 ⟨.scalar rfl, by simp⟩⟩
    · rintro l ⟨⟩
      exact .scalar rfl
  have hshrinks : d.Shrinks d' :=
    ⟨.cons (.aggregate rfl rfl 8 4 rfl rfl (by decide)) (.cons .same .nil), .some .same⟩
  obtain ⟨s, hs, -⟩ := exists_ok_of_any (p := fun _ => true) hs
  obtain ⟨s', hs', -⟩ := exists_ok_of_any (p := fun _ => true) hs'
  have hallowed : Settings.everything.allowsDirect .downcall = true := rfl
  obtain ⟨hiff, hkept⟩ := arranged_direct hs hallowed
  have heligible := hiff.2 hdirect
  exact ⟨s, s', hs, hs', hallowed, hshrinks, heligible, hkept rfl heligible d' s' hshrinks hs'⟩

end ForeignCall
