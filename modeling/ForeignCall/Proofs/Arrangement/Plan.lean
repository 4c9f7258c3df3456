import ForeignCall.Arrangement.Sequence
import ForeignCall.Proofs.Building

/-!
# What an arranged sequence consists of

* `ResultPlan`: how a result comes back, and `Convention.planResult`, the plan for a result and the storages
  that it leaves for the arguments.  Neither depends on the direction;
* `Placed`: arguments that are placed one after the other, with the bindings of one direction;
* `arrange_eq_ok`: an arranged sequence follows the plan for its result and binds the placements of its
  arguments;
* `arrange_built`: it comes out of a builder.
-/

namespace ForeignCall

variable {c : Convention} {d : Descriptor} {direction : Direction} {s : CallingSequence}
  {b b' : SequenceBuilder} {cursor last : Cursor} {l : Layout} {ls : List Layout}

/-! ### Plans -/

/-- How a result comes back: not at all, through its storages, or in memory.  The address of a buffer in memory
goes through `pointer`, and comes back through `returned` if the callee has to hand it back. -/
inductive ResultPlan where
  | void
  | storages (l : Layout) (placement : Placement)
  | memory (l : Layout) (pointer : Storage) (returned : Option Storage)

/-- The plan for a result, and the storages that are left for arguments. -/
def Convention.planResult (c : Convention) : Option Layout → Arranging (ResultPlan × Cursor)
  | none => return (.void, Cursor.arguments c)
  | some l => do
    match ← c.placeResult? l with
    | some placement => return (.storages l placement, Cursor.arguments c)
    | none =>
      let (pointer, cursor) ← c.resultPointer (Cursor.arguments c)
      if c.returnsResultAddress then
        let register ← c.storage .integerRet 0
        return (.memory l pointer (some register), cursor)
      else return (.memory l pointer none, cursor)

/-- The pointer program and the result binding of a sequence follow a plan. -/
def ResultPlan.Describes (direction : Direction) :
    ResultPlan → Option (Program × Layout) → Option Binding → Prop
  | .void, indirect, result => indirect = none ∧ result = none
  | .storages l placement, indirect, result =>
    indirect = none ∧
      ∃ program, placement.program l direction.unboxesResult = .ok program ∧
        result = some ⟨l.carrier, l, program⟩
  | .memory l pointer returned, indirect, result =>
    indirect = some (scalarProgram .address pointer direction.unboxesArguments, l) ∧
      result = returned.map fun r => ⟨.address, .address, scalarProgram .address r direction.unboxesResult⟩

/-- Arguments that are placed one after the other, from a cursor to the next, with their bindings. -/
inductive Placed (c : Convention) (unboxes : Bool) :
    Cursor → List Layout → List Placement → List Binding → Cursor → Prop
  | nil {cursor : Cursor} : Placed c unboxes cursor [] [] [] cursor
  | cons {cursor next last : Cursor} {l : Layout} {ls : List Layout} {placement : Placement}
    {placements : List Placement} {program : Program} {bindings : List Binding} :
    c.place l cursor = .ok (placement, next) → placement.program l unboxes = .ok program →
      Placed c unboxes next ls placements bindings last →
      Placed c unboxes cursor (l :: ls) (placement :: placements) (⟨l.carrier, l, program⟩ :: bindings) last

theorem Placed.layouts {unboxes : Bool} {placements : List Placement} {bindings : List Binding}
    (h : Placed c unboxes cursor ls placements bindings last) : bindings.map (·.layout) = ls := by
  induction h with
  | nil => rfl
  | cons _ _ _ ih => exact congrArg _ ih

/-! ### Arranging arguments -/

theorem Arrangement.arguments_eq_ok (h : arguments c cursor b ls = .ok b') :
    ∃ placements bindings last, Placed c b.direction.unboxesArguments cursor ls placements bindings last ∧
      b' = { b with arguments := b.arguments ++ bindings } := by
  induction ls generalizing cursor b with
  | nil =>
    cases h
    exact ⟨[], [], cursor, .nil, by simp⟩
  | cons l ls ih =>
    obtain ⟨⟨placement, next⟩, hplace, h⟩ := bind_eq_ok.1 h
    obtain ⟨program, hprogram, h⟩ := bind_eq_ok.1 h
    obtain ⟨middle, hadd, h⟩ := bind_eq_ok.1 h
    obtain ⟨-, rfl⟩ := SequenceBuilder.addArgument_eq_ok (lift_fault_eq_ok.1 hadd)
    obtain ⟨placements, bindings, last, hplaced, rfl⟩ := ih h
    exact ⟨_, _, last, .cons hplace (lift_overflow_halt_eq_ok.1 hprogram) hplaced, by simp⟩

theorem Arrangement.arguments_reachable (hb : b.Reachable) (h : arguments c cursor b ls = .ok b') :
    b'.Reachable := by
  induction ls generalizing cursor b with
  | nil =>
    cases h
    exact hb
  | cons l ls ih =>
    obtain ⟨⟨placement, next⟩, -, h⟩ := bind_eq_ok.1 h
    obtain ⟨program, -, h⟩ := bind_eq_ok.1 h
    obtain ⟨middle, hadd, h⟩ := bind_eq_ok.1 h
    exact ih (.addArgument hb (lift_fault_eq_ok.1 hadd)) h

/-! ### Arranging results -/

theorem Arrangement.ofBinding_eq_ok {α : Type} {x : Except (Halt Fault BindingError) α} {a : α} :
    ofBinding x = .ok a ↔ x = .ok a := by
  cases x with
  | ok a => simp [ofBinding]
  | error e => cases e <;> simp [ofBinding]

theorem Arrangement.result_eq_ok (h : result c d (.new direction) = .ok (b', cursor)) :
    ∃ plan, c.planResult d.result = .ok (plan, cursor) ∧ b'.direction = direction ∧ b'.arguments = [] ∧
      plan.Describes direction b'.indirect b'.result ∧ b'.Reachable := by
  have hnew : (SequenceBuilder.new direction).Reachable := .new direction
  unfold result at h
  dsimp only at h
  split at h
  · next hd =>
    cases h
    rw [hd]
    exact ⟨.void, rfl, rfl, rfl, ⟨rfl, rfl⟩, hnew⟩
  · next l hd =>
    rw [hd]
    obtain ⟨placement?, hplace, h⟩ := bind_eq_ok.1 h
    cases placement? with
    | some placement =>
      obtain ⟨program, hprogram, h⟩ := bind_eq_ok.1 h
      obtain ⟨b₁, hset, h⟩ := bind_eq_ok.1 h
      cases h
      have hset := ofBinding_eq_ok.1 hset
      have hreach := SequenceBuilder.Reachable.setResult hnew hset
      obtain ⟨-, -, rfl⟩ := SequenceBuilder.setResult_eq_ok hset
      refine ⟨.storages l placement, ?_, rfl, rfl,
        ⟨rfl, program, lift_overflow_halt_eq_ok.1 hprogram, rfl⟩, hreach⟩
      simp only [Convention.planResult, hplace, ok_bind]
      rfl
    | none =>
      obtain ⟨⟨pointer, next⟩, hpointer, h⟩ := bind_eq_ok.1 h
      obtain ⟨b₁, hmark, h⟩ := bind_eq_ok.1 h
      have hmark := lift_fault_eq_ok.1 hmark
      have hreach := SequenceBuilder.Reachable.markIndirect hnew hmark
      obtain ⟨-, -, rfl⟩ := SequenceBuilder.markIndirect_eq_ok hmark
      dsimp only at h
      split at h
      · next hreturns =>
        obtain ⟨register, hregister, h⟩ := bind_eq_ok.1 h
        obtain ⟨b₂, hset, h⟩ := bind_eq_ok.1 h
        cases h
        have hset := ofBinding_eq_ok.1 hset
        have hreach := hreach.setResult hset
        obtain ⟨-, -, rfl⟩ := SequenceBuilder.setResult_eq_ok hset
        refine ⟨.memory l pointer (some register), ?_, rfl, rfl, ⟨rfl, rfl⟩, hreach⟩
        simp only [Convention.planResult, hplace, hpointer, hreturns, hregister, ok_bind, if_true]
        rfl
      · next hreturns =>
        cases h
        refine ⟨.memory l pointer none, ?_, rfl, rfl, ⟨rfl, rfl⟩, hreach⟩
        simp only [Convention.planResult, hplace, hpointer, hreturns, ok_bind]
        rfl

/-! ### Arranging calls -/

/-- **An arranged sequence follows the plan for its result and binds the placements of its arguments.** -/
theorem arrange_eq_ok (h : arrange c d direction = .ok s) :
    ∃ plan cursor placements last, c.planResult d.result = .ok (plan, cursor) ∧
      Placed c direction.unboxesArguments cursor d.args placements s.arguments last ∧
      plan.Describes direction (s.indirect.map fun i => (i.pointer, i.layout)) s.result ∧
      s.direction = direction ∧ ∀ i ∈ s.indirect, i.layout.byteSize = .ok i.size := by
  obtain ⟨⟨b₁, cursor⟩, hresult, h⟩ := bind_eq_ok.1 h
  obtain ⟨b₂, harguments, h⟩ := bind_eq_ok.1 h
  obtain ⟨plan, hplan, hdirection, hempty, hdescribes, -⟩ := Arrangement.result_eq_ok hresult
  obtain ⟨placements, bindings, last, hplaced, rfl⟩ := Arrangement.arguments_eq_ok harguments
  obtain ⟨hdirection', harguments', hresult', hindirect, -⟩ :=
    SequenceBuilder.build_eq_ok (lift_overflow_halt_eq_ok.1 h)
  obtain ⟨hindirect, hsize⟩ := SequenceBuilder.indirectResult?_eq_ok hindirect
  dsimp only at hdirection' harguments' hresult' hindirect
  rw [hempty, List.nil_append] at harguments'
  rw [hdirection] at hplaced hdirection'
  refine ⟨plan, cursor, placements, last, hplan, harguments' ▸ hplaced, ?_, hdirection', hsize⟩
  rw [hresult', ← hindirect]
  exact hdescribes

/-- **An arranged sequence comes out of a builder.** -/
theorem arrange_built (h : arrange c d direction = .ok s) : s.Built := by
  obtain ⟨⟨b₁, cursor⟩, hresult, h⟩ := bind_eq_ok.1 h
  obtain ⟨b₂, harguments, h⟩ := bind_eq_ok.1 h
  obtain ⟨-, -, -, -, -, hreach⟩ := Arrangement.result_eq_ok hresult
  exact ⟨b₂, Arrangement.arguments_reachable hreach harguments, lift_overflow_halt_eq_ok.1 h⟩

end ForeignCall
