import ForeignCall.Primitive

/-!
# Memory shapes of arguments and results

* `Layout`: scalars, addresses, structures, arrays and padding, nested to any depth;
* `Layout.byteSize`, `Layout.alignment`, `Layout.memberOffsets`: the geometry of a layout.  Sizes are checked
  (`Overflow`); a member starts at the first multiple of its alignment after the previous member;
* `Layout.scalars`: the scalar leaves with their offsets;
* `Descriptor`: the layouts of a function's arguments and result.
-/

namespace ForeignCall

def addressSize : Nat := 8

/-- The shape of a value in memory. -/
inductive Layout where
  | value (kind : Primitive)
  | address
  | struct (members : List Layout)
  | sequence (count : Nat) (element : Layout)
  | padding (size : Nat)

/-- A scalar leaf of a layout. -/
structure ScalarField where
  offset : Nat
  kind : Primitive
  deriving DecidableEq

namespace Layout

/-! ### Equality -/

mutual
def same : Layout → Layout → Bool
  | .value p, .value q => p == q
  | .address, .address => true
  | .struct ms, .struct ns => sameMembers ms ns
  | .sequence n a, .sequence m b => n == m && same a b
  | .padding n, .padding m => n == m
  | _, _ => false
def sameMembers : List Layout → List Layout → Bool
  | [], [] => true
  | m :: ms, n :: ns => same m n && sameMembers ms ns
  | _, _ => false
end

mutual
theorem same_iff : ∀ a b : Layout, same a b = true ↔ a = b
  | .value p, b => by cases b <;> simp [same]
  | .address, b => by cases b <;> simp [same]
  | .struct ms, b => by cases b <;> simp [same, sameMembers_iff ms]
  | .sequence n a, b => by cases b <;> simp [same, same_iff a]
  | .padding n, b => by cases b <;> simp [same]
theorem sameMembers_iff : ∀ ms ns : List Layout, sameMembers ms ns = true ↔ ms = ns
  | [], ns => by cases ns <;> simp [sameMembers]
  | m :: ms, ns => by cases ns <;> simp [sameMembers, same_iff m, sameMembers_iff ms]
end

instance : DecidableEq Layout := fun a b => decidable_of_iff _ (same_iff a b)

/-! ### Geometry -/

mutual
/-- The alignment of a layout: that of its most aligned part. -/
def alignment : Layout → Nat
  | .value p => p.byteSize
  | .address => addressSize
  | .struct ms => maxAlignment ms
  | .sequence _ e => e.alignment
  | .padding _ => 1
/-- The largest alignment of some members, at least 1. -/
def maxAlignment : List Layout → Nat
  | [] => 1
  | m :: ms => max m.alignment (maxAlignment ms)
end

mutual
/-- Bytes of a layout.  A structure is filled up to a multiple of its alignment. -/
def byteSize : Layout → Except Overflow Nat
  | .value p => .ok p.byteSize
  | .address => .ok addressSize
  | .struct ms => do
    let last ← membersEnd 0 ms
    alignUp last (maxAlignment ms)
  | .sequence n e => do
    let stride ← e.byteSize
    checkedMul stride n
  | .padding n => .ok n
/-- The end of some members that are laid out from `offset` on. -/
def membersEnd (offset : Nat) : List Layout → Except Overflow Nat
  | [] => .ok offset
  | m :: ms => do
    let start ← alignUp offset m.alignment
    let size ← m.byteSize
    let next ← checkedAdd start size
    membersEnd next ms
end

/-- The offsets of some members that are laid out from `offset` on.  The end of the last one is computed
too. -/
def offsetsFrom (offset : Nat) : List Layout → Except Overflow (List Nat)
  | [] => .ok []
  | m :: ms => do
    let start ← alignUp offset m.alignment
    let size ← m.byteSize
    let next ← checkedAdd start size
    let rest ← offsetsFrom next ms
    return start :: rest

/-- The offsets of a structure's members; other layouts have none. -/
def memberOffsets : Layout → Except Overflow (List Nat)
  | .struct ms => offsetsFrom 0 ms
  | _ => .ok []

mutual
/-- The scalar leaves of a layout that starts at `base`, in order.  An address counts as an integer of its
size. -/
def scalarsFrom (base : Nat) : Layout → Except Overflow (List ScalarField)
  | .value p => .ok [⟨base, p⟩]
  | .address => .ok [⟨base, .i64⟩]
  | .struct ms => do
    let offsets ← offsetsFrom 0 ms
    membersScalars base ms offsets
  | .sequence n e => do
    let stride ← e.byteSize
    let parts ← (List.range n).mapM fun i => do
      let shift ← checkedMul i stride
      let start ← checkedAdd base shift
      scalarsFrom start e
    return parts.flatten
  | .padding _ => .ok []
/-- The scalar leaves of members at the given offsets from `base`. -/
def membersScalars (base : Nat) : List Layout → List Nat → Except Overflow (List ScalarField)
  | m :: ms, offset :: offsets => do
    let start ← checkedAdd base offset
    let fields ← scalarsFrom start m
    let rest ← membersScalars base ms offsets
    return fields ++ rest
  | _, _ => .ok []
end

def scalars (l : Layout) : Except Overflow (List ScalarField) := scalarsFrom 0 l

/-- What carries a value of the layout across a call. -/
def carrier : Layout → Carrier
  | .value p => .primitive p
  | .address => .address
  | .struct _ | .sequence _ _ | .padding _ => .segment

/-- Whether values of the layout travel as segments. -/
def isAggregate (l : Layout) : Bool := l.carrier == .segment

mutual
/-- The written form of a layout: members in brackets, `[count:element]`, and `x` before padding. -/
def text : Layout → String
  | .value p => p.text
  | .address => "addr"
  | .struct ms => "[" ++ " ".intercalate (memberTexts ms) ++ "]"
  | .sequence n e => "[" ++ toString n ++ ":" ++ e.text ++ "]"
  | .padding n => "x" ++ toString n
def memberTexts : List Layout → List String
  | [] => []
  | m :: ms => m.text :: memberTexts ms
end

end Layout

/-- The native shape of a function. -/
structure Descriptor where
  args : List Layout
  result : Option Layout
  deriving DecidableEq

namespace Descriptor

def text (d : Descriptor) : String :=
  let result := match d.result with
    | some r => r.text
    | none => "void"
  "(" ++ ", ".intercalate (d.args.map Layout.text) ++ ") -> " ++ result

end Descriptor

end ForeignCall
