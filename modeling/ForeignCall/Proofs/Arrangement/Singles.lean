import ForeignCall.Proofs.Arrangement.Registers

/-!
# Values that take one location each

Words, addresses and the copies of large aggregates take the integer registers of AArch64 one by one, and
then the stack slots.  So arguments of no other kind are numbered: `Placed.singles` counts what they take,
and `Placed.program_of_full` gives the program of one that comes after the last register.
-/

namespace ForeignCall

variable {unboxes : Bool} {c last : Cursor} {l : Layout} {ls : List Layout} {placements : List Placement}
  {before after : List Binding} {bs : List Binding} {b : Binding} {placement : Storage → Placement} {n : Nat}

theorem Cursor.integer_of_free (h : 0 < c.freeIntegers) :
    ∃ s, c.integer = .ok (s, { c with integers := c.integers + 1 }) := by
  unfold integer
  rw [integer?_of_free h]
  exact ⟨_, rfl⟩

theorem Cursor.integer_of_full (h : c.freeIntegers = 0) :
    c.integer = .ok (Convention.stackSlot c.stack, { c with stack := c.stack + 1 }) := by
  unfold integer integer?
  rw [if_neg (by omega)]
  rfl

/-- A value of the layout goes to the next integer register, or else to the next stack slot. -/
def AArch64.Single (l : Layout) (placement : Storage → Placement) : Prop :=
  ∀ c : Cursor, place l c = (do
    let (s, c) ← c.integer
    return (placement s, c))

namespace AArch64

theorem single_i64 : Single (.value .i64) .whole := fun _ => rfl

theorem single_address : Single .address .whole := fun _ => rfl

theorem single_padding (hn : maxRegisterAggregate < n) : Single (.padding n) .reference := by
  intro c
  have hempty : checkNotEmpty (.padding n) = .ok () := checkNotEmpty_of_pos rfl (by omega)
  have hhomogeneous : homogeneous? (.padding n) = .ok none := rfl
  have hsize : (liftM (Layout.padding n).byteSize : Arranging Nat) = .ok n := rfl
  show placeAggregate (.padding n) c = _
  unfold placeAggregate
  rw [hempty, ok_bind, hhomogeneous, ok_bind]
  dsimp only
  rw [hsize, ok_bind, if_pos hn]

end AArch64

namespace Placed

/-- Such arguments take the registers that are free, and then stack slots. -/
theorem singles (h : Placed .aarch64 unboxes c ls placements bs last)
    (hls : ∀ l ∈ ls, ∃ placement, AArch64.Single l placement) :
    last.freeIntegers = c.freeIntegers - ls.length ∧ last.stack = c.stack + (ls.length - c.freeIntegers) := by
  induction h with
  | nil => simp
  | @cons cursor next last l ls _ _ _ _ hplace _ _ ih =>
    obtain ⟨⟨placement, hsingle⟩, hls⟩ := List.forall_mem_cons.1 hls
    obtain ⟨hfree, hstack⟩ := ih hls
    replace hplace : AArch64.place l cursor = _ := hplace
    rw [hsingle] at hplace
    rw [List.length_cons, hfree, hstack]
    by_cases hfull : cursor.freeIntegers = 0
    · rw [Cursor.integer_of_full hfull] at hplace
      cases hplace
      unfold Cursor.freeIntegers at hfull ⊢
      dsimp only
      omega
    · obtain ⟨s, hs⟩ := Cursor.integer_of_free (Nat.pos_of_ne_zero hfull)
      rw [hs] at hplace
      cases hplace
      unfold Cursor.freeIntegers at hfull ⊢
      dsimp only
      omega

/-- An argument that comes when no register is left takes the stack slot of its number. -/
theorem program_of_full (h : Placed .aarch64 unboxes c ls placements (before ++ b :: after) last)
    (hbefore : ∀ b' ∈ before, ∃ placement, AArch64.Single b'.layout placement)
    (hb : AArch64.Single b.layout placement) (hfull : c.freeIntegers ≤ before.length) :
    (placement (Convention.stackSlot (c.stack + (before.length - c.freeIntegers)))).program b.layout unboxes
      = .ok b.program := by
  obtain ⟨middle, next, _, _, _, _, p, hplaced, hplace, hprogram, -⟩ := h.split
  obtain ⟨hfree, hstack⟩ := hplaced.singles (by simpa [← hplaced.layouts] using hbefore)
  rw [← hplaced.layouts, List.length_map] at hfree hstack
  replace hplace : AArch64.place b.layout middle = .ok (p, next) := hplace
  rw [hb, Cursor.integer_of_full (by omega)] at hplace
  cases hplace
  rwa [hstack] at hprogram

end Placed

end ForeignCall
