import ForeignCall.Proofs.Arrangement.Placement
import ForeignCall.Proofs.Arrangement.Plan
import ForeignCall.Proofs.Frame
import Mathlib.Data.List.Basic

/-!
# The two directions of a call

* `Route`: the way of one value, with the program of either direction;
* `Placed.routes`: both directions place arguments alike;
* `Convention.Separates`: storages that exist and lie at different locations, and so share no word of a
  frame that has them;
* `CallingSequence.Paired`: what the sequences of one function share (`arrange_paired`), and so the storages
  that they move through (`CallingSequence.Paired.storages_eq`).
-/

namespace ForeignCall

variable {c : Convention} {d : Descriptor} {down up s : CallingSequence} {cursor last last' : Cursor}
  {ls : List Layout} {ps ps' : List Placement} {bs bs' : List Binding} {ss : List Storage}

/-- The way of one value: its layout, its storages and the programs that move it out to them and back from
them. -/
structure Route where
  layout : Layout
  placement : Placement
  out : Program
  back : Program

namespace Route

def storages (r : Route) : List Storage := r.placement.storages

def outBinding (r : Route) : Binding := ⟨r.layout.carrier, r.layout, r.out⟩

def backBinding (r : Route) : Binding := ⟨r.layout.carrier, r.layout, r.back⟩

/-- The placement fits the layout, and the programs are those of the placement. -/
structure Sound (r : Route) : Prop where
  out : r.placement.program r.layout true = .ok r.out
  back : r.placement.program r.layout false = .ok r.back
  carries : r.placement.Carries r.layout

/-- The route of an address through a storage. -/
def ofAddress (s : Storage) : Route :=
  ⟨.address, .whole s, scalarProgram .address s true, scalarProgram .address s false⟩

theorem ofAddress_sound (s : Storage) : (ofAddress s).Sound := ⟨rfl, rfl, rfl⟩

end Route

/-! ### Routes of arguments -/

/-- Both directions place arguments alike. -/
theorem Placed.routes (h : Placed c true cursor ls ps bs last) (h' : Placed c false cursor ls ps' bs' last') :
    ∃ rs : List Route, ls = rs.map Route.layout ∧ bs = rs.map Route.outBinding ∧
      bs' = rs.map Route.backBinding ∧
      (∀ r ∈ rs, r.Sound) ∧ cursor.Gives (rs.flatMap Route.storages) last := by
  induction h generalizing ps' bs' with
  | nil =>
    cases h'
    exact ⟨[], rfl, rfl, rfl, by simp, .nil⟩
  | @cons _ _ _ l _ placement _ program _ hplace hprogram _ ih =>
    cases h' with
    | @cons _ _ _ _ _ _ _ program' _ hplace' hprogram' hrest' =>
      cases ok_unique hplace hplace'
      obtain ⟨hgives, hcarries⟩ := Convention.place_eq_ok hplace
      obtain ⟨rs, rfl, rfl, rfl, hsound, hrest⟩ := ih hrest'
      refine ⟨⟨l, placement, program, program'⟩ :: rs, rfl, rfl, rfl, ?_, ?_⟩
      · intro r hr
        rcases List.mem_cons.1 hr with rfl | hr
        · exact ⟨hprogram, hprogram', hcarries⟩
        · exact hsound r hr
      · exact hgives.append hrest

/-! ### Storages that share nothing -/

/-- Storages that exist under a convention and lie at different locations. -/
structure Convention.Separates (c : Convention) (ss : List Storage) : Prop where
  index_lt : ∀ s ∈ ss, s.kind ≠ .stack → s.index.toNat < c.slotCount s.kind
  apart : ss.Pairwise fun s t => s.sameLocation t = false

namespace Convention.Separates

theorem of_gives (h : cursor.Gives ss last) (hc : cursor.Sound) (hstack : last.stack ≤ 65536) :
    cursor.convention.Separates ss :=
  ⟨fun _ hs hkind => h.index_lt hc hstack hs hkind, h.pairwise hc hstack⟩

/-- Storages that share nothing share no word of a frame that was made for them. -/
theorem inFrame {l : FrameLayout} {storages : List Storage} (h : c.Separates ss)
    (hl : FrameLayout.covering c storages = .ok l) (hss : ∀ s ∈ ss, s ∈ storages) : l.Separates ss :=
  ⟨fun s hs => FrameLayout.covering_has hl (hss s hs) (h.index_lt s hs),
    h.apart.imp fun hst => FrameLayout.withStackSlots_apart hl hst⟩

end Convention.Separates

/-! ### The storages of a sequence -/

namespace Program

theorem storages_append (p q : Program) : storages (p ++ q) = storages p ++ storages q :=
  List.filterMap_append ..

theorem storages_flatten (programs : List Program) : storages programs.flatten = programs.flatMap storages := by
  induction programs with
  | nil => rfl
  | cons p programs ih => rw [List.flatten_cons, storages_append, ih, List.flatMap_cons]

end Program

/-- The number of moves through the stack. -/
def CallingSequence.stackMoves (s : CallingSequence) : Nat :=
  (Program.storages s.steps).countP fun storage => storage.kind = .stack

namespace ResultPlan

variable {plan : ResultPlan} {direction : Direction}

/-- The storage of the address of a result buffer. -/
def pointer? : ResultPlan → Option Storage
  | .void | .storages _ _ => none
  | .memory _ pointer _ => some pointer

/-- The layout of what comes back. -/
def layout? : ResultPlan → Option Layout
  | .void => none
  | .storages l _ | .memory l _ _ => some l

def resultStorages : ResultPlan → List Storage
  | .void => []
  | .storages _ placement => placement.storages
  | .memory _ _ returned => returned.toList

theorem Describes.pointerProgram?
    (h : plan.Describes direction (s.indirect.map fun i => (i.pointer, i.layout)) s.result) :
    s.pointerProgram? = plan.pointer?.map fun p => scalarProgram .address p direction.unboxesArguments := by
  unfold CallingSequence.pointerProgram?
  cases hs : s.indirect with
  | none =>
    rw [hs] at h
    cases plan with
    | memory l pointer returned => cases h.1
    | _ => rfl
  | some i =>
    rw [hs] at h
    cases plan with
    | memory l pointer returned => exact congrArg (Option.map Prod.fst) h.1
    | _ => cases h.1

theorem Describes.isIndirect
    (h : plan.Describes direction (s.indirect.map fun i => (i.pointer, i.layout)) s.result) :
    s.isIndirect = plan.pointer?.isSome := by
  have hsome := congrArg Option.isSome h.pointerProgram?
  rwa [CallingSequence.pointerProgram?, Option.isSome_map, Option.isSome_map] at hsome

theorem Describes.resultProgram_storages {l : Layout} {placement : Placement}
    (h : (storages l placement).Describes direction (s.indirect.map fun i => (i.pointer, i.layout)) s.result) :
    placement.program l direction.unboxesResult = .ok s.resultProgram := by
  obtain ⟨-, program, hprogram, hresult⟩ := h
  unfold CallingSequence.resultProgram
  rwa [hresult]

theorem Describes.resultProgram_memory {l : Layout} {pointer : Storage} {returned : Option Storage}
    (h : (memory l pointer returned).Describes direction (s.indirect.map fun i =>
      (i.pointer, i.layout)) s.result) :
    s.resultProgram = (returned.map fun r => scalarProgram .address r direction.unboxesResult).getD [] := by
  unfold CallingSequence.resultProgram
  rw [h.2]
  cases returned <;> rfl

theorem Describes.storages_resultProgram
    (h : plan.Describes direction (s.indirect.map fun i => (i.pointer, i.layout)) s.result) :
    Program.storages s.resultProgram = plan.resultStorages := by
  cases plan with
  | void =>
    unfold CallingSequence.resultProgram
    rw [h.2]
    rfl
  | storages l placement => exact Placement.storages_program h.resultProgram_storages
  | memory l pointer returned =>
    rw [h.resultProgram_memory]
    cases returned with
    | none => rfl
    | some r => exact Placement.storages_scalarProgram .address r direction.unboxesResult

end ResultPlan

theorem Convention.planResult_pointer? {l? : Option Layout} {plan : ResultPlan}
    (h : c.planResult l? = .ok (plan, cursor)) :
    (plan.pointer? = none ∧ cursor = Cursor.arguments c) ∨
      ∃ p, plan.pointer? = some p ∧ c.resultPointer (Cursor.arguments c) = .ok (p, cursor) := by
  cases l? with
  | none =>
    cases h
    exact .inl ⟨rfl, rfl⟩
  | some l =>
    obtain ⟨placement?, -, h⟩ := bind_eq_ok.1 h
    cases placement? with
    | some placement =>
      cases h
      exact .inl ⟨rfl, rfl⟩
    | none =>
      obtain ⟨⟨pointer, next⟩, hpointer, h⟩ := bind_eq_ok.1 h
      dsimp only at h
      split at h
      · obtain ⟨register, -, h⟩ := bind_eq_ok.1 h
        cases h
        exact .inr ⟨pointer, rfl, hpointer⟩
      · cases h
        exact .inr ⟨pointer, rfl, hpointer⟩

theorem Convention.planResult_eq_ok {l : Layout} {plan : ResultPlan}
    (h : c.planResult (some l) = .ok (plan, cursor)) :
    (∃ p, plan = .storages l p ∧ p.Returns l (Cursor.results c)) ∨
      ∃ pointer returned, plan = .memory l pointer returned ∧ l.isAggregate = true ∧
        returned.isSome = c.returnsResultAddress ∧ ∀ r ∈ returned, c.storage .integerRet 0 = .ok r := by
  obtain ⟨placement?, hplace, h⟩ := bind_eq_ok.1 h
  cases placement? with
  | some placement =>
    cases h
    exact .inl ⟨placement, rfl, Convention.placeResult?_eq_ok hplace⟩
  | none =>
    have hl := Convention.isAggregate_of_placeResult? hplace
    obtain ⟨⟨pointer, next⟩, -, h⟩ := bind_eq_ok.1 h
    dsimp only at h
    split at h
    · next hreturns =>
      obtain ⟨register, hregister, h⟩ := bind_eq_ok.1 h
      cases h
      refine .inr ⟨pointer, some register, rfl, hl, hreturns.symm, fun r hr => ?_⟩
      cases hr
      exact lift_fault_eq_ok.1 hregister
    · next hreturns =>
      cases h
      exact .inr ⟨pointer, none, rfl, hl, (Bool.eq_false_iff.2 hreturns).symm, by simp⟩

theorem Convention.planResult_layout? {l? : Option Layout} {plan : ResultPlan}
    (h : c.planResult l? = .ok (plan, cursor)) :
    l? = plan.layout? := by
  cases l? with
  | none =>
    cases h
    rfl
  | some l => rcases Convention.planResult_eq_ok h with ⟨p, rfl, -⟩ | ⟨pointer, returned, rfl, -⟩ <;> rfl

theorem Convention.Separates.of_result {l : Layout} {plan : ResultPlan}
    (h : c.planResult (some l) = .ok (plan, cursor)) :
    c.Separates plan.resultStorages := by
  rcases Convention.planResult_eq_ok h with ⟨p, rfl, hp⟩ | ⟨pointer, returned, rfl, -, -, hreturned⟩
  · obtain ⟨c', hgives, hstack⟩ := hp.gives
    exact of_gives hgives (Cursor.results_sound c) (by omega)
  · cases returned with
    | none => exact ⟨by simp [ResultPlan.resultStorages], .nil⟩
    | some r =>
      obtain ⟨rfl, hlt⟩ := Convention.storage_eq_ok (hreturned r rfl)
      refine ⟨fun s hs hkind => ?_, List.pairwise_singleton _ _⟩
      obtain rfl := List.mem_singleton.1 hs
      exact hlt hkind

theorem Convention.Separates.of_plan {l? : Option Layout} {plan : ResultPlan}
    (h : c.planResult l? = .ok (plan, cursor)) (hgives : cursor.Gives ss last)
    (hstack : (plan.pointer?.toList ++ ss).countP (fun s => s.kind = .stack) ≤ 65536) :
    c.Separates (plan.pointer?.toList ++ ss) := by
  have harguments := Cursor.arguments_sound c
  have hzero : (Cursor.arguments c).stack = 0 := rfl
  rcases Convention.planResult_pointer? h with ⟨hnone, rfl⟩ | ⟨p, hsome, hpointer⟩
  · rw [hnone] at hstack ⊢
    have hcount := hgives.countP_stack harguments
    exact of_gives hgives harguments (by rwa [← hcount, hzero, Nat.zero_add])
  · rw [hsome] at hstack ⊢
    rcases Convention.resultPointer_eq_ok hpointer with htakes | ⟨rfl, hkind, hlt⟩
    · have hall := Cursor.Gives.cons htakes hgives
      have hcount := hall.countP_stack harguments
      exact of_gives hall harguments (by rwa [← hcount, hzero, Nat.zero_add])
    · have hcount := hgives.countP_stack harguments
      have hle : last.stack ≤ 65536 := by
        rw [List.countP_append] at hstack
        omega
      have hseparates := of_gives hgives harguments hle
      refine ⟨fun s hs hs' => ?_, List.pairwise_cons.2 ⟨fun s hs => ?_, hseparates.apart⟩⟩
      · rcases List.mem_cons.1 hs with rfl | hs
        · rwa [hkind]
        · exact hseparates.index_lt s hs hs'
      · -- The cursor gives out no storage of the class of the pointer.
        have hclass : s.kind ≠ .indirectResult := by
          rcases hgives.between harguments hle s hs with ⟨heq, -⟩ | ⟨heq, -⟩ | ⟨heq, -⟩ <;> rw [heq] <;>
            simp [Cursor.arguments]
        rw [Bool.eq_false_iff]
        exact fun hsame => hclass ((Storage.sameLocation_eq_true.1 hsame).1.symm.trans hkind)

/-! ### Sequences of both directions -/

/-- The routes of all arguments, the address of a result buffer first. -/
def ResultPlan.routes (plan : ResultPlan) (rs : List Route) : List Route :=
  plan.pointer?.toList.map Route.ofAddress ++ rs

theorem ResultPlan.storages_routes (plan : ResultPlan) (rs : List Route) :
    (plan.routes rs).flatMap Route.storages = plan.pointer?.toList ++ rs.flatMap Route.storages := by
  unfold routes
  rw [List.flatMap_append]
  cases plan.pointer? <;> rfl

/-- What the sequences of one function share: the plan for the result, and the routes of the arguments. -/
structure CallingSequence.Paired (c : Convention) (d : Descriptor) (down up : CallingSequence)
    (plan : ResultPlan) (rs : List Route) : Prop where
  planned : ∃ cursor, c.planResult d.result = .ok (plan, cursor)
  describesDown : plan.Describes .downcall (down.indirect.map fun i => (i.pointer, i.layout)) down.result
  describesUp : plan.Describes .upcall (up.indirect.map fun i => (i.pointer, i.layout)) up.result
  sizeDown : ∀ i ∈ down.indirect, i.layout.byteSize = .ok i.size
  sizeUp : ∀ i ∈ up.indirect, i.layout.byteSize = .ok i.size
  argumentsDown : down.arguments = rs.map Route.outBinding
  argumentsUp : up.arguments = rs.map Route.backBinding
  layouts : d.args = rs.map Route.layout
  sound : ∀ r ∈ rs, r.Sound
  separates : ((plan.routes rs).flatMap Route.storages).countP (fun s => s.kind = .stack) ≤ 65536 →
    c.Separates ((plan.routes rs).flatMap Route.storages)

/-- **Both directions of a call follow the same routes.** -/
theorem arrange_paired (hdown : arrange c d .downcall = .ok down) (hup : arrange c d .upcall = .ok up) :
    ∃ plan rs, CallingSequence.Paired c d down up plan rs := by
  obtain ⟨plan, cursor, placements, last, hplan, hplaced, hdescribes, -, hsize⟩ := arrange_eq_ok hdown
  obtain ⟨plan', cursor', placements', last', hplan', hplaced', hdescribes', -, hsize'⟩ := arrange_eq_ok hup
  cases ok_unique hplan hplan'
  obtain ⟨rs, hlayouts, hout, hback, hsound, hgives⟩ := hplaced.routes hplaced'
  refine ⟨plan, rs, ⟨cursor, hplan⟩, hdescribes, hdescribes', hsize, hsize', hout, hback, hlayouts, hsound, ?_⟩
  rw [plan.storages_routes rs]
  exact .of_plan hplan hgives

namespace CallingSequence.Paired

variable {plan : ResultPlan} {rs : List Route}

theorem routes_sound (h : Paired c d down up plan rs) : ∀ r ∈ plan.routes rs, r.Sound := by
  intro r hr
  rcases List.mem_append.1 hr with hr | hr
  · obtain ⟨s, -, rfl⟩ := List.mem_map.1 hr
    exact Route.ofAddress_sound s
  · exact h.sound r hr

theorem userPrograms_down (h : Paired c d down up plan rs) : down.userPrograms = rs.map Route.out := by
  rw [userPrograms, h.argumentsDown, List.map_map]
  rfl

theorem userPrograms_up (h : Paired c d down up plan rs) : up.userPrograms = rs.map Route.back := by
  rw [userPrograms, h.argumentsUp, List.map_map]
  rfl

theorem argumentPrograms_down (h : Paired c d down up plan rs) :
    down.argumentPrograms = (plan.routes rs).map Route.out := by
  unfold argumentPrograms ResultPlan.routes
  rw [h.describesDown.pointerProgram?, h.userPrograms_down, List.map_append]
  cases plan.pointer? <;> rfl

theorem argumentPrograms_up (h : Paired c d down up plan rs) :
    up.argumentPrograms = (plan.routes rs).map Route.back := by
  unfold argumentPrograms ResultPlan.routes
  rw [h.describesUp.pointerProgram?, h.userPrograms_up, List.map_append]
  cases plan.pointer? <;> rfl

theorem storages_down (h : Paired c d down up plan rs) :
    Program.storages down.steps = (plan.routes rs).flatMap Route.storages ++ plan.resultStorages := by
  rw [steps, Program.storages_append, h.describesDown.storages_resultProgram, Program.storages_flatten,
    h.argumentPrograms_down, List.flatMap_map]
  congr 1
  exact List.flatMap_congr fun r hr => Placement.storages_program (h.routes_sound r hr).out

theorem storages_up (h : Paired c d down up plan rs) :
    Program.storages up.steps = (plan.routes rs).flatMap Route.storages ++ plan.resultStorages := by
  rw [steps, Program.storages_append, h.describesUp.storages_resultProgram, Program.storages_flatten,
    h.argumentPrograms_up, List.flatMap_map]
  congr 1
  exact List.flatMap_congr fun r hr => Placement.storages_program (h.routes_sound r hr).back

/-- Both directions move through the same storages, and so have the same frame. -/
theorem storages_eq (h : Paired c d down up plan rs) : down.storages = up.storages := by
  unfold storages
  rw [h.storages_down, h.storages_up]

/-- As long as there are no more moves through the stack than indices of 16 bits, the storages of all
arguments are part of the frame and share no word of it. -/
theorem inFrame (h : Paired c d down up plan rs) {l : FrameLayout}
    (hl : FrameLayout.covering c down.storages = .ok l) (hstack : down.stackMoves ≤ 65536) :
    l.Separates ((plan.routes rs).flatMap Route.storages) := by
  unfold stackMoves at hstack
  rw [h.storages_down, List.countP_append] at hstack
  refine (h.separates (by omega)).inFrame hl fun s hs => ?_
  unfold storages
  rw [Storage.mem_sortedSet, h.storages_down]
  exact List.mem_append_left _ hs

theorem result_cases (h : Paired c d down up plan rs) {l : Layout} (hd : d.result = some l) :
    (∃ p, plan = .storages l p ∧ p.Returns l (Cursor.results c)) ∨
      ∃ pointer returned, plan = .memory l pointer returned ∧ l.isAggregate = true ∧
        returned.isSome = c.returnsResultAddress := by
  obtain ⟨cursor, hplan⟩ := h.planned
  rw [hd] at hplan
  rcases Convention.planResult_eq_ok hplan with hstorages | ⟨pointer, returned, hmemory, hl, hreturned, -⟩
  · exact .inl hstorages
  · exact .inr ⟨pointer, returned, hmemory, hl, hreturned⟩

theorem inFrame_result (h : Paired c d down up plan rs) {frame : FrameLayout} {l : Layout}
    (hframe : FrameLayout.covering c down.storages = .ok frame) (hd : d.result = some l) :
    frame.Separates plan.resultStorages := by
  obtain ⟨cursor, hplan⟩ := h.planned
  rw [hd] at hplan
  refine (Convention.Separates.of_result hplan).inFrame hframe fun s hs => ?_
  unfold storages
  rw [Storage.mem_sortedSet, h.storages_down]
  exact List.mem_append_right _ hs

end CallingSequence.Paired

end ForeignCall
