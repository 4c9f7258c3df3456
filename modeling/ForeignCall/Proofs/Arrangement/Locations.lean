import ForeignCall.Proofs.Arrangement.Acceptance
import ForeignCall.Proofs.Arrangement.ScratchSize
import Mathlib.Data.List.Nodup

/-!
# Which locations a call uses

A cursor counts without a limit, and a storage keeps 16 bits of the count.

* `Storage.indices`: the indices of the storages of one class, in order;
* `Cursor.Gives.indices`: a cursor gives out consecutive indices of each class, reduced to 16 bits;
* `Convention.Numbers`: the storages of a call use the indices of each class from zero on;
* `arranged_locations`: so do those of each sequence that is arranged.  Its arguments share no location iff
  the indices of their stack slots have 16 bits.
-/

namespace ForeignCall

variable {c : Convention} {d : Descriptor} {direction : Direction} {s : CallingSequence} {ss ts : List Storage}
  {kind : StorageClass}

/-! ### Indices of a class -/

namespace Storage

/-- The indices of the storages of a class, in order. -/
def indices (kind : StorageClass) (ss : List Storage) : List Nat :=
  (ss.filter fun s => s.kind = kind).map fun s => s.index.toNat

/-- The number of storages of a class. -/
def count (kind : StorageClass) (ss : List Storage) : Nat := ss.countP fun s => s.kind = kind

theorem indices_append : indices kind (ss ++ ts) = indices kind ss ++ indices kind ts := by
  simp [indices]

theorem count_append : count kind (ss ++ ts) = count kind ss + count kind ts := List.countP_append

theorem indices_cons {s : Storage} :
    indices kind (s :: ss) = if s.kind = kind then s.index.toNat :: indices kind ss else indices kind ss := by
  by_cases h : s.kind = kind <;> simp [indices, h]

theorem count_cons {s : Storage} : count kind (s :: ss) = count kind ss + if s.kind = kind then 1 else 0 := by
  simp [count, List.countP_cons]

theorem indices_eq_nil (h : ∀ s ∈ ss, s.kind ≠ kind) : indices kind ss = [] := by
  rw [indices, List.filter_eq_nil_iff.2 (by simpa using h), List.map_nil]

theorem count_eq_zero (h : ∀ s ∈ ss, s.kind ≠ kind) : count kind ss = 0 :=
  List.countP_eq_zero.2 (by simpa using h)

theorem mem_indices {i : Nat} : i ∈ indices kind ss ↔ ∃ s ∈ ss, s.kind = kind ∧ s.index.toNat = i := by
  simp [indices, and_assoc]

/-- Storages lie at different locations iff no class uses an index twice. -/
theorem pairwise_iff : (ss.Pairwise fun s t => s.sameLocation t = false) ↔ ∀ kind, (indices kind ss).Nodup := by
  induction ss with
  | nil => simp [indices]
  | cons s ss ih =>
    have happart : (∀ t ∈ ss, s.sameLocation t = false) ↔ s.index.toNat ∉ indices s.kind ss := by
      rw [mem_indices]
      refine ⟨fun h ⟨t, ht, hkind, hindex⟩ => ?_, fun h t ht => Bool.eq_false_iff.2 fun hsame => ?_⟩
      · have hsame := sameLocation_eq_true.2 ⟨hkind.symm, BitVec.eq_of_toNat_eq hindex.symm⟩
        rw [h t ht] at hsame
        cases hsame
      · obtain ⟨hkind, hindex⟩ := sameLocation_eq_true.1 hsame
        exact h ⟨t, ht, hkind.symm, by rw [hindex]⟩
    rw [List.pairwise_cons, happart, ih]
    constructor
    · rintro ⟨hfresh, hrest⟩ kind
      rw [indices_cons]
      split
      · next hkind => exact List.nodup_cons.2 ⟨hkind ▸ hfresh, hrest kind⟩
      · exact hrest kind
    · intro h
      have hall (kind : StorageClass) : (indices kind ss).Nodup := by
        have hkind := h kind
        rw [indices_cons] at hkind
        split at hkind
        · exact (List.nodup_cons.1 hkind).2
        · exact hkind
      refine ⟨?_, hall⟩
      have hkind := h s.kind
      rw [indices_cons, if_pos rfl] at hkind
      exact (List.nodup_cons.1 hkind).1

end Storage

/-- The first counts keep their identity in 16 bits, and no more of them. -/
theorem nodup_range_mod {n : Nat} : ((List.range n).map (· % 65536)).Nodup ↔ n ≤ 65536 := by
  constructor
  · intro h
    by_contra hlt
    have hlength : ((List.range n).map (· % 65536)).length = n := by simp
    refine List.pairwise_iff_getElem.1 h 0 65536 (by omega) (by omega) (by decide) ?_
    simp only [List.getElem_map, List.getElem_range]
  · intro h
    refine List.Nodup.map_on (fun x hx y hy hxy => ?_) List.nodup_range
    rw [List.mem_range] at hx hy
    omega

/-! ### What a cursor gives out -/

namespace Cursor

variable {c c' : Cursor} {s : Storage}

/-- The count of a class. -/
def next (c : Cursor) (kind : StorageClass) : Nat :=
  if kind = .stack then c.stack
  else if kind = c.integerClass then c.integers
  else if kind = c.vectorClass then c.vectors
  else 0

/-- The storage has the count of its class as its index, and the cursor counts it. -/
theorem Takes.counts (h : Takes c s c') (hc : c.Sound) :
    s.index.toNat = c.next s.kind % 65536 ∧
      ∀ kind, c'.next kind = c.next kind + if s.kind = kind then 1 else 0 := by
  unfold next
  cases h with
  | integer =>
    rcases hc.classes with ⟨hi, hv⟩ | ⟨hi, hv⟩ <;> rw [hi, hv] <;>
      refine ⟨by simp [Storage.slot], fun kind => ?_⟩ <;> cases kind <;> simp [Storage.slot]
  | vector =>
    rcases hc.classes with ⟨hi, hv⟩ | ⟨hi, hv⟩ <;> rw [hi, hv] <;>
      refine ⟨by simp [Storage.slot], fun kind => ?_⟩ <;> cases kind <;> simp [Storage.slot]
  | stack =>
    rcases hc.classes with ⟨hi, hv⟩ | ⟨hi, hv⟩ <;> rw [hi, hv] <;>
      refine ⟨by simp [Convention.stackSlot, Storage.slot], fun kind => ?_⟩ <;> cases kind <;>
      simp [Convention.stackSlot, Storage.slot]

theorem Sound.next_le (hc : c.Sound) (hkind : kind ≠ .stack) : c.next kind ≤ c.convention.slotCount kind := by
  have hintegers := hc.integers_le
  have hvectors := hc.vectors_le
  unfold next
  split
  · contradiction
  · split
    · next h => rwa [h]
    · split
      · next h => rwa [h]
      · exact Nat.zero_le _

/-- A cursor goes on as another one that leaves no slot of some classes of registers. -/
structure Exhausts (c e : Cursor) : Prop where
  sound : e.Sound
  convention : e.convention = c.convention
  next : ∀ kind, e.next kind = c.next kind ∨ kind ≠ .stack ∧ e.next kind = c.convention.slotCount kind

theorem exhaustIntegers_exhausts (hc : c.Sound) : c.Exhausts c.exhaustIntegers := by
  refine ⟨(exhaustIntegers_before hc).1, rfl, fun kind => ?_⟩
  unfold next exhaustIntegers
  rcases hc.classes with ⟨hi, hv⟩ | ⟨hi, hv⟩ <;> cases kind <;> simp [hi, hv]

theorem exhaustVectors_exhausts (hc : c.Sound) : c.Exhausts c.exhaustVectors := by
  refine ⟨(exhaustVectors_before hc).1, rfl, fun kind => ?_⟩
  unfold next exhaustVectors
  rcases hc.classes with ⟨hi, hv⟩ | ⟨hi, hv⟩ <;> cases kind <;> simp [hi, hv]

namespace Gives

/-- Induction over what a sound cursor gives out. -/
theorem sound_induction {motive : Cursor → List Storage → Prop} (nil : ∀ c : Cursor, c.Sound → motive c [])
    (cons : ∀ {c next s ss}, c.Sound → Takes c s next → motive next ss → motive c (s :: ss))
    (exhaust : ∀ {c e ss c'}, c.Sound → Exhausts c e → Gives e ss c' → motive e ss → motive c ss)
    (h : Gives c ss c') (hc : c.Sound) : motive c ss := by
  induction h with
  | nil => exact nil _ hc
  | cons htakes _ ih => exact cons hc htakes (ih (htakes.before hc).1)
  | exhaustIntegers hrest ih =>
    have he := exhaustIntegers_exhausts hc
    exact exhaust hc he hrest (ih he.sound)
  | exhaustVectors hrest ih =>
    have he := exhaustVectors_exhausts hc
    exact exhaust hc he hrest (ih he.sound)

/-- The counts leave room for what is given out. -/
theorem next_add_count_le (h : Gives c ss c') (hc : c.Sound) (hkind : kind ≠ .stack) :
    c.next kind + Storage.count kind ss ≤ c.convention.slotCount kind := by
  refine sound_induction
    (motive := fun c ss => c.next kind + Storage.count kind ss ≤ c.convention.slotCount kind) ?_ ?_ ?_ h hc
  · exact fun c hc => hc.next_le hkind
  · intro c next s ss hc htakes ih
    rw [(htakes.before hc).2.convention, (htakes.counts hc).2] at ih
    rw [Storage.count_cons]
    omega
  · intro c e ss c' hc he _ ih
    have hle := hc.next_le hkind
    rw [he.convention] at ih
    rcases he.next kind with heq | ⟨-, heq⟩ <;> omega

/-- **A cursor gives out consecutive indices of each class**, reduced to 16 bits.  After a class has been
exhausted it gives out no index of it. -/
theorem indices (h : Gives c ss c') (hc : c.Sound) :
    Storage.indices kind ss = (List.range' (c.next kind) (Storage.count kind ss)).map (· % 65536) := by
  refine sound_induction (motive := fun c ss => Storage.indices kind ss =
    (List.range' (c.next kind) (Storage.count kind ss)).map (· % 65536)) ?_ ?_ ?_ h hc
  · exact fun _ _ => rfl
  · intro c next s ss hc htakes ih
    obtain ⟨hindex, hcounts⟩ := htakes.counts hc
    rw [hcounts] at ih
    rw [Storage.indices_cons, Storage.count_cons, ih]
    by_cases hkind : s.kind = kind
    · subst hkind
      simp only [if_pos, List.range'_succ, List.map_cons, hindex]
    · simp only [if_neg hkind, Nat.add_zero]
  · intro c e ss c' hc he hrest ih
    rw [ih]
    rcases he.next kind with heq | ⟨hkind, heq⟩
    · rw [heq]
    · -- The class is exhausted, so nothing of it is left to give out.
      have hroom := hrest.next_add_count_le he.sound hkind
      rw [he.convention, heq] at hroom
      rw [show Storage.count kind ss = 0 by omega]
      rfl

end Gives

end Cursor

/-! ### The storages of a call -/

/-- The storages use the indices of each class from zero on, reduced to 16 bits, and no more registers than
there are. -/
structure Convention.Numbers (c : Convention) (ss : List Storage) : Prop where
  indices : ∀ kind, Storage.indices kind ss = (List.range (Storage.count kind ss)).map (· % 65536)
  count_le : ∀ kind ≠ .stack, Storage.count kind ss ≤ c.slotCount kind

namespace Convention.Numbers

theorem nil (c : Convention) : c.Numbers [] := ⟨fun _ => rfl, fun _ _ => Nat.zero_le _⟩

theorem of_gives {cursor last : Cursor} (h : cursor.Gives ss last) (hc : cursor.Sound)
    (hstart : ∀ kind, cursor.next kind = 0) :
    cursor.convention.Numbers ss := by
  refine ⟨fun kind => ?_, fun kind hkind => ?_⟩
  · rw [h.indices hc, hstart, List.range_eq_range']
  · have hroom := h.next_add_count_le hc hkind
    omega

theorem append (hss : c.Numbers ss) (hts : c.Numbers ts) (hne : ∀ s ∈ ss, ∀ t ∈ ts, s.kind ≠ t.kind) :
    c.Numbers (ss ++ ts) := by
  have hone (kind : StorageClass) : Storage.indices kind ss = [] ∧ Storage.count kind ss = 0 ∨
      Storage.indices kind ts = [] ∧ Storage.count kind ts = 0 := by
    by_cases h : ∃ s ∈ ss, s.kind = kind
    · obtain ⟨s, hs, rfl⟩ := h
      have hts t (ht : t ∈ ts) : t.kind ≠ s.kind := (hne s hs t ht).symm
      exact .inr ⟨Storage.indices_eq_nil hts, Storage.count_eq_zero hts⟩
    · have hss s (hs : s ∈ ss) : s.kind ≠ kind := fun heq => h ⟨s, hs, heq⟩
      exact .inl ⟨Storage.indices_eq_nil hss, Storage.count_eq_zero hss⟩
  refine ⟨fun kind => ?_, fun kind hkind => ?_⟩
  · rw [Storage.indices_append, Storage.count_append]
    rcases hone kind with ⟨hnil, hzero⟩ | ⟨hnil, hzero⟩
    · rw [hnil, hzero, List.nil_append, Nat.zero_add, hts.indices]
    · rw [hnil, hzero, List.append_nil, Nat.add_zero, hss.indices]
  · rw [Storage.count_append]
    have hcount := hss.count_le kind hkind
    have hcount' := hts.count_le kind hkind
    rcases hone kind with ⟨-, hzero⟩ | ⟨-, hzero⟩ <;> omega

/-- **They share no location iff the indices of the stack slots have 16 bits.** -/
theorem pairwise_iff (h : c.Numbers ss) :
    (ss.Pairwise fun s t => s.sameLocation t = false) ↔ Storage.count .stack ss ≤ 65536 := by
  rw [Storage.pairwise_iff]
  refine ⟨fun hall => ?_, fun hstack kind => ?_⟩
  · have hkind := hall .stack
    rwa [h.indices, nodup_range_mod] at hkind
  · rw [h.indices, nodup_range_mod]
    by_cases hkind : kind = .stack
    · rwa [hkind]
    · have hcount := h.count_le kind hkind
      have hslots := c.slotCount_le kind
      omega

theorem index_lt {storage : Storage} (h : c.Numbers ss) (hs : storage ∈ ss) (hkind : storage.kind ≠ .stack) :
    storage.index.toNat < c.slotCount storage.kind := by
  have hmem : storage.index.toNat ∈ Storage.indices storage.kind ss :=
    Storage.mem_indices.2 ⟨storage, hs, rfl, rfl⟩
  rw [h.indices] at hmem
  obtain ⟨i, hi, heq⟩ := List.mem_map.1 hmem
  have hcount := h.count_le storage.kind hkind
  rw [List.mem_range] at hi
  omega

/-- No other storage has the location of a register, however many there are. -/
theorem sameLocation_eq_false {register : Storage} (h : c.Numbers (register :: ss))
    (hkind : register.kind ≠ .stack) :
    ∀ s ∈ ss, s.sameLocation register = false := by
  have hnodup : (Storage.indices register.kind (register :: ss)).Nodup := by
    have hcount := h.count_le register.kind hkind
    have hslots := c.slotCount_le register.kind
    rw [h.indices, nodup_range_mod]
    omega
  rw [Storage.indices_cons, if_pos rfl, List.nodup_cons, Storage.mem_indices] at hnodup
  intro s hs
  rw [Bool.eq_false_iff]
  intro hsame
  obtain ⟨hclass, hindex⟩ := Storage.sameLocation_eq_true.1 hsame
  exact hnodup.1 ⟨s, hs, hclass, by rw [hindex]⟩

theorem singleton {s : Storage} (hindex : s.index = 0) (hexists : 0 < c.slotCount s.kind) : c.Numbers [s] := by
  refine ⟨fun kind => ?_, fun kind _ => ?_⟩ <;> rw [Storage.count_cons]
  · rw [Storage.indices_cons]
    split <;> simp [Storage.indices, Storage.count, hindex]
  · split
    · next heq => exact heq ▸ hexists
    · exact Nat.zero_le _

theorem of_plan {l? : Option Layout} {plan : ResultPlan} {cursor last : Cursor}
    (h : c.planResult l? = .ok (plan, cursor)) (hgives : cursor.Gives ss last) :
    c.Numbers (plan.pointer?.toList ++ ss) := by
  have hstart (kind : StorageClass) : (Cursor.arguments c).next kind = 0 := by
    cases kind <;> rfl
  have harguments := Cursor.arguments_sound c
  rcases Convention.planResult_pointer? h with ⟨hnone, rfl⟩ | ⟨p, hsome, hpointer⟩
  · rw [hnone]
    exact of_gives hgives harguments hstart
  · rw [hsome]
    rcases Convention.resultPointer_eq_ok hpointer with htakes | ⟨rfl, hkind, hlt⟩
    · exact of_gives (.cons htakes hgives) harguments hstart
    · have hzero : p.index = 0 := by
        have hone : c.slotCount .indirectResult ≤ 1 := by cases c <;> decide
        exact BitVec.eq_of_toNat_eq (show p.index.toNat = 0 by omega)
      have hclass t (ht : t ∈ ss) : t.kind ≠ .indirectResult := by
        rcases hgives.kind_cases harguments ht with heq | heq | heq <;> rw [heq] <;> simp [Cursor.arguments]
      refine append (singleton hzero (hkind ▸ by omega)) (of_gives hgives harguments hstart) fun s hs t ht => ?_
      obtain rfl := List.mem_singleton.1 hs
      rw [hkind]
      exact (hclass t ht).symm

theorem of_result {l? : Option Layout} {plan : ResultPlan} {cursor : Cursor}
    (h : c.planResult l? = .ok (plan, cursor)) :
    c.Numbers plan.resultStorages := by
  have hstart (kind : StorageClass) : (Cursor.results c).next kind = 0 := by
    cases kind <;> rfl
  cases l? with
  | none =>
    cases h
    exact nil c
  | some l =>
    rcases Convention.planResult_eq_ok h with ⟨p, rfl, hp⟩ | ⟨pointer, returned, rfl, -, -, hreturned⟩
    · obtain ⟨c', hgives, -⟩ := hp.gives
      exact of_gives hgives (Cursor.results_sound c) hstart
    · cases returned with
      | none => exact nil c
      | some r =>
        obtain ⟨rfl, hlt⟩ := Convention.storage_eq_ok (hreturned r rfl)
        exact singleton rfl (hlt (by decide))

end Convention.Numbers

/-! ### Arranged sequences -/

/-- A program that has passed the check of a role moves through storages of that role only. -/
theorem SequenceBuilder.isArgument_of_check {b : Binding} {unboxes asArgument : Bool}
    (h : check direction unboxes asArgument b = .ok ()) :
    ∀ s ∈ Program.storages b.program, s.kind.isArgument = asArgument := by
  unfold check at h
  split at h
  · cases h
  · cases h
  · split at h
    · cases h
    · next hnone =>
      intro s hs
      simpa using List.find?_eq_none.1 hnone s hs

theorem CallingSequence.Verified.isArgument_arguments (h : s.Verified) :
    ∀ storage ∈ Program.storages s.argumentPrograms.flatten, storage.kind.isArgument = true := by
  intro storage hstorage
  rw [Program.storages_flatten] at hstorage
  obtain ⟨p, hp, hstorage⟩ := List.mem_flatMap.1 hstorage
  rcases List.mem_append.1 hp with hp | hp
  · obtain ⟨i, hi, rfl⟩ := Option.map_eq_some_iff.1 (Option.mem_toList.1 hp)
    exact SequenceBuilder.isArgument_of_check (h.pointer i hi) storage hstorage
  · obtain ⟨b, hb, rfl⟩ := List.mem_map.1 hp
    exact SequenceBuilder.isArgument_of_check (h.arguments b hb) storage hstorage

theorem CallingSequence.Verified.isArgument_result (h : s.Verified) :
    ∀ storage ∈ Program.storages s.resultProgram, storage.kind.isArgument = false := by
  intro storage hstorage
  unfold resultProgram at hstorage
  split at hstorage
  · next b hb => exact SequenceBuilder.isArgument_of_check (h.result b hb) storage hstorage
  · cases hstorage

/-- The programs of placed arguments move through what the cursor gives out. -/
theorem Placed.gives {unboxes : Bool} {cursor last : Cursor} {ls : List Layout} {placements : List Placement}
    {bindings : List Binding} (h : Placed c unboxes cursor ls placements bindings last) :
    cursor.Gives (bindings.flatMap fun b => Program.storages b.program) last := by
  induction h with
  | nil => exact .nil
  | cons hplace hprogram _ ih =>
    rw [List.flatMap_cons, Placement.storages_program hprogram]
    exact (Convention.place_eq_ok hplace).1.append ih

/-- The argument programs move through the pointer of the plan and then through the storages of the
arguments. -/
theorem ResultPlan.Describes.storages_argumentPrograms {plan : ResultPlan}
    (h : plan.Describes direction (s.indirect.map fun i => (i.pointer, i.layout)) s.result) :
    Program.storages s.argumentPrograms.flatten
      = plan.pointer?.toList ++ s.arguments.flatMap fun b => Program.storages b.program := by
  rw [Program.storages_flatten, CallingSequence.argumentPrograms, List.flatMap_append,
    CallingSequence.userPrograms, List.flatMap_map, h.pointerProgram?]
  cases plan.pointer? with
  | none => rfl
  | some p => simp [Placement.storages_scalarProgram]

/-- The argument programs and the result program number their storages. -/
theorem arrange_numbers (h : arrange c d direction = .ok s) :
    c.Numbers (Program.storages s.argumentPrograms.flatten) ∧ c.Numbers (Program.storages s.resultProgram) := by
  obtain ⟨plan, cursor, placements, last, hplan, hplaced, hdescribes, -, -⟩ := arrange_eq_ok h
  rw [hdescribes.storages_argumentPrograms, hdescribes.storages_resultProgram]
  exact ⟨.of_plan hplan hplaced.gives, .of_result hplan⟩

/-- The storages of an arranged sequence are part of the frame that is made for it. -/
theorem arrange_has {frame : FrameLayout} (h : arrange c d direction = .ok s)
    (hframe : FrameLayout.covering c s.storages = .ok frame) : ∀ t ∈ Program.storages s.steps, frame.Has t := by
  obtain ⟨harguments, hresult⟩ := arrange_numbers h
  intro t ht
  refine FrameLayout.covering_has hframe (Storage.mem_sortedSet.2 ht) fun hkind => ?_
  rw [CallingSequence.steps, Program.storages_append] at ht
  rcases List.mem_append.1 ht with ht | ht
  · exact harguments.index_lt ht hkind
  · exact hresult.index_lt ht hkind

/-- **The locations of a call.**  The moves of a sequence use the indices of each class from zero on, in
order, reduced to 16 bits; of a class of registers they use no more than there are.  No two moves of the
result program share a location.  No two moves of the argument programs do iff there are no more moves
through the stack than indices of 16 bits. -/
theorem arranged_locations (h : arrange c d direction = .ok s) :
    c.Numbers (Program.storages s.steps) ∧
      ((Program.storages s.resultProgram).Pairwise fun a b => a.sameLocation b = false) ∧
      (((Program.storages s.argumentPrograms.flatten).Pairwise fun a b => a.sameLocation b = false) ↔
        s.stackMoves ≤ 65536) := by
  obtain ⟨harguments, hresult⟩ := arrange_numbers h
  have hverified := (arrange_built h).verified
  have hrole := hverified.isArgument_arguments
  have hrole' := hverified.isArgument_result
  have hstack : Storage.count .stack (Program.storages s.resultProgram) = 0 :=
    Storage.count_eq_zero fun storage hstorage heq => by
      simpa [heq, StorageClass.isArgument] using hrole' storage hstorage
  have hmoves : s.stackMoves = Storage.count .stack (Program.storages s.argumentPrograms.flatten) := by
    show Storage.count .stack (Program.storages (s.argumentPrograms.flatten ++ s.resultProgram)) = _
    rw [Program.storages_append, Storage.count_append, hstack, Nat.add_zero]
  refine ⟨?_, hresult.pairwise_iff.2 (by omega), hmoves ▸ harguments.pairwise_iff⟩
  rw [CallingSequence.steps, Program.storages_append]
  refine harguments.append hresult fun a ha b hb heq => ?_
  have hsame := (hrole a ha).symm.trans (congrArg StorageClass.isArgument heq)
  rw [hrole' b hb] at hsame
  cases hsame

/-- Nine integers, seven doubles and a structure of three singles, with a result in memory: one integer and
the singles go through the stack. -/
theorem arranged_locations_aarch64 :
    let singles : Layout := .struct [.value .f32, .value .f32, .value .f32]
    let d : Descriptor :=
      ⟨List.replicate 9 (.value .i64) ++ List.replicate 7 (.value .f64) ++ [singles], some (.padding 24)⟩
    ∃ s, arrange .aarch64 d .upcall = .ok s ∧ s.stackMoves = 3 ∧
      Convention.aarch64.Numbers (Program.storages s.steps) ∧
      (Program.storages s.argumentPrograms.flatten).Pairwise fun a b => a.sameLocation b = false := by
  intro singles d
  have hs : (arrange .aarch64 d .upcall).toOption.any (fun s => s.stackMoves = 3) = true := by cbv
  obtain ⟨s, hs, hstack⟩ := exists_ok_of_any hs
  have hstack := of_decide_eq_true hstack
  obtain ⟨hnumbers, -, hapart⟩ := arranged_locations hs
  exact ⟨s, hs, hstack, hnumbers, hapart.2 (by omega)⟩

/-! ### A stack of more slots than there are indices -/

theorem eightbytes_mul (n : Nat) : eightbytes (8 * n) = (List.range n).map fun i => (i * 8, 8) := by
  rw [eightbytes, show (8 * n + 7) / 8 = n by omega]
  refine List.map_congr_left fun i hi => ?_
  have := List.mem_range.1 hi
  rw [show min (8 * n - i * 8) 8 = 8 by omega]

/-- A word that is passed in a stack slot. -/
def Piece.InStack (p : Piece) : Prop := p.kind = .i64 ∧ ∃ i, p.storage = Convention.stackSlot i

theorem Piece.storages_inStack {ps : List Piece} (h : ∀ p ∈ ps, p.InStack) :
    ∀ s ∈ Program.storages (takeApart ps), s.kind = .stack := by
  rw [Placement.storages_takeApart]
  intro s hs
  obtain ⟨p, hp, rfl⟩ := List.mem_map.1 hs
  obtain ⟨-, i, hstorage⟩ := h p hp
  rw [hstorage]
  rfl

theorem stackPiecesFrom_words (l : Layout) (cursor : Cursor) {chunks : List (Nat × Nat)}
    (h : ∀ chunk ∈ chunks, chunk.2 = 8) :
    ∃ ps last, stackPiecesFrom l cursor chunks = .ok (ps, last) ∧ ∀ p ∈ ps, p.InStack := by
  induction chunks generalizing cursor with
  | nil => exact ⟨[], cursor, rfl, by simp⟩
  | cons chunk chunks ih =>
    obtain ⟨offset, size⟩ := chunk
    obtain rfl : size = 8 := h (offset, size) (by simp)
    obtain ⟨ps, last, hrest, hps⟩ := ih { cursor with stack := cursor.stack + 1 } fun chunk hchunk =>
      h chunk (List.mem_cons_of_mem _ hchunk)
    refine ⟨⟨offset, .i64, Convention.stackSlot cursor.stack⟩ :: ps, last, bind_eq_ok.2 ⟨.i64, rfl, ?_⟩, ?_⟩
    · exact bind_eq_ok.2 ⟨(ps, last), hrest, rfl⟩
    · intro p hp
      rcases List.mem_cons.1 hp with rfl | hp
      · exact ⟨rfl, cursor.stack, rfl⟩
      · exact hps p hp

/-- Padding of more than two words goes to the stack of the System V convention. -/
theorem SysV.place_padding {n : Nat} (hn : 2 < n) :
    ∃ ps last, place (.padding (8 * n)) (.arguments .sysV) = .ok (.pieces ps, last) ∧
      (Cursor.arguments .sysV).Fills (eightbytes (8 * n)) ps last ∧ ∀ p ∈ ps, p.InStack := by
  have hwords : ∀ chunk ∈ eightbytes (8 * n), chunk.2 = 8 := by simp [eightbytes_mul]
  obtain ⟨ps, last, hps, hstack⟩ := stackPiecesFrom_words (.padding (8 * n)) (.arguments .sysV) hwords
  refine ⟨ps, last, ?_, stackPiecesFrom_eq_ok hps, hstack⟩
  have hsize : (liftM (Layout.padding (8 * n)).byteSize : Arranging Nat) = .ok (8 * n) := rfl
  have hempty : checkNotEmpty (.padding (8 * n)) = .ok () := by
    refine bind_eq_ok.2 ⟨_, hsize, ?_⟩
    rw [if_neg (by omega)]
    rfl
  have hclassify : classify (.padding (8 * n)) = .ok none := by
    refine bind_eq_ok.2 ⟨(), hempty, bind_eq_ok.2 ⟨_, hsize, ?_⟩⟩
    rw [if_pos (by simp [maxRegisterAggregate]; omega)]
    rfl
  refine bind_eq_ok.2 ⟨(ps, last), bind_eq_ok.2 ⟨none, hclassify, ?_⟩, rfl⟩
  exact bind_eq_ok.2 ⟨_, hsize, hps⟩

theorem arrange_single {l : Layout} {placement : Placement} {last : Cursor} {p : Program}
    (hplace : c.place l (.arguments c) = .ok (placement, last)) (hprogram : placement.program l true = .ok p)
    (hcheck : SequenceBuilder.check .downcall true true ⟨l.carrier, l, p⟩ = .ok ())
    (hrequests : p.requests = []) :
    arrange c ⟨[l], none⟩ .downcall = .ok ⟨.downcall, [⟨l.carrier, l, p⟩], none, none, 0⟩ := by
  let b : Binding := ⟨l.carrier, l, p⟩
  have harguments : Arrangement.arguments c (.arguments c) (.new .downcall) [l]
      = .ok ⟨.downcall, [b], none, none⟩ := by
    refine bind_eq_ok.2 ⟨_, hplace,
      bind_eq_ok.2 ⟨p, lift_overflow_halt_eq_ok.2 hprogram, bind_eq_ok.2 ⟨_, ?_, rfl⟩⟩⟩
    exact lift_fault_eq_ok.2 (bind_eq_ok.2 ⟨(), hcheck, rfl⟩)
  have hbuild : (⟨.downcall, [b], none, none⟩ : SequenceBuilder).build
      = .ok ⟨.downcall, [b], none, none, 0⟩ := by
    have hsteps : CallingSequence.steps ⟨.downcall, [b], none, none, 0⟩ = p := by
      simp [CallingSequence.steps, CallingSequence.argumentPrograms, CallingSequence.pointerProgram?,
        CallingSequence.userPrograms, CallingSequence.resultProgram, b]
    refine bind_eq_ok.2 ⟨none, rfl, bind_eq_ok.2 ⟨0, ?_, rfl⟩⟩
    rw [hsteps, SequenceBuilder.scratchSize_eq, Program.scratch_eq_zero hrequests]
    rfl
  refine bind_eq_ok.2 ⟨(.new .downcall, .arguments c), rfl, bind_eq_ok.2 ⟨_, harguments, ?_⟩⟩
  exact lift_overflow_halt_eq_ok.2 hbuild

/-- Padding of many words takes a stack slot for each of them. -/
theorem arrange_padding {n : Nat} (hn : 2 < n) (hlimit : 8 * n < wordLimit) :
    ∃ s, arrange .sysV ⟨[.padding (8 * n)], none⟩ .downcall = .ok s ∧
      Storage.count .stack (Program.storages s.argumentPrograms.flatten) = n := by
  obtain ⟨ps, last, hplace, hfills, hstack⟩ := SysV.place_padding hn
  have hlength : ps.length = n := by
    have hspan := congrArg List.length hfills.span
    simpa [eightbytes_mul] using hspan
  have harguments := Cursor.arguments_sound .sysV
  have hcheck : SequenceBuilder.check .downcall true true ⟨.segment, .padding (8 * n), takeApart ps⟩ = .ok () :=
    Placement.check_program _ ⟨8 * n, rfl, hlimit⟩ (hfills.carries (l := .padding (8 * n)) rfl rfl (by omega))
      (hfills.gives.byteSize harguments) (hfills.gives.isArgument harguments rfl rfl) rfl
  refine ⟨_, arrange_single (c := .sysV) hplace rfl hcheck (Placement.requests_takeApart ps), ?_⟩
  have hall := Piece.storages_inStack hstack
  have hcount : Storage.count .stack (Program.storages (takeApart ps)) = n := by
    rw [Storage.count, List.countP_eq_length.2 (by simpa using hall), Placement.storages_takeApart,
      List.length_map, hlength]
  simpa [CallingSequence.argumentPrograms, CallingSequence.pointerProgram?,
    CallingSequence.userPrograms] using hcount

/-- **The stack slot with the index 65536 is the first one again**: an argument of 65537 words arranges, and
two of its moves share a location. -/
theorem stack_locations_collide :
    ∃ s, arrange .sysV ⟨[.padding 524296], none⟩ .downcall = .ok s ∧
      ¬ (Program.storages s.argumentPrograms.flatten).Pairwise fun a b => a.sameLocation b = false := by
  obtain ⟨s, hs, hcount⟩ := arrange_padding (n := 65537) (by decide) (by decide)
  refine ⟨s, hs, fun hapart => ?_⟩
  have hle := (arrange_numbers hs).1.pairwise_iff.1 hapart
  omega

end ForeignCall
