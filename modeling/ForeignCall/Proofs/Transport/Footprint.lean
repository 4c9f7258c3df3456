import ForeignCall.Proofs.Engine.Outcomes
import ForeignCall.Proofs.Memory.HandingOut
import ForeignCall.Proofs.Memory.Issues
import ForeignCall.Proofs.Transport.Marshalling
import ForeignCall.Proofs.Verified.Shapes

/-!
# The footprint of a program

* `Keeps given m n`: `n` comes from `m` without changing memory outside of the segments, which were spare;
* `Carves ss requests given m n`: `n` comes from `m` by writing the storages `ss`, and the segments that the
  arena issues on the requests.  Nothing else of the machine changes but its log;
* `Asked`: a run has made all its requests, or a fault has stopped it after some;
* `Interpreter.run_stands`: the induction over a program, from what one step does;
* `Footprint`: what a part of a call does to a machine, whatever the outcome.  `Engine.unbox_footprint`,
  `Engine.box_footprint`: that of a program, be it verified or not.
-/

namespace ForeignCall

variable {σ α β : Type} {m m₀ n k : Machine σ} {ss ss' : List Storage} {requests requests' : List (Nat × Nat)}
  {given given' : List Segment} {s t : Segment} {v : Value} {p : Program} {step : Step} {stack : List Value}
  {size alignment offset : Nat} {storage : Storage} {w : Word}

/-! ### Memory -/

/-- The segments were spare, and no byte outside of them has changed that was reserved or lies where no
allocation reaches. -/
structure Keeps (given : List Segment) (m n : Machine σ) : Prop where
  evolves : m.scratch.Evolves m.memory n.scratch n.memory
  fresh : ∀ t ∈ given, ∀ a, t.Holds a → m.scratch.Spare m.memory a
  bytes : ∀ a, a < m.memory.top ∨ Memory.addressLimit ≤ a → (∀ t ∈ given, ¬ t.Holds a) →
    n.memory.bytes a = m.memory.bytes a

namespace Keeps

theorem refl (h : m.Ready) : Keeps [] m m := ⟨h.evolves_refl, by simp, fun _ _ _ => rfl⟩

theorem trans (h : Keeps given m n) (h' : Keeps given' n k) : Keeps (given ++ given') m k := by
  refine ⟨h.evolves.trans h'.evolves, fun t ht a ha => ?_, fun a ha hout => ?_⟩
  · rcases List.mem_append.1 ht with ht | ht
    · exact h.fresh t ht a ha
    · exact h.evolves.spare a (h'.fresh t ht a ha)
  · have hle := h.evolves.top_le
    rw [h'.bytes a (by omega) fun t ht => hout t (List.mem_append_right _ ht),
      h.bytes a ha fun t ht => hout t (List.mem_append_left _ ht)]

theorem fill (h : Keeps given m n) (hfill : Fills t n k) (ht : t ∈ given) : Keeps given m k := by
  refine ⟨h.evolves.trans (hfill.evolves h.evolves.sound), h.fresh, fun a ha hout => ?_⟩
  rw [hfill.bytes a (hout t ht), h.bytes a ha hout]

theorem bytes_settled (h : Keeps given m n) {a : Nat} (ha : ¬ m.scratch.Spare m.memory a) :
    n.memory.bytes a = m.memory.bytes a := by
  refine h.bytes a ?_ fun t ht hholds => ha (h.fresh t ht a hholds)
  by_contra hfree
  exact ha (.inl (by omega))

theorem live (h : Keeps given m n) (hworld : n.world = m.world) (ht : t.Live m) :
    t.Live n ∧ ∀ i < t.length, n.memory.bytes (t.address.toNat + i) = m.memory.bytes (t.address.toNat + i) :=
  ⟨ht.marshals ⟨hworld, h.evolves, fun _ => h.bytes_settled⟩, fun i hi => h.bytes_settled (ht.settled i hi)⟩

end Keeps

/-! ### Machines -/

/-- `n` comes from `m` by writing the storages, and memory that the arena issues. -/
structure Carves (ss : List Storage) (requests : List (Nat × Nat)) (given : List Segment)
    (m n : Machine σ) : Prop where
  world : n.world = m.world
  layout : n.frame.layout = m.frame.layout
  words : ∀ i, (∀ s ∈ ss, ¬ m.frame.layout.WordOf s i) → n.frame.words[i]? = m.frame.words[i]?
  issues : m.scratch.Issues requests given n.scratch
  keeps : m.Ready → Keeps given m n

namespace Carves

theorem refl (m : Machine σ) : Carves [] [] [] m m := ⟨rfl, rfl, fun _ _ => rfl, .nil _, Keeps.refl⟩

theorem withLog (m : Machine σ) (log : Array LogEvent) : Carves [] [] [] m { m with log := log } :=
  ⟨rfl, rfl, fun _ _ => rfl, .nil _, fun hm => ⟨hm.evolves_refl, by simp, fun _ _ _ => rfl⟩⟩

theorem trans (h : Carves ss requests given m n) (h' : Carves ss' requests' given' n k) :
    Carves (ss ++ ss') (requests ++ requests') (given ++ given') m k := by
  refine ⟨h'.world.trans h.world, h'.layout.trans h.layout, fun i hi => ?_,
    h.issues.trans h'.issues, fun hm => ?_⟩
  · rw [h'.words i fun s hs => h.layout ▸ hi s (List.mem_append_right _ hs),
      h.words i fun s hs => hi s (List.mem_append_left _ hs)]
  · exact (h.keeps hm).trans (h'.keeps (h.keeps hm).evolves.sound)

theorem weaken (h : Carves ss requests given m n) (hss : ∀ s ∈ ss, s ∈ ss') : Carves ss' requests given m n :=
  ⟨h.world, h.layout, fun i hi => h.words i fun s hs => hi s (hss s hs), h.issues, h.keeps⟩

theorem also (h : Carves ss requests given m n) (h' : Carves ss' [] [] n k) (hss : ∀ s ∈ ss', s ∈ ss) :
    Carves ss requests given m k := by
  have htrans : Carves ss (requests ++ []) (given ++ []) m k :=
    (h.trans h').weaken fun s hs => (List.mem_append.1 hs).elim id (hss s)
  rwa [List.append_nil, List.append_nil] at htrans

theorem fill (h : Carves ss requests given m n) (hfill : Fills t n k) (ht : t ∈ given) :
    Carves ss requests given m k := by
  refine ⟨hfill.world.trans h.world, ?_, fun i hi => ?_, ?_, fun hm => (h.keeps hm).fill hfill ht⟩
  · rw [hfill.frame, h.layout]
  · rw [hfill.frame, h.words i hi]
  · rw [hfill.scratch]
    exact h.issues

theorem setWord (ho : m.frame.layout.offset? storage = some offset) :
    Carves [storage] [] [] m { m with frame := m.frame.setWord offset w } :=
  ⟨rfl, rfl, fun _ hi => Frame.words_setWord ho (hi storage (by simp)), .nil _,
    fun hm => ⟨hm.evolves_refl, by simp, fun _ _ _ => rfl⟩⟩

theorem allocate {scratch : Scratch} {memory : Memory}
    (h : m.scratch.allocate m.memory size alignment = .ok (t, scratch, memory)) (log : Array LogEvent) :
    Carves [] [(size, alignment)] [t] m { m with scratch := scratch, memory := memory, log := log } := by
  refine ⟨rfl, rfl, fun _ _ => rfl, .single h, fun hm => ?_⟩
  have hgranted := (Scratch.allocate_eq_ok hm h).1
  refine ⟨hgranted.evolves, fun u hu a ha => ?_, fun a ha _ => Scratch.bytes_of_allocate h ha⟩
  obtain rfl := List.mem_singleton.1 hu
  obtain ⟨hle, hlt⟩ := ha
  rw [hgranted.length] at hlt
  have hfresh := hgranted.fresh (a - u.address.toNat) (by omega)
  rwa [show u.address.toNat + (a - u.address.toNat) = a by omega] at hfresh

/-- A storage that shares no word with those written keeps its word. -/
theorem wordAt (h : Carves ss requests given m n) (hapart : ∀ s ∈ ss, m.frame.layout.Apart s storage) :
    n.frame.wordAt storage = m.frame.wordAt storage := by
  refine Frame.wordAt_congr h.layout ?_
  rintro _ ⟨o, ho, rfl⟩
  refine h.words _ fun s hs => ?_
  rintro ⟨o', ho', heq⟩
  exact hapart s hs o' o ho' ho heq

end Carves

/-- All requests were made if the run has given a value, and the first of them if a fault has stopped it. -/
def Asked (wanted made : List (Nat × Nat)) : Except Fault α → Prop
  | .ok _ => made = wanted
  | .error _ => made <+: wanted

namespace Asked

variable {r : Except Fault α} {wanted wanted' made made' : List (Nat × Nat)}

theorem nil (r : Except Fault α) : Asked [] [] r := by
  cases r with
  | ok a => rfl
  | error e => exact List.prefix_rfl

theorem isPrefix (h : Asked wanted made r) : made <+: wanted := by
  cases r with
  | ok a => exact h ▸ List.prefix_rfl
  | error e => exact h

theorem append (h : Asked wanted' made' r) : Asked (wanted ++ wanted') (wanted ++ made') r := by
  cases r with
  | ok a => exact congrArg (wanted ++ ·) h
  | error e => exact (List.prefix_append_right_inj _).2 h

theorem stopped {e : Fault} (h : made <+: wanted) :
    Asked (wanted ++ wanted') made (.error e : Except Fault α) :=
  h.trans (List.prefix_append _ _)

end Asked

/-! ### Primitives of the engine -/

namespace Engine

theorem recordChunk_ends (size alignment : Nat) (m : Machine σ) :
    Ends (recordChunk size alignment) m fun r n => r = .ok () ∧ ∃ log, n = { m with log := log } := by
  unfold recordChunk
  refine .get ?_
  split
  · exact ⟨rfl, _, rfl⟩
  · exact .pure ⟨rfl, m.log, rfl⟩

theorem allocateScratch_carves (size alignment : Nat) (m : Machine σ) :
    Ends (allocateScratch size alignment) m fun r n => match r with
      | .ok t => Carves [] [(size, alignment)] [t] m n
      | .error _ => Carves [] [] [] m n := by
  unfold allocateScratch
  refine .get ?_
  split
  · refine .andThen (recordChunk_ends size alignment m) ?_ fun e n h => by cases h.1
    rintro ⟨⟩ _ ⟨-, log, rfl⟩
    refine .get (.lift_bind ?_ fun _ _ => .withLog m log)
    rintro ⟨t, scratch, memory⟩ hrun
    exact Carves.allocate (m := m) hrun _
  · refine .get (.lift_bind ?_ fun _ _ => .refl m)
    rintro ⟨t, scratch, memory⟩ hrun
    exact Carves.allocate hrun _

theorem copySegment_fills (t s : Segment) (m : Machine σ) :
    Ends (copySegment t s) m fun _ n => Fills t m n := by
  unfold copySegment
  refine .get (.lift_bind (fun memory hcopy => ?_) fun _ _ => .refl t m)
  obtain ⟨-, hlength, rfl⟩ := Segment.of_copyFrom_eq_ok hcopy
  exact Fills.copy s.address.toNat hlength

theorem setField_fills (t : Segment) (offset : Nat) (v : Value) (m : Machine σ) :
    Ends (setField t offset v) m fun _ n => Fills t m n := by
  unfold setField
  refine .get (.lift_bind (fun memory hset => ?_) fun _ _ => .refl t m)
  obtain ⟨kind, -, -, hlength, rfl⟩ := Segment.of_set_eq_ok hset
  exact Fills.store hlength _ m.log

theorem writeStorage_carves (storage : Storage) (w : Word) (m : Machine σ) :
    Ends (writeStorage storage w) m fun _ n => Carves [storage] [] [] m n := by
  have hsame : Carves [storage] [] [] m m := (Carves.refl m).weaken (by simp)
  unfold writeStorage
  refine .get (.lift_bind (fun o ho => ?_) fun _ _ => hsame)
  unfold writeWord
  exact .get (.lift_bind (fun _ _ => .setWord (FrameLayout.of_offset_eq_ok ho)) fun _ _ => hsame)

theorem getField_same (s : Segment) (kind : Primitive) (offset : Nat) (m : Machine σ) :
    Ends (getField s kind offset) m fun _ n => n = m := by
  unfold getField
  exact .get (.lift rfl)

theorem takeSegment_same (s : Segment) (size : Nat) (m : Machine σ) :
    Ends (takeSegment s size) m fun _ n => n = m := by
  unfold takeSegment
  exact .get (.lift rfl)

theorem readStorage_same (storage : Storage) (m : Machine σ) :
    Ends (readStorage storage) m fun _ n => n = m := by
  unfold readStorage
  exact .get (.lift rfl)

end Engine

/-! ### Steps -/

namespace Interpreter

variable {I : List Segment → List Value → Prop} {wanted : List (Nat × Nat)} {r : Except Fault (List Value)}

/-- Where a run stands that was started on the machine `m₀`: it has written the storages and has made the
requests, then those that were wanted, as far as it got.  What the arena has issued and the stack have the
property `I`. -/
def Stands (I : List Segment → List Value → Prop) (ss : List Storage) (requests wanted : List (Nat × Nat))
    (m₀ : Machine σ) (r : Except Fault (List Value)) (n : Machine σ) : Prop :=
  ∃ made given, Carves ss (requests ++ made) given m₀ n ∧ Asked wanted made r ∧
    ∀ stack, r = .ok stack → I given stack

namespace Stands

theorem fault {f : Fault} (h : Carves ss requests given m₀ n) : Stands I ss requests wanted m₀ (.error f) n :=
  ⟨[], given, by rwa [List.append_nil], List.nil_prefix, nofun⟩

theorem ok (h : Carves ss requests given m₀ n) (hI : I given stack) :
    Stands I ss requests [] m₀ (.ok stack) n :=
  ⟨[], given, by rwa [List.append_nil], rfl, fun _ hstack => by cases hstack; exact hI⟩

theorem filled {x : Engine σ Unit} (h : Carves ss requests given m₀ m) (ht : t ∈ given)
    (hx : Ends x m fun _ n => Fills t m n) (hI : I given stack) :
    Ends (x >>= fun _ => pure stack) m fun r n => Carves ss requests given m₀ n ∧ ∀ next, r = .ok next →
      I given next :=
  hx.andThen (fun _ n hfill => .pure ⟨h.fill hfill ht, fun _ hnext => by cases hnext; exact hI⟩)
    fun _ n hfill => ⟨h.fill hfill ht, nofun⟩

theorem allocated {f : Segment → Engine σ (List Value)} (h : Carves ss requests given m₀ m)
    (hf : ∀ t n, Carves ss (requests ++ [(size, alignment)]) (given ++ [t]) m₀ n → Ends (f t) n fun r k =>
      Carves ss (requests ++ [(size, alignment)]) (given ++ [t]) m₀ k ∧ ∀ next, r = .ok next →
        I (given ++ [t]) next) :
    Ends (Engine.allocateScratch size alignment >>= f) m (Stands I ss requests [(size, alignment)] m₀) := by
  refine (Engine.allocateScratch_carves size alignment m).andThen (fun t n hn => ?_) fun e n hn => ?_
  · refine (hf t n ((h.trans hn).weaken (by simp))).mono fun r k ⟨hk, hI⟩ =>
      ⟨[(size, alignment)], _, hk, ?_, hI⟩
    cases r with
    | ok next => rfl
    | error f => exact List.prefix_rfl
  · exact .fault (h.also hn (by simp))

end Stands

/-- Taking a value apart writes to no memory but what the arena has issued. -/
theorem unboxStep_stands (step : Step) (stack : List Value) (h : Carves ss requests given m₀ m) :
    Ends (unboxStep step stack : Engine σ (List Value)) m
      (Stands (fun _ _ => True) (ss ++ step.storage?.toList) requests step.request?.toList m₀) := by
  replace h : Carves (ss ++ step.storage?.toList) requests given m₀ m :=
    h.weaken fun s hs => List.mem_append_left _ hs
  cases step with
  | move storage kind =>
    refine .lift_bind (fun ⟨w, rest⟩ _ => ?_) fun _ _ => .fault h
    have hmem : ∀ s ∈ [storage], s ∈ ss ++ (Step.move storage kind).storage?.toList := by simp [Step.storage?]
    exact (Engine.writeStorage_carves storage w m).andThen (fun _ n hn => .pure (.ok (h.also hn hmem) trivial))
      fun _ n hn => .fault (h.also hn hmem)
  | field offset kind =>
    refine .lift_bind (fun ⟨s, rest⟩ _ => ?_) fun _ _ => .fault h
    exact (Engine.getField_same s kind offset m).andThen (fun v n hn => hn ▸ .pure (.ok h trivial))
      fun _ n hn => hn ▸ .fault h
  | copy size alignment =>
    refine .lift_bind (fun ⟨s, rest⟩ _ => Stands.allocated h fun t n hn => ?_) fun _ _ => .fault h
    refine (Engine.takeSegment_same s size n).andThen (fun u k hk => ?_) fun _ k hk => hk ▸ ⟨hn, nofun⟩
    subst hk
    exact Stands.filled (I := fun _ _ => True) hn (by simp) (Engine.copySegment_fills t u k) trivial
  | allocate size alignment => exact Stands.allocated h fun t n hn => .pure ⟨hn, fun _ _ => trivial⟩
  | boxAddress => exact .lift_bind (fun ⟨a, rest⟩ _ => .pure (.ok h trivial)) fun _ _ => .fault h
  | baseAddress => exact .lift_bind (fun ⟨s, rest⟩ _ => .pure (.ok h trivial)) fun _ _ => .fault h
  | dup => exact .lift_ok (fun next _ => .ok h trivial) fun _ _ => .fault h

/-- All segments on the stack are among the given ones. -/
def Owned (given : List Segment) (stack : List Value) : Prop := ∀ t, Value.segment t ∈ stack → t ∈ given

namespace Owned

variable {rest : List Value}

theorem mono (h : Owned given stack) (hstack : ∀ v ∈ rest, v ∈ stack) : Owned given rest :=
  fun t ht => h t (hstack _ ht)

theorem append (h : Owned given stack) (given' : List Segment) : Owned (given ++ given') stack :=
  fun t ht => List.mem_append_left _ (h t ht)

theorem cons (h : Owned given stack) (hv : ∀ t, v = .segment t → t ∈ given) : Owned given (v :: stack) :=
  fun t ht => (List.mem_cons.1 ht).elim (fun heq => hv t heq.symm) (h t)

theorem issued (h : Owned given stack) (t : Segment) : Owned (given ++ [t]) (.segment t :: stack) :=
  (h.append [t]).cons fun u hu => by cases hu; simp

end Owned

/-- So does putting a value together, since no other segment is ever on the stack. -/
theorem boxStep_stands (step : Step) (stack : List Value) (h : Carves ss requests given m₀ m)
    (hI : Owned given stack) :
    Ends (boxStep step stack : Engine σ (List Value)) m (Stands Owned ss requests step.request?.toList m₀) := by
  cases step with
  | move storage kind =>
    refine (Engine.readStorage_same storage m).andThen (fun w n hn =>
      hn ▸ .pure (.ok h (hI.cons fun t ht => ?_)))
      fun _ n hn => hn ▸ .fault h
    cases kind <;> cases ht
  | field offset kind =>
    refine .lift_bind (fun ⟨v, rest⟩ hpop => .lift_bind (fun ⟨s, rest'⟩ hpop' => ?_) fun _ _ => .fault h)
      fun _ _ => .fault h
    obtain rfl := pop_eq_ok.1 hpop
    obtain rfl := popSegment_eq_ok.1 hpop'
    have hrest : Owned given (.segment s :: rest') := hI.mono (by simp +contextual)
    refine (Stands.filled h (hrest s (by simp)) (Engine.setField_fills s offset v m) hrest).mono
      fun r n hn => ?_
    exact ⟨[], given, by simpa using hn.1, .nil r, hn.2⟩
  | copy size alignment =>
    refine .lift_bind (fun ⟨a, rest⟩ hpop => Stands.allocated h fun t n hn => ?_) fun _ _ => .fault h
    obtain rfl := popAddress_eq_ok.1 hpop
    exact Stands.filled hn (by simp) (Engine.copySegment_fills t _ n) ((hI.mono (by simp +contextual)).issued t)
  | allocate size alignment =>
    exact Stands.allocated h fun t n hn => .pure ⟨hn, fun _ hnext => by cases hnext; exact hI.issued t⟩
  | boxAddress =>
    refine .lift_bind (fun ⟨a, rest⟩ hpop => .pure (.ok h ?_)) fun _ _ => .fault h
    obtain rfl := popAddressBits_eq_ok.1 hpop
    exact (hI.mono (by simp +contextual)).cons nofun
  | baseAddress =>
    refine .lift_bind (fun ⟨s, rest⟩ hpop => .pure (.ok h ?_)) fun _ _ => .fault h
    obtain rfl := popSegment_eq_ok.1 hpop
    exact (hI.mono (by simp +contextual)).cons nofun
  | dup =>
    refine .lift_ok (fun next hdup => .ok h ?_) fun _ _ => .fault h
    obtain ⟨v, rest, rfl, rfl⟩ := dup_eq_ok.1 hdup
    exact hI.mono (by simp)

/-! ### Programs -/

/-- **What each step of a run does, the run does.** -/
theorem run_stands {event : Step → LogEvent} {effect : Step → List Value → Engine σ (List Value)}
    (moves : Step → List Storage)
    (hstep : ∀ step stack ss requests given m, Carves ss requests given m₀ m → I given stack →
      Ends (effect step stack) m (Stands I (ss ++ moves step) requests step.request?.toList m₀))
    (p : Program) (h : Carves ss requests given m₀ m) (hI : I given stack) :
    Ends (run event effect p stack) m (Stands I (ss ++ p.flatMap moves) requests p.requests m₀) := by
  induction p generalizing ss requests given m stack with
  | nil => exact .pure (.ok (h.weaken (by simp)) hI)
  | cons step p ih =>
    refine .record ((hstep step stack _ _ _ _ (h.also (.withLog m _) (by simp)) hI).andThen ?_ ?_)
    · rintro next n ⟨made, given', hn, hmade, hI'⟩
      refine (ih hn (hI' next rfl)).mono ?_
      rintro r k ⟨made', given'', hk, hmade', hI''⟩
      refine ⟨made ++ made', given'', ?_, ?_, hI''⟩
      · rw [← List.append_assoc, List.flatMap_cons, ← List.append_assoc]
        exact hk
      · rw [Program.requests_cons, ← (show made = _ from hmade)]
        exact hmade'.append
    · rintro f n ⟨made, given', hn, hmade, -⟩
      refine ⟨made, given', hn.weaken fun s hs => ?_, ?_, nofun⟩
      · rw [List.flatMap_cons, ← List.append_assoc]
        exact List.mem_append_left _ hs
      · rw [Program.requests_cons]
        exact .stopped hmade

end Interpreter

/-- What a part of a call does to the machine `m`: it writes the storages, and the arena issues segments on
the requests that were wanted, as far as the part got.  If it has given a value, this and the segments have
the property `Q`. -/
def Footprint (ss : List Storage) (wanted : List (Nat × Nat)) (Q : List Segment → α → Machine σ → Prop)
    (m : Machine σ) (r : Except Fault α) (n : Machine σ) : Prop :=
  ∃ made given, Carves ss made given m n ∧ Asked wanted made r ∧ ∀ a, r = .ok a → Q given a n

namespace Footprint

variable {wanted wanted' : List (Nat × Nat)} {Q : List Segment → α → Machine σ → Prop}
  {R : List Segment → β → Machine σ → Prop} {x : Engine σ α}

theorem fault {f : Fault} (h : Carves ss [] given m n) : Footprint ss wanted Q m (.error f) n :=
  ⟨[], given, h, List.nil_prefix, nofun⟩

theorem of_carves {a : α} (h : Carves ss [] given m n) (hQ : Q given a n) : Footprint ss [] Q m (.ok a) n :=
  ⟨[], given, h, rfl, fun _ ha => by cases ha; exact hQ⟩

theorem withLog {log : Array LogEvent} {r : Except Fault α}
    (h : Footprint ss wanted Q { m with log := log } r n) :
    Footprint ss wanted Q m r n := by
  obtain ⟨made, given, hn, h⟩ := h
  exact ⟨made, given, (Carves.withLog m log).trans hn, h⟩

end Footprint

namespace Ends

variable {wanted wanted' : List (Nat × Nat)} {Q : List Segment → α → Machine σ → Prop}
  {R : List Segment → β → Machine σ → Prop} {x : Engine σ α} {f : α → Engine σ β}

theorem footprint (h : Ends x m (Footprint ss wanted Q m))
    (hf : ∀ a n made given, Carves ss made given m n → Q given a n →
      Ends (f a) n (Footprint ss' wanted' (fun given' => R (given ++ given')) n)) :
    Ends (x >>= f) m (Footprint (ss ++ ss') (wanted ++ wanted') R m) := by
  refine h.andThen ?_ ?_
  · rintro a n ⟨made, given, hn, rfl, hQ⟩
    refine (hf a n made given hn (hQ a rfl)).mono ?_
    rintro r k ⟨made', given', hk, hmade', hR⟩
    exact ⟨made ++ made', given ++ given', hn.trans hk, hmade'.append, hR⟩
  · rintro e n ⟨made, given, hn, hmade, -⟩
    exact ⟨made, given, hn.weaken (by simp +contextual), .stopped hmade, nofun⟩

theorem footprint_nil (h : Ends x m (Footprint ss wanted Q m))
    (hf : ∀ a n made given, Carves ss made given m n → Q given a n →
      Ends (f a) n (Footprint [] [] (fun given' => R (given ++ given')) n)) :
    Ends (x >>= f) m (Footprint ss wanted R m) := by
  have hbind := h.footprint hf
  rwa [List.append_nil, List.append_nil] at hbind

end Ends

namespace Engine

/-- **Taking a value apart touches only what the program names**: it writes the storages of the program, and
memory that the arena has issued on the requests of the program. -/
theorem unbox_footprint (v : Value) (p : Program) (m : Machine σ) :
    Ends (unbox v p) m (Footprint p.storages p.requests (fun _ _ _ => True) m) := by
  unfold unbox
  have hrun : Ends (Interpreter.run .unboxStep Interpreter.unboxStep p [v]) m _ :=
    Interpreter.run_stands (I := fun _ _ => True) (fun step => step.storage?.toList)
      (fun step stack _ _ _ _ h _ => Interpreter.unboxStep_stands step stack h) p (.refl m) trivial
  rw [List.nil_append, ← List.filterMap_eq_flatMap_toList] at hrun
  refine hrun.andThen ?_ ?_
  · rintro stack n ⟨made, given, hn, hmade, -⟩
    exact .lift_ok (fun _ _ => ⟨made, given, hn, hmade, fun _ _ => trivial⟩) fun _ _ =>
      ⟨made, given, hn, hmade.isPrefix, nofun⟩
  · rintro f n ⟨made, given, hn, hmade, -⟩
    exact ⟨made, given, hn, hmade, nofun⟩

/-- **Putting a value together touches no storage**, and no memory but what the arena has issued on the
requests of the program.  A segment that it gives is one of these. -/
theorem box_footprint (p : Program) (m : Machine σ) :
    Ends (box p) m (Footprint [] p.requests (fun given v _ => ∀ t, v = .segment t → t ∈ given) m) := by
  unfold box
  have hrun : Ends (Interpreter.run .boxStep Interpreter.boxStep p []) m _ :=
    Interpreter.run_stands (I := Interpreter.Owned) (fun _ => [])
      (fun step stack ss _ _ _ h hI => (List.append_nil ss).symm ▸ Interpreter.boxStep_stands step stack h hI) p
        (.refl m) nofun
  refine hrun.andThen ?_ ?_
  · rintro stack n ⟨made, given, hn, hmade, howned⟩
    refine .lift_ok (fun v hv => ⟨made, given, hn.weaken (by simp), hmade, ?_⟩) fun e _ =>
      ⟨made, given, hn.weaken (by simp), hmade.isPrefix, nofun⟩
    rintro _ ⟨⟩ t rfl
    obtain rfl : stack = [.segment t] := by
      unfold Interpreter.finishBox at hv
      split at hv <;> simp_all
    exact howned _ rfl t (by simp)
  · rintro f n ⟨made, given, hn, hmade, -⟩
    exact ⟨made, given, hn.weaken (by simp), hmade, nofun⟩

/-! ### Memory that is no part of any arena -/

theorem allocateOwned_footprint (size alignment : Nat) (m : Machine σ) :
    Ends (allocateOwned size alignment) m (Footprint [] [] (fun _ t _ => t.scope = .owned) m) := by
  unfold allocateOwned
  refine .get (.lift_bind ?_ fun _ _ => .fault (.refl m))
  rintro ⟨t, memory⟩ hrun
  obtain ⟨hscope, -, hreleased, hnew⟩ := Segment.of_allocate_eq_ok hrun
  refine Ends.pure (m := { m with memory := _ })
    (.of_carves ⟨rfl, rfl, fun _ _ => rfl, .nil _, fun hm => ?_⟩ hscope)
  have hgrows := (hnew hm.memory).memory
  exact ⟨hm.evolves hgrows.toExtends hreleased, by simp, fun a ha _ => hgrows.bytes a (by omega)⟩

theorem toOwned_footprint (s : Segment) (m : Machine σ) :
    Ends (toOwned s) m (Footprint [] [] (fun _ t _ => t.scope = .owned) m) := by
  unfold toOwned
  refine .get (.lift_bind ?_ fun _ _ => .fault (.refl m))
  rintro ⟨t, _⟩ hrun
  obtain ⟨memory, hallocate, rfl⟩ := Segment.of_toOwned_eq_ok hrun
  obtain ⟨hscope, -, hreleased, hnew⟩ := Segment.of_allocate_eq_ok hallocate
  refine Ends.pure (m := { m with memory := _ })
    (.of_carves ⟨rfl, rfl, fun _ _ => rfl, .nil _, fun hm => ?_⟩ hscope)
  obtain ⟨-, -, hgrows, -, hfresh, hend⟩ := hnew hm.memory
  have htop := hgrows.sound.top_le
  refine ⟨hm.evolves (hgrows.toExtends.trans (hgrows.sound.copy ..)) hreleased, by simp, fun a ha _ => ?_⟩
  dsimp only
  rw [Memory.bytes_copy, if_neg (by omega), hgrows.bytes a (by omega)]

end Engine

end ForeignCall
