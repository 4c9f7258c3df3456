import ForeignCall.Proofs.CallCheck
import ForeignCall.Proofs.Transport.Marshalling

/-!
# The checks of a call are total

* `Value.Violates`: what is wrong with an argument that does not fit its layout;
* `Descriptor.Rejects`: the error for arguments that do not fit a descriptor.  It is about their number, or
  about the first of them that does not fit;
* `CallingSequence.checkArguments_total`: the check either accepts arguments that fit or reports that error;
* `Descriptor.Accepts`, `Upcall.checkResult_total`: the same for what the target of an upcall returns.
-/

namespace ForeignCall

variable {d : Descriptor} {s : CallingSequence} {v : Value} {b : Binding} {args vs : List Value}
  {bs : List Binding} {i : Nat}

/-- The error for an argument that has another carrier than its layout, or is too short a segment. -/
inductive Value.Violates (v : Value) (l : Layout) (index : Nat) : CallError → Prop
  | carrier : v.carrier? ≠ some l.carrier → v.Violates l index (.argumentType index l.carrier v.carrier?)
  | length {s : Segment} {size : Nat} : v = .segment s → l.carrier = .segment → l.byteSize = .ok size →
      s.length < size →
    v.Violates l index (.segmentTooSmall index size s.length)

/-- The error for arguments of the wrong number, or else for the first of them that does not fit. -/
inductive Descriptor.Rejects (d : Descriptor) (args : List Value) : CallError → Prop
  | count : args.length ≠ d.args.length → d.Rejects args (.argumentCount d.args.length args.length)
  | argument {vs vs' : List Value} {v : Value} {ls ls' : List Layout} {l : Layout} {e : CallError} :
    args.length = d.args.length → args = vs ++ v :: vs' → d.args = ls ++ l :: ls' →
      List.Forall₂ Value.Fits vs ls →
    v.Violates l vs.length e → d.Rejects args e

/-- The binding has the carrier of its layout, which has a size if it travels as a segment. -/
structure Binding.Regular (b : Binding) : Prop where
  carrier : b.carrier = b.layout.carrier
  sized : b.carrier = .segment → ∃ size, b.layout.byteSize = .ok size

namespace CallingSequence

theorem checkArgument_total (hb : b.Regular) (i : Nat) (v : Value) :
    (v.Fits b.layout ∧ checkArgument i v b = .ok ()) ∨
      ∃ e, v.Violates b.layout i e ∧ checkArgument i v b = .error (.error e) := by
  unfold checkArgument
  by_cases hcarrier : v.carrier? = some b.carrier
  · rw [if_neg (by simpa using hcarrier)]
    have hfits : v.carrier? = some b.layout.carrier := hb.carrier ▸ hcarrier
    cases v with
    | segment s =>
      have hsegment : b.carrier = .segment := (Option.some.inj hcarrier).symm
      obtain ⟨size, hsize⟩ := hb.sized hsegment
      have hlift : (liftM b.layout.byteSize : Except (Halt Overflow CallError) Nat) = .ok size :=
        lift_fault_eq_ok.2 hsize
      dsimp only
      rw [hlift, ok_bind]
      by_cases hlength : s.length < size
      · rw [if_pos hlength]
        exact .inr ⟨_, .length rfl (hb.carrier ▸ hsegment) hsize hlength, rfl⟩
      · rw [if_neg hlength]
        refine .inl ⟨⟨hfits, fun t ht => ⟨size, hsize, ?_⟩⟩, rfl⟩
        cases ht
        omega
    | _ => exact .inl ⟨⟨hfits, by simp⟩, rfl⟩
  · rw [if_pos hcarrier, hb.carrier]
    exact .inr ⟨_, .carrier (hb.carrier ▸ hcarrier), rfl⟩

/-- The check of as many arguments as there are bindings goes on up to the first that does not fit. -/
theorem checkEach_total (hbs : ∀ b ∈ bs, b.Regular) (hlength : vs.length = bs.length) (i : Nat) :
    (List.Forall₂ Value.Fits vs (bs.map (·.layout)) ∧ checkEach i vs bs = .ok ()) ∨
      ∃ us v us' ls l ls' e, vs = us ++ v :: us' ∧ bs.map (·.layout) = ls ++ l :: ls' ∧
        List.Forall₂ Value.Fits us ls ∧
        v.Violates l (i + us.length) e ∧ checkEach i vs bs = .error (.error e) := by
  induction bs generalizing vs i with
  | nil =>
    obtain rfl := List.length_eq_zero_iff.1 hlength
    exact .inl ⟨.nil, rfl⟩
  | cons b bs ih =>
    cases vs with
    | nil => cases hlength
    | cons v vs =>
      rcases checkArgument_total (hbs b (by simp)) i v with ⟨hfits, hcheck⟩ | ⟨e, hviolates, hcheck⟩
      · have hnext : checkEach i (v :: vs) (b :: bs) = checkEach (i + 1) vs bs := by
          rw [checkEach, hcheck, ok_bind]
        rw [hnext]
        rcases ih (fun b' hb' => hbs b' (by simp [hb'])) (by simpa using hlength) (i + 1) with
          ⟨hrest, hrun⟩ | ⟨us, w, us', ls, l, ls', e, rfl, hls, hus, hviolates, hrun⟩
        · exact .inl ⟨.cons hfits hrest, hrun⟩
        · refine .inr ⟨v :: us, w, us', b.layout :: ls, l, ls', e, rfl, ?_, .cons hfits hus, ?_, hrun⟩
          · rw [List.map_cons, hls, List.cons_append]
          · rwa [List.length_cons, show i + (us.length + 1) = i + 1 + us.length by omega]
      · refine .inr ⟨[], v, vs, [], b.layout, bs.map (·.layout), e, rfl, rfl, .nil, hviolates, ?_⟩
        rw [checkEach, hcheck]
        rfl

/-- **The check either accepts arguments that fit or reports what is wrong.** -/
theorem checkArguments_total (hbs : ∀ b ∈ s.arguments, b.Regular)
    (hlayouts : s.arguments.map (·.layout) = d.args) (args : List Value) :
    (List.Forall₂ Value.Fits args d.args ∧ s.checkArguments args = .ok ()) ∨
      ∃ e, d.Rejects args e ∧ s.checkArguments args = .error (.error e) := by
  have hlength : s.arguments.length = d.args.length := by rw [← hlayouts, List.length_map]
  unfold checkArguments
  by_cases hcount : args.length = s.arguments.length
  · rw [if_neg (by simpa using hcount)]
    rcases checkEach_total hbs hcount 0 with
      ⟨hfits, hrun⟩ | ⟨us, v, us', ls, l, ls', e, hargs, hls, hus, hviolates, hrun⟩
    · exact .inl ⟨hlayouts ▸ hfits, hrun⟩
    · rw [Nat.zero_add] at hviolates
      exact .inr ⟨e, .argument (hcount.trans hlength) hargs (hlayouts ▸ hls) hus hviolates, hrun⟩
  · rw [if_pos hcount, hlength]
    exact .inr ⟨_, .count (hlength ▸ hcount), rfl⟩

end CallingSequence

theorem Descriptor.Rejects.not_fits {e : CallError} (h : d.Rejects args e) :
    ¬ List.Forall₂ Value.Fits args d.args := by
  intro hfits
  cases h with
  | count hcount => exact hcount hfits.length_eq
  | @argument vs vs' v ls ls' l e hlength hargs hlayouts hvs hviolates =>
    have htail := List.forall₂_drop vs.length hfits
    rw [hargs, hlayouts, List.drop_left, hvs.length_eq, List.drop_left] at htail
    have hv : v.Fits l := (List.forall₂_cons.1 htail).1
    cases hviolates with
    | carrier hcarrier => exact hcarrier hv.carrier
    | length hs hl hsize hlt =>
      obtain ⟨size, hsize', hle⟩ := hv.length _ hs
      obtain rfl := ok_unique hsize hsize'
      omega

/-! ### Results -/

/-- What a target may return: `void` if there is no result, otherwise what carries it, and a segment has to
cover it. -/
def Descriptor.Accepts (d : Descriptor) (v : Value) : Prop :=
  match d.result with
  | none => v = .void
  | some l => v.Fits l

theorem Descriptor.accepts_iff {l : Layout} (hd : d.result = some l) : d.Accepts v ↔ v.Fits l := by
  unfold Accepts
  rw [hd]

theorem Descriptor.Accepts.carrier (h : d.Accepts v) : v.carrier? = d.result.map Layout.carrier := by
  cases hd : d.result with
  | none =>
    obtain rfl : v = .void := by
      unfold Accepts at h
      rwa [hd] at h
    rfl
  | some l => exact ((accepts_iff hd).1 h).carrier

theorem Descriptor.accepts_of_carrier (hcarrier : v.carrier? = d.result.map Layout.carrier)
    (hv : v.carrier? ≠ some .segment) :
    d.Accepts v := by
  cases hd : d.result with
  | none =>
    unfold Accepts
    rw [hd] at hcarrier ⊢
    cases v <;> first | rfl | cases hcarrier
  | some l =>
    rw [hd] at hcarrier
    refine (accepts_iff hd).2 ⟨hcarrier, fun t ht => absurd ?_ hv⟩
    rw [ht]
    rfl

/-- **The check either accepts a result or reports what was expected and what was found.** -/
theorem Upcall.checkResult_total {size : Nat} (hcarrier : s.resultCarrier = d.result.map Layout.carrier)
    (hlength : s.resultLength = .ok size) (hsize : ∀ l ∈ d.result, l.byteSize = .ok size) (v : Value) :
    (d.Accepts v ∧ checkResult s v = .ok ()) ∨
      (¬ d.Accepts v ∧
        checkResult s v = .error (.error (.resultType (d.result.map Layout.carrier) v.carrier?))) := by
  rw [checkResult_eq hlength, hcarrier]
  unfold ForeignCall.checkResult checkResultCarrier
  by_cases hv : v.carrier? = d.result.map Layout.carrier
  · rw [if_pos hv, ok_bind]
    cases v with
    | segment t =>
      obtain ⟨l, hl, hsegment⟩ := Option.map_eq_some_iff.1 hv.symm
      rw [Descriptor.accepts_iff hl, ← hv]
      by_cases hshort : t.length < size
      · refine .inr ⟨fun hfits => ?_, ?_⟩
        · obtain ⟨size', hsize', hle⟩ := hfits.length t rfl
          obtain rfl := ok_unique (hsize l hl) hsize'
          omega
        · rw [checkResultLength, if_pos hshort]
          rfl
      · refine .inl ⟨⟨hsegment ▸ rfl, fun t' ht' => ⟨size, hsize l hl, ?_⟩⟩, ?_⟩
        · cases ht'
          omega
        · rw [checkResultLength, if_neg hshort]
          rfl
    | _ => exact .inl ⟨Descriptor.accepts_of_carrier hv (fun h => by cases h), rfl⟩
  · rw [if_neg hv]
    exact .inr ⟨fun haccepts => hv haccepts.carrier, rfl⟩

end ForeignCall
