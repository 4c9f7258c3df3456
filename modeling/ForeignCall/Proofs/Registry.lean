import ForeignCall.Proofs.Calls.Outside
import Mathlib.Data.List.Nodup

/-!
# The registry of native functions over time

* `Registry.Operation`: an operation on a registry, with what it gave;
* `Registry.History`: the registries that operations lead to, in any order and as many as one likes;
* `Registry.Tracks`: the maps of a registry, read off the operations.  Every operation keeps this as long as
  addresses are left (`Registry.History.tracks`);
* `Registry.Leads`: code that changes a registry through its operations only.  A call of such code is an
  operation itself, with what the code does after it;
* `Registry.History.consistent`: what follows for names, addresses, linked functions and entry points.
-/

namespace ForeignCall

variable {φ τ σ κ α : Type}

namespace Registry

/-! ### Operations -/

/-- An operation on a registry, with what it gave.  A call is entered when it starts; what the code does
that it runs comes after it. -/
inductive Operation (φ τ : Type) where
  | define (name : String) (code : φ) (symbol : Symbol)
  | lookup (name : String) (answer : Except LinkError Symbol)
  | link (symbol : Symbol) (answer : Except LinkError (NativeFunction φ))
  | enter (e : UpcallEntry τ) (entry : Word)
  | call (f : NativeFunction φ)
  | callUpcall (entry : Word) (answer : Except NativeError (UpcallEntry τ))

/-- The address that an operation hands out. -/
def Operation.address? : Operation φ τ → Option Word
  | define _ _ symbol => some symbol.address
  | enter _ entry => some entry
  | _ => none

/-- The symbol and the code that an operation defines a name as. -/
def Operation.defines? (name : String) : Operation φ τ → Option (Symbol × φ)
  | define name' code symbol => if name' = name then some (symbol, code) else none
  | _ => none

/-- An operation takes a registry to the next one, after others.  Only functions that have been linked are
called. -/
inductive Step (ops : List (Operation φ τ)) (r : Registry φ τ) : Operation φ τ → Registry φ τ → Prop
  | define (name : String) (code : φ) :
      Step ops r (.define name code (r.define name code).1) (r.define name code).2
  | lookup (name : String) : Step ops r (.lookup name (r.lookup name)) r
  | link (symbol : Symbol) : Step ops r (.link symbol (r.downcallStub symbol)) r
  | enter (e : UpcallEntry τ) : Step ops r (.enter e (r.addUpcall e).1) (r.addUpcall e).2
  | call {symbol : Symbol} {f : NativeFunction φ} : .link symbol (.ok f) ∈ ops → Step ops r (.call f) r
  | callUpcall (entry : Word) : Step ops r (.callUpcall entry (r.upcall entry)) r

/-- The registries that operations lead to.  The latest operation comes first. -/
inductive History : List (Operation φ τ) → Registry φ τ → Prop
  | empty : History [] .empty
  | step {ops : List (Operation φ τ)} {op : Operation φ τ} {r r' : Registry φ τ} :
    History ops r → Step ops r op r' → History (op :: ops) r'

/-- The addresses that operations have handed out. -/
def handedOut (ops : List (Operation φ τ)) : List Word := ops.filterMap Operation.address?

/-- The latest definition of a name. -/
def latest? (name : String) (ops : List (Operation φ τ)) : Option (Symbol × φ) :=
  ops.findSome? (Operation.defines? name)

section Operations

variable {ops : List (Operation φ τ)} {op op' : Operation φ τ} {a : Word} {name : String}
  {symbol : Symbol} {code : φ}

theorem mem_handedOut (h : op ∈ ops) (ha : op.address? = some a) : a ∈ handedOut ops :=
  List.mem_filterMap.2 ⟨op, h, ha⟩

theorem eq_of_address? (hnodup : (handedOut ops).Nodup) (h : op ∈ ops) (h' : op' ∈ ops)
    (ha : op.address? = some a) (ha' : op'.address? = some a) : op = op' := by
  induction ops with
  | nil => cases h
  | cons first ops ih =>
    have hfirst : first.address? = some a → a ∉ handedOut ops := by
      intro hfirst
      unfold handedOut at hnodup
      rw [List.filterMap_cons_some hfirst] at hnodup
      exact (List.nodup_cons.1 hnodup).1
    have hrest : (handedOut ops).Nodup := hnodup.sublist ((List.sublist_cons_self first ops).filterMap _)
    rcases List.mem_cons.1 h with rfl | hop
    · rcases List.mem_cons.1 h' with rfl | hop'
      · rfl
      · exact absurd (mem_handedOut hop' ha') (hfirst ha)
    · rcases List.mem_cons.1 h' with rfl | hop'
      · exact absurd (mem_handedOut hop ha) (hfirst ha')
      · exact ih hrest hop hop'

theorem mem_of_latest? (h : latest? name ops = some (symbol, code)) : .define name code symbol ∈ ops := by
  obtain ⟨op, hop, hdefines⟩ := List.exists_of_findSome?_eq_some h
  cases op <;> simp only [Operation.defines?, reduceCtorEq] at hdefines
  split at hdefines
  · next hname =>
    cases hdefines
    rwa [hname] at hop
  · cases hdefines

theorem latest?_cons_of_defines? (h : op.defines? name = none) :
    latest? name (op :: ops) = latest? name ops := by
  unfold latest?
  rw [List.findSome?_cons, h]

theorem latest?_define : latest? name (.define name code symbol :: ops) = some (symbol, code) := by
  unfold latest?
  rw [List.findSome?_cons, Operation.defines?, if_pos rfl]

theorem latest?_define_of_ne {n : String} (h : n ≠ name) :
    latest? n (.define name code symbol :: ops) = latest? n ops :=
  latest?_cons_of_defines? (if_neg h.symm)

end Operations

/-! ### Addresses -/

/-- The address that is handed out after `i` others. -/
def addressAt (i : Nat) : Word := BitVec.ofNat 64 (firstAddress + i * addressStep)

theorem addressAt_injective {i j : Nat} (hi : i < 2 ^ 59) (hj : j < 2 ^ 59)
    (h : addressAt i = addressAt j) : i = j := by
  have htoNat := congrArg BitVec.toNat h
  unfold addressAt firstAddress addressStep at htoNat
  rw [BitVec.toNat_ofNat, BitVec.toNat_ofNat, Nat.mod_eq_of_lt (by omega),
    Nat.mod_eq_of_lt (by omega)] at htoNat
  omega

/-! ### Maps -/

section Lookup

variable [BEq κ] [LawfulBEq κ] [DecidableEq κ]

theorem lookup_cons (key k : κ) (a : α) (entries : List (κ × α)) :
    List.lookup k ((key, a) :: entries) = if k = key then some a else entries.lookup k := by
  rw [List.lookup_cons]
  by_cases hk : k = key
  · simp [hk]
  · simp [hk, beq_false_of_ne hk]

theorem lookup_without (key k : κ) (entries : List (κ × α)) :
    (without key entries).lookup k = if k = key then none else entries.lookup k := by
  induction entries with
  | nil => simp [without]
  | cons entry entries ih =>
    obtain ⟨k', a⟩ := entry
    unfold without at ih ⊢
    by_cases hkey : k' = key
    · subst hkey
      rw [List.filter_cons_of_neg (by simp), ih, lookup_cons]
      split <;> rfl
    · rw [List.filter_cons_of_pos (by simpa using hkey), lookup_cons, lookup_cons, ih]
      by_cases hk : k = k'
      · rw [if_pos hk, if_pos hk, if_neg (hk ▸ hkey)]
      · rw [if_neg hk, if_neg hk]

end Lookup

section Maps

variable (r : Registry φ τ) (name : String) (code : φ)

theorem lookup_names_define (n : String) :
    (r.define name code).2.names.lookup n = if n = name then some r.nextAddress else r.names.lookup n := by
  unfold define
  rw [lookup_cons, lookup_without]
  split <;> rfl

theorem function?_define (a : Word) :
    (r.define name code).2.function? a = if a = r.nextAddress then some ⟨name, code⟩
      else if r.names.lookup name = some a then none else r.function? a := by
  unfold function? define remaining
  rw [lookup_cons]
  cases h : r.names.lookup name with
  | none => simp
  | some old => simp [lookup_without, eq_comm]

theorem lookup_upcalls_addUpcall (e : UpcallEntry τ) (a : Word) :
    (r.addUpcall e).2.upcalls.lookup a = if a = r.nextAddress then some e else r.upcalls.lookup a := by
  unfold addUpcall
  rw [lookup_cons]

end Maps

/-- The maps of a registry, read off the operations that have led to it. -/
structure Tracks (ops : List (Operation φ τ)) (r : Registry φ τ) : Prop where
  addresses : handedOut ops = ((List.range r.count).map addressAt).reverse
  names : ∀ name, r.names.lookup name = (latest? name ops).map (·.1.address)
  functions : ∀ a f, r.function? a = some f ↔ ∃ current, latest? f.name ops = some (current, f.code) ∧
    current.address = a
  upcalls : ∀ a e, r.upcalls.lookup a = some e ↔ .enter e a ∈ ops

namespace Tracks

variable {ops : List (Operation φ τ)} {r : Registry φ τ}

theorem empty : Tracks ([] : List (Operation φ τ)) .empty := by
  constructor
  · rfl
  · exact fun _ => rfl
  · exact fun _ _ => ⟨nofun, nofun⟩
  · exact fun _ _ => ⟨nofun, nofun⟩

theorem nodup (h : Tracks ops r) (hcount : r.count ≤ 2 ^ 59) : (handedOut ops).Nodup := by
  rw [h.addresses, List.nodup_reverse]
  refine List.Nodup.map_on (fun i hi j hj => ?_) List.nodup_range
  rw [List.mem_range] at hi hj
  exact addressAt_injective (by omega) (by omega)

theorem fresh (h : Tracks ops r) (hcount : r.count < 2 ^ 59) : r.nextAddress ∉ handedOut ops := by
  rw [h.addresses, List.mem_reverse, List.mem_map]
  rintro ⟨i, hi, heq⟩
  rw [List.mem_range] at hi
  have := addressAt_injective (by omega) hcount heq
  omega

theorem look (h : Tracks ops r) {op : Operation φ τ} (haddress : op.address? = none)
    (hdefines : ∀ name, op.defines? name = none) : Tracks (op :: ops) r := by
  have henter : ∀ e a, op ≠ .enter e a := by
    rintro e a rfl
    cases haddress
  constructor
  · exact (List.filterMap_cons_none haddress).trans h.addresses
  · intro name
    rw [latest?_cons_of_defines? (hdefines name), h.names]
  · intro a f
    rw [latest?_cons_of_defines? (hdefines f.name), h.functions]
  · intro a e
    rw [h.upcalls, List.mem_cons, or_iff_right (henter e a).symm]

theorem addresses_cons (h : Tracks ops r) {op : Operation φ τ} (haddress : op.address? = some r.nextAddress) :
    handedOut (op :: ops) = ((List.range (r.count + 1)).map addressAt).reverse := by
  rw [List.range_succ, List.map_append, List.reverse_append, ← h.addresses]
  exact List.filterMap_cons_some haddress

/-- A name leads to an address iff the function there has that name. -/
theorem names_iff (h : Tracks ops r) (name : String) (a : Word) :
    r.names.lookup name = some a ↔ ∃ f, r.function? a = some f ∧ f.name = name := by
  rw [h.names, Option.map_eq_some_iff]
  constructor
  · rintro ⟨⟨current, code⟩, hlatest, haddress⟩
    exact ⟨⟨name, code⟩, (h.functions _ _).2 ⟨current, hlatest, haddress⟩, rfl⟩
  · rintro ⟨f, hf, rfl⟩
    obtain ⟨current, hlatest, haddress⟩ := (h.functions _ _).1 hf
    exact ⟨_, hlatest, haddress⟩

/-- What a definition does to the functions: it takes the place of the one that had the name. -/
theorem functions_define (h : Tracks ops r) (hcount : r.count < 2 ^ 59) (name : String) (code : φ) (a : Word)
    (f : NativeFunction φ) : (r.define name code).2.function? a = some f ↔
      ∃ current, latest? f.name (.define name code (r.define name code).1 :: ops) = some (current, f.code) ∧
        current.address = a := by
  rw [function?_define]
  by_cases hn : f.name = name
  · -- only the new function has the name
    rw [hn, latest?_define]
    constructor
    · intro hf
      by_cases ha : a = r.nextAddress
      · rw [if_pos ha] at hf
        cases hf
        exact ⟨_, rfl, ha.symm⟩
      · rw [if_neg ha] at hf
        split at hf
        · cases hf
        · next hold => exact absurd ((h.names_iff name a).2 ⟨f, hf, hn⟩) hold
    · rintro ⟨current, heq, rfl⟩
      cases heq
      cases hn
      exact if_pos rfl
  · -- a function of another name stays where it is, and that is not at the new address
    rw [latest?_define_of_ne hn, ← h.functions]
    by_cases ha : a = r.nextAddress
    · rw [if_pos ha]
      constructor
      · intro heq
        cases heq
        exact absurd rfl hn
      · intro hf
        obtain ⟨current, hlatest, haddress⟩ := (h.functions a f).1 hf
        exact absurd (ha ▸ haddress ▸ mem_handedOut (mem_of_latest? hlatest) rfl) (h.fresh hcount)
    · rw [if_neg ha]
      split
      · next hold =>
        obtain ⟨g, hg, hname⟩ := (h.names_iff name a).1 hold
        rw [hg]
        exact ⟨nofun, fun heq => absurd (by cases heq; exact hname) hn⟩
      · exact Iff.rfl

/-- **A definition keeps the maps in step.** -/
theorem define (h : Tracks ops r) (hcount : r.count < 2 ^ 59) (name : String) (code : φ) :
    Tracks (.define name code (r.define name code).1 :: ops) (r.define name code).2 := by
  constructor
  · exact h.addresses_cons rfl
  · intro n
    rw [lookup_names_define]
    by_cases hn : n = name
    · rw [if_pos hn, hn, latest?_define]
      rfl
    · rw [if_neg hn, latest?_define_of_ne hn, h.names]
  · exact h.functions_define hcount name code
  · intro a e
    rw [List.mem_cons, or_iff_right nofun]
    exact h.upcalls a e

/-- **So does an entry point.** -/
theorem enter (h : Tracks ops r) (hcount : r.count < 2 ^ 59) (e : UpcallEntry τ) :
    Tracks (.enter e (r.addUpcall e).1 :: ops) (r.addUpcall e).2 := by
  constructor
  · exact h.addresses_cons rfl
  · intro name
    rw [latest?_cons_of_defines? rfl]
    exact h.names name
  · intro a f
    rw [latest?_cons_of_defines? rfl]
    exact h.functions a f
  · intro a e'
    rw [lookup_upcalls_addUpcall, List.mem_cons]
    by_cases ha : a = r.nextAddress
    · rw [if_pos ha, Option.some_inj]
      constructor
      · rintro rfl
        exact .inl (by rw [ha]; rfl)
      · rintro (heq | hmem)
        · cases heq
          rfl
        · exact absurd (ha ▸ mem_handedOut hmem rfl) (h.fresh hcount)
    · rw [if_neg ha, h.upcalls, or_iff_right]
      intro heq
      cases heq
      exact ha rfl

/-- **Every operation does.** -/
theorem step (h : Tracks ops r) {op : Operation φ τ} {r' : Registry φ τ} (hstep : Step ops r op r')
    (hcount : r'.count ≤ 2 ^ 59) : Tracks (op :: ops) r' := by
  cases hstep with
  | define name code => exact h.define hcount name code
  | lookup name => exact h.look rfl fun _ => rfl
  | link symbol => exact h.look rfl fun _ => rfl
  | enter e => exact h.enter hcount e
  | call _ => exact h.look rfl fun _ => rfl
  | callUpcall entry => exact h.look rfl fun _ => rfl

end Tracks

theorem downcallStub_eq_ok {r : Registry φ τ} {symbol : Symbol} {f : NativeFunction φ} :
    r.downcallStub symbol = .ok f ↔ r.function? symbol.address = some f := by
  unfold downcallStub
  cases r.function? symbol.address <;> simp

theorem downcallStub_eq_error {r : Registry φ τ} {symbol : Symbol} (h : ∀ f, r.downcallStub symbol ≠ .ok f) :
    r.downcallStub symbol = .error (.unknownSymbol symbol.text) := by
  unfold downcallStub at h ⊢
  split
  · next f hf => exact absurd (by rw [hf]) (h f)
  · rfl

theorem upcall_eq_ok {r : Registry φ τ} {entry : Word} {e : UpcallEntry τ} :
    r.upcall entry = .ok e ↔ r.upcalls.lookup entry = some e := by
  unfold upcall
  cases r.upcalls.lookup entry <;> simp

/-! ### What has been done -/

theorem Step.count_le {ops : List (Operation φ τ)} {op : Operation φ τ} {r r' : Registry φ τ}
    (h : Step ops r op r') :
    r.count ≤ r'.count := by
  cases h with
  | define name code => exact Nat.le_succ _
  | enter e => exact Nat.le_succ _
  | _ => exact Nat.le_refl _

namespace History

variable {ops : List (Operation φ τ)} {op : Operation φ τ} {r : Registry φ τ} {symbol : Symbol}
  {f : NativeFunction φ}

theorem tracks (h : History ops r) (hcount : r.count ≤ 2 ^ 59) : Tracks ops r := by
  induction h with
  | empty => exact .empty
  | step _ hstep ih => exact (ih (hstep.count_le.trans hcount)).step hstep hcount

/-- Every operation was once the latest one. -/
theorem exists_step (h : History ops r) (hop : op ∈ ops) :
    ∃ newer older r₀ r₁, ops = newer ++ op :: older ∧ History older r₀ ∧ Step older r₀ op r₁ ∧
      r₁.count ≤ r.count := by
  induction h with
  | empty => cases hop
  | @step ops latest r r' hbefore hstep ih =>
    rcases List.mem_cons.1 hop with rfl | hop
    · exact ⟨[], ops, r, r', rfl, hbefore, hstep, Nat.le_refl _⟩
    · obtain ⟨newer, older, r₀, r₁, rfl, hrest⟩ := ih hop
      exact ⟨latest :: newer, older, r₀, r₁, rfl, hrest.1, hrest.2.1, hrest.2.2.trans hstep.count_le⟩

theorem name_eq {name : String} {code : φ} (h : History ops r) (hop : .define name code symbol ∈ ops) :
    symbol.name = name := by
  obtain ⟨newer, older, r₀, r₁, -, -, hstep, -⟩ := h.exists_step hop
  cases hstep
  rfl

/-- **A linked function is the one that was defined at the address.** -/
theorem exists_define (h : History ops r) (hcount : r.count ≤ 2 ^ 59) (hop : .link symbol (.ok f) ∈ ops) :
    ∃ current, .define f.name f.code current ∈ ops ∧ current.address = symbol.address := by
  obtain ⟨newer, older, r₀, r₁, rfl, hbefore, hstep, hle⟩ := h.exists_step hop
  generalize hanswer : (Except.ok f : Except LinkError (NativeFunction φ)) = answer at hstep
  cases hstep with
  | link symbol =>
    have hfunction := downcallStub_eq_ok.1 hanswer.symm
    obtain ⟨current, hlatest, haddress⟩ := ((hbefore.tracks (hle.trans hcount)).functions _ f).1 hfunction
    exact ⟨current, List.mem_append_right _ (List.mem_cons_of_mem _ (mem_of_latest? hlatest)), haddress⟩

theorem exists_link (h : History ops r) (hop : .call f ∈ ops) : ∃ symbol, .link symbol (.ok f) ∈ ops := by
  obtain ⟨newer, older, r₀, r₁, rfl, -, hstep, -⟩ := h.exists_step hop
  cases hstep with
  | call hlinked => exact ⟨_, List.mem_append_right _ (List.mem_cons_of_mem _ hlinked)⟩

/-- **What is called at an entry point is what was entered there.** -/
theorem entered {e : UpcallEntry τ} {entry : Word} (h : History ops r) (hcount : r.count ≤ 2 ^ 59)
    (hop : .callUpcall entry (.ok e) ∈ ops) : .enter e entry ∈ ops := by
  obtain ⟨newer, older, r₀, r₁, rfl, hbefore, hstep, hle⟩ := h.exists_step hop
  generalize hanswer : (Except.ok e : Except NativeError (UpcallEntry τ)) = answer at hstep
  cases hstep with
  | callUpcall entry =>
    have hentry := upcall_eq_ok.1 hanswer.symm
    have hentered := ((hbefore.tracks (hle.trans hcount)).upcalls entry e).1 hentry
    exact List.mem_append_right _ (List.mem_cons_of_mem _ hentered)

end History

/-- What holds of a registry after some operations. -/
structure Consistent (ops : List (Operation φ τ)) (r : Registry φ τ) : Prop where
  /-- No address is handed out twice. -/
  distinct : (handedOut ops).Nodup
  /-- No function has ever been where an entry point is. -/
  apart : ∀ name code symbol e entry, .define name code symbol ∈ ops → .enter e entry ∈ ops →
    symbol.address ≠ entry
  /-- A name leads to an address iff the function there has that name. -/
  named : ∀ name a, r.names.lookup name = some a ↔ ∃ f, r.function? a = some f ∧ f.name = name
  /-- Looking up a name gives the symbol of its latest definition. -/
  lookup : ∀ name, r.lookup name = match latest? name ops with
    | some (symbol, _) => .ok symbol
    | none => .error (.unknownSymbol name)
  /-- A symbol can be linked iff its address is the one of a latest definition, and then that is what it is
  linked to. -/
  linkable : ∀ symbol f, r.downcallStub symbol = .ok f ↔
    ∃ current, latest? f.name ops = some (current, f.code) ∧ current.address = symbol.address
  /-- Otherwise the symbol is unknown. -/
  unknown : ∀ symbol, (∀ f, r.downcallStub symbol ≠ .ok f) →
    r.downcallStub symbol = .error (.unknownSymbol symbol.text)
  /-- The symbol of a definition is unknown once its name has been defined anew. -/
  superseded : ∀ newer older name code symbol, ops = newer ++ .define name code symbol :: older →
    (latest? name newer).isSome → r.downcallStub symbol = .error (.unknownSymbol symbol.text)
  /-- What has been linked is the function that was defined at the address, whatever was defined since. -/
  linked : ∀ symbol f, .link symbol (.ok f) ∈ ops →
    ∃ current, .define f.name f.code current ∈ ops ∧ current.address = symbol.address
  /-- A function is called as it was linked. -/
  called : ∀ f, .call f ∈ ops → ∃ symbol, .link symbol (.ok f) ∈ ops
  /-- An entry point keeps its handler and the layout of its frame. -/
  kept : ∀ e entry, .enter e entry ∈ ops →
    r.upcall entry = .ok e ∧ r.upcallFrame entry = Halt.ofFault (Frame.new e.layout)
  /-- So what has been called there is what was entered. -/
  upcalled : ∀ e entry, .callUpcall entry (.ok e) ∈ ops → .enter e entry ∈ ops

namespace History

variable {ops : List (Operation φ τ)} {r : Registry φ τ}

theorem lookup_eq (h : History ops r) (ht : Tracks ops r) (name : String) :
    r.lookup name = match latest? name ops with
      | some (symbol, _) => .ok symbol
      | none => .error (.unknownSymbol name) := by
  unfold Registry.lookup
  rw [ht.names]
  cases hlatest : latest? name ops with
  | none => rfl
  | some definition =>
    obtain ⟨⟨name', address⟩, code⟩ := definition
    obtain rfl : name' = name := h.name_eq (mem_of_latest? hlatest)
    rfl

theorem downcallStub_superseded (ht : Tracks ops r) (hnodup : (handedOut ops).Nodup)
    {newer older : List (Operation φ τ)} {name : String} {code : φ} {symbol : Symbol}
    (hops : ops = newer ++ .define name code symbol :: older) (hnewer : (latest? name newer).isSome)
    (f : NativeFunction φ) : r.downcallStub symbol ≠ .ok f := by
  rw [Ne, downcallStub_eq_ok, ht.functions]
  rintro ⟨current, hlatest, haddress⟩
  -- the only definition at the address is the earlier one, so that it would have to be the latest one
  have hdefined : .define name code symbol ∈ ops := hops ▸ List.mem_append_right _ List.mem_cons_self
  have hsame := eq_of_address? hnodup (mem_of_latest? hlatest) hdefined rfl (congrArg some haddress.symm)
  injection hsame with hname hcode hsymbol
  obtain ⟨⟨symbol', code'⟩, hlatest'⟩ := Option.isSome_iff_exists.1 hnewer
  have hfirst : latest? name ops = some (symbol', code') := by
    unfold latest? at hlatest' ⊢
    rw [hops, List.findSome?_append, hlatest']
    rfl
  rw [hname, hfirst] at hlatest
  cases hlatest
  rw [hops] at hnodup
  unfold handedOut at hnodup
  rw [List.filterMap_append, List.nodup_append] at hnodup
  exact hnodup.2.2 _ (mem_handedOut (mem_of_latest? hlatest') rfl) _
    (mem_handedOut List.mem_cons_self rfl) haddress

theorem consistent_maps (h : History ops r) (hcount : r.count < 2 ^ 59) : Consistent ops r := by
  have ht := h.tracks hcount.le
  have hnodup := ht.nodup hcount.le
  exact {
    distinct := hnodup
    apart := by
      intro name code symbol e entry hdefine henter haddress
      cases eq_of_address? hnodup hdefine henter rfl (congrArg some haddress.symm)
    named := ht.names_iff
    lookup := h.lookup_eq ht
    linkable := fun symbol f => downcallStub_eq_ok.trans (ht.functions _ f)
    unknown := fun symbol => downcallStub_eq_error
    superseded := fun newer older name code symbol hops hnewer =>
      downcallStub_eq_error (downcallStub_superseded ht hnodup hops hnewer)
    linked := fun symbol f => h.exists_define hcount.le
    called := fun f => h.exists_link
    kept := by
      intro e entry hop
      have hentry : r.upcall entry = .ok e := upcall_eq_ok.2 ((ht.upcalls _ _).2 hop)
      refine ⟨hentry, ?_⟩
      unfold upcallFrame
      rw [hentry]
    upcalled := fun e entry => h.entered hcount.le }

end History

/-! ### Calls -/

/-- Code that has led from one state to the other has changed the registry in it through its operations only. -/
def Leads (table : σ → Registry φ τ) (w w' : σ) : Prop :=
  ∀ ops, History ops (table w) → ∃ later, History (later ++ ops) (table w')

instance (table : σ → Registry φ τ) : IsPreorder σ (Leads table) where
  refl _ ops h := ⟨[], h⟩
  trans _ _ _ h h' ops hops := by
    obtain ⟨later, hlater⟩ := h ops hops
    obtain ⟨latest, hlatest⟩ := h' _ hlater
    exact ⟨latest ++ later, by rwa [List.append_assoc]⟩

namespace History

variable {ops : List (Operation φ τ)} {r : Registry φ τ}

/-- **The registry of native functions stays consistent** while it has handed out less than two to the power
of 59 addresses, whatever has been done with it.  A function that has been linked gives what the code gives
that it was linked with.  Calling it, or an entry point, changes the registry only through the operations of
the called code, which come after the call. -/
theorem consistent (h : History ops r) (hcount : r.count < 2 ^ 59) :
    Consistent ops r ∧
    ∀ {σ : Type} (table : σ → Registry φ τ) (m : Machine σ), table m.world = r →
      (∀ (run : φ → Native σ) symbol f, .link symbol (.ok f) ∈ ops →
        (∀ answer n, Engine.Finishes (run f.code) m answer n →
          ∃ log, Engine.Finishes (f.call run) m answer { n with log := log }) ∧
        (Engine.Moves (Leads table) (run f.code) →
          Ends (f.call run) m fun _ n => ∃ later, History (later ++ .call f :: ops) (table n.world))) ∧
      ∀ (run : τ → Target σ) entry, (∀ target args, Engine.Moves (Leads table) (run target args)) →
        Ends (r.callUpcall run entry) m fun _ n =>
          ∃ later, History (later ++ .callUpcall entry (r.upcall entry) :: ops) (table n.world) := by
  refine ⟨h.consistent_maps hcount, fun table m hm =>
    ⟨fun run symbol f hop => ⟨fun _ _ => NativeFunction.call_finishes, fun hrun => ?_⟩,
      fun run entry hrun => ?_⟩⟩
  · refine (NativeFunction.call_moves hrun m).mono fun _ n hn => hn _ ?_
    rw [hm]
    exact h.step (.call hop)
  · refine (callUpcall_moves hrun r entry m).mono fun _ n hn => hn _ ?_
    rw [hm]
    exact h.step (.callUpcall entry)

/-- A function that defines its own name anew.  It is called through its first symbol, which nobody can link
after that. -/
theorem consistent_redefined_in_call :
    let run : Nat → Engine (Registry Nat Unit) (Except NativeError Unit) := fun version => do
      modify fun m => { m with world := (m.world.define "f" (version + 1)).2 }
      return .ok ()
    let first : List (Operation Nat Unit) :=
      [.link ⟨"f", 0x7f0000001000⟩ (.ok ⟨"f", 1⟩), .define "f" 1 ⟨"f", 0x7f0000001000⟩]
    let second : List (Operation Nat Unit) := .define "f" 2 ⟨"f", 0x7f0000001010⟩ :: .call ⟨"f", 1⟩ :: first
    (∃ r, History first r ∧ ∀ m : Machine (Registry Nat Unit), m.world = r →
      Ends (NativeFunction.call run ⟨"f", 1⟩) m fun _ n =>
        ∃ later, History (later ++ .call ⟨"f", 1⟩ :: first) n.world) ∧
    ∃ r, History second r ∧ r.lookup "f" = .ok ⟨"f", 0x7f0000001010⟩ ∧
      r.downcallStub ⟨"f", 0x7f0000001000⟩ = .error (.unknownSymbol "f@0x7f0000001000") := by
  intro run first second
  have hfirst : History first _ := (History.empty.step (.define "f" 1)).step (.link ⟨"f", 0x7f0000001000⟩)
  have hsecond : History second _ := (hfirst.step (.call List.mem_cons_self)).step (.define "f" 2)
  have hrun : ∀ version, Engine.Moves (Leads id) (run version) := by
    intro version m
    exact fun ops h => ⟨[_], h.step (.define "f" (version + 1))⟩
  refine ⟨⟨_, hfirst, fun m hm => ?_⟩, _, hsecond, ?_, ?_⟩
  · exact (((consistent hfirst (by decide)).2 id m hm).1 run _ _ List.mem_cons_self).2 (hrun 1)
  · exact (consistent hsecond (by decide)).1.lookup "f"
  · exact (consistent hsecond (by decide)).1.superseded (second.take 3) [] "f" 1 _ rfl rfl

end History

end Registry

end ForeignCall
