import ForeignCall.Proofs.Arrangement.Plan
import ForeignCall.Proofs.Linking
import Mathlib.Data.List.Nodup

/-!
# The cache of a linker

A linker with its cache on arranges no shape twice for one direction, and no answer tells whether the cache
is on.

* `Linking.Request`: a request to a linker, with the key whose sequence it needs;
* `Linking.Request.Step`, `Linking.Request.step`: everything that a request does to a linker and to the
  arrangements in the log, be it successful or not;
* `Linkage.History`: the states of a linker with the requests that led to them and their answers;
* `Linkage.Books`: while the cache is on, its entries, the requests and the arrangements in the log are in
  step;
* `Linkage.History.cache_transparent`: what follows for the answers and the number of entries.
-/

namespace ForeignCall

variable {φ τ α β : Type} {c : Convention} {settings : Settings}

/-- What a convention makes of the shape of a key. -/
def SequenceKey.arrange (c : Convention) (key : SequenceKey) : Arranging CallingSequence :=
  ForeignCall.arrange c key.descriptor key.direction

/-! ### Requests -/

namespace Linking

variable {s s' : Linkage φ τ}

inductive Request (τ : Type) where
  | sequence (d : Descriptor) (direction : Direction)
  | downcall (symbol : Symbol) (d : Descriptor)
  | upcall (target : τ) (d : Descriptor)

/-- What a linker gives for a request. -/
inductive Answer (φ τ : Type) where
  | sequence (shared : SharedSequence)
  | handle (h : DowncallHandle φ)
  | stub (s : UpcallStub τ)

/-- The calling sequence that an answer is, or is made of. -/
def Answer.callingSequence : Answer φ τ → CallingSequence
  | .sequence shared => shared.sequence
  | .handle h => h.sequence
  | .stub s => s.handler.sequence

/-- The value of a request, or why it has none. -/
def answer (x : Linking φ τ α) (s : Linkage φ τ) : Except (Halt Fault LinkError) α :=
  match x s with
  | .ok a _ => .ok a
  | .error e _ => .error e

namespace Request

/-- The key whose sequence a request needs. -/
def key : Request τ → SequenceKey
  | sequence d direction => ⟨d, direction⟩
  | downcall _ d => ⟨d, .downcall⟩
  | upcall _ d => ⟨d, .upcall⟩

def run : Request τ → Linking φ τ (Answer φ τ)
  | sequence d direction => do return .sequence (← Linking.sequence d direction)
  | downcall symbol d => do return .handle (← Linking.downcall symbol d)
  | upcall target d => do return .stub (← Linking.upcall target d)

/-- The answer goes by a sequence, if there is one.  Asking for nothing but the sequence gives it. -/
structure AnsweredBy (shared : SharedSequence) (r : Request τ)
    (answer : Except (Halt Fault LinkError) (Answer φ τ)) : Prop where
  goes_by : ∀ a, answer = .ok a → a.callingSequence = shared.sequence
  same : ∀ d direction, r = sequence d direction → answer = .ok (.sequence shared)

theorem AnsweredBy.shared_eq {shared shared' : SharedSequence} {r : Request τ}
    {answer : Except (Halt Fault LinkError) (Answer φ τ)} {d : Descriptor} {direction : Direction}
    (h : r.AnsweredBy shared answer) (hr : r = sequence d direction) (ha : answer = .ok (.sequence shared')) :
    shared' = shared := by
  have hsame := h.same d direction hr
  rw [ha] at hsame
  cases hsame
  rfl

/-- **What a request does** to the linker and to the arrangements in the log.  It finds its sequence in the
cache, or arranges it and keeps it, or its shape cannot be arranged. -/
inductive Step (c : Convention) (r : Request τ) (s s' : Linkage φ τ)
    (answer : Except (Halt Fault LinkError) (Answer φ τ)) : Prop
  | failed (e : Halt Fault LinkError) (harrange : r.key.arrange c = .error e) (hanswer : answer = .error e)
      (hlinker : s'.linker = s.linker) (hkeys : arrangedKeys s'.log = arrangedKeys s.log)
  | cached (shared : SharedSequence) (hcached : s.linker.cached? r.key = some shared)
      (harrange : r.key.arrange c = .ok shared.sequence) (hanswer : r.AnsweredBy shared answer)
      (hlinker : s'.linker = s.linker) (hkeys : arrangedKeys s'.log = arrangedKeys s.log)
  | arranged (q : CallingSequence) (hcached : s.linker.cached? r.key = none)
      (harrange : r.key.arrange c = .ok q)
      (hanswer : r.AnsweredBy (s.linker.keep r.key q).1 answer)
      (hlinker : s'.linker = (s.linker.keep r.key q).2)
      (hkeys : arrangedKeys s'.log = arrangedKeys s.log ++ [r.key])

theorem Step.linker_eq {r : Request τ} {answer : Except (Halt Fault LinkError) (Answer φ τ)}
    {error : Halt Fault LinkError} (h : r.Step c s s' answer) (herror : r.key.arrange c = .error error) :
    s'.linker = s.linker := by
  cases h with
  | failed e harrange hanswer hlinker hkeys => exact hlinker
  | cached shared hcached harrange hanswer hlinker hkeys => exact hlinker
  | arranged q hcached harrange hanswer hlinker hkeys => cases harrange.symm.trans herror

end Request

theorem answer_eq_ok {x : Linking φ τ α} {a : α} : x.answer s = .ok a ↔ ∃ s', x s = .ok a s' := by
  unfold answer
  cases x s <;> simp

theorem after_bind_pure (x : Linking φ τ α) (f : α → β) (s : Linkage φ τ) :
    (x >>= fun a => pure (f a)).after s = x.after s := by
  simp only [after, Bind.bind, EStateM.bind]
  cases x s <;> rfl

/-! ### What a request does -/

section Sequence

variable {key : SequenceKey}

theorem sequence_cached {shared : SharedSequence} (h : s.linker.cached? key = some shared) :
    sequence key.descriptor key.direction s = .ok shared s := by
  unfold sequence
  rw [get_bind_apply]
  dsimp only
  rw [h]
  rfl

theorem sequence_failed {e : Halt Fault LinkError} (h : s.linker.cached? key = none)
    (harrange : key.arrange s.linker.convention = .error e) :
    sequence key.descriptor key.direction s = .error e s := by
  unfold SequenceKey.arrange at harrange
  unfold sequence
  rw [get_bind_apply]
  dsimp only
  rw [h, harrange]
  rfl

end Sequence

/-- The linker and the arrangements in the log are the given ones. -/
def At (l : Linker) (keys : List SequenceKey) (s : Linkage φ τ) : Prop :=
  s.linker = l ∧ arrangedKeys s.log = keys

theorem lasting_at (l : Linker) (keys : List SequenceKey) : Lasting (At l keys : Linkage φ τ → Prop) :=
  fun _ _ _ hlog hs => ⟨hs.1, hlog.trans hs.2⟩

/-- **A request asks for its sequence first.**  Nothing that it does after that touches the linker. -/
theorem Request.exists_rest (r : Request τ) {l : Linker} (hl : l.Sound c settings) (keys : List SequenceKey) :
    ∃ rest : SharedSequence → Linking φ τ (Answer φ τ),
      r.run = Linking.sequence r.key.descriptor r.key.direction >>= rest ∧
        ∀ shared, r.key.arrange c = .ok shared.sequence →
          Ensures (At l keys) (rest shared) (fun a => a.callingSequence = shared.sequence) ∧
            ∀ d direction, r = .sequence d direction → rest shared = pure (.sequence shared) := by
  have hlinker : ∀ s : Linkage φ τ, At l keys s → s.linker.convention = c ∧ s.linker.settings = settings := by
    rintro s ⟨rfl, -⟩
    exact ⟨hl.convention, hl.settings⟩
  cases r with
  | sequence d direction => exact ⟨_, rfl, fun shared _ => ⟨.pure rfl, fun _ _ _ => rfl⟩⟩
  | downcall symbol d =>
    obtain ⟨rest, hrun, hrest⟩ := exists_downcall (lasting_at l keys) hlinker symbol d
    refine ⟨fun shared => rest shared >>= fun h => pure (.handle h), ?_, fun shared hshared => ⟨?_, ?_⟩⟩
    · exact (congrArg (· >>= fun h => pure (Answer.handle h)) hrun).trans (bind_assoc _ _ _)
    · exact .bind (hrest shared hshared) fun h hh => .pure (ok_unique hh.sequence hshared)
    · intro _ _ h
      cases h
  | upcall target d =>
    obtain ⟨rest, hrun, hrest⟩ := exists_upcall (lasting_at l keys) hlinker target d
    refine ⟨fun shared => rest shared >>= fun s => pure (.stub s), ?_, fun shared hshared => ⟨?_, ?_⟩⟩
    · exact (congrArg (· >>= fun s => pure (Answer.stub s)) hrun).trans (bind_assoc _ _ _)
    · exact .bind (hrest shared hshared) fun s hs => .pure (ok_unique hs.sequence hshared)
    · intro _ _ h
      cases h

/-- What follows for a request once its sequence is there. -/
theorem Request.answered (r : Request τ) {shared : SharedSequence}
    (hshared : r.key.arrange c = .ok shared.sequence)
    (hsequence : Linking.sequence r.key.descriptor r.key.direction s = .ok shared s')
    (hl : s'.linker.Sound c settings) :
    r.AnsweredBy shared (r.run.answer s) ∧ (r.run.after s).linker = s'.linker ∧
      arrangedKeys (r.run.after s).log = arrangedKeys s'.log := by
  obtain ⟨rest, hrun, hrest⟩ := r.exists_rest (φ := φ) hl (arrangedKeys s'.log)
  obtain ⟨hkeeps, hsame⟩ := hrest shared hshared
  have hstart : At s'.linker (arrangedKeys s'.log) s' := ⟨rfl, rfl⟩
  have happly : r.run s = rest shared s' := by
    rw [hrun]
    simp only [Bind.bind, EStateM.bind, hsequence]
  have hanswer : r.run.answer s = (rest shared).answer s' := by
    unfold answer
    rw [happly]
  have hafter : r.run.after s = (rest shared).after s' := by
    unfold after
    rw [happly]
  rw [hanswer, hafter]
  refine ⟨⟨fun a ha => ?_, fun d direction hr => ?_⟩, hkeeps.after hstart⟩
  · obtain ⟨_, ha⟩ := answer_eq_ok.1 ha
    exact hkeeps.of_ok hstart ha
  · rw [hsame d direction hr]
    rfl

/-- **A request finds its sequence in the cache, arranges it, or cannot do so.** -/
theorem Request.step (r : Request τ) (hl : s.linker.Sound c settings) :
    r.Step c s (r.run.after s) (r.run.answer s) := by
  cases hcached : s.linker.cached? r.key with
  | some shared =>
    have harrange : r.key.arrange c = .ok shared.sequence := hl.cached? hcached
    obtain ⟨hanswer, hlinker, hkeys⟩ := r.answered harrange (sequence_cached hcached) hl
    exact .cached shared hcached harrange hanswer hlinker hkeys
  | none =>
    cases harrange : r.key.arrange c with
    | error e =>
      obtain ⟨rest, hrun, -⟩ := r.exists_rest (φ := φ) hl []
      have happly : r.run s = .error e s := by
        rw [hrun]
        simp only [Bind.bind, EStateM.bind, sequence_failed hcached (hl.convention ▸ harrange)]
      unfold answer after
      rw [happly]
      exact .failed e harrange rfl rfl rfl
    | ok q =>
      have hsequence := sequence_arranged hcached (hl.convention ▸ harrange)
      obtain ⟨hanswer, hlinker, hkeys⟩ := r.answered harrange hsequence (hl.keep harrange)
      refine .arranged q hcached harrange hanswer hlinker (hkeys.trans ?_)
      obtain ⟨-, -, -, -, -, -, -, hdirection, -⟩ := arrange_eq_ok harrange
      have hkey : (LogEvent.arranged s.linker.convention r.key.descriptor q).arrangedKey? = some r.key :=
        congrArg (fun direction => some (SequenceKey.mk r.key.descriptor direction)) hdirection
      rw [arrangedKeys_push, hkey, Option.toList_some]

end Linking

/-! ### Runs of requests -/

namespace Linkage

open Linking (Request Answer)

variable {s : Linkage φ τ}

/-- A request that was made, and its answer. -/
structure Exchange (φ τ : Type) where
  request : Request τ
  answer : Except (Halt Fault LinkError) (Answer φ τ)

/-- The states of a linker with what it has been asked, the latest request first.  Between requests the
registry and the log may change at will, if only no arrangements enter the log or leave it. -/
inductive History (c : Convention) (settings : Settings) : List (Exchange φ τ) → Linkage φ τ → Prop
  | new (registry : Registry φ τ) (log : Array LogEvent) (hlog : arrangedKeys log = []) :
    History c settings [] ⟨.new c settings, registry, log⟩
  | request {es : List (Exchange φ τ)} {s : Linkage φ τ} (r : Request τ) :
    History c settings es s → History c settings (⟨r, r.run.answer s⟩ :: es) (r.run.after s)
  | outside {es : List (Exchange φ τ)} {s : Linkage φ τ} (registry : Registry φ τ) (log : Array LogEvent)
    (hlog : arrangedKeys log = arrangedKeys s.log) :
    History c settings es s → History c settings es { s with registry := registry, log := log }

/-- While the cache is on, its entries, the arrangements in the log and the requests are in step. -/
structure Books (c : Convention) (es : List (Exchange φ τ)) (s : Linkage φ τ) : Prop where
  keys : s.linker.cache.map (·.1) = (arrangedKeys s.log).reverse
  nodup : (arrangedKeys s.log).Nodup
  serials : s.linker.cache.map (·.2.serial) = (List.range s.linker.arranged).reverse
  requested : ∀ key, key ∈ arrangedKeys s.log ↔ (∃ e ∈ es, e.request.key = key) ∧ ∃ q, key.arrange c = .ok q
  answers : ∀ e ∈ es, ∀ d direction shared, e.request = .sequence d direction →
    e.answer = .ok (.sequence shared) →
    (e.request.key, shared) ∈ s.linker.cache

theorem History.reachable {es : List (Exchange φ τ)} (h : History c settings es s) :
    s.Reachable c settings := by
  induction h with
  | new registry log hlog => exact .new registry log
  | @request es s r _ ih =>
    cases r with
    | sequence d direction =>
      have hafter := Linking.after_bind_pure (Linking.sequence d direction) (Answer.sequence : _ → Answer φ τ) s
      exact hafter ▸ ih.sequence d direction
    | downcall symbol d =>
      have hafter := Linking.after_bind_pure (Linking.downcall symbol d) (Answer.handle : _ → Answer φ τ) s
      exact hafter ▸ ih.downcall symbol d
    | upcall target d =>
      have hafter := Linking.after_bind_pure (Linking.upcall target d) (Answer.stub : _ → Answer φ τ) s
      exact hafter ▸ ih.upcall target d
  | outside registry log hlog _ ih => exact ih.outside registry log

theorem History.sound {es : List (Exchange φ τ)} (h : History c settings es s) : s.linker.Sound c settings :=
  h.reachable.sound

namespace Books

variable {es : List (Exchange φ τ)} {s' : Linkage φ τ} {r : Request τ}
  {answer : Except (Halt Fault LinkError) (Answer φ τ)}

theorem new (registry : Registry φ τ) {log : Array LogEvent} (hlog : arrangedKeys log = []) :
    Books c [] ⟨.new c settings, registry, log⟩ := by
  constructor <;> simp [hlog, Linker.new]

theorem requested_cons (h : Books c es s) (key : SequenceKey) :
    (∃ e ∈ ⟨r, answer⟩ :: es, e.request.key = key) ∧ (∃ q, key.arrange c = .ok q) ↔
      key ∈ arrangedKeys s.log ∨ key = r.key ∧ ∃ q, key.arrange c = .ok q := by
  rw [h.requested]
  simp only [List.mem_cons, exists_eq_or_imp, ← or_and_right]
  rw [or_comm, eq_comm]

theorem keep (h : Books c es s) (hlinker : s'.linker = s.linker)
    (hkeys : arrangedKeys s'.log = arrangedKeys s.log)
    (hrequested : (∃ q, r.key.arrange c = .ok q) → r.key ∈ arrangedKeys s.log)
    (hanswer : ∀ d direction shared, r = .sequence d direction → answer = .ok (.sequence shared) →
      (r.key, shared) ∈ s.linker.cache) : Books c (⟨r, answer⟩ :: es) s' := by
  constructor
  · rw [hlinker, hkeys]
    exact h.keys
  · rw [hkeys]
    exact h.nodup
  · rw [hlinker]
    exact h.serials
  · intro key
    rw [hkeys, h.requested_cons]
    constructor
    · exact .inl
    · rintro (hkey | ⟨rfl, harrange⟩)
      · exact hkey
      · exact hrequested harrange
  · rw [hlinker]
    exact List.forall_mem_cons.2 ⟨hanswer, h.answers⟩

theorem add (h : Books c es s) (hon : s.linker.settings.cacheSequences = true) {q : CallingSequence}
    (hnew : r.key ∉ arrangedKeys s.log) (harrange : r.key.arrange c = .ok q)
    (hlinker : s'.linker = (s.linker.keep r.key q).2)
    (hkeys : arrangedKeys s'.log = arrangedKeys s.log ++ [r.key])
    (hanswer : ∀ d direction shared, r = .sequence d direction → answer = .ok (.sequence shared) →
      shared = (s.linker.keep r.key q).1) : Books c (⟨r, answer⟩ :: es) s' := by
  have hcache : s'.linker.cache = (r.key, (s.linker.keep r.key q).1) :: s.linker.cache := by
    rw [hlinker]
    exact if_pos hon
  constructor
  · rw [hcache, hkeys, List.map_cons, h.keys, List.reverse_append]
    rfl
  · rw [hkeys, ← List.concat_eq_append]
    exact h.nodup.concat hnew
  · rw [hcache, List.map_cons, h.serials, hlinker]
    exact (congrArg List.reverse List.range_succ).trans List.reverse_append |>.symm
  · intro key
    rw [hkeys, h.requested_cons, List.mem_append, List.mem_singleton]
    constructor
    · rintro (hkey | rfl)
      · exact .inl hkey
      · exact .inr ⟨rfl, q, harrange⟩
    · exact Or.imp id And.left
  · rw [hcache]
    refine List.forall_mem_cons.2 ⟨fun d direction shared hr ha => ?_, fun e he d direction shared hr ha => ?_⟩
    · rw [hanswer d direction shared hr ha]
      exact List.mem_cons_self
    · exact List.mem_cons_of_mem _ (h.answers e he d direction shared hr ha)

/-- **A request keeps the books.** -/
theorem step (h : Books c es s) (hon : s.linker.settings.cacheSequences = true) (hstep : r.Step c s s' answer) :
    Books c (⟨r, answer⟩ :: es) s' := by
  have hmem : ∀ key, key ∈ s.linker.cache.map (·.1) ↔ key ∈ arrangedKeys s.log := by
    intro key
    rw [h.keys, List.mem_reverse]
  cases hstep with
  | failed e harrange hanswer hlinker hkeys =>
    refine h.keep hlinker hkeys (fun ⟨q, hq⟩ => ?_) fun d direction shared hr ha => ?_
    · rw [harrange] at hq
      cases hq
    · rw [hanswer] at ha
      cases ha
  | cached shared hcached harrange hanswer hlinker hkeys =>
    have hentry := Linker.mem_of_cached? hcached
    refine h.keep hlinker hkeys (fun _ => (hmem _).1 (List.mem_map_of_mem hentry))
      fun d direction shared' hr ha => ?_
    rw [hanswer.shared_eq hr ha]
    exact hentry
  | arranged q hnone harrange hanswer hlinker hkeys =>
    have hnew := fun hkey => Linker.not_mem_of_cached? hon hnone ((hmem _).2 hkey)
    exact h.add hon hnew harrange hlinker hkeys fun d direction shared hr ha => hanswer.shared_eq hr ha

theorem cachedSequences_eq (h : Books c es s) : s.linker.cachedSequences = (arrangedKeys s.log).length := by
  rw [← List.length_reverse, ← h.keys, List.length_map]
  rfl

/-- **Sequences that were given are the same object iff they were given for the same key.** -/
theorem serial_eq_iff (h : Books c es s) {d d' : Descriptor} {direction direction' : Direction}
    {shared shared' : SharedSequence} (he : ⟨.sequence d direction, .ok (.sequence shared)⟩ ∈ es)
    (he' : ⟨.sequence d' direction', .ok (.sequence shared')⟩ ∈ es) :
    shared.serial = shared'.serial ↔ d = d' ∧ direction = direction' := by
  have hentry := h.answers _ he d direction shared rfl rfl
  have hentry' := h.answers _ he' d' direction' shared' rfl rfl
  constructor
  · intro hserial
    have hnodup : (s.linker.cache.map (·.2.serial)).Nodup := by
      rw [h.serials]
      exact List.nodup_reverse.2 List.nodup_range
    cases List.inj_on_of_nodup_map hnodup hentry hentry' hserial
    exact ⟨rfl, rfl⟩
  · rintro ⟨rfl, rfl⟩
    have hnodup : (s.linker.cache.map (·.1)).Nodup := by
      rw [h.keys]
      exact List.nodup_reverse.2 h.nodup
    cases List.inj_on_of_nodup_map hnodup hentry hentry' rfl
    rfl

end Books

/-- An answer that does not tell whether its sequence was in the cache. -/
structure Exchange.Transparent (c : Convention) (e : Exchange φ τ) : Prop where
  sequence : ∀ d direction, e.request = .sequence d direction →
    Answer.callingSequence <$> e.answer = arrange c d direction
  failed : ∀ error, e.request.key.arrange c = .error error → e.answer = .error error
  goes_by : ∀ a, e.answer = .ok a → e.request.key.arrange c = .ok a.callingSequence

section Transparent

variable {s' : Linkage φ τ} {r : Request τ} {answer : Except (Halt Fault LinkError) (Answer φ τ)}

theorem Exchange.transparent_of_answeredBy {shared : SharedSequence}
    (harrange : r.key.arrange c = .ok shared.sequence) (hanswer : r.AnsweredBy shared answer) :
    (Exchange.mk r answer).Transparent c := by
  refine ⟨fun d direction hr => ?_, fun error herror => ?_, fun a ha => ?_⟩
  · obtain rfl : r = .sequence d direction := hr
    have hsame : answer = _ := hanswer.same d direction rfl
    subst hsame
    exact harrange.symm
  · cases harrange.symm.trans herror
  · rw [hanswer.goes_by a ha]
    exact harrange

/-- **No answer depends on the cache.** -/
theorem Exchange.transparent (h : r.Step c s s' answer) : (Exchange.mk r answer).Transparent c := by
  cases h with
  | failed e harrange hanswer hlinker hkeys =>
    refine ⟨fun d direction hr => ?_, fun error herror => ?_, fun a ha => ?_⟩
    · obtain rfl : r = .sequence d direction := hr
      subst hanswer
      exact harrange.symm
    · cases harrange.symm.trans herror
      exact hanswer
    · cases hanswer.symm.trans ha
  | cached shared hcached harrange hanswer hlinker hkeys => exact transparent_of_answeredBy harrange hanswer
  | arranged q hcached harrange hanswer hlinker hkeys => exact transparent_of_answeredBy harrange hanswer

end Transparent

namespace History

variable {es : List (Exchange φ τ)}

theorem transparent (h : History c settings es s) : ∀ e ∈ es, e.Transparent c := by
  induction h with
  | new registry log hlog => exact fun _ he => absurd he List.not_mem_nil
  | request r h ih => exact List.forall_mem_cons.2 ⟨Exchange.transparent (r.step h.sound), ih⟩
  | outside registry log hlog _ ih => exact ih

theorem books (h : History c settings es s) (hon : settings.cacheSequences = true) : Books c es s := by
  induction h with
  | new registry log hlog => exact .new registry hlog
  | request r h ih =>
    rw [← h.sound.settings] at hon
    exact ih.step hon (r.step h.sound)
  | outside registry log hlog _ ih =>
    obtain ⟨hkeys, hnodup, hserials, hrequested, hanswers⟩ := ih
    rw [← hlog] at hkeys hnodup hrequested
    exact ⟨hkeys, hnodup, hserials, hrequested, hanswers⟩

theorem cache_empty (h : History c settings es s) (hoff : settings.cacheSequences = false) :
    s.linker.cache = [] := by
  induction h with
  | new registry log hlog => rfl
  | request r h ih =>
    cases r.step h.sound with
    | failed e harrange hanswer hlinker hkeys => rw [hlinker, ih]
    | cached shared hcached harrange hanswer hlinker hkeys => rw [hlinker, ih]
    | arranged q hcached harrange hanswer hlinker hkeys =>
      rw [← h.sound.settings] at hoff
      rw [hlinker]
      unfold Linker.keep
      rw [hoff]
      exact ih
  | outside registry log hlog _ ih => exact ih

/-- **The cache is transparent.**  Whatever a linker has been asked, and whether its cache is on or not,
every sequence that it has given is the arranged one, an error of arranging is the answer of any request for
that shape and leaves the linker as it is, and every handle and stub is made of the arranged sequence.
While the cache is on, no key is arranged twice; those that have been arranged are the ones that were asked
for and can be, and nothing else is in the cache.  Sequences that were given for one key are the same
object, and for different keys they are not.  While the cache is off it stays empty. -/
theorem cache_transparent (h : History c settings es s) :
    (∀ e ∈ es, e.Transparent c) ∧
    (∀ (r : Request τ) error, r.key.arrange c = .error error → (r.run.after s).linker = s.linker) ∧
    (settings.cacheSequences = true →
      (arrangedKeys s.log).Nodup ∧
      (∀ key, key ∈ arrangedKeys s.log ↔ (∃ e ∈ es, e.request.key = key) ∧ ∃ q, key.arrange c = .ok q) ∧
      s.linker.cachedSequences = (arrangedKeys s.log).length ∧
      (∀ key shared, s.linker.cached? key = some shared → key.arrange c = .ok shared.sequence) ∧
      ∀ d d' direction direction' shared shared',
        ⟨.sequence d direction, .ok (.sequence shared)⟩ ∈ es →
          ⟨.sequence d' direction', .ok (.sequence shared')⟩ ∈ es →
          (shared.serial = shared'.serial ↔ d = d' ∧ direction = direction')) ∧
    (settings.cacheSequences = false → s.linker.cachedSequences = 0) := by
  refine ⟨h.transparent, fun r error herror => (r.step h.sound).linker_eq herror, fun hon => ?_, fun hoff => ?_⟩
  · have hbooks := h.books hon
    exact ⟨hbooks.nodup, hbooks.requested, hbooks.cachedSequences_eq, fun key shared => h.sound.cached?,
      fun d d' direction direction' shared shared' => hbooks.serial_eq_iff⟩
  · unfold Linker.cachedSequences
    rw [h.cache_empty hoff]
    rfl

/-- A linker that is asked for the sequence of an empty structure, for a function that does not exist, and
then for the sequence and for an entry point of the same shape.  It arranges one sequence for each
direction. -/
theorem cache_transparent_after_failures :
    let d : Descriptor := ⟨[.value .i64], none⟩
    ∃ es s, History (φ := Unit) .sysV .standard es s ∧
      es.map (·.request) =
        [.upcall () d, .sequence d .downcall, .downcall ⟨"ghost", 0⟩ d,
          .sequence ⟨[.struct []], none⟩ .upcall] ∧
      es.map (·.answer.isOk) = [true, true, false, false] ∧
      arrangedKeys s.log = [⟨d, .downcall⟩, ⟨d, .upcall⟩] ∧ s.linker.cachedSequences = 2 := by
  intro d
  let unsupported : Request Unit := .sequence ⟨[.struct []], none⟩ .upcall
  let unknown : Request Unit := .downcall ⟨"ghost", 0⟩ d
  let s₀ : Linkage Unit Unit := ⟨.new .sysV .standard, .empty, #[]⟩
  let s₁ := unsupported.run.after s₀
  let s₂ := unknown.run.after s₁
  let s₃ := (Request.sequence d .downcall).run.after s₂
  let s₄ := (Request.upcall () d).run.after s₃
  have h₀ : History .sysV .standard [] s₀ := .new .empty #[] rfl
  have h := (((h₀.request unsupported).request unknown).request (.sequence d .downcall)).request (.upcall () d)
  have hkeys : arrangedKeys s₄.log = [⟨d, .downcall⟩, ⟨d, .upcall⟩] := by decide +kernel
  obtain ⟨-, -, hon, -⟩ := cache_transparent h
  obtain ⟨-, -, hsize, -⟩ := hon rfl
  exact ⟨_, s₄, h, rfl, by decide +kernel, hkeys, hsize.trans (congrArg List.length hkeys)⟩

end History

end Linkage

end ForeignCall
