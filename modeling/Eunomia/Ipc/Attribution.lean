import Eunomia.Ipc.Reactor

/-!
# What a reactor reports

A server registers its sources with a reactor and waits. Each source has bits of one notification word; the
kernel sets them when something happens to the source, by the bindings that `register` made, or by bindings
made outside for `register_bound`.

A run is watched with the cause of every bit that is set. A `register` call that fails at its second or third
binding leaves the ones before in the kernel, but not its bit: the next source is given the same bit, and is
reported for what happens to the first. Where a source is only given a bit that nothing else in the kernel
sets, every report has a cause of its own source.
-/

namespace Eunomia.Ipc

open Function

/-! ### Registration -/

inductive RegisterErr
  | full
  | bind
  | taken
  deriving DecidableEq, Repr

/-- What can happen to a channel. -/
inductive ChanEvent
  | readable
  | writable
  | peerClosed
  deriving DecidableEq, Repr

def Signals.has (signals : Signals) : ChanEvent → Bool
  | .readable => signals &&& READABLE ≠ 0
  | .writable => signals &&& WRITABLE ≠ 0
  | .peerClosed => signals &&& PEER_CLOSED ≠ 0

/-- The events that `register` binds, in its order. -/
def Signals.events (signals : Signals) : List ChanEvent := [.readable, .writable, .peerClosed].filter signals.has

abbrev Chan := Nat

/-- A binding in the kernel: the bits it sets, and the `register` call that made it. -/
structure Bound where
  mask : Word
  call : Nat

abbrev Bindings := Chan → ChanEvent → Option Bound

/-- Bind the events one after the other; the transport refuses those for which `ok` is false. -/
def bindAll (ok : ChanEvent → Bool) (source : Chan) (b : Bound) : List ChanEvent → Bindings → Bool × Bindings
  | [], bs => (true, bs)
  | ev :: evs, bs =>
    if ok ev then bindAll ok source b evs (update bs source (update (bs source) ev (some b)))
    else (false, bs)

/-- Give a source the bits of a mask. -/
def Reactor.registerBoundInto (mask : Word) (key : Key) (r : Reactor) : Except RegisterErr Reactor :=
  if mask &&& r.used ≠ 0 then .error .taken
  else .ok { r with
    slots := ((List.range WORD_BITS).filter mask.getLsbD).foldl (fun slots bit => update slots bit (some ⟨key, 0⟩)) r.slots
    used := r.used ||| mask }

/-! ### The watched run -/

/-- Why a bit is set. -/
inductive Cause
  /-- by the signal that a `register` call sends itself -/
  | self (call : Nat)
  /-- by a binding that a `register` call made -/
  | binding (call : Nat)
  /-- by something that is bound outside of the reactor -/
  | outside
  deriving DecidableEq, Repr

/-- Who a bit was given to: the call, the key, and whether it was `register_bound`. -/
structure Owner where
  call : Nat
  key : Key
  bound : Bool
  deriving DecidableEq, Repr

/-- A cause that a report of the source may have. -/
def Owner.Legit (o : Owner) : Cause → Prop
  | .self n | .binding n => o.bound = true ∨ n = o.call
  | .outside => o.bound = true

inductive Report
  /-- a call has given out the bits of a mask -/
  | registered (bits : Word)
  /-- bits were set, while those of `used` were given out -/
  | signalled (bits used : Word)
  | took (word : Word)
  | blocked
  | returned (bit : Nat) (key : Key) (owner : Option Owner) (causes : List Cause)
  | dropped (bit : Nat)

/-- The reactor and the kernel behind it. The causes and the owners are seen by the observer only. -/
structure World where
  r : Reactor
  word : Word
  binding : Bindings
  calls : Nat
  owner : Nat → Option Owner
  wordCauses : Nat → List Cause
  pendingCauses : Nat → List Cause

inductive Act
  | register (source : Chan) (signals : Signals) (key : Key) (ok : ChanEvent → Bool)
  | registerBound (mask : Word) (key : Key)
  /-- something happens to a channel -/
  | event (source : Chan) (ev : ChanEvent)
  /-- something else sets bits -/
  | outside (bits : Word)
  /-- one turn of the loop in `wait` -/
  | turn

namespace World

def new : World := ⟨.new, 0, fun _ _ => none, 0, fun _ => none, fun _ => [], fun _ => []⟩

def signal (bits : Word) (cause : Cause) (w : World) : World :=
  { w with
    word := w.word ||| bits
    wordCauses := fun b => if bits.getLsbD b then cause :: w.wordCauses b else w.wordCauses b }

def register (source : Chan) (signals : Signals) (key : Key) (ok : ChanEvent → Bool) (w : World) : World × List Report :=
  match w.r.registerInto signals key with
  | none => ({ w with calls := w.calls + 1 }, [])
  | some (bit, r) =>
    let (done, binding) := bindAll ok source ⟨mask bit, w.calls⟩ signals.events w.binding
    if done then
      ({ w with
        r, binding, calls := w.calls + 1
        owner := update w.owner bit (some ⟨w.calls, key, false⟩) }.signal (mask bit) (.self w.calls),
        [.registered (mask bit), .signalled (mask bit) r.used])
    else ({ w with binding, calls := w.calls + 1 }, [])

def registerBound (mask : Word) (key : Key) (w : World) : World × List Report :=
  match w.r.registerBoundInto mask key with
  | .error _ => ({ w with calls := w.calls + 1 }, [])
  | .ok r =>
    ({ w with
      r, calls := w.calls + 1
      owner := fun b => if mask.getLsbD b then some ⟨w.calls, key, true⟩ else w.owner b }, [.registered mask])

def event (source : Chan) (ev : ChanEvent) (w : World) : World × List Report :=
  match w.binding source ev with
  | none => (w, [])
  | some b => (w.signal b.mask (.binding b.call), [.signalled b.mask w.r.used])

def turn (w : World) : World × List Report :=
  match w.r.turn w.word with
  | none => (w, [.blocked])
  | some (key, word, r) =>
    if w.r.pending = 0 then
      ({ w with r, word, wordCauses := fun _ => [], pendingCauses := w.wordCauses }, [.took w.word])
    else
      let bit := (drainOne w.r.pending).1
      ({ w with r, word, pendingCauses := update w.pendingCauses bit [] },
        [match key with
          | some key => .returned bit key (w.owner bit) (w.pendingCauses bit)
          | none => .dropped bit])

def step (w : World) : Act → World × List Report
  | .register source signals key ok => w.register source signals key ok
  | .registerBound mask key => w.registerBound mask key
  | .event source ev => w.event source ev
  | .outside bits => (w.signal bits .outside, [.signalled bits w.r.used])
  | .turn => w.turn

end World

/-- The runs of a reactor in which every action meets a condition. -/
inductive Served (P : World → Act → Prop) : World → List Report → Prop
  | start : Served P .new []
  | step {w : World} {rs : List Report} (h : Served P w rs) (a : Act) (hcond : P w a) :
      Served P (w.step a).1 (rs ++ (w.step a).2)

/-! ### What is claimed -/

def Report.owe (bit : Nat) (b : Bool) : Report → Bool
  | .signalled bits used => b || (bits.getLsbD bit && used.getLsbD bit)
  | .returned bit' _ _ _ => b && bit' ≠ bit
  | _ => b

/-- Whether a bit of a source was set and has not been reported since. -/
def owed (bit : Nat) (rs : List Report) : Bool := rs.foldl (Report.owe bit) false

def Report.hand (s : Word × List Nat) : Report → Word × List Nat
  | .took word => (word, [])
  | .returned bit _ _ _ => (s.1, s.2 ++ [bit])
  | _ => s

/-- The word that was taken last, and the bits of it that have been reported. -/
def handed (rs : List Report) : Word × List Nat := rs.foldl Report.hand (0, [])

def Report.gives? : Report → Option Word
  | .registered bits => some bits
  | _ => none

/-- The bits that the calls have given out. -/
def givenOut (rs : List Report) : List Word := rs.filterMap Report.gives?

/-- A source is given only a bit that is not set and that no other binding sets, and nothing outside sets a
bit that `register` gave out. -/
def Clean (w : World) : Act → Prop
  | .register source signals _ ok => signals.events.all ok = true → ∀ bit, Reactor.lowestClearBit w.r.used = some bit →
      (w.word ||| w.r.pending).getLsbD bit = false ∧
      ∀ c ev b, w.binding c ev = some b → b.mask.getLsbD bit = true → c = source ∧ ev ∈ signals.events
  | .outside bits => ∀ bit o, bits.getLsbD bit = true → w.owner bit = some o → o.bound = true
  | _ => True

/-! ### Bits -/

lemma trailingZeros_le {w : Word} {i : Nat} (hi : w.getLsbD i = true) : trailingZeros w ≤ i := by
  have hlt : i < 64 := BitVec.lt_of_getLsbD hi
  by_contra hle
  have hne : w ≠ 0 := by
    rintro rfl
    simp at hi
  obtain ⟨hz, -⟩ := trailingZeros_spec hne
  have hfind : (List.range WORD_BITS).find? w.getLsbD = some (trailingZeros w) := by
    rw [trailingZeros]
    cases hf : (List.range WORD_BITS).find? w.getLsbD with
    | none =>
      rw [trailingZeros, hf] at hz
      exact absurd hz (by decide)
    | some b => rfl
  have hfirst := (List.find?_range_eq_some.mp hfind).2.2 i (Nat.not_le.mp hle)
  simp [hi] at hfirst

variable {bit : Nat}

lemma lowestClearBit_spec {used : Word} (h : Reactor.lowestClearBit used = some bit) :
    bit < 64 ∧ used.getLsbD bit = false := by
  rw [Reactor.lowestClearBit] at h
  split_ifs at h with hfull
  cases h
  have hne : ~~~used ≠ 0 := by
    intro hzero
    rw [hzero] at hfull
    exact hfull (by decide)
  obtain ⟨hlt, hbit⟩ := trailingZeros_spec hne
  refine ⟨hlt, ?_⟩
  simpa [hlt] using hbit

variable {key : Key}

variable {ok : ChanEvent → Bool} {source : Chan} {bs : Bindings}

/-- What the bindings of a call leave: the old ones, or its own. -/
lemma bindAll_cases {b : Bound} {evs : List ChanEvent} {bs' : Bindings}
    {done : Bool} (h : bindAll ok source b evs bs = (done, bs')) (c : Chan) (ev : ChanEvent) :
    bs' c ev = bs c ev ∨ bs' c ev = some b := by
  induction evs generalizing bs with
  | nil =>
    cases h
    exact .inl rfl
  | cons e evs ih =>
    rw [bindAll] at h
    split_ifs at h with hok
    · rcases ih h with hsame | hnew
      · rw [hsame, update_apply]
        split_ifs with hc
        · subst hc
          rw [update_apply]
          split_ifs
          · exact .inr rfl
          · exact .inl rfl
        · exact .inl rfl
      · exact .inr hnew
    · cases h
      exact .inl rfl

/-- If the transport refuses none of them, all events are bound. -/
lemma bindAll_done {b : Bound} {evs : List ChanEvent} {bs' : Bindings}
    (h : bindAll ok source b evs bs = (true, bs')) : evs.all ok = true ∧ ∀ ev ∈ evs, bs' source ev = some b := by
  induction evs generalizing bs with
  | nil => exact ⟨rfl, by simp⟩
  | cons e evs ih =>
    rw [bindAll] at h
    split_ifs at h with hok
    · obtain ⟨hall, hbound⟩ := ih h
      refine ⟨by simp [hok, hall], fun ev hev => ?_⟩
      rcases List.mem_cons.mp hev with rfl | hev
      · rcases bindAll_cases h source ev with hsame | hnew
        · rw [hsame]
          simp
        · exact hnew
      · exact hbound ev hev
    · cases h

lemma owed_concat (bit : Nat) (rs : List Report) (r : Report) : owed bit (rs ++ [r]) = r.owe bit (owed bit rs) := by
  rw [owed, List.foldl_append]
  rfl

lemma handed_concat (rs : List Report) (r : Report) : handed (rs ++ [r]) = r.hand (handed rs) := by
  rw [handed, List.foldl_append]
  rfl

lemma givenOut_concat (rs : List Report) (r : Report) : givenOut (rs ++ [r]) = givenOut rs ++ r.gives?.toList := by
  rw [givenOut, List.filterMap_append]
  cases h : r.gives? <;> simp [givenOut, h]

lemma givenOut_of_none (rs : List Report) {r : Report} (h : r.gives? = none) : givenOut (rs ++ [r]) = givenOut rs := by
  rw [givenOut_concat, h, Option.toList_none, List.append_nil]

/-! ### The invariant -/

/-- What the causes and bindings of a bit owe to its owner. -/
structure Owned (w : World) (bit : Nat) (o : Owner) : Prop where
  word : ∀ c ∈ w.wordCauses bit, o.Legit c
  pending : ∀ c ∈ w.pendingCauses bit, o.Legit c
  binding : ∀ c ev b, w.binding c ev = some b → b.mask.getLsbD bit = true → o.bound = true ∨ b.call = o.call

/-- The state of the reactor and the kernel, in every run. -/
structure Sound (w : World) : Prop where
  used : ∀ bit, w.r.used.getLsbD bit = true ↔ (w.r.slots bit).isSome
  owner : ∀ bit reg, w.r.slots bit = some reg → ∃ o, w.owner bit = some o ∧ o.key = reg.key
  free : ∀ bit, w.r.slots bit = none → w.owner bit = none
  word : ∀ bit, w.word.getLsbD bit = true ↔ w.wordCauses bit ≠ []
  pending : ∀ bit, w.r.pending.getLsbD bit = true ↔ w.pendingCauses bit ≠ []

/-- What the reports say of the state, in every run. -/
structure Reported (w : World) (rs : List Report) : Prop where
  due : ∀ bit, owed bit rs = true → (w.word ||| w.r.pending).getLsbD bit = true ∧ w.r.used.getLsbD bit = true
  sorted : (handed rs).2.Pairwise (· < ·)
  taken : ∀ bit ∈ (handed rs).2, (handed rs).1.getLsbD bit = true
  below : ∀ bit ∈ (handed rs).2, ∀ p, w.r.pending.getLsbD p = true → bit < p
  pending : ∀ p, w.r.pending.getLsbD p = true → (handed rs).1.getLsbD p = true
  given : (givenOut rs).Pairwise fun m₁ m₂ => m₁ &&& m₂ = 0
  used : ∀ m ∈ givenOut rs, ∀ bit, m.getLsbD bit = true → w.r.used.getLsbD bit = true

section Steps

variable {w w' : World} {rs : List Report}

/-! ### A signal -/

lemma Sound.signal (h : Sound w) (bits : Word) (cause : Cause) : Sound (w.signal bits cause) where
  used := h.used
  owner := h.owner
  free := h.free
  word b := by
    have hb := h.word b
    simp only [World.signal, BitVec.getLsbD_or, Bool.or_eq_true]
    split_ifs with hbits
    · simp [hbits]
    · simp [hbits, hb]
  pending := h.pending

lemma Reported.signal (h : Reported w rs) (bits : Word) (cause : Cause) :
    Reported (w.signal bits cause) (rs ++ [.signalled bits w.r.used]) := by
  refine ⟨fun bit howed => ?_, ?_, ?_, ?_, ?_, ?_, ?_⟩
  · rw [owed_concat, Report.owe, Bool.or_eq_true, Bool.and_eq_true] at howed
    show ((w.word ||| bits) ||| w.r.pending).getLsbD bit = true ∧ w.r.used.getLsbD bit = true
    simp only [BitVec.getLsbD_or, Bool.or_eq_true]
    rcases howed with howed | ⟨hbit, hused⟩
    · obtain ⟨hset, hused⟩ := h.due bit howed
      simp only [BitVec.getLsbD_or, Bool.or_eq_true] at hset
      exact ⟨hset.imp_left .inl, hused⟩
    · exact ⟨.inl (.inr hbit), hused⟩
  all_goals
    first
    | rw [handed_concat]
    | rw [givenOut_of_none rs rfl]
  · exact h.sorted
  · exact h.taken
  · exact h.below
  · exact h.pending
  · exact h.given
  · exact h.used

lemma Owned.signal {o : Owner} (h : Owned w bit o) {bits : Word} {cause : Cause}
    (hlegit : bits.getLsbD bit = true → o.Legit cause) : Owned (w.signal bits cause) bit o where
  word c hc := by
    simp only [World.signal] at hc
    split_ifs at hc with hbits
    · rcases List.mem_cons.mp hc with rfl | hc
      · exact hlegit hbits
      · exact h.word c hc
    · exact h.word c hc
  pending := h.pending
  binding := h.binding

/-! ### A registration -/

/-- The bits of a mask are given to a source. -/
structure Gives (w w' : World) (m : Word) (o : Owner) : Prop where
  disjoint : m &&& w.r.used = 0
  used : w'.r.used = w.r.used ||| m
  slot : ∀ bit, m.getLsbD bit = true → ∃ reg, w'.r.slots bit = some reg ∧ o.key = reg.key
  others : ∀ bit, m.getLsbD bit = false → w'.r.slots bit = w.r.slots bit
  owner : ∀ bit, w'.owner bit = if m.getLsbD bit then some o else w.owner bit
  pending : w'.r.pending = w.r.pending
  word : w'.word = w.word
  wordCauses : w'.wordCauses = w.wordCauses
  pendingCauses : w'.pendingCauses = w.pendingCauses

section Give

variable {m : Word} {o : Owner}

end Give

/-! ### A turn of the loop -/

/-- The world with the word taken over. -/
def World.took (w : World) : World :=
  { w with
    r := { w.r with pending := w.word }
    word := 0
    wordCauses := fun _ => []
    pendingCauses := w.wordCauses }

lemma Sound.take (h : Sound w) : Sound w.took where
  used := h.used
  owner := h.owner
  free := h.free
  word bit := by simp [World.took]
  pending := h.word

lemma Reported.take (h : Reported w rs) (hzero : w.r.pending = 0) : Reported w.took (rs ++ [.took w.word]) := by
  refine ⟨fun bit howed => ?_, ?_, ?_, ?_, ?_, ?_, ?_⟩
  · rw [owed_concat] at howed
    obtain ⟨hset, hused⟩ := h.due bit howed
    rw [hzero] at hset
    exact ⟨by simpa [World.took] using hset, hused⟩
  all_goals
    first
    | rw [handed_concat]
    | rw [givenOut_of_none rs rfl]
  · exact .nil
  · simp [Report.hand]
  · simp [Report.hand]
  · exact fun p hp => hp
  · exact h.given
  · exact h.used

/-- The world with the lowest pending bit taken. -/
def World.drained (w : World) : World :=
  { w with
    r := { w.r with pending := (drainOne w.r.pending).2 }
    pendingCauses := update w.pendingCauses (drainOne w.r.pending).1 [] }

lemma getLsbD_drained (hne : w.r.pending ≠ 0) (bit : Nat) : w.drained.r.pending.getLsbD bit = true ↔
    w.r.pending.getLsbD bit = true ∧ bit ≠ (drainOne w.r.pending).1 := by
  by_cases hbit : bit < 64
  · exact getLsbD_drainOne hne hbit
  · constructor
    · intro h
      exact absurd (BitVec.lt_of_getLsbD h) hbit
    · intro h
      exact absurd (BitVec.lt_of_getLsbD h.1) hbit

lemma Sound.drain (h : Sound w) (hne : w.r.pending ≠ 0) : Sound w.drained where
  used := h.used
  owner := h.owner
  free := h.free
  word := h.word
  pending bit := by
    rw [getLsbD_drained hne, h.pending]
    show _ ↔ update w.pendingCauses (drainOne w.r.pending).1 [] bit ≠ []
    rw [update_apply]
    split_ifs with hb
    · simp [hb]
    · simp [hb]

/-- The lowest bit is behind those that were reported, and before those that are left. -/
lemma Reported.drain (h : Reported w rs) (hs : Sound w) (hne : w.r.pending ≠ 0) {r : Report}
    (hr : (∃ key o cs, r = .returned (drainOne w.r.pending).1 key o cs) ∨
      r = .dropped (drainOne w.r.pending).1 ∧ w.r.slots (drainOne w.r.pending).1 = none) :
    Reported w.drained (rs ++ [r]) := by
  obtain ⟨hlt, hset⟩ := trailingZeros_spec hne
  have hlow : ∀ p, w.drained.r.pending.getLsbD p = true → (drainOne w.r.pending).1 < p := by
    intro p hp
    obtain ⟨hp, hpne⟩ := (getLsbD_drained hne p).mp hp
    exact lt_of_le_of_ne (trailingZeros_le hp) (Ne.symm hpne)
  have hkept : ∀ p, w.drained.r.pending.getLsbD p = true → w.r.pending.getLsbD p = true :=
    fun p hp => ((getLsbD_drained hne p).mp hp).1
  have hgives : r.gives? = none := by
    rcases hr with ⟨key, o, cs, rfl⟩ | ⟨rfl, -⟩ <;> rfl
  have hgiven := givenOut_of_none rs hgives
  have howed : ∀ bit, owed bit (rs ++ [r]) = true → bit ≠ (drainOne w.r.pending).1 ∧ owed bit rs = true := by
    intro bit hbit
    rw [owed_concat] at hbit
    rcases hr with ⟨key, o, cs, rfl⟩ | ⟨rfl, hfree⟩
    · rw [Report.owe, Bool.and_eq_true] at hbit
      exact ⟨fun heq => by simp [heq] at hbit, hbit.1⟩
    · refine ⟨?_, hbit⟩
      rintro rfl
      have hused := (hs.used _).mp (h.due _ hbit).2
      rw [hfree] at hused
      cases hused
  refine ⟨fun bit hbit => ?_, ?_, ?_, ?_, ?_, by rw [hgiven]; exact h.given, by rw [hgiven]; exact h.used⟩
  · obtain ⟨hbne, hbit⟩ := howed bit hbit
    obtain ⟨hin, hused⟩ := h.due bit hbit
    refine ⟨?_, hused⟩
    rw [BitVec.getLsbD_or, Bool.or_eq_true] at hin ⊢
    exact hin.imp_right fun hp => (getLsbD_drained hne bit).mpr ⟨hp, hbne⟩
  · rw [handed_concat]
    rcases hr with ⟨key, o, cs, rfl⟩ | ⟨rfl, -⟩
    · refine List.pairwise_append.mpr ⟨h.sorted, List.pairwise_singleton _ _, fun a ha b hb => ?_⟩
      obtain rfl := List.mem_singleton.mp hb
      exact h.below a ha _ hset
    · exact h.sorted
  · rw [handed_concat]
    rcases hr with ⟨key, o, cs, rfl⟩ | ⟨rfl, -⟩
    · intro b hb
      rcases List.mem_append.mp hb with hb | hb
      · exact h.taken b hb
      · obtain rfl := List.mem_singleton.mp hb
        exact h.pending _ hset
    · exact h.taken
  · rw [handed_concat]
    rcases hr with ⟨key, o, cs, rfl⟩ | ⟨rfl, -⟩
    · intro b hb p hp
      rcases List.mem_append.mp hb with hb | hb
      · exact h.below b hb p (hkept p hp)
      · obtain rfl := List.mem_singleton.mp hb
        exact hlow p hp
    · exact fun b hb p hp => h.below b hb p (hkept p hp)
  · rw [handed_concat]
    rcases hr with ⟨key, o, cs, rfl⟩ | ⟨rfl, -⟩ <;> exact fun p hp => h.pending p (hkept p hp)

/-- What a turn of the loop can do. -/
lemma World.turn_cases (w : World) :
    w.turn = (w, [.blocked]) ∨
    w.r.pending = 0 ∧ w.turn = (w.took, [.took w.word]) ∨
    w.r.pending ≠ 0 ∧ ∃ r, w.turn = (w.drained, [r]) ∧
      ((∃ reg, w.r.slots (drainOne w.r.pending).1 = some reg ∧
          r = .returned (drainOne w.r.pending).1 reg.key (w.owner (drainOne w.r.pending).1)
            (w.pendingCauses (drainOne w.r.pending).1)) ∨
        r = .dropped (drainOne w.r.pending).1 ∧ w.r.slots (drainOne w.r.pending).1 = none) := by
  rw [World.turn]
  cases hturn : w.r.turn w.word with
  | none => exact .inl rfl
  | some res =>
    obtain ⟨key, word, r⟩ := res
    obtain ⟨hzero, -, -, rfl, rfl⟩ | ⟨hne, rfl, rfl, rfl⟩ := Reactor.turn_cases hturn
    · exact .inr (.inl ⟨hzero, if_pos hzero⟩)
    · refine .inr (.inr ⟨hne, _, if_neg hne, ?_⟩)
      cases hslot : w.r.slots (drainOne w.r.pending).1 with
      | none => exact .inr ⟨rfl, rfl⟩
      | some reg => exact .inl ⟨reg, rfl, rfl⟩

/-- The world with a bit given to the source of a call. -/
def World.given (bit : Nat) (signals : Signals) (key : Key) (binding : Bindings) (w : World) : World :=
  { w with
    r := { w.r with slots := update w.r.slots bit (some ⟨key, signals⟩), used := w.r.used ||| mask bit }
    binding
    calls := w.calls + 1
    owner := update w.owner bit (some ⟨w.calls, key, false⟩) }

/-- Every bit is set for its owner only. -/
def AllOwned (w : World) : Prop := ∀ bit o, w.owner bit = some o → Owned w bit o

/-- The bindings that a failed call leaves are of a bit that nobody owns. -/
lemma AllOwned.fail (h : AllOwned w) (hs : Sound w) (hbs : ∀ c ev, bs c ev = w.binding c ev ∨
      ∃ bit, Reactor.lowestClearBit w.r.used = some bit ∧ bs c ev = some ⟨mask bit, w.calls⟩) :
    AllOwned { w with binding := bs, calls := w.calls + 1 } := by
  intro bit o howner
  refine ⟨(h bit o howner).word, (h bit o howner).pending, fun c ev b hb hmask => ?_⟩
  rcases hbs c ev with hold | ⟨bit', hclear, hnew⟩
  · exact (h bit o howner).binding c ev b (hold ▸ hb) hmask
  · obtain ⟨hlt, hunused⟩ := lowestClearBit_spec hclear
    obtain rfl := Option.some.inj (hnew.symm.trans hb)
    obtain rfl := (getLsbD_mask hlt).mp hmask
    have hfree : w.r.slots bit = none := by
      cases hslot : w.r.slots bit with
      | none => rfl
      | some reg =>
        rw [(hs.used bit).mpr (by rw [hslot]; rfl)] at hunused
        cases hunused
    have howner : w.owner bit = some o := howner
    rw [hs.free bit hfree] at howner
    cases howner

/-- A bit that is not set, and that is bound by nothing else, has no causes but those of its call. -/
lemma AllOwned.register (h : AllOwned w) (hs : Sound w) {signals : Signals}
    (hclean : Clean w (.register source signals key ok))
    (hclear : Reactor.lowestClearBit w.r.used = some bit)
    (hbind : bindAll ok source ⟨mask bit, w.calls⟩ signals.events w.binding = (true, bs)) :
    AllOwned ((w.given bit signals key bs).signal (mask bit) (.self w.calls)) := by
  obtain ⟨hok, hdone⟩ := bindAll_done hbind
  obtain ⟨hunset, hunbound⟩ := hclean hok bit hclear
  obtain ⟨hlt, -⟩ := lowestClearBit_spec hclear
  rw [BitVec.getLsbD_or, Bool.or_eq_false_iff] at hunset
  intro bit' o howner
  have howner : update w.owner bit (some ⟨w.calls, key, false⟩) bit' = some o := howner
  by_cases hbit : bit' = bit
  · subst hbit
    rw [update_self] at howner
    obtain rfl := Option.some.inj howner
    have hword : w.wordCauses bit' = [] := by
      by_contra hne
      rw [(hs.word bit').mpr hne] at hunset
      cases hunset.1
    have hpending : w.pendingCauses bit' = [] := by
      by_contra hne
      rw [(hs.pending bit').mpr hne] at hunset
      cases hunset.2
    refine Owned.signal ⟨?_, ?_, fun c ev b hb hmask => .inr ?_⟩ fun _ => .inr rfl
    · intro c hc
      rw [show (w.given bit' signals key bs).wordCauses bit' = [] from hword] at hc
      cases hc
    · intro c hc
      rw [show (w.given bit' signals key bs).pendingCauses bit' = [] from hpending] at hc
      cases hc
    · -- an older binding of the bit is one that this call has replaced
      have hb : bs c ev = some b := hb
      rcases bindAll_cases hbind c ev with hold | hnew
      · obtain ⟨rfl, hev⟩ := hunbound c ev b (hold ▸ hb) hmask
        rw [hdone ev hev] at hb
        rw [← Option.some.inj hb]
      · rw [← Option.some.inj (hnew.symm.trans hb)]
  · rw [update_of_ne hbit] at howner
    have hother : (mask bit).getLsbD bit' = true → False := fun hmask => hbit ((getLsbD_mask hlt).mp hmask)
    have hgiven : Owned (w.given bit signals key bs) bit' o := by
      refine ⟨(h bit' o howner).word, (h bit' o howner).pending, fun c ev b hb hmask => ?_⟩
      rcases bindAll_cases hbind c ev with hold | hnew
      · exact (h bit' o howner).binding c ev b (hold ▸ hb) hmask
      · obtain rfl := Option.some.inj (hnew.symm.trans hb)
        exact (hother hmask).elim
    exact hgiven.signal fun hmask => (hother hmask).elim

lemma Owner.legit_of_bound {o : Owner} (hbound : o.bound = true) (c : Cause) : o.Legit c := by
  cases c with
  | self n => exact .inl hbound
  | binding n => exact .inl hbound
  | outside => exact hbound

lemma AllOwned.registerBound (h : AllOwned w) {m : Word} (hg : Gives w w' m ⟨w.calls, key, true⟩)
    (hbinding : w'.binding = w.binding) : AllOwned w' := by
  intro bit o howner
  rw [hg.owner] at howner
  split_ifs at howner with hm
  · obtain rfl := Option.some.inj howner
    exact ⟨fun c _ => Owner.legit_of_bound rfl c, fun c _ => Owner.legit_of_bound rfl c, fun _ _ _ _ _ => .inl rfl⟩
  · obtain ⟨hword, hpending, hbound⟩ := h bit o howner
    refine ⟨?_, ?_, ?_⟩
    · rwa [hg.wordCauses]
    · rwa [hg.pendingCauses]
    · rwa [hbinding]

lemma AllOwned.take (h : AllOwned w) : AllOwned w.took := fun bit o howner =>
  ⟨by simp [World.took], (h bit o howner).word, (h bit o howner).binding⟩

lemma AllOwned.drain (h : AllOwned w) : AllOwned w.drained := by
  intro bit o howner
  refine ⟨(h bit o howner).word, fun c hc => ?_, (h bit o howner).binding⟩
  have hc : c ∈ update w.pendingCauses (drainOne w.r.pending).1 [] bit := hc
  rw [update_apply] at hc
  split_ifs at hc
  · cases hc
  · exact (h bit o howner).pending c hc

end Steps

/-- A run of actions. -/
def World.stepAll (w : World) : List Act → World × List Report
  | [] => (w, [])
  | a :: acts => (((w.step a).1.stepAll acts).1, (w.step a).2 ++ ((w.step a).1.stepAll acts).2)

lemma Served.stepAll {w : World} {rs : List Report} (h : Served (fun _ _ => True) w rs) (acts : List Act) :
    Served (fun _ _ => True) (w.stepAll acts).1 (rs ++ (w.stepAll acts).2) := by
  induction acts generalizing w rs with
  | nil => simpa [World.stepAll] using h
  | cons a acts ih => simpa [World.stepAll] using ih (h.step a trivial)

end Eunomia.Ipc
