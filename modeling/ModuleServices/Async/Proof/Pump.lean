import ModuleServices.Async.Pump
import Mathlib.Data.List.Basic

/-!
# A pump at rest has drained after every request

`Inv` says who may move the word on from each state: an owner from `running`, a task, a
call that runs one or one about to submit it from `scheduled`. A drain that has begun
with the epoch it observed serves the requests up to it, and the exit to `idle` succeeds
only while that is still the epoch of the word.
-/

namespace ModuleServices.Pump.Proof

variable {config : Config} {w w' : World} {id : Nat}

/-- The call is the consumer. -/
def Owns : Phase → Prop
  | .ownedLoad | .drainBegin _ | .drain _ | .storeDrained _ | .exitLoad _ | .exitExchange _ _ => True
  | _ => False

/-- The call will take a scheduled pump on, or close it. -/
def Takes : Phase → Prop
  | .runLoad | .runExchange _ | .submit _ | .fail => True
  | _ => False

/-- Every request up to that epoch is followed by a drain that had observed it. -/
def Served (history : List Event) (epoch : Nat) : Prop :=
  ∀ (i : Nat) n, history[i]? = some (.requested n) → n ≤ epoch → Followed history i n

/-- The word of a pump that has an owner. -/
def Live (w : World) : Prop := w.word.state = .running ∨ w.word.state = .stopping

/-- What a call in progress relies on. -/
def Relies (w : World) : Phase → Prop
  | .submit (some n) | .accepted (some n) => Event.requested n ∈ w.history
  | .inlineExchange word | .runExchange word => word.state = .idle ∨ word.state = .scheduled
  | .ownedLoad => Live w
  | .drainBegin e => Live w ∧ e ≤ w.word.epoch
  | .drain e | .storeDrained e => Live w ∧ e ≤ w.word.epoch ∧ Served w.history e
  | .exitLoad e | .exitExchange e _ =>
    Live w ∧ e ≤ w.word.epoch ∧ Served w.history e ∧ w.drainedEpoch = e
  | _ => True

/-- The requests that have taken effect, each once, and those that have been answered. -/
structure Ledger (w : World) : Prop where
  requested : ∀ (i : Nat) n, w.history[i]? = some (.requested n) → n ≤ w.word.epoch
  once : ∀ (i j : Nat) n, w.history[i]? = some (.requested n) →
    w.history[j]? = some (.requested n) → i = j
  notified : ∀ n ∈ w.notified, Event.requested n ∈ w.history

structure Inv (w : World) : Prop where
  relies : ∀ i phase, w.call i = some phase → Relies w phase
  single : ∀ i j phase phase', w.call i = some phase → w.call j = some phase' → Owns phase →
    Owns phase' → i = j
  running : w.word.state = .running →
    ∃ i phase, w.call i = some phase ∧ (Owns phase ∨ phase = .fail)
  scheduled : w.word.state = .scheduled →
    0 < w.outstanding ∨ ∃ i phase, w.call i = some phase ∧ Takes phase
  idle : w.word.state = .idle → Served w.history w.word.epoch ∧ w.drainedEpoch = w.word.epoch
  ledger : Ledger w

theorem inv_start : Inv {} := by
  constructor <;> try simp [Served]
  constructor <;> simp

theorem Inv.live (h : Inv w) {phase : Phase} (hid : w.call id = some phase) (howns : Owns phase) :
    Live w := by
  have := h.relies id phase hid
  cases phase <;> simp_all [Owns, Relies]

/-! ## The events -/

theorem getElem?_concat {history : List Event} {event event' : Event} {i : Nat} :
    (history ++ [event])[i]? = some event' ↔
      history[i]? = some event' ∨ i = history.length ∧ event = event' := by
  grind

theorem followed_append {history : List Event} {event : Event} {i n : Nat}
    (h : Followed history i n) : Followed (history ++ [event]) i n := by
  obtain ⟨j, observed, hij, hj, hle⟩ := h
  exact ⟨j, observed, hij, getElem?_concat.mpr (.inl hj), hle⟩

/-- A request that takes effect is past every epoch served. -/
theorem Served.request {history : List Event} {e n : Nat} (h : Served history e) (hn : e < n) :
    Served (history ++ [.requested n]) e := by
  intro i m hi hm
  rcases getElem?_concat.mp hi with hi | ⟨-, heq⟩
  · exact followed_append (h i m hi hm)
  · cases heq
    exact absurd hm (Nat.not_le_of_lt hn)

theorem Served.began {history : List Event} {e observed : Nat} (h : Served history e) :
    Served (history ++ [.began observed]) e := by
  intro i m hi hm
  rcases getElem?_concat.mp hi with hi | ⟨-, heq⟩
  · exact followed_append (h i m hi hm)
  · cases heq

/-- A drain that begins serves the epoch it had observed. -/
theorem served_began {history : List Event} {observed : Nat} :
    Served (history ++ [.began observed]) observed := by
  intro i m hi hm
  rcases getElem?_concat.mp hi with hi | ⟨-, heq⟩
  · exact ⟨history.length, observed, (List.getElem?_eq_some_iff.mp hi).1,
      getElem?_concat.mpr (.inr ⟨rfl, rfl⟩), hm⟩
  · cases heq

/-! ## The steps -/

/-- One call goes on, and what it writes suits the others. -/
theorem Inv.go (h : Inv w) (u : World) (next : Option Phase)
    (hcall : u.call = Function.update w.call id next)
    (hothers : ∀ i phase, i ≠ id → w.call i = some phase → Relies w phase → Relies u phase)
    (hrelies : ∀ phase, next = some phase → Relies u phase)
    (howns : ∀ phase, next = some phase → Owns phase →
      (∃ old, w.call id = some old ∧ Owns old) ∨ ∀ i old, w.call i = some old → ¬Owns old)
    (hrunning : u.word.state = .running → (∃ phase, next = some phase ∧ (Owns phase ∨ phase = .fail))
      ∨ w.word.state = .running ∧ ∀ old, w.call id = some old → ¬Owns old ∧ old ≠ .fail)
    (hscheduled : u.word.state = .scheduled →
      0 < u.outstanding ∨ (∃ phase, next = some phase ∧ Takes phase)
      ∨ w.word.state = .scheduled ∧ w.outstanding ≤ u.outstanding
        ∧ ∀ old, w.call id = some old → ¬Takes old)
    (hidle : u.word.state = .idle →
      Served u.history u.word.epoch ∧ u.drainedEpoch = u.word.epoch)
    (hledger : Ledger u) : Inv u where
  relies i phase hi := by
    rw [hcall] at hi
    by_cases hid : i = id
    · subst hid
      exact hrelies phase (by simpa using hi)
    · have hold : w.call i = some phase := by simpa [hid] using hi
      exact hothers i phase hid hold (h.relies i phase hold)
  single i j phase phase' hi hj ho ho' := by
    rw [hcall] at hi hj
    have hold : ∀ k phase, Function.update w.call id next k = some phase → Owns phase →
        (∃ old, w.call k = some old ∧ Owns old) ∨ k = id ∧ ∀ i old, w.call i = some old → ¬Owns old := by
      intro k phase hk ho
      by_cases hid : k = id
      · subst hid
        exact (howns phase (by simpa using hk) ho).imp_right fun hnone => ⟨rfl, hnone⟩
      · exact .inl ⟨phase, by simpa [hid] using hk, ho⟩
    rcases hold i phase hi ho with ⟨old, hi, ho⟩ | ⟨hi, hnone⟩
    · rcases hold j phase' hj ho' with ⟨old', hj, ho'⟩ | ⟨-, hnone⟩
      · exact h.single i j old old' hi hj ho ho'
      · exact absurd ho (hnone i old hi)
    · rcases hold j phase' hj ho' with ⟨old', hj, ho'⟩ | ⟨hj, -⟩
      · exact absurd ho' (hnone j old' hj)
      · exact hi.trans hj.symm
  running hr := by
    rw [hcall]
    rcases hrunning hr with ⟨phase, hnext, hphase⟩ | ⟨hr, hold⟩
    · exact ⟨id, phase, by simpa using hnext, hphase⟩
    · obtain ⟨i, phase, hi, hphase⟩ := h.running hr
      have hid : i ≠ id := by
        rintro rfl
        rcases hphase with ho | hf
        · exact (hold phase hi).1 ho
        · exact (hold phase hi).2 hf
      exact ⟨i, phase, by simpa [hid] using hi, hphase⟩
  scheduled hs := by
    rw [hcall]
    rcases hscheduled hs with hpos | ⟨phase, hnext, hphase⟩ | ⟨hs, hle, hold⟩
    · exact .inl hpos
    · exact .inr ⟨id, phase, by simpa using hnext, hphase⟩
    · rcases h.scheduled hs with hpos | ⟨i, phase, hi, hphase⟩
      · exact .inl (Nat.lt_of_lt_of_le hpos hle)
      · have hid : i ≠ id := by
          rintro rfl
          exact hold phase hi hphase
        exact .inr ⟨i, phase, by simpa [hid] using hi, hphase⟩
  idle := hidle
  ledger := hledger

/-- A call goes on and writes nothing. It leaves the word to somebody, unless it never had it. -/
theorem Inv.move (h : Inv w) {old : Phase} (next : Option Phase) (hold : w.call id = some old)
    (hrelies : ∀ phase, next = some phase → Relies w phase)
    (howns : ∀ phase, next = some phase → Owns phase → Owns old)
    (hrunning : w.word.state = .running → (∃ phase, next = some phase ∧ (Owns phase ∨ phase = .fail))
      ∨ ¬Owns old ∧ old ≠ .fail)
    (hscheduled : w.word.state = .scheduled → (∃ phase, next = some phase ∧ Takes phase)
      ∨ ¬Takes old) :
    Inv { w with call := Function.update w.call id next } := by
  refine h.go _ next rfl (fun _ _ _ _ hr => hr) hrelies ?_ ?_ ?_ h.idle
    ⟨h.ledger.requested, h.ledger.once, h.ledger.notified⟩
  · exact fun phase hnext ho => .inl ⟨old, hold, howns phase hnext ho⟩
  · intro hr
    refine (hrunning hr).imp_right fun hnot => ⟨hr, fun old' hold' => ?_⟩
    cases hold.symm.trans hold'
    exact hnot
  · intro hs
    refine .inr ((hscheduled hs).imp_right fun hnot => ⟨hs, Nat.le_refl _, fun old' hold' => ?_⟩)
    cases hold.symm.trans hold'
    exact hnot

/-- A call begins. -/
theorem Inv.begin (h : Inv w) {phase : Phase} (hid : w.call id = none)
    (hrelies : Relies w phase) (howns : ¬Owns phase) : Inv (w.goto id phase) := by
  refine h.go _ (some phase) rfl (fun _ _ _ _ hr => hr) ?_ ?_ ?_ ?_ h.idle
    ⟨h.ledger.requested, h.ledger.once, h.ledger.notified⟩
  · rintro _ ⟨⟩
    exact hrelies
  · rintro _ ⟨⟩ ho
    exact absurd ho howns
  · exact fun hr => .inr ⟨hr, fun old hold => by simp [hid] at hold⟩
  · exact fun hs => .inr (.inr ⟨hs, Nat.le_refl _, fun old hold => by simp [hid] at hold⟩)

/-! ### The checks -/

theorem inv_notifyCheck (h : Inv w) {old : Phase} (hold : w.call id = some old) (howns : ¬Owns old)
    (htakes : ¬Takes old) (word : Word) : Inv (w.notifyCheck config id word) := by
  have hfail : old ≠ .fail := by
    rintro rfl
    exact htakes trivial
  unfold World.notifyCheck
  split
  · exact h.move none hold nofun nofun (fun _ => .inr ⟨howns, hfail⟩) fun _ => .inr htakes
  · refine h.move (some _) hold ?_ ?_ (fun _ => .inr ⟨howns, hfail⟩) fun _ => .inr htakes
    · rintro _ ⟨⟩
      trivial
    · rintro _ ⟨⟩ ⟨⟩

theorem inv_inlineCheck (h : Inv w) {old : Phase} (hold : w.call id = some old) (howns : ¬Owns old)
    (htakes : ¬Takes old) (word : Word) : Inv (w.inlineCheck config id word) := by
  have hfail : old ≠ .fail := by
    rintro rfl
    exact htakes trivial
  unfold World.inlineCheck
  split
  · exact h.move none hold nofun nofun (fun _ => .inr ⟨howns, hfail⟩) fun _ => .inr htakes
  · rename_i hfree
    refine h.move (some _) hold ?_ ?_ (fun _ => .inr ⟨howns, hfail⟩) fun _ => .inr htakes
    · rintro _ ⟨⟩
      simp only [Relies]
      cases hstate : word.state <;> simp_all
    · rintro _ ⟨⟩ ⟨⟩

/-- A task that looks at the word as it is leaves it to the owner, or takes it on. -/
theorem inv_runCheck (h : Inv w) {old : Phase} (hold : w.call id = some old) (howns : ¬Owns old)
    (hfail : old ≠ .fail) : Inv (w.runCheck id w.word) := by
  unfold World.runCheck
  split
  · rename_i hbusy
    refine h.move none hold nofun nofun (fun _ => .inr ⟨howns, hfail⟩) fun hs => ?_
    simp [hs] at hbusy
  · refine h.move (some _) hold ?_ ?_ (fun _ => .inr ⟨howns, hfail⟩) fun _ => .inl ⟨_, rfl, trivial⟩
    · rintro _ ⟨⟩
      simp only [Relies]
      cases hstate : w.word.state <;> simp_all
    · rintro _ ⟨⟩ ⟨⟩

/-- The consumer, after a drain, keeps what the drain has served. -/
theorem inv_exitCheck (h : Inv w) {old : Phase} {e : Nat} (hold : w.call id = some old)
    (howns : Owns old) (hrelies : Relies w (.exitLoad e)) :
    Inv (w.exitCheck config id e w.word) := by
  have hnot : w.word.state = .scheduled → False := by
    intro hs
    have := h.live hold howns
    simp [Live, hs] at this
  unfold World.exitCheck
  split
  · rename_i hstop
    exact h.move none hold nofun nofun (fun hr => by simp [hr] at hstop) fun hs => (hnot hs).elim
  · split
    · refine h.move (some _) hold ?_ (fun _ _ _ => howns) (fun _ => .inl ⟨_, rfl, .inl trivial⟩)
        fun hs => (hnot hs).elim
      rintro _ ⟨⟩
      exact h.live hold howns
    · refine h.move (some _) hold ?_ (fun _ _ _ => howns) (fun _ => .inl ⟨_, rfl, .inl trivial⟩)
        fun hs => (hnot hs).elim
      rintro _ ⟨⟩
      exact hrelies

/-! ### The writes -/

/-- What a call that is not the consumer relies on is in the history. -/
theorem relies_free {u : World} {phase : Phase} (howns : ¬Owns phase)
    (hmem : ∀ event ∈ w.history, event ∈ u.history) (h : Relies w phase) : Relies u phase := by
  cases phase with
  | submit request | accepted request =>
    cases request with
    | none => trivial
    | some n => exact hmem _ h
  | inlineExchange | runExchange => exact h
  | ownedLoad | drainBegin | drain | storeDrained | exitLoad | exitExchange =>
    exact absurd trivial howns
  | _ => trivial

/-- What any call relies on survives a request and the closing of the pump. -/
theorem relies_mono {u : World} {phase : Phase} (hlive : Live w → Live u)
    (hepoch : w.word.epoch ≤ u.word.epoch)
    (hserved : ∀ e, e ≤ w.word.epoch → Served w.history e → Served u.history e)
    (hmem : ∀ event ∈ w.history, event ∈ u.history) (hdrained : u.drainedEpoch = w.drainedEpoch)
    (h : Relies w phase) : Relies u phase := by
  cases phase with
  | ownedLoad => exact hlive h
  | drainBegin => exact ⟨hlive h.1, Nat.le_trans h.2 hepoch⟩
  | drain | storeDrained => exact ⟨hlive h.1, Nat.le_trans h.2.1 hepoch, hserved _ h.2.1 h.2.2⟩
  | exitLoad | exitExchange =>
    exact ⟨hlive h.1, Nat.le_trans h.2.1 hepoch, hserved _ h.2.1 h.2.2.1, hdrained.trans h.2.2.2⟩
  | _ => exact relies_free (by simp [Owns]) hmem h

theorem Inv.others (h : Inv w) {old phase : Phase} {i : Nat} (hold : w.call id = some old)
    (howns : Owns old) (hne : i ≠ id) (hi : w.call i = some phase) : ¬Owns phase :=
  fun ho => hne (h.single i id phase old hi hold ho howns)

theorem Inv.nobody (h : Inv w) (hfree : w.word.state = .idle ∨ w.word.state = .scheduled)
    (i : Nat) (phase : Phase) (hi : w.call i = some phase) : ¬Owns phase := by
  intro ho
  have hlive := h.live hi ho
  rcases hfree with hs | hs <;> simp [Live, hs] at hlive

theorem ledger_request (h : Ledger w) {u : World} (hepoch : u.word.epoch = w.word.epoch + 1)
    (hhistory : u.history = w.history ++ [.requested (w.word.epoch + 1)])
    (hnotified : ∀ n ∈ u.notified, n ∈ w.notified ∨ n = w.word.epoch + 1) : Ledger u where
  requested i n hi := by
    rw [hhistory] at hi
    rw [hepoch]
    rcases getElem?_concat.mp hi with hi | ⟨-, heq⟩
    · exact Nat.le_succ_of_le (h.requested i n hi)
    · cases heq
      exact Nat.le_refl _
  once i j n hi hj := by
    rw [hhistory] at hi hj
    -- the epoch of the word is new, so that the request is not in the history yet
    rcases getElem?_concat.mp hi with hi | ⟨hlast, heq⟩
    · rcases getElem?_concat.mp hj with hj | ⟨-, heq⟩
      · exact h.once i j n hi hj
      · cases heq
        exact absurd (h.requested i _ hi) (Nat.not_succ_le_self _)
    · cases heq
      rcases getElem?_concat.mp hj with hj | ⟨hlast', -⟩
      · exact absurd (h.requested j _ hj) (Nat.not_succ_le_self _)
      · exact hlast.trans hlast'.symm
  notified n hn := by
    rw [hhistory]
    rcases hnotified n hn with hn | rfl
    · exact List.mem_append_left _ (h.notified n hn)
    · simp

theorem inv_notifyExchange (h : Inv w) {answer : Bool} {word : Word}
    (hid : w.call id = some (.notifyExchange word)) :
    Inv (w.advance config id answer (.notifyExchange word)) := by
  simp only [World.advance]
  split
  · rename_i hequal
    obtain ⟨-, rfl⟩ := hequal
    have hserved : ∀ e, e ≤ w.word.epoch → Served w.history e →
        Served (w.history ++ [.requested (w.word.epoch + 1)]) e :=
      fun e he hserved => hserved.request (Nat.lt_succ_of_le he)
    split
    · rename_i hidle
      refine h.go _ (some (.submit (some (w.word.epoch + 1)))) rfl ?_ ?_ ?_ ?_ ?_ ?_ ?_
      · intro i phase _ hi hr
        exact relies_free (w := w) (h.nobody (.inl hidle) i phase hi)
          (fun _ hmem => List.mem_append_left _ hmem) hr
      · rintro _ ⟨⟩
        exact List.mem_append_right _ (List.mem_singleton_self _)
      · rintro _ ⟨⟩ ⟨⟩
      · simp [World.goto, hidle]
      · exact fun _ => .inr (.inl ⟨_, rfl, trivial⟩)
      · simp [World.goto, hidle]
      · exact ledger_request h.ledger rfl rfl fun n hn => .inl hn
    · rename_i hidle
      refine h.go _ none rfl ?_ nofun nofun ?_ ?_ ?_ ?_
      · intro i phase _ _ hr
        exact relies_mono (w := w) (fun hlive => hlive) (Nat.le_succ _) hserved
          (fun _ hmem => List.mem_append_left _ hmem) rfl hr
      · intro hr
        refine .inr ⟨hr, fun old hold => ?_⟩
        cases hid.symm.trans hold
        exact ⟨nofun, nofun⟩
      · intro hs
        refine .inr (.inr ⟨hs, Nat.le_refl _, fun old hold => ?_⟩)
        cases hid.symm.trans hold
        exact nofun
      · exact fun hi => absurd hi hidle
      · refine ledger_request h.ledger rfl rfl fun n hn => ?_
        simpa [World.done] using hn
  · exact inv_notifyCheck h hid nofun nofun w.word

/-- The consumer's role is taken from a word that nobody owns. -/
theorem inv_claim (h : Inv w) {epoch : Nat} (hfree : w.word.state = .idle ∨ w.word.state = .scheduled)
    (hepoch : w.word.epoch ≤ epoch) :
    Inv ({ w with word := ⟨.running, epoch⟩ }.goto id .ownedLoad) := by
  refine h.go _ (some .ownedLoad) rfl ?_ ?_ ?_ ?_ nofun nofun ?_
  · intro i phase _ hi hr
    exact relies_free (w := w) (h.nobody hfree i phase hi) (fun _ hmem => hmem) hr
  · rintro _ ⟨⟩
    exact .inl rfl
  · exact fun _ _ _ => .inr (h.nobody hfree)
  · exact fun _ => .inl ⟨_, rfl, .inl trivial⟩
  · exact ⟨fun i n hi => Nat.le_trans (h.ledger.requested i n hi) hepoch, h.ledger.once, h.ledger.notified⟩

theorem inv_inlineExchange (h : Inv w) {answer : Bool} {word : Word}
    (hid : w.call id = some (.inlineExchange word)) :
    Inv (w.advance config id answer (.inlineExchange word)) := by
  have hrelies := h.relies id _ hid
  simp only [World.advance]
  split
  · rename_i hequal
    obtain ⟨-, rfl⟩ := hequal
    exact inv_claim h hrelies (Nat.le_succ _)
  · exact inv_inlineCheck h hid nofun nofun w.word

theorem inv_runExchange (h : Inv w) {answer : Bool} {word : Word}
    (hid : w.call id = some (.runExchange word)) :
    Inv (w.advance config id answer (.runExchange word)) := by
  have hrelies := h.relies id _ hid
  simp only [World.advance]
  split
  · rename_i hequal
    obtain ⟨-, rfl⟩ := hequal
    exact inv_claim h hrelies (Nat.le_refl _)
  · exact inv_runCheck h hid nofun nofun

theorem inv_submit (h : Inv w) {answer : Bool} {request : Option Nat}
    (hid : w.call id = some (.submit request)) :
    Inv (w.advance config id answer (.submit request)) := by
  have hrelies := h.relies id _ hid
  simp only [World.advance]
  split
  · refine h.go _ (some (.accepted request)) rfl (fun _ _ _ _ hr => hr) ?_ ?_ ?_ ?_ h.idle
      ⟨h.ledger.requested, h.ledger.once, h.ledger.notified⟩
    · rintro _ ⟨⟩
      cases request with
      | none => trivial
      | some n => exact hrelies
    · rintro _ ⟨⟩ ⟨⟩
    · refine fun hr => .inr ⟨hr, fun old hold => ?_⟩
      cases hid.symm.trans hold
      exact ⟨nofun, nofun⟩
    · exact fun _ => .inl (Nat.succ_pos _)
  · refine h.move (some .fail) hid ?_ ?_ (fun _ => .inl ⟨_, rfl, .inr rfl⟩)
      fun _ => .inl ⟨_, rfl, trivial⟩
    · rintro _ ⟨⟩
      trivial
    · rintro _ ⟨⟩ ⟨⟩

theorem inv_accepted (h : Inv w) {answer : Bool} {request : Option Nat}
    (hid : w.call id = some (.accepted request)) :
    Inv (w.advance config id answer (.accepted request)) := by
  have hrelies := h.relies id _ hid
  refine h.go _ none rfl (fun _ _ _ _ hr => hr) nofun nofun ?_ ?_ h.idle ?_
  · refine fun hr => .inr ⟨hr, fun old hold => ?_⟩
    cases hid.symm.trans hold
    exact ⟨nofun, nofun⟩
  · refine fun hs => .inr (.inr ⟨hs, Nat.le_refl _, fun old hold => ?_⟩)
    cases hid.symm.trans hold
    exact nofun
  · refine ⟨h.ledger.requested, h.ledger.once, fun n hn => ?_⟩
    rcases List.mem_append.mp hn with hn | hn
    · exact h.ledger.notified n hn
    · cases request with
      | none => cases hn
      | some m =>
        cases List.mem_singleton.mp hn
        exact hrelies

theorem inv_drainBegin (h : Inv w) {answer : Bool} {e : Nat}
    (hid : w.call id = some (.drainBegin e)) :
    Inv (w.advance config id answer (.drainBegin e)) := by
  obtain ⟨hlive, hepoch⟩ := h.relies id _ hid
  refine h.go _ (some (.drain e)) rfl ?_ ?_ ?_ ?_ ?_ ?_ ?_
  · intro i phase hne hi hr
    exact relies_free (w := w) (h.others hid trivial hne hi)
      (fun _ hmem => List.mem_append_left _ hmem) hr
  · rintro _ ⟨⟩
    exact ⟨hlive, hepoch, served_began⟩
  · exact fun _ _ _ => .inl ⟨_, hid, trivial⟩
  · exact fun _ => .inl ⟨_, rfl, .inl trivial⟩
  · intro hs
    have hs : w.word.state = .scheduled := hs
    simp [Live, hs] at hlive
  · intro hi
    have hi : w.word.state = .idle := hi
    simp [Live, hi] at hlive
  · constructor
    · intro i n hi
      rcases getElem?_concat.mp hi with hi | ⟨-, ⟨⟩⟩
      exact h.ledger.requested i n hi
    · intro i j n hi hj
      rcases getElem?_concat.mp hi with hi | ⟨-, ⟨⟩⟩
      rcases getElem?_concat.mp hj with hj | ⟨-, ⟨⟩⟩
      exact h.ledger.once i j n hi hj
    · exact fun n hn => List.mem_append_left _ (h.ledger.notified n hn)

/-- An owner's access that leaves the word alone. -/
theorem Inv.keep (h : Inv w) {old phase : Phase} (hid : w.call id = some old) (howns : Owns old)
    (hrelies : Relies w phase) (hnext : Owns phase ∨ phase = .fail) : Inv (w.goto id phase) := by
  refine h.move (some phase) hid ?_ (fun _ _ _ => howns) (fun _ => .inl ⟨_, rfl, hnext⟩) ?_
  · rintro _ ⟨⟩
    exact hrelies
  · intro hs
    have hlive := h.live hid howns
    simp [Live, hs] at hlive

theorem inv_ownedLoad (h : Inv w) {answer : Bool} (hid : w.call id = some .ownedLoad) :
    Inv (w.advance config id answer .ownedLoad) := by
  simp only [World.advance]
  split
  · rename_i hstop
    exact h.move none hid nofun nofun (fun hr => by simp [hr] at hstop)
      fun hs => by simp [hs] at hstop
  · exact h.keep hid trivial ⟨h.live hid trivial, Nat.le_refl _⟩ (.inl trivial)

theorem inv_drain (h : Inv w) {answer : Bool} {e : Nat} (hid : w.call id = some (.drain e)) :
    Inv (w.advance config id answer (.drain e)) := by
  simp only [World.advance]
  split
  · have hrelies := h.relies id _ hid
    exact h.keep hid trivial hrelies (.inl trivial)
  · exact h.keep hid trivial trivial (.inr rfl)

theorem inv_storeDrained (h : Inv w) {answer : Bool} {e : Nat}
    (hid : w.call id = some (.storeDrained e)) :
    Inv (w.advance config id answer (.storeDrained e)) := by
  obtain ⟨hlive, hepoch, hserved⟩ := h.relies id _ hid
  refine h.go _ (some (.exitLoad e)) rfl ?_ ?_ ?_ ?_ ?_ ?_
    ⟨h.ledger.requested, h.ledger.once, h.ledger.notified⟩
  · intro i phase hne hi hr
    exact relies_free (w := w) (h.others hid trivial hne hi) (fun _ hmem => hmem) hr
  · rintro _ ⟨⟩
    exact ⟨hlive, hepoch, hserved, rfl⟩
  · exact fun _ _ _ => .inl ⟨_, hid, trivial⟩
  · exact fun _ => .inl ⟨_, rfl, .inl trivial⟩
  · intro hs
    have hs : w.word.state = .scheduled := hs
    simp [Live, hs] at hlive
  · intro hi
    have hi : w.word.state = .idle := hi
    simp [Live, hi] at hlive

/-- The consumer gives its role up only while nothing was requested since it looked, or hands it to
the task it is about to submit. -/
theorem inv_exitExchange (h : Inv w) {answer : Bool} {e : Nat} {word : Word}
    (hid : w.call id = some (.exitExchange e word)) :
    Inv (w.advance config id answer (.exitExchange e word)) := by
  have hrelies := h.relies id _ hid
  obtain ⟨hlive, hepoch, hserved, hdrained⟩ := hrelies
  simp only [World.advance]
  split
  · rename_i hequal
    obtain ⟨-, rfl⟩ := hequal
    have hothers : ∀ i phase, i ≠ id → w.call i = some phase → Relies w phase →
        ∀ u : World, u.history = w.history → Relies u phase := by
      intro i phase hne hi hr u hu
      exact relies_free (h.others hid trivial hne hi) (fun _ hmem => hu ▸ hmem) hr
    split
    · rename_i heq
      subst heq
      refine h.go _ none rfl (fun i phase hne hi hr => hothers i phase hne hi hr _ rfl) nofun nofun
        nofun nofun ?_ ⟨h.ledger.requested, h.ledger.once, h.ledger.notified⟩
      exact fun _ => ⟨hserved, hdrained⟩
    · refine h.go _ (some (.submit none)) rfl
        (fun i phase hne hi hr => hothers i phase hne hi hr _ rfl) ?_ ?_ nofun ?_ nofun
        ⟨h.ledger.requested, h.ledger.once, h.ledger.notified⟩
      · rintro _ ⟨⟩
        trivial
      · rintro _ ⟨⟩ ⟨⟩
      · exact fun _ => .inr (.inl ⟨_, rfl, trivial⟩)
  · exact inv_exitCheck h hid trivial ⟨hlive, hepoch, hserved, hdrained⟩

theorem inv_fail (h : Inv w) {answer : Bool} :
    Inv (w.advance config id answer .fail) := by
  refine h.go _ none rfl ?_ nofun nofun nofun nofun nofun
    ⟨h.ledger.requested, h.ledger.once, h.ledger.notified⟩
  intro i phase _ _ hr
  exact relies_mono (w := w) (fun _ => .inr rfl) (Nat.le_refl _) (fun _ _ hs => hs)
    (fun _ hmem => hmem) rfl hr

theorem inv_stop (h : Inv w) : Inv { w with word := ⟨.stopping, w.word.epoch⟩ } where
  relies i phase hi := relies_mono (w := w) (fun _ => .inr rfl) (Nat.le_refl _) (fun _ _ hs => hs)
    (fun _ hmem => hmem) rfl (h.relies i phase hi)
  single := h.single
  running := nofun
  scheduled := nofun
  idle := nofun
  ledger := ⟨h.ledger.requested, h.ledger.once, h.ledger.notified⟩

theorem inv_advance (h : Inv w) {answer : Bool} {phase : Phase} (hid : w.call id = some phase) :
    Inv (w.advance config id answer phase) := by
  cases phase with
  | notifyLoad => exact inv_notifyCheck h hid nofun nofun w.word
  | notifyExchange word => exact inv_notifyExchange h hid
  | submit request => exact inv_submit h hid
  | accepted request => exact inv_accepted h hid
  | inlineLoad => exact inv_inlineCheck h hid nofun nofun w.word
  | inlineExchange word => exact inv_inlineExchange h hid
  | runLoad => exact inv_runCheck h hid nofun nofun
  | runExchange word => exact inv_runExchange h hid
  | ownedLoad => exact inv_ownedLoad h hid
  | drainBegin e => exact inv_drainBegin h hid
  | drain e => exact inv_drain h hid
  | storeDrained e => exact inv_storeDrained h hid
  | exitLoad e => exact inv_exitCheck h hid trivial (h.relies id _ hid)
  | exitExchange e word => exact inv_exitExchange h hid
  | fail => exact inv_fail h

/-- A task that begins to run is not outstanding any more, and takes the pump on. -/
theorem inv_run (h : Inv w) (hid : w.call id = none) :
    Inv ({ w with outstanding := w.outstanding - 1 }.goto id .runLoad) := by
  refine h.go _ (some .runLoad) rfl (fun _ _ _ _ hr => hr) ?_ ?_ ?_ ?_ h.idle
    ⟨h.ledger.requested, h.ledger.once, h.ledger.notified⟩
  · rintro _ ⟨⟩
    trivial
  · rintro _ ⟨⟩ ⟨⟩
  · exact fun hr => .inr ⟨hr, fun old hold => by simp [hid] at hold⟩
  · exact fun _ => .inr (.inl ⟨_, rfl, trivial⟩)

theorem inv_step {a : Action} (h : Inv w) (hs : step config w a = some w') : Inv w' := by
  cases a with
  | stop =>
    cases hs
    exact inv_stop h
  | advance id answer =>
    obtain ⟨phase, hid, rfl⟩ := Option.map_eq_some_iff.mp hs
    exact inv_advance h hid
  | run id =>
    simp only [step] at hs
    split at hs <;> cases hs
    rename_i hfree
    exact inv_run h (by simpa using fun hsome => hfree (.inl hsome))
  | notify id | tryRunInline id | rerun id =>
    simp only [step] at hs
    split at hs <;> cases hs
    rename_i hfree
    exact h.begin (by simpa using hfree) trivial nofun

theorem oneDrain (h : Inv w) : OneDrain w :=
  fun i j _ _ hi hj => h.single i j _ _ hi hj trivial trivial

theorem nothingLost (h : Inv w) : NothingLost w := by
  rintro ⟨hcalls, htasks, hopen⟩
  have hidle : w.word.state = .idle := by
    cases hstate : w.word.state with
    | idle => rfl
    | scheduled =>
      rcases h.scheduled hstate with hpos | ⟨i, phase, hi, -⟩
      · omega
      · simp [hcalls] at hi
    | running =>
      obtain ⟨i, phase, hi, -⟩ := h.running hstate
      simp [hcalls] at hi
    | stopping => exact absurd hstate hopen
  obtain ⟨hserved, hdrained⟩ := h.idle hidle
  refine ⟨hidle, hdrained, fun n hn => ?_⟩
  obtain ⟨i, hi⟩ := List.mem_iff_getElem?.mp (h.ledger.notified n hn)
  refine ⟨i, fun k => ⟨fun hk => h.ledger.once k i n hk hi, fun hk => hk ▸ hi⟩, ?_⟩
  exact hserved i n hi (h.ledger.requested i n hi)

end ModuleServices.Pump.Proof

namespace ModuleServices.Pump

open ModuleServices.Pump.Proof

/-- **The task pump.** Whatever the callers, the tasks and the stops do, and in whatever order, one
drain runs at a time, and a pump at rest has drained after every request. -/
theorem pump_nothing_lost (config : Config) {w : World} (h : Run.Reachable (step config) {} w) :
    OneDrain w ∧ NothingLost w := by
  have hinv : Inv w := h.invariant inv_start fun _ hinv _ hs => inv_step hinv hs
  exact ⟨oneDrain hinv, nothingLost hinv⟩

/-- The steps of a call, each meeting what it asks for. -/
def accesses (id count : Nat) : List Action := List.replicate count (.advance id true)

/-- An inline caller takes the pump before the task it was scheduled for, its drain notifies the
pump, the pump is submitted again, and both tasks run, one of them late. -/
def resubmitted : List Action :=
  [.notify 0] ++ accesses 0 4 ++ [.tryRunInline 1] ++ accesses 1 4 ++ [.notify 2] ++ accesses 2 2
    ++ accesses 1 6 ++ [.run 3] ++ accesses 3 8 ++ [.run 4] ++ accesses 4 8

set_option maxRecDepth 4000 in
theorem pump_nothing_lost_resubmitted : ∃ w : World,
    Run.Reachable (step { handoffMode := .resubmit }) {} w ∧
    (w.notified = [1, 3] ∧ w.word = ⟨.idle, 3⟩
      ∧ w.history = [.requested 1, .began 2, .requested 3, .began 3, .began 3]) ∧
    Quiescent w ∧ OneDrain w ∧ NothingLost w := by
  have htrace : (Run.exec (step { handoffMode := .resubmit }) {} resubmitted).any (fun w =>
      (w.notified = [1, 3] ∧ w.word = ⟨.idle, 3⟩
        ∧ w.history = [.requested 1, .began 2, .requested 3, .began 3, .began 3])
        ∧ w.outstanding = 0 ∧ ∀ id < 5, w.call id = none) = true := by
    decide +kernel
  have hothers : ∀ id, (Run.exec (step { handoffMode := .resubmit }) {} resubmitted).map
      (fun w => w.call (id + 5)) = some none := fun _ => rfl
  obtain ⟨w, hrun, hw⟩ := (Option.any_eq_true _ _).mp htrace
  obtain ⟨hw, htasks, hcalls⟩ := of_decide_eq_true hw
  have hreach := Run.exec_reachable hrun
  refine ⟨w, hreach, hw, ⟨fun id => ?_, htasks, by simp [hw.2.1]⟩, pump_nothing_lost _ hreach⟩
  by_cases hid : id < 5
  · exact hcalls id hid
  · obtain ⟨k, rfl⟩ := Nat.exists_eq_add_of_le' (Nat.le_of_not_lt hid)
    have hk := hothers k
    rw [hrun] at hk
    exact Option.some.inj hk

end ModuleServices.Pump
