import ModuleServices.Async.Assembly
import ModuleServices.Lib.Shares

/-!
# Every count comes once

A sealed revision is owed a count by each of its fragments and by its seal. `Books` says
that what is still to come is written down exactly once: in a fragment's waiters, in the
hands of the call that settles the fragment, or with the coordinator. The shares of whoever
is not moving are the parameters, so that one lemma serves the calls and the coordinator.
-/

namespace ModuleServices.Assembly.Proof

variable {α ε : Type} {w w' u : World α ε} {id r r' f g : Nat} {t t' : Option Nat}
  {call : Call α ε} {phase : Counting} {answer : Bool} {rest : List Nat}

/-! ## Shares -/

/-- The count a waiter's access has still to make. -/
def Counting.owes : Counting → Nat
  | .push | .notify => 0
  | _ => 1

def Counting.is (k : Counting) (phase : Counting) : Nat := if phase = k then 1 else 0

/-- What one waiter in hand comes to for a revision and the fragment that counts. -/
def one (n : Nat) (r : Nat) (t : Option Nat) : Nat → Option Nat → Nat :=
  fun r' t' => if r = r' ∧ t = t' then n else 0

def oneOf (n : Nat) (r : Nat) : Nat → Nat := fun r' => if r = r' then n else 0

/-- What a call has still to count. -/
def Call.owed (call : Call α ε) (r : Nat) (t : Option Nat) : Nat :=
  match call.phase with
  | .walk rest => if t = some call.fragment then rest.count r else 0
  | .counting r' phase rest =>
    (if t = some call.fragment then rest.count r else 0)
      + one (Counting.owes phase) r' (some call.fragment) r t
  | _ => 0

/-- Whether a call has a completion of the revision to push, or to notify of. -/
def Call.doing (k : Counting) (call : Call α ε) (r : Nat) : Nat :=
  match call.phase with
  | .counting r' phase _ => oneOf (Counting.is k phase) r' r
  | _ => 0

def toAttach (r' : Nat) (rest : List Nat) (r : Nat) (t : Option Nat) : Nat :=
  if r' = r then (none :: rest.map some).count t else 0

def Coordinator.owed (c : Coordinator ε) (r : Nat) (t : Option Nat) : Nat :=
  match c with
  | .attachLoad r' f rest | .attachExchange r' f rest => toAttach r' (f :: rest) r t
  | .counting r' fragment phase rest =>
    (if fragment.isSome then toAttach r' rest r t else 0)
      + one (Counting.owes phase) r' fragment r t
  | _ => 0

def Coordinator.doing (k : Counting) (c : Coordinator ε) (r : Nat) : Nat :=
  match c with
  | .counting r' _ phase _ => oneOf (Counting.is k phase) r' r
  | _ => 0

def waiting (w : World α ε) (r : Nat) (t : Option Nat) : Nat :=
  match t with
  | some f => ((w.fragment f).waiters.getD []).count r
  | none => 0

def owed (w : World α ε) (r : Nat) (t : Option Nat) : Nat :=
  waiting w r t + (w.calls.map fun call => Call.owed call r t).sum
    + Coordinator.owed w.coordinator r t

def doing (k : Counting) (w : World α ε) (r : Nat) : Nat :=
  (w.calls.map fun call => Call.doing k call r).sum + Coordinator.doing k w.coordinator r

/-! ## The books -/

/-- What a waiter relies on at its next access. -/
def ReliesCount (w : World α ε) (r : Nat) (t : Option Nat) (phase : Counting) : Prop :=
  (∀ f, t = some f → some f ∈ (w.revision r).slots ∧ (w.fragment f).state ≠ .pending) ∧
    match phase with
    | .readState => t.isSome = true
    | .exchangeFailed => ∃ f, t = some f ∧ (w.fragment f).state = .failed
    | .writeError => (w.revision r).failed = true
    | .countDown => ∀ f, t = some f → (w.fragment f).state = .failed → (w.revision r).failed = true
    | _ => True

structure Books (w : World α ε) (owed : Nat → Option Nat → Nat) (pushing notifying : Nat → Nat) :
    Prop where
  covered : ∀ r t, owed r t ≤ (w.revision r).owing.count t
  coming : ∀ r ∈ w.pending, ∀ t, owed r t = (w.revision r).owing.count t
  remaining : ∀ r, (w.revision r).remaining = (w.revision r).owing.length
  once : ∀ r, (w.revision r).owing.Nodup
  named : ∀ r f, some f ∈ (w.revision r).owing → some f ∈ (w.revision r).slots
  counted : ∀ r f, some f ∈ (w.revision r).slots → some f ∉ (w.revision r).owing →
    (w.fragment f).state ≠ .pending
      ∧ ((w.fragment f).state = .failed → (w.revision r).failed = true)
  blamed : ∀ r, (w.revision r).failed = true →
    ∃ f, some f ∈ (w.revision r).slots ∧ (w.fragment f).state = .failed
  pushed : ∀ r, Sealed w r → (w.revision r).owing = [] → pushing r + w.completions.count r = 1
  unpushed : ∀ r, ¬ (Sealed w r ∧ (w.revision r).owing = []) →
    pushing r + w.completions.count r = 0
  notified : ∀ r, notifying r + w.notifications.count r = w.completions.count r
  unsealed : ∀ r, ¬ Sealed w r → w.revision r = {}

variable {o : Nat → Option Nat → Nat} {p n : Nat → Nat}

/-- Whatever leaves the revisions alone and settles fragments only once keeps the books. -/
theorem Books.mono (h : Books w o p n) (hrevision : u.revision = w.revision)
    (hlatest : u.latestSequence = w.latestSequence) (hcompletions : u.completions = w.completions)
    (hnotifications : u.notifications = w.notifications) (hpending : ∀ r ∈ u.pending, r ∈ w.pending)
    (hstate : ∀ f, (w.fragment f).state ≠ .pending → (u.fragment f).state = (w.fragment f).state) :
    Books u o p n where
  covered := by simpa only [hrevision] using h.covered
  coming r hr := by simpa only [hrevision] using h.coming r (hpending r hr)
  remaining := by simpa only [hrevision] using h.remaining
  once := by simpa only [hrevision] using h.once
  named := by simpa only [hrevision] using h.named
  counted r f hf hcounted := by
    rw [hrevision] at hf hcounted ⊢
    have hsettled := h.counted r f hf hcounted
    rw [hstate f hsettled.1]
    exact hsettled
  blamed r hr := by
    rw [hrevision] at hr ⊢
    obtain ⟨f, hf, hfailed⟩ := h.blamed r hr
    exact ⟨f, hf, by rw [hstate f (by simp [hfailed]), hfailed]⟩
  pushed := by simpa only [hrevision, hcompletions, Sealed, hlatest] using h.pushed
  unpushed := by simpa only [hrevision, hcompletions, Sealed, hlatest] using h.unpushed
  notified := by simpa only [hcompletions, hnotifications] using h.notified
  unsealed r hr := by
    rw [hrevision]
    exact h.unsealed r (by simpa only [Sealed, hlatest] using hr)

theorem revision_setRevision (rev : Revision ε) :
    (w.setRevision r rev).revision r' = if r' = r then rev else w.revision r' := by
  simp [World.setRevision, Function.update_apply]

/-- A revision is marked failed, for a fragment that failed. -/
theorem Books.amend (h : Books w o p n) (hr : Sealed w r) {rev : Revision ε}
    (hslots : rev.slots = (w.revision r).slots) (howing : rev.owing = (w.revision r).owing)
    (hremaining : rev.remaining = (w.revision r).remaining)
    (hfailed : (w.revision r).failed = true → rev.failed = true)
    (hblame : rev.failed = true →
      ∃ f, some f ∈ (w.revision r).slots ∧ (w.fragment f).state = .failed) :
    Books (w.setRevision r rev) o p n := by
  have hrev : ∀ r', ((w.setRevision r rev).revision r').slots = (w.revision r').slots
      ∧ ((w.setRevision r rev).revision r').owing = (w.revision r').owing
      ∧ ((w.setRevision r rev).revision r').remaining = (w.revision r').remaining := by
    intro r'
    rw [revision_setRevision]
    split
    · subst r'
      exact ⟨hslots, howing, hremaining⟩
    · exact ⟨rfl, rfl, rfl⟩
  refine ⟨?_, ?_, ?_, ?_, ?_, ?_, ?_, ?_, ?_, h.notified, ?_⟩
  · intro r'
    rw [(hrev r').2.1]
    exact h.covered r'
  · intro r' hr'
    rw [(hrev r').2.1]
    exact h.coming r' hr'
  · intro r'
    rw [(hrev r').2.1, (hrev r').2.2]
    exact h.remaining r'
  · intro r'
    rw [(hrev r').2.1]
    exact h.once r'
  · intro r'
    rw [(hrev r').1, (hrev r').2.1]
    exact h.named r'
  · intro r' f hf hcounted
    rw [(hrev r').1] at hf
    rw [(hrev r').2.1] at hcounted
    obtain ⟨hsettled, hmarked⟩ := h.counted r' f hf hcounted
    refine ⟨hsettled, fun hstate => ?_⟩
    rw [revision_setRevision]
    split
    · subst r'
      exact hfailed (hmarked hstate)
    · exact hmarked hstate
  · intro r' hr'
    rw [(hrev r').1]
    rw [revision_setRevision] at hr'
    split at hr'
    · subst r'
      exact hblame hr'
    · exact h.blamed r' hr'
  · intro r'
    rw [(hrev r').2.1]
    exact h.pushed r'
  · intro r'
    rw [(hrev r').2.1]
    exact h.unpushed r'
  · intro r' hr'
    have hne : r' ≠ r := by
      rintro rfl
      exact hr' hr
    rw [revision_setRevision, if_neg hne]
    exact h.unsealed r' hr'

/-- The share of a waiter's next access, if it has one. -/
def next (share : Counting → Nat) (phase : Option Counting) : Nat := (phase.map share).getD 0

/-- A count comes: it was one of those still to come. -/
theorem books_countDown (h : Books w (o + one 1 r t) p n)
    (hrelies : ReliesCount w r t .countDown) {rev : Revision ε}
    (hrev : rev = { w.revision r with
      remaining := (w.revision r).remaining - 1, owing := (w.revision r).owing.erase t }) :
    Books (w.setRevision r rev) o
      (p + oneOf (if (w.revision r).remaining = 1 then 1 else 0) r) n := by
  have hmem : t ∈ (w.revision r).owing := by
    have hcovered := h.covered r t
    simp only [Pi.add_apply, one, and_self, if_true] at hcovered
    exact List.count_pos_iff.mp (by omega)
  have hlength : (w.revision r).remaining = (w.revision r).owing.length := h.remaining r
  have hne : (w.revision r).owing ≠ [] := List.ne_nil_of_mem hmem
  have hpos : 0 < (w.revision r).owing.length := List.length_pos_of_mem hmem
  have hr : Sealed w r := by
    by_contra hr
    rw [h.unsealed r hr] at hmem
    cases hmem
  have herase := List.length_erase_of_mem hmem
  have hcount : ∀ t', ((w.revision r).owing.erase t).count t'
      = (w.revision r).owing.count t' - if t = t' then 1 else 0 := by
    intro t'
    rw [List.count_erase]
    simp only [beq_iff_eq]
  refine ⟨?_, ?_, ?_, ?_, ?_, ?_, ?_, ?_, ?_, h.notified, ?_⟩
  · intro r' t'
    have hcovered := h.covered r' t'
    simp only [Pi.add_apply, one] at hcovered
    rw [revision_setRevision]
    split
    · subst r'
      rw [hrev, hcount]
      simp only [true_and] at hcovered
      omega
    · omega
  · intro r' hr' t'
    have hcoming := h.coming r' hr' t'
    simp only [Pi.add_apply, one] at hcoming
    rw [revision_setRevision]
    split
    · subst r'
      rw [hrev, hcount]
      simp only [true_and] at hcoming
      omega
    · rename_i hne
      rw [if_neg (by rintro ⟨rfl, -⟩; exact hne rfl)] at hcoming
      omega
  · intro r'
    rw [revision_setRevision]
    split
    · rw [hrev]
      simp only
      omega
    · exact h.remaining r'
  · intro r'
    rw [revision_setRevision]
    split
    · rw [hrev]
      exact (h.once r).erase t
    · exact h.once r'
  · intro r' f hf
    rw [revision_setRevision] at hf ⊢
    split at hf
    · subst r'
      rw [hrev] at hf ⊢
      simp only [if_true]
      exact h.named r f (List.mem_of_mem_erase hf)
    · rename_i hne
      rw [if_neg hne]
      exact h.named r' f hf
  · intro r' f hf hcounted
    rw [revision_setRevision] at hf hcounted ⊢
    split at hcounted
    · subst r'
      rw [if_pos rfl, hrev] at hf ⊢
      rw [hrev] at hcounted
      by_cases ht : t = some f
      · exact ⟨(hrelies.1 f ht).2, hrelies.2 f ht⟩
      · refine h.counted r f hf fun howing => hcounted ?_
        exact (List.mem_erase_of_ne (Ne.symm ht)).mpr howing
    · rename_i hne
      rw [if_neg hne] at hf ⊢
      exact h.counted r' f hf hcounted
  · intro r' hr'
    rw [revision_setRevision] at hr' ⊢
    split at hr'
    · subst r'
      rw [hrev] at hr' ⊢
      simp only [if_true]
      exact h.blamed r hr'
    · rename_i hne
      rw [if_neg hne]
      exact h.blamed r' hr'
  · intro r' hsealed hnil
    rw [revision_setRevision] at hnil
    by_cases hr' : r' = r
    · subst r'
      rw [if_pos rfl, hrev] at hnil
      have hlength : ((w.revision r).owing.erase t).length = 0 := List.length_eq_zero_iff.mpr hnil
      have hlast : (w.revision r).remaining = 1 := by omega
      have hunpushed := h.unpushed r fun hboth => hne hboth.2
      simp only [Pi.add_apply, oneOf, hlast, if_true]
      exact Nat.add_right_comm (p r) 1 _ ▸ congrArg (· + 1) hunpushed
    · rw [if_neg hr'] at hnil
      simp only [Pi.add_apply, oneOf, Ne.symm hr', if_false, add_zero]
      exact h.pushed r' hsealed hnil
  · intro r' hboth
    rw [revision_setRevision] at hboth
    by_cases hr' : r' = r
    · subst r'
      have hlast : ¬ (w.revision r).remaining = 1 := by
        intro hlast
        refine hboth ⟨hr, ?_⟩
        have hlength : ((w.revision r).owing.erase t).length = 0 := by omega
        rw [if_pos rfl, hrev]
        exact List.length_eq_zero_iff.mp hlength
      simp only [Pi.add_apply, oneOf, hlast, if_false, ite_self, add_zero]
      exact h.unpushed r fun hb => hne hb.2
    · rw [if_neg hr'] at hboth
      simp only [Pi.add_apply, oneOf, Ne.symm hr', if_false, add_zero]
      exact h.unpushed r' hboth
  · intro r' hr'
    have hne : r' ≠ r := by
      rintro rfl
      exact hr' hr
    rw [revision_setRevision, if_neg hne]
    exact h.unsealed r' hr'

theorem Books.sealed_of_slot (h : Books w o p n) (hf : some f ∈ (w.revision r).slots) :
    Sealed w r := by
  by_contra hr
  rw [h.unsealed r hr] at hf
  cases hf

theorem one_add {a b : Nat} : one (a + b) r t = one a r t + one b r t := by
  funext r' t'
  simp only [one, Pi.add_apply]
  split <;> rfl

@[simp] theorem one_zero : one 0 r t = 0 := by
  funext r' t'
  simp [one]

@[simp] theorem oneOf_zero : oneOf 0 r = 0 := by
  funext r'
  simp [oneOf]

/-- One access of a waiter, whoever's it is, turns its share into that of the next access. -/
theorem books_settleWaiter (answer : Bool)
    (h : Books w (o + one (Counting.owes phase) r t) (p + oneOf (Counting.is .push phase) r)
      (n + oneOf (Counting.is .notify phase) r))
    (hrelies : ReliesCount w r t phase) :
    Books (w.settleWaiter answer r t phase).1
      (o + one (next Counting.owes (w.settleWaiter answer r t phase).2) r t)
      (p + oneOf (next (Counting.is .push) (w.settleWaiter answer r t phase).2) r)
      (n + oneOf (next (Counting.is .notify) (w.settleWaiter answer r t phase).2) r) := by
  cases phase with
  | readState =>
    simp only [World.settleWaiter]
    split <;> exact h
  | exchangeFailed =>
    obtain ⟨f, rfl, hstate⟩ := hrelies.2
    have hf := (hrelies.1 f rfl).1
    simp only [World.settleWaiter]
    split
    · exact h
    · exact h.amend (h.sealed_of_slot hf) rfl rfl rfl (fun _ => rfl) fun _ => ⟨f, hf, hstate⟩
  | writeError =>
    obtain ⟨f, hf, -⟩ := h.blamed r hrelies.2
    exact h.amend (h.sealed_of_slot hf) rfl rfl rfl (fun hfailed => hfailed) (h.blamed r)
  | countDown =>
    have hnotify : Counting.is .notify .countDown = 0 := rfl
    have hpush : Counting.is .push .countDown = 0 := rfl
    rw [hnotify, hpush, oneOf_zero, add_zero, add_zero] at h
    have hbooks := books_countDown h hrelies rfl
    simp only [World.settleWaiter]
    by_cases hlast : (w.revision r).remaining = 1
    · simpa [hlast, next, Counting.owes, Counting.is] using hbooks
    · simpa [hlast, next] using hbooks
  | push =>
    simp only [World.settleWaiter]
    split
    · -- what was to be pushed is pushed
      have hmoved : ∀ r', (p + oneOf (next (Counting.is .push) (some .notify)) r) r'
          + (w.completions ++ [r]).count r'
          = (p + oneOf (Counting.is .push .push) r) r' + w.completions.count r' := by
        intro r'
        simp only [Pi.add_apply, oneOf, Counting.is, next, Option.map_some, Option.getD_some,
          List.count_append, List.count_singleton, beq_iff_eq, if_true, reduceCtorEq, if_false]
        split <;> omega
      refine ⟨h.covered, h.coming, h.remaining, h.once, h.named, h.counted, h.blamed, ?_, ?_, ?_,
        h.unsealed⟩
      · exact fun r' hsealed hnil => (hmoved r').trans (h.pushed r' hsealed hnil)
      · exact fun r' hboth => (hmoved r').trans (h.unpushed r' hboth)
      · intro r'
        have hnotified := h.notified r'
        simp only [Pi.add_apply, oneOf, Counting.is, next, Option.map_some, Option.getD_some,
          List.count_append, List.count_singleton, beq_iff_eq, if_true, reduceCtorEq,
          if_false] at hnotified ⊢
        split at hnotified
        · simp_all
          omega
        · simp_all
    · exact h
  | notify =>
    simp only [World.settleWaiter]
    refine ⟨h.covered, h.coming, h.remaining, h.once, h.named, h.counted, h.blamed, h.pushed,
      h.unpushed, ?_, h.unsealed⟩
    intro r'
    have hnotified := h.notified r'
    simp only [Pi.add_apply, oneOf, Counting.is, next, Option.map_none, Option.getD_none,
      List.count_append, List.count_singleton, beq_iff_eq, if_true] at hnotified ⊢
    split at hnotified <;> simp_all <;> omega

/-! ## What a step leaves alone -/

/-- What holds on to its value in a step of the call `me`. -/
structure Kept (me : Option Nat) (w u : World α ε) : Prop where
  settler : ∀ f j, (w.fragment f).settler = some j → (u.fragment f).settler = some j
  settled : ∀ f, (w.fragment f).state ≠ .pending → (u.fragment f).state = (w.fragment f).state
  others : ∀ f j, (w.fragment f).settler = some j → me ≠ some j →
    (u.fragment f).state = (w.fragment f).state
  closed : ∀ f, (w.fragment f).waiters = none → (u.fragment f).waiters = none
  failed : ∀ r, (w.revision r).failed = true → (u.revision r).failed = true
  slots : ∀ r f, some f ∈ (w.revision r).slots → some f ∈ (u.revision r).slots

theorem Kept.refl {me : Option Nat} : Kept me w w where
  settler _ _ h := h
  settled _ _ := rfl
  others _ _ _ _ := rfl
  closed _ h := h
  failed _ h := h
  slots _ _ h := h

/-- A step that does not touch the fragments, nor any revision but for its counts. -/
theorem Kept.of_fragment {me : Option Nat} (hfragment : u.fragment = w.fragment)
    (hfailed : ∀ r, (w.revision r).failed = true → (u.revision r).failed = true)
    (hslots : ∀ r f, some f ∈ (w.revision r).slots → some f ∈ (u.revision r).slots) :
    Kept me w u where
  settler f j h := by rwa [hfragment]
  settled f _ := by rw [hfragment]
  others f j _ _ := by rw [hfragment]
  closed f h := by rwa [hfragment]
  failed := hfailed
  slots := hslots

theorem fragment_setFragment (fragment : Fragment α ε) :
    (w.setFragment f fragment).fragment g = if g = f then fragment else w.fragment g := by
  simp [World.setFragment, Function.update_apply]

theorem ReliesCount.kept {m : Option Nat} (h : ReliesCount w r t phase) (hk : Kept m w u) :
    ReliesCount u r t phase := by
  have hfragment : ∀ f, t = some f → some f ∈ (u.revision r).slots
      ∧ (u.fragment f).state ≠ .pending := by
    intro f hf
    obtain ⟨hslot, hstate⟩ := h.1 f hf
    exact ⟨hk.slots r f hslot, by rwa [hk.settled f hstate]⟩
  refine ⟨hfragment, ?_⟩
  cases phase with
  | readState => exact h.2
  | exchangeFailed =>
    obtain ⟨f, hf, hstate⟩ := h.2
    exact ⟨f, hf, by rw [hk.settled f (h.1 f hf).2, hstate]⟩
  | writeError => exact hk.failed r h.2
  | countDown =>
    intro f hf hstate
    rw [hk.settled f (h.1 f hf).2] at hstate
    exact hk.failed r (h.2 f hf hstate)
  | push | notify => trivial

/-- What a call relies on at its next access: from its claim on the fragment is its own. -/
def Relies (w : World α ε) (id : Nat) (call : Call α ε) : Prop :=
  let fragment := w.fragment call.fragment
  match call.phase with
  | .claim | .returned false => True
  | .write | .storeState => fragment.settler = some id ∧ fragment.state = .pending
  | .exchangeWaiters => fragment.settler = some id ∧ fragment.state = World.stored call.outcome
  | .walk _ | .returned true =>
    fragment.settler = some id ∧ fragment.state = World.stored call.outcome
      ∧ fragment.waiters = none
  | .counting r phase _ =>
    (fragment.settler = some id ∧ fragment.state = World.stored call.outcome
      ∧ fragment.waiters = none) ∧ ReliesCount w r (some call.fragment) phase

theorem stored_ne (outcome : Except ε α) : World.stored outcome ≠ .pending := by
  cases outcome <;> simp [World.stored]

theorem Relies.kept {m : Option Nat} (h : Relies w id call) (hk : Kept m w u)
    (hne : m ≠ some id) : Relies u id call := by
  have hdone : (w.fragment call.fragment).settler = some id
      ∧ (w.fragment call.fragment).state = World.stored call.outcome
      ∧ (w.fragment call.fragment).waiters = none →
      (u.fragment call.fragment).settler = some id
        ∧ (u.fragment call.fragment).state = World.stored call.outcome
        ∧ (u.fragment call.fragment).waiters = none := by
    rintro ⟨hsettler, hstate, hclosed⟩
    exact ⟨hk.settler _ _ hsettler, by rw [hk.others _ _ hsettler hne, hstate],
      hk.closed _ hclosed⟩
  unfold Relies at h ⊢
  simp only at h ⊢
  split at h
  · trivial
  · trivial
  · exact ⟨hk.settler _ _ h.1, by rw [hk.others _ _ h.1 hne, h.2]⟩
  · exact ⟨hk.settler _ _ h.1, by rw [hk.others _ _ h.1 hne, h.2]⟩
  · exact ⟨hk.settler _ _ h.1, by rw [hk.others _ _ h.1 hne, h.2]⟩
  · exact hdone h
  · exact hdone h
  · exact ⟨hdone h.1, h.2.kept hk⟩

theorem kept_settleWaiter (me : Option Nat) : Kept me w (w.settleWaiter answer r t phase).1 := by
  cases phase with
  | readState =>
    simp only [World.settleWaiter]
    split <;> exact .refl
  | exchangeFailed =>
    simp only [World.settleWaiter]
    split
    · exact .refl
    · refine .of_fragment rfl (fun r' hr' => ?_) fun r' f hf => ?_ <;>
        rw [revision_setRevision] <;> split <;> simp_all
  | writeError | countDown =>
    refine .of_fragment rfl (fun r' hr' => ?_) fun r' f hf => ?_ <;>
      simp only [World.settleWaiter, revision_setRevision] <;> split <;> simp_all
  | push =>
    simp only [World.settleWaiter]
    split
    · exact .of_fragment rfl (fun _ h => h) fun _ _ h => h
    · exact .refl
  | notify => exact .of_fragment rfl (fun _ h => h) fun _ _ h => h

theorem relies_settleWaiter {phase' : Counting} (h : ReliesCount w r t phase)
    (hnext : (w.settleWaiter answer r t phase).2 = some phase') :
    ReliesCount (w.settleWaiter answer r t phase).1 r t phase' := by
  refine ⟨(h.kept (kept_settleWaiter none)).1, ?_⟩
  cases phase with
  | readState =>
    simp only [World.settleWaiter] at hnext ⊢
    obtain ⟨f, rfl⟩ := Option.isSome_iff_exists.mp h.2
    split at hnext
    · rename_i hstate
      cases hnext
      exact ⟨f, rfl, by simpa using hstate⟩
    · rename_i hstate
      cases hnext
      intro g hg hfailed
      cases hg
      exact absurd (by simpa using hfailed) hstate
  | exchangeFailed =>
    simp only [World.settleWaiter] at hnext ⊢
    split at hnext
    · rename_i hfailed
      cases hnext
      rw [if_pos hfailed]
      exact fun _ _ _ => hfailed
    · rename_i hfailed
      cases hnext
      rw [if_neg hfailed]
      simp [revision_setRevision]
  | writeError =>
    simp only [World.settleWaiter] at hnext ⊢
    cases hnext
    exact fun _ _ _ => by
      rw [revision_setRevision, if_pos rfl]
      exact h.2
  | countDown =>
    simp only [World.settleWaiter] at hnext
    split at hnext <;> cases hnext
    trivial
  | push =>
    simp only [World.settleWaiter] at hnext
    split at hnext <;> cases hnext <;> trivial
  | notify => cases hnext

/-! ## The calls -/

structure Settling (w : World α ε) : Prop where
  books : Books w (owed w) (doing .push w) (doing .notify w)
  relies : ∀ id call, w.calls[id]? = some call → Relies w id call
  counting : ∀ r t phase rest, w.coordinator = .counting r t phase rest → ReliesCount w r t phase
  claimed : ∀ f, (w.fragment f).claimed = (w.fragment f).settler.isSome
  settlers : ∀ f j, (w.fragment f).settler = some j → j < w.calls.length
  unsettled : ∀ f, (w.fragment f).settler = none → (w.fragment f).state = .pending
  opened : ∀ f, (w.fragment f).state = .pending → (w.fragment f).waiters ≠ none
  pending : ∀ r ∈ w.pending, Sealed w r
  apart : w.pending.Nodup
  closure : ∀ r f, some f ∈ (w.revision r).slots → f < w.requirements.length
    ∧ ∀ q ∈ w.requirementsOf f, (w.revision r).slots[q.slot]? = some q.fragment

/-- What is owed by all but one call. -/
def others (w : World α ε) (id : Nat) (r : Nat) (t : Option Nat) : Nat :=
  waiting w r t + ((w.calls.eraseIdx id).map fun call => Call.owed call r t).sum
    + Coordinator.owed w.coordinator r t

def othersDoing (k : Counting) (w : World α ε) (id : Nat) (r : Nat) : Nat :=
  ((w.calls.eraseIdx id).map fun call => Call.doing k call r).sum
    + Coordinator.doing k w.coordinator r

theorem owed_eq (hid : w.calls[id]? = some call) : owed w = others w id + Call.owed call := by
  funext r t
  simp only [owed, others, Pi.add_apply, Shares.sum_eraseIdx (fun call => Call.owed call r t) hid]
  omega

theorem doing_eq {k : Counting} (hid : w.calls[id]? = some call) :
    doing k w = othersDoing k w id + Call.doing k call := by
  funext r
  simp only [doing, othersDoing, Pi.add_apply, Shares.sum_eraseIdx (fun call => Call.doing k call r) hid]
  omega

theorem owed_goto {phase : SettlePhase} {old : Call α ε} (hid : w.calls[id]? = some old) :
    owed (w.goto id call phase) = others w id + Call.owed { call with phase } := by
  funext r t
  simp only [owed, others, Pi.add_apply, World.goto, Shares.sum_set_eraseIdx (fun call => Call.owed call r t) hid]
  simp only [waiting]
  omega

theorem doing_goto {k : Counting} {phase : SettlePhase} {old : Call α ε}
    (hid : w.calls[id]? = some old) :
    doing k (w.goto id call phase) = othersDoing k w id + Call.doing k { call with phase } := by
  funext r
  simp only [doing, othersDoing, Pi.add_apply, World.goto,
    Shares.sum_set_eraseIdx (fun call => Call.doing k call r) hid]
  omega

/-- One call goes on. -/
theorem Settling.goto (h : Settling w) (hid : w.calls[id]? = some call) {v : World α ε}
    {phase : SettlePhase}
    (hv : v = { w with
      fragment := v.fragment, revision := v.revision, completed := v.completed
      completions := v.completions, notifications := v.notifications })
    (hk : Kept (some id) w v)
    (hbooks : Books v (others v id + Call.owed { call with phase })
      (othersDoing .push v id + Call.doing .push { call with phase })
      (othersDoing .notify v id + Call.doing .notify { call with phase }))
    (hrelies : Relies v id { call with phase })
    (hclaimed : ∀ f, (v.fragment f).claimed = (v.fragment f).settler.isSome)
    (hsettlers : ∀ f j, (v.fragment f).settler = some j →
      (w.fragment f).settler = some j ∨ j = id)
    (hunsettled : ∀ f, (v.fragment f).settler = none → (v.fragment f).state = .pending)
    (hopened : ∀ f, (v.fragment f).state = .pending → (v.fragment f).waiters ≠ none)
    (hslots : ∀ r, (v.revision r).slots = (w.revision r).slots) :
    Settling (v.goto id call phase) := by
  have hcalls : v.calls = w.calls := by rw [hv]
  have hrequirements : v.requirements = w.requirements := by rw [hv]
  have hlt : id < w.calls.length := (List.getElem?_eq_some_iff.mp hid).1
  have hid' : v.calls[id]? = some call := by rw [hcalls, hid]
  refine ⟨?_, ?_, ?_, hclaimed, ?_, hunsettled, hopened, ?_, ?_, ?_⟩
  · rw [owed_goto hid', doing_goto hid', doing_goto hid']
    exact hbooks.mono rfl rfl rfl rfl (fun _ hr => hr) fun _ _ => rfl
  · intro j other hj
    simp only [World.goto, hcalls, List.getElem?_set] at hj
    split at hj
    · rename_i heq
      subst j
      simp only [hlt, if_true, Option.some.injEq] at hj
      subst other
      exact hrelies
    · rename_i hne
      have hother : Relies v j other :=
        (h.relies j other hj).kept hk fun heq => hne (Option.some.inj heq)
      exact hother
  · intro r t phase rest hc
    have hc' : w.coordinator = .counting r t phase rest := by
      rw [hv] at hc
      exact hc
    have hcount : ReliesCount v r t phase := (h.counting r t phase rest hc').kept hk
    exact hcount
  · intro f j hj
    have hlength : (v.goto id call phase).calls.length = w.calls.length := by
      simp [World.goto, hcalls]
    rw [hlength]
    rcases hsettlers f j hj with hj | rfl
    · exact h.settlers f j hj
    · exact hlt
  · rw [hv]
    exact h.pending
  · rw [hv]
    exact h.apart
  · intro r f hf
    have hrevision : ((v.goto id call phase).revision r).slots = (w.revision r).slots := hslots r
    have hof : (v.goto id call phase).requirements = w.requirements := hrequirements
    simp only [World.requirementsOf, hrevision, hof] at hf ⊢
    exact h.closure r f hf

theorem others_setFragment {fragment : Fragment α ε}
    (hwaiters : fragment.waiters = (w.fragment f).waiters) :
    others (w.setFragment f fragment) id = others w id := by
  funext r t
  have hwaiting : waiting (w.setFragment f fragment) r t = waiting w r t := by
    cases t with
    | none => rfl
    | some g =>
      simp only [waiting, fragment_setFragment]
      split
      · subst g
        rw [hwaiters]
      · rfl
  unfold others
  rw [hwaiting]
  rfl

/-- The call that settles a fragment writes to it. -/
theorem Settling.write (h : Settling w) (hid : w.calls[id]? = some call)
    {fragment : Fragment α ε} {phase : SettlePhase}
    (hold : Call.owed call = 0 ∧ Call.doing .push call = 0 ∧ Call.doing .notify call = 0)
    (hnew : Call.owed { call with phase } = 0 ∧ Call.doing .push { call with phase } = 0
      ∧ Call.doing .notify { call with phase } = 0)
    (hmine : (w.fragment call.fragment).settler = none
      ∨ (w.fragment call.fragment).settler = some id)
    (hpending : (w.fragment call.fragment).state = .pending ∨
      fragment.state = (w.fragment call.fragment).state)
    (hwaiters : fragment.waiters = (w.fragment call.fragment).waiters)
    (hclaimed : fragment.claimed = true) (hsettler : fragment.settler = some id)
    (hstate : (w.fragment call.fragment).settler = none →
      fragment.state = (w.fragment call.fragment).state)
    (hrelies : Relies (w.setFragment call.fragment fragment) id { call with phase }) :
    Settling ((w.setFragment call.fragment fragment).goto id call phase) := by
  have hsame : ∀ g, (w.fragment g).state ≠ .pending →
      ((w.setFragment call.fragment fragment).fragment g).state = (w.fragment g).state := by
    intro g hg
    rw [fragment_setFragment]
    split
    · subst g
      rcases hpending with hp | hp
      · exact absurd hp hg
      · exact hp
    · rfl
  have hopen : ∀ g, ((w.setFragment call.fragment fragment).fragment g).waiters
      = (w.fragment g).waiters := by
    intro g
    rw [fragment_setFragment]
    split
    · subst g
      exact hwaiters
    · rfl
  have hkept : Kept (some id) w (w.setFragment call.fragment fragment) := by
    refine ⟨?_, hsame, ?_, ?_, fun _ h => h, fun _ _ h => h⟩
    · intro g j hj
      rw [fragment_setFragment]
      split
      · subst g
        rcases hmine with hm | hm
        · rw [hm] at hj
          cases hj
        · rw [hm] at hj
          rw [hsettler, hj]
      · exact hj
    · intro g j hj hne
      rw [fragment_setFragment]
      split
      · subst g
        rcases hmine with hm | hm
        · exact hstate hm
        · rw [hm] at hj
          exact absurd hj hne
      · rfl
    · intro g hg
      rw [hopen, hg]
  refine h.goto hid rfl hkept ?_ hrelies ?_ ?_ ?_ ?_ fun _ => rfl
  · have hbooks := h.books
    rw [owed_eq hid, doing_eq hid, doing_eq hid, hold.1, hold.2.1, hold.2.2] at hbooks
    rw [hnew.1, hnew.2.1, hnew.2.2, others_setFragment hwaiters]
    exact hbooks.mono rfl rfl rfl rfl (fun _ hr => hr) hsame
  · intro g
    rw [fragment_setFragment]
    split
    · rw [hclaimed, hsettler]
      rfl
    · exact h.claimed g
  · intro g j hj
    rw [fragment_setFragment] at hj
    split at hj
    · rw [hsettler] at hj
      exact .inr (Option.some.inj hj).symm
    · exact .inl hj
  · intro g hg
    rw [fragment_setFragment] at hg ⊢
    split at hg
    · rw [hsettler] at hg
      cases hg
    · rename_i hne
      rw [if_neg hne]
      exact h.unsettled g hg
  · intro g hg
    rw [hopen]
    by_cases hp : (w.fragment g).state = .pending
    · exact h.opened g hp
    · rw [hsame g hp] at hg
      exact absurd hg hp

/-- A call whose waiters do not change goes on. -/
theorem Settling.stay (h : Settling w) (hid : w.calls[id]? = some call) {phase : SettlePhase}
    (howed : Call.owed { call with phase } = Call.owed call)
    (hdoing : ∀ k, k = .push ∨ k = .notify →
      Call.doing k { call with phase } = Call.doing k call)
    (hrelies : Relies w id { call with phase }) :
    Settling (w.goto id call phase) := by
  refine h.goto hid rfl .refl ?_ hrelies h.claimed (fun _ _ hj => .inl hj) h.unsettled h.opened
    fun _ => rfl
  have hbooks := h.books
  rw [owed_eq hid, doing_eq hid, doing_eq hid] at hbooks
  rw [howed, hdoing .push (.inl rfl), hdoing .notify (.inr rfl)]
  exact hbooks

/-- The waiters of a settled fragment pass into the hands of the call that settled it. -/
theorem settling_exchangeWaiters (h : Settling w) (hid : w.calls[id]? = some call)
    (hphase : call.phase = .exchangeWaiters) : Settling (w.settle id answer call) := by
  have hrelies := h.relies id call hid
  simp only [Relies, hphase] at hrelies
  simp only [World.settle, hphase]
  have hsame : ∀ g, ((w.setFragment call.fragment
      { w.fragment call.fragment with waiters := none }).fragment g).state
        = (w.fragment g).state := by
    intro g
    rw [fragment_setFragment]
    split <;> simp_all
  have hsettler : ∀ g, ((w.setFragment call.fragment
      { w.fragment call.fragment with waiters := none }).fragment g).settler
        = (w.fragment g).settler := by
    intro g
    rw [fragment_setFragment]
    split <;> simp_all
  have hkept : Kept (some id) w
      (w.setFragment call.fragment { w.fragment call.fragment with waiters := none }) := by
    refine ⟨fun g j hj => by rw [hsettler, hj], fun g _ => hsame g, fun g _ _ _ => hsame g, ?_,
      fun _ h => h, fun _ _ h => h⟩
    intro g hg
    rw [fragment_setFragment]
    split
    · rfl
    · exact hg
  refine h.goto hid rfl hkept ?_ ?_ ?_ ?_ ?_ ?_ fun _ => rfl
  · have hbooks := h.books
    rw [owed_eq hid, doing_eq hid, doing_eq hid] at hbooks
    have howed : others (w.setFragment call.fragment
          { w.fragment call.fragment with waiters := none }) id
        + Call.owed { call with phase := .walk ((w.fragment call.fragment).waiters.getD []) }
        = others w id + Call.owed call := by
      funext r t
      simp only [Pi.add_apply, others, Call.owed, hphase, waiting]
      cases t with
      | none =>
        simp only [reduceCtorEq, if_false]
        rfl
      | some g =>
        simp only [fragment_setFragment, Option.some.injEq]
        split
        · subst g
          simp only [Option.getD_none, List.count_nil]
          simp only [World.setFragment]
          omega
        · rfl
    rw [howed]
    have hpush : Call.doing .push { call with
        phase := .walk ((w.fragment call.fragment).waiters.getD []) } = Call.doing .push call := by
      funext r
      simp only [Call.doing, hphase]
    have hnotify : Call.doing .notify { call with
        phase := .walk ((w.fragment call.fragment).waiters.getD []) }
          = Call.doing .notify call := by
      funext r
      simp only [Call.doing, hphase]
    rw [hpush, hnotify]
    exact hbooks.mono rfl rfl rfl rfl (fun _ hr => hr) fun g _ => hsame g
  · exact ⟨by rw [hsettler, hrelies.1], by rw [hsame, hrelies.2],
      by rw [fragment_setFragment, if_pos rfl]⟩
  · intro g
    rw [hsettler, fragment_setFragment]
    split
    · subst g
      exact h.claimed call.fragment
    · exact h.claimed g
  · intro g j hj
    rw [hsettler] at hj
    exact .inl hj
  · intro g hg
    rw [hsettler] at hg
    rw [hsame, h.unsettled g hg]
  · intro g hg
    rw [hsame] at hg
    rw [fragment_setFragment]
    split
    · subst g
      rw [hrelies.2] at hg
      exact absurd hg (stored_ne _)
    · exact h.opened g hg

theorem settling_claim (h : Settling w) (hid : w.calls[id]? = some call)
    (hphase : call.phase = .claim) : Settling (w.settle id answer call) := by
  have hidle : ∀ phase, (phase = .claim ∨ phase = .write ∨ phase = .returned false) →
      Call.owed { call with phase } = 0 ∧ Call.doing .push { call with phase } = 0
        ∧ Call.doing .notify { call with phase } = 0 := by
    rintro phase (rfl | rfl | rfl) <;> exact ⟨rfl, rfl, rfl⟩
  have hself : call = { call with phase := .claim } := by rw [← hphase]
  have hold := hidle .claim (.inl rfl)
  rw [← hself] at hold
  simp only [World.settle, hphase]
  split
  · have hnew := hidle (.returned false) (.inr (.inr rfl))
    exact h.stay hid (by rw [hnew.1, hold.1])
      (by rintro k (rfl | rfl) <;> simp [hnew, hold]) trivial
  · rename_i hclaimed
    have hnone : (w.fragment call.fragment).settler = none := by
      have := h.claimed call.fragment
      simpa [hclaimed] using this.symm
    refine h.write hid hold (hidle .write (.inr (.inl rfl))) (.inl hnone) (.inr rfl) rfl rfl rfl
      (fun _ => rfl) ?_
    have hstate : (w.fragment call.fragment).state = .pending := h.unsettled _ hnone
    simp [Relies, fragment_setFragment, hstate]

/-- The value and the state are stored by the call that has claimed the fragment. -/
theorem settling_store (h : Settling w) (hid : w.calls[id]? = some call)
    (hphase : call.phase = .write ∨ call.phase = .storeState) :
    Settling (w.settle id answer call) := by
  have hidle : ∀ phase, (phase = .write ∨ phase = .storeState ∨ phase = .exchangeWaiters) →
      Call.owed { call with phase } = 0 ∧ Call.doing .push { call with phase } = 0
        ∧ Call.doing .notify { call with phase } = 0 := by
    rintro phase (rfl | rfl | rfl) <;> exact ⟨rfl, rfl, rfl⟩
  have hself : call = { call with phase := call.phase } := rfl
  have hold := hidle call.phase (hphase.imp_right .inl)
  rw [← hself] at hold
  have hrelies := h.relies id call hid
  have hclaimed := h.claimed call.fragment
  rcases hphase with hphase | hphase <;> simp only [Relies, hphase] at hrelies <;>
    simp only [World.settle, hphase] <;> rw [hrelies.1] at hclaimed
  · refine h.write hid hold (hidle _ (.inr (.inl rfl))) (.inr hrelies.1) (.inr rfl) rfl hclaimed
      hrelies.1 (fun _ => rfl) ?_
    simp [Relies, fragment_setFragment, hrelies]
  · refine h.write hid hold (hidle _ (.inr (.inr rfl))) (.inr hrelies.1) (.inl hrelies.2) rfl
      hclaimed hrelies.1 (fun hnone => by simp [hrelies.1] at hnone) ?_
    simp [Relies, fragment_setFragment, hrelies]

theorem settling_walk (h : Settling w) (hid : w.calls[id]? = some call) {rest : List Nat}
    (hphase : call.phase = .walk rest) : Settling (w.settle id answer call) := by
  have hrelies := h.relies id call hid
  simp only [Relies, hphase] at hrelies
  cases rest with
  | nil =>
    simp only [World.settle, hphase]
    refine h.stay hid ?_ (fun k _ => ?_) hrelies
    · funext r t
      simp [Call.owed, hphase]
    · funext r
      simp [Call.doing, hphase]
  | cons r rest =>
    simp only [World.settle, hphase]
    have hcount : ∀ r' t', Call.owed call r' t'
        = (if t' = some call.fragment then rest.count r' else 0)
          + one 1 r (some call.fragment) r' t' := by
      intro r' t'
      simp only [Call.owed, hphase, one, List.count_cons, beq_iff_eq]
      by_cases ht : t' = some call.fragment
      · subst t'
        simp
      · simp [ht, Ne.symm ht]
    split
    · refine h.stay hid ?_ ?_ ⟨hrelies, ?_⟩
      · funext r' t'
        rw [hcount]
        rfl
      · rintro k (rfl | rfl) <;>
        · funext r'
          simp only [Call.doing, hphase, oneOf, Counting.is, reduceCtorEq, if_false, ite_self]
      · -- a revision in the waiters is owed its count, so it names the fragment
        have hcovered := h.books.covered r (some call.fragment)
        rw [owed_eq hid, Pi.add_apply, Pi.add_apply, hcount] at hcovered
        simp only [one, and_self, if_true] at hcovered
        have hmem : some call.fragment ∈ (w.revision r).owing :=
          List.count_pos_iff.mp (by omega)
        refine ⟨?_, rfl⟩
        intro f hf
        cases hf
        exact ⟨h.books.named r _ hmem, by rw [hrelies.2.1]; exact stored_ne _⟩
    · rename_i hlock
      have hgone : r ∉ w.pending := fun hr => hlock (.inl hr)
      refine h.goto hid rfl .refl ?_ hrelies h.claimed (fun _ _ hj => .inl hj) h.unsettled h.opened
        fun _ => rfl
      have hbooks := h.books
      have hpush : Call.doing .push { call with phase := .walk rest } = Call.doing .push call := by
        funext r'
        simp only [Call.doing, hphase]
      have hnotify : Call.doing .notify { call with phase := .walk rest }
          = Call.doing .notify call := by
        funext r'
        simp only [Call.doing, hphase]
      rw [owed_eq hid, doing_eq hid, doing_eq hid] at hbooks
      rw [hpush, hnotify]
      refine { hbooks with covered := fun r' t' => ?_, coming := fun r' hr' t' => ?_ }
      · have hcovered := hbooks.covered r' t'
        simp only [Pi.add_apply, hcount] at hcovered
        simp only [Pi.add_apply, Call.owed]
        omega
      · have hcoming := hbooks.coming r' hr' t'
        have hne : r ≠ r' := by
          rintro rfl
          exact hgone hr'
        simp only [Pi.add_apply, hcount, one, hne, false_and, if_false] at hcoming
        simp only [Pi.add_apply, Call.owed]
        omega

/-- Only the counts and the marks of revisions change in a waiter's access. -/
theorem settleWaiter_eq : (w.settleWaiter answer r t phase).1 =
    { w with
      revision := (w.settleWaiter answer r t phase).1.revision
      completed := (w.settleWaiter answer r t phase).1.completed
      completions := (w.settleWaiter answer r t phase).1.completions
      notifications := (w.settleWaiter answer r t phase).1.notifications } := by
  cases phase <;> simp only [World.settleWaiter] <;> first | rfl | (split <;> rfl)

theorem slots_settleWaiter :
    ((w.settleWaiter answer r t phase).1.revision r').slots = (w.revision r').slots := by
  cases phase <;> simp only [World.settleWaiter] <;> (try split) <;>
    first | rfl | (rw [revision_setRevision]; split <;> simp_all)

theorem settling_counting (h : Settling w) (hid : w.calls[id]? = some call) {rest : List Nat}
    (hphase : call.phase = .counting r phase rest) : Settling (w.settle id answer call) := by
  have hrelies := h.relies id call hid
  simp only [Relies, hphase] at hrelies
  have hkept : Kept (some id) w (w.settleWaiter answer r (some call.fragment) phase).1 :=
    kept_settleWaiter (some id)
  have hfragment : (w.settleWaiter answer r (some call.fragment) phase).1.fragment = w.fragment := by
    rw [settleWaiter_eq]
  have hothers : others (w.settleWaiter answer r (some call.fragment) phase).1 id = others w id := by
    rw [settleWaiter_eq]
    rfl
  have hdoing : ∀ k, othersDoing k (w.settleWaiter answer r (some call.fragment) phase).1 id
      = othersDoing k w id := by
    intro k
    rw [settleWaiter_eq]
    rfl
  -- the waiters after this one, and the share of this one's next access
  let after : Nat → Option Nat → Nat :=
    fun r' t' => if t' = some call.fragment then rest.count r' else 0
  have howed : Call.owed call = after + one (Counting.owes phase) r (some call.fragment) := by
    funext r' t'
    simp only [Call.owed, hphase, Pi.add_apply, after]
  have hdo : ∀ k, Call.doing k call = oneOf (Counting.is k phase) r := by
    intro k
    funext r'
    simp only [Call.doing, hphase]
  have hbooks := h.books
  rw [owed_eq hid, doing_eq hid, doing_eq hid, howed, ← add_assoc, hdo, hdo] at hbooks
  have hnext := books_settleWaiter answer hbooks hrelies.2
  simp only [World.settle, hphase]
  split
  · rename_i phase' hphase'
    rw [hphase'] at hnext
    refine h.goto hid (by rw [hfragment]; exact settleWaiter_eq) hkept ?_ ?_ (by rw [hfragment]; exact h.claimed)
      (fun _ _ hj => .inl (by rwa [hfragment] at hj)) (by rw [hfragment]; exact h.unsettled)
      (by rw [hfragment]; exact h.opened) fun _ => slots_settleWaiter
    · rw [hothers, hdoing, hdoing]
      rw [add_assoc] at hnext
      exact hnext
    · exact ⟨by rw [hfragment]; exact hrelies.1, relies_settleWaiter hrelies.2 hphase'⟩
  · rename_i hphase'
    rw [hphase'] at hnext
    refine h.goto hid (by rw [hfragment]; exact settleWaiter_eq) hkept ?_ ?_ (by rw [hfragment]; exact h.claimed)
      (fun _ _ hj => .inl (by rwa [hfragment] at hj)) (by rw [hfragment]; exact h.unsettled)
      (by rw [hfragment]; exact h.opened) fun _ => slots_settleWaiter
    · rw [hothers, hdoing, hdoing]
      simp only [next, Option.map_none, Option.getD_none, one_zero, oneOf_zero, add_zero] at hnext
      exact hnext
    · rw [Relies, hfragment]
      exact hrelies.1

theorem settling_settle (h : Settling w) (hid : w.calls[id]? = some call) :
    Settling (w.settle id answer call) := by
  cases hphase : call.phase with
  | claim => exact settling_claim h hid hphase
  | write => exact settling_store h hid (.inl hphase)
  | storeState => exact settling_store h hid (.inr hphase)
  | exchangeWaiters => exact settling_exchangeWaiters h hid hphase
  | walk rest => exact settling_walk h hid hphase
  | counting r phase rest => exact settling_counting h hid hphase
  | returned result =>
    simp only [World.settle, hphase]
    exact h

end ModuleServices.Assembly.Proof
