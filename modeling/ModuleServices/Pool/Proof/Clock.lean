import ModuleServices.Pool.Clock
import ModuleServices.Lib.Shares

/-!
# Whoever the clock reaches is woken

Every subscribed waiter is on the stack, in the hands of one call, or woken (`places`),
and nobody with a retired point is on the stack without a call that will take the stack
(`attended`): whoever raises the point takes it afterwards, and whoever puts waiters on it
looks at the point once more.
-/

namespace ModuleServices.RetirementClock.Proof

variable {w u : World} {id : Nat} {phase old new : Phase}

/-- The waiters in a call's hands. -/
def holds : Phase → List Waiter
  | .checkReached waiter | .inlineCompleted waiter | .inlineWake waiter _ | .countWaiting waiter
  | .push waiter => [waiter]
  | .readCompleted list => list
  | .walk _ _ list kept => list ++ kept
  | .wake _ _ waiter list kept => waiter :: (list ++ kept)
  | .keep _ kept => kept
  | _ => []

/-- Those of them that `m_waiting` counts. -/
def counted : Phase → Nat
  | .push _ => 1
  | .readCompleted list => list.length
  | .walk _ _ list kept | .wake _ _ _ list kept => list.length + kept.length
  | .keep _ kept => kept.length
  | _ => 0

/-- What a call relies on. -/
def Relies (w : World) : Phase → Prop
  | .advanceExchange completed current => current < completed
  | .inlineCompleted waiter => waiter.point ≤ w.completed
  | .inlineWake waiter completed => waiter.point ≤ completed ∧ completed ≤ w.completed
  | .walk completed lowestKept _ kept =>
    completed ≤ w.completed ∧ ∀ waiter ∈ kept, lowestKept ≤ waiter.point
  | .wake completed lowestKept waiter _ kept =>
    waiter.point ≤ completed ∧ completed ≤ w.completed ∧ ∀ waiter ∈ kept, lowestKept ≤ waiter.point
  | .keep lowestKept kept => ∀ waiter ∈ kept, lowestKept ≤ waiter.point
  | _ => True

/-- The call is going to take the stack. -/
def Takes (w : World) : Phase → Prop
  | .advanceLoad _ | .advanceExchange _ _ | .take => True
  | .recheckReached point => point ≤ w.completed
  | .checkKept lowestKept => lowestKept ≤ w.completed
  | _ => False

structure Inv (w : World) : Prop where
  places : ∀ waiter, w.waiters.count waiter + (w.calls.map fun phase => (holds phase).count waiter).sum
    + (w.woken.map Woken.waiter).count waiter = w.subscribed.count waiter
  numbers : w.subscribed.map Waiter.wake = List.range w.subscribed.length
  waiting : w.waiting = w.waiters.length + (w.calls.map counted).sum
  relies : ∀ phase ∈ w.calls, Relies w phase
  attended : ∀ waiter ∈ w.waiters, waiter.point ≤ w.completed → ∃ phase ∈ w.calls, Takes w phase
  woken : ∀ run ∈ w.woken, run.waiter.point ≤ run.completed ∧ run.completed ≤ w.completed
  greatest : Greatest w

theorem inv_start : Inv {} := by
  constructor <;> simp [Greatest, IsGreatest, mem_upperBounds]

theorem Relies.mono (h : Relies w phase) (hcompleted : w.completed ≤ u.completed) :
    Relies u phase := by
  cases phase with
  | advanceExchange => exact h
  | inlineCompleted => exact le_trans h hcompleted
  | inlineWake => exact ⟨h.1, h.2.trans hcompleted⟩
  | walk => exact ⟨h.1.trans hcompleted, h.2⟩
  | wake => exact ⟨h.1, h.2.1.trans hcompleted, h.2.2⟩
  | keep => exact h
  | _ => trivial

theorem Takes.mono (h : Takes w phase) (hcompleted : w.completed ≤ u.completed) :
    Takes u phase := by
  cases phase with
  | recheckReached | checkKept => exact le_trans h hcompleted
  | advanceLoad | advanceExchange | take => trivial
  | _ => exact h.elim

/-- One call goes on. -/
theorem Inv.go (h : Inv w) (hid : w.calls[id]? = some old) (hcalls : u.calls = w.calls.set id new)
    (hplaces : ∀ waiter, u.waiters.count waiter + (holds new).count waiter
        + (u.woken.map Woken.waiter).count waiter
      = w.waiters.count waiter + (holds old).count waiter
        + (w.woken.map Woken.waiter).count waiter)
    (hsubscribed : u.subscribed = w.subscribed)
    (hwaiting : u.waiting + w.waiters.length + counted old
      = w.waiting + u.waiters.length + counted new)
    (hcompleted : w.completed ≤ u.completed) (hrelies : Relies u new)
    (hattended : ∀ waiter ∈ u.waiters, waiter.point ≤ u.completed →
      Takes u new ∨ waiter ∈ w.waiters ∧ waiter.point ≤ w.completed ∧ ¬Takes w old)
    (hwoken : ∀ run ∈ u.woken, run ∈ w.woken
      ∨ run.waiter.point ≤ run.completed ∧ run.completed ≤ u.completed)
    (hgreatest : Greatest u) : Inv u where
  places waiter := by
    have hsum := Shares.sum_set (fun phase => (holds phase).count waiter) new hid
    have hplace := hplaces waiter
    have hold := h.places waiter
    rw [hcalls, hsubscribed]
    omega
  numbers := by
    rw [hsubscribed]
    exact h.numbers
  waiting := by
    have hsum := Shares.sum_set counted new hid
    have hold := h.waiting
    rw [hcalls]
    omega
  relies phase hphase := by
    rw [hcalls] at hphase
    rcases List.mem_or_eq_of_mem_set hphase with hphase | rfl
    · exact (h.relies phase hphase).mono hcompleted
    · exact hrelies
  attended waiter hwaiter hpoint := by
    rw [hcalls]
    have hlt : id < w.calls.length := (List.getElem?_eq_some_iff.mp hid).1
    rcases hattended waiter hwaiter hpoint with htakes | ⟨hwaiter, hpoint, hnot⟩
    · exact ⟨new, List.mem_set hlt new, htakes⟩
    · obtain ⟨phase, hphase, htakes⟩ := h.attended waiter hwaiter hpoint
      obtain ⟨j, hj⟩ := List.mem_iff_getElem?.mp hphase
      have hne : id ≠ j := by
        rintro rfl
        cases hid.symm.trans hj
        exact hnot htakes
      refine ⟨phase, List.mem_of_getElem? (i := j) ?_, htakes.mono hcompleted⟩
      rw [List.getElem?_set_ne hne, hj]
  woken run hrun := by
    rcases hwoken run hrun with hrun | hrun
    · exact ⟨(h.woken run hrun).1, (h.woken run hrun).2.trans hcompleted⟩
    · exact hrun
  greatest := hgreatest

/-- A call that moves its waiters only, and leaves the stack to whoever took care of it. -/
theorem Inv.goto (h : Inv w) (hid : w.calls[id]? = some old)
    (hholds : ∀ waiter, (holds new).count waiter = (holds old).count waiter)
    (hcounted : counted old = counted new) (hrelies : Relies w new)
    (htakes : Takes w old → Takes w new) : Inv (w.goto id new) := by
  refine h.go hid rfl (fun waiter => ?_) rfl ?_ (le_refl _) hrelies ?_ (fun run hrun => .inl hrun)
    h.greatest
  · change w.waiters.count waiter + _ + (w.woken.map Woken.waiter).count waiter = _
    rw [hholds]
  · change w.waiting + w.waiters.length + _ = w.waiting + w.waiters.length + _
    rw [hcounted]
  · intro waiter hwaiter hpoint
    by_cases hold : Takes w old
    · exact .inl (htakes hold)
    · exact .inr ⟨hwaiter, hpoint, hold⟩

/-! ## `Advance` -/

/-- The value of a call that has raised the point, or found it raised, has advanced. -/
theorem inv_advanced (h : Inv w) {completed : Point} (hid : w.calls[id]? = some old)
    (hold : old = .advanceLoad completed ∨ ∃ current, old = .advanceExchange completed current) :
    Inv ({ w with
      completed := max w.completed completed
      advanced := w.advanced ++ [completed] }.goto id .take) := by
  have hnone : holds old = [] ∧ counted old = 0 := by
    rcases hold with rfl | ⟨current, rfl⟩ <;> exact ⟨rfl, rfl⟩
  refine h.go hid rfl (fun waiter => ?_) rfl ?_ (le_max_left _ _) trivial
    (fun _ _ _ => .inl trivial) (fun run hrun => .inl hrun) ?_
  · rw [hnone.1]
    rfl
  · rw [hnone.2]
    rfl
  · obtain ⟨hmem, hbound⟩ := h.greatest
    constructor
    · change max w.completed completed = 0 ∨ max w.completed completed ∈ w.advanced ++ [completed]
      rcases max_choice w.completed completed with hmax | hmax <;> rw [hmax]
      · exact hmem.imp (fun hzero => hzero) fun hadvanced => List.mem_append_left _ hadvanced
      · exact .inr (List.mem_append_right _ (List.mem_singleton_self _))
    · rintro point (rfl | hpoint)
      · exact Fin.zero_le _
      · rcases List.mem_append.mp hpoint with hpoint | hpoint
        · exact (hbound (.inr hpoint)).trans (le_max_left _ _)
        · rw [List.mem_singleton.mp hpoint]
          exact le_max_right _ _

theorem inv_advanceCheck (h : Inv w) {completed : Point} (hid : w.calls[id]? = some old)
    (hold : old = .advanceLoad completed ∨ ∃ current, old = .advanceExchange completed current) :
    Inv (w.advanceCheck id completed w.completed) := by
  unfold World.advanceCheck
  split
  · rename_i hlt
    have hsame : holds old = [] ∧ counted old = 0 ∧ Takes w old := by
      rcases hold with rfl | ⟨current, rfl⟩ <;> exact ⟨rfl, rfl, trivial⟩
    exact h.goto hid (fun waiter => by rw [hsame.1]; rfl) hsame.2.1 hlt fun _ => trivial
  · rename_i hnot
    have hinv := inv_advanced h hid hold
    rwa [max_eq_left (not_lt.mp hnot)] at hinv

theorem inv_advanceExchange (h : Inv w) {answer : Bool} {completed current : Point}
    (hid : w.calls[id]? = some (.advanceExchange completed current)) :
    Inv (w.advance id answer (.advanceExchange completed current)) := by
  have hlt := h.relies _ (List.mem_of_getElem? hid)
  simp only [World.advance]
  split
  · rename_i hequal
    obtain ⟨-, rfl⟩ := hequal
    have hinv := inv_advanced h hid (.inr ⟨_, rfl⟩)
    rwa [max_eq_right (le_of_lt hlt)] at hinv
  · exact inv_advanceCheck h hid (.inr ⟨_, rfl⟩)

/-! ## `Subscribe` -/

theorem inv_inlineWake (h : Inv w) {answer : Bool} {waiter : Waiter} {completed : Point}
    (hid : w.calls[id]? = some (.inlineWake waiter completed)) :
    Inv (w.advance id answer (.inlineWake waiter completed)) := by
  have hrelies := h.relies _ (List.mem_of_getElem? hid)
  simp only [World.advance]
  refine h.go hid rfl (fun x => ?_) rfl rfl (le_refl _) trivial
    (fun _ hwaiter hpoint => .inr ⟨hwaiter, hpoint, nofun⟩) (fun run hrun => ?_) h.greatest
  · simp [World.goto, holds]
    omega
  · rcases List.mem_append.mp hrun with hrun | hrun
    · exact .inl hrun
    · cases List.mem_singleton.mp hrun
      exact .inr hrelies

theorem inv_push (h : Inv w) {answer : Bool} {waiter : Waiter}
    (hid : w.calls[id]? = some (.push waiter)) :
    Inv (w.advance id answer (.push waiter)) := by
  simp only [World.advance]
  split
  · refine h.go hid rfl (fun x => ?_) rfl ?_ (le_refl _) trivial ?_ (fun run hrun => .inl hrun)
      h.greatest
    · simp [World.goto, holds, List.count_cons]
    · simp only [World.goto, counted, List.length_cons]
      omega
    · intro x hx hpoint
      rcases List.mem_cons.mp hx with rfl | hx
      · exact .inl hpoint
      · exact .inr ⟨hx, hpoint, nofun⟩
  · exact h

theorem inv_countWaiting (h : Inv w) {answer : Bool} {waiter : Waiter}
    (hid : w.calls[id]? = some (.countWaiting waiter)) :
    Inv (w.advance id answer (.countWaiting waiter)) := by
  simp only [World.advance]
  refine h.go hid rfl (fun x => rfl) rfl ?_ (le_refl _) trivial
    (fun _ hwaiter hpoint => .inr ⟨hwaiter, hpoint, nofun⟩) (fun run hrun => .inl hrun) h.greatest
  simp only [World.goto, counted]
  omega

/-! ## `RunReached` -/

theorem inv_take (h : Inv w) {answer : Bool} (hid : w.calls[id]? = some .take) :
    Inv (w.advance id answer .take) := by
  simp only [World.advance]
  split
  · rename_i hempty
    refine h.go hid rfl (fun _ => rfl) rfl rfl (le_refl _) trivial ?_ (fun run hrun => .inl hrun)
      h.greatest
    intro waiter hwaiter
    change waiter ∈ w.waiters at hwaiter
    rw [hempty] at hwaiter
    exact absurd hwaiter List.not_mem_nil
  · refine h.go hid rfl (fun _ => ?_) rfl ?_ (le_refl _) trivial nofun (fun run hrun => .inl hrun)
      h.greatest
    · simp [World.goto, holds]
    · simp [World.goto, counted]

theorem inv_walk_nil (h : Inv w) {answer : Bool} {completed lowestKept : Point}
    {kept : List Waiter} (hid : w.calls[id]? = some (.walk completed lowestKept [] kept)) :
    Inv (w.advance id answer (.walk completed lowestKept [] kept)) := by
  have hrelies := h.relies _ (List.mem_of_getElem? hid)
  simp only [World.advance]
  split
  · rename_i hempty
    exact h.goto hid (fun _ => by simp [holds, hempty]) (by simp [counted, hempty]) trivial nofun
  · exact h.goto hid (fun _ => by simp [holds]) (by simp [counted]) hrelies.2 nofun

theorem inv_walk_cons (h : Inv w) {answer : Bool} {completed lowestKept : Point} {waiter : Waiter}
    {list kept : List Waiter}
    (hid : w.calls[id]? = some (.walk completed lowestKept (waiter :: list) kept)) :
    Inv (w.advance id answer (.walk completed lowestKept (waiter :: list) kept)) := by
  obtain ⟨hcompleted, hkept⟩ := h.relies _ (List.mem_of_getElem? hid)
  simp only [World.advance]
  split
  · rename_i hpoint
    -- the walker holds a waiter that is counted
    have hpos : 0 < w.waiting := by
      have hsum := Shares.sum_set counted .returned hid
      have hwaiting := h.waiting
      simp only [counted, List.length_cons] at hsum
      omega
    refine h.go hid rfl (fun _ => by simp [World.goto, holds]) rfl ?_ (le_refl _)
      ⟨hpoint, hcompleted, hkept⟩ (fun _ hwaiter hpoint => .inr ⟨hwaiter, hpoint, nofun⟩)
      (fun run hrun => .inl hrun) h.greatest
    simp only [World.goto, counted, List.length_cons]
    omega
  · refine h.goto hid (fun _ => ?_) ?_ ⟨hcompleted, ?_⟩ nofun
    · simp [holds, List.count_cons]
      omega
    · simp [counted]
      omega
    · intro x hx
      rcases List.mem_cons.mp hx with rfl | hx
      · exact min_le_left _ _
      · exact (min_le_right _ _).trans (hkept x hx)

theorem inv_wake (h : Inv w) {answer : Bool} {completed lowestKept : Point} {waiter : Waiter}
    {list kept : List Waiter}
    (hid : w.calls[id]? = some (.wake completed lowestKept waiter list kept)) :
    Inv (w.advance id answer (.wake completed lowestKept waiter list kept)) := by
  obtain ⟨hpoint, hcompleted, hkept⟩ := h.relies _ (List.mem_of_getElem? hid)
  simp only [World.advance]
  refine h.go hid rfl (fun x => ?_) rfl rfl (le_refl _) ⟨hcompleted, hkept⟩
    (fun _ hwaiter hpoint => .inr ⟨hwaiter, hpoint, nofun⟩) (fun run hrun => ?_) h.greatest
  · simp [World.goto, holds, List.count_cons]
    omega
  · rcases List.mem_append.mp hrun with hrun | hrun
    · exact .inl hrun
    · cases List.mem_singleton.mp hrun
      exact .inr ⟨hpoint, hcompleted⟩

/-- What is pushed back is looked at again: the point may have been raised since it was read. -/
theorem inv_keep (h : Inv w) {answer : Bool} {lowestKept : Point} {kept : List Waiter}
    (hid : w.calls[id]? = some (.keep lowestKept kept)) :
    Inv (w.advance id answer (.keep lowestKept kept)) := by
  have hkept := h.relies _ (List.mem_of_getElem? hid)
  simp only [World.advance]
  split
  · refine h.go hid rfl (fun x => ?_) rfl ?_ (le_refl _) trivial ?_ (fun run hrun => .inl hrun)
      h.greatest
    · simp [World.goto, holds]
      omega
    · simp [World.goto, counted]
      omega
    · intro x hx hpoint
      rcases List.mem_append.mp hx with hx | hx
      · exact .inl (le_trans (hkept x hx) hpoint)
      · exact .inr ⟨hx, hpoint, nofun⟩
  · exact h

/-! ## The run -/

theorem inv_access (h : Inv w) {answer : Bool} (hid : w.calls[id]? = some phase) :
    Inv (w.advance id answer phase) := by
  have hrelies := h.relies _ (List.mem_of_getElem? hid)
  cases phase with
  | returned => exact h
  | advanceLoad completed => exact inv_advanceCheck h hid (.inl rfl)
  | advanceExchange completed current => exact inv_advanceExchange h hid
  | checkReached waiter =>
    simp only [World.advance]
    split
    · rename_i hpoint
      exact h.goto hid (fun _ => rfl) rfl hpoint nofun
    · exact h.goto hid (fun _ => rfl) rfl trivial nofun
  | inlineCompleted waiter => exact h.goto hid (fun _ => rfl) rfl ⟨hrelies, le_refl _⟩ nofun
  | inlineWake waiter completed => exact inv_inlineWake h hid
  | countWaiting waiter => exact inv_countWaiting h hid
  | push waiter => exact inv_push h hid
  | recheckReached point =>
    simp only [World.advance]
    split
    · exact h.goto hid (fun _ => rfl) rfl trivial fun _ => trivial
    · rename_i hpoint
      exact h.goto hid (fun _ => rfl) rfl trivial fun htakes => absurd htakes hpoint
  | take => exact inv_take h hid
  | readCompleted list =>
    exact h.goto hid (fun _ => by simp [holds]) rfl ⟨le_refl _, nofun⟩ nofun
  | walk completed lowestKept list kept =>
    cases list with
    | nil => exact inv_walk_nil h hid
    | cons waiter list => exact inv_walk_cons h hid
  | wake completed lowestKept waiter list kept => exact inv_wake h hid
  | keep lowestKept kept => exact inv_keep h hid
  | checkKept lowestKept =>
    simp only [World.advance]
    split
    · rename_i hlt
      exact h.goto hid (fun _ => rfl) rfl trivial fun htakes => absurd htakes (not_le.mpr hlt)
    · exact h.goto hid (fun _ => rfl) rfl trivial fun _ => trivial

/-- A call that begins leaves the others where they are. -/
theorem attended_append (h : Inv w) (waiter : Waiter) (hwaiter : waiter ∈ w.waiters)
    (hpoint : waiter.point ≤ w.completed) (hcompleted : u.completed = w.completed) :
    ∃ phase ∈ w.calls ++ [new], Takes u phase := by
  obtain ⟨phase, hphase, htakes⟩ := h.attended waiter hwaiter hpoint
  exact ⟨phase, List.mem_append_left _ hphase, htakes.mono (le_of_eq hcompleted.symm)⟩

theorem inv_advance (h : Inv w) (completed : Point) :
    Inv { w with calls := w.calls ++ [.advanceLoad completed] } where
  places waiter := by simpa [holds] using h.places waiter
  numbers := h.numbers
  waiting := by simpa [counted] using h.waiting
  relies phase hphase := by
    rcases List.mem_append.mp hphase with hphase | hphase
    · exact (h.relies phase hphase).mono (le_refl w.completed)
    · rw [List.mem_singleton.mp hphase]
      trivial
  attended waiter hwaiter hpoint := attended_append h waiter hwaiter hpoint rfl
  woken := h.woken
  greatest := h.greatest

theorem inv_subscribe (h : Inv w) (point : Point) :
    Inv { w with
      calls := w.calls ++ [.checkReached ⟨w.subscribed.length, point⟩]
      subscribed := w.subscribed ++ [⟨w.subscribed.length, point⟩] } where
  places waiter := by
    have hplaces := h.places waiter
    have hholds : ∀ x, holds (.checkReached x) = [x] := fun _ => rfl
    simp only [List.map_append, List.map_cons, List.map_nil, List.sum_append, List.sum_cons,
      List.sum_nil, List.count_append, hholds]
    omega
  numbers := by simp [h.numbers, List.range_succ]
  waiting := by simpa [counted] using h.waiting
  relies phase hphase := by
    rcases List.mem_append.mp hphase with hphase | hphase
    · exact (h.relies phase hphase).mono (le_refl w.completed)
    · rw [List.mem_singleton.mp hphase]
      trivial
  attended waiter hwaiter hpoint := attended_append h waiter hwaiter hpoint rfl
  woken := h.woken
  greatest := h.greatest

theorem inv_step {a : Action} (h : Inv w) (hs : step w a = some u) : Inv u := by
  cases a with
  | advance completed =>
    cases hs
    exact inv_advance h completed
  | subscribe point wake =>
    simp only [step] at hs
    split at hs <;> cases hs
    · exact h
    · exact inv_subscribe h point
  | access id answer =>
    simp only [step] at hs
    split at hs <;> cases hs
    exact inv_access h ‹_›

/-! ## The promises -/

theorem wakesOnce (h : Inv w) : WakesOnce w := by
  have hsubperm : (w.woken.map Woken.waiter).Subperm w.subscribed := by
    rw [List.subperm_iff_count]
    intro waiter
    have hplaces := h.places waiter
    omega
  have hnumbers : (w.subscribed.map Waiter.wake).Nodup := by
    rw [h.numbers]
    exact List.nodup_range
  refine ⟨?_, fun run hrun => ⟨hsubperm.subset (List.mem_map_of_mem hrun), h.woken run hrun⟩⟩
  obtain ⟨list, hperm, hsublist⟩ := hsubperm
  have hnodup := (hsublist.map Waiter.wake).nodup hnumbers
  rwa [(hperm.map Waiter.wake).nodup_iff, List.map_map] at hnodup

/-- Calls that have returned hold nothing. -/
theorem sum_returned {f : Phase → Nat} (hf : f .returned = 0) {calls : List Phase}
    (h : ∀ phase ∈ calls, phase = .returned) : (calls.map f).sum = 0 := by
  refine List.sum_eq_zero fun n hn => ?_
  obtain ⟨phase, hphase, rfl⟩ := List.mem_map.mp hn
  rw [h phase hphase, hf]

theorem nobodyLeft (h : Inv w) : NobodyLeft w := by
  intro hrest
  refine ⟨fun waiter hwaiter => ?_, ?_, fun waiter hwaiter => ?_⟩
  · by_contra hnot
    obtain ⟨phase, hphase, htakes⟩ := h.attended waiter hwaiter (not_lt.mp hnot)
    rw [hrest phase hphase] at htakes
    exact htakes
  · rw [h.waiting, sum_returned rfl hrest, Nat.add_zero]
  · have hplaces := h.places waiter
    rw [sum_returned (by rfl) hrest, Nat.add_zero] at hplaces
    have hpos := List.count_pos_iff.mpr hwaiter
    by_cases hmem : waiter ∈ w.waiters
    · exact .inl hmem
    · rw [List.count_eq_zero.mpr hmem, Nat.zero_add] at hplaces
      exact .inr (List.mem_map.mp (List.count_pos_iff.mp (hplaces ▸ hpos)))

end ModuleServices.RetirementClock.Proof

namespace ModuleServices.RetirementClock

open ModuleServices.RetirementClock.Proof

/-- **The retirement clock.** However the calls and the wakes interleave, `Completed` is the
greatest value advanced, a wake runs once at most and with a point that is not before its own, and
once no call is in progress whoever was reached has been woken and whoever waits is counted. -/
theorem clock_wakes_once {w : World} (h : Run.Reachable step {} w) :
    Greatest w ∧ WakesOnce w ∧ NobodyLeft w := by
  have hinv : Inv w := h.invariant inv_start fun _ hinv _ hs => inv_step hinv hs
  exact ⟨hinv.greatest, wakesOnce hinv, nobodyLeft hinv⟩

/-- The clock is raised, and the stack found empty, while a runner that has read the old point has
the waiters in its hands: it finds the new point when it looks again. -/
def keptTrace (early late middle last : Point) : List Action :=
  [.subscribe early true, .access 0 true, .access 0 true, .access 0 true, .access 0 true,
    .subscribe late true, .access 1 true, .access 1 true, .access 1 true, .access 1 true,
    .advance middle, .access 2 true, .access 2 true, .access 2 true, .access 2 true, .advance last,
    .access 3 true, .access 3 true, .access 3 true, .access 2 true, .access 2 true, .access 2 true,
    .access 2 true, .access 2 true, .access 2 true, .access 2 true, .access 2 true, .access 2 true,
    .access 2 true, .access 2 true, .access 2 true, .access 2 true]

theorem clock_wakes_once_kept : ∃ w : World, Run.Reachable step {} w ∧
    (w.completed = 6 ∧ w.woken = [⟨⟨0, 5⟩, 6⟩] ∧ w.waiters = [⟨1, 9⟩] ∧ AtRest w) ∧
    Greatest w ∧ WakesOnce w ∧ NobodyLeft w := by
  have htrace : (Run.exec step {} (keptTrace 5 9 3 6)).any (fun w =>
        w.completed = 6 ∧ w.woken = [⟨⟨0, 5⟩, 6⟩] ∧ w.waiters = [⟨1, 9⟩]
          ∧ ∀ phase ∈ w.calls, phase = .returned) = true := by
    decide +kernel
  obtain ⟨w, hrun, hw⟩ := (Option.any_eq_true _ _).mp htrace
  have hreach := Run.exec_reachable hrun
  obtain ⟨hcompleted, hwoken, hwaiters, hrest⟩ := of_decide_eq_true hw
  exact ⟨w, hreach, ⟨hcompleted, hwoken, hwaiters, hrest⟩, clock_wakes_once hreach⟩

end ModuleServices.RetirementClock
