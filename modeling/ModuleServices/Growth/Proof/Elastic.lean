import ModuleServices.Growth.Elastic
import ModuleServices.Growth.Proof.Policy

/-!
# An elastic capacity follows its need

A window is a run of asks at the end of the history, each low against the capacity it left
alone. `Counts` says so, and every ask either adds itself to the run or ends it.

Three things break it. A growth that throws leaves the window open, and the next low ask goes on
counting as if the need had never been high. The count stops at 2^32-1 where `Due` adds one more to
it. And a window that is due can have a peak no policy size holds, where the ask throws.
-/

namespace ModuleServices.Growth.Proof

open ModuleServices.Proof ElasticCapacity

variable {growth : GrowthPolicy} {shrink : ShrinkPolicy} {limit capacity need : Nat} {now : Int}
  {window : ShrinkWindow} {elastic : ElasticCapacity} {run asks : List Ask} {ask : Ask}

/-! ## `Observe` -/

/-- What the capacity shrinks to for the peak of a window. -/
def freshSize (growth : GrowthPolicy) (peak : Nat) : Except String Nat :=
  if peak ≠ 0 then growth.next 0 peak else .ok 0

/-- A closed window: the capacity to make, when it is smaller. -/
def shrinkTo (capacity : Nat) (window : ShrinkWindow) (target : Nat) :
    Except String (Option Nat × ShrinkWindow) :=
  if target ≥ capacity then .ok (none, window.reset) else .ok (some target, window.reset)

/-- The end of a window. -/
def close (growth : GrowthPolicy) (capacity : Nat) (window : ShrinkWindow) :
    Except String (Option Nat × ShrinkWindow) :=
  freshSize growth window.peak >>= shrinkTo capacity window

/-- A window that an ask would close. -/
def Closing (shrink : ShrinkPolicy) (window : ShrinkWindow) (now : Int) : Prop :=
  shrink.observations ≤ window.seen ∧ shrink.settle ≤ now - window.since

instance (shrink : ShrinkPolicy) (window : ShrinkWindow) (now : Int) :
    Decidable (Closing shrink window now) :=
  inferInstanceAs (Decidable (_ ∧ _))

/-- The threshold is the exact share, rounded down. -/
theorem threshold_eq (hpercent : shrink.usedPercent ≤ 100) (hcapacity : capacity ≤ kMax) :
    (capacity / 100 * shrink.usedPercent + capacity % 100 * shrink.usedPercent / 100) % 2 ^ 64
      = capacity * shrink.usedPercent / 100 := by
  rw [percentage_eq]
  refine Nat.mod_eq_of_lt ?_
  have hpow : (2 : Nat) ^ 64 = kMax + 1 := by decide
  have hle : capacity * shrink.usedPercent / 100 ≤ capacity := by
    refine Nat.div_le_of_le_mul ?_
    rw [Nat.mul_comm 100]
    exact Nat.mul_le_mul_left _ hpercent
  omega

theorem observe_off (h : shrink.shrinks = false ∨ capacity = 0) :
    window.observe shrink growth capacity need now = .ok (none, window) := by
  unfold ShrinkWindow.observe
  rw [if_pos]
  rcases h with h | h <;> simp [h]

theorem observe_high (hon : shrink.shrinks = true) (hsome : capacity ≠ 0)
    (hpercent : shrink.usedPercent ≤ 100) (hcapacity : capacity ≤ kMax)
    (hhigh : capacity * shrink.usedPercent / 100 < need) :
    window.observe shrink growth capacity need now = .ok (none, window.reset) := by
  unfold ShrinkWindow.observe
  simp only [threshold_eq hpercent hcapacity]
  rw [if_neg (by simp [hon, hsome]), if_pos hhigh]

/-- An ask at or below the threshold is counted, and may close the window. -/
theorem observe_low (hon : shrink.shrinks = true) (hsome : capacity ≠ 0)
    (hpercent : shrink.usedPercent ≤ 100) (hcapacity : capacity ≤ kMax)
    (hlow : need ≤ capacity * shrink.usedPercent / 100) :
    window.observe shrink growth capacity need now =
      if Closing shrink (window.count need now) now then
        close growth capacity (window.count need now)
      else .ok (none, window.count need now) := by
  have hcounted : window.observe shrink growth capacity need now =
      if (window.count need now).seen < shrink.observations
          ∨ now - (window.count need now).since < shrink.settle then
        .ok (none, window.count need now)
      else if (window.count need now).peak ≠ 0 then
        growth.next 0 (window.count need now).peak >>= shrinkTo capacity (window.count need now)
      else shrinkTo capacity (window.count need now) 0 := by
    unfold ShrinkWindow.observe
    simp only [threshold_eq hpercent hcapacity]
    rw [if_neg (by simp [hon, hsome]), if_neg (Nat.not_lt.mpr hlow)]
    rfl
  rw [hcounted]
  generalize window.count need now = counted
  unfold close freshSize
  by_cases hclosing : Closing shrink counted now
  · have hopen : ¬(counted.seen < shrink.observations ∨ now - counted.since < shrink.settle) := by
      unfold Closing at hclosing
      omega
    rw [if_neg hopen, if_pos hclosing]
    by_cases hpeak : counted.peak ≠ 0
    · rw [if_pos hpeak, if_pos hpeak]
    · rw [if_neg hpeak, if_neg hpeak]
      rfl
  · have hopen : counted.seen < shrink.observations ∨ now - counted.since < shrink.settle := by
      unfold Closing at hclosing
      omega
    rw [if_pos hopen, if_neg hclosing]

/-- One more ask is counted, unless the count is at its limit. -/
theorem count_seen (window : ShrinkWindow) (need : Nat) (now : Int) :
    (window.count need now).seen
      = if window.seen < kMax32 then window.seen + 1 else window.seen := by
  unfold ShrinkWindow.count
  by_cases hopen : window.seen = 0
  · simp [hopen]
  · by_cases hmore : need > window.peak <;> simp [hopen, hmore]

theorem count_peak (hpeak : window.seen = 0 → window.peak = 0) (need : Nat) (now : Int) :
    (window.count need now).peak = max window.peak need := by
  unfold ShrinkWindow.count
  by_cases hopen : window.seen = 0
  · simp [hopen, hpeak hopen]
  · by_cases hmore : need > window.peak
    · simp [hopen, hmore]
      omega
    · simp [hopen, hmore]
      omega

theorem count_since (window : ShrinkWindow) (need : Nat) (now : Int) :
    (window.count need now).since = if window.seen = 0 then now else window.since := by
  unfold ShrinkWindow.count
  by_cases hopen : window.seen = 0
  · simp [hopen]
  · by_cases hmore : need > window.peak <;> simp [hopen, hmore]

/-! ## The run of low asks -/

/-- The most asked in a run. -/
def peakOf (run : List Ask) : Nat := (run.map Ask.need).foldr max 0

@[simp] theorem peakOf_nil : peakOf [] = 0 := rfl

theorem peakOf_append (run : List Ask) (ask : Ask) :
    peakOf (run ++ [ask]) = max (peakOf run) ask.need := by
  unfold peakOf
  induction run with
  | nil => simp
  | cons first rest ih =>
    simp only [List.cons_append, List.map_cons, List.foldr_cons]
    rw [ih, Nat.max_assoc]

theorem need_le_peakOf {ask : Ask} (h : ask ∈ run) : ask.need ≤ peakOf run := by
  unfold peakOf
  induction run with
  | nil => cases h
  | cons first rest ih =>
    simp only [List.map_cons, List.foldr_cons]
    rcases List.mem_cons.mp h with rfl | h
    · exact Nat.le_max_left _ _
    · exact Nat.le_trans (ih h) (Nat.le_max_right _ _)

/-- The window of a capacity counts a run of asks, each low against the capacity as it is. -/
structure Counts (shrink : ShrinkPolicy) (elastic : ElasticCapacity) (run : List Ask) : Prop where
  seen : elastic.window.seen = min run.length kMax32
  peak : elastic.window.peak = peakOf run
  since : ∀ first ∈ run.head?, elastic.window.since = first.now
  low : ∀ ask ∈ run, ask.need ≤ elastic.value * shrink.usedPercent / 100
  shrinks : run ≠ [] → shrink.shrinks = true ∧ elastic.value ≠ 0

theorem seen_eq_zero (h : Counts shrink elastic run) : elastic.window.seen = 0 ↔ run = [] := by
  have hmax : 0 < kMax32 := by decide
  rw [h.seen]
  constructor
  · intro hzero
    exact List.eq_nil_of_length_eq_zero (by omega)
  · rintro rfl
    exact Nat.zero_min _

/-- A closed window counts no ask. -/
theorem counts_reset (value : Nat) (window : ShrinkWindow) :
    Counts shrink { value, window := window.reset } [] where
  seen := rfl
  peak := rfl
  since := by
    intro first hfirst
    cases hfirst
  low := by
    intro ask hask
    cases hask
  shrinks := fun h => absurd rfl h

/-- An ask that the window counts. -/
structure Low (shrink : ShrinkPolicy) (elastic : ElasticCapacity) (need : Nat) : Prop where
  on : shrink.shrinks = true
  some : elastic.value ≠ 0
  low : need ≤ elastic.value * shrink.usedPercent / 100

/-- A low ask is added to the run. -/
theorem counts_count (h : Counts shrink elastic run) (hlow : Low shrink elastic ask.need) :
    Counts shrink { elastic with window := elastic.window.count ask.need ask.now }
      (run ++ [ask]) := by
  have hmax : 0 < kMax32 := by decide
  have hseen := h.seen
  constructor
  · rw [count_seen, List.length_append, List.length_singleton]
    split <;> omega
  · rw [peakOf_append, count_peak, h.peak]
    intro hclosed
    rw [h.peak, (seen_eq_zero h).mp hclosed, peakOf_nil]
  · intro first hfirst
    rw [count_since]
    cases hrun : run with
    | nil =>
      rw [hrun] at hfirst
      cases hfirst
      rw [if_pos ((seen_eq_zero h).mpr hrun)]
    | cons head rest =>
      rw [hrun] at hfirst
      cases hfirst
      rw [if_neg fun hclosed => by simpa [hrun] using (seen_eq_zero h).mp hclosed]
      exact h.since _ (by rw [hrun]; rfl)
  · intro other hother
    rcases List.mem_append.mp hother with hother | hother
    · exact h.low other hother
    · rw [List.mem_singleton.mp hother]
      exact hlow.low
  · intro _
    exact ⟨hlow.on, hlow.some⟩

/-! ## What a `Fit` can do -/

inductive Fitted (limit : Nat) (growth : GrowthPolicy) (shrink : ShrinkPolicy)
    (elastic : ElasticCapacity) (ask : Ask) : Except String Bool × ElasticCapacity → Prop where
  | refused (what : String) (hmore : elastic.value < ask.need)
      (hnext : growth.nextAs limit elastic.value ask.need = .error what) :
      Fitted limit growth shrink elastic ask (.error what, elastic)
  | grown (value : Nat) (hmore : elastic.value < ask.need) (hholds : ask.need ≤ value)
      (hlimit : value ≤ limit) :
      Fitted limit growth shrink elastic ask (.ok true, { value, window := elastic.window.reset })
  | off (hholds : ask.need ≤ elastic.value) (hoff : shrink.shrinks = false ∨ elastic.value = 0) :
      Fitted limit growth shrink elastic ask (.ok false, elastic)
  | high (hholds : ask.need ≤ elastic.value)
      (hhigh : elastic.value * shrink.usedPercent / 100 < ask.need) :
      Fitted limit growth shrink elastic ask
        (.ok false, { elastic with window := elastic.window.reset })
  | counted (hholds : ask.need ≤ elastic.value) (hlow : Low shrink elastic ask.need)
      (hopen : ¬Closing shrink (elastic.window.count ask.need ask.now) ask.now) :
      Fitted limit growth shrink elastic ask
        (.ok false, { elastic with window := elastic.window.count ask.need ask.now })
  | threw (what : String) (hlow : Low shrink elastic ask.need)
      (hclosing : Closing shrink (elastic.window.count ask.need ask.now) ask.now)
      (hfresh : freshSize growth (elastic.window.count ask.need ask.now).peak = .error what) :
      Fitted limit growth shrink elastic ask
        (.error what, { elastic with window := elastic.window.count ask.need ask.now })
  | kept (target : Nat) (hholds : ask.need ≤ elastic.value) (hlow : Low shrink elastic ask.need)
      (hclosing : Closing shrink (elastic.window.count ask.need ask.now) ask.now)
      (hfresh : freshSize growth (elastic.window.count ask.need ask.now).peak = .ok target)
      (hmore : elastic.value ≤ target) :
      Fitted limit growth shrink elastic ask
        (.ok false, { elastic with window := (elastic.window.count ask.need ask.now).reset })
  | shrunk (target : Nat) (hlow : Low shrink elastic ask.need)
      (hclosing : Closing shrink (elastic.window.count ask.need ask.now) ask.now)
      (hfresh : freshSize growth (elastic.window.count ask.need ask.now).peak = .ok target)
      (hless : target < elastic.value) :
      Fitted limit growth shrink elastic ask
        (.ok true,
          { value := target, window := (elastic.window.count ask.need ask.now).reset })

/-- The numbers are those of their types: percent at most 100, the capacity no more than its type
holds, the rest 64 bits. -/
structure Typed (limit : Nat) (growth : GrowthPolicy) (shrink : ShrinkPolicy) : Prop where
  limit : limit ≤ kMax
  minimum : growth.minimum ≤ kMax
  percent : shrink.usedPercent ≤ 100
  observations : shrink.observations ≤ kMax32

theorem nextAs_ok {value : Nat} (h : growth.nextAs limit capacity need = .ok value) :
    growth.next capacity need = .ok value ∧ value ≤ limit := by
  unfold GrowthPolicy.nextAs at h
  split at h
  · cases h
  · rename_i next hnext
    split at h
    · cases h
    · cases h
      exact ⟨hnext, by omega⟩

theorem fit_fitted (htyped : Typed limit growth shrink) (hvalue : elastic.value ≤ limit)
    (hneed : ask.need ≤ kMax) :
    Fitted limit growth shrink elastic ask (elastic.fit limit ask.need growth shrink ask.now) := by
  have hmax : elastic.value ≤ kMax := Nat.le_trans hvalue htyped.limit
  unfold ElasticCapacity.fit
  by_cases hmore : ask.need > elastic.value
  · rw [if_pos hmore]
    cases hnext : growth.nextAs limit elastic.value ask.need with
    | error what => exact .refused what hmore hnext
    | ok value =>
      obtain ⟨hnext, hlimit⟩ := nextAs_ok hnext
      obtain ⟨hholds, -, -⟩ := next_bounds hneed hmax htyped.minimum hnext
      have hmoved : (value != elastic.value) = true := by
        simp only [bne_iff_ne]
        omega
      dsimp only
      rw [hmoved]
      exact .grown value hmore hholds hlimit
  rw [if_neg hmore]
  have hholds : ask.need ≤ elastic.value := Nat.not_lt.mp hmore
  by_cases hoff : shrink.shrinks = false ∨ elastic.value = 0
  · rw [observe_off hoff]
    exact .off hholds hoff
  obtain ⟨hon, hsome⟩ := not_or.mp hoff
  rw [Bool.not_eq_false] at hon
  by_cases hlow : ask.need ≤ elastic.value * shrink.usedPercent / 100
  · rw [observe_low hon hsome htyped.percent hmax hlow]
    by_cases hclosing : Closing shrink (elastic.window.count ask.need ask.now) ask.now
    · rw [if_pos hclosing]
      unfold close
      cases hfresh : freshSize growth (elastic.window.count ask.need ask.now).peak with
      | error what => exact .threw what ⟨hon, hsome, hlow⟩ hclosing hfresh
      | ok target =>
        have hbind : (Except.ok target >>= shrinkTo elastic.value
            (elastic.window.count ask.need ask.now))
          = shrinkTo elastic.value (elastic.window.count ask.need ask.now) target := rfl
        rw [hbind]
        unfold shrinkTo
        by_cases hless : target ≥ elastic.value
        · rw [if_pos hless]
          exact .kept target hholds ⟨hon, hsome, hlow⟩ hclosing hfresh hless
        · rw [if_neg hless]
          have hcast : target % (limit + 1) = target := Nat.mod_eq_of_lt (by omega)
          dsimp only
          rw [hcast]
          exact .shrunk target ⟨hon, hsome, hlow⟩ hclosing hfresh (by omega)
    · rw [if_neg hclosing]
      exact .counted hholds ⟨hon, hsome, hlow⟩ hclosing
  · rw [observe_high hon hsome htyped.percent hmax (Nat.not_le.mp hlow)]
    exact .high hholds (Nat.not_le.mp hlow)

/-- A growth that is refused finds no run to break. -/
def Restarts (limit : Nat) (growth : GrowthPolicy) (elastic : ElasticCapacity) (ask : Ask) : Prop :=
  elastic.value < ask.need →
    (∃ value, growth.nextAs limit elastic.value ask.need = .ok value) ∨ elastic.window.seen = 0

/-- One ask adds itself to the run or ends it. -/
theorem Fitted.counts {result : Except String Bool × ElasticCapacity}
    (hfit : Fitted limit growth shrink elastic ask result) (h : Counts shrink elastic run)
    (hrestarts : Restarts limit growth elastic ask) :
    ∃ run', (run' = [] ∨ run' = run ++ [ask]) ∧ Counts shrink result.2 run' := by
  cases hfit with
  | refused what hmore hnext =>
    have hnil : run = [] := by
      rcases hrestarts hmore with ⟨value, hok⟩ | hclosed
      · rw [hok] at hnext
        cases hnext
      · exact (seen_eq_zero h).mp hclosed
    exact ⟨run, .inl hnil, h⟩
  | grown value => exact ⟨[], .inl rfl, counts_reset value elastic.window⟩
  | off hholds hoff =>
    have hnil : run = [] := by
      by_contra hopen
      obtain ⟨hon, hsome⟩ := h.shrinks hopen
      rcases hoff with hoff | hzero
      · rw [hon] at hoff
        cases hoff
      · exact hsome hzero
    exact ⟨run, .inl hnil, h⟩
  | high => exact ⟨[], .inl rfl, counts_reset elastic.value elastic.window⟩
  | counted hholds hlow => exact ⟨run ++ [ask], .inr rfl, counts_count h hlow⟩
  | threw what hlow => exact ⟨run ++ [ask], .inr rfl, counts_count h hlow⟩
  | kept target => exact ⟨[], .inl rfl, counts_reset elastic.value _⟩
  | shrunk target => exact ⟨[], .inl rfl, counts_reset target _⟩

theorem Fitted.value_le {result : Except String Bool × ElasticCapacity}
    (hfit : Fitted limit growth shrink elastic ask result) (hvalue : elastic.value ≤ limit) :
    result.2.value ≤ limit := by
  cases hfit with
  | grown value hmore hholds hlimit => exact hlimit
  | shrunk target hlow hclosing hfresh hless => exact Nat.le_trans (Nat.le_of_lt hless) hvalue
  | _ => exact hvalue

theorem after_append (start : ElasticCapacity) (asks : List Ask) (ask : Ask) :
    after limit growth shrink start (asks ++ [ask])
      = ((after limit growth shrink start asks).fit limit ask.need growth shrink ask.now).2 := by
  unfold after
  rw [List.foldl_append]
  rfl

/-- Every refused growth of the run found no window open. -/
def Restarting (limit : Nat) (growth : GrowthPolicy) (shrink : ShrinkPolicy) (start : Nat)
    (asks : List Ask) : Prop :=
  ∀ front ask rest, asks = front ++ ask :: rest →
    Restarts limit growth (after limit growth shrink { value := start } front) ask

/-- The window is a run at the end of the history. -/
theorem after_counts (htyped : Typed limit growth shrink) {start : Nat} (hstart : start ≤ limit) :
    ∀ asks : List Ask, (∀ ask ∈ asks, ask.need ≤ kMax) →
    Restarting limit growth shrink start asks →
    (after limit growth shrink { value := start } asks).value ≤ limit ∧
    ∃ front run, asks = front ++ run
      ∧ Counts shrink (after limit growth shrink { value := start } asks) run := by
  intro asks
  induction asks using List.reverseRecOn with
  | nil =>
    intro _ _
    exact ⟨hstart, [], [], rfl, counts_reset start {}⟩
  | append_singleton asks ask ih =>
    intro hneeds hrestarting
    have hbefore : Restarting limit growth shrink start asks := by
      intro front other rest heq
      exact hrestarting front other (rest ++ [ask]) (by rw [heq]; simp)
    obtain ⟨hvalue, front, run, heq, hcounts⟩ :=
      ih (fun other hother => hneeds other (List.mem_append_left _ hother)) hbefore
    have hfit := fit_fitted htyped hvalue
      (hneeds ask (List.mem_append_right _ (List.mem_singleton_self ask)))
    rw [after_append]
    refine ⟨hfit.value_le hvalue, ?_⟩
    obtain ⟨run', hrun', hcounts'⟩ := hfit.counts hcounts (hrestarting asks ask [] rfl)
    rcases hrun' with rfl | rfl
    · exact ⟨asks ++ [ask], [], by simp, hcounts'⟩
    · exact ⟨front, run ++ [ask], by rw [heq, List.append_assoc], hcounts'⟩

/-! ## What follows the need -/

/-- An ask of the peak is not counted, by a capacity that was just made for it. -/
structure Settled (limit : Nat) (growth : GrowthPolicy) (shrink : ShrinkPolicy) (peak : Nat)
    (made : ElasticCapacity) : Prop where
  high : made.value ≠ 0 → made.value * shrink.usedPercent / 100 < peak
  still : ∀ now, made.fit limit peak growth shrink now = (.ok false, made)

/-- The capacity shrank at the end of this run of asks, to the fresh size for their peak. -/
structure Shrunk (limit : Nat) (growth : GrowthPolicy) (shrink : ShrinkPolicy) (run : List Ask)
    (last : Ask) (elastic made : ElasticCapacity) : Prop where
  some : run ≠ []
  long : shrink.observations ≤ run.length
  span : ∀ first ∈ run.head?, shrink.settle ≤ last.now - first.now
  low : ∀ ask ∈ run, ask.need ≤ elastic.value * shrink.usedPercent / 100
  fresh : freshSize growth (peakOf run) = .ok made.value
  settled : growth.kind = .doubling → growth.minimum = 1 → shrink.usedPercent < 50 →
    Settled limit growth shrink (peakOf run) made

/-- The window is open, and an ask made now that is no larger than its peak closes it. -/
def Closes (limit : Nat) (growth : GrowthPolicy) (shrink : ShrinkPolicy)
    (elastic : ElasticCapacity) (now : Int) : Prop :=
  elastic.window.seen ≠ 0 ∧ ∀ need ≤ elastic.window.peak,
    (∃ moved, (elastic.fit limit need growth shrink now).1 = .ok moved)
      ∧ (elastic.fit limit need growth shrink now).2.window.seen = 0

/-- What is said of one ask and of `Due` before it, after a history. -/
structure Follows (limit : Nat) (growth : GrowthPolicy) (shrink : ShrinkPolicy)
    (history : List Ask) (elastic : ElasticCapacity) (ask : Ask) : Prop where
  holds : ∀ moved, (elastic.fit limit ask.need growth shrink ask.now).1 = .ok moved →
    ask.need ≤ (elastic.fit limit ask.need growth shrink ask.now).2.value
  moved : ∀ moved, (elastic.fit limit ask.need growth shrink ask.now).1 = .ok moved →
    (moved = true ↔
      (elastic.fit limit ask.need growth shrink ask.now).2.value ≠ elastic.value)
  shrinks : (elastic.fit limit ask.need growth shrink ask.now).2.value < elastic.value →
    ∃ front run, history ++ [ask] = front ++ run ∧
      Shrunk limit growth shrink run ask elastic
        (elastic.fit limit ask.need growth shrink ask.now).2
  due : elastic.window.due shrink ask.now = true ↔ Closes limit growth shrink elastic ask.now

/-- Where `Due` says what an ask would do: a window that the next ask closes has not counted to the
end of 32 bits, and the policy has a size for its peak. -/
def Foreseen (growth : GrowthPolicy) (shrink : ShrinkPolicy) (window : ShrinkWindow) (now : Int) :
    Prop :=
  window.seen ≠ 0 → shrink.observations ≤ window.seen + 1 → shrink.settle ≤ now - window.since →
    ((window.seen < kMax32 ∨ shrink.observations = 0)
      ↔ ∃ target, freshSize growth window.peak = .ok target)

theorem next_le_freshSize {peak target : Nat} (hpeak : peak ≤ kMax) (hminimum : growth.minimum ≤ kMax)
    (h : freshSize growth peak = .ok target) : peak ≤ target := by
  unfold freshSize at h
  split at h
  · exact (next_bounds hpeak (Nat.zero_le _) hminimum h).1
  · omega

/-- A fresh doubling is less than twice its need. -/
theorem doubling_lt {peak target : Nat} (hpeak : peak ≤ kMax) (hkind : growth.kind = .doubling)
    (hminimum : growth.minimum = 1) (hsome : peak ≠ 0) (h : growth.next 0 peak = .ok target) :
    target < 2 * peak := by
  have hone : 1 ≤ kMax := by decide
  rcases Nat.lt_or_ge (max 0 growth.minimum) peak with hgrow | hheld
  · obtain ⟨least, ⟨⟨hholds, k, hk⟩, hleast⟩, hnext⟩ :=
      next_doubling hpeak (Nat.zero_le _) (by omega) hgrow hkind
    have hbase : max (max 0 growth.minimum) 1 = 1 := by omega
    rw [hbase] at hk hleast
    rw [h] at hnext
    split at hnext
    · cases hnext
      cases k with
      | zero => omega
      | succ k =>
        -- half of it is a doubling too, so it does not hold the need
        by_contra hge
        have hhalf : 1 * 2 ^ k ∈ Doublings 1 peak := by
          refine ⟨?_, k, rfl⟩
          rw [Nat.pow_succ] at hk
          omega
        have := hleast hhalf
        rw [Nat.pow_succ] at hk
        have := Nat.two_pow_pos k
        omega
    · cases hnext
  · rw [next_held hheld] at h
    cases h
    omega

theorem settled_of_fresh (htyped : Typed limit growth shrink) {peak target : Nat}
    (hpeak : peak ≤ kMax) (htarget : target ≤ limit) (hon : shrink.shrinks = true)
    (hkind : growth.kind = .doubling) (hminimum : growth.minimum = 1)
    (hhalf : shrink.usedPercent < 50) (hfresh : freshSize growth peak = .ok target) :
    Settled limit growth shrink peak { value := target, window := window.reset } := by
  have hle : peak ≤ target := next_le_freshSize hpeak htyped.minimum hfresh
  have hhigh : target ≠ 0 → target * shrink.usedPercent / 100 < peak := by
    intro hsome
    unfold freshSize at hfresh
    split at hfresh
    · rename_i hpeak0
      have hlt := doubling_lt hpeak hkind hminimum hpeak0 hfresh
      have hmul : target * shrink.usedPercent ≤ target * 49 := Nat.mul_le_mul_left _ (by omega)
      rw [Nat.div_lt_iff_lt_mul (by decide)]
      omega
    · cases hfresh
      exact absurd rfl hsome
  refine ⟨hhigh, fun now => ?_⟩
  unfold ElasticCapacity.fit
  rw [if_neg (Nat.not_lt.mpr hle)]
  by_cases hzero : target = 0
  · rw [observe_off (.inr hzero)]
  · rw [observe_high hon hzero htyped.percent (Nat.le_trans htarget htyped.limit) (hhigh hzero)]
    rfl

theorem peakOf_le {bound : Nat} (h : ∀ ask ∈ run, ask.need ≤ bound) : peakOf run ≤ bound := by
  unfold peakOf
  induction run with
  | nil => exact Nat.zero_le _
  | cons first rest ih =>
    simp only [List.map_cons, List.foldr_cons]
    have hfirst := h first (List.mem_cons_self ..)
    have hrest := ih fun ask hask => h ask (List.mem_cons_of_mem _ hask)
    omega

theorem Counts.peakOf_le_kMax (h : Counts shrink elastic run) (htyped : Typed limit growth shrink)
    (hvalue : elastic.value ≤ limit) : peakOf run ≤ kMax := by
  have hshare : elastic.value * shrink.usedPercent / 100 ≤ elastic.value := by
    refine Nat.div_le_of_le_mul ?_
    rw [Nat.mul_comm 100]
    exact Nat.mul_le_mul_left _ htyped.percent
  have hpeak := peakOf_le h.low
  have hlimit := htyped.limit
  omega

/-- The end of a window is the end of its run. -/
theorem Fitted.shrunk_run {result : Except String Bool × ElasticCapacity}
    (hfit : Fitted limit growth shrink elastic ask result) (htyped : Typed limit growth shrink)
    (hvalue : elastic.value ≤ limit) (h : Counts shrink elastic run)
    (hless : result.2.value < elastic.value) :
    Shrunk limit growth shrink (run ++ [ask]) ask elastic result.2 := by
  cases hfit with
  | grown value hmore hholds hlimit =>
    dsimp only at hless
    omega
  | shrunk target hlow hclosing hfresh hsmaller =>
    have hcounts := counts_count h hlow
    have hpeak := hcounts.peak
    dsimp only at hpeak
    rw [hpeak] at hfresh
    have hbound := hcounts.peakOf_le_kMax htyped hvalue
    constructor
    · simp
    · have hseen := hcounts.seen
      dsimp only at hseen
      have := hclosing.1
      omega
    · intro first hfirst
      have hsince := hcounts.since first hfirst
      dsimp only at hsince
      rw [← hsince]
      exact hclosing.2
    · exact hcounts.low
    · exact hfresh
    · intro hkind hminimum hhalf
      exact settled_of_fresh htyped hbound (by omega) hlow.on hkind hminimum hhalf hfresh
  | _ => exact absurd hless (Nat.lt_irrefl _)

theorem Fitted.holds {result : Except String Bool × ElasticCapacity}
    (hfit : Fitted limit growth shrink elastic ask result) (htyped : Typed limit growth shrink)
    (hvalue : elastic.value ≤ limit) (h : Counts shrink elastic run) {moved : Bool}
    (hok : result.1 = .ok moved) : ask.need ≤ result.2.value := by
  cases hfit with
  | refused what => cases hok
  | grown value hmore hholds hlimit => exact hholds
  | threw what => cases hok
  | shrunk target hlow hclosing hfresh hsmaller =>
    have hcounts := counts_count h hlow
    have hpeak := hcounts.peak
    dsimp only at hpeak
    rw [hpeak] at hfresh
    have hneed := need_le_peakOf (List.mem_append_right run (List.mem_singleton_self ask))
    have hfits := hcounts.peakOf_le_kMax htyped hvalue
    exact Nat.le_trans hneed (next_le_freshSize hfits htyped.minimum hfresh)
  | off hholds => exact hholds
  | high hholds => exact hholds
  | counted hholds => exact hholds
  | kept target hholds => exact hholds

theorem Fitted.moved {result : Except String Bool × ElasticCapacity}
    (hfit : Fitted limit growth shrink elastic ask result) {moved : Bool}
    (hok : result.1 = .ok moved) : moved = true ↔ result.2.value ≠ elastic.value := by
  cases hfit with
  | refused what => cases hok
  | threw what => cases hok
  | grown value hmore hholds hlimit =>
    cases hok
    simp only [true_iff]
    omega
  | shrunk target hlow hclosing hfresh hsmaller =>
    cases hok
    simp only [true_iff]
    omega
  | _ =>
    cases hok
    simp

/-! ## `Due` -/

/-- A low ask closes the window when its run is long enough and its peak has a size. -/
theorem fit_closes_iff (htyped : Typed limit growth shrink) (hvalue : elastic.value ≤ limit)
    (hneed : ask.need ≤ kMax) (hholds : ask.need ≤ elastic.value)
    (hlow : Low shrink elastic ask.need) :
    (∃ moved, (elastic.fit limit ask.need growth shrink ask.now).1 = .ok moved)
        ∧ (elastic.fit limit ask.need growth shrink ask.now).2.window.seen = 0
      ↔ Closing shrink (elastic.window.count ask.need ask.now) ask.now
        ∧ ∃ target, freshSize growth (elastic.window.count ask.need ask.now).peak = .ok target := by
  have hfit : Fitted limit growth shrink elastic ask _ := fit_fitted htyped hvalue hneed
  generalize elastic.fit limit ask.need growth shrink ask.now = result at hfit ⊢
  cases hfit with
  | refused what hmore => omega
  | grown value hmore => omega
  | off _ hoff =>
    rcases hoff with hoff | hzero
    · rw [hlow.on] at hoff
      cases hoff
    · exact absurd hzero hlow.some
  | high _ hhigh => exact absurd hlow.low (Nat.not_le.mpr hhigh)
  | counted _ _ hopen =>
    constructor
    · rintro ⟨-, hclosed⟩
      have hseen := count_seen elastic.window ask.need ask.now
      dsimp only at hclosed
      have hmax : 0 < kMax32 := by decide
      split at hseen <;> omega
    · rintro ⟨hclosing, -⟩
      exact absurd hclosing hopen
  | threw what _ _ hfresh =>
    constructor
    · rintro ⟨⟨moved, hok⟩, -⟩
      cases hok
    · rintro ⟨-, target, hok⟩
      rw [hfresh] at hok
      cases hok
  | kept target _ _ hclosing hfresh =>
    exact ⟨fun _ => ⟨hclosing, target, hfresh⟩, fun _ => ⟨⟨_, rfl⟩, rfl⟩⟩
  | shrunk target _ hclosing hfresh =>
    exact ⟨fun _ => ⟨hclosing, target, hfresh⟩, fun _ => ⟨⟨_, rfl⟩, rfl⟩⟩

/-- What closes an open window, in the numbers of the window before. -/
theorem closes_iff (htyped : Typed limit growth shrink) (hvalue : elastic.value ≤ limit)
    (h : Counts shrink elastic run) :
    Closes limit growth shrink elastic now ↔
      elastic.window.seen ≠ 0 ∧ shrink.observations ≤ elastic.window.seen + 1
        ∧ shrink.settle ≤ now - elastic.window.since
        ∧ ∃ target, freshSize growth elastic.window.peak = .ok target := by
  unfold Closes
  refine and_congr_right fun hopen => ?_
  have hrun : run ≠ [] := fun hnil => hopen ((seen_eq_zero h).mpr hnil)
  obtain ⟨hon, hsome⟩ := h.shrinks hrun
  have hpeak : elastic.window.peak ≤ elastic.value * shrink.usedPercent / 100 := by
    rw [h.peak]
    exact peakOf_le h.low
  have hshare : elastic.value * shrink.usedPercent / 100 ≤ elastic.value := by
    refine Nat.div_le_of_le_mul ?_
    rw [Nat.mul_comm 100]
    exact Nat.mul_le_mul_left _ htyped.percent
  have hlimit := htyped.limit
  have hcount : ∀ need ≤ elastic.window.peak,
      ((∃ moved, (elastic.fit limit need growth shrink now).1 = .ok moved)
          ∧ (elastic.fit limit need growth shrink now).2.window.seen = 0)
        ↔ shrink.observations ≤ elastic.window.seen + 1
          ∧ shrink.settle ≤ now - elastic.window.since
          ∧ ∃ target, freshSize growth elastic.window.peak = .ok target := by
    intro need hneed
    have hiff (ask : Ask) (hfits : ask.need ≤ kMax) (hholds : ask.need ≤ elastic.value)
        (hlow : Low shrink elastic ask.need) := fit_closes_iff htyped hvalue hfits hholds hlow
    rw [hiff ⟨need, now⟩ (by dsimp only; omega) (by dsimp only; omega)
      ⟨hon, hsome, Nat.le_trans hneed hpeak⟩]
    dsimp only [Closing]
    rw [count_peak (fun hclosed => absurd hclosed hopen), count_since, if_neg hopen, count_seen,
      Nat.max_eq_left hneed, and_assoc]
    have hobservations := htyped.observations
    have hseen := h.seen
    have hsaturated : (shrink.observations
        ≤ if elastic.window.seen < kMax32 then elastic.window.seen + 1 else elastic.window.seen)
        ↔ shrink.observations ≤ elastic.window.seen + 1 := by
      split <;> omega
    rw [hsaturated]
  constructor
  · intro hall
    exact (hcount _ (Nat.le_refl _)).mp (hall _ (Nat.le_refl _))
  · intro hnumbers need hneed
    exact (hcount need hneed).mpr hnumbers

theorem due_iff (htyped : Typed limit growth shrink) (h : Counts shrink elastic run) :
    elastic.window.due shrink now = true ↔
      elastic.window.seen ≠ 0 ∧ shrink.observations ≤ elastic.window.seen + 1
        ∧ shrink.settle ≤ now - elastic.window.since
        ∧ (elastic.window.seen < kMax32 ∨ shrink.observations = 0) := by
  have hpow : (2 : Nat) ^ 32 = kMax32 + 1 := by decide
  have hle : elastic.window.seen ≤ kMax32 := by
    rw [h.seen]
    exact Nat.min_le_right _ _
  unfold ShrinkWindow.due
  simp only [Bool.and_eq_true, decide_eq_true_eq, bne_iff_ne, hpow]
  have hobservations := htyped.observations
  rcases Nat.lt_or_eq_of_le hle with hroom | hfull
  · rw [Nat.mod_eq_of_lt (by omega)]
    constructor
    · rintro ⟨⟨⟨-, hopen⟩, hmany⟩, hlong⟩
      exact ⟨hopen, hmany, hlong, .inl hroom⟩
    · rintro ⟨hopen, hmany, hlong, -⟩
      have hrun : run ≠ [] := fun hnil => hopen ((seen_eq_zero h).mpr hnil)
      exact ⟨⟨⟨(h.shrinks hrun).1, hopen⟩, hmany⟩, hlong⟩
  · rw [hfull, Nat.mod_self]
    constructor
    · rintro ⟨⟨⟨-, hopen⟩, hmany⟩, hlong⟩
      exact ⟨hopen, by omega, hlong, .inr (by omega)⟩
    · rintro ⟨hopen, -, hlong, hnone⟩
      have hrun : run ≠ [] := fun hnil => hopen (hfull.symm.trans ((seen_eq_zero h).mpr hnil))
      exact ⟨⟨⟨(h.shrinks hrun).1, hopen⟩, by omega⟩, hlong⟩

theorem due_closes_iff (htyped : Typed limit growth shrink) (hvalue : elastic.value ≤ limit)
    (h : Counts shrink elastic run) :
    (elastic.window.due shrink now = true ↔ Closes limit growth shrink elastic now)
      ↔ Foreseen growth shrink elastic.window now := by
  rw [due_iff htyped h, closes_iff htyped hvalue h]
  unfold Foreseen
  tauto

end ModuleServices.Growth.Proof

namespace ModuleServices.ElasticCapacity

open ModuleServices.Growth.Proof

/-- After a history in which no refused growth found a window open, the next ask follows its need,
and `Due` before it says what it would do exactly where it is `Foreseen`. -/
theorem follows_iff (limit : Nat) (growth : GrowthPolicy) (shrink : ShrinkPolicy) (start : Nat)
    (history : List Ask) (ask : Ask) (htyped : Typed limit growth shrink) (hstart : start ≤ limit)
    (hneeds : ∀ other ∈ history ++ [ask], other.need ≤ kMax)
    (hrestarting : Restarting limit growth shrink start history) :
    Follows limit growth shrink history (after limit growth shrink { value := start } history) ask
      ↔ Foreseen growth shrink (after limit growth shrink { value := start } history).window
          ask.now := by
  obtain ⟨hvalue, front, run, heq, hcounts⟩ :=
    after_counts htyped hstart history
      (fun other hother => hneeds other (List.mem_append_left _ hother)) hrestarting
  generalize after limit growth shrink { value := start } history = elastic at hvalue hcounts ⊢
  have hneed : ask.need ≤ kMax :=
    hneeds ask (List.mem_append_right _ (List.mem_singleton_self ask))
  have hfit := fit_fitted htyped hvalue hneed
  rw [← due_closes_iff htyped hvalue hcounts]
  constructor
  · intro h
    exact h.due
  · intro hdue
    constructor
    · intro moved hok
      exact hfit.holds htyped hvalue hcounts hok
    · intro moved hok
      exact hfit.moved hok
    · intro hless
      refine ⟨front, run ++ [ask], ?_, hfit.shrunk_run htyped hvalue hcounts hless⟩
      rw [heq, List.append_assoc]
    · exact hdue

/-- A quarter of the capacity, for two asks over 100 ms. -/
def quarter : ShrinkPolicy := { usedPercent := 25, settle := 100, observations := 2 }

theorem follows_quarter :
    Follows kMax32 .doublingPolicy quarter [⟨100, 0⟩]
        (after kMax32 .doublingPolicy quarter { value := 1024 } [⟨100, 0⟩]) ⟨90, 150⟩
      ↔ Foreseen .doublingPolicy quarter
          (after kMax32 .doublingPolicy quarter { value := 1024 } [⟨100, 0⟩]).window 150 := by
  refine follows_iff kMax32 .doublingPolicy quarter 1024 [⟨100, 0⟩] ⟨90, 150⟩
    ⟨by decide, by decide, by decide, by decide⟩ (by decide) (by decide) ?_
  intro front ask rest heq hmore
  cases front with
  | nil =>
    cases heq
    exact .inr rfl
  | cons first front => simp at heq

/-- A growth past the type throws between two low asks, and the second one shrinks the capacity:
the window counted both, over a need of 2^40. -/
theorem refused_growth_counts :
    ¬Follows kMax32 .doublingPolicy quarter [⟨100, 0⟩, ⟨2 ^ 40, 50⟩]
      (after kMax32 .doublingPolicy quarter { value := 1024 } [⟨100, 0⟩, ⟨2 ^ 40, 50⟩])
      ⟨90, 150⟩ := by
  intro h
  obtain ⟨front, run, heq, hshrunk⟩ := h.shrinks (by decide)
  have hlong : 2 ≤ run.length := hshrunk.long
  have hfront : front.length ≤ 1 := by
    have hlength := congrArg List.length heq
    rw [List.length_append] at hlength
    simp only [List.length_append, List.length_cons, List.length_nil] at hlength
    omega
  have hrun := congrArg (List.drop front.length) heq
  rw [List.drop_left] at hrun
  have hhigh : (⟨2 ^ 40, 50⟩ : Ask) ∈ run := by
    rw [← hrun]
    interval_cases front.length <;> decide
  have hlow := hshrunk.low _ hhigh
  revert hlow
  decide

end ModuleServices.ElasticCapacity
