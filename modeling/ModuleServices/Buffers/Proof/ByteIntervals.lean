import ModuleServices.Buffers.ByteIntervals
import Mathlib.Data.List.Induction

/-!
# The interval map is the set of what was added

Where the map is ordered, its iterators cut it as the interval scans do: `upper_bound` splits
it into what begins at or below a bound and what begins past it, and both loops run over the
second part. So `Add` and `ForEachGap` are `Intervals.add` and `Intervals.gaps`, and what
those are described by, the points they cover, carries over.
-/

namespace ModuleServices.Proof

open ModuleServices ByteIntervals Intervals

variable {m : List HalfOpen}

theorem upperBound_eq (m : List HalfOpen) (key : Nat) : upperBound m key = (upTo m key).length := by
  unfold upperBound upTo
  induction m with
  | nil => rfl
  | cons entry m ih =>
    rw [List.findIdx_cons, List.takeWhile_cons]
    by_cases hentry : entry.lo ≤ key
    · rw [decide_eq_false (Nat.not_lt.mpr hentry), decide_eq_true hentry]
      simp only [cond_false, if_true, List.length_cons, ih]
    · rw [decide_eq_true (Nat.lt_of_not_le hentry), decide_eq_false hentry]
      rfl

/-- The entry before `upper_bound`'s, where there is one. -/
theorem before_upperBound (m : List HalfOpen) (key : Nat) :
    (if upperBound m key ≠ 0 then m[upperBound m key - 1]? else none) = (upTo m key).getLast? := by
  rw [upperBound_eq]
  split
  · rename_i hne
    have hcut : m[(upTo m key).length - 1]? = (upTo m key ++ past m key)[(upTo m key).length - 1]? := by
      rw [upTo_append_past]
    rw [hcut, List.getElem?_append_left (by omega), List.getLast?_eq_getElem?]
  · rename_i hzero
    rw [List.length_eq_zero_iff.mp (not_not.mp hzero)]
    rfl

theorem erase_between {front rest : List HalfOpen} {entry : HalfOpen}
    (h : m = front ++ entry :: rest) : m.eraseIdx front.length = front ++ rest := by
  rw [h, List.eraseIdx_append_of_length_le (Nat.le_refl _), Nat.sub_self]
  rfl

theorem eraseTouching_eq (front : List HalfOpen) : ∀ (rest : List HalfOpen) (rounds stop : Nat),
    rest.length ≤ rounds →
    eraseTouching front.length rounds stop (front ++ rest)
      = ((absorb stop rest).1, front ++ (absorb stop rest).2) := by
  intro rest
  induction rest with
  | nil =>
    intro rounds stop _
    cases rounds with
    | zero => rfl
    | succ rounds =>
      rw [eraseTouching, List.getElem?_eq_none (by simp)]
      rfl
  | cons entry rest ih =>
    intro rounds stop hrounds
    cases rounds with
    | zero => simp at hrounds
    | succ rounds =>
      have hat : (front ++ entry :: rest)[front.length]? = some entry := by
        rw [List.getElem?_append_right (Nat.le_refl _), Nat.sub_self]
        rfl
      have herased := erase_between (m := front ++ entry :: rest) rfl
      rw [eraseTouching, hat, absorb]
      by_cases htouch : entry.lo ≤ stop
      · simp only [if_pos htouch, herased]
        exact ih rounds (max stop entry.hi) (by simpa using hrounds)
      · simp only [if_neg htouch]

/-- A new key goes between the smaller ones and the larger. -/
theorem emplace_eq {front rest : List HalfOpen} {entry : HalfOpen}
    (hfront : ∀ other ∈ front, other.lo < entry.lo) (hrest : ∀ other ∈ rest, entry.lo < other.lo) :
    emplace (front ++ rest) entry = front ++ entry :: rest := by
  have hnew : ((front ++ rest).any fun other => other.lo == entry.lo) = false := by
    rw [List.any_eq_false]
    intro other hother
    have hne : other.lo ≠ entry.lo := by
      rcases List.mem_append.mp hother with h | h
      · exact Nat.ne_of_lt (hfront other h)
      · exact Nat.ne_of_gt (hrest other h)
    simpa using hne
  have htake : rest.takeWhile (fun other => decide (other.lo < entry.lo)) = [] := by
    cases rest with
    | nil => rfl
    | cons other rest =>
      have := hrest other List.mem_cons_self
      rw [List.takeWhile_cons, decide_eq_false (by omega)]
      rfl
  have hsmaller : ∀ other ∈ front, decide (other.lo < entry.lo) = true :=
    fun other hother => decide_eq_true (hfront other hother)
  unfold emplace
  rw [hnew]
  simp only [Bool.false_eq_true, if_false]
  rw [List.takeWhile_append_of_pos hsmaller, List.dropWhile_append_of_pos hsmaller, htake,
    List.append_nil]
  congr 2
  have := List.takeWhile_append_dropWhile (p := fun other : HalfOpen =>
    decide (other.lo < entry.lo)) (l := rest)
  rwa [htake] at this

/-- What `Add` does once it knows where its interval begins. -/
theorem insertFrom_eq {front rest : List HalfOpen} {start stop : Nat} (hrest : Ordered rest)
    (hfront : ∀ entry ∈ front, entry.lo < start) (hpast : ∀ entry ∈ rest, start < entry.lo)
    (hlt : start < stop) :
    emplace (eraseTouching front.length (front ++ rest).length stop (front ++ rest)).2
      ⟨start, (eraseTouching front.length (front ++ rest).length stop (front ++ rest)).1⟩
      = front ++ ⟨start, (absorb stop rest).1⟩ :: (absorb stop rest).2 := by
  obtain ⟨-, -, -, hkept, -⟩ := absorb_spec hrest hpast hlt
  rw [eraseTouching_eq front rest _ stop (by simp)]
  exact emplace_eq hfront fun entry hentry => hpast entry (hkept entry hentry)

/-- **`Add` is the union** of the interval with the set. -/
theorem add_eq {s : ByteIntervals} (hs : Ordered s.intervals) (start stop : Nat) :
    (s.add start stop).intervals = Intervals.add s.intervals start stop := by
  unfold ByteIntervals.add Intervals.add
  by_cases hempty : stop ≤ start
  · rw [if_pos hempty, if_pos hempty]
  rw [if_neg hempty, if_neg hempty]
  have hlt : start < stop := Nat.lt_of_not_le hempty
  obtain ⟨hup, hpast, hcut⟩ := hs.cut start
  have hlarger : ∀ entry ∈ past s.intervals start, start < entry.lo :=
    fun entry hentry => mem_past hs hentry
  have hsplit : s.intervals = upTo s.intervals start ++ past s.intervals start :=
    upTo_append_past.symm
  have hbefore := before_upperBound s.intervals start
  have hnext := upperBound_eq s.intervals start
  -- the interval stands alone where nothing before reaches its start
  have halone : (∀ entry ∈ upTo s.intervals start, entry.lo < start) →
      emplace (eraseTouching (upperBound s.intervals start) s.intervals.length stop s.intervals).2
        ⟨start, (eraseTouching (upperBound s.intervals start) s.intervals.length stop
          s.intervals).1⟩
        = upTo s.intervals start ++ ⟨start, (absorb stop (past s.intervals start)).1⟩
          :: (absorb stop (past s.intervals start)).2 := by
    intro hfront
    have := insertFrom_eq hpast hfront hlarger hlt
    rwa [← hsplit, ← hnext] at this
  cases hlast : (upTo s.intervals start).getLast? with
  | none =>
    have hnil : upTo s.intervals start = [] := List.getLast?_eq_none_iff.mp hlast
    have hzero : upperBound s.intervals start = 0 := by
      rw [hnext, hnil]
      rfl
    rw [if_neg (not_not.mpr hzero)]
    exact halone fun entry hentry => by
      rw [hnil] at hentry
      cases hentry
  | some before =>
    obtain ⟨hlo, hne, heq, hinit, hinitBefore⟩ := upTo_last hs hlast
    have hpos : upperBound s.intervals start ≠ 0 := by
      rw [hnext, heq, List.length_append]
      exact Nat.succ_ne_zero _
    rw [if_pos hpos, hlast] at hbefore
    rw [if_pos hpos, hbefore]
    simp only
    by_cases hreach : start ≤ before.hi
    · -- it merges with the one before, which leaves the map first
      rw [if_pos hreach, if_pos hreach]
      have hinitLength : upperBound s.intervals start - 1 = (upTo s.intervals start).dropLast.length := by
        rw [hnext, List.length_dropLast]
      have hall : s.intervals = (upTo s.intervals start).dropLast
          ++ before :: past s.intervals start := by
        refine hsplit.trans ?_
        conv_lhs => rw [heq]
        rw [List.append_assoc]
        rfl
      have herased : s.intervals.eraseIdx (upperBound s.intervals start - 1)
          = (upTo s.intervals start).dropLast ++ past s.intervals start := by
        rw [hinitLength]
        exact erase_between hall
      rw [herased, hinitLength]
      refine insertFrom_eq hpast (fun entry hentry => ?_) (fun entry hentry => ?_) ?_
      · have := hinitBefore entry hentry
        have := hinit.nonempty entry hentry
        omega
      · exact Nat.lt_of_le_of_lt hlo (hlarger entry hentry)
      · omega
    · rw [if_neg hreach, if_neg hreach]
      refine halone fun entry hentry => ?_
      rw [heq] at hentry
      rcases List.mem_append.mp hentry with hentry | hentry
      · have := hinitBefore entry hentry
        have := hinit.nonempty entry hentry
        omega
      · rw [List.mem_singleton.mp hentry]
        omega

theorem emitGaps_eq (stop : Nat) (front : List HalfOpen) : ∀ (rest : List HalfOpen)
    (rounds start : Nat), rest.length < rounds →
    emitGaps (front ++ rest) stop rounds start front.length = gapsFrom stop start rest := by
  intro rest
  induction rest generalizing front with
  | nil =>
    intro rounds start hrounds
    cases rounds with
    | zero => exact absurd hrounds (Nat.not_lt_zero _)
    | succ rounds =>
      rw [emitGaps, gapsFrom, List.getElem?_eq_none (by simp)]
  | cons entry rest ih =>
    intro rounds start hrounds
    cases rounds with
    | zero => exact absurd hrounds (Nat.not_lt_zero _)
    | succ rounds =>
      have hat : (front ++ entry :: rest)[front.length]? = some entry := by
        rw [List.getElem?_append_right (Nat.le_refl _), Nat.sub_self]
        rfl
      have hnext := ih (front ++ [entry]) rounds (max start entry.hi) (by simpa using hrounds)
      rw [List.append_assoc, List.length_append] at hnext
      rw [emitGaps, gapsFrom, hat]
      simp only
      rw [← hnext]
      rfl

/-- **`ForEachGap` emits the rest** of the range. -/
theorem forEachGap_eq (s : ByteIntervals) (start stop : Nat) :
    s.forEachGap start stop = gaps s.intervals start stop := by
  have hsplit : upTo s.intervals start ++ past s.intervals start = s.intervals := upTo_append_past
  have hrounds : (past s.intervals start).length < s.intervals.length + 1 := by
    rw [← hsplit, List.length_append, upTo_append_past]
    omega
  have hemit := fun from_ => emitGaps_eq stop (upTo s.intervals start) (past s.intervals start)
    (s.intervals.length + 1) from_ hrounds
  unfold forEachGap gaps
  simp only
  rw [before_upperBound, upperBound_eq]
  rw [hsplit] at hemit
  cases (upTo s.intervals start).getLast? with
  | none => exact hemit _
  | some before => exact hemit _

end ModuleServices.Proof

namespace ModuleServices.ByteIntervals

open Proof Intervals

theorem addAll_spec (ranges : List (Nat × Nat)) :
    Ordered (addAll ranges).intervals
      ∧ ∀ i, Covers (addAll ranges).intervals i ↔ ∃ range ∈ ranges, range.1 ≤ i ∧ i < range.2 := by
  unfold addAll
  induction ranges using List.reverseRecOn with
  | nil =>
    refine ⟨.nil, fun i => ?_⟩
    simp [Covers]
  | append_singleton ranges range ih =>
    obtain ⟨hordered, hcovers⟩ := ih
    rw [List.foldl_append, List.foldl_cons, List.foldl_nil, add_eq hordered]
    refine ⟨hordered.add, fun i => ?_⟩
    rw [covers_add hordered, hcovers i]
    constructor
    · intro h
      rcases h with ⟨earlier, hmem, hin⟩ | hin
      · exact ⟨earlier, List.mem_append_left _ hmem, hin⟩
      · exact ⟨range, List.mem_append_right _ List.mem_cons_self, hin⟩
    · intro h
      obtain ⟨found, hmem, hin⟩ := h
      rcases List.mem_append.mp hmem with hmem | hmem
      · exact .inl ⟨found, hmem, hin⟩
      · exact .inr (List.mem_singleton.mp hmem ▸ hin)

/-- After any calls of `Add` the map holds non-empty intervals in order, no two of which touch, and
just the bytes that were added; and `ForEachGap` emits non-empty ranges in order, and just the
bytes of its range that were not. -/
theorem adds_exact (ranges : List (Nat × Nat)) :
    (addAll ranges).intervals.Pairwise (fun a b => a.hi < b.lo)
    ∧ (∀ entry ∈ (addAll ranges).intervals, entry.lo < entry.hi)
    ∧ (∀ i, (∃ entry ∈ (addAll ranges).intervals, entry.lo ≤ i ∧ i < entry.hi)
      ↔ ∃ range ∈ ranges, range.1 ≤ i ∧ i < range.2)
    ∧ ∀ start stop, ((addAll ranges).forEachGap start stop).Pairwise (fun a b => a.hi < b.lo)
      ∧ (∀ gap ∈ (addAll ranges).forEachGap start stop, gap.lo < gap.hi)
      ∧ ∀ i, (∃ gap ∈ (addAll ranges).forEachGap start stop, gap.lo ≤ i ∧ i < gap.hi)
        ↔ start ≤ i ∧ i < stop ∧ ¬∃ range ∈ ranges, range.1 ≤ i ∧ i < range.2 := by
  obtain ⟨hordered, hcovers⟩ := addAll_spec ranges
  refine ⟨hordered.apart, hordered.nonempty, hcovers, fun start stop => ?_⟩
  rw [forEachGap_eq]
  have hgaps : Ordered (gaps (addAll ranges).intervals start stop) := gaps_ordered hordered
  refine ⟨hgaps.apart, hgaps.nonempty, fun i => ?_⟩
  have := covers_gaps (b := start) (e := stop) (i := i) hordered
  rwa [hcovers i] at this

end ModuleServices.ByteIntervals
