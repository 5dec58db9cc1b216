import ModuleServices.Lib.Intervals

/-!
# `ByteIntervals`

Disjoint byte intervals in an ordered map from begin to end. The map is the list of its
entries in key order, an iterator the position of its entry: what `erase` returns is the
position it erased at.
-/

namespace ModuleServices

structure ByteIntervals where
  /-- `m_intervals`. -/
  intervals : List HalfOpen := []
  deriving DecidableEq, Repr

namespace ByteIntervals

/-- `upper_bound`. -/
def upperBound (m : List HalfOpen) (key : Nat) : Nat := m.findIdx fun entry => decide (key < entry.lo)

/-- `emplace`: nothing when the key is there. -/
def emplace (m : List HalfOpen) (entry : HalfOpen) : List HalfOpen :=
  if m.any fun other => other.lo == entry.lo then m
  else
    m.takeWhile (fun other => decide (other.lo < entry.lo))
      ++ entry :: m.dropWhile fun other => decide (other.lo < entry.lo)

/-- The loop of `Add` over the entries that begin at or below the end reached: the end and the map
after it, in at most as many rounds as there are entries. -/
def eraseTouching (next : Nat) : Nat → Nat → List HalfOpen → Nat × List HalfOpen
  | 0, stop, m => (stop, m)
  | rounds + 1, stop, m =>
    match m[next]? with
    | none => (stop, m)
    | some entry =>
      if entry.lo ≤ stop then eraseTouching next rounds (max stop entry.hi) (m.eraseIdx next)
      else (stop, m)

/-- `Add`. -/
def add (s : ByteIntervals) (start stop : Nat) : ByteIntervals :=
  if start ≥ stop then s
  else
    let next := upperBound s.intervals start
    let insertFrom (start stop next : Nat) (m : List HalfOpen) : ByteIntervals :=
      let (stop, m) := eraseTouching next m.length stop m
      { intervals := emplace m ⟨start, stop⟩ }
    if next ≠ 0 then
      match s.intervals[next - 1]? with
      | none => insertFrom start stop next s.intervals
      | some before =>
        if before.hi ≥ start then
          insertFrom before.lo (max stop before.hi) (next - 1) (s.intervals.eraseIdx (next - 1))
        else insertFrom start stop next s.intervals
    else insertFrom start stop next s.intervals

/-- The set after a sequence of calls of `Add`. -/
def addAll (ranges : List (Nat × Nat)) : ByteIntervals :=
  ranges.foldl (fun s range => s.add range.1 range.2) {}

/-- The loop of `ForEachGap`: what it emits. -/
def emitGaps (m : List HalfOpen) (stop : Nat) : Nat → Nat → Nat → List HalfOpen
  | 0, _, _ => []
  | rounds + 1, start, next =>
    if start < stop then
      match m[next]? with
      | none => [⟨start, stop⟩]
      | some entry =>
        if entry.lo ≥ stop then [⟨start, stop⟩]
        else
          (if entry.lo > start then [⟨start, entry.lo⟩] else [])
            ++ emitGaps m stop rounds (max start entry.hi) (next + 1)
    else []

/-- `ForEachGap`: what it emits, in order. -/
def forEachGap (s : ByteIntervals) (start stop : Nat) : List HalfOpen :=
  let next := upperBound s.intervals start
  let start :=
    match if next ≠ 0 then s.intervals[next - 1]? else none with
    | some before => max start before.hi
    | none => start
  emitGaps s.intervals stop (s.intervals.length + 1) start next

end ByteIntervals

end ModuleServices
