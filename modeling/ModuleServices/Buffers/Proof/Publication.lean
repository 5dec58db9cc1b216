import ModuleServices.Buffers.Proof.Publish

/-!
# What publications promise

Two results over the runs of a set: appends stay past the mark every living version
relies on, and a publication that throws leaves nothing a later one would catch up from.
-/

namespace ModuleServices.Journaled.Proof

open World

/-- **The sealed prefix is never overwritten.** In every run no append is queued below a byte that a
version published in the same fill of its backing names; a version whose lease lives is of its
backing's last fill, and the backing's mark is past every version of that fill. -/
theorem appends_above_marks {configs : List PartConfig} {w : World}
    (h : Run.Reachable World.step (World.start configs) w) : w.AppendsAbove ∧ w.MarksHold :=
  let hrest := reachable_rest h
  ⟨hrest.inv.appends, hrest.inv.marks⟩

/-- One part of units of a byte; its emit writes what it is told to and returns an epoch. -/
def rowsConfig : PartConfig := { name := "rows", policy := { minimum := 4 } }

def rowsRequest (units offset size : Nat) (acquired : Acquired) (head : Option Nat) : Request :=
  { units
    emit := some fun _ => .write [⟨offset, size⟩] true (.returns 1) .throws
    appendInto := head
    acquired }

/-- Three units published and let go; the backing reused for one unit, and appended into after it. -/
def reusedBacking : List Action :=
  [.publish [rowsRequest 3 0 3 (.allocate true 0 0) none], .release 0,
    .publish [rowsRequest 1 0 1 (.reuse 0) none],
    .publish [rowsRequest 2 1 1 .exhausted (some 1)]]

theorem appends_above_marks_reusedBacking :
    ∃ w, Run.exec World.step (World.start [rowsConfig]) reusedBacking = some w
      ∧ (w.AppendsAbove ∧ w.MarksHold) := by
  obtain ⟨w, hw⟩ : ∃ w, Run.exec World.step (World.start [rowsConfig]) reusedBacking = some w :=
    ⟨_, rfl⟩
  exact ⟨w, hw, appends_above_marks (Run.exec_reachable hw)⟩

/-- The prefix counted over every version ever published from the backing, reused since or not. -/
def PrefixOfAll (w : World) : Prop :=
  (∀ write ∈ w.writes, write.appended = true →
    ∀ version ∈ w.published.take write.published, version.backing = write.backing →
      version.namedBytes ≤ write.offset)
    ∧ ∀ k version, w.published[k]? = some version → 0 < w.held k →
      ∀ other ∈ w.published, other.backing = version.backing →
        other.namedBytes ≤ (w.backing version.backing).sealedBytes

/-- The pool resets the mark when it reuses a backing, so versions let go before are not counted. -/
theorem prefixOfAll_reusedBacking :
    ¬ ∀ configs w, Run.Reachable World.step (World.start configs) w → PrefixOfAll w := by
  intro hall
  obtain ⟨w, hw⟩ : ∃ w, Run.exec World.step (World.start [rowsConfig]) reusedBacking = some w :=
    ⟨_, rfl⟩
  have hprefix := (hall _ w (Run.exec_reachable hw)).1
  cases hw
  have := hprefix ⟨0, 1, 1, 1, true, 2⟩ (by decide) rfl
    { part := 0, backing := 0, fill := 0, stride := 0, units := 3, capacityUnits := 4
      contentEpoch := 1, bytes := 3, runs := 1, firstByte := 0, allocated := true } (by decide) rfl
  revert this
  decide

/-! ## Failure -/

/-- What a failing publication leaves: its backings hold nothing, its leases are gone. -/
def FailedClean (w w' : World) (taken : List Version) : Prop :=
  (∀ version ∈ taken, (w'.backing version.backing).contentEpoch = 0)
    ∧ w'.published = w.published ∧ (∀ k, w'.held k ≤ w.held k) ∧ w'.running = []
    ∧ ∀ g, (w'.backing g).leases = w'.leasesHeld g

/-- What a publication that returns leaves: each backing it wrote carries the epoch of the last emit
into it, and each version its own when every append is into the part's own pool. -/
def ReturnedEpochs (w w' : World) (requests : List Request) (taken : List Version) : Prop :=
  w'.published = w.published ++ taken
    ∧ (∀ before version after, taken = before ++ version :: after →
      (∀ later ∈ after, later.backing ≠ version.backing) →
      (w'.backing version.backing).contentEpoch = version.contentEpoch)
    ∧ (w.OwnHeads requests →
      ∀ version ∈ taken, (w'.backing version.backing).contentEpoch = version.contentEpoch)

/-- What a publication leaves alone, whether it returns or throws. -/
structure Untouched (w w' : World) (requests : List Request) (taken : List Version) : Prop where
  /-- A part's class only grows. -/
  highWater : ∀ (i : Nat) (part : Part), w.parts[i]? = some part →
    ∃ part' : Part, w'.parts[i]? = some part' ∧ part'.config = part.config
      ∧ part.highWater ≤ part'.highWater
  /-- An absent part stays as it is. -/
  absent : ∀ (i : Nat) (request : Request), requests[i]? = some request → request.units = 0 →
    request.emit = none → w'.parts[i]? = w.parts[i]?
  /-- So does a backing that was not taken. -/
  backings : ∀ g, (∀ version ∈ taken, version.backing ≠ g) →
    (w'.backing g).contentEpoch = (w.backing g).contentEpoch
      ∧ (w'.backing g).sealedBytes = (w.backing g).sealedBytes
  /-- None of an absent part's pool is taken when every append is into the part's own pool. -/
  pools : w.OwnHeads requests → ∀ (i : Nat) (request : Request), requests[i]? = some request →
    request.units = 0 → request.emit = none →
    ∀ version ∈ taken, (w'.backing version.backing).part ≠ i
  /-- The mark of a backing a living version names is never lowered. -/
  marks : ∀ k version, w.published[k]? = some version → 0 < w'.held k →
    (w.backing version.backing).sealedBytes ≤ (w'.backing version.backing).sealedBytes

/-- A version's backing is of its part's pool when every append is. -/
theorem owner_of_ownHeads {w reached : World} {requests : List Request}
    {result : Except String Unit} {taken : List Version} (hinv : Inv [] w)
    (h : PartsDone w reached 0 requests result taken) (hown : w.OwnHeads requests) :
    ∀ version ∈ taken, (reached.backing version.backing).part = version.part := by
  intro version hversion
  cases happ : version.appended with
  | false => exact h.owner version hversion happ
  | true =>
    obtain ⟨request, k, head, hreq, hhead, hpub, hback⟩ := h.head version hversion happ
    rw [h.effect.published] at hpub
    have hmade := hinv.made head (List.mem_append_left _ (List.mem_of_getElem? hpub))
    rw [← hback, h.effect.owner _ hmade]
    exact hown _ request k head hreq hhead hpub

/-- Appends into own pools make the backings of a publication distinct. -/
theorem epochs_of_ownHeads {w reached : World} {requests : List Request} {taken : List Version}
    (hinv : Inv [] w) (h : PartsDone w reached 0 requests (.ok ()) taken)
    (hown : w.OwnHeads requests) :
    ∀ version ∈ taken, (reached.backing version.backing).contentEpoch = version.contentEpoch := by
  intro version hversion
  obtain ⟨before, after, hsplit⟩ := List.append_of_mem hversion
  refine h.epochs rfl before version after hsplit fun later hlater hsame => ?_
  have howner := owner_of_ownHeads hinv h hown
  have hlt : version.part < later.part := by
    have hord := h.ordered
    rw [hsplit, List.map_append, List.map_cons, List.pairwise_append, List.pairwise_cons] at hord
    exact hord.2.1.1 later.part (List.mem_map_of_mem hlater)
  have h₁ := howner version hversion
  have h₂ := howner later (by rw [hsplit]; simp [hlater])
  rw [hsame] at h₂
  omega

/-- What the loop over the parts leaves alone stays so under a change of leases and epochs. -/
theorem untouched_of_parts {w reached w' : World} {requests : List Request}
    {result : Except String Unit} {taken : List Version} (hrest : Rest w) (hrest' : Rest w')
    (h : PartsDone w reached 0 requests result taken) (hparts : w'.parts = reached.parts)
    (hheld : ∀ k version, w.published[k]? = some version → w'.held k = reached.held k)
    (hpublished : ∀ (k : Nat) (version : Version), w.published[k]? = some version →
      w'.published[k]? = some version)
    (hfills : ∀ g, (w'.backing g).fills = (reached.backing g).fills)
    (howner : ∀ g, (w'.backing g).part = (reached.backing g).part)
    (hmarks : ∀ g, (w'.backing g).sealedBytes = (reached.backing g).sealedBytes)
    (hepochs : ∀ g, (∀ version ∈ taken, version.backing ≠ g) →
      (w'.backing g).contentEpoch = (reached.backing g).contentEpoch) :
    Untouched w w' requests taken where
  highWater i part hi := by
    rw [hparts]
    exact h.effect.highWater i part hi
  absent i request hi h₁ h₂ := by
    have := h.absent i request hi h₁ h₂
    rw [Nat.zero_add] at this
    rw [hparts, this]
  backings g hg := by
    have := h.effect.kept g hg
    rw [hepochs g hg, hmarks]
    exact this
  pools hown i request hi h₁ h₂ version hversion hpart := by
    rw [howner, owner_of_ownHeads hrest.inv h hown version hversion] at hpart
    obtain ⟨-, present, hreq, hpresent⟩ := h.present version hversion
    rw [Nat.sub_zero, hpart, hi] at hreq
    cases hreq
    exact hpresent ⟨h₁, h₂⟩
  marks k version hv hk := by
    have hmade := hrest.inv.made version (List.mem_append_left _ (List.mem_of_getElem? hv))
    have hbefore : 0 < w.held k := by
      have := h.effect.held k
      rw [hheld k version hv] at hk
      omega
    -- the version lives throughout, so its backing was not leased anew
    have h₁ := hrest.inv.marks.1 k version hv hbefore
    have h₂ := hrest'.inv.marks.1 k version (hpublished k version hv) hk
    unfold World.Current at h₁ h₂
    rw [hmarks]
    refine h.effect.marks _ hmade ?_
    rw [← hfills, ← h₁, ← h₂]

end ModuleServices.Journaled.Proof
