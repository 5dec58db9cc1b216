import ModuleServices.Buffers.Publish
import Mathlib.Data.Nat.Basic
import Mathlib.Order.Basic
import Mathlib.Tactic.Common

/-!
# Published parts keep their marks

The one thing a publication relies on is that a backing leased for a fresh fill has no
lease left: then every version of it whose lease lives is of its last fill. `Inv` counts
the leases; a part's effect on everything else is an `Effect`, which composes.
-/

namespace ModuleServices.Journaled.Proof

open World

/-! ## Counting leases -/

section

variable {f f' : Nat → Nat} {g k i : Nat} {versions more : List Version} {version : Version}

theorem leasesOn_append :
    leasesOn f g k (versions ++ more)
      = leasesOn f g k versions + leasesOn f g (k + versions.length) more := by
  induction versions generalizing k with
  | nil => simp [leasesOn]
  | cons v versions ih =>
    have hidx : k + 1 + versions.length = k + (versions.length + 1) := by omega
    simp only [List.cons_append, leasesOn, ih, List.length_cons, hidx]
    rw [Nat.add_assoc]

theorem leasesOn_congr (h : ∀ j < versions.length, f (k + j) = f' (k + j)) :
    leasesOn f g k versions = leasesOn f' g k versions := by
  induction versions generalizing k with
  | nil => rfl
  | cons v versions ih =>
    have h0 := h 0 (by simp)
    simp only [leasesOn]
    rw [ih fun j hj => by
      rw [Nat.add_assoc, Nat.add_comm 1]
      exact h (j + 1) (by simpa using hj)]
    simp only [Nat.add_zero] at h0
    rw [h0]

/-- One version's leases changed. -/
theorem leasesOn_update {m : Nat} (hv : versions[i]? = some version) :
    leasesOn (fun j => if j = k + i then m else f j) g k versions
        + (if version.backing = g then f (k + i) else 0)
      = leasesOn f g k versions + if version.backing = g then m else 0 := by
  induction versions generalizing k i with
  | nil => simp at hv
  | cons v versions ih =>
    simp only [leasesOn]
    cases i with
    | zero =>
      obtain rfl : v = version := by simpa using hv
      have hrest : leasesOn (fun j => if j = k + 0 then m else f j) g (k + 1) versions
          = leasesOn f g (k + 1) versions :=
        leasesOn_congr fun j _ => by
          have : k + 1 + j ≠ k + 0 := by omega
          simp only [this, if_false]
      rw [hrest]
      simp only [Nat.add_zero, if_true]
      omega
    | succ i =>
      have hv' : versions[i]? = some version := by simpa using hv
      have := ih (k := k + 1) hv'
      have hidx : k + 1 + i = k + (i + 1) := by omega
      rw [hidx] at this
      have hk : k ≠ k + (i + 1) := by omega
      simp only [hk, if_false]
      omega

theorem le_leasesOn (hv : versions[i]? = some version) (hg : version.backing = g) :
    f (k + i) ≤ leasesOn f g k versions := by
  induction versions generalizing k i with
  | nil => simp at hv
  | cons v versions ih =>
    simp only [leasesOn]
    cases i with
    | zero =>
      obtain rfl : v = version := by simpa using hv
      simp [hg]
    | succ i =>
      have := ih (k := k + 1) (i := i) (by simpa using hv)
      have hidx : k + 1 + i = k + (i + 1) := by omega
      rw [hidx] at this
      omega

theorem leasesOn_ones (h : ∀ j < versions.length, f (k + j) = 1) :
    leasesOn f g k versions = versions.countP fun v => v.backing == g := by
  induction versions generalizing k with
  | nil => rfl
  | cons v versions ih =>
    have h0 := h 0 (by simp)
    simp only [Nat.add_zero] at h0
    simp only [leasesOn, List.countP_cons, h0]
    rw [ih fun j hj => by
      rw [Nat.add_assoc, Nat.add_comm 1]
      exact h (j + 1) (by simpa using hj)]
    by_cases hg : v.backing = g <;> simp [hg] <;> omega

theorem leasesOn_eq_zero (h : ∀ version ∈ versions, version.backing ≠ g) :
    leasesOn f g k versions = 0 := by
  induction versions generalizing k with
  | nil => rfl
  | cons v versions ih =>
    simp only [leasesOn, if_neg (h v (by simp))]
    rw [ih fun u hu => h u (by simp [hu])]

end

/-! ## The invariant -/

/-- Every lease is a published version's, the running publication's or one of `extra`; a version's
fill is not past its backing's, and marks and appends are as promised. -/
structure Inv (extra : List Nat) (w : World) : Prop where
  leases : ∀ g, (w.backing g).leases
    = w.leasesHeld g + (w.running.countP fun v => v.backing == g) + extra.count g
  made : ∀ v ∈ w.published ++ w.running, v.backing < w.next
  fills : ∀ v ∈ w.published, v.fill ≤ (w.backing v.backing).fills
  running : ∀ v ∈ w.running, w.Current v
  marks : w.MarksHold
  appends : w.AppendsAbove
  logged : ∀ write ∈ w.writes, write.published ≤ w.published.length

/-- What stays when a publication goes from one state to a later one, `new` being the versions it
added: other backings keep their contents, fills only grow, and within a fill so does the mark. -/
structure Effect (w w' : World) (new : List Version) : Prop where
  published : w'.published = w.published
  held : ∀ k, w'.held k ≤ w.held k
  running : w'.running = w.running ++ new
  next : w.next ≤ w'.next
  kept : ∀ g, (∀ v ∈ new, v.backing ≠ g) →
    (w'.backing g).contentEpoch = (w.backing g).contentEpoch
      ∧ (w'.backing g).sealedBytes = (w.backing g).sealedBytes
  fills : ∀ g < w.next, (w.backing g).fills ≤ (w'.backing g).fills
  marks : ∀ g < w.next, (w'.backing g).fills = (w.backing g).fills →
    (w.backing g).sealedBytes ≤ (w'.backing g).sealedBytes
  owner : ∀ g < w.next, (w'.backing g).part = (w.backing g).part
  parts : w'.parts.length = w.parts.length
  highWater : ∀ (i : Nat) (part : Part), w.parts[i]? = some part →
    ∃ part' : Part, w'.parts[i]? = some part' ∧ part'.config = part.config ∧ part.highWater ≤ part'.highWater

theorem Effect.refl (w : World) : Effect w w [] where
  published := rfl
  held _ := Nat.le_refl _
  running := by simp
  next := Nat.le_refl _
  kept _ _ := ⟨rfl, rfl⟩
  fills _ _ := Nat.le_refl _
  marks _ _ _ := Nat.le_refl _
  owner _ _ := rfl
  parts := rfl
  highWater _ part h := ⟨part, h, rfl, Nat.le_refl _⟩

theorem Effect.trans {w₁ w₂ w₃ : World} {new more : List Version} (h : Effect w₁ w₂ new)
    (h' : Effect w₂ w₃ more) : Effect w₁ w₃ (new ++ more) where
  published := h'.published.trans h.published
  held k := (h'.held k).trans (h.held k)
  running := by rw [h'.running, h.running, List.append_assoc]
  next := h.next.trans h'.next
  kept g hg := by
    have h₁ := h.kept g fun v hv => hg v (List.mem_append_left _ hv)
    have h₂ := h'.kept g fun v hv => hg v (List.mem_append_right _ hv)
    exact ⟨h₂.1.trans h₁.1, h₂.2.trans h₁.2⟩
  fills g hg := (h.fills g hg).trans (h'.fills g (hg.trans_le h.next))
  marks g hg hfill := by
    have h₁ := h.fills g hg
    have h₂ := h'.fills g (hg.trans_le h.next)
    exact (h.marks g hg (by omega)).trans (h'.marks g (hg.trans_le h.next) (by omega))
  owner g hg := (h'.owner g (hg.trans_le h.next)).trans (h.owner g hg)
  parts := h'.parts.trans h.parts
  highWater i part hi := by
    obtain ⟨part₂, h₂, hc, hle⟩ := h.highWater i part hi
    obtain ⟨part₃, h₃, hc', hle'⟩ := h'.highWater i part₂ h₂
    exact ⟨part₃, h₃, hc'.trans hc, hle.trans hle'⟩

/-- A change of one backing that leaves its contents, mark, fill and owner. -/
theorem Effect.modify {w : World} {g : Nat} {f : Backing → Backing}
    (hf : ∀ b, (f b).contentEpoch = b.contentEpoch ∧ (f b).sealedBytes = b.sealedBytes
      ∧ (f b).fills = b.fills ∧ (f b).part = b.part) : Effect w (w.modify g f) [] := by
  have hb : ∀ k, ((w.modify g f).backing k).contentEpoch = (w.backing k).contentEpoch
      ∧ ((w.modify g f).backing k).sealedBytes = (w.backing k).sealedBytes
      ∧ ((w.modify g f).backing k).fills = (w.backing k).fills
      ∧ ((w.modify g f).backing k).part = (w.backing k).part := by
    intro k
    unfold World.modify
    dsimp only
    split
    · exact hf _
    · exact ⟨rfl, rfl, rfl, rfl⟩
  exact {
    published := rfl
    held := fun _ => Nat.le_refl _
    running := (List.append_nil _).symm
    next := Nat.le_refl _
    kept := fun k _ => ⟨(hb k).1, (hb k).2.1⟩
    fills := fun k _ => (hb k).2.2.1.ge
    marks := fun k _ _ => (hb k).2.1.ge
    owner := fun k _ => (hb k).2.2.2
    parts := rfl
    highWater := fun _ part h => ⟨part, h, rfl, Nat.le_refl _⟩ }

/-! ## A lease that goes -/

theorem release_spec {extra : List Nat} {w w' : World} {index : Nat} (hinv : Inv extra w)
    (h : w.release index = some w') : Inv extra w' ∧ Effect w w' [] ∧ w'.parts = w.parts := by
  unfold World.release at h
  split at h
  · cases h
  · rename_i version hversion
    split at h
    · cases h
    · rename_i hheld
      cases h
      have hupd := fun g => leasesOn_update (f := w.held) (g := g) (k := 0)
        (m := w.held index - 1) hversion
      have hle := le_leasesOn (f := w.held) (k := 0) hversion rfl
      simp only [Nat.zero_add] at hupd hle
      constructor
      · refine ⟨fun g => ?_, hinv.made, ?_, ?_, ?_, hinv.appends, hinv.logged⟩
        · have hl := hinv.leases g
          have hu := hupd g
          have hcong : leasesOn (fun k => if k = index then w.held k - 1 else w.held k) g 0
              w.published = leasesOn (fun k => if k = index then w.held index - 1 else w.held k) g 0
              w.published := by
            congr 1
            funext k
            by_cases hk : k = index <;> simp [hk]
          unfold World.leasesHeld at hl ⊢
          unfold World.modify
          dsimp only
          rw [hcong]
          by_cases hg : g = version.backing
          · subst hg
            simp only [if_true] at hu ⊢
            omega
          · have hg' : ¬ version.backing = g := fun h => hg h.symm
            simp only [hg, hg', if_false] at hu ⊢
            omega
        · intro v hv
          have := hinv.fills v hv
          unfold World.modify
          dsimp only
          split <;> exact this
        · intro v hv
          have := hinv.running v hv
          unfold World.Current World.modify at *
          dsimp only at *
          split <;> exact this
        · constructor
          · intro k v hv hk
            have := hinv.marks.1 k v hv (by
              change 0 < (if k = index then w.held k - 1 else w.held k) at hk
              split at hk <;> omega)
            unfold World.Current World.modify at *
            dsimp only at *
            split <;> exact this
          · intro v hv hcur
            have := hinv.marks.2 v hv (by
              unfold World.Current World.modify at *
              dsimp only at *
              split at hcur <;> exact hcur)
            unfold World.modify
            dsimp only
            split <;> exact this
      · refine ⟨?_, rfl⟩
        have heff := Effect.modify (w := w) (g := version.backing)
          (f := fun b => { b with leases := b.leases - 1 }) fun b => ⟨rfl, rfl, rfl, rfl⟩
        refine { heff with held := fun k => ?_ }
        change (if k = index then w.held k - 1 else w.held k) ≤ w.held k
        split <;> omega

theorem releaseAll_spec {extra : List Nat} {w w' : World} {indices : List Nat}
    (hinv : Inv extra w) (h : w.releaseAll indices = some w') :
    Inv extra w' ∧ Effect w w' [] ∧ w'.parts = w.parts := by
  induction indices generalizing w with
  | nil =>
    cases h
    exact ⟨hinv, .refl _, rfl⟩
  | cons index indices ih =>
    unfold World.releaseAll at h
    split at h
    · cases h
    · obtain ⟨hinv', heff, hparts⟩ := release_spec hinv ‹_›
      obtain ⟨hinv'', heff', hparts'⟩ := ih hinv' h
      exact ⟨hinv'', heff.trans heff', hparts'.trans hparts⟩

/-! ## An emit writes past its floor -/

theorem checkRanges_floor {backing : Backing} {floor : Nat} {ranges : List WriteRange}
    (h : checkRanges backing floor ranges = .ok ()) :
    ∀ range ∈ ranges, range.size ≠ 0 → floor ≤ range.offset := by
  induction ranges with
  | nil => simp
  | cons range ranges ih =>
    unfold checkRanges at h
    intro r hr hsize
    split at h
    · rcases List.mem_cons.mp hr with rfl | hr
      · contradiction
      · exact ih h r hr hsize
    · split at h
      · cases h
      · rename_i hcheck
        rcases List.mem_cons.mp hr with rfl | hr
        · unfold checkRange at hcheck
          split at hcheck
          · cases hcheck
          · split at hcheck
            · cases hcheck
            · omega
        · exact ih h r hr hsize

/-- What an emit may queue: writes into its own backing's fill, none below its floor. -/
def Queues (w : World) (g floor : Nat) (appended : Bool) (log : List Write) : Prop :=
  ∀ write ∈ log, write.backing = g ∧ write.fill = (w.backing g).fills
    ∧ write.appended = appended ∧ write.published = w.published.length ∧ floor ≤ write.offset

theorem sinkWrite_spec {w w' : World} {sink sink' : Sink} {g floor : Nat} {appended accepted : Bool}
    {ranges : List WriteRange}
    (h : w.sinkWrite sink g floor appended ranges accepted = .ok (w', sink')) :
    ∃ log, w' = { w with writes := w.writes ++ log } ∧ Queues w g floor appended log := by
  unfold World.sinkWrite at h
  dsimp only at h
  split at h
  · cases h
  · rename_i hcheck
    split at h
    · cases h
      exact ⟨[], by simp, by simp [Queues]⟩
    · iterate 3
        split at h
        · cases h
      cases h
      refine ⟨_, rfl, fun write hwrite => ?_⟩
      obtain ⟨range, hrange, rfl⟩ := List.mem_map.mp hwrite
      rw [List.mem_filter] at hrange
      exact ⟨rfl, rfl, rfl, rfl, checkRanges_floor hcheck range hrange.1 (by simpa using hrange.2)⟩

theorem runEmit_spec {emit : Emit} {w w' : World} {sink sink' : Sink} {g floor : Nat}
    {appended : Bool} {result : Except String Nat}
    (h : w.runEmit sink g floor appended emit = (w', sink', result)) :
    ∃ log, w' = { w with writes := w.writes ++ log } ∧ Queues w g floor appended log := by
  induction emit generalizing w sink with
  | returns contentEpoch =>
    cases h
    exact ⟨[], by simp, by simp [Queues]⟩
  | throws error =>
    cases h
    exact ⟨[], by simp, by simp [Queues]⟩
  | write ranges accepted next caught ihNext ihCaught =>
    unfold World.runEmit at h
    split at h
    · exact ihCaught _ h
    · rename_i w₁ sink₁ hwrite
      obtain ⟨log, rfl, hlog⟩ := sinkWrite_spec hwrite
      obtain ⟨more, rfl, hmore⟩ := ihNext h
      refine ⟨log ++ more, by simp, fun write hw => ?_⟩
      rcases List.mem_append.mp hw with hw | hw
      · exact hlog write hw
      · exact hmore write hw

/-! ## A backing filled -/

/-- What filling a backing leaves alone. -/
structure Fills (w w' : World) (g : Nat) (done : Version) : Prop where
  published : w'.published = w.published
  held : w'.held = w.held
  parts : w'.parts = w.parts
  next : w'.next = w.next
  running : w'.running = w.running ++ [done]
  others : ∀ k, k ≠ g → w'.backing k = w.backing k
  fills : (w'.backing g).fills = (w.backing g).fills
  owner : (w'.backing g).part = (w.backing g).part
  leases : (w'.backing g).leases = (w.backing g).leases
  mark : (w.backing g).sealedBytes ≤ (w'.backing g).sealedBytes

/-- The invariant moves along a fill: the lease in hand becomes the running version's. -/
theorem Inv.fill {w w' : World} {g : Nat} {done : Version} {log : List Write} (hinv : Inv [g] w)
    (hw : Fills w w' g done) (hg : g < w.next) (hdone : done.backing = g)
    (hfill : done.fill = (w.backing g).fills) (hwrites : w'.writes = w.writes ++ log) {floor : Nat}
    (hfloor : floor = (w.backing g).sealedBytes) {appended : Bool}
    (hlog : Queues w g floor appended log) : Inv [] w' := by
  have hfills : ∀ k, (w'.backing k).fills = (w.backing k).fills := by
    intro k
    by_cases hk : k = g
    · rw [hk, hw.fills]
    · rw [hw.others k hk]
  have hmarks : ∀ k, (w.backing k).sealedBytes ≤ (w'.backing k).sealedBytes := by
    intro k
    by_cases hk : k = g
    · rw [hk]
      exact hw.mark
    · rw [hw.others k hk]
  have hcur : ∀ v, w'.Current v ↔ w.Current v := by
    intro v
    unfold World.Current
    rw [hfills]
  constructor
  · intro k
    have hl := hinv.leases k
    have hleases : (w'.backing k).leases = (w.backing k).leases := by
      by_cases hk : k = g
      · rw [hk, hw.leases]
      · rw [hw.others k hk]
    unfold World.leasesHeld at hl ⊢
    rw [hleases, hl, hw.published, hw.held, hw.running, List.countP_append]
    by_cases hk : g = k <;> simp [hdone, hk, Nat.add_assoc]
  · intro v hv
    rw [hw.published, hw.running] at hv
    rw [hw.next]
    simp only [List.mem_append, List.mem_singleton] at hv
    rcases hv with hv | hv | rfl
    · exact hinv.made v (List.mem_append_left _ hv)
    · exact hinv.made v (List.mem_append_right _ hv)
    · rwa [hdone]
  · intro v hv
    rw [hw.published] at hv
    rw [hfills]
    exact hinv.fills v hv
  · intro v hv
    rw [hw.running] at hv
    rw [hcur]
    rcases List.mem_append.mp hv with hv | hv
    · exact hinv.running v hv
    · obtain rfl := List.mem_singleton.mp hv
      unfold World.Current
      rw [hdone, hfill]
  · unfold World.MarksHold
    rw [hw.published, hw.held]
    refine ⟨fun k v hv hk => (hcur v).mpr (hinv.marks.1 k v hv hk), fun v hv hc => ?_⟩
    exact (hinv.marks.2 v hv ((hcur v).mp hc)).trans (hmarks _)
  · intro write hwrite happ v hv hb hf
    rw [hwrites] at hwrite
    rw [hw.published] at hv
    rcases List.mem_append.mp hwrite with hwrite | hwrite
    · exact hinv.appends write hwrite happ v hv hb hf
    · obtain ⟨h₁, h₂, -, -, h₅⟩ := hlog write hwrite
      have hvcur : w.Current v := by
        unfold World.Current
        rw [hb, hf, h₂, h₁]
      have := hinv.marks.2 v (List.mem_of_mem_take hv) hvcur
      rw [hb, h₁, ← hfloor] at this
      exact this.trans h₅
  · intro write hwrite
    rw [hwrites] at hwrite
    rw [hw.published]
    rcases List.mem_append.mp hwrite with hwrite | hwrite
    · exact hinv.logged write hwrite
    · exact (hlog write hwrite).2.2.2.1.le

/-- Taking the lease changes no fill. -/
theorem queues_begin {w : World} {version : Version} {g floor : Nat} {appended : Bool}
    {log : List Write} :
    Queues (w.begin version) g floor appended log ↔ Queues w g floor appended log := by
  have hfills : ((w.begin version).backing g).fills = (w.backing g).fills := by
    unfold World.begin World.modify
    dsimp only
    split <;> rfl
  unfold Queues
  rw [hfills]
  rfl

/-- **A part's fill.** The running version it leaves has the backing's lease; when the emit
returned, the backing carries its epoch and is sealed past what the version names. -/
theorem fill_spec {w w' : World} (version : Version) {emit : Target → Emit} {target : Target}
    {result : Except String Unit} (hinv : Inv [version.backing] w)
    (hmade : version.backing < w.next)
    (hfill : version.fill = (w.backing version.backing).fills)
    (hfloor : version.sealedFrom = (w.backing version.backing).sealedBytes)
    (h : w.fill version emit target = (w', result)) :
    ∃ done, Fills w w' version.backing done ∧ Inv [] w' ∧ done.backing = version.backing
      ∧ done.part = version.part ∧ done.appended = version.appended
      ∧ (result = .ok () → (w'.backing version.backing).contentEpoch = done.contentEpoch
        ∧ done.namedBytes ≤ (w'.backing version.backing).sealedBytes) := by
  unfold World.fill at h
  dsimp only at h
  split at h
  · rename_i w₁ sink error hrun
    obtain ⟨log, rfl, hlog⟩ := runEmit_spec hrun
    cases h
    have hfills : Fills w { w.begin version with writes := (w.begin version).writes ++ log }
        version.backing version := by
      refine ⟨rfl, rfl, rfl, rfl, rfl, fun k hk => ?_, ?_, ?_, ?_, ?_⟩ <;>
        simp [World.begin, World.modify, *]
    exact ⟨version, hfills, hinv.fill hfills hmade rfl hfill rfl hfloor (queues_begin.mp hlog),
      rfl, rfl, rfl, fun h => by cases h⟩
  · rename_i w₁ sink contentEpoch hrun
    obtain ⟨log, rfl, hlog⟩ := runEmit_spec hrun
    obtain ⟨rfl, rfl⟩ := Prod.mk.inj h
    have hfills := (Fills.mk rfl rfl rfl rfl rfl
      (fun k hk => by simp [World.begin, World.modify, hk])
      (by simp [World.begin, World.modify]) (by simp [World.begin, World.modify])
      (by simp [World.begin, World.modify]) (by simp [World.begin, World.modify, hfloor, Nat.le_max_left]) :
      Fills w (World.modify { (w.begin version) with
          writes := (w.begin version).writes ++ log
          running := w.running ++ [{ version with
            contentEpoch, bytes := sink.bytes, runs := sink.runs, firstByte := sink.firstByte }] }
        version.backing fun b =>
          { b with contentEpoch, sealedBytes := max version.sealedFrom version.namedBytes })
        version.backing _)
    exact ⟨_, hfills, hinv.fill hfills hmade rfl hfill rfl hfloor (queues_begin.mp hlog), rfl, rfl,
      rfl, fun _ => by simp [World.begin, World.modify, Version.namedBytes, Nat.le_max_right]⟩

/-! ## A part -/

/-- The version a part ends with: whose backing it names, and what that carries once the emit
returned. -/
structure PartDone (w' : World) (index : Nat) (head : Option Nat) (result : Except String Unit)
    (done : Version) : Prop where
  part : done.part = index
  owner : done.appended = false → (w'.backing done.backing).part = index
  head : done.appended = true → ∃ k version, head = some k ∧ w'.published[k]? = some version
    ∧ version.backing = done.backing
  returned : result = .ok () → (w'.backing done.backing).contentEpoch = done.contentEpoch
    ∧ done.namedBytes ≤ (w'.backing done.backing).sealedBytes

theorem Inv.countZero {extra : List Nat} {w : World} {g : Nat} (hinv : Inv extra w)
    (h : (w.backing g).leases = 0) :
    w.leasesHeld g = 0 ∧ (w.running.countP fun v => v.backing == g) = 0 := by
  have := hinv.leases g
  omega

/-- **A free backing has no living version.** Whatever was published from it before is not of the
fill that starts now. -/
theorem Inv.refill {w w' : World} {g : Nat} (hinv : Inv [] w)
    (hfree : w.leasesHeld g = 0 ∧ (w.running.countP fun v => v.backing == g) = 0)
    (hpublished : w'.published = w.published) (hheld : w'.held = w.held)
    (hrunning : w'.running = w.running) (hwrites : w'.writes = w.writes)
    (hnext : w.next ≤ w'.next) (hothers : ∀ k, k ≠ g → w'.backing k = w.backing k)
    (hleases : (w'.backing g).leases = 1)
    (hfills : ∀ v ∈ w.published, v.backing = g → v.fill < (w'.backing g).fills) : Inv [g] w' := by
  have hnotRunning : ∀ v ∈ w.running, v.backing ≠ g := by
    intro v hv hg
    have := (List.countP_eq_zero.mp hfree.2) v hv
    simp [hg] at this
  have hcur : ∀ v, v.backing ≠ g → (w'.Current v ↔ w.Current v) := by
    intro v hv
    unfold World.Current
    rw [hothers _ hv]
  have hstale : ∀ v ∈ w.published, w'.Current v → v.backing ≠ g := by
    intro v hv hc hg
    have := hfills v hv hg
    unfold World.Current at hc
    rw [hg] at hc
    omega
  constructor
  · intro k
    unfold World.leasesHeld
    rw [hpublished, hheld, hrunning]
    by_cases hk : k = g
    · subst hk
      have h₁ := hfree.1
      unfold World.leasesHeld at h₁
      rw [hleases, h₁, hfree.2]
      simp
    · rw [hothers k hk, hinv.leases k]
      simp [World.leasesHeld, List.count_cons, Ne.symm hk]
  · intro v hv
    rw [hpublished, hrunning] at hv
    exact (hinv.made v hv).trans_le hnext
  · intro v hv
    rw [hpublished] at hv
    by_cases hg : v.backing = g
    · have := hfills v hv hg
      rw [hg]
      omega
    · rw [hothers _ hg]
      exact hinv.fills v hv
  · intro v hv
    rw [hrunning] at hv
    exact (hcur v (hnotRunning v hv)).mpr (hinv.running v hv)
  · unfold World.MarksHold
    rw [hpublished, hheld]
    refine ⟨fun k v hv hk => ?_, fun v hv hc => ?_⟩
    · have hne : v.backing ≠ g := by
        intro hg
        have := le_leasesOn (f := w.held) (k := 0) hv hg
        have h₁ := hfree.1
        unfold World.leasesHeld at h₁
        rw [Nat.zero_add] at this
        omega
      exact (hcur v hne).mpr (hinv.marks.1 k v hv hk)
    · have hne := hstale v hv hc
      rw [hothers _ hne]
      exact hinv.marks.2 v hv ((hcur v hne).mp hc)
  · intro write hwrite happ v hv
    rw [hwrites] at hwrite
    rw [hpublished] at hv
    exact hinv.appends write hwrite happ v hv
  · intro write hwrite
    rw [hwrites] at hwrite
    rw [hpublished]
    exact hinv.logged write hwrite

/-- What `Acquire` leaves of a backing it leases: nobody's, its mark at zero. -/
theorem acquire_spec {w w' : World} {index capacityClass : Nat} {part : Part} {acquired : Acquired}
    {g : Nat} {allocated : Bool} (hinv : Inv [] w)
    (h : w.acquire index capacityClass part acquired = some (w', .ok (some (g, allocated)))) :
    Inv [g] w' ∧ w'.published = w.published ∧ w'.held = w.held ∧ w'.running = w.running
      ∧ w'.parts = w.parts ∧ w.next ≤ w'.next ∧ g < w'.next
      ∧ (∀ k, k ≠ g → w'.backing k = w.backing k) ∧ (w'.backing g).sealedBytes = 0
      ∧ (w'.backing g).part = index
      ∧ (g < w.next → (w.backing g).part = index ∧ (w.backing g).fills < (w'.backing g).fills) := by
  cases acquired with
  | reuse g' =>
    unfold World.acquire at h
    dsimp only at h
    split at h
    · rename_i hok
      obtain ⟨rfl, hr⟩ := Prod.mk.inj (Option.some.inj h)
      cases hr
      refine ⟨?_, rfl, rfl, rfl, rfl, Nat.le_refl _, hok.1, fun k hk => ?_, ?_, ?_, fun _ => ?_⟩
      · refine hinv.refill (g := g) (hinv.countZero hok.2.2.1) rfl rfl rfl rfl (Nat.le_refl _)
          (fun k hk => ?_) ?_ fun v hv hg => ?_
        · simp [World.modify, hk]
        · simp [World.modify]
        · have := hinv.fills v hv
          rw [hg] at this
          simp only [World.modify, if_true]
          omega
      · simp [World.modify, hk]
      · simp [World.modify]
      · simp [World.modify, hok.2.1]
      · exact ⟨hok.2.1, by simp [World.modify]⟩
    · cases h
  | allocate buffer address srvIndex =>
    obtain ⟨rfl, hr⟩ := Prod.mk.inj (Option.some.inj h)
    cases hr
    have hnone : ∀ v ∈ w.published ++ w.running, v.backing ≠ w.next := fun v hv => by
      have := hinv.made v hv
      omega
    refine ⟨?_, rfl, rfl, rfl, rfl, Nat.le_succ _, Nat.lt_succ_self _, fun k hk => ?_, ?_, ?_,
      fun hlt => absurd hlt (Nat.lt_irrefl _)⟩
    · refine hinv.refill (g := w.next) ⟨?_, ?_⟩ rfl rfl rfl rfl (Nat.le_succ _) (fun k hk => ?_) ?_
        fun v hv hg => absurd hg (hnone v (List.mem_append_left _ hv))
      · exact leasesOn_eq_zero fun v hv => hnone v (List.mem_append_left _ hv)
      · exact List.countP_eq_zero.mpr fun v hv => by
          simpa using hnone v (List.mem_append_right _ hv)
      · simp [World.modify, hk]
      · simp [World.modify]
    · simp [World.modify, hk]
    · simp [World.modify]
    · simp [World.modify]
  | exhausted => cases h
  | throws error => cases h

theorem Inv.setHighWater {extra : List Nat} {w : World} {index highWater : Nat}
    (hinv : Inv extra w) : Inv extra (w.setHighWater index highWater) :=
  ⟨hinv.leases, hinv.made, hinv.fills, hinv.running, hinv.marks, hinv.appends, hinv.logged⟩

theorem Effect.setHighWater {w : World} {index highWater : Nat} {part : Part}
    (hpart : w.parts[index]? = some part) (hle : part.highWater ≤ highWater) :
    Effect w (w.setHighWater index highWater) [] where
  published := rfl
  held _ := Nat.le_refl _
  running := (List.append_nil _).symm
  next := Nat.le_refl _
  kept _ _ := ⟨rfl, rfl⟩
  fills _ _ := Nat.le_refl _
  marks _ _ _ := Nat.le_refl _
  owner _ _ := rfl
  parts := List.length_modify _ _ _
  highWater i p hp := by
    unfold World.setHighWater
    dsimp only
    rw [List.getElem?_modify, hp]
    by_cases hi : index = i
    · subst hi
      obtain rfl : p = part := by simpa [hp] using hpart
      exact ⟨{ p with highWater }, by simp, rfl, hle⟩
    · exact ⟨p, by simp [hi], rfl, Nat.le_refl _⟩

/-- The effect of filling a backing that was leased for it. -/
theorem Effect.ofFill {w w₁ w' : World} {g : Nat} {done : Version} (hdone : done.backing = g)
    (hpublished : w₁.published = w.published) (hheld : w₁.held = w.held)
    (hrunning : w₁.running = w.running) (hparts : w₁.parts = w.parts) (hnext : w.next ≤ w₁.next)
    (hothers : ∀ k, k ≠ g → w₁.backing k = w.backing k)
    (howner : g < w.next → (w₁.backing g).part = (w.backing g).part)
    (hfills : g < w.next → (w.backing g).fills ≤ (w₁.backing g).fills
      ∧ ((w₁.backing g).fills = (w.backing g).fills →
        (w.backing g).sealedBytes ≤ (w₁.backing g).sealedBytes))
    (h : Fills w₁ w' g done) : Effect w w' [done] := by
  have hb : ∀ k, k ≠ g → w'.backing k = w.backing k := fun k hk => by
    rw [h.others k hk, hothers k hk]
  exact {
    published := h.published.trans hpublished
    held := fun k => by rw [h.held, hheld]
    running := by rw [h.running, hrunning]
    next := by
      rw [h.next]
      exact hnext
    kept := fun k hk => by
      have hne : k ≠ g := fun hkg => hk done (by simp) (by rw [hdone, hkg])
      rw [hb k hne]
      exact ⟨rfl, rfl⟩
    fills := fun k hk => by
      by_cases hkg : k = g
      · subst hkg
        rw [h.fills]
        exact (hfills hk).1
      · rw [hb k hkg]
    marks := fun k hk hf => by
      by_cases hkg : k = g
      · subst hkg
        rw [h.fills] at hf
        exact ((hfills hk).2 hf).trans h.mark
      · rw [hb k hkg]
    owner := fun k hk => by
      by_cases hkg : k = g
      · subst hkg
        rw [h.owner]
        exact howner hk
      · rw [hb k hkg]
    parts := by rw [h.parts, hparts]
    highWater := fun i part hi => ⟨part, by rw [h.parts, hparts, hi], rfl, Nat.le_refl _⟩ }

/-- What one part does: nothing but releases, or one backing filled. -/
structure PartStep (w w' : World) (index : Nat) (request : Request) (result : Except String Unit)
    (new : List Version) : Prop where
  inv : Inv [] w'
  effect : Effect w w' new
  one : new.length ≤ 1
  done : ∀ done ∈ new, PartDone w' index request.appendInto result done
  absent : request.units = 0 → request.emit = none → new = [] ∧ w'.parts = w.parts
  others : ∀ i, i ≠ index → w'.parts[i]? = w.parts[i]?

theorem PartStep.skip {w w' : World} {index : Nat} {request : Request}
    {result : Except String Unit} (hinv : Inv [] w') (heff : Effect w w' [])
    (hparts : w'.parts = w.parts) : PartStep w w' index request result [] where
  inv := hinv
  effect := heff
  one := by simp
  done := by simp
  absent _ _ := ⟨rfl, hparts⟩
  others i _ := by rw [hparts]

theorem publishFresh_spec {w w' : World} {index : Nat} {part : Part} {request : Request}
    {emit : Target → Emit} {result : Except String Unit} (hinv : Inv [] w)
    (hpart : w.parts[index]? = some part) (hemit : request.emit = some emit)
    (h : w.publishFresh index part request emit = some (w', result)) :
    ∃ new, PartStep w w' index request result new := by
  have hpresent : request.units = 0 → request.emit = none →
      ∀ {P : Prop}, P := fun _ hnone => by
    rw [hemit] at hnone
    cases hnone
  unfold World.publishFresh at h
  split at h
  · cases h
    exact ⟨[], .skip hinv (.refl _) rfl⟩
  · rename_i capacityClass hclass
    dsimp only at h
    have hwater := Effect.setHighWater (w := w) hpart
      (Nat.le_max_left part.highWater capacityClass)
    have hwinv : Inv [] (w.setHighWater index (max part.highWater capacityClass)) :=
      hinv.setHighWater
    have hothers : ∀ i, i ≠ index →
        (w.setHighWater index (max part.highWater capacityClass)).parts[i]? = w.parts[i]? := by
      intro i hi
      unfold World.setHighWater
      dsimp only
      rw [List.getElem?_modify]
      simp [Ne.symm hi]
    generalize w.setHighWater index (max part.highWater capacityClass) = w₀ at *
    -- exhausted or throwing, `Acquire` leaves the pool as it was
    have hsame : ∀ {w₁ : World} {r : Except String (Option (Nat × Bool))},
        w₀.acquire index capacityClass part request.acquired = some (w₁, r) →
        (∀ g allocated, r ≠ .ok (some (g, allocated))) → w₁ = w₀ := by
      intro w₁ r hacq hr
      cases hreq : request.acquired with
      | reuse g =>
        rw [hreq] at hacq
        unfold World.acquire at hacq
        dsimp only at hacq
        split at hacq
        · cases hacq
          exact (hr _ _ rfl).elim
        · cases hacq
      | allocate buffer address srvIndex =>
        rw [hreq] at hacq
        cases hacq
        exact (hr _ _ rfl).elim
      | exhausted =>
        rw [hreq] at hacq
        cases hacq
        rfl
      | throws error =>
        rw [hreq] at hacq
        cases hacq
        rfl
    split at h
    · cases h
    · rename_i w₁ error hacq
      obtain rfl := hsame hacq fun _ _ h => by cases h
      cases h
      exact ⟨[], hwinv, hwater, by simp, by simp, fun h₁ h₂ => hpresent h₁ h₂, hothers⟩
    · rename_i w₁ hacq
      obtain rfl := hsame hacq fun _ _ h => by cases h
      cases h
      exact ⟨[], hwinv, hwater, by simp, by simp, fun h₁ h₂ => hpresent h₁ h₂, hothers⟩
    · rename_i w₁ g allocated hacq
      obtain ⟨hinv₁, hpub, hheld, hrun, hparts, hnext, hg, hoth, hmark, howner, hmade⟩ :=
        acquire_spec hwinv hacq
      obtain ⟨hw', hr⟩ := Prod.mk.inj (Option.some.inj h)
      obtain ⟨done, hfills, hinv', hback, hdpart, happ, hret⟩ :=
        fill_spec (w₁.versionOf index request.units g capacityClass part allocated false)
          hinv₁ hg rfl hmark.symm (Prod.ext hw' hr)
      have heff : Effect w₀ w' [done] :=
        Effect.ofFill (g := g) hback hpub hheld hrun hparts hnext hoth
          (fun hlt => by rw [howner, (hmade hlt).1])
          (fun hlt => ⟨(hmade hlt).2.le, fun heq => by
            have := (hmade hlt).2
            omega⟩) hfills
      refine ⟨[done], hinv', hwater.trans heff, by simp, ?_, fun h₁ h₂ => hpresent h₁ h₂, ?_⟩
      · intro d hd
        obtain rfl := List.mem_singleton.mp hd
        refine ⟨hdpart, fun _ => ?_, fun hd => ?_, ?_⟩
        · rw [hback]
          exact hfills.owner.trans howner
        · rw [happ] at hd
          cases hd
        · rw [hback]
          exact hret
      · intro i hi
        rw [hfills.parts, hparts]
        exact hothers i hi

theorem publishAppend_spec {w w' : World} {index k : Nat} {part : Part} {request : Request}
    {emit : Target → Emit} {result : Except String Unit} {version : Version} (hinv : Inv [] w)
    (hemit : request.emit = some emit) (hhead : request.appendInto = some k)
    (hversion : w.published[k]? = some version)
    (h : w.publishAppend index part request emit version.backing = (w', result)) :
    ∃ new, PartStep w w' index request result new := by
  have hmade := hinv.made version (List.mem_append_left _ (List.mem_of_getElem? hversion))
  set w₁ := w.modify version.backing fun b => { b with leases := b.leases + 1 } with hw₁
  have hb : ∀ k, k ≠ version.backing → w₁.backing k = w.backing k := fun k hk => by
    simp [hw₁, World.modify, hk]
  have hcur : ∀ v, w₁.Current v ↔ w.Current v := fun v => by
    unfold World.Current
    simp only [hw₁, World.modify]
    split <;> rfl
  have hinv₁ : Inv [version.backing] w₁ := by
    constructor
    · intro g
      have := hinv.leases g
      by_cases hg : g = version.backing
      · subst hg
        simp only [hw₁, World.modify, World.leasesHeld, if_true] at this ⊢
        rw [this]
        simp
      · rw [hb g hg, this]
        simp [World.leasesHeld, hw₁, World.modify, List.count_cons, Ne.symm hg]
    · exact hinv.made
    · intro v hv
      have := hinv.fills v hv
      simp only [hw₁, World.modify]
      split <;> exact this
    · exact fun v hv => (hcur v).mpr (hinv.running v hv)
    · refine ⟨fun k v hv hk => (hcur v).mpr (hinv.marks.1 k v hv hk), fun v hv hc => ?_⟩
      have := hinv.marks.2 v hv ((hcur v).mp hc)
      simp only [hw₁, World.modify]
      split <;> exact this
    · exact hinv.appends
    · exact hinv.logged
  unfold World.publishAppend at h
  dsimp only at h
  obtain ⟨done, hfills, hinv', hback, hdpart, happ, hret⟩ :=
    fill_spec (w.versionOf index request.units version.backing
      (w.backing version.backing).capacityClass part false true) hinv₁ hmade
      (by simp [World.versionOf, hw₁, World.modify]) (by simp [World.versionOf, hw₁, World.modify]) h
  have heff : Effect w w' [done] :=
    @Effect.ofFill w w₁ w' version.backing done hback rfl rfl rfl rfl (Nat.le_refl _) hb
      (fun _ => by simp [hw₁, World.modify]) (fun _ => by simp [hw₁, World.modify]) hfills
  refine ⟨[done], hinv', heff, by simp, ?_, fun _ hnone => ?_, fun i _ => by rw [hfills.parts]; rfl⟩
  · intro d hd
    obtain rfl := List.mem_singleton.mp hd
    refine ⟨hdpart, fun hd => ?_, fun _ => ⟨k, version, hhead, ?_, hback.symm⟩, ?_⟩
    · rw [happ] at hd
      cases hd
    · rw [hfills.published]
      exact hversion
    · rw [hback]
      exact hret
  · rw [hemit] at hnone
    cases hnone

theorem publishPart_spec {w w' : World} {index : Nat} {part : Part} {request : Request}
    {result : Except String Unit} (hinv : Inv [] w) (hpart : w.parts[index]? = some part)
    (h : w.publishPart index part request = some (w', result)) :
    ∃ new, PartStep w w' index request result new := by
  unfold World.publishPart at h
  split at h
  · cases h
  · cases h
  · rename_i w₁ hrel _
    obtain ⟨hinv₁, heff, hparts⟩ := releaseAll_spec hinv hrel
    -- what follows the releases, seen from before them
    have hafter : ∀ {w' : World} {result : Except String Unit} {new : List Version},
        PartStep w₁ w' index request result new → PartStep w w' index request result new := by
      intro w' result new hstep
      exact { inv := hstep.inv
              effect := heff.trans hstep.effect
              one := hstep.one
              done := hstep.done
              absent := fun h₁ h₂ => ⟨(hstep.absent h₁ h₂).1, (hstep.absent h₁ h₂).2.trans hparts⟩
              others := fun i hi => by rw [hstep.others i hi, hparts] }
    split at h
    · split at h <;> cases h <;> exact ⟨[], hafter (.skip hinv₁ (.refl _) rfl)⟩
    · rename_i emit hemit
      have hpart₁ : w₁.parts[index]? = some part := by rw [hparts, hpart]
      split at h
      · obtain ⟨new, hnew⟩ := publishFresh_spec hinv₁ hpart₁ hemit h
        exact ⟨new, hafter hnew⟩
      · rename_i head hhead
        split at h
        · cases h
        · rename_i version hversion
          dsimp only at h
          split at h
          · cases h
          · split at h
            · cases h
              exact ⟨[], hafter (.skip hinv₁ (.refl _) rfl)⟩
            · split at h
              · obtain ⟨new, hnew⟩ :=
                  publishAppend_spec hinv₁ hemit hhead hversion (Option.some.inj h)
                exact ⟨new, hafter hnew⟩
              · obtain ⟨new, hnew⟩ := publishFresh_spec hinv₁ hpart₁ hemit h
                exact ⟨new, hafter hnew⟩

/-! ## The parts in order -/

/-- What going over parts from `index` on leaves. -/
structure PartsDone (w w' : World) (index : Nat) (requests : List Request)
    (result : Except String Unit) (new : List Version) : Prop where
  inv : Inv [] w'
  effect : Effect w w' new
  ordered : (new.map (·.part)).Pairwise (· < ·)
  present : ∀ done ∈ new, index ≤ done.part ∧ ∃ request,
    requests[done.part - index]? = some request ∧ ¬(request.units = 0 ∧ request.emit = none)
  owner : ∀ done ∈ new, done.appended = false → (w'.backing done.backing).part = done.part
  head : ∀ done ∈ new, done.appended = true → ∃ request k version,
    requests[done.part - index]? = some request ∧ request.appendInto = some k
      ∧ w'.published[k]? = some version ∧ version.backing = done.backing
  sealed : result = .ok () → ∀ done ∈ new,
    done.namedBytes ≤ (w'.backing done.backing).sealedBytes
  epochs : result = .ok () → ∀ before done after, new = before ++ done :: after →
    (∀ later ∈ after, later.backing ≠ done.backing) →
    (w'.backing done.backing).contentEpoch = done.contentEpoch
  absent : ∀ (i : Nat) (request : Request), requests[i]? = some request → request.units = 0 →
    request.emit = none → w'.parts[index + i]? = w.parts[index + i]?
  below : ∀ i < index, w'.parts[i]? = w.parts[i]?

theorem publishParts_spec {w w' : World} {index : Nat} {requests : List Request}
    {result : Except String Unit} (hinv : Inv [] w)
    (h : w.publishParts index requests = some (w', result)) :
    ∃ new, PartsDone w w' index requests result new := by
  induction requests generalizing w index with
  | nil =>
    cases h
    exact ⟨[], hinv, .refl _, by simp, by simp, by simp, by simp, by simp, by simp, by simp,
      fun _ _ => rfl⟩
  | cons request requests ih =>
    unfold World.publishParts at h
    split at h
    · cases h
    · rename_i part hpart
      split at h
      · cases h
      · -- the part threw: the later ones are not reached
        rename_i w₁ error hstep
        obtain ⟨new, hnew⟩ := publishPart_spec hinv hpart hstep
        cases h
        refine ⟨new, hnew.inv, hnew.effect, ?_, ?_, fun d hd ha => ?_, fun d hd ha => ?_,
          (fun h => by cases h), (fun h => by cases h), ?_, fun i hi => hnew.others i (by omega)⟩
        · match new, hnew.one with
          | [], _ => simp
          | [d], _ => simp
        · intro d hd
          rw [(hnew.done d hd).part, Nat.sub_self]
          refine ⟨Nat.le_refl _, request, rfl, fun habs => ?_⟩
          rw [(hnew.absent habs.1 habs.2).1] at hd
          cases hd
        · rw [(hnew.done d hd).owner ha, (hnew.done d hd).part]
        · obtain ⟨k, version, h₁, h₂, h₃⟩ := (hnew.done d hd).head ha
          rw [(hnew.done d hd).part, Nat.sub_self]
          exact ⟨request, k, version, rfl, h₁, h₂, h₃⟩
        · intro i r hr h₁ h₂
          cases i with
          | zero =>
            obtain rfl : request = r := by simpa using hr
            rw [(hnew.absent h₁ h₂).2]
          | succ i => exact hnew.others _ (by omega)
      · rename_i w₁ hstep
        obtain ⟨new, hnew⟩ := publishPart_spec hinv hpart hstep
        obtain ⟨more, hmore⟩ := ih hnew.inv h
        have hrun : ∀ d ∈ new, d ∈ w₁.running := fun d hd => by
          rw [hnew.effect.running]
          exact List.mem_append_right _ hd
        have hrun' : ∀ d ∈ new, d ∈ w'.running := fun d hd => by
          rw [hmore.effect.running]
          exact List.mem_append_left _ (hrun d hd)
        have hmade : ∀ d ∈ new, d.backing < w₁.next := fun d hd =>
          hnew.inv.made d (List.mem_append_right _ (hrun d hd))
        have hfills : ∀ d ∈ new, (w'.backing d.backing).fills = (w₁.backing d.backing).fills := by
          intro d hd
          have h₁ := hnew.inv.running d (hrun d hd)
          have h₂ := hmore.inv.running d (hrun' d hd)
          unfold World.Current at h₁ h₂
          rw [← h₁, ← h₂]
        refine ⟨new ++ more, hmore.inv, hnew.effect.trans hmore.effect, ?_, ?_, ?_, ?_, ?_, ?_, ?_,
          fun i hi => (hmore.below i (by omega)).trans (hnew.others i (by omega))⟩
        · rw [List.map_append, List.pairwise_append]
          refine ⟨?_, hmore.ordered, fun a ha b hb => ?_⟩
          · match new, hnew.one with
            | [], _ => simp
            | [d], _ => simp
          · obtain ⟨d, hd, rfl⟩ := List.mem_map.mp ha
            obtain ⟨e, he, rfl⟩ := List.mem_map.mp hb
            have := (hmore.present e he).1
            have := (hnew.done d hd).part
            omega
        · intro d hd
          rcases List.mem_append.mp hd with hd | hd
          · rw [(hnew.done d hd).part, Nat.sub_self]
            refine ⟨Nat.le_refl _, request, rfl, fun habs => ?_⟩
            rw [(hnew.absent habs.1 habs.2).1] at hd
            cases hd
          · obtain ⟨hle, r, hr, hpres⟩ := hmore.present d hd
            refine ⟨by omega, r, ?_, hpres⟩
            have : d.part - index = d.part - (index + 1) + 1 := by omega
            rw [this, List.getElem?_cons_succ, hr]
        · intro d hd ha
          rcases List.mem_append.mp hd with hd | hd
          · rw [hmore.effect.owner _ (hmade d hd), (hnew.done d hd).owner ha, (hnew.done d hd).part]
          · exact hmore.owner d hd ha
        · intro d hd ha
          rcases List.mem_append.mp hd with hd | hd
          · obtain ⟨k, version, h₁, h₂, h₃⟩ := (hnew.done d hd).head ha
            rw [(hnew.done d hd).part, Nat.sub_self]
            exact ⟨request, k, version, rfl, h₁, by rw [hmore.effect.published, h₂], h₃⟩
          · obtain ⟨r, k, version, hr, h₁, h₂, h₃⟩ := hmore.head d hd ha
            have hle := (hmore.present d hd).1
            have : d.part - index = d.part - (index + 1) + 1 := by omega
            exact ⟨r, k, version, by rw [this, List.getElem?_cons_succ, hr], h₁, h₂, h₃⟩
        · intro hok d hd
          rcases List.mem_append.mp hd with hd | hd
          · have h₁ := ((hnew.done d hd).returned rfl).2
            exact h₁.trans (hmore.effect.marks _ (hmade d hd) (hfills d hd))
          · exact hmore.sealed hok d hd
        · intro hok before d after hsplit hlast
          rcases List.append_eq_append_iff.mp hsplit with ⟨mid, hbefore, hmid⟩ | ⟨mid, hmid, hafter⟩
          · exact hmore.epochs hok mid d after hmid hlast
          · cases mid with
            | nil =>
              rw [List.nil_append] at hafter
              exact hmore.epochs hok [] d after (by simpa using hafter.symm) hlast
            | cons e mid =>
              obtain ⟨rfl, rfl⟩ : d = e ∧ after = mid ++ more := by simpa using hafter
              have hd : d ∈ new := by rw [hmid]; simp
              have hkept := hmore.effect.kept d.backing fun v hv =>
                hlast v (List.mem_append_right _ hv)
              rw [hkept.1]
              exact ((hnew.done d hd).returned rfl).1
        · intro i r hr h₁ h₂
          cases i with
          | zero =>
            obtain rfl : request = r := by simpa using hr
            rw [hmore.below _ (by omega), (hnew.absent h₁ h₂).2]
          | succ i =>
            have := hmore.absent i r (by simpa using hr) h₁ h₂
            rw [Nat.add_right_comm, Nat.add_assoc] at this
            rw [this]
            exact hnew.others _ (by omega)

/-! ## A publication -/

theorem forget_backing {w : World} {versions : List Version} {g : Nat} :
    (w.forget versions).backing g =
      if ∃ v ∈ versions, v.backing = g then { w.backing g with contentEpoch := 0 }
      else w.backing g := by
  induction versions generalizing w with
  | nil => simp [World.forget]
  | cons v versions ih =>
    unfold World.forget
    rw [ih]
    by_cases hv : v.backing = g
    · simp [World.modify, hv]
    · simp [World.modify, hv, Ne.symm hv]

theorem unlease_backing {w : World} {versions : List Version} {g : Nat} :
    (w.unlease versions).backing g = { w.backing g with
      leases := (w.backing g).leases - versions.countP fun v => v.backing == g } := by
  induction versions generalizing w with
  | nil => simp [World.unlease]
  | cons v versions ih =>
    unfold World.unlease
    rw [ih, List.countP_cons]
    by_cases hv : v.backing = g
    · simp only [World.modify, hv, beq_self_eq_true, if_true]
      congr 1
      omega
    · simp [World.modify, hv, Ne.symm hv]

/-- Neither handler touches anything but the backings. -/
theorem forget_eq {w : World} {versions : List Version} :
    w.forget versions = { w with backing := (w.forget versions).backing } := by
  induction versions generalizing w with
  | nil => rfl
  | cons v versions ih =>
    unfold World.forget
    rw [ih]
    rfl

theorem unlease_eq {w : World} {versions : List Version} :
    w.unlease versions = { w with backing := (w.unlease versions).backing } := by
  induction versions generalizing w with
  | nil => rfl
  | cons v versions ih =>
    unfold World.unlease
    rw [ih]
    rfl

/-- A backing after a rollback: the publication's leases gone, and holding nothing if it was taken. -/
theorem rollback_backing {w : World} {g : Nat} :
    w.rollback.backing g = { w.backing g with
      leases := (w.backing g).leases - w.running.countP fun v => v.backing == g
      contentEpoch := if ∃ v ∈ w.running, v.backing = g then 0 else (w.backing g).contentEpoch } := by
  unfold World.rollback
  dsimp only
  rw [unlease_backing, forget_backing]
  split <;> rfl

theorem rollback_rest {w : World} :
    w.rollback.published = w.published ∧ w.rollback.held = w.held ∧ w.rollback.next = w.next
      ∧ w.rollback.writes = w.writes ∧ w.rollback.parts = w.parts ∧ w.rollback.running = [] := by
  unfold World.rollback
  rw [unlease_eq, forget_eq]
  exact ⟨rfl, rfl, rfl, rfl, rfl, rfl⟩

/-- What holds between publications. -/
structure Rest (w : World) : Prop where
  inv : Inv [] w
  idle : w.running = []

/-- A change that leaves all but the backings' leases and epochs alone keeps the invariant, as long
as the leases match. -/
theorem Inv.of_backings {extra : List Nat} {w w' : World} (hinv : Inv extra w)
    (hpublished : w'.published = w.published) (hnext : w'.next = w.next)
    (hwrites : w'.writes = w.writes) (hsub : ∀ v ∈ w'.running, v ∈ w.running)
    (hheld : ∀ k, 0 < w'.held k → 0 < w.held k)
    (hfills : ∀ g, (w'.backing g).fills = (w.backing g).fills)
    (hmarks : ∀ g, (w'.backing g).sealedBytes = (w.backing g).sealedBytes)
    (hleases : ∀ g, (w'.backing g).leases
      = w'.leasesHeld g + w'.running.countP fun v => v.backing == g) : Inv [] w' := by
  have hcur : ∀ v, w'.Current v ↔ w.Current v := fun v => by
    unfold World.Current
    rw [hfills]
  constructor
  · simpa using hleases
  · intro v hv
    rw [hpublished] at hv
    rw [hnext]
    refine hinv.made v ?_
    rcases List.mem_append.mp hv with hv | hv
    · exact List.mem_append_left _ hv
    · exact List.mem_append_right _ (hsub v hv)
  · intro v hv
    rw [hpublished] at hv
    rw [hfills]
    exact hinv.fills v hv
  · exact fun v hv => (hcur v).mpr (hinv.running v (hsub v hv))
  · unfold World.MarksHold
    rw [hpublished]
    refine ⟨fun k v hv hk => (hcur v).mpr (hinv.marks.1 k v hv (hheld k hk)), fun v hv hc => ?_⟩
    rw [hmarks]
    exact hinv.marks.2 v hv ((hcur v).mp hc)
  · unfold World.AppendsAbove
    rw [hwrites, hpublished]
    exact hinv.appends
  · rw [hwrites, hpublished]
    exact hinv.logged

theorem rollback_inv {w : World} (hinv : Inv [] w) : Rest w.rollback := by
  obtain ⟨h₁, h₂, h₃, h₄, -, h₆⟩ := rollback_rest (w := w)
  refine ⟨hinv.of_backings h₁ h₃ h₄ (by rw [h₆]; simp) (fun k hk => by rwa [h₂] at hk)
    (fun g => by rw [rollback_backing]) (fun g => by rw [rollback_backing]) fun g => ?_, h₆⟩
  have := hinv.leases g
  rw [rollback_backing, h₆]
  unfold World.leasesHeld at this ⊢
  rw [h₁, h₂]
  simp only [List.count_nil, List.countP_nil] at this ⊢
  omega

theorem commit_inv {w : World} (hinv : Inv [] w)
    (hsealed : ∀ v ∈ w.running, v.namedBytes ≤ (w.backing v.backing).sealedBytes) :
    Rest w.commit := by
  refine ⟨⟨fun g => ?_, ?_, ?_, by simp [World.commit], ⟨fun k v hv hk => ?_, fun v hv hc => ?_⟩,
    fun write hwrite happ v hv => ?_, fun write hwrite => ?_⟩, rfl⟩
  · have := hinv.leases g
    unfold World.leasesHeld World.commit at *
    dsimp only at *
    set held' := fun k => if w.published.length ≤ k
      ∧ k < w.published.length + w.running.length then 1 else w.held k with hheld
    have hold : leasesOn held' g 0 w.published = leasesOn w.held g 0 w.published :=
      leasesOn_congr fun j hj => by
        rw [hheld]
        dsimp only
        rw [if_neg (by omega)]
    have hnew : leasesOn held' g w.published.length w.running
        = w.running.countP fun v => v.backing == g :=
      leasesOn_ones fun j hj => by
        rw [hheld]
        dsimp only
        rw [if_pos ⟨by omega, by omega⟩]
    rw [leasesOn_append, Nat.zero_add, hold, hnew]
    simpa using this
  · intro v hv
    exact hinv.made v (by simpa [World.commit] using hv)
  · intro v hv
    rcases List.mem_append.mp hv with hv | hv
    · exact hinv.fills v hv
    · exact (hinv.running v hv).le
  · change (w.published ++ w.running)[k]? = some v at hv
    change 0 < (if w.published.length ≤ k ∧ k < w.published.length + w.running.length then 1
      else w.held k) at hk
    rcases Nat.lt_or_ge k w.published.length with hlt | hge
    · rw [List.getElem?_append_left hlt] at hv
      rw [if_neg (by omega)] at hk
      exact hinv.marks.1 k v hv hk
    · rw [List.getElem?_append_right hge] at hv
      exact hinv.running v (List.mem_of_getElem? hv)
  · rcases List.mem_append.mp hv with hv | hv
    · exact hinv.marks.2 v hv hc
    · exact hsealed v hv
  · have hle := hinv.logged write hwrite
    change v ∈ (w.published ++ w.running).take write.published at hv
    rw [List.take_append_of_le_length hle] at hv
    exact hinv.appends write hwrite happ v hv
  · have := hinv.logged write hwrite
    show write.published ≤ (w.published ++ w.running).length
    rw [List.length_append]
    omega

theorem publish_rest {w w' : World} {requests : List Request} {result : Except String Unit}
    (hrest : Rest w) (h : w.publish requests = some (w', result)) : Rest w' := by
  unfold World.publish at h
  split at h
  · cases h
    exact hrest
  · split at h
    · cases h
    · rename_i reached error hparts
      obtain ⟨new, hnew⟩ := publishParts_spec hrest.inv hparts
      cases h
      exact rollback_inv hnew.inv
    · rename_i reached hparts
      obtain ⟨new, hnew⟩ := publishParts_spec hrest.inv hparts
      cases h
      refine commit_inv hnew.inv fun v hv => hnew.sealed rfl v ?_
      rwa [hnew.effect.running, hrest.idle, List.nil_append] at hv

/-- A step keeps what holds between publications. -/
theorem step_rest {w w' : World} {action : Action} (hrest : Rest w)
    (h : w.step action = some w') : Rest w' := by
  cases action with
  | publish requests =>
    obtain ⟨⟨w₁, result⟩, hpub, rfl⟩ := Option.map_eq_some_iff.mp h
    exact publish_rest hrest hpub
  | discard versions =>
    unfold World.step at h
    dsimp only at h
    split at h
    · cases h
      have hb : ∀ g, ((w.forget (versions.filterMap fun index => w.published[index]?)).backing
          g).leases = (w.backing g).leases := fun g => by
        rw [forget_backing]
        split <;> rfl
      unfold World.discard
      refine ⟨hrest.inv.of_backings ?_ ?_ ?_ ?_ ?_ (fun g => ?_) (fun g => ?_) (fun g => ?_), ?_⟩
      · rw [forget_eq]
      · rw [forget_eq]
      · rw [forget_eq]
      · rw [forget_eq]
        exact fun v hv => hv
      · rw [forget_eq]
        exact fun k hk => hk
      · rw [forget_backing]
        split <;> rfl
      · rw [forget_backing]
        split <;> rfl
      · rw [hb, hrest.inv.leases, forget_eq]
        simp [World.leasesHeld]
      · rw [forget_eq]
        exact hrest.idle
    · cases h
  | copyLease index =>
    unfold World.step at h
    dsimp only at h
    split at h
    · cases h
    · rename_i version hversion
      split at h
      · cases h
      · cases h
        refine ⟨hrest.inv.of_backings rfl rfl rfl (fun v hv => hv) (fun k hk => ?_) (fun g => ?_)
          (fun g => ?_) (fun g => ?_), hrest.idle⟩
        · change 0 < (if k = index then w.held k + 1 else w.held k) at hk
          split at hk
          · rename_i hki
            subst hki
            omega
          · exact hk
        · simp only [World.modify]
          split <;> rfl
        · simp only [World.modify]
          split <;> rfl
        · have hl := hrest.inv.leases g
          have hu := leasesOn_update (f := w.held) (g := g) (k := 0) (m := w.held index + 1)
            hversion
          have hcong : (fun k => if k = index then w.held k + 1 else w.held k)
              = fun k => if k = index then w.held index + 1 else w.held k := by
            funext k
            by_cases hk : k = index <;> simp [hk]
          simp only [World.leasesHeld, World.modify, hcong, Nat.zero_add, hrest.idle,
            List.countP_nil, List.count_nil] at hl hu ⊢
          by_cases hg : g = version.backing
          · subst hg
            simp only [if_true] at hu ⊢
            omega
          · simp only [hg, Ne.symm hg, if_false] at hu ⊢
            omega
  | release index =>
    obtain ⟨hinv, heff, -⟩ := release_spec hrest.inv h
    exact ⟨hinv, by rw [heff.running, hrest.idle, List.append_nil]⟩

theorem rest_start (configs : List PartConfig) : Rest (World.start configs) where
  inv := ⟨fun _ => rfl, by simp [World.start], by simp [World.start], by simp [World.start],
    ⟨by simp [World.start], by simp [World.start]⟩, by simp [World.start, World.AppendsAbove],
    by simp [World.start]⟩
  idle := rfl

theorem reachable_rest {configs : List PartConfig} {w : World}
    (h : Run.Reachable World.step (World.start configs) w) : Rest w :=
  h.invariant (rest_start configs) fun _ hrest _ hstep => step_rest hrest hstep

end ModuleServices.Journaled.Proof
