import ModuleServices.Buffers.Family
import Mathlib

/-!
# When one revision has one fingerprint

A sequence of the journal fixes the rows, the capacity and the writes up to it; what a capture holds
of the writes is those after its base. So two captures of one revision differ at most by what was
dropped between them, and the family's intents agree as long as nothing was.
-/

namespace ModuleServices.Proof

open ModuleServices BufferJournal VersionedBufferFamily

variable {log : List BufferWrite} {shape : Nat → Nat × Nat} {c c' : Capture}
  {journal journal' : BufferJournal} {r r' : JournalRun}

/-! ## What a capture holds -/

/-- The writes after the capture's base, of all the journal recorded; the rows and the capacity of its
sequence. -/
structure CaptureOf (log : List BufferWrite) (shape : Nat → Nat × Nat) (c : Capture) : Prop where
  writes : c.writes = log.filter fun write =>
    decide (c.journalBaseSequence < write.sequence ∧ write.sequence ≤ c.writeSequence)
  shape : shape c.writeSequence = (c.elementCount, c.capacity)

/-- The journal now and every capture taken of it hold parts of one log. -/
structure Logged (log : List BufferWrite) (shape : Nat → Nat × Nat) (r : JournalRun) : Prop where
  past : ∀ write ∈ log, write.sequence ≤ r.journal.writeSequence
  base : r.journal.journalBaseSequence ≤ r.journal.writeSequence
  now : CaptureOf log shape r.journal.captureDesired
  captures : ∀ c ∈ r.captures, CaptureOf log shape c ∧ c.writeSequence ≤ r.journal.writeSequence

/-- Neither capture holds a write that the other's base has passed. -/
def Uncompacted (c : Capture) (input : VersionedBufferBuildInput) : Prop :=
  (∀ write ∈ c.writes, input.journalBaseSequence < write.sequence)
    ∧ ∀ write ∈ input.writes, c.journalBaseSequence < write.sequence

instance (c : Capture) (input : VersionedBufferBuildInput) : Decidable (Uncompacted c input) := by
  unfold Uncompacted
  infer_instance

/-- Two captures of one revision with nothing dropped between them hold the same writes. -/
theorem CaptureOf.writes_eq (h : CaptureOf log shape c) (h' : CaptureOf log shape c')
    (hrevision : c.writeSequence = c'.writeSequence)
    (hkept : ∀ write ∈ c.writes, c'.journalBaseSequence < write.sequence)
    (hkept' : ∀ write ∈ c'.writes, c.journalBaseSequence < write.sequence) :
    c.writes = c'.writes := by
  have hmem {a : Capture} (ha : CaptureOf log shape a) (write : BufferWrite) :
      write ∈ a.writes ↔ write ∈ log
        ∧ a.journalBaseSequence < write.sequence ∧ write.sequence ≤ a.writeSequence := by
    rw [ha.writes, List.mem_filter, decide_eq_true_eq]
  rw [h.writes, h'.writes]
  refine List.filter_congr fun write hwrite => decide_eq_decide.mpr ⟨fun hin => ?_, fun hin => ?_⟩
  · exact ⟨hkept write ((hmem h write).mpr ⟨hwrite, hin⟩), hrevision ▸ hin.2⟩
  · exact ⟨hkept' write ((hmem h' write).mpr ⟨hwrite, hin⟩), hrevision ▸ hin.2⟩

/-- And so one fingerprint. -/
theorem captureFingerprint_eq (family : VersionedBufferFamily) (h : CaptureOf log shape c)
    (h' : CaptureOf log shape c') (hrevision : c.writeSequence = c'.writeSequence)
    (hwrites : c.writes = c'.writes) :
    family.captureFingerprint c.writeSequence c
      = family.captureFingerprint c'.writeSequence c' := by
  have hshape : (c.elementCount, c.capacity) = (c'.elementCount, c'.capacity) := by
    rw [← h.shape, ← h'.shape, hrevision]
  obtain ⟨hcount, hcapacity⟩ := Prod.mk.injEq .. ▸ hshape
  unfold captureFingerprint
  rw [hrevision, hwrites, hcount, hcapacity]

/-! ## What the journal does -/

/-- A mutation moves to the next sequence and records at most a write of that sequence. -/
structure Mutates (journal journal' : BufferJournal) (new : List BufferWrite) : Prop where
  sequence : journal'.writeSequence = journal.writeSequence + 1
  base : journal'.journalBaseSequence = journal.journalBaseSequence
  writes : journal'.writes = journal.writes ++ new
  new : ∀ write ∈ new, write.sequence = journal.writeSequence + 1

theorem Mutates.logged {new : List BufferWrite} (hmutates : Mutates r.journal journal' new)
    (h : Logged log shape r) :
    ∃ log shape, Logged log shape { r with journal := journal' } := by
  have hlater (a : Capture) (ha : CaptureOf log shape a)
      (hpast : a.writeSequence ≤ r.journal.writeSequence) :
      CaptureOf (log ++ new) (Function.update shape (r.journal.writeSequence + 1)
        (journal'.elementCount, journal'.capacity)) a := by
    refine ⟨?_, ?_⟩
    · rw [List.filter_append, ← ha.writes, List.filter_eq_nil_iff.mpr, List.append_nil]
      intro write hwrite
      have hsequence := hmutates.new write hwrite
      rw [decide_eq_true_eq]
      omega
    · rw [Function.update_of_ne (by omega)]
      exact ha.shape
  refine ⟨log ++ new, Function.update shape (r.journal.writeSequence + 1)
    (journal'.elementCount, journal'.capacity), ?_, ?_, ⟨?_, ?_⟩, fun a ha => ?_⟩
  · intro write hwrite
    change write.sequence ≤ journal'.writeSequence
    rw [hmutates.sequence]
    rcases List.mem_append.mp hwrite with hold | hnew
    · exact Nat.le_succ_of_le (h.past write hold)
    · exact Nat.le_of_eq (hmutates.new write hnew)
  · change journal'.journalBaseSequence ≤ journal'.writeSequence
    rw [hmutates.base, hmutates.sequence]
    exact Nat.le_succ_of_le h.base
  · change journal'.writes = (log ++ new).filter fun write => decide
      (journal'.journalBaseSequence < write.sequence ∧ write.sequence ≤ journal'.writeSequence)
    have hnow : r.journal.writes = log.filter fun write => decide
        (r.journal.journalBaseSequence < write.sequence
          ∧ write.sequence ≤ r.journal.writeSequence) := h.now.writes
    rw [hmutates.writes, hmutates.base, hmutates.sequence, List.filter_append, hnow]
    congr 1
    · refine List.filter_congr fun write hwrite => decide_eq_decide.mpr ?_
      have hpast := h.past write hwrite
      omega
    · refine (List.filter_eq_self.mpr fun write hwrite => ?_).symm
      have hsequence := hmutates.new write hwrite
      have hbase := h.base
      rw [decide_eq_true_eq]
      omega
  · change Function.update shape _ _ journal'.writeSequence = _
    rw [hmutates.sequence, Function.update_self]
    rfl
  · obtain ⟨hcapture, hpast⟩ := h.captures a ha
    refine ⟨hlater a hcapture hpast, ?_⟩
    change a.writeSequence ≤ journal'.writeSequence
    rw [hmutates.sequence]
    exact Nat.le_succ_of_le hpast

/-- A mutation that throws after its sequence is taken records no write. -/
theorem Logged.bump (h : Logged log shape r)
    (hsequence : journal'.writeSequence = r.journal.writeSequence + 1)
    (hbase : journal'.journalBaseSequence = r.journal.journalBaseSequence)
    (hwrites : journal'.writes = r.journal.writes) :
    ∃ log shape, Logged log shape { r with journal := journal' } := by
  have hmutates : Mutates r.journal journal' [] :=
    ⟨hsequence, hbase, by rw [hwrites, List.append_nil], fun _ hwrite => by cases hwrite⟩
  exact hmutates.logged h

/-- Acknowledging raises the base, to no sequence still to come, and drops the writes it passes. -/
theorem acknowledge_cases (journal : BufferJournal) (version : Option PublishedBufferVersion)
    (floor : Option Nat) :
    journal.acknowledge version floor = journal
      ∨ ∃ base, base ≤ journal.writeSequence ∧ journal.acknowledge version floor = { journal with
          previous := version
          journalBaseSequence := max journal.journalBaseSequence base
          writes := journal.writes.filter fun write =>
            !decide (write.sequence ≤ max journal.journalBaseSequence base) } := by
  unfold BufferJournal.acknowledge
  cases version with
  | none => exact .inl rfl
  | some version =>
    dsimp only
    split
    · exact .inl rfl
    rename_i hguard
    have hversion : version.writeSequence ≤ journal.writeSequence :=
      Nat.le_of_not_lt fun hlater => hguard (.inl hlater)
    cases floor with
    | none => exact .inr ⟨version.writeSequence, hversion, rfl⟩
    | some floor =>
      exact .inr ⟨min version.writeSequence floor, Nat.le_trans (Nat.min_le_left _ _) hversion, rfl⟩

/-- What it drops is gone from the journal, and from no capture. -/
theorem acknowledge_logged (h : Logged log shape r) (version : Option PublishedBufferVersion)
    (floor : Option Nat) :
    Logged log shape { r with journal := r.journal.acknowledge version floor } := by
  rcases acknowledge_cases r.journal version floor with heq | ⟨base, hle, heq⟩
  · rw [heq]
    exact h
  rw [heq]
  refine ⟨h.past, Nat.max_le.mpr ⟨h.base, hle⟩, ⟨?_, h.now.shape⟩, h.captures⟩
  have hnow : r.journal.writes = log.filter fun write => decide
      (r.journal.journalBaseSequence < write.sequence
        ∧ write.sequence ≤ r.journal.writeSequence) := h.now.writes
  change r.journal.writes.filter _ = log.filter fun write => decide
    (max r.journal.journalBaseSequence base < write.sequence
      ∧ write.sequence ≤ r.journal.writeSequence)
  rw [hnow, List.filter_filter]
  refine List.filter_congr fun write _ => ?_
  rw [← decide_not, ← Bool.decide_and]
  refine decide_eq_decide.mpr ?_
  omega

/-- Every operation but an initialization keeps one log. -/
theorem journal_logged {operation : JournalAction} (h : Logged log shape r)
    (hnot : operation.initializes = false) (hstep : r.step operation = some r') :
    ∃ log shape, Logged log shape r' := by
  cases operation with
  | initializeImage => cases hnot
  | initializeThrows => cases hnot
  | appendWrite elementOffset bytes resulting =>
    simp only [JournalRun.step] at hstep
    split at hstep
    · cases hstep
    cases hstep
    unfold BufferJournal.appendWrite64
    cases r.journal.refusesWrite elementOffset bytes resulting with
    | some error => exact ⟨log, shape, h⟩
    | none => exact Mutates.logged ⟨rfl, rfl, rfl, fun write hwrite => by
        cases List.mem_singleton.mp hwrite; rfl⟩ h
  | replaceImage bytes elementCount capacity =>
    cases hstep
    unfold BufferJournal.replaceImage64
    split
    · exact Mutates.logged ⟨rfl, rfl, rfl, fun write hwrite => by
        cases List.mem_singleton.mp hwrite; rfl⟩ h
    · exact ⟨log, shape, h⟩
  | requestCapacity capacity =>
    cases hstep
    unfold BufferJournal.requestCapacity64
    split
    · exact ⟨log, shape, h⟩
    · exact Mutates.logged ⟨rfl, rfl, rfl, fun write hwrite => by
        cases List.mem_singleton.mp hwrite; rfl⟩ h
  | captureDesired =>
    cases hstep
    refine ⟨log, shape, h.past, h.base, h.now, fun a ha => ?_⟩
    rcases List.mem_append.mp ha with hold | hnew
    · exact h.captures a hold
    · cases List.mem_singleton.mp hnew
      exact ⟨h.now, Nat.le_refl _⟩
  | acknowledge version floor =>
    cases hstep
    exact ⟨log, shape, acknowledge_logged h version floor⟩
  | appendWriteThrows elementOffset bytes resulting pages byteSize =>
    simp only [JournalRun.step] at hstep
    split at hstep
    · cases hstep
      exact h.bump rfl rfl rfl
    · cases hstep
  | replaceImageThrows bytes elementCount capacity made =>
    simp only [JournalRun.step] at hstep
    split at hstep
    · cases hstep
      exact h.bump rfl rfl rfl
    · cases hstep
  | requestCapacityThrows capacity =>
    cases hstep
    unfold BufferJournal.requestCapacityThrown
    split
    · exact ⟨log, shape, h⟩
    · exact h.bump rfl rfl rfl

/-- The captures are kept. -/
theorem journal_captures {operation : JournalAction} (hstep : r.step operation = some r') :
    ∀ c ∈ r.captures, c ∈ r'.captures := by
  intro c hc
  cases operation <;> simp only [JournalRun.step, JournalRun.settle] at hstep <;>
    (try split at hstep) <;> (try split at hstep) <;> cases hstep <;>
    first | exact hc | exact List.mem_append_left _ hc

/-! ## What the family submits -/

/-- A step that submits an intent submits it of a capture with nothing dropped between it and the
captures of the intents submitted for the revision before. -/
def SubmitsUncompacted (r : FamilyRun) : FamilyAction → Prop
  | .requestCapture uploads revision capture _ =>
    ∀ c ∈ r.journal.captures[capture]?, ¬refuses uploads revision c → ¬r.family.remembers revision →
      ∀ intent ∈ r.submitted, intent.desiredRevision = revision → Uncompacted c intent.input
  | .postCapture uploads revision capture =>
    ∀ c ∈ r.journal.captures[capture]?, ¬refuses uploads revision c →
      revision ≠ r.family.lastJournalRevision →
      ∀ intent ∈ r.submitted, intent.desiredRevision = revision → Uncompacted c intent.input
  | _ => True

instance (r : FamilyRun) (a : FamilyAction) : Decidable (SubmitsUncompacted r a) := by
  cases a <;> unfold SubmitsUncompacted <;> infer_instance

/-- Intents of one revision have one fingerprint. -/
def OneFingerprint (r : FamilyRun) : Prop :=
  ∀ intent ∈ r.submitted, ∀ intent' ∈ r.submitted,
    intent.desiredRevision = intent'.desiredRevision →
      intent.requestFingerprint = intent'.requestFingerprint

/-- Every intent was made of a capture at its revision. -/
structure FamilyInv (family : VersionedBufferFamily) (r : FamilyRun) : Prop where
  logged : ∃ log shape, Logged log shape r.journal
  address : r.family.address = family.address
  made : ∀ intent ∈ r.submitted, ∃ c ∈ r.journal.captures,
    intent.desiredRevision = c.writeSequence
      ∧ intent.requestFingerprint = family.captureFingerprint c.writeSequence c
      ∧ intent.input.writes = c.writes
      ∧ intent.input.journalBaseSequence = c.journalBaseSequence
  agree : OneFingerprint r

theorem captureFingerprint_address {family family' : VersionedBufferFamily}
    (h : family.address = family'.address) (revision : Nat) (c : Capture) :
    family.captureFingerprint revision c = family'.captureFingerprint revision c := by
  unfold captureFingerprint
  rw [h]

variable {family : VersionedBufferFamily} {s s' : FamilyRun}

/-- One more intent, of a capture not compacted against those before. -/
theorem FamilyInv.submit (h : FamilyInv family s) (hc : c ∈ s.journal.captures)
    (hkept : ∀ intent ∈ s.submitted, intent.desiredRevision = c.writeSequence →
      Uncompacted c intent.input) {family' : VersionedBufferFamily}
    (haddress : family'.address = s.family.address) :
    FamilyInv family { s with
      family := family'
      submitted := s.submitted ++ [s.family.makeCaptureIntent c.writeSequence c] } := by
  obtain ⟨log, shape, hlogged⟩ := h.logged
  have hnew : (s.family.makeCaptureIntent c.writeSequence c).requestFingerprint
      = family.captureFingerprint c.writeSequence c :=
    captureFingerprint_address h.address c.writeSequence c
  have hold : ∀ intent ∈ s.submitted, intent.desiredRevision = c.writeSequence →
      intent.requestFingerprint = family.captureFingerprint c.writeSequence c := by
    intro intent hintent hrevision
    obtain ⟨c', hc', hrevision', hfingerprint, hwrites, hbase⟩ := h.made intent hintent
    obtain ⟨hkeeps, hkeeps'⟩ := hkept intent hintent hrevision
    rw [hbase] at hkeeps
    rw [hwrites] at hkeeps'
    have hsame : c.writeSequence = c'.writeSequence := hrevision.symm.trans hrevision'
    have hcapture := (hlogged.captures c hc).1
    have hcapture' := (hlogged.captures c' hc').1
    rw [hfingerprint]
    exact (captureFingerprint_eq family hcapture hcapture' hsame
      (hcapture.writes_eq hcapture' hsame hkeeps hkeeps')).symm
  refine ⟨h.logged, haddress.trans h.address, fun intent hintent => ?_,
    fun intent hintent intent' hintent' hrevision => ?_⟩
  · rcases List.mem_append.mp hintent with hbefore | hlast
    · exact h.made intent hbefore
    · cases List.mem_singleton.mp hlast
      exact ⟨c, hc, rfl, hnew, rfl, rfl⟩
  · rcases List.mem_append.mp hintent with hbefore | hlast <;>
      rcases List.mem_append.mp hintent' with hbefore' | hlast'
    · exact h.agree intent hbefore intent' hbefore' hrevision
    · cases List.mem_singleton.mp hlast'
      rw [hold intent hbefore hrevision, hnew]
    · cases List.mem_singleton.mp hlast
      rw [hold intent' hbefore' hrevision.symm, hnew]
    · cases List.mem_singleton.mp hlast
      cases List.mem_singleton.mp hlast'
      rfl

/-- A step that submits nothing. -/
theorem FamilyInv.quiet (h : FamilyInv family s) {family' : VersionedBufferFamily}
    (haddress : family'.address = s.family.address) :
    FamilyInv family { s with family := family', submitted := s.submitted ++ [] } := by
  rw [List.append_nil]
  exact ⟨h.logged, haddress.trans h.address, h.made, h.agree⟩

theorem acknowledge_address (family : VersionedBufferFamily)
    (version : Option PublishedBufferVersion) (completed : Nat) (leased : Bool) :
    (family.acknowledge version completed leased).1.address = family.address := by
  unfold VersionedBufferFamily.acknowledge
  cases version with
  | none => rfl
  | some version =>
    cases family.previous with
    | none => rfl
    | some previous =>
      dsimp only
      split <;> rfl

theorem FamilyInv.step {a : FamilyAction} (h : FamilyInv family s) (hkeeps : SubmitsUncompacted s a)
    (hstep : s.step a = some s') : FamilyInv family s' := by
  cases a with
  | journal operation =>
    simp only [FamilyRun.step] at hstep
    split at hstep
    · cases hstep
    rename_i hnot
    obtain ⟨journal, hjournal, rfl⟩ := Option.map_eq_some_iff.mp hstep
    obtain ⟨log, shape, hlogged⟩ := h.logged
    refine ⟨journal_logged hlogged (Bool.eq_false_iff.mpr hnot) hjournal, h.address,
      fun intent hintent => ?_, h.agree⟩
    obtain ⟨c, hc, hmade⟩ := h.made intent hintent
    exact ⟨c, journal_captures hjournal c hc, hmade⟩
  | requestCapture uploads revision capture submitted =>
    obtain ⟨c, hget, rfl⟩ := Option.map_eq_some_iff.mp hstep
    have hc : c ∈ s.journal.captures := List.mem_of_getElem? hget
    unfold requestCapture
    by_cases hrefused : refuses uploads revision c
    · rw [if_pos hrefused]
      exact h.quiet rfl
    rw [if_neg hrefused]
    by_cases hremembered : s.family.remembers revision
    · rw [if_pos hremembered]
      exact h.quiet rfl
    rw [if_neg hremembered]
    have hrevision : c.writeSequence = revision :=
      Decidable.of_not_not fun hne => hrefused (.inr (.inr hne))
    subst hrevision
    refine h.submit hc (hkeeps c hget hrefused hremembered) ?_
    split <;> rfl
  | postCapture uploads revision capture =>
    obtain ⟨c, hget, rfl⟩ := Option.map_eq_some_iff.mp hstep
    have hc : c ∈ s.journal.captures := List.mem_of_getElem? hget
    unfold postCapture
    by_cases hrefused : refuses uploads revision c
    · rw [if_pos hrefused]
      exact h.quiet rfl
    rw [if_neg hrefused]
    by_cases hlast : revision = s.family.lastJournalRevision
    · rw [if_pos hlast]
      exact h.quiet rfl
    rw [if_neg hlast]
    have hrevision : c.writeSequence = revision :=
      Decidable.of_not_not fun hne => hrefused (.inr (.inr hne))
    subst hrevision
    exact h.submit hc (hkeeps c hget hrefused hlast) rfl
  | acknowledge version completed leased =>
    cases hstep
    exact ⟨h.logged, (acknowledge_address _ _ _ _).trans h.address, h.made, h.agree⟩

/-- A journal just initialized, and a family that has requested nothing. -/
def begun (journal : BufferJournal) (family : VersionedBufferFamily) : FamilyRun :=
  { journal := { journal }, family }

theorem begun_inv {bytes : List Byte} {elementCount capacity : Nat}
    (h : ({ elementStride := family.elementStride } : BufferJournal).initialize64 bytes elementCount
      capacity = .ok journal) : FamilyInv family (begun journal family) := by
  unfold BufferJournal.initialize64 at h
  split at h
  · cases h
    have hnone {α : Type} {p : α → Prop} : ∀ a ∈ ([] : List α), p a := by
      intro a ha
      cases ha
    exact ⟨⟨[], fun _ => (elementCount, capacity), hnone, Nat.zero_le 1, ⟨rfl, rfl⟩, hnone⟩, rfl,
      hnone, hnone⟩
  · cases h

/-- **One revision, one fingerprint.** As long as every intent is made of a capture with nothing
dropped between it and the earlier captures submitted for its revision, intents of one revision carry
one fingerprint. -/
theorem oneFingerprint_of_uncompacted {bytes : List Byte} {elementCount capacity : Nat}
    (hbegun : ({ elementStride := family.elementStride } : BufferJournal).initialize64 bytes
      elementCount capacity = .ok journal)
    (h : Run.Within FamilyRun.step SubmitsUncompacted (begun journal family) s) :
    OneFingerprint s :=
  (h.invariant (begun_inv hbegun) fun _ hinv hkeeps hstep => hinv.step hkeeps hstep).agree

/-- Rows of one byte. -/
def byteJournal : BufferJournal :=
  { elementStride := 1, writeSequence := 1, elementCount := 1, capacity := 4, byteSize := 1
    pages := [[0]] }

/-- Revision 2 is posted, then published and acknowledged, then requested again. -/
def repeated : List FamilyAction :=
  [.journal (.appendWrite 0 [7] 1), .journal .captureDesired, .postCapture true 2 0,
    .journal (.acknowledge (some { writeSequence := 2 }) none), .journal .captureDesired,
    .requestCapture true 2 1 { status := some .conflictingRevision }]

/-- The repeated request has another fingerprint: the write is not in its capture any more. -/
theorem repeated_conflicts :
    ∃ s, ({ elementStride := 1 } : BufferJournal).initialize64 [0] 1 4 = .ok byteJournal
      ∧ Run.Reachable FamilyRun.step (begun byteJournal { elementStride := 1 }) s
      ∧ ¬OneFingerprint s := by
  have h : (Run.exec FamilyRun.step (begun byteJournal { elementStride := 1 }) repeated).any
      (fun s => s.submitted.any fun i => s.submitted.any fun j =>
        decide (i.desiredRevision = j.desiredRevision)
          && !decide (i.requestFingerprint = j.requestFingerprint)) = true := by
    decide +kernel
  obtain ⟨s, hrun, hs⟩ := (Option.any_eq_true _ _).mp h
  obtain ⟨i, hi, hij⟩ := List.any_eq_true.mp hs
  obtain ⟨j, hj, hboth⟩ := List.any_eq_true.mp hij
  simp only [Bool.and_eq_true, decide_eq_true_eq, Bool.not_eq_true', decide_eq_false_iff_not] at hboth
  exact ⟨s, by decide +kernel, Run.exec_reachable hrun,
    fun hone => hboth.2 (hone i hi j hj hboth.1)⟩

/-- Without the acknowledgement in between it has the same one. -/
theorem repeated_agrees :
    ∃ s i j, Run.Within FamilyRun.step SubmitsUncompacted
        (begun byteJournal { elementStride := 1 }) s
      ∧ s.submitted = [i, j] ∧ i.desiredRevision = j.desiredRevision
      ∧ i.requestFingerprint = j.requestFingerprint := by
  let check (r : FamilyRun) (a : FamilyAction) : Bool := decide (SubmitsUncompacted r a)
  have h : (Run.exec (Run.checked FamilyRun.step check) (begun byteJournal { elementStride := 1 })
      (repeated.eraseIdx 3)).any (fun s => match s.submitted with
        | [i, j] => decide (i.desiredRevision = j.desiredRevision)
        | _ => false) = true := by
    decide +kernel
  obtain ⟨s, hrun, hs⟩ := (Option.any_eq_true _ _).mp h
  have hwithin : Run.Within FamilyRun.step SubmitsUncompacted
      (begun byteJournal { elementStride := 1 }) s :=
    Run.exec_checked_within (fun _ _ => of_decide_eq_true) hrun
  have hbegun : ({ elementStride := 1 } : BufferJournal).initialize64 [0] 1 4 = .ok byteJournal := by
    decide +kernel
  have hone : OneFingerprint s := oneFingerprint_of_uncompacted hbegun hwithin
  split at hs
  · rename_i i j hsubmitted
    have hrevision := of_decide_eq_true hs
    refine ⟨s, i, j, hwithin, hsubmitted, hrevision, hone i ?_ j ?_ hrevision⟩
    · rw [hsubmitted]
      exact List.mem_cons_self
    · rw [hsubmitted]
      exact List.mem_cons_of_mem i List.mem_cons_self
  · cases hs

end ModuleServices.Proof
