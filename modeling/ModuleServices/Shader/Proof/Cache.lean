import ModuleServices.Shader.Cache

/-!
# What a compile returns

`Load` resizes the artifact's binary before it reads into it, so a file that ends inside its
body leaves the artifact changed and not empty, and every early exit after it returns that.
`entry` is what a file amounts to; everything else follows from it.
-/

namespace ModuleServices.Shader

open ModuleServices Encoding

variable {p : Platform} {cache : ShaderCache} {key : UInt64} {format : ShaderBinaryFormat}

/-- The header of a file of the key and the format, and what follows it: the size and the body. -/
def entry (cache : ShaderCache) (key : UInt64) (format : ShaderBinaryFormat) :
    Option (Nat × List UInt8) :=
  if !cache.directory then none
  else
    match cache.files key with
    | none => none
    | some content =>
      let header := CacheHeader.decode content
      if content.length < CacheHeader.bytes ∨ header.magic ≠ ({} : CacheHeader).magic
          ∨ header.version ≠ 1 ∨ header.key ≠ key.toNat ∨ header.format ≠ format.toByte
          ∨ header.size > 2 ^ 32 then none
      else some (header.size, content.drop CacheHeader.bytes)

/-- A complete valid entry that holds these bytes. -/
def Complete (cache : ShaderCache) (key : UInt64) (format : ShaderBinaryFormat)
    (bytes : List UInt8) : Prop :=
  ∃ size body, entry cache key format = some (size, body) ∧ size ≤ body.length
    ∧ bytes = body.take size

/-- A valid header, and fewer bytes after it than it says. -/
def Truncated (cache : ShaderCache) (key : UInt64) (format : ShaderBinaryFormat) : Prop :=
  ∃ size body, entry cache key format = some (size, body) ∧ body.length < size

/-- What `Load` does, by the entry. -/
theorem load_eq (cache : ShaderCache) (key : UInt64) (format : ShaderBinaryFormat)
    (artifact : ShaderArtifact) :
    cache.load key format artifact =
      match entry cache key format with
      | none => (false, artifact)
      | some (size, body) =>
        if body.length < size then
          (false, { artifact with binary := body.take size ++ List.replicate (size - body.length) 0 })
        else
          (true, { artifact with binary := body.take size, key, format, fromCache := true }) := by
  unfold ShaderCache.load entry
  split
  · rfl
  · cases cache.files key with
    | none => rfl
    | some content =>
      simp only
      split
      · rfl
      · simp only
        split
        · rfl
        · rename_i hlength
          rw [Nat.sub_eq_zero_of_le (Nat.not_lt.mp hlength), List.replicate_zero, List.append_nil]

theorem load_complete {bytes : List UInt8} (h : Complete cache key format bytes)
    (artifact : ShaderArtifact) :
    cache.load key format artifact
      = (true, { artifact with binary := bytes, key, format, fromCache := true }) := by
  obtain ⟨size, body, hentry, hlength, rfl⟩ := h
  rw [load_eq, hentry]
  exact if_neg (Nat.not_lt.mpr hlength)

theorem complete_unique {bytes bytes' : List UInt8} (h : Complete cache key format bytes)
    (h' : Complete cache key format bytes') : bytes = bytes' := by
  obtain ⟨size, body, hentry, -, rfl⟩ := h
  obtain ⟨size', body', hentry', -, rfl⟩ := h'
  rw [hentry, Option.some.injEq, Prod.mk.injEq] at hentry'
  rw [hentry'.1, hentry'.2]

/-- Without a complete entry, `Load` fails; it leaves the artifact alone unless the file is cut off. -/
theorem load_incomplete (h : ∀ bytes, ¬Complete cache key format bytes)
    (artifact : ShaderArtifact) :
    (cache.load key format artifact).1 = false
    ∧ (¬Truncated cache key format → (cache.load key format artifact).2 = artifact) := by
  rw [load_eq]
  cases hentry : entry cache key format with
  | none => exact ⟨rfl, fun _ => rfl⟩
  | some e =>
    obtain ⟨size, body⟩ := e
    have hlength : body.length < size := by
      by_contra hge
      exact h _ ⟨size, body, hentry, Nat.not_lt.mp hge, rfl⟩
    refine ⟨?_, fun hnot => absurd ⟨size, body, hentry, hlength⟩ hnot⟩
    show (if body.length < size then _ else _ : Bool × ShaderArtifact).1 = false
    rw [if_pos hlength]

/-- A cut-off file leaves an empty artifact with a binary. -/
theorem load_truncated (h : Truncated cache key format) (artifact : ShaderArtifact) :
    (cache.load key format artifact).1 = false
    ∧ (cache.load key format artifact).2.binary ≠ [] := by
  obtain ⟨size, body, hentry, hlength⟩ := h
  rw [load_eq, hentry]
  show (if body.length < size then _ else _ : Bool × ShaderArtifact).1 = false
    ∧ (if body.length < size then _ else _ : Bool × ShaderArtifact).2.binary ≠ []
  rw [if_pos hlength]
  refine ⟨rfl, fun hnil => ?_⟩
  have := congrArg List.length hnil
  rw [List.length_append, List.length_replicate, List.length_nil] at this
  omega

theorem not_complete_of_truncated (h : Truncated cache key format) (bytes : List UInt8) :
    ¬Complete cache key format bytes := by
  obtain ⟨size, body, hentry, hlength⟩ := h
  rintro ⟨size', body', hentry', hlength', -⟩
  rw [hentry, Option.some.injEq, Prod.mk.injEq] at hentry'
  rw [← hentry'.1, ← hentry'.2] at hlength'
  omega

/-! ## What `CompileOwned` returns -/

section Results

variable {dxc : Dxc p} {stored : ShaderCache.StoreOutcome} {request : ShaderCompileRequest p}
  {source : List UInt8}

/-- The compile was run and ended with a non-empty object. -/
def Compiled (cache : ShaderCache) (dxc : Dxc p) (request : ShaderCompileRequest p)
    (source : List UInt8) (key : UInt64) : Prop :=
  cache.memory key = none ∧ (∀ bytes, ¬Complete cache key request.format bytes)
    ∧ ∃ diagnostics binary, dxc.run request source = .object diagnostics binary ∧ binary ≠ []

/-- The binary is not empty exactly when one was in memory, or in a complete entry (then that one), or
came out of the compile; and a `Load` that fails leaves its artifact alone. -/
structure Results (cache : ShaderCache) (dxc : Dxc p) (stored : ShaderCache.StoreOutcome)
    (request : ShaderCompileRequest p) (source : List UInt8) (key : UInt64) : Prop where
  binary : (cache.compileOwned dxc stored request source key).1.binary ≠ [] ↔
    (∃ found, cache.memory key = some found ∧ found.binary ≠ [])
    ∨ (∃ bytes, Complete cache key request.format bytes ∧ bytes ≠ [])
    ∨ Compiled cache dxc request source key
  bytes : cache.memory key = none → ∀ bytes, Complete cache key request.format bytes →
    (cache.compileOwned dxc stored request source key).1.binary = bytes
  load : ∀ artifact, (cache.load key request.format artifact).1 = false →
    (cache.load key request.format artifact).2 = artifact

theorem compileOwned_memory {found : ShaderArtifact} (h : cache.memory key = some found) :
    (cache.compileOwned dxc stored request source key).1.binary = found.binary := by
  unfold ShaderCache.compileOwned
  rw [h]

theorem compileOwned_complete {bytes : List UInt8} (hmemory : cache.memory key = none)
    (h : Complete cache key request.format bytes) :
    (cache.compileOwned dxc stored request source key).1.binary = bytes := by
  unfold ShaderCache.compileOwned
  simp only [hmemory, load_complete h, if_pos]

/-- With nothing in the caches the binary is the compile's, or what `Load` left. -/
theorem compileOwned_run (hmemory : cache.memory key = none)
    (h : ∀ bytes, ¬Complete cache key request.format bytes) :
    (cache.compileOwned dxc stored request source key).1.binary =
      match dxc.run request source with
      | .failed _ =>
        (cache.load key request.format { key, format := request.format }).2.binary
      | .object _ binary => binary := by
  have hload := (load_incomplete h { key, format := request.format }).1
  unfold ShaderCache.compileOwned
  simp only [hmemory, hload, Bool.false_eq_true, if_false]
  cases dxc.run request source with
  | failed diagnostics => rfl
  | object diagnostics binary => rfl

/-- **When compile results come only from a hit or a compile**: the file is not cut off inside its
body, and no empty artifact in memory stands before a complete entry. -/
theorem results_iff : Results cache dxc stored request source key ↔
    ¬Truncated cache key request.format
    ∧ ∀ found, cache.memory key = some found → found.binary = [] →
      ∀ bytes, Complete cache key request.format bytes → bytes = [] := by
  constructor
  · intro h
    refine ⟨fun htruncated => ?_, fun found hfound hempty bytes hbytes => ?_⟩
    · obtain ⟨hfalse, hbinary⟩ := load_truncated htruncated {}
      exact hbinary (congrArg ShaderArtifact.binary (h.load {} hfalse))
    · by_contra hne
      have := h.binary.mpr (.inr (.inl ⟨bytes, hbytes, hne⟩))
      rw [compileOwned_memory hfound] at this
      exact this hempty
  · rintro ⟨hwhole, hmemory⟩
    refine ⟨?_, fun hnone bytes hbytes => compileOwned_complete hnone hbytes,
      fun artifact hfalse => ?_⟩
    · cases hfound : cache.memory key with
      | some found =>
        rw [compileOwned_memory hfound]
        constructor
        · exact fun hne => .inl ⟨found, rfl, hne⟩
        · rintro (⟨found', heq, hne⟩ | ⟨bytes, hbytes, hne⟩ | ⟨hnone, -⟩)
          · rw [Option.some.inj heq]
            exact hne
          · exact fun hempty => hne (hmemory found hfound hempty bytes hbytes)
          · rw [hfound] at hnone
            cases hnone
      | none =>
        by_cases hcomplete : ∃ bytes, Complete cache key request.format bytes
        · obtain ⟨bytes, hbytes⟩ := hcomplete
          rw [compileOwned_complete hfound hbytes]
          constructor
          · exact fun hne => .inr (.inl ⟨bytes, hbytes, hne⟩)
          · rintro (⟨found', heq, -⟩ | ⟨bytes', hbytes', hne⟩ | ⟨-, hnot, -⟩)
            · cases heq
            · rw [complete_unique hbytes hbytes']
              exact hne
            · exact absurd hbytes (hnot bytes)
        · have hnot := not_exists.mp hcomplete
          have hload := (load_incomplete hnot { key, format := request.format }).2 hwhole
          rw [compileOwned_run hfound hnot, hload]
          constructor
          · intro hne
            refine .inr (.inr ⟨hfound, hnot, ?_⟩)
            split at hne
            · exact absurd rfl hne
            · exact ⟨_, _, ‹_›, hne⟩
          · rintro (⟨found', heq, -⟩ | ⟨bytes, hbytes, -⟩ | ⟨-, -, diagnostics, binary, hrun, hne⟩)
            · cases heq
            · exact absurd hbytes (hnot bytes)
            · rw [hrun]
              exact hne
    · by_cases hcomplete : ∃ bytes, Complete cache key request.format bytes
      · obtain ⟨bytes, hbytes⟩ := hcomplete
        rw [load_complete hbytes] at hfalse
        cases hfalse
      · exact (load_incomplete (not_exists.mp hcomplete) artifact).2 hwhole

end Results

/-! ## `Store`, then `Load` -/

/-- A header read back, before anything else. -/
theorem decode_encode (header : CacheHeader) (hmagic : header.magic < 256 ^ 4)
    (hversion : header.version < 256 ^ 2) (hkey : header.key < 256 ^ 8)
    (hsize : header.size < 256 ^ 8) (rest : List UInt8) :
    CacheHeader.decode (header.encode ++ rest) = header := by
  obtain ⟨magic, version, format, reserved, key, size⟩ := header
  have hwords : (CacheHeader.mk magic version format reserved key size).encode ++ rest
      = word 4 magic ++ (word 2 version ++ (format :: reserved ::
        (word 8 key ++ (word 8 size ++ rest)))) := by
    simp only [CacheHeader.encode, List.append_assoc, List.cons_append, List.nil_append]
  have hdrop : ∀ (n k x : Nat) (more : List UInt8),
      (word n x ++ more).drop (n + k) = more.drop k := by
    intro n k x more
    rw [← List.drop_drop, List.drop_left' (length_word n x)]
  rw [hwords, CacheHeader.decode]
  have hfirst : (word 4 magic ++ (word 2 version ++ (format :: reserved ::
      (word 8 key ++ (word 8 size ++ rest))))).take 4 = word 4 magic :=
    List.take_left' (length_word 4 magic)
  rw [hfirst, ofWord_word hmagic, hdrop 4 0, List.drop_zero, List.take_left' (length_word 2 version),
    ofWord_word hversion, hdrop 4 4, hdrop 4 12, hdrop 2 2, hdrop 2 10]
  show CacheHeader.mk magic version _ _ (ofWord ((word 8 key ++ (word 8 size ++ rest)).take 8))
    (ofWord (((word 8 key ++ (word 8 size ++ rest)).drop 8).take 8)) = _
  rw [List.take_left' (length_word 8 key), List.drop_left' (length_word 8 key),
    List.take_left' (length_word 8 size), ofWord_word hkey, ofWord_word hsize]
  congr 1

/-- All of the file arrived, and one of the renames did. -/
def Published (stored : ShaderCache.StoreOutcome) : Prop :=
  stored.lost = 0 ∧ (stored.renamed = true ∨ stored.renamedAgain = true)

theorem files_store {artifact : ShaderArtifact} {stored : ShaderCache.StoreOutcome}
    (hdirectory : cache.directory = true) (hne : artifact.binary ≠ []) (h : Published stored) :
    (cache.store artifact stored).directory = true
    ∧ (cache.store artifact stored).files artifact.key = some (ShaderCache.fileOf artifact) := by
  obtain ⟨hlost, hrenamed⟩ := h
  unfold ShaderCache.store
  rw [if_neg (by simp [hdirectory, hne])]
  simp only [hlost, Nat.sub_zero, List.take_length]
  split
  · exact ⟨hdirectory, if_pos rfl⟩
  · rename_i hfirst
    rw [if_pos (hrenamed.resolve_left hfirst)]
    split <;> exact ⟨hdirectory, if_pos rfl⟩

/-- Loading what was stored gives it back, unless it is longer than the loader takes. -/
theorem load_store_iff {artifact loaded : ShaderArtifact} {stored : ShaderCache.StoreOutcome}
    (hdirectory : cache.directory = true) (hne : artifact.binary ≠ []) (h : Published stored)
    (hsize : artifact.binary.length < 256 ^ 8) :
    (cache.store artifact stored).load artifact.key artifact.format loaded
      = (true, { loaded with
          binary := artifact.binary, key := artifact.key, format := artifact.format,
          fromCache := true })
    ↔ artifact.binary.length ≤ 2 ^ 32 := by
  have hstored : (cache.store artifact stored).directory = true
      ∧ (cache.store artifact stored).files artifact.key = some (ShaderCache.fileOf artifact) :=
    files_store hdirectory hne h
  obtain ⟨hdir, hfile⟩ := hstored
  have hkey : artifact.key.toNat < 256 ^ 8 := artifact.key.toNat_lt
  have hdecode := decode_encode
    { format := artifact.format.toByte, key := artifact.key.toNat, size := artifact.binary.length }
    (by show 0x5347524f < 256 ^ 4; decide) (by show 1 < 256 ^ 2; decide) hkey hsize artifact.binary
  have hlength : (ShaderCache.fileOf artifact).length
      = CacheHeader.bytes + artifact.binary.length := by
    unfold ShaderCache.fileOf CacheHeader.encode CacheHeader.bytes
    simp only [List.length_append, length_word, List.length_cons, List.length_nil]
  have hbody : (ShaderCache.fileOf artifact).drop CacheHeader.bytes = artifact.binary := by
    refine List.drop_left' ?_
    unfold CacheHeader.encode CacheHeader.bytes
    simp only [List.length_append, length_word, List.length_cons, List.length_nil]
  have hentry : entry (cache.store artifact stored) artifact.key artifact.format
      = if artifact.binary.length > 2 ^ 32 then none
        else some (artifact.binary.length, artifact.binary) := by
    unfold entry
    rw [if_neg (by rw [hdir]; decide), hfile]
    simp only [show CacheHeader.decode (ShaderCache.fileOf artifact) = _ from hdecode, hbody]
    refine if_congr ?_ rfl rfl
    constructor
    · rintro (hshort | hbad | hbad | hbad | hbad | hlong)
      · omega
      · exact absurd rfl hbad
      · exact absurd rfl hbad
      · exact absurd rfl hbad
      · exact absurd rfl hbad
      · exact hlong
    · exact fun hlong => .inr (.inr (.inr (.inr (.inr hlong))))
  rw [load_eq, hentry]
  by_cases hlong : artifact.binary.length > 2 ^ 32
  · rw [if_pos hlong]
    exact iff_of_false (fun heq => absurd (Prod.mk.inj heq).1 (by decide)) (by omega)
  · rw [if_neg hlong]
    simp only [Nat.lt_irrefl, if_false, List.take_length]
    exact iff_of_true trivial (by omega)

/-- Compile results come only from a hit or a compile exactly where the file is not cut off and no
empty artifact hides a complete entry; and what `Store` publishes is loaded back exactly up to
2^32 bytes. -/
theorem compile_results (cache : ShaderCache) (dxc : Dxc p) (stored : ShaderCache.StoreOutcome)
    (request : ShaderCompileRequest p) (source : List UInt8) (key : UInt64)
    (artifact loaded : ShaderArtifact) :
    (Results cache dxc stored request source key ↔
      ¬Truncated cache key request.format
      ∧ ∀ found, cache.memory key = some found → found.binary = [] →
        ∀ bytes, Complete cache key request.format bytes → bytes = [])
    ∧ (cache.directory = true → artifact.binary ≠ [] → Published stored →
      artifact.binary.length < 256 ^ 8 →
      ((cache.store artifact stored).load artifact.key artifact.format loaded
        = (true, { loaded with
            binary := artifact.binary, key := artifact.key, format := artifact.format,
            fromCache := true })
      ↔ artifact.binary.length ≤ 2 ^ 32)) :=
  ⟨results_iff, load_store_iff⟩

/-- No compiler library was found. -/
def noCompiler : Dxc .linux :=
  { available := false
    hasSpirv := true
    createBlob := fun _ => true
    createIncludeHandler := true
    compile := fun _ _ => none
    vulkanArguments := []
    wstring := fun _ => []
    widen := fun _ => ⟨0, by decide⟩ }

/-- An artifact of three bytes, stored and loaded. -/
theorem compile_results_stored :
    (({} : ShaderCache).store { key := 5, format := .spirv, binary := [3, 2, 1] } {}).load 5 .spirv {}
      = (true, { binary := [3, 2, 1], key := 5, format := .spirv, fromCache := true }) :=
  ((compile_results {} noCompiler {} {} [] 5 { key := 5, format := .spirv, binary := [3, 2, 1] }
    {}).2 rfl (by decide) (by unfold Published; decide) (by decide)).mpr (by decide)

/-- A cache directory whose file of key 1 says two bytes and holds one. -/
def cutOff : ShaderCache :=
  { files := fun key => if key = 1 then some (CacheHeader.encode { key := 1, size := 2 } ++ [7])
      else none }

/-- Without a compiler, the result of the cut-off file looks like a shader. -/
theorem cutOff_result :
    (cutOff.compileOwned noCompiler {} {} [] 1).1.binary = [7, 0]
    ∧ ¬Results cutOff noCompiler {} {} [] 1 := by
  refine ⟨by decide +kernel, fun h => ?_⟩
  have hload := congrArg ShaderArtifact.binary (h.load {} (by decide +kernel))
  exact absurd hload (by decide +kernel)

end ModuleServices.Shader
