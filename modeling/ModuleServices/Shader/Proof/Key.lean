import ModuleServices.Shader.Key

/-!
# Which requests share a key's bytes

The key's fields follow one another with nothing between them, so the bytes alone do not
say where a field ends. Given the lengths (`RequestShape`) they do. For any two different
sets of lengths with the same sum there are requests that differ and are fed alike.
-/

namespace ModuleServices.Shader

open ModuleServices Encoding

variable {p : Platform}

/-! ## What a compile depends on -/

/-- The fields that can change the compiled binary. -/
structure CompileFields (p : Platform) where
  /-- The inputs' fingerprint, or the source and every dependency's path and content hash. -/
  inputs : Fin (256 ^ 8) ⊕ List UInt8 × List (NativePath p × Fin (256 ^ 8))
  sourceName : List UInt8
  entryPoint : WString p
  target : WString p
  languageVersion : WString p
  format : ShaderBinaryFormat
  debugInfo : Bool
  warningsAsErrors : Bool
  defines : List (WString p × WString p)
  arguments : List (WString p)
  includeDirectories : List (NativePath p)
  deriving DecidableEq

def compileFields (dependencyHash : NativePath p → Fin (256 ^ 8))
    (request : ShaderCompileRequest p) : CompileFields p :=
  { inputs :=
      if request.inputsFingerprint.val ≠ 0 then .inl request.inputsFingerprint
      else .inr (request.source, request.dependencyFiles.map fun d => (d, dependencyHash d))
    sourceName := request.sourceName
    entryPoint := request.entryPoint
    target := request.target
    languageVersion := request.languageVersion
    format := request.format
    debugInfo := request.debugInfo
    warningsAsErrors := request.warningsAsErrors
    defines := request.defines.map fun define => (define.name, define.value)
    arguments := request.arguments
    includeDirectories := request.includeDirectories }

/-- The lengths of a request's fields. -/
structure RequestShape where
  /-- `none` with an inputs' fingerprint, else the source's length and every dependency path's. -/
  inputs : Option (Nat × List Nat)
  sourceName : Nat
  entryPoint : Nat
  target : Nat
  languageVersion : Nat
  defines : List (Nat × Nat)
  arguments : List Nat
  includeDirectories : List Nat
  deriving DecidableEq

def requestShape (request : ShaderCompileRequest p) : RequestShape :=
  { inputs :=
      if request.inputsFingerprint.val ≠ 0 then none
      else some (request.source.length, request.dependencyFiles.map List.length)
    sourceName := request.sourceName.length
    entryPoint := request.entryPoint.length
    target := request.target.length
    languageVersion := request.languageVersion.length
    defines := request.defines.map fun define => (define.name.length, define.value.length)
    arguments := request.arguments.map List.length
    includeDirectories := request.includeDirectories.map List.length }

/-- The number of bytes a request of a shape feeds, the compiler's own at the end left out. -/
def RequestShape.size (p : Platform) (s : RequestShape) : Nat :=
  (match s.inputs with
    | none => 8
    | some (source, dependencies) =>
      source + (dependencies.map fun n => n * p.pathBytes + 8).sum)
  + s.sourceName + (s.entryPoint + s.target + s.languageVersion) * p.wcharBytes + 3
  + (s.defines.map fun d => d.1 * p.wcharBytes + d.2 * p.wcharBytes).sum
  + (s.arguments.map (· * p.wcharBytes)).sum
  + (s.includeDirectories.map (· * p.pathBytes)).sum

/-! ## The fields as one shaped encoding -/

theorem flag_lt (b : Bool) : b.toNat < 256 ^ 1 := by
  cases b <;> decide

theorem flag_read (b : Bool) : ((⟨b.toNat, flag_lt b⟩ : Fin (256 ^ 1)).val != 0) = b := by
  cases b <;> rfl

/-- A byte that is 0 or 1 is the one its flag is fed as. -/
theorem flag_write (n : Fin (256 ^ 1)) (hbits : Bits ((Shaped.unit 1).enc n)) :
    (⟨(n.val != 0).toNat, flag_lt _⟩ : Fin (256 ^ 1)) = n := by
  have hbyte := hbits (UInt8.ofNat n.val) (by show _ ∈ word 1 n.val; simp [word])
  have hlt := n.isLt
  have hn : n.val = 0 ∨ n.val = 1 := by
    rcases hbyte with h | h <;> have h := congrArg UInt8.toNat h <;>
      rw [UInt8.toNat_ofNat'] at h <;> simp at h <;> omega
  apply Fin.ext
  rcases hn with h | h <;> simp [h]

/-- A flag is the byte 0 or 1. -/
def flag : Shaped Bool Unit :=
  Shaped.via (Shaped.unit 1) (fun b => ⟨b.toNat, flag_lt b⟩) (fun n => n.val != 0) flag_read
    flag_write

/-- The format is the byte 0 or 1, too. -/
def format : Shaped ShaderBinaryFormat Unit :=
  flag.via (fun f => f == .spirv) (fun b => if b then .spirv else .dxil)
    (fun f => by cases f <;> rfl) fun b _ => by cases b <;> rfl

/-- What both kinds of key have between the inputs and the dependencies. -/
abbrev Middle (p : Platform) :=
  List UInt8 × WString p × WString p × WString p × ShaderBinaryFormat × Bool × Bool
    × List (WString p × WString p) × List (WString p) × List (NativePath p)

abbrev MiddleShape :=
  Nat × Nat × Nat × Nat × Unit × Unit × Unit × List (Nat × Nat) × List Nat × List Nat

def middle (p : Platform) : Shaped (Middle p) MiddleShape :=
  let text := Shaped.units p.wcharBytes
  .pair .raw <| .pair text <| .pair text <| .pair text <| .pair format <| .pair flag <| .pair flag
    <| .pair (.list (.pair text text)) <| .pair (.list text) (.list (.units p.pathBytes))

/-- A dependency's path and its content hash. -/
def dependencies (p : Platform) :
    Shaped (List (NativePath p × Fin (256 ^ 8))) (List (Nat × Unit)) :=
  .list (.pair (.units p.pathBytes) (.unit 8))

def middleOf (request : ShaderCompileRequest p) : Middle p :=
  (request.sourceName, request.entryPoint, request.target, request.languageVersion, request.format,
    request.debugInfo, request.warningsAsErrors,
    request.defines.map (fun define => (define.name, define.value)), request.arguments,
    request.includeDirectories)

def middleShape (s : RequestShape) : MiddleShape :=
  (s.sourceName, s.entryPoint, s.target, s.languageVersion, (), (), (), s.defines, s.arguments,
    s.includeDirectories)

/-- The compiler's own bytes, at the end of every key. -/
def trailer (compilerFingerprint : Nat) : List UInt8 :=
  word 4 compilerArgumentsVersion ++ word 8 compilerFingerprint

theorem shape_middleOf (request : ShaderCompileRequest p) :
    (middle p).shape (middleOf request) = middleShape (requestShape request) := by
  unfold middle middleOf middleShape requestShape
  simp only [Shaped.pair, Shaped.list, Shaped.raw, Shaped.units, List.map_map]
  rfl

theorem flag_enc (b : Bool) : flag.enc b = [b.toUInt8] := by
  cases b <;> rfl

theorem format_enc (f : ShaderBinaryFormat) : format.enc f = [f.toByte] := by
  cases f <;> rfl

theorem enc_middleOf (request : ShaderCompileRequest p) :
    (middle p).enc (middleOf request) =
      request.sourceName ++ (wideBytes request.entryPoint ++ (wideBytes request.target
      ++ (wideBytes request.languageVersion ++ ([request.format.toByte]
      ++ ([request.debugInfo.toUInt8] ++ ([request.warningsAsErrors.toUInt8]
      ++ (request.defines.flatMap (fun define => wideBytes define.name ++ wideBytes define.value)
      ++ (request.arguments.flatMap wideBytes
      ++ request.includeDirectories.flatMap pathBytes)))))))) := by
  rw [← flag_enc, ← flag_enc, ← format_enc]
  have hdefines : request.defines.flatMap
      (fun define => wideBytes define.name ++ wideBytes define.value)
      = (request.defines.map fun define => (define.name, define.value)).flatMap
        fun a => wideBytes a.1 ++ wideBytes a.2 := by
    rw [List.flatMap_map]
  rw [hdefines]
  rfl

theorem fed_fingerprint {inputs : KeyInputs p} {request : ShaderCompileRequest p}
    (h : request.inputsFingerprint.val ≠ 0) :
    request.fed inputs = (Shaped.pair (.unit 8) (middle p)).enc
      (request.inputsFingerprint, middleOf request) ++ trailer inputs.compilerFingerprint := by
  show _ = (word 8 request.inputsFingerprint.val ++ (middle p).enc (middleOf request)) ++ _
  rw [enc_middleOf]
  unfold ShaderCompileRequest.fed trailer
  simp only [if_pos h, List.append_assoc, List.nil_append]

/-- The dependencies as the key resolves them. -/
def resolved (dependencyHash : NativePath p → Fin (256 ^ 8)) (request : ShaderCompileRequest p) :
    List (NativePath p × Fin (256 ^ 8)) :=
  request.dependencyFiles.map fun d => (d, dependencyHash d)

theorem fed_contents {inputs : KeyInputs p} {request : ShaderCompileRequest p}
    (h : ¬request.inputsFingerprint.val ≠ 0) :
    request.fed inputs = (Shaped.pair .raw (.pair (middle p) (dependencies p))).enc
      (request.source, middleOf request, resolved inputs.dependencyHash request)
        ++ trailer inputs.compilerFingerprint := by
  have hdependencies : (dependencies p).enc (resolved inputs.dependencyHash request)
      = request.dependencyFiles.flatMap fun dependency =>
        pathBytes dependency ++ word 8 (inputs.dependencyHash dependency) := by
    show (request.dependencyFiles.map fun d => (d, inputs.dependencyHash d)).flatMap
      (fun a => pathBytes a.1 ++ word 8 a.2.val) = _
    rw [List.flatMap_map]
  show _ = (request.source ++ ((middle p).enc (middleOf request)
    ++ (dependencies p).enc (resolved inputs.dependencyHash request))) ++ _
  rw [enc_middleOf, hdependencies]
  unfold ShaderCompileRequest.fed trailer
  simp only [if_neg h, List.append_assoc]

/-! ## Requests of one shape -/

theorem size_middle (s : RequestShape) :
    (middle p).size (middleShape s) =
      s.sourceName + (s.entryPoint + s.target + s.languageVersion) * p.wcharBytes + 3
      + (s.defines.map fun d => d.1 * p.wcharBytes + d.2 * p.wcharBytes).sum
      + (s.arguments.map (· * p.wcharBytes)).sum
      + (s.includeDirectories.map (· * p.pathBytes)).sum := by
  rw [Nat.add_mul, Nat.add_mul]
  show s.sourceName + (s.entryPoint * p.wcharBytes + (s.target * p.wcharBytes
    + (s.languageVersion * p.wcharBytes + (1 + (1 + (1
    + ((s.defines.map fun d => d.1 * p.wcharBytes + d.2 * p.wcharBytes).sum
    + ((s.arguments.map (· * p.wcharBytes)).sum
    + (s.includeDirectories.map (· * p.pathBytes)).sum)))))))) = _
  omega

theorem size_fingerprint {s : RequestShape} (h : s.inputs = none) :
    s.size p = 8 + (middle p).size (middleShape s) := by
  rw [size_middle, RequestShape.size, h]
  simp only
  omega

theorem size_contents {s : RequestShape} {source : Nat} {paths : List Nat}
    (h : s.inputs = some (source, paths)) :
    s.size p = source + (middle p).size (middleShape s)
      + (paths.map fun n => n * p.pathBytes + 8).sum := by
  rw [size_middle, RequestShape.size, h]
  simp only
  omega

theorem shape_resolved (dependencyHash : NativePath p → Fin (256 ^ 8))
    (request : ShaderCompileRequest p) :
    (dependencies p).shape (resolved dependencyHash request)
      = request.dependencyFiles.map fun d => (d.length, ()) := by
  show (request.dependencyFiles.map fun d => (d, dependencyHash d)).map
    (fun a => (a.1.length, ())) = _
  rw [List.map_map]
  rfl

theorem size_resolved (request : ShaderCompileRequest p) :
    (dependencies p).size (request.dependencyFiles.map fun d => (d.length, ()))
      = ((request.dependencyFiles.map List.length).map fun n => n * p.pathBytes + 8).sum := by
  show ((request.dependencyFiles.map fun d => (d.length, ())).map
    fun s => s.1 * p.pathBytes + 8).sum = _
  rw [List.map_map, List.map_map]
  rfl

theorem length_trailer (compilerFingerprint : Nat) : (trailer compilerFingerprint).length = 12 := by
  unfold trailer
  rw [List.length_append, length_word, length_word]

theorem inputs_none {request : ShaderCompileRequest p} (h : request.inputsFingerprint.val ≠ 0) :
    (requestShape request).inputs = none :=
  if_pos h

theorem inputs_some {request : ShaderCompileRequest p} (h : ¬request.inputsFingerprint.val ≠ 0) :
    (requestShape request).inputs
      = some (request.source.length, request.dependencyFiles.map List.length) :=
  if_neg h

/-- The shape counts the bytes. -/
theorem length_fed (inputs : KeyInputs p) (request : ShaderCompileRequest p) :
    (request.fed inputs).length = (requestShape request).size p + 12 := by
  by_cases h : request.inputsFingerprint.val ≠ 0
  · rw [fed_fingerprint h, List.length_append, length_trailer, Shaped.length_enc,
      size_fingerprint (inputs_none h), ← shape_middleOf]
    rfl
  · rw [fed_contents h, List.length_append, length_trailer, Shaped.length_enc,
      size_contents (inputs_some h), ← shape_middleOf, ← size_resolved,
      ← shape_resolved inputs.dependencyHash, Nat.add_assoc request.source.length]
    rfl

theorem inputs_fingerprint {r r' : ShaderCompileRequest p}
    (hshape : requestShape r = requestShape r') :
    r.inputsFingerprint.val ≠ 0 ↔ r'.inputsFingerprint.val ≠ 0 := by
  have hinputs := congrArg RequestShape.inputs hshape
  by_cases h : r.inputsFingerprint.val ≠ 0 <;> by_cases h' : r'.inputsFingerprint.val ≠ 0
  · exact iff_of_true h h'
  · rw [inputs_none h, inputs_some h'] at hinputs
    cases hinputs
  · rw [inputs_some h, inputs_none h'] at hinputs
    cases hinputs
  · exact iff_of_false h h'

/-- Between requests of one shape, the bytes determine the fields. -/
theorem fed_injective {compilerFingerprint : Nat} {dep dep' : NativePath p → Fin (256 ^ 8)}
    {r r' : ShaderCompileRequest p} (hshape : requestShape r = requestShape r')
    (hfed : r.fed ⟨compilerFingerprint, dep⟩ = r'.fed ⟨compilerFingerprint, dep'⟩) :
    compileFields dep r = compileFields dep' r' := by
  have hmiddle : (middle p).shape (middleOf r) = (middle p).shape (middleOf r') := by
    rw [shape_middleOf, shape_middleOf, hshape]
  have hfields : ∀ i, middleOf r = middleOf r' → (compileFields dep r).inputs = i →
      (compileFields dep' r').inputs = i → compileFields dep r = compileFields dep' r' := by
    intro i heq hi hi'
    simp only [middleOf, Prod.mk.injEq] at heq
    simp only [compileFields] at hi hi' ⊢
    obtain ⟨h₁, h₂, h₃, h₄, h₅, h₆, h₇, h₈, h₉, h₁₀⟩ := heq
    rw [hi, hi', h₁, h₂, h₃, h₄, h₅, h₆, h₇, h₈, h₉, h₁₀]
  by_cases h : r.inputsFingerprint.val ≠ 0
  · have h' := (inputs_fingerprint hshape).mp h
    rw [fed_fingerprint h, fed_fingerprint h'] at hfed
    have heq := (Shaped.pair (.unit 8) (middle p)).inj (r.inputsFingerprint, middleOf r)
      (r'.inputsFingerprint, middleOf r') (Prod.ext rfl hmiddle) (List.append_cancel_right hfed)
    obtain ⟨hfingerprint, heq⟩ := Prod.mk.inj heq
    exact hfields (.inl r.inputsFingerprint) heq (if_pos h) (by rw [hfingerprint]; exact if_pos h')
  · have h' := fun hne => h ((inputs_fingerprint hshape).mpr hne)
    rw [fed_contents h, fed_contents h'] at hfed
    have hinputs := congrArg RequestShape.inputs hshape
    rw [inputs_some h, inputs_some h', Option.some.injEq, Prod.mk.injEq] at hinputs
    have hresolved : (dependencies p).shape (resolved dep r)
        = (dependencies p).shape (resolved dep' r') := by
      have hmap : ∀ request : ShaderCompileRequest p,
          (request.dependencyFiles.map fun d => (d.length, ()))
            = (request.dependencyFiles.map List.length).map fun n => (n, ()) := fun request => by
        rw [List.map_map]
        rfl
      rw [shape_resolved, shape_resolved, hmap, hmap, hinputs.2]
    have heq := (Shaped.pair .raw (.pair (middle p) (dependencies p))).inj
      (r.source, middleOf r, resolved dep r) (r'.source, middleOf r', resolved dep' r')
      (Prod.ext hinputs.1 (Prod.ext hmiddle hresolved)) (List.append_cancel_right hfed)
    obtain ⟨hsource, heq⟩ := Prod.mk.inj heq
    obtain ⟨heq, hdependencies⟩ := Prod.mk.inj heq
    refine hfields (.inr (r.source, resolved dep r)) heq (if_neg h) ?_
    rw [hsource, hdependencies]
    exact if_neg h'

/-! ## Requests of two shapes -/

theorem bits_marked (k : Nat) : Bits (1 :: List.replicate k 0) := by
  intro b hb
  rcases List.mem_cons.mp hb with rfl | hb
  · exact .inr rfl
  · exact .inl (List.eq_of_mem_replicate hb)

def nul (n : Nat) : Fin (256 ^ n) := ⟨0, Nat.pow_pos (by decide)⟩

theorem units_nul (n k : Nat) :
    (Shaped.units n).enc (List.replicate k (nul n)) = List.replicate (k * n) 0 := by
  show (List.replicate k (nul n)).flatMap (fun c => word n c.val) = _
  induction k with
  | zero => rw [Nat.zero_mul]; rfl
  | succ k ih =>
    rw [List.replicate_succ, List.flatMap_cons, ih, show word n (nul n).val = word n 0 from rfl,
      word_zero, List.replicate_append_replicate, Nat.succ_mul, Nat.add_comm]

/-- Dependencies whose paths and content hashes are zeros. -/
theorem dependencies_nul (paths : List Nat) :
    (dependencies p).enc (paths.map fun k => (List.replicate k (nul p.pathBytes), nul 8))
      = List.replicate (paths.map fun n => n * p.pathBytes + 8).sum 0 := by
  show (paths.map fun k => (List.replicate k (nul p.pathBytes), nul 8)).flatMap
    (fun a => (Shaped.units p.pathBytes).enc a.1 ++ word 8 a.2.val) = _
  induction paths with
  | nil => rfl
  | cons k paths ih =>
    rw [List.map_cons, List.flatMap_cons, ih, units_nul, show word 8 (nul 8).val = word 8 0 from rfl,
      word_zero, List.replicate_append_replicate, List.replicate_append_replicate, List.map_cons,
      List.sum_cons]

/-- A request with given fields. -/
def requestOf (m : Middle p) (source : List UInt8) (dependencyFiles : List (NativePath p))
    (inputsFingerprint : Fin (256 ^ 8)) : ShaderCompileRequest p :=
  { sourceName := m.1
    source
    entryPoint := m.2.1
    target := m.2.2.1
    defines := m.2.2.2.2.2.2.2.1.map fun d => ⟨d.1, d.2⟩
    arguments := m.2.2.2.2.2.2.2.2.1
    includeDirectories := m.2.2.2.2.2.2.2.2.2
    dependencyFiles
    format := m.2.2.2.2.1
    languageVersion := m.2.2.2.1
    debugInfo := m.2.2.2.2.2.1
    warningsAsErrors := m.2.2.2.2.2.2.1
    inputsFingerprint }

theorem middleOf_requestOf (m : Middle p) (source : List UInt8)
    (dependencyFiles : List (NativePath p)) (inputsFingerprint : Fin (256 ^ 8)) :
    middleOf (requestOf m source dependencyFiles inputsFingerprint) = m := by
  unfold middleOf requestOf
  simp [List.map_map, Function.comp_def]

theorem shape_ext {s s' : RequestShape} (hinputs : s.inputs = s'.inputs)
    (hmiddle : middleShape s = middleShape s') : s = s' := by
  cases s
  cases s'
  simp_all [middleShape]

theorem shape_requestOf {s : RequestShape} {m : Middle p} {source : List UInt8}
    {dependencyFiles : List (NativePath p)} {inputsFingerprint : Fin (256 ^ 8)}
    (hm : (middle p).shape m = middleShape s)
    (hinputs : (requestShape (requestOf m source dependencyFiles inputsFingerprint)).inputs
      = s.inputs) :
    requestShape (requestOf m source dependencyFiles inputsFingerprint) = s := by
  refine shape_ext hinputs ?_
  rw [← shape_middleOf, middleOf_requestOf, hm]

theorem size_middle_pos (s : RequestShape) : 0 < (middle p).size (middleShape s) := by
  rw [size_middle]
  omega

/-- The lengths are the fields' own. -/
theorem shape_of_compileFields {dep dep' : NativePath p → Fin (256 ^ 8)}
    {r r' : ShaderCompileRequest p} (h : compileFields dep r = compileFields dep' r') :
    requestShape r = requestShape r' := by
  simp only [compileFields, CompileFields.mk.injEq] at h
  obtain ⟨hinputs, h₁, h₂, h₃, h₄, -, -, -, h₅, h₆, h₇⟩ := h
  refine shape_ext ?_ ?_
  · split at hinputs <;> split at hinputs
    · rename_i h h'
      rw [inputs_none h, inputs_none h']
    · cases hinputs
    · cases hinputs
    · rename_i h h'
      obtain ⟨hsource, hfiles⟩ := Prod.mk.inj (Sum.inr.inj hinputs)
      have hfiles := congrArg (List.map fun d => d.1.length) hfiles
      rw [List.map_map, List.map_map] at hfiles
      rw [inputs_some h, inputs_some h', hsource]
      exact congrArg (fun lengths => some (_, lengths)) hfiles
  · have hdefines := congrArg (List.map fun d => (d.1.length, d.2.length)) h₅
    rw [List.map_map, List.map_map] at hdefines
    simp only [middleShape, requestShape, h₁, h₂, h₃, h₄, h₆, h₇]
    exact congrArg (fun defines => (_, _, _, _, (), (), (), defines, _, _)) hdefines

/-- Whatever the shape, some request of it is fed as the byte 1 and zeros. -/
theorem exists_marked (compilerFingerprint : Nat) (s : RequestShape) :
    ∃ r : ShaderCompileRequest p, requestShape r = s
      ∧ r.fed ⟨compilerFingerprint, fun _ => nul 8⟩
        = 1 :: List.replicate (s.size p - 1) 0 ++ trailer compilerFingerprint := by
  have hpos := size_middle_pos (p := p) s
  cases hinputs : s.inputs with
  | none =>
    obtain ⟨⟨fingerprint, m⟩, hshape, henc⟩ := (Shaped.pair (.unit 8) (middle p)).onto
      ((), middleShape s) (1 :: List.replicate (s.size p - 1) 0)
      (by rw [List.length_cons, List.length_replicate, size_fingerprint hinputs]
          show _ = 8 + (middle p).size (middleShape s)
          omega)
      (bits_marked _)
    have hm : (middle p).shape m = middleShape s := (Prod.mk.inj hshape).2
    -- the fingerprint starts with the byte 1
    have hne : fingerprint.val ≠ 0 := by
      intro hzero
      have henc : word 8 fingerprint.val ++ (middle p).enc m = _ := henc
      rw [hzero] at henc
      exact absurd (List.cons.inj henc).1 (by decide)
    refine ⟨requestOf m [] [] fingerprint, shape_requestOf hm ((if_pos hne).trans hinputs.symm), ?_⟩
    rw [fed_fingerprint hne, middleOf_requestOf]
    exact congrArg (· ++ _) henc
  | some inputs =>
    obtain ⟨source, paths⟩ := inputs
    obtain ⟨⟨bytes, m⟩, hshape, henc⟩ := (Shaped.pair .raw (middle p)).onto
      (source, middleShape s)
      (1 :: List.replicate (source + (middle p).size (middleShape s) - 1) 0)
      (by rw [List.length_cons, List.length_replicate]
          show _ = source + (middle p).size (middleShape s)
          omega)
      (bits_marked _)
    obtain ⟨hsource, hm⟩ := Prod.mk.inj hshape
    have hsource : bytes.length = source := hsource
    have hzero : ¬(nul 8).val ≠ 0 := not_not.mpr rfl
    refine ⟨requestOf m bytes (paths.map fun k => List.replicate k (nul p.pathBytes)) (nul 8),
      shape_requestOf hm ?_, ?_⟩
    · rw [hinputs, inputs_some hzero]
      show some (bytes.length, _) = _
      rw [hsource]
      simp [requestOf, Function.comp_def]
    · rw [fed_contents hzero, middleOf_requestOf]
      have hresolved : resolved (fun _ => nul 8) (requestOf m bytes
          (paths.map fun k => List.replicate k (nul p.pathBytes)) (nul 8))
          = paths.map fun k => (List.replicate k (nul p.pathBytes), nul 8) := by
        unfold resolved requestOf
        rw [List.map_map]
        rfl
      have henc : bytes ++ (middle p).enc m = _ := henc
      show bytes ++ ((middle p).enc m ++ (dependencies p).enc _) ++ _ = _
      rw [hresolved, dependencies_nul, ← List.append_assoc, henc, List.cons_append,
        List.replicate_append_replicate, size_contents hinputs]
      congr 3
      omega

/-- **The keys of two shapes of requests never meet, exactly when the shapes are one or feed different
numbers of bytes.** -/
theorem fed_injective_iff (compilerFingerprint : Nat) (s s' : RequestShape) :
    (∀ (dep dep' : NativePath p → Fin (256 ^ 8)) (r r' : ShaderCompileRequest p),
      requestShape r = s → requestShape r' = s' → compileFields dep r ≠ compileFields dep' r' →
      r.fed ⟨compilerFingerprint, dep⟩ ≠ r'.fed ⟨compilerFingerprint, dep'⟩)
    ↔ s = s' ∨ s.size p ≠ s'.size p := by
  constructor
  · intro h
    by_contra hnot
    obtain ⟨hshape, hsize⟩ := not_or.mp hnot
    have hsize := not_not.mp hsize
    obtain ⟨r, hr, hfed⟩ := exists_marked (p := p) compilerFingerprint s
    obtain ⟨r', hr', hfed'⟩ := exists_marked (p := p) compilerFingerprint s'
    refine h _ _ r r' hr hr' (fun hfields => hshape ?_) (by rw [hfed, hfed', hsize])
    rw [← hr, ← hr']
    exact shape_of_compileFields hfields
  · rintro h dep dep' r r' rfl rfl hfields hfed
    rcases h with hshape | hsize
    · exact hfields (fed_injective hshape hfed)
    · have hlength := congrArg List.length hfed
      rw [length_fed, length_fed] at hlength
      exact hsize (Nat.add_right_cancel hlength)

/-- The macro `A` defined as `B`, and the macro `AB` defined as nothing. -/
def defining (name value : String) : ShaderCompileRequest .linux :=
  { sourceName := [109], entryPoint := wide .linux "main", target := wide .linux "ps_6_6",
    defines := [⟨wide .linux name, wide .linux value⟩] }

/-- The two are compiled with different arguments and get one key. -/
theorem fed_not_injective : ¬∀ (dep dep' : NativePath .linux → Fin (256 ^ 8))
    (r r' : ShaderCompileRequest .linux), compileFields dep r ≠ compileFields dep' r' →
    r.fed ⟨0, dep⟩ ≠ r'.fed ⟨0, dep'⟩ := by
  intro h
  exact h (fun _ => nul 8) (fun _ => nul 8) (defining "A" "B") (defining "AB" "")
    (by decide +kernel) (by decide +kernel)

end ModuleServices.Shader
