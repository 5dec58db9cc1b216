import ModuleServices.Shader.Request

/-!
# `ShaderCompiler::Impl`: `Load`, `Store` and `CompileOwned`

The memory cache, the cache directory and one compile. The compiler library and the file
system are parameters: what they answer is the environment's.
-/

namespace ModuleServices

open Encoding (word ofWord)

/-! ## The cache file -/

structure CacheHeader where
  magic : Nat := 0x5347524f
  version : Nat := 1
  format : UInt8 := 0
  reserved : UInt8 := 0
  key : Nat := 0
  size : Nat := 0
  deriving DecidableEq, Repr

namespace CacheHeader

/-- `sizeof(CacheHeader)`. -/
def bytes : Nat := 24

/-- The header as it lies in memory. -/
def encode (header : CacheHeader) : List UInt8 :=
  word 4 header.magic ++ word 2 header.version ++ [header.format, header.reserved]
    ++ word 8 header.key ++ word 8 header.size

def decode (content : List UInt8) : CacheHeader :=
  { magic := ofWord (content.take 4)
    version := ofWord ((content.drop 4).take 2)
    format := content.getD 6 0
    reserved := content.getD 7 0
    key := ofWord ((content.drop 8).take 8)
    size := ofWord ((content.drop 16).take 8) }

end CacheHeader

structure ShaderCache where
  /-- Whether there is a cache directory. -/
  directory : Bool := true
  /-- The contents of the file at `CachePath(key)`. -/
  files : UInt64 → Option (List UInt8) := fun _ => none
  memory : UInt64 → Option ShaderArtifact := fun _ => none

namespace ShaderCache

/-- `memory_[key] = artifact`. -/
def remember (cache : ShaderCache) (key : UInt64) (artifact : ShaderArtifact) : ShaderCache :=
  { cache with memory := fun k => if k = key then some artifact else cache.memory k }

def setFile (cache : ShaderCache) (key : UInt64) (content : Option (List UInt8)) : ShaderCache :=
  { cache with files := fun k => if k = key then content else cache.files k }

/-- `Load`: whether it succeeded, and the artifact it was given as it leaves it. -/
def load (cache : ShaderCache) (key : UInt64) (format : ShaderBinaryFormat)
    (artifact : ShaderArtifact) : Bool × ShaderArtifact :=
  if !cache.directory then (false, artifact)
  else
    match cache.files key with
    | none => (false, artifact)
    | some content =>
      let header := CacheHeader.decode content
      if content.length < CacheHeader.bytes ∨ header.magic ≠ ({} : CacheHeader).magic
          ∨ header.version ≠ 1 ∨ header.key ≠ key.toNat ∨ header.format ≠ format.toByte
          ∨ header.size > 2 ^ 32 then
        (false, artifact)
      else
        let body := content.drop CacheHeader.bytes
        -- the binary is resized first, and filled as far as the file goes
        let binary := body.take header.size ++ List.replicate (header.size - body.length) 0
        if body.length < header.size then (false, { artifact with binary })
        else (true, { artifact with binary, key, format, fromCache := true })

/-- How the file system served a `Store`. -/
structure StoreOutcome where
  /-- Bytes at the end that did not reach the temporary. -/
  lost : Nat := 0
  renamed : Bool := true
  removed : Bool := true
  renamedAgain : Bool := true
  deriving DecidableEq, Repr

/-- What `Store` writes. -/
def fileOf (artifact : ShaderArtifact) : List UInt8 :=
  CacheHeader.encode
    { format := artifact.format.toByte, key := artifact.key.toNat, size := artifact.binary.length }
  ++ artifact.binary

/-- `Store`. The temporary has a name of its own, and is gone in the end. -/
def store (cache : ShaderCache) (artifact : ShaderArtifact) (outcome : StoreOutcome) :
    ShaderCache :=
  if !cache.directory ∨ artifact.binary = [] then cache
  else
    let content := (fileOf artifact).take ((fileOf artifact).length - outcome.lost)
    if outcome.renamed then cache.setFile artifact.key (some content)
    else
      let cache := if outcome.removed then cache.setFile artifact.key none else cache
      if outcome.renamedAgain then cache.setFile artifact.key (some content) else cache

end ShaderCache

/-! ## A compile -/

/-- What `IDxcCompiler3::Compile` gives back when it does not fail. -/
structure DxcOutput where
  errors : String
  succeeded : Bool
  object : Option (List UInt8)
  deriving DecidableEq, Repr

/-- The compiler library, and the conversions of its build. -/
structure Dxc (p : Platform) where
  available : Bool
  /-- `ORG_MODULE_SERVICES_HAS_SPIRV`. -/
  hasSpirv : Bool
  createBlob : List UInt8 → Bool
  createIncludeHandler : Bool
  compile : List UInt8 → List (WString p) → Option DxcOutput
  /-- `rhi::AppendVulkanDxcSpirvArguments`. -/
  vulkanArguments : List (WString p)
  /-- `path::wstring`. -/
  wstring : NativePath p → WString p
  /-- A `char` as a `wchar_t`. -/
  widen : UInt8 → Fin (256 ^ p.wcharBytes)

namespace Dxc

variable {p : Platform}

/-- The arguments `CompileOwned` compiles with. -/
def arguments (dxc : Dxc p) (request : ShaderCompileRequest p) : List (WString p) :=
  [wide p "-E", request.entryPoint, wide p "-T", request.target, wide p "-HV",
    if request.languageVersion = [] then wide p "2021" else request.languageVersion]
  ++ (if request.warningsAsErrors then [wide p "-WX"] else [])
  ++ (if request.debugInfo then
      wide p "-Zi" :: (if request.format = .dxil then [wide p "-Qembed_debug"] else [])
    else [])
  ++ (if request.format = .spirv then dxc.vulkanArguments else [])
  ++ request.defines.map (fun define => wide p "-D" ++ define.name
    ++ (if define.value = [] then [] else wide p "=" ++ define.value))
  ++ request.includeDirectories.flatMap (fun directory => [wide p "-I", dxc.wstring directory])
  ++ request.arguments
  ++ (if request.sourceName = [] then [] else [request.sourceName.map dxc.widen])

/-- A DXIL container without a signature. -/
def unsignedContainer (format : ShaderBinaryFormat) (object : List UInt8) : Bool :=
  format = .dxil && 20 ≤ object.length && object.take 4 = "DXBC".toList.map (fun c => c.toUInt8)
    && ((object.drop 4).take 16).all (· == 0)

/-- How the compile of `CompileOwned` ends: on an early exit with the diagnostics, or with an
object. -/
inductive Outcome where
  | failed (diagnostics : String)
  | object (diagnostics : String) (binary : List UInt8)
  deriving DecidableEq, Repr

def run (dxc : Dxc p) (request : ShaderCompileRequest p) (source : List UInt8) : Outcome :=
  if !dxc.available then .failed "dxcompiler.dll is unavailable"
  else if !dxc.hasSpirv ∧ request.format = .spirv then
    .failed "SPIR-V support was not compiled into ORGModuleServices"
  else if !dxc.createBlob source then .failed "DXC failed to create the source blob"
  else if request.includeDirectories ≠ [] ∧ !dxc.createIncludeHandler then
    .failed "DXC invocation failed"
  else
    match dxc.compile source (dxc.arguments request) with
    | none => .failed "DXC invocation failed"
    | some output =>
      if !output.succeeded then .failed output.errors
      else
        match output.object with
        | none => .failed (output.errors ++ "\nDXC produced no object")
        | some binary =>
          if unsignedContainer request.format binary then
            .failed (output.errors ++ "\nDXC produced unsigned DXIL; ensure the matching dxil.dll "
              ++ "validator is available beside dxcompiler.dll")
          else .object output.errors binary

end Dxc

/-- `CompileOwned`: the artifact, and the caches after it. -/
def ShaderCache.compileOwned {p : Platform} (cache : ShaderCache) (dxc : Dxc p)
    (stored : ShaderCache.StoreOutcome) (request : ShaderCompileRequest p) (source : List UInt8)
    (key : UInt64) : ShaderArtifact × ShaderCache :=
  let result : ShaderArtifact := { key, format := request.format }
  match cache.memory key with
  | some found => ({ found with fromCache := true }, cache)
  | none =>
    let (loaded, result) := cache.load key request.format result
    if loaded then (result, cache.remember key result)
    else
      match dxc.run request source with
      | .failed diagnostics => ({ result with diagnostics }, cache)
      | .object diagnostics binary =>
        let result := { result with diagnostics, binary }
        (result, (cache.store result stored).remember key result)

end ModuleServices
