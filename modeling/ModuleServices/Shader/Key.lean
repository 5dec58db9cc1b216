import ModuleServices.Shader.Request

/-!
# `ShaderCompiler::Impl::Key`

An FNV-1a hash over the request's fields, each fed as it lies in memory.
-/

namespace ModuleServices

variable {p : Platform}

/-- `HashBytes`. -/
def hashBytes (hash : UInt64) (data : List UInt8) : UInt64 :=
  data.foldl (fun hash byte => (hash ^^^ byte.toUInt64) * 1099511628211) hash

/-- `HashValue` of an integer of `n` bytes. -/
def hashValue (n : Nat) (hash : UInt64) (value : Nat) : UInt64 :=
  hashBytes hash (Encoding.word n value)

/-- The memory of a wide string. -/
def wideBytes (value : WString p) : List UInt8 :=
  value.flatMap fun c => Encoding.word p.wcharBytes c.val

/-- The memory of a native path. -/
def pathBytes (value : NativePath p) : List UInt8 :=
  value.flatMap fun c => Encoding.word p.pathBytes c.val

/-- `HashWide`. -/
def hashWide (hash : UInt64) (value : WString p) : UInt64 := hashBytes hash (wideBytes value)

/-- `HashPath`. -/
def hashPath (hash : UInt64) (value : NativePath p) : UInt64 := hashBytes hash (pathBytes value)

def fnvOffset : UInt64 := 1469598103934665603

def compilerArgumentsVersion : Nat := 6

/-- What a compiler adds to a key: its own fingerprint, and `DependencyHash` as the files are now. -/
structure KeyInputs (p : Platform) where
  compilerFingerprint : Nat
  dependencyHash : NativePath p → Fin (256 ^ 8)

/-- `ShaderCompiler::Impl::Key`. -/
def ShaderCompileRequest.key (inputs : KeyInputs p) (request : ShaderCompileRequest p) : UInt64 :=
  let hash :=
    if request.inputsFingerprint.val ≠ 0 then hashValue 8 fnvOffset request.inputsFingerprint
    else hashBytes fnvOffset request.source
  let hash := hashBytes hash request.sourceName
  let hash := hashWide hash request.entryPoint
  let hash := hashWide hash request.target
  let hash := hashWide hash request.languageVersion
  let hash := hashBytes hash [request.format.toByte]
  let hash := hashBytes hash [request.debugInfo.toUInt8]
  let hash := hashBytes hash [request.warningsAsErrors.toUInt8]
  let hash := request.defines.foldl
    (fun hash define => hashWide (hashWide hash define.name) define.value) hash
  let hash := request.arguments.foldl hashWide hash
  let hash := request.includeDirectories.foldl hashPath hash
  let hash :=
    if request.inputsFingerprint.val ≠ 0 then hash
    else request.dependencyFiles.foldl (fun hash dependency =>
      hashValue 8 (hashPath hash dependency) (inputs.dependencyHash dependency)) hash
  let hash := hashValue 4 hash compilerArgumentsVersion
  hashValue 8 hash inputs.compilerFingerprint

/-- The bytes `key` feeds to its hash, in order. -/
def ShaderCompileRequest.fed (inputs : KeyInputs p) (request : ShaderCompileRequest p) :
    List UInt8 :=
  (if request.inputsFingerprint.val ≠ 0 then Encoding.word 8 request.inputsFingerprint
    else request.source)
  ++ request.sourceName ++ wideBytes request.entryPoint ++ wideBytes request.target
  ++ wideBytes request.languageVersion
  ++ [request.format.toByte] ++ [request.debugInfo.toUInt8] ++ [request.warningsAsErrors.toUInt8]
  ++ request.defines.flatMap (fun define => wideBytes define.name ++ wideBytes define.value)
  ++ request.arguments.flatMap wideBytes
  ++ request.includeDirectories.flatMap pathBytes
  ++ (if request.inputsFingerprint.val ≠ 0 then []
    else request.dependencyFiles.flatMap fun dependency =>
      pathBytes dependency ++ Encoding.word 8 (inputs.dependencyHash dependency))
  ++ Encoding.word 4 compilerArgumentsVersion ++ Encoding.word 8 inputs.compilerFingerprint

theorem hashBytes_append (hash : UInt64) (data more : List UInt8) :
    hashBytes hash (data ++ more) = hashBytes (hashBytes hash data) more :=
  List.foldl_append

theorem hashBytes_flatMap {α : Type} (f : α → List UInt8) (hash : UInt64) (values : List α) :
    hashBytes hash (values.flatMap f)
      = values.foldl (fun hash value => hashBytes hash (f value)) hash := by
  induction values generalizing hash with
  | nil => rfl
  | cons value values ih => rw [List.flatMap_cons, hashBytes_append, ih, List.foldl_cons]

/-- The key is the hash of the bytes fed. -/
theorem key_eq (inputs : KeyInputs p) (request : ShaderCompileRequest p) :
    request.key inputs = hashBytes fnvOffset (request.fed inputs) := by
  unfold ShaderCompileRequest.key ShaderCompileRequest.fed hashValue hashPath
  split
  · simp only [hashBytes_append, hashBytes_flatMap]
    rfl
  · simp only [hashBytes_append, hashBytes_flatMap]
    rfl

end ModuleServices
