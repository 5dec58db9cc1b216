import ModuleServices.Lib.Encoding

/-!
# Shader compile requests and artifacts

Wide strings and native paths are lists of the platform's code units: `wchar_t` has two or
four bytes, a path's `value_type` one or two. A narrow string is its bytes.
-/

namespace ModuleServices

/-- What the build's character types are. -/
structure Platform where
  /-- `sizeof(wchar_t)`. -/
  wcharBytes : Nat
  /-- `sizeof(path::value_type)`. -/
  pathBytes : Nat

namespace Platform

/-- A Windows build, and a Linux one. -/
def windows : Platform := { wcharBytes := 2, pathBytes := 2 }

def linux : Platform := { wcharBytes := 4, pathBytes := 1 }

end Platform

variable {p : Platform}

abbrev WString (p : Platform) := List (Fin (256 ^ p.wcharBytes))

abbrev NativePath (p : Platform) := List (Fin (256 ^ p.pathBytes))

/-- A wide literal. -/
def wide (p : Platform) (text : String) : WString p :=
  text.toList.map fun c => ⟨c.toNat % 256 ^ p.wcharBytes, Nat.mod_lt _ (Nat.pow_pos (by decide))⟩

inductive ShaderBinaryFormat where
  | dxil | spirv
  deriving DecidableEq, Repr

namespace ShaderBinaryFormat

/-- The `uint8_t` behind it. -/
def toByte : ShaderBinaryFormat → UInt8
  | dxil => 0
  | spirv => 1

end ShaderBinaryFormat

structure ShaderDefine (p : Platform) where
  name : WString p
  value : WString p
  deriving DecidableEq

structure ShaderCompileRequest (p : Platform) where
  sourceName : List UInt8 := []
  source : List UInt8 := []
  entryPoint : WString p := []
  target : WString p := []
  defines : List (ShaderDefine p) := []
  arguments : List (WString p) := []
  includeDirectories : List (NativePath p) := []
  dependencyFiles : List (NativePath p) := []
  format : ShaderBinaryFormat := .dxil
  languageVersion : WString p := wide p "2021"
  debugInfo : Bool := false
  warningsAsErrors : Bool := true
  /-- When nonzero, the key uses it instead of the source and the dependency files. -/
  inputsFingerprint : Fin (256 ^ 8) := ⟨0, by decide⟩
  deriving DecidableEq

structure ShaderArtifact where
  key : UInt64 := 0
  format : ShaderBinaryFormat := .dxil
  binary : List UInt8 := []
  diagnostics : String := ""
  fromCache : Bool := false
  deriving DecidableEq, Repr

end ModuleServices
