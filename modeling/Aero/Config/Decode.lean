import Aero.Config
import Aero.Toml
import Aero.Json.Value

/-!
Options from a TOML document, with one table for each section, or from JSON. A section may also list its options in
order; unknown keys and further elements are skipped, and an option that is left out keeps its default.
-/

namespace Aero.Config

open Toml (Value)

/-- The options of a section, as far as they are given. A date has no options. -/
def optionsOf (names : List String) : Value → Option (List (Option Value))
  | .table entries => some (names.map fun name => entries.lookup name)
  | .array elems => some (names.zipIdx.map fun (_, i) => elems[i]?)
  | .datetime => some (names.map fun _ => none)
  | _ => none

def orDefault {α : Type} (default : α) (read : Value → Option α) : Option Value → Option α
  | none => some default
  | some v => read v

def textOf : Value → Option String
  | .str s => some s
  | _ => none

def boolOf : Value → Option Bool
  | .bool b => some b
  | _ => none

def intOf (low high : Int) : Value → Option Int
  | .int n => if low ≤ n && n ≤ high then some n else none
  | _ => none

def natOf (high : Int) (v : Value) : Option Nat := (intOf 0 high v).map Int.toNat

def moduleSection? (v : Value) : Option ModuleOptions := do
  let names := ["suffix", "opt_level", "synthesize_entry", "user_entry", "verify"]
  let default : ModuleOptions := {}
  match ← optionsOf names v with
  | [suffix, optLevel, synthesizeEntry, userEntry, verify] =>
      return {
        suffix := ← orDefault default.suffix textOf suffix
        optLevel := ← orDefault default.optLevel (natOf (UInt8.size - 1)) optLevel
        synthesizeEntry := ← orDefault default.synthesizeEntry boolOf synthesizeEntry
        userEntry := ← orDefault default.userEntry textOf userEntry
        verify := ← orDefault default.verify boolOf verify }
  | _ => none

def runtimeSection? (v : Value) : Option RuntimeOptions := do
  let names := ["tracked_allocation", "fault_exit_code", "max_array_len", "scope_cleanup"]
  let default : RuntimeOptions := {}
  match ← optionsOf names v with
  | [trackedAllocation, faultExitCode, maxArrayLen, scopeCleanup] =>
      return {
        trackedAllocation := ← orDefault default.trackedAllocation boolOf trackedAllocation
        faultExitCode :=
          ← orDefault default.faultExitCode (intOf Int32.minValue.toInt Int32.maxValue.toInt) faultExitCode
        maxArrayLen := ← orDefault default.maxArrayLen (natOf (UInt64.size - 1)) maxArrayLen
        scopeCleanup := ← orDefault default.scopeCleanup boolOf scopeCleanup }
  | _ => none

def inlineSection? (v : Value) : Option InlineOptions := do
  let default : InlineOptions := {}
  match ← optionsOf ["c_compiler", "cxx_compiler"] v with
  | [cCompiler, cxxCompiler] =>
      return {
        cCompiler := ← orDefault default.cCompiler textOf cCompiler
        cxxCompiler := ← orDefault default.cxxCompiler textOf cxxCompiler }
  | _ => none

def ofToml? (v : Value) : Option Config := do
  match ← optionsOf ["module", "runtime", "inline"] v with
  | [module, runtime, inline] =>
      return {
        module := ← orDefault {} moduleSection? module
        runtime := ← orDefault {} runtimeSection? runtime
        inline := ← orDefault {} inlineSection? inline }
  | _ => none

def parse? (text : String) : Option Config := (Toml.parse? text).bind ofToml?

/-! ### Options from JSON -/

def moduleOptions? (j : Json) : Option ModuleOptions := do
  let names := ["suffix", "opt_level", "synthesize_entry", "user_entry", "verify"]
  let default : ModuleOptions := {}
  match ← j.fields? names with
  | [suffix, optLevel, synthesizeEntry, userEntry, verify] =>
      return {
        suffix := ← Json.orElse default.suffix Json.string? suffix
        optLevel := ← Json.orElse default.optLevel (Json.unsigned? UInt8.size) optLevel
        synthesizeEntry := ← Json.orElse default.synthesizeEntry Json.bool? synthesizeEntry
        userEntry := ← Json.orElse default.userEntry Json.string? userEntry
        verify := ← Json.orElse default.verify Json.bool? verify }
  | _ => none

def runtimeOptions? (j : Json) : Option RuntimeOptions := do
  let names := ["tracked_allocation", "fault_exit_code", "max_array_len", "scope_cleanup"]
  let default : RuntimeOptions := {}
  match ← j.fields? names with
  | [trackedAllocation, faultExitCode, maxArrayLen, scopeCleanup] =>
      return {
        trackedAllocation := ← Json.orElse default.trackedAllocation Json.bool? trackedAllocation
        faultExitCode :=
          ← Json.orElse default.faultExitCode (Json.intIn? Int32.minValue.toInt Int32.maxValue.toInt) faultExitCode
        maxArrayLen := ← Json.orElse default.maxArrayLen (Json.unsigned? UInt64.size) maxArrayLen
        scopeCleanup := ← Json.orElse default.scopeCleanup Json.bool? scopeCleanup }
  | _ => none

def inlineOptions? (j : Json) : Option InlineOptions := do
  let default : InlineOptions := {}
  match ← j.fields? ["c_compiler", "cxx_compiler"] with
  | [cCompiler, cxxCompiler] =>
      return {
        cCompiler := ← Json.orElse default.cCompiler Json.string? cCompiler
        cxxCompiler := ← Json.orElse default.cxxCompiler Json.string? cxxCompiler }
  | _ => none

def ofJson? (j : Json) : Option Config := do
  match ← j.fields? ["module", "runtime", "inline"] with
  | [module, runtime, inline] =>
      return {
        module := ← Json.orElse {} moduleOptions? module
        runtime := ← Json.orElse {} runtimeOptions? runtime
        inline := ← Json.orElse {} inlineOptions? inline }
  | _ => none

end Aero.Config
