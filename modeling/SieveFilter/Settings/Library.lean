import SieveFilter.FileTree
import SieveFilter.Settings.Layer

/-!
# Libraries for settings

What the loading of settings leaves to a library: reading the entries of a settings file, telling what the value
of an environment variable stands for, laying entries over a layer, and converting the value of a setting.
-/

namespace SieveFilter.Settings

open Text (Numeral.maxWord)

/-- A library that settings are loaded with. -/
structure Library where
  /-- The entries of the settings file at a path. -/
  entries : FileTree → String → Except Failure (List (String × Setting))
  /-- The setting that the value of an environment variable stands for. -/
  parse : String → Setting
  /-- A layer with entries laid over it, one after the other. -/
  overlay : List (String × Setting) → Layer → Except Failure Layer
  /-- The setting as a count of at most a bound. -/
  count? : Nat → Setting → Option Nat
  flag? : Setting → Option Bool
  text? : Setting → Option String
  policy? : Setting → Option CostPolicy

namespace Library

/-- The settings in the environment. -/
def ofEnvironment (library : Library) (environment : List (String × String)) : List (String × Setting) :=
  environment.filterMap fun (name, value) =>
    (Layer.ofVariableName? name).map fun key => (key, library.parse value)

/-- The settings that a layer stands for, unless some value has no reading. -/
def settings? (library : Library) (layer : Layer) : Option Settings := do
  let word := library.count? Numeral.maxWord
  let bits := library.count? maxBits
  return {
    rows := ← layer.required "nrels" word
    expectedIdeals := ← layer.optional "expected_ideals" word
    leastRational := ← layer.optional "min_rational" word
    leastAlgebraic := ← layer.optional "min_algebraic" word
    rationalBase := ← layer.required "rlim" word
    algebraicBase := ← layer.required "alim" word
    rationalBits := ← layer.required "lpbr" bits
    algebraicBits := ← layer.required "lpba" bits
    requiredExcess := ← layer.required "min_excess" word
    keptExcess := ← layer.required "keep" word
    raw := ← layer.required "raw" library.flag?
    costPolicy := ← layer.required "cost_policy" library.policy?
    blockCapacity := ← layer.required "block_capacity" word
    logLevel := ← layer.required "log_level" library.text? }

end Library

/-- The file that settings are read from if no other one is named. -/
def defaultFile : String := "purge.toml"

/-- Loads the settings from a file, or from the default one if none is named, and from the environment.  A file
that is not there is no layer; one that is there must be readable. -/
def load (library : Library) (tree : FileTree) (environment : List (String × String))
    (file : Option String) : Except Failure Settings := do
  let path := file.getD defaultFile
  let entries ← if tree.contains path then library.entries tree path else .ok []
  let layer ← library.overlay entries defaultLayer
  let layer ← library.overlay (library.ofEnvironment environment) layer
  match library.settings? layer with
  | some settings => return settings
  | none => throw .settings

end SieveFilter.Settings
