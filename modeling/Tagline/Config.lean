import Tagline.Kind

/-!
# Configurations

A configuration lists the kinds that are not reported. It is a list and not a set, because a
configuration that is given may name a kind twice; disabling a kind that is disabled changes nothing,
and enabling a kind removes it wherever it is listed.
-/

namespace Tagline

/-- Which kinds of definitions are reported. -/
structure Config where
  /-- The kinds that are not reported. -/
  disabled : List Kind := []
deriving DecidableEq, Repr

namespace Config

def isEnabled (config : Config) (k : Kind) : Bool := !config.disabled.contains k

/-- The configuration with one more kind disabled. -/
def disable (config : Config) (k : Kind) : Config :=
  if config.isEnabled k then ⟨config.disabled ++ [k]⟩ else config

def enable (config : Config) (k : Kind) : Config := ⟨config.disabled.filter (· != k)⟩

/-- A step in building a configuration. -/
inductive Edit where
  | disable (k : Kind)
  | disableAll (ks : List Kind)
  | enable (k : Kind)
  | replace (config : Config)
deriving DecidableEq, Repr

def edit (config : Config) : Edit → Config
  | .disable k => config.disable k
  | .disableAll ks => ks.foldl disable config
  | .enable k => config.enable k
  | .replace new => new

/-- The configuration that some steps build from one that reports all kinds. -/
def build (edits : List Edit) : Config := edits.foldl edit {}

/-! ## Lemmas -/

theorem isEnabled_iff (config : Config) (k : Kind) :
    config.isEnabled k = true ↔ k ∉ config.disabled := by
  unfold isEnabled
  simp

@[simp] theorem mem_disabled_disable (config : Config) (j k : Kind) :
    j ∈ (config.disable k).disabled ↔ j ∈ config.disabled ∨ j = k := by
  unfold disable
  split
  · simp
  · next h =>
    have hk : k ∈ config.disabled := by
      rw [isEnabled_iff] at h
      simpa using h
    constructor
    · exact Or.inl
    · rintro (h | rfl)
      · exact h
      · exact hk

@[simp] theorem mem_disabled_enable (config : Config) (j k : Kind) :
    j ∈ (config.enable k).disabled ↔ j ∈ config.disabled ∧ j ≠ k := by
  unfold enable
  simp

end Config

end Tagline
