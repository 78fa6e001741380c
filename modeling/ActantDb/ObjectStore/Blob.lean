import Mathlib.Data.List.Chain
import ActantDb.Lib.Run

/-!
# Blob stores

What the stores have in common: their errors, the references they return, and which keys may become names of files.
-/

namespace ActantDb

namespace ObjectStore

abbrev Bytes := List UInt8

inductive BlobError where
  | invalidKey (text : String)
  | notFound (text : String)
  | io (text : String)
  | backend (text : String)
  | unavailable (text : String)
deriving DecidableEq, Repr

structure BlobRef where
  uri : String
  size : Nat
  contentHash : String
deriving DecidableEq, Repr

/-- What the crates do: hash the body, and print a text with quotes and escapes. -/
structure BlobCrates where
  sha256Hex : Bytes → String
  debug : String → String

def sampleCrates : BlobCrates := ⟨fun body => String.ofList (body.map fun b => Char.ofNat b.toNat), fun s => s⟩

/-- `put`, `get`, `delete` and `exists`, the latter three by a key or a reference. -/
inductive Op where
  | put (key : String) (body : Bytes)
  | get (keyOrUri : String)
  | delete (keyOrUri : String)
  | exists? (keyOrUri : String)
deriving DecidableEq, Repr

inductive Response where
  | stored (ref : BlobRef)
  | body (bytes : Bytes)
  | deleted
  | found (exists? : Bool)
  | failed (e : BlobError)
deriving DecidableEq, Repr

/-- A dot is not followed by another. -/
def apart (a b : Char) : Bool := !(a = '.' && b = '.')

def isSafeKey (key : String) : Bool :=
  if key = "" ∨ key = "." ∨ key = ".." ∨ key.toList.head? = some '.' then false
  else if ¬ key.toList.IsChain (apart · ·) then false
  else key.toList.all fun c => c.isAlphanum || c = '_' || c = '-' || c = '.'

/-- `strip_prefix`. -/
def stripPrefix (p s : String) : Option String :=
  if p.toList <+: s.toList then some (String.ofList (s.toList.drop p.toList.length)) else none

theorem stripPrefix_append (p s : String) : stripPrefix p (p ++ s) = some s := by
  rw [stripPrefix, String.toList_append, if_pos (List.prefix_append _ _), List.drop_left, String.ofList_toList]

theorem isSafeKey_iff {key : String} : isSafeKey key = true ↔
    key.toList ≠ [] ∧ key.toList.head? ≠ some '.' ∧ key.toList.IsChain (apart · ·) ∧
      ∀ c ∈ key.toList, c.isAlphanum = true ∨ c = '_' ∨ c = '-' ∨ c = '.' := by
  have hempty : key = "" ↔ key.toList = [] := by simp
  have hdot : key = "." → key.toList.head? = some '.' := by rintro rfl; rfl
  have hdots : key = ".." → key.toList.head? = some '.' := by rintro rfl; rfl
  have hall : (key.toList.all fun c => c.isAlphanum || c = '_' || c = '-' || c = '.') = true ↔
      ∀ c ∈ key.toList, c.isAlphanum = true ∨ c = '_' ∨ c = '-' ∨ c = '.' := by
    simp [List.all_eq_true, or_assoc]
  rw [isSafeKey]
  split
  · rename_i hbad
    simp only [Bool.false_eq_true, false_iff]
    rintro ⟨hne, hhead, -⟩
    rcases hbad with h | h | h | h
    · exact hne (hempty.mp h)
    · exact hhead (hdot h)
    · exact hhead (hdots h)
    · exact hhead h
  · rename_i hgood
    have hne : key.toList ≠ [] := fun h => hgood (Or.inl (hempty.mpr h))
    have hhead : key.toList.head? ≠ some '.' := fun h => hgood (Or.inr (Or.inr (Or.inr h)))
    split
    · rename_i hchain
      simp [hchain]
    · rename_i hchain
      rw [not_not] at hchain
      rw [hall]
      exact ⟨fun h => ⟨hne, hhead, hchain, h⟩, fun h => h.2.2.2⟩

end ObjectStore

end ActantDb
