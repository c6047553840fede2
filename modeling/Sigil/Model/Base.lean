import Mathlib.Data.Vector.Basic
import Sigil.Model.Error

/-! # Keys, clocks and the host

The parts of the Solana runtime the program reads. What lies outside the program, the
hash function and the derivation of program addresses, is a parameter: class `Host`.
-/

namespace Sigil

open Machine Guard

section Checks

-- Checks over options and lists run over their elements, also where the element type is known to
-- be finite.

variable {α : Type} {p : α → Prop} [DecidablePred p]

instance (priority := high) decidableForallMemOption (o : Option α) : Decidable (∀ x ∈ o, p x) :=
  Option.decidableForallMem o

instance (priority := high) decidableForallMemList (l : List α) : Decidable (∀ x ∈ l, p x) :=
  List.decidableBAll p l

instance (priority := high) decidableExistsMemList (l : List α) : Decidable (∃ x ∈ l, p x) :=
  List.decidableBEx p l

instance (priority := high) decidableMemList [DecidableEq α] (x : α) (l : List α) :
    Decidable (x ∈ l) :=
  List.instDecidableMemOfLawfulBEq x l

end Checks

abbrev Pubkey := List.Vector UInt8 32

namespace Pubkey

/-- The all-zero key, which the program reads as "no key". -/
def default : Pubkey := List.Vector.replicate 32 0

def bytes (k : Pubkey) : List UInt8 := k.toList

@[simp] theorem bytes_length (k : Pubkey) : k.bytes.length = 32 := k.toList_length

theorem bytes_injective : Function.Injective bytes := fun j k h => List.Vector.eq j k h

end Pubkey

structure Clock where
  slot : UInt64
  unixTimestamp : ℤ
  inI64 : InI64 unixTimestamp

structure AccountMeta where
  pubkey : Pubkey
  isSigner : Bool
  isWritable : Bool
  deriving DecidableEq

/-- An instruction as the instructions sysvar lists it. -/
structure Instruction where
  programId : Pubkey
  accounts : List AccountMeta
  data : List UInt8
  deriving DecidableEq

/-- The two build features; exactly one is on. -/
inductive Cluster | devnet | mainnet
  deriving DecidableEq, Repr

/-- The code outside the program: the hash behind every digest, whose values are `D`, and
the derivation of program addresses from seeds. -/
class Host (D : Type) where
  cluster : Cluster
  sha256 : List UInt8 → D
  digestBytes : D → List UInt8
  zeroDigest : D
  findProgramAddress : List (List UInt8) → Pubkey → Pubkey

abbrev Result (α : Type) := Except ProgramError α

def fail {α : Type} (e : SigilError) : Result α := .error (.sigil e)

/-- `require!(p, SigilError::e)`. -/
def ensure (p : Prop) [Decidable p] (e : SigilError) : Result Unit := require p (.sigil e)

/-- `x.ok_or(SigilError::e)`. -/
def someOr {α : Type} (e : SigilError) (x : Option α) : Result α := okOr (.sigil e) x

section Peel

variable {α β : Type} {e : SigilError}

@[simp] theorem ensure_ok_iff {p : Prop} [Decidable p] {u : Unit} : ensure p e = .ok u ↔ p :=
  require_ok_iff

theorem ensure_of {p : Prop} [Decidable p] (h : p) : ensure p e = .ok () := require_of h

theorem ensure_seq_ok_iff {p : Prop} [Decidable p] {f : Unit → Result β} {b : β} :
    ensure p e >>= f = .ok b ↔ p ∧ f () = .ok b :=
  require_seq_ok_iff

@[simp] theorem someOr_ok_iff {x : Option α} {a : α} : someOr e x = .ok a ↔ x = some a :=
  okOr_ok_iff

theorem someOr_seq_ok_iff {x : Option α} {f : α → Result β} {b : β} :
    someOr e x >>= f = .ok b ↔ ∃ a, x = some a ∧ f a = .ok b :=
  okOr_seq_ok_iff

@[simp] theorem ensure_error_iff {p : Prop} [Decidable p] {err : ProgramError} :
    ensure p e = .error err ↔ ¬ p ∧ ProgramError.sigil e = err :=
  require_error_iff

theorem ensure_of_not {p : Prop} [Decidable p] (h : ¬ p) : ensure p e = fail e :=
  ensure_error_iff.mpr ⟨h, rfl⟩

@[simp] theorem someOr_error_iff {x : Option α} {err : ProgramError} :
    someOr e x = .error err ↔ x = none ∧ ProgramError.sigil e = err :=
  okOr_error_iff

@[simp] theorem fail_ne_ok {a : α} : fail e ≠ (.ok a : Result α) := nofun

end Peel

end Sigil
