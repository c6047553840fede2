import Sigil.Library.SelfDelimiting
import Sigil.Model.Programs

/-! # Foreign accounts

Accounts the program reads but does not own: token accounts, whose stored bytes follow the
layout of the token program, and accounts of which only the owner and the bytes matter.
-/

namespace Sigil

open SelfDelimiting TokenLedger

/-- What an instruction sees of an account. An address without an account belongs to the system
program and holds no data. -/
structure AccountInfo where
  owner : Pubkey
  data : List UInt8
  deriving DecidableEq

def AccountInfo.empty : AccountInfo := ⟨systemProgramId, []⟩

def keyAt (data : List UInt8) (offset : ℕ) : Pubkey :=
  ⟨(data.drop offset ++ List.replicate 32 0).take 32, by simp⟩

def u64At (data : List UInt8) (offset : ℕ) : UInt64 :=
  UInt64.ofNat (ofLeBytes ((data.drop offset).take 8))

/-- The fields the program reads from the raw bytes of a token account. -/
structure TokenView where
  mint : Pubkey
  owner : Pubkey
  amount : UInt64
  deriving DecidableEq

def tokenView (data : List UInt8) : Option TokenView :=
  if 72 ≤ data.length then some ⟨keyAt data 0, keyAt data 32, u64At data 64⟩ else none

/-- An optional field behind a four byte tag. -/
def packOption {α : Type} (size : ℕ) (enc : α → List UInt8) : Option α → List UInt8
  | some v => leBytes 4 1 ++ enc v
  | none => leBytes 4 0 ++ List.replicate size 0

def packToken (t : TokenAccount Pubkey) : List UInt8 :=
  t.mint.bytes ++ (t.owner.bytes ++ (leBytes 8 t.amount.toNat ++
    (packOption 32 Pubkey.bytes t.delegate ++ ([if t.frozen then 2 else 1] ++
    (packOption 8 (fun v => leBytes 8 v.toNat) t.isNative ++
    (leBytes 8 t.delegatedAmount.toNat ++ packOption 32 Pubkey.bytes t.closeAuthority))))))

theorem keyAt_append (k : Pubkey) (front rest : List UInt8) :
    keyAt (front ++ (k.bytes ++ rest)) front.length = k := by
  apply List.Vector.eq
  change ((front ++ (k.bytes ++ rest)).drop front.length ++ List.replicate 32 0).take 32 = k.bytes
  rw [List.drop_left, List.append_assoc, ← k.bytes_length, List.take_left]

theorem u64At_toNat {bytes : List UInt8} (h : bytes.length ≤ 8) :
    (u64At bytes 0).toNat = ofLeBytes bytes := by
  have hlt : ofLeBytes bytes < 2 ^ 64 :=
    (ofLeBytes_lt bytes).trans_le (Nat.pow_le_pow_right (by decide) h)
  rw [u64At, List.drop_zero, List.take_of_length_le h, UInt64.toNat_ofNat', Nat.mod_eq_of_lt hlt]

theorem u64At_append (v : UInt64) (front rest : List UInt8) :
    u64At (front ++ (leBytes 8 v.toNat ++ rest)) front.length = v := by
  have htake : (leBytes 8 v.toNat ++ rest).take 8 = leBytes 8 v.toNat := by
    nth_rewrite 1 [← leBytes_length 8 v.toNat]
    exact List.take_left
  rw [u64At, List.drop_left, htake, ofLeBytes_leBytes v.toNat_lt]
  exact UInt64.ofNat_toNat

@[simp] theorem tokenView_packToken (t : TokenAccount Pubkey) :
    tokenView (packToken t) = some ⟨t.mint, t.owner, t.amount⟩ := by
  have hlen : 72 ≤ (packToken t).length := by
    simp only [packToken, List.length_append, Pubkey.bytes_length, leBytes_length]
    omega
  have hmint : keyAt (packToken t) 0 = t.mint := keyAt_append t.mint [] _
  have howner : keyAt (packToken t) t.mint.bytes.length = t.owner := keyAt_append t.owner _ _
  have hamount : u64At (packToken t) (t.mint.bytes ++ t.owner.bytes).length = t.amount := by
    rw [packToken, ← List.append_assoc]
    exact u64At_append t.amount _ _
  rw [List.length_append, Pubkey.bytes_length, Pubkey.bytes_length] at hamount
  rw [Pubkey.bytes_length] at howner
  rw [tokenView, if_pos hlen, hmint, howner, hamount]

/-- A mint account of the token program, of which the program reads the decimals. -/
def unpackMint (info : AccountInfo) : Option UInt8 :=
  if info.owner = tokenProgramId ∧ info.data.length = 82 ∧ info.data.getD 45 0 = 1 then
    some (info.data.getD 44 0)
  else none

end Sigil
