import Mathlib.Data.Int.ModEq
import Sigil.Client.PolicyDigests

/-! # The digest of an intent

Before it seals a call the client hashes what the owner approved: network, vault, agent, mint,
amount, target and the instructions with all their accounts and data. The encoding can be read back,
except that the amount is cut to 64 bits on its way in.
-/

namespace Sigil.Client

open Fill Guard SelfDelimiting

section Input

inductive Network
  | devnet
  | mainnet
  | unknown (name : String)
  deriving DecidableEq

structure AccountMetaInput where
  address : String
  role : Option ℤ

structure InstructionInput where
  programAddress : String
  accounts : Option (List AccountMetaInput)
  data : Option (List UInt8)

structure SealIntentInput where
  vault : String
  agent : String
  tokenMint : String
  amount : ℤ
  targetProtocol : Option String
  network : Network
  instructions : List InstructionInput

inductive SealError
  | invalidAmount (amount : ℤ)
  | invalidNetwork (network : Network)
  | programAddressRequired (ixIndex : ℕ)
  | addressRequired (ixIndex accountIndex : ℕ)
  | roleRequired (ixIndex accountIndex : ℕ)
  | roleRange (ixIndex accountIndex : ℕ) (role : ℤ)
  | encode (e : EncodeError)
  deriving DecidableEq

end Input

section Encoder

structure DecodedIx where
  programAddress : List UInt8
  accounts : List (List UInt8 × ℤ)
  data : List UInt8

def networkId : Network → ℤ
  | .mainnet => 1
  | .devnet => 0
  | .unknown _ => -1

def decodeAccount (ixIndex accountIndex : ℕ) (acc : AccountMetaInput) :
    Except SealError (List UInt8 × ℤ) := do
  require (acc.address ≠ "") (.addressRequired ixIndex accountIndex)
  let role ← okOr (.roleRequired ixIndex accountIndex) acc.role
  require (0 ≤ role ∧ role ≤ 3) (.roleRange ixIndex accountIndex role)
  let address ← (base58Decode32 acc.address).mapError .encode
  return (address, role)

def decodeIx (ixIndex : ℕ) (ix : InstructionInput) : Except SealError DecodedIx := do
  require (ix.programAddress ≠ "") (.programAddressRequired ixIndex)
  let programAddress ← (base58Decode32 ix.programAddress).mapError .encode
  let accounts ← (ix.accounts.getD []).zipIdx.mapM fun p => decodeAccount ixIndex p.2 p.1
  return ⟨programAddress, accounts, ix.data.getD []⟩

def decodeTarget : Option String → Except EncodeError (List UInt8)
  | none => .ok (List.replicate 32 0)
  | some s => base58Decode32 s

def DecodedIx.size (ix : DecodedIx) : ℕ := 32 + 4 + ix.accounts.length * 33 + 4 + ix.data.length

def writeAccount (acc : List UInt8 × ℤ) : Encoder Unit := do
  setBytes acc.1
  writeU8 acc.2

def writeIx (ix : DecodedIx) : Encoder Unit := do
  setBytes ix.programAddress
  writeList writeAccount ix.accounts
  writeU32Le ix.data.length
  setBytes ix.data

/-- The writes of `computeSealInputDigest`, from the magic "SIG1" and the version on. -/
def writeIntent (network : ℤ) (vault agent tokenMint : List UInt8) (amount : ℤ)
    (targetProtocol : List UInt8) (ixs : List DecodedIx) : Encoder Unit := do
  setBytes [83, 73, 71, 49]
  writeU8 2
  writeU8 network
  setBytes vault
  setBytes agent
  setBytes tokenMint
  writeU64Le amount
  setBytes targetProtocol
  writeList writeIx ixs

/-- The longest byte array that an engine allocates, of which every part has a length that fits in
four bytes. -/
structure Engine where
  maxByteLength : ℕ
  maxByteLength_le : maxByteLength ≤ 2 ^ 32

def computeSealInputDigest (D : Type) [Host D] (engine : Engine) (input : SealIntentInput) :
    Except SealError D := do
  require (0 ≤ input.amount) (.invalidAmount input.amount)
  require (0 ≤ networkId input.network) (.invalidNetwork input.network)
  let vault ← (base58Decode32 input.vault).mapError .encode
  let agent ← (base58Decode32 input.agent).mapError .encode
  let tokenMint ← (base58Decode32 input.tokenMint).mapError .encode
  let targetProtocol ← (decodeTarget input.targetProtocol).mapError .encode
  let ixs ← input.instructions.zipIdx.mapM fun p => decodeIx p.2 p.1
  let size := 4 + 1 + 1 + 32 + 32 + 32 + 8 + 32 + 4 + (ixs.map DecodedIx.size).sum
  require (size ≤ engine.maxByteLength) (.encode .outOfRange)
  let buf ← (encodeExactly size (writeIntent (networkId input.network) vault agent tokenMint
    input.amount targetProtocol ixs)).mapError .encode
  return Host.sha256 buf

end Encoder

section Content

structure IxContent where
  program : Pubkey
  accounts : List (Pubkey × UInt8)
  data : List UInt8
  accounts_lt : accounts.length < 2 ^ 32
  data_lt : data.length < 2 ^ 32

structure IntentContent where
  network : UInt8
  vault : Pubkey
  agent : Pubkey
  tokenMint : Pubkey
  amount : UInt64
  targetProtocol : Pubkey
  instructions : List IxContent
  instructions_lt : instructions.length < 2 ^ 32

def accountBytes (a : Pubkey × UInt8) : List UInt8 := a.1.bytes ++ [a.2]

def IxContent.bytes (x : IxContent) : List UInt8 :=
  x.program.bytes ++ (counted accountBytes x.accounts ++ counted (fun b => [b]) x.data)

def IntentContent.bytes (c : IntentContent) : List UInt8 :=
  [83, 73, 71, 49] ++ ([2] ++ ([c.network] ++ (c.vault.bytes ++ (c.agent.bytes ++
  (c.tokenMint.bytes ++ (leBytes 8 c.amount.toNat ++ (c.targetProtocol.bytes ++
  counted IxContent.bytes c.instructions)))))))

theorem delimits_account : Delimits accountBytes := by
  intro a b x y h
  simp only [accountBytes, List.append_assoc] at h
  obtain ⟨hkey, h⟩ := delimits_pubkey h
  obtain ⟨hrole, h⟩ := delimits_u8 h
  exact ⟨Prod.ext hkey hrole, h⟩

theorem delimits_ixContent : Delimits IxContent.bytes := by
  intro a b x y h
  simp only [IxContent.bytes, List.append_assoc] at h
  obtain ⟨hprogram, h⟩ := delimits_pubkey h
  obtain ⟨haccounts, h⟩ := counted_append_inj delimits_account a.accounts_lt b.accounts_lt h
  obtain ⟨hdata, h⟩ := counted_append_inj delimits_u8 a.data_lt b.data_lt h
  refine ⟨?_, h⟩
  cases a
  cases b
  simp_all only

theorem IntentContent.bytes_injective : Function.Injective IntentContent.bytes := by
  intro c c' h
  unfold bytes at h
  obtain ⟨-, h⟩ := List.append_inj h rfl
  obtain ⟨-, h⟩ := delimits_u8 h
  obtain ⟨hnetwork, h⟩ := delimits_u8 h
  obtain ⟨hvault, h⟩ := delimits_pubkey h
  obtain ⟨hagent, h⟩ := delimits_pubkey h
  obtain ⟨hmint, h⟩ := delimits_pubkey h
  obtain ⟨hamount, h⟩ := delimits_u64 h
  obtain ⟨htarget, h⟩ := delimits_pubkey h
  obtain ⟨hixs, -⟩ := counted_append_inj (x := []) (y := []) delimits_ixContent c.instructions_lt
    c'.instructions_lt (congrArg (· ++ []) h)
  cases c
  cases c'
  simp_all only

end Content

section Meaning

theorem exists_map_of_forall₂ {α β γ : Type} {r : α → γ → Prop} {g : γ → β} {l : List α}
    {l' : List β} (h : List.Forall₂ (fun a b => ∃ c, r a c ∧ b = g c) l l') :
    ∃ cs, List.Forall₂ r l cs ∧ l' = cs.map g := by
  induction h with
  | nil => exact ⟨[], .nil, rfl⟩
  | cons hab _ ih =>
    obtain ⟨c, hc, rfl⟩ := hab
    obtain ⟨cs, hcs, rfl⟩ := ih
    exact ⟨c :: cs, .cons hc hcs, rfl⟩

structure AccountMetaInput.Means (acc : AccountMetaInput) (a : Pubkey × UInt8) : Prop where
  address : TextOf acc.address a.1
  role : acc.role = some (a.2.toNat : ℤ)

/-- The instruction that the caller names; missing accounts or data are empty. -/
structure InstructionInput.Means (ix : InstructionInput) (x : IxContent) : Prop where
  program : TextOf ix.programAddress x.program
  accounts : List.Forall₂ AccountMetaInput.Means (ix.accounts.getD []) x.accounts
  data : ix.data.getD [] = x.data

/-- The intent that the caller names, with its amount cut to 64 bits. -/
structure SealIntentInput.Means (i : SealIntentInput) (c : IntentContent) : Prop where
  network : networkId i.network = c.network.toNat
  vault : TextOf i.vault c.vault
  agent : TextOf i.agent c.agent
  tokenMint : TextOf i.tokenMint c.tokenMint
  amount : (c.amount.toNat : ℤ) = i.amount % 2 ^ 64
  targetProtocol : TextOf (i.targetProtocol.getD zeroKeyText) c.targetProtocol
  instructions : List.Forall₂ InstructionInput.Means i.instructions c.instructions

def IxContent.decoded (x : IxContent) : DecodedIx where
  programAddress := x.program.bytes
  accounts := x.accounts.map fun a => (a.1.bytes, (a.2.toNat : ℤ))
  data := x.data

theorem counted_bytes (data : List UInt8) :
    counted (fun b => [b]) data = leBytes 4 data.length ++ data := by
  rw [counted, List.flatMap_singleton']

theorem emits_writeU8 (b : UInt8) : Emits 0 (writeU8 b.toNat) [b] := by
  rw [writeU8, lowByte_toNat]
  exact emits_put _ _

theorem emits_writeIx (x : IxContent) : Emits 0 (writeIx x.decoded) x.bytes := by
  have haccounts : Emits 0 (writeList writeAccount x.decoded.accounts)
      (counted accountBytes x.accounts) :=
    emits_writeList (List.forall₂_map_left_iff.mpr (List.forall₂_same.mpr fun a _ =>
      (emits_setBytes _).seq (emits_writeU8 a.2)))
  have hlength : Emits 0 (writeU32Le x.data.length) (leBytes 4 x.data.length) := by
    rw [← lowBytes_natCast]
    exact emits_put _ _
  unfold writeIx IxContent.bytes
  rw [counted_bytes]
  exact (emits_setBytes _).seq (haccounts.seq (hlength.seq (emits_setBytes _)))

theorem IxContent.bytes_length (x : IxContent) : x.bytes.length = x.decoded.size := by
  have haccounts : (counted accountBytes x.accounts).length = 4 + x.accounts.length * 33 :=
    counted_length fun a _ => by simp [accountBytes]
  simp only [bytes, counted_bytes, List.length_append, Pubkey.bytes_length, haccounts,
    leBytes_length, DecodedIx.size, decoded, List.length_map]
  omega

theorem decodeAccount_ok {m n : ℕ} {acc : AccountMetaInput} {out : List UInt8 × ℤ}
    (h : decodeAccount m n acc = .ok out) :
    ∃ a : Pubkey × UInt8, acc.Means a ∧ out = (a.1.bytes, (a.2.toNat : ℤ)) := by
  simp only [decodeAccount, seq_ok_iff, require_ok_iff, okOr_ok_iff, mapError_ok_iff,
    exists_and_left, exists_const, pure_ok_iff] at h
  obtain ⟨-, role, hrole, hrange, bytes, hbytes, rfl⟩ := h
  obtain ⟨k, hk, rfl⟩ := exists_textOf hbytes
  -- a role in range is a byte
  have hbyte : ((UInt8.ofNat role.toNat).toNat : ℤ) = role := by
    have hlt : role.toNat < UInt8.size := by
      rw [UInt8.size]
      omega
    rw [UInt8.toNat_ofNat_of_lt' hlt]
    omega
  exact ⟨(k, UInt8.ofNat role.toNat), ⟨hk, by rw [hbyte, hrole]⟩, by rw [hbyte]⟩

theorem decodeIx_ok {n : ℕ} {ix : InstructionInput} {out : DecodedIx}
    (h : decodeIx n ix = .ok out) (hsize : out.size < 2 ^ 32) :
    ∃ x : IxContent, ix.Means x ∧ out = x.decoded := by
  simp only [decodeIx, seq_ok_iff, require_ok_iff, mapError_ok_iff, exists_and_left, exists_const,
    pure_ok_iff] at h
  obtain ⟨-, bytes, hbytes, outs, houts, rfl⟩ := h
  obtain ⟨program, hprogram, rfl⟩ := exists_textOf hbytes
  obtain ⟨accounts, hmeans, rfl⟩ := exists_map_of_forall₂ (r := AccountMetaInput.Means)
    ((forall₂_of_mapM_zipIdx houts).imp fun _ _ ⟨_, hacc⟩ => decodeAccount_ok hacc)
  simp only [DecodedIx.size, List.length_map] at hsize
  exact ⟨⟨program, accounts, ix.data.getD [], by omega, by omega⟩, ⟨hprogram, hmeans, rfl⟩, rfl⟩

theorem networkId_toNat {network : Network} (h : 0 ≤ networkId network) :
    networkId network = (UInt8.ofNat (networkId network).toNat).toNat := by
  cases network with
  | devnet => rfl
  | mainnet => rfl
  | unknown name => exact absurd h (by simp [networkId])

theorem networkId_inj {m n : Network} (hm : 0 ≤ networkId m) (h : networkId m = networkId n) :
    m = n := by
  cases m <;> cases n <;> simp_all [networkId]

theorem exists_target {o : Option String} {bytes : List UInt8} (h : decodeTarget o = .ok bytes) :
    ∃ k, TextOf (o.getD zeroKeyText) k ∧ bytes = k.bytes := by
  cases o with
  | none => exact ⟨Pubkey.default, textOf_zeroKeyText, (Except.ok.inj h).symm⟩
  | some s => exact exists_textOf h

theorem emits_writeIntent (c : IntentContent) {amount : ℤ}
    (hamount : (c.amount.toNat : ℤ) = amount % 2 ^ 64) :
    Emits 0 (writeIntent c.network.toNat c.vault.bytes c.agent.bytes c.tokenMint.bytes amount
      c.targetProtocol.bytes (c.instructions.map IxContent.decoded)) c.bytes := by
  have hwrite : Emits 0 (writeU64Le amount) (leBytes 8 c.amount.toNat) := by
    have hlow : lowBytes 8 amount = leBytes 8 c.amount.toNat := by
      rw [lowBytes, ← Int.toNat_natCast c.amount.toNat, hamount]
      norm_num
    rw [← hlow]
    exact emits_put _ _
  unfold writeIntent IntentContent.bytes
  refine (emits_setBytes _).seq ?_
  refine (emits_writeU8 2).seq ?_
  refine (emits_writeU8 c.network).seq ?_
  refine (emits_setBytes _).seq ?_
  refine (emits_setBytes _).seq ?_
  refine (emits_setBytes _).seq ?_
  refine hwrite.seq ?_
  refine (emits_setBytes _).seq ?_
  exact emits_writeList (List.forall₂_map_left_iff.mpr (List.forall₂_same.mpr fun x _ =>
    emits_writeIx x))

theorem IntentContent.bytes_length (c : IntentContent) : c.bytes.length =
    4 + 1 + 1 + 32 + 32 + 32 + 8 + 32 + 4 +
      ((c.instructions.map IxContent.decoded).map DecodedIx.size).sum := by
  have hixs : (c.instructions.flatMap IxContent.bytes).length =
      ((c.instructions.map IxContent.decoded).map DecodedIx.size).sum := by
    rw [List.length_flatMap, List.map_map]
    exact congrArg List.sum (List.map_congr_left fun x _ => x.bytes_length)
  simp only [bytes, counted, List.length_append, List.length_cons, List.length_nil,
    Pubkey.bytes_length, leBytes_length, hixs]
  omega

theorem computeSealInputDigest_ok {D : Type} [Host D] {engine : Engine} {i : SealIntentInput}
    {d : D} (h : computeSealInputDigest D engine i = .ok d) :
    ∃ c, i.Means c ∧ d = Host.sha256 c.bytes := by
  simp only [computeSealInputDigest, seq_ok_iff, require_ok_iff, mapError_ok_iff, exists_and_left,
    exists_const, pure_ok_iff] at h
  obtain ⟨-, hnetwork, _, hvault, _, hagent, _, hmint, _, htarget, outs, houts, hsize, buf, hbuf,
    rfl⟩ := h
  obtain ⟨vault, hvault, rfl⟩ := exists_textOf hvault
  obtain ⟨agent, hagent, rfl⟩ := exists_textOf hagent
  obtain ⟨tokenMint, hmint, rfl⟩ := exists_textOf hmint
  obtain ⟨target, htext, rfl⟩ := exists_target htarget
  -- what fits in one byte array has lengths that fit in their four bytes
  have hsum : (outs.map DecodedIx.size).sum < 2 ^ 32 := by
    have hbound := engine.maxByteLength_le
    omega
  have hsmall : ∀ out ∈ outs, out.size < 2 ^ 32 := fun out hout =>
    (List.single_le_sum (fun _ _ => Nat.zero_le _) _ (List.mem_map_of_mem hout)).trans_lt hsum
  have hlength : outs.length < 2 ^ 32 := by
    have hcount := List.length_le_sum_of_one_le (outs.map DecodedIx.size) fun n hn => by
      obtain ⟨out, -, rfl⟩ := List.mem_map.mp hn
      rw [DecodedIx.size]
      omega
    rw [List.length_map] at hcount
    exact hcount.trans_lt hsum
  have hboth := (List.forall₂_and_left outs i.instructions).mpr
    ⟨hsmall, (forall₂_of_mapM_zipIdx houts).flip⟩
  obtain ⟨xs, hxs, rfl⟩ := exists_map_of_forall₂ (r := InstructionInput.Means)
    (hboth.flip.imp fun _ _ ⟨hout, _, hix⟩ => decodeIx_ok hix hout)
  rw [List.length_map] at hlength
  let c : IntentContent := ⟨UInt8.ofNat (networkId i.network).toNat, vault, agent, tokenMint,
    UInt64.ofNat (i.amount % 2 ^ 64).toNat, target, xs, hlength⟩
  have hamount : (c.amount.toNat : ℤ) = i.amount % 2 ^ 64 := by
    have hlt : (i.amount % 2 ^ 64).toNat < UInt64.size := by
      rw [UInt64.size]
      omega
    rw [UInt64.toNat_ofNat_of_lt' hlt]
    omega
  rw [networkId_toNat hnetwork] at hbuf
  have hencoded := encodeExactly_of_emits (emits_writeIntent c hamount) c.bytes_length
  obtain rfl := Except.ok.inj (hencoded.symm.trans hbuf)
  exact ⟨c, ⟨networkId_toNat hnetwork, hvault, hagent, hmint, hamount, htext, hxs⟩, rfl⟩

end Meaning

section Binding

/-- An instruction with empty lists for what is missing. -/
def InstructionInput.filled (ix : InstructionInput) : InstructionInput :=
  ⟨ix.programAddress, some (ix.accounts.getD []), some (ix.data.getD [])⟩

/-- The inputs agree in everything that the digest binds, the amount apart: a target that is left
out counts as the system program. -/
structure SealIntentInput.SameButAmount (i j : SealIntentInput) : Prop where
  network : i.network = j.network
  vault : i.vault = j.vault
  agent : i.agent = j.agent
  tokenMint : i.tokenMint = j.tokenMint
  targetProtocol : i.targetProtocol.getD zeroKeyText = j.targetProtocol.getD zeroKeyText
  instructions : i.instructions.map InstructionInput.filled =
    j.instructions.map InstructionInput.filled

theorem AccountMetaInput.Means.eq_iff {acc acc' : AccountMetaInput} {a a' : Pubkey × UInt8}
    (h : acc.Means a) (h' : acc'.Means a') : acc = acc' ↔ a = a' := by
  have hrole : acc.role = acc'.role ↔ a.2 = a'.2 := by
    rw [h.role, h'.role, Option.some_inj, Nat.cast_inj, UInt8.toNat_inj]
  rw [Prod.ext_iff, ← h.address.eq_iff h'.address, ← hrole]
  cases acc
  cases acc'
  simp

theorem forall₂_eq_iff {α β : Type} {r : α → β → Prop}
    (hr : ∀ ⦃a a' b b'⦄, r a b → r a' b' → (a = a' ↔ b = b')) {l m : List α} {l' m' : List β}
    (h : List.Forall₂ r l l') (h' : List.Forall₂ r m m') : l = m ↔ l' = m' := by
  induction h generalizing m m' with
  | nil => cases h' <;> simp
  | cons hab _ ih =>
    cases h' with
    | nil => simp
    | cons hab' htail => rw [List.cons.injEq, List.cons.injEq, hr hab hab', ih htail]

theorem InstructionInput.Means.eq_iff {ix ix' : InstructionInput} {x x' : IxContent}
    (h : ix.Means x) (h' : ix'.Means x') : ix.filled = ix'.filled ↔ x = x' := by
  have haccounts := forall₂_eq_iff (fun _ _ _ _ ha ha' => ha.eq_iff ha') h.accounts h'.accounts
  rw [filled, filled, mk.injEq, Option.some_inj, Option.some_inj, h.program.eq_iff h'.program,
    haccounts, h.data, h'.data]
  cases x
  cases x'
  simp

/-- Two inputs have the same content when they agree and their amounts have the same 64 bits. -/
theorem SealIntentInput.Means.eq_iff {i j : SealIntentInput} {c c' : IntentContent}
    (h : i.Means c) (h' : j.Means c') :
    c = c' ↔ i.SameButAmount j ∧ i.amount ≡ j.amount [ZMOD 2 ^ 64] := by
  have hamount : i.amount ≡ j.amount [ZMOD 2 ^ 64] ↔ c.amount = c'.amount := by
    rw [Int.ModEq, ← h.amount, ← h'.amount, Nat.cast_inj, UInt64.toNat_inj]
  have hnetwork : i.network = j.network ↔ c.network = c'.network := by
    rw [← UInt8.toNat_inj, ← Nat.cast_inj (R := ℤ), ← h.network, ← h'.network]
    refine ⟨congrArg networkId, networkId_inj ?_⟩
    rw [h.network]
    exact Int.natCast_nonneg _
  have hixs : i.instructions.map InstructionInput.filled =
      j.instructions.map InstructionInput.filled ↔ c.instructions = c'.instructions := by
    have hfilled {ixs : List InstructionInput} {xs : List IxContent}
        (hmeans : List.Forall₂ InstructionInput.Means ixs xs) :
        List.Forall₂ (fun ix x => ∃ ix', ix = InstructionInput.filled ix' ∧ ix'.Means x)
          (ixs.map InstructionInput.filled) xs :=
      List.forall₂_map_left_iff.mpr (hmeans.imp fun ix _ hix => ⟨ix, rfl, hix⟩)
    refine forall₂_eq_iff ?_ (hfilled h.instructions) (hfilled h'.instructions)
    rintro _ _ x x' ⟨ix, rfl, hix⟩ ⟨ix', rfl, hix'⟩
    exact hix.eq_iff hix'
  have hsame : i.SameButAmount j ↔ c.network = c'.network ∧ c.vault = c'.vault ∧
      c.agent = c'.agent ∧ c.tokenMint = c'.tokenMint ∧ c.targetProtocol = c'.targetProtocol ∧
      c.instructions = c'.instructions := by
    rw [← hnetwork, ← h.vault.eq_iff h'.vault, ← h.agent.eq_iff h'.agent,
      ← h.tokenMint.eq_iff h'.tokenMint, ← h.targetProtocol.eq_iff h'.targetProtocol, ← hixs]
    exact ⟨fun s => ⟨s.1, s.2, s.3, s.4, s.5, s.6⟩, fun ⟨h₁, h₂, h₃, h₄, h₅, h₆⟩ =>
      ⟨h₁, h₂, h₃, h₄, h₅, h₆⟩⟩
  rw [hsame, hamount]
  cases c
  cases c'
  simp only [IntentContent.mk.injEq]
  constructor
  · rintro ⟨hnet, hvault, hagent, hmint, hcut, htarget, hlist⟩
    exact ⟨⟨hnet, hvault, hagent, hmint, htarget, hlist⟩, hcut⟩
  · rintro ⟨⟨hnet, hvault, hagent, hmint, htarget, hlist⟩, hcut⟩
    exact ⟨hnet, hvault, hagent, hmint, hcut, htarget, hlist⟩

variable {D : Type} [Host D] [IdealHost D] {engine engine' : Engine}

theorem sealInputDigest_eq_iff {i j : SealIntentInput} {d e : D}
    (hi : computeSealInputDigest D engine i = .ok d)
    (hj : computeSealInputDigest D engine' j = .ok e) :
    d = e ↔ i.SameButAmount j ∧ i.amount ≡ j.amount [ZMOD 2 ^ 64] := by
  obtain ⟨c, hc, rfl⟩ := computeSealInputDigest_ok hi
  obtain ⟨c', hc', rfl⟩ := computeSealInputDigest_ok hj
  rw [← hc.eq_iff hc', IdealHost.sha256_injective.eq_iff, IntentContent.bytes_injective.eq_iff]

/-- The digest binds two inputs to each other unless they agree in everything else and their amounts
differ by a multiple of `2 ^ 64`; so it does when both amounts are below that. -/
theorem intent_digest_binds_iff {i j : SealIntentInput} {d e : D}
    (hi : computeSealInputDigest D engine i = .ok d)
    (hj : computeSealInputDigest D engine' j = .ok e) :
    ((d = e → i.SameButAmount j ∧ i.amount = j.amount) ↔
      ¬ (i.SameButAmount j ∧ i.amount ≠ j.amount ∧ i.amount ≡ j.amount [ZMOD 2 ^ 64])) ∧
    (i.amount < 2 ^ 64 → j.amount < 2 ^ 64 → d = e →
      i.SameButAmount j ∧ i.amount = j.amount) := by
  rw [sealInputDigest_eq_iff hi hj]
  have hnonneg {engine : Engine} {k : SealIntentInput} {x : D}
      (hk : computeSealInputDigest D engine k = .ok x) : 0 ≤ k.amount := by
    simp only [computeSealInputDigest, seq_ok_iff, require_ok_iff, exists_and_left] at hk
    exact hk.1
  refine ⟨⟨?_, ?_⟩, ?_⟩
  · rintro hbinds ⟨hsame, hne, hmod⟩
    exact hne (hbinds ⟨hsame, hmod⟩).2
  · rintro hfree ⟨hsame, hmod⟩
    exact ⟨hsame, by_contra fun hne => hfree ⟨hsame, hne, hmod⟩⟩
  · rintro hlt hlt' ⟨hsame, hmod⟩
    rw [Int.ModEq, Int.emod_eq_of_lt (hnonneg hi) hlt, Int.emod_eq_of_lt (hnonneg hj) hlt'] at hmod
    exact ⟨hsame, hmod⟩

end Binding

section Sample

def smallKeyText (c : Char) : String := String.ofList (List.replicate 31 '1' ++ [c])

def sampleIntent (amount : ℤ) : SealIntentInput where
  vault := smallKeyText 'V'
  agent := smallKeyText 'A'
  tokenMint := smallKeyText 'M'
  amount := amount
  targetProtocol := some (smallKeyText 'P')
  network := .mainnet
  instructions := [⟨smallKeyText 'P', some [⟨smallKeyText 'D', some 1⟩], some [1, 2, 3]⟩]

def node20 : Engine := ⟨2 ^ 32, le_rfl⟩

theorem exists_digest_sample : ∀ amount ∈ [(5 : ℤ), 6, 2 ^ 64 + 5],
    ∃ d : Preimage, computeSealInputDigest Preimage node20 (sampleIntent amount) = .ok d := by
  have hok : ∀ amount ∈ [(5 : ℤ), 6, 2 ^ 64 + 5],
      (computeSealInputDigest Preimage node20 (sampleIntent amount)).isOk = true := by
    decide +kernel
  intro amount hamount
  have hdigest := hok amount hamount
  cases h : computeSealInputDigest Preimage node20 (sampleIntent amount) with
  | ok d => exact ⟨d, rfl⟩
  | error e =>
    rw [h] at hdigest
    cases hdigest

theorem intent_digest_binds_iff_sample : ∃ d e : Preimage,
    computeSealInputDigest Preimage node20 (sampleIntent 5) = .ok d ∧
    computeSealInputDigest Preimage node20 (sampleIntent 6) = .ok e ∧ d ≠ e := by
  obtain ⟨d, hd⟩ := exists_digest_sample 5 (by decide)
  obtain ⟨e, he⟩ := exists_digest_sample 6 (by decide)
  obtain ⟨-, hbinds⟩ := intent_digest_binds_iff hd he
  refine ⟨d, e, hd, he, fun heq => ?_⟩
  exact absurd (hbinds (by decide) (by decide) heq).2 (by decide)

/-- An amount and the amount `2 ^ 64` above it have one digest. -/
theorem wrapped_amount_collides :
    (∃ d : Preimage, computeSealInputDigest Preimage node20 (sampleIntent 5) = .ok d ∧
      computeSealInputDigest Preimage node20 (sampleIntent (2 ^ 64 + 5)) = .ok d) ∧
    (sampleIntent 5).amount ≠ (sampleIntent (2 ^ 64 + 5)).amount := by
  obtain ⟨d, hd⟩ := exists_digest_sample 5 (by decide)
  obtain ⟨e, he⟩ := exists_digest_sample (2 ^ 64 + 5) (by decide)
  have hsame : (sampleIntent 5).SameButAmount (sampleIntent (2 ^ 64 + 5)) :=
    ⟨rfl, rfl, rfl, rfl, rfl, rfl⟩
  have heq : d = e := (sealInputDigest_eq_iff hd he).mpr ⟨hsame, by decide⟩
  exact ⟨⟨d, hd, heq ▸ he⟩, by decide⟩

end Sample

end Sigil.Client
