import Sigil.Model.Base

/-! # Well-known keys

The program itself, the programs and mints it recognises, and the discriminators by which it
finds its own instructions in a transaction.
-/

namespace Sigil

/-- `crate::ID`. -/
def programId : Pubkey :=
  ⟨[92, 246, 26, 190, 83, 53, 108, 121, 111, 29, 220, 58, 111, 131, 126, 117, 233, 59, 149, 64,
    175, 74, 241, 181, 150, 224, 136, 32, 104, 248, 78, 66], rfl⟩

/-- The system program has the all-zero key. -/
def systemProgramId : Pubkey := Pubkey.default

def tokenProgramId : Pubkey :=
  ⟨[6, 221, 246, 225, 215, 101, 161, 147, 217, 203, 225, 70, 206, 235, 121, 172, 28, 180, 133,
    237, 95, 91, 55, 145, 58, 140, 245, 133, 126, 255, 0, 169], rfl⟩

def token2022ProgramId : Pubkey :=
  ⟨[6, 221, 246, 225, 238, 117, 143, 222, 24, 66, 93, 188, 228, 108, 205, 218, 182, 26, 252, 77,
    131, 185, 13, 39, 254, 189, 249, 40, 216, 161, 139, 252], rfl⟩

def associatedTokenProgramId : Pubkey :=
  ⟨[140, 151, 37, 143, 78, 36, 137, 241, 187, 61, 16, 41, 20, 142, 13, 131, 11, 90, 19, 153, 218,
    255, 16, 132, 4, 142, 123, 216, 219, 233, 248, 89], rfl⟩

def computeBudgetProgramId : Pubkey :=
  ⟨[3, 6, 70, 111, 229, 33, 23, 50, 255, 236, 173, 186, 114, 195, 155, 231, 188, 140, 229, 187,
    197, 247, 18, 107, 44, 67, 155, 58, 64, 0, 0, 0], rfl⟩

def bpfLoaderUpgradeableId : Pubkey :=
  ⟨[2, 168, 246, 145, 78, 136, 161, 176, 226, 16, 21, 62, 247, 99, 174, 43, 0, 194, 185, 61, 22,
    193, 36, 210, 192, 83, 122, 16, 4, 128, 0, 0], rfl⟩

def jupiterPerpsProgram : Pubkey :=
  ⟨[5, 177, 243, 202, 241, 148, 98, 239, 135, 96, 240, 171, 222, 117, 205, 61, 158, 227, 27, 58,
    50, 198, 32, 232, 148, 18, 46, 156, 155, 129, 69, 250], rfl⟩

def driftV2Program : Pubkey :=
  ⟨[9, 84, 219, 190, 158, 201, 96, 201, 138, 122, 41, 63, 226, 19, 54, 150, 111, 225, 128, 209, 81,
    174, 75, 129, 121, 86, 31, 137, 133, 74, 83, 246], rfl⟩

def driftJitProxyProgram : Pubkey :=
  ⟨[252, 180, 245, 243, 227, 226, 41, 248, 219, 192, 203, 167, 225, 83, 228, 133, 83, 109, 79,
    110, 62, 225, 115, 177, 71, 201, 141, 78, 240, 248, 168, 126], rfl⟩

/-- Programs that fill a request in a later transaction, where no balance check sees it. -/
def knownAsyncFulfillmentPrograms : List Pubkey :=
  [jupiterPerpsProgram, driftV2Program, driftJitProxyProgram]

def protocolTreasury : Cluster → Pubkey
  | .devnet =>
    ⟨[88, 88, 12, 26, 164, 64, 182, 168, 149, 18, 132, 97, 242, 247, 243, 69, 120, 91, 235, 116, 3,
      15, 221, 72, 102, 252, 128, 127, 102, 40, 56, 157], rfl⟩
  | .mainnet =>
    ⟨[102, 115, 120, 152, 65, 88, 210, 76, 7, 220, 80, 231, 112, 6, 22, 32, 26, 4, 137, 55, 84, 52,
      4, 200, 254, 195, 18, 105, 97, 38, 227, 136], rfl⟩

def usdcMint : Cluster → Pubkey
  | .devnet =>
    ⟨[183, 123, 243, 77, 18, 80, 250, 164, 199, 89, 146, 151, 150, 233, 12, 20, 206, 135, 29, 138,
      218, 153, 91, 77, 84, 71, 174, 53, 139, 167, 156, 54], rfl⟩
  | .mainnet =>
    ⟨[198, 250, 122, 243, 190, 219, 173, 58, 61, 101, 243, 106, 171, 201, 116, 49, 177, 187, 228,
      194, 210, 246, 224, 228, 124, 166, 2, 3, 69, 47, 93, 97], rfl⟩

def usdtMint : Cluster → Pubkey
  | .devnet =>
    ⟨[45, 62, 128, 117, 22, 254, 177, 202, 78, 70, 249, 101, 252, 36, 244, 42, 82, 77, 95, 72, 170,
      154, 33, 171, 68, 12, 82, 27, 106, 105, 202, 15], rfl⟩
  | .mainnet =>
    ⟨[206, 1, 14, 96, 175, 237, 178, 39, 23, 189, 99, 25, 47, 84, 20, 90, 63, 150, 90, 51, 187, 130,
      210, 199, 2, 158, 178, 206, 30, 32, 130, 100], rfl⟩

def isStablecoinMint (cluster : Cluster) (mint : Pubkey) : Bool :=
  mint = usdcMint cluster ∨ mint = usdtMint cluster

def isPinnedDepositMint (cluster : Cluster) (mint : Pubkey) : Bool :=
  mint = usdcMint cluster ∨ mint = usdtMint cluster

def finalizeSessionDiscriminator : List UInt8 := [34, 148, 144, 47, 37, 130, 206, 161]

def validateAndAuthorizeDiscriminator : List UInt8 := [22, 183, 48, 222, 218, 11, 197, 152]

def seedBytes (seed : String) : List UInt8 := seed.toList.map fun c => UInt8.ofNat c.toNat

section Addresses

variable (D : Type) [Host D]

def programAddress (seeds : List (List UInt8)) : Pubkey :=
  Host.findProgramAddress D seeds programId

/-- The address of an account a vault has one of. -/
def accountAddress (seed : String) (vault : Pubkey) : Pubkey :=
  programAddress D [seedBytes seed, vault.bytes]

def overlayAddress (vault : Pubkey) : Pubkey :=
  programAddress D [seedBytes "agent_spend", vault.bytes, [0]]

def pendingAgentPermsAddress (vault agent : Pubkey) : Pubkey :=
  programAddress D [seedBytes "pending_agent_perms", vault.bytes, agent.bytes]

def sessionAddress (vault agent mint : Pubkey) : Pubkey :=
  programAddress D [seedBytes "session", vault.bytes, agent.bytes, mint.bytes]

def associatedTokenAddress (wallet mint tokenProgram : Pubkey) : Pubkey :=
  Host.findProgramAddress D [wallet.bytes, tokenProgram.bytes, mint.bytes]
    associatedTokenProgramId

end Addresses

end Sigil
