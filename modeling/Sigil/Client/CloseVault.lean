import Sigil.Lifecycle.Exit
import Sigil.Lifecycle.Incarnation

/-! # Closing a vault through the client

The client asks a node which of the pending accounts of a vault exist and lists those for the close.
An answer that does not come counts as an account that is not there, and an answer may be out of
date when the close runs. What was not reported is left behind by the close.
-/

namespace Sigil.Client

open Guard Trace

section Build

variable (D : Type) [Host D]

variable {D}

variable (D)

end Build

section Close

variable {D : Type} [Host D] {answer : Pubkey → Answer} {vault : Pubkey} {agents : List Pubkey}
  {cosigner : Option Pubkey} {key : Pubkey}

variable {a : VaultAccounts D}

variable {l : Ledger D}

variable [DecidableEq D] {w₀ w : Chain D} {txs : List Transaction} {env : Env} {k : Pubkey}

end Close

section Sample

end Sample

end Sigil.Client
