import Sigil.Library.TokenLedger

/-! # Errors

The program's error codes in their declared order, the errors that the framework raises when
it loads or stores an account, and those of the token program.
-/

namespace Sigil

open TokenLedger

/-- Errors of the program; `SigilError.code` is their number on the wire. -/
inductive SigilError
  | vaultNotActive | unauthorizedAgent | unauthorizedOwner | unsupportedToken
  | protocolNotAllowed | transactionTooLarge | spendingCapExceeded | sessionNotAuthorized
  | invalidSession | tooManyAllowedProtocols | agentAlreadyRegistered | noAgentRegistered
  | vaultNotFrozen | vaultAlreadyClosed | insufficientBalance | developerFeeTooHigh
  | invalidFeeDestination | invalidProtocolTreasury | invalidAgentKey | agentIsOwner | overflow
  | invalidTokenAccount | timelockNotExpired | noTimelockConfigured | destinationNotAllowed
  | tooManyDestinations | invalidProtocolMode | cpiCallNotAllowed | missingFinalizeInstruction
  | nonTrackedSwapMustReturnStablecoin | unauthorizedTokenTransfer | slippageBpsTooHigh
  | protocolMismatch | tooManyDeFiInstructions | maxAgentsReached | insufficientPermissions
  | invalidPermissions | invalidConstraintConfig | agentSpendLimitExceeded | overlaySlotExhausted
  | agentSlotNotFound | unauthorizedTokenApproval | invalidSessionExpiry | protocolCapExceeded
  | protocolCapsMismatch | pendingPolicyExists | agentPaused | agentAlreadyPaused
  | agentNotPaused | unauthorizedPostFinalizeInstruction | unexpectedBalanceDecrease
  | timelockTooShort | policyVersionMismatch | activeSessionsExist | postAssertionFailed
  | invalidPostAssertionIndex | unauthorizedPreValidateInstruction | snapshotNotCaptured
  | invalidConstraintOperator | zeroCopyVaultMismatch | queuedUpdateExpired
  | accountWritabilityMismatch | sysvarScanBoundExceeded | asyncFulfillmentNotPermitted
  | confidentialTransferBlocked | permanentDelegateBlocked | transferHookBlocked
  | lamportDrainBlocked | batchInstructionBlocked | invalidDestinationMode | invalidCapability
  | policyPreviewMismatch | observeOnlyModeBlocksExecute | activeVaultRequiresAllowlist
  | errMintNotPinned | errOutsideOperatingHours | errCooldownActive | errGraylistFriction
  | errGraylistFull | errToken2022ExtensionForbidden | errCosignRequired | errAutoRevoked
  | errSandwichIntegrity | errProtectedWritable | errSessionNonceMismatch
  | errStableFloorViolation | errDailyCapExceeded | errRecipientCapExceeded
  | errMintDeltaCapExceeded | mintDeltaCapMisconfigured | errAtaAuthorityChanged
  | errOutputBelowFloor | errDeclarationInconsistent | ixMetaCountExceeded
  | errPendingOwnershipExists | errPendingOwnershipNotReady | errInvalidFreezeReason
  | errReactivateCooldownActive | errInvalidOwnershipTarget | errTooManyRevokePairs
  | errPostAssertionsNotClosed | errDestinationIsProtectedPda | errIntentDigestMismatch
  | errPendingAgentGrantDigestMismatch | errReactivateCosignRequiredForFullCapability
  | destinationAccountUnresolvable | errToken2022OutputMintUnresolvable
  | errOperatorGrantRequiresTimelock | errOperatorGrantDelayTooLong | invalidOwnerType
  | spendAccountingUnderflow | errMultisigCustodyUnsupported | errOutputNotVaultOwned
  | errFinalizeMetaUnresolvable | errDeFiInstructionNotAdjacentToFinalize | errUnmeasurableSpend
  | errProgramDataUnresolvable | errProgramBuildMismatch | timelockTooLong
  deriving DecidableEq, Repr

/-- Anchor numbers custom errors from 6000 in declaration order. -/
def SigilError.code (e : SigilError) : ℕ := 6000 + e.ctorIdx

/-- Errors of the account validation around a handler. -/
inductive AnchorError
  | accountNotInitialized | accountAlreadyInUse | constraintSeeds | constraintHasOne
  | constraintTokenMint | constraintTokenOwner | accountDidNotSerialize
  deriving DecidableEq, Repr

inductive ProgramError
  | sigil (e : SigilError)
  | anchor (e : AnchorError)
  | token (e : TokenError)
  deriving DecidableEq, Repr

example : SigilError.errMintNotPinned.code = 6074 := rfl

end Sigil
