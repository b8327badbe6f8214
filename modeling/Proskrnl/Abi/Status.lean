import Mathlib

/-!
# Status codes

The `NTSTATUS` values of `abi/ntstatus.h` that the modelled services return.
-/

namespace Proskrnl

abbrev NtStatus := UInt32

def statusSuccess : NtStatus := 0x00000000
def statusAbandonedWait0 : NtStatus := 0x00000080
def statusUserApc : NtStatus := 0x000000C0
def statusAlerted : NtStatus := 0x00000101
def statusTimeout : NtStatus := 0x00000102
def statusPending : NtStatus := 0x00000103
def statusMoreEntries : NtStatus := 0x00000105
def statusNotifyEnumDir : NtStatus := 0x0000010C
def statusObjectNameExists : NtStatus := 0x40000000
def statusWorkingSetLimitRange : NtStatus := 0x40000002
def statusDatatypeMisalignment : NtStatus := 0x80000002
def statusBufferOverflow : NtStatus := 0x80000005
def statusNoMoreFiles : NtStatus := 0x80000006
def statusNoMoreEntries : NtStatus := 0x8000001A
def statusUnsuccessful : NtStatus := 0xC0000001
def statusNotImplemented : NtStatus := 0xC0000002
def statusInvalidInfoClass : NtStatus := 0xC0000003
def statusInfoLengthMismatch : NtStatus := 0xC0000004
def statusAccessViolation : NtStatus := 0xC0000005
def statusInPageError : NtStatus := 0xC0000006
def statusInvalidHandle : NtStatus := 0xC0000008
def statusInvalidParameter : NtStatus := 0xC000000D
def statusInvalidDeviceRequest : NtStatus := 0xC0000010
def statusNoMemory : NtStatus := 0xC0000017
def statusConflictingAddresses : NtStatus := 0xC0000018
def statusNotMappedView : NtStatus := 0xC0000019
def statusUnableToFreeVm : NtStatus := 0xC000001A
def statusInvalidFileForSection : NtStatus := 0xC0000020
def statusAlreadyCommitted : NtStatus := 0xC0000021
def statusAccessDenied : NtStatus := 0xC0000022
def statusBufferTooSmall : NtStatus := 0xC0000023
def statusObjectTypeMismatch : NtStatus := 0xC0000024
def statusNotCommitted : NtStatus := 0xC000002D
def statusDiskCorruptError : NtStatus := 0xC0000032
def statusObjectNameInvalid : NtStatus := 0xC0000033
def statusObjectNameNotFound : NtStatus := 0xC0000034
def statusObjectNameCollision : NtStatus := 0xC0000035
def statusObjectPathInvalid : NtStatus := 0xC0000039
def statusObjectPathNotFound : NtStatus := 0xC000003A
def statusObjectPathSyntaxBad : NtStatus := 0xC000003B
def statusSharingViolation : NtStatus := 0xC0000043
def statusInvalidPageProtection : NtStatus := 0xC0000045
def statusThreadIsTerminating : NtStatus := 0xC000004B
def statusFileLockConflict : NtStatus := 0xC0000054
def statusDeletePending : NtStatus := 0xC0000056
def statusUnknownRevision : NtStatus := 0xC0000058
def statusCantDisableMandatory : NtStatus := 0xC000005D
def statusPrivilegeNotHeld : NtStatus := 0xC0000061
def statusInvalidAcl : NtStatus := 0xC0000077
def statusInvalidSecurityDescr : NtStatus := 0xC0000079
def statusInvalidImageFormat : NtStatus := 0xC000007B
def statusRangeNotLocked : NtStatus := 0xC000007E
def statusDiskFull : NtStatus := 0xC000007F
def statusInsufficientResources : NtStatus := 0xC000009A
def statusFreeVmNotAtBase : NtStatus := 0xC000009F
def statusMemoryNotAllocated : NtStatus := 0xC00000A0
def statusDeviceNotReady : NtStatus := 0xC00000A3
def statusBadImpersonationLevel : NtStatus := 0xC00000A5
def statusInstanceNotAvailable : NtStatus := 0xC00000AB
def statusPipeNotAvailable : NtStatus := 0xC00000AC
def statusInvalidPipeState : NtStatus := 0xC00000AD
def statusPipeBusy : NtStatus := 0xC00000AE
def statusIllegalFunction : NtStatus := 0xC00000AF
def statusPipeDisconnected : NtStatus := 0xC00000B0
def statusPipeClosing : NtStatus := 0xC00000B1
def statusPipeConnected : NtStatus := 0xC00000B2
def statusPipeListening : NtStatus := 0xC00000B3
def statusInvalidReadMode : NtStatus := 0xC00000B4
def statusIoTimeout : NtStatus := 0xC00000B5
def statusFileIsADirectory : NtStatus := 0xC00000BA
def statusPipeEmpty : NtStatus := 0xC00000D9
def statusGenericNotMapped : NtStatus := 0xC00000E6
def statusInvalidParameter1 : NtStatus := 0xC00000EF
def statusInvalidParameter2 : NtStatus := 0xC00000F0
def statusInvalidParameter3 : NtStatus := 0xC00000F1
def statusInvalidParameter4 : NtStatus := 0xC00000F2
def statusDirectoryNotEmpty : NtStatus := 0xC0000101
def statusNotADirectory : NtStatus := 0xC0000103
def statusNameTooLong : NtStatus := 0xC0000106
def statusCancelled : NtStatus := 0xC0000120
def statusCannotDelete : NtStatus := 0xC0000121
def statusFileClosed : NtStatus := 0xC0000128
def statusInvalidImageNotMz : NtStatus := 0xC000012F
def statusInvalidConnection : NtStatus := 0xC0000140
def statusPipeBroken : NtStatus := 0xC000014B
def statusNotRegistryFile : NtStatus := 0xC000015C
def statusKeyDeleted : NtStatus := 0xC000017C
def statusChildMustBeVolatile : NtStatus := 0xC0000181
def statusInvalidBufferSize : NtStatus := 0xC0000206
def statusConnectionRefused : NtStatus := 0xC0000236
def statusUserMappedFile : NtStatus := 0xC0000243

/-- The sign bit of the code is clear. -/
def ntSuccess (status : NtStatus) : Bool := status < 0x80000000

end Proskrnl
