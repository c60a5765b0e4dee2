import IyaSts.AccessLimits
import IyaSts.AccessLimitsPeriods
import IyaSts.AuthorizationDetails
import IyaSts.AuthorizationDetailsConsented
import IyaSts.AuthorizationDetailsNarrows
import IyaSts.Base64
import IyaSts.Binary64
import IyaSts.Binary64Arithmetic
import IyaSts.Binary64Bits
import IyaSts.Binary64Rounding
import IyaSts.BoundedCorrection
import IyaSts.BoundedHeap
import IyaSts.BoundedLru
import IyaSts.ByteBuffer
import IyaSts.Calendar
import IyaSts.CanonicalCode
import IyaSts.Cbor
import IyaSts.ClientAddress
import IyaSts.ClientAddressTrusts
import IyaSts.ClusterClaims
import IyaSts.ClusterClaimsOnce
import IyaSts.ClusterCounters
import IyaSts.CommitAnnouncer
import IyaSts.CommitAnnouncerKeeps
import IyaSts.CursorCodec
import IyaSts.DemandWalk
import IyaSts.DigitRuns
import IyaSts.DirectoryCodec
import IyaSts.DirectoryCodecFinds
import IyaSts.DirectoryCreateArbiter
import IyaSts.DirectoryCreateArbiterCatchesUp
import IyaSts.DirectoryCreateArbiterDecides
import IyaSts.DirectoryCreateArbiterMissesNone
import IyaSts.DirectoryCreateArbiterRuns
import IyaSts.DirectoryMerge
import IyaSts.DirectoryMergeCreations
import IyaSts.DirectoryMergeCredentials
import IyaSts.DirectoryMergeKeeps
import IyaSts.DirectoryMergeRepeats
import IyaSts.DirectoryMergeRetries
import IyaSts.DistinguishedName
import IyaSts.ExactRun
import IyaSts.Fallible
import IyaSts.GnapAccess
import IyaSts.GnapCovers
import IyaSts.GnapCoversExactly
import IyaSts.GnapModel
import IyaSts.GnapNarrowing
import IyaSts.GnapSpend
import IyaSts.GnapSpendKeeps
import IyaSts.GnapSpendRuns
import IyaSts.GroupLimit
import IyaSts.JsMap
import IyaSts.JsNumber
import IyaSts.JsObject
import IyaSts.Json
import IyaSts.JsonContent
import IyaSts.JsonValue
import IyaSts.KeyedList
import IyaSts.Krb5Asn1
import IyaSts.Krb5Asn1Contents
import IyaSts.Krb5Asn1Elements
import IyaSts.Krb5Asn1RoundTrip
import IyaSts.Krb5Keytab
import IyaSts.Krb5KeytabKeeps
import IyaSts.Krb5KeytabReads
import IyaSts.Krb5Ndr
import IyaSts.Krb5NdrAnswers
import IyaSts.Krb5NdrObjects
import IyaSts.Krb5Pac
import IyaSts.Krb5PacCarries
import IyaSts.Krb5PacClaims
import IyaSts.Krb5PacClaimsAnswers
import IyaSts.Krb5PacClaimsParses
import IyaSts.Krb5PacClaimsRoundTrip
import IyaSts.Krb5PacClaimsSizes
import IyaSts.Krb5PacClaimsWithin
import IyaSts.Krb5PacDelegationReads
import IyaSts.Krb5PacLayout
import IyaSts.Krb5PacMints
import IyaSts.Krb5PacReads
import IyaSts.Krb5PacResigns
import IyaSts.Krb5PacSigning
import IyaSts.Krb5PacSigns
import IyaSts.Krb5PacSlots
import IyaSts.Krb5PacVerifies
import IyaSts.Krb5PacZeroes
import IyaSts.Krb5Primitives
import IyaSts.Krb5Profiles
import IyaSts.LdapMatching
import IyaSts.LdapMatchingHolds
import IyaSts.LdifStream
import IyaSts.LdifStreamAgrees
import IyaSts.LdifStreamMarks
import IyaSts.MergeOrder
import IyaSts.MetadataPolicy
import IyaSts.MetadataPolicyApply
import IyaSts.MetadataPolicyChain
import IyaSts.MetadataPolicyKept
import IyaSts.MetadataPolicyMeanings
import IyaSts.MetadataPolicyMerge
import IyaSts.MetadataPolicyNames
import IyaSts.MetadataPolicyOrder
import IyaSts.MetadataPolicyRefines
import IyaSts.MetadataPolicyResolve
import IyaSts.PersistenceLdif
import IyaSts.PersistenceLdifKeeps
import IyaSts.PersistenceLdifLines
import IyaSts.PersistenceTiers
import IyaSts.PersistenceTiersSplit
import IyaSts.PkiMerge
import IyaSts.PkiMergeKeeps
import IyaSts.PkiMergeNumbers
import IyaSts.PkiMergeRegister
import IyaSts.PkiMergeRegisterKeeps
import IyaSts.PkiMergeRegisterRetries
import IyaSts.PkiMergeRegisterRows
import IyaSts.ProxyProtocol
import IyaSts.ProxyProtocolGate
import IyaSts.ReportFilter
import IyaSts.ReportFilterHolds
import IyaSts.ReportQuery
import IyaSts.ReportRows
import IyaSts.ReportRowsAccepted
import IyaSts.ReportRowsAnswers
import IyaSts.ReportRowsCount
import IyaSts.ReportRowsHidden
import IyaSts.ReportRowsOrder
import IyaSts.RiskModel
import IyaSts.RiskModelOrders
import IyaSts.Selection
import IyaSts.SeqAllocator
import IyaSts.SeqAllocatorInvariant
import IyaSts.SeqAllocatorRises
import IyaSts.SetOperations
import IyaSts.SpacedText
import IyaSts.StrongKleene
import IyaSts.StructuredFields
import IyaSts.StructuredFieldsGrammar
import IyaSts.StructuredFieldsParse
import IyaSts.StructuredFieldsReads
import IyaSts.StructuredFieldsSpells
import IyaSts.TextLines
import IyaSts.TextPattern
import IyaSts.ThreeWay
import IyaSts.TokenMacaroon
import IyaSts.TokenMacaroonNarrows
import IyaSts.Totp
import IyaSts.TotpSpends
import IyaSts.TrustChain
import IyaSts.TrustChainWalks
import IyaSts.TwosComplement
import IyaSts.Utf8
import IyaSts.VcEcdsaSd
import IyaSts.VcEcdsaSdPairs
import IyaSts.VcStatusCbor
import IyaSts.VcStatusCborHeads
import IyaSts.VcStatusCborMeans
import IyaSts.VcStatusCborReads
import IyaSts.VcStatusCborRoundTrip
import IyaSts.VcStatusList
import IyaSts.VcStatusListKeeps
import IyaSts.VcStatusListRefuses
import IyaSts.XacmlCalendar
import IyaSts.XacmlCalendarKeeps
import IyaSts.XacmlCivil
import IyaSts.XacmlCombinersAgree
import IyaSts.XacmlCombining
import IyaSts.XacmlDatatypes
import IyaSts.XacmlDefinite
import IyaSts.XacmlEquality
import IyaSts.XacmlEqualityHolds
import IyaSts.XacmlExpressions
import IyaSts.XacmlExtendedIndeterminate
import IyaSts.XacmlHigherOrder
import IyaSts.XacmlModel
import IyaSts.XacmlObligations
import IyaSts.XacmlPdp
import IyaSts.XacmlPermitEarned
import IyaSts.XacmlRustParses
import IyaSts.XacmlRustRanges
import IyaSts.XacmlStatus
import IyaSts.XacmlTargets
import IyaSts.XacmlTemporal
import IyaSts.XacmlTemporalCompares
import IyaSts.XacmlVariables
import IyaSts.XacmlVariablesAgree
import IyaSts.XacmlVariablesExpand
import IyaSts.XacmlVisits
import IyaSts.XacmlVisitsRead
import IyaSts.XpressFormat
import IyaSts.XpressHuffman
import IyaSts.XpressHuffmanStream
import IyaSts.XpressHuffmanTable
