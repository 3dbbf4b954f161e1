import PiJade.Machine
import PiJade.Bytes
import PiJade.InputGate
import PiJade.SettingsStore
import PiJade.SettingsRuns
import PiJade.SettingsCodec
import PiJade.SettingsLoader
import PiJade.SettingsRoundTrip
import PiJade.Process
import PiJade.Wallet
import PiJade.Address
import PiJade.Radix
import PiJade.Rounding
import PiJade.Amounts
import PiJade.Psbt
import PiJade.SignPsbt
import PiJade.PsbtInputs
import PiJade.PsbtOutputs
import PiJade.PsbtScreens
import PiJade.PsbtRuns
import PiJade.PsbtChange
import PiJade.PsbtConsent
import PiJade.PsbtCrash
import PiJade.Storage
import PiJade.StorageWrites
import PiJade.StorageFields
import PiJade.Keychain
import PiJade.KeychainRuns
import PiJade.PinAttempts
import PiJade.KeychainBlob
import PiJade.KeychainRoundTrip
import PiJade.KeychainSlots
import PiJade.KeychainCaches
import PiJade.Base32
import PiJade.Bbqr
import PiJade.BbqrContext
import PiJade.BbqrTransfer
import PiJade.Shamir
import PiJade.Gf256
import PiJade.Interpolation
import PiJade.ShamirInterpolate
import PiJade.Slip39
import PiJade.Slip39Collector
import PiJade.Slip39Recovery
import PiJade.Wire
import PiJade.WireFraming
import PiJade.CborRequests
import PiJade.WireRequests
import PiJade.Text
import PiJade.Json
import PiJade.DescriptorText
import PiJade.JsonMembers
import PiJade.JsonScan
import PiJade.DescriptorMemory
import PiJade.DescriptorKeys
import PiJade.DescriptorBounds
import PiJade.DescriptorTokens
import PiJade.DescriptorRespelling
import PiJade.DescriptorFaithful
import PiJade.MultisigFile
import PiJade.MultisigExport
import PiJade.Walk
import PiJade.Registration
import PiJade.RegistrationCodec
import PiJade.RegistrationRecords
import PiJade.BcurIcons
import PiJade.BcurSequence
import PiJade.BcurScan
import PiJade.Sha256
import PiJade.MinerHash
import PiJade.Miner
import PiJade.MinerRuns
import PiJade.MinerConsensus
import PiJade.Mnemonic
import PiJade.MnemonicDigits
import PiJade.MnemonicWords
import PiJade.MnemonicExpand
import PiJade.MnemonicBackups
import PiJade.MnemonicMemory
import PiJade.MnemonicPhrases
import PiJade.Cbor
import PiJade.CborDecode
import PiJade.CborRpc
import PiJade.CborEnvelope
import PiJade.AddressSearch
import PiJade.AddressSearchTargets
import PiJade.AddressSearchRuns
import PiJade.PsbtReply
import PiJade.PsbtRequests
import PiJade.PsbtReplyRuns
import PiJade.DigitEntry
import PiJade.DigitEntryRuns
import PiJade.AuthUser
import PiJade.SignMessage
import PiJade.SignMessageFields
import PiJade.SignMessageRuns
import PiJade.SignMessageRequests
import PiJade.SignMessageProcess
import PiJade.IdleTimer
import PiJade.IdleTimerRuns
import PiJade.ButtonsGpio
import PiJade.ButtonsRuns
import PiJade.SettingsBound
import PiJade.RegistrationPersist
import PiJade.PolyMod
import PiJade.Slip39English
import PiJade.Slip39Checksum
import PiJade.Slip39Encode
import PiJade.Slip39Record
import PiJade.DescriptorChecksum
import PiJade.JsonSpacing
import PiJade.DescriptorStable
import PiJade.Pads
import PiJade.MnemonicFinal
import PiJade.MnemonicEntry
import PiJade.MnemonicEntryWords
import PiJade.MnemonicEntryRuns
import PiJade.SeedXor
import PiJade.ParseUint
import PiJade.Deviation
import PiJade.CameraSignature
import PiJade.RingBuffer
import PiJade.CameraGate
import PiJade.Slip39Feistel
import PiJade.Slip39WordIndex
import PiJade.Base32Buffers
import PiJade.UrlCodec
import PiJade.Otp
import PiJade.HotpCounter
import PiJade.OtpMigration
import PiJade.OtpRoundTrip
import PiJade.CborEntries
import PiJade.CryptoOutput
import PiJade.CryptoOutputDeclared
import PiJade.CryptoOutputReads
import PiJade.CryptoOutputKeys
import PiJade.CryptoOutputFaithful
import PiJade.CborShort
import PiJade.CryptoAccount
import PiJade.CryptoAccountBytes
import PiJade.CryptoAccountRead
