import RemoteDesktopTool.Checked
import RemoteDesktopTool.Grid
import RemoteDesktopTool.Parser
import RemoteDesktopTool.Display
import RemoteDesktopTool.Terminal
import RemoteDesktopTool.DisplayFits
import RemoteDesktopTool.DisplayEdits
import RemoteDesktopTool.TerminalFits
import RemoteDesktopTool.ParserUtf8
import RemoteDesktopTool.TerminalSafety
import RemoteDesktopTool.ResizeSafety
import RemoteDesktopTool.PrintSteps
import RemoteDesktopTool.ReadCuts
import RemoteDesktopTool.ParserText
import RemoteDesktopTool.TextLayout
import RemoteDesktopTool.TextScreen
import RemoteDesktopTool.TextTyping
import RemoteDesktopTool.TextOutput
import RemoteDesktopTool.Masking
import RemoteDesktopTool.Redact
import RemoteDesktopTool.PairScan
import RemoteDesktopTool.RedactSecrets
import RemoteDesktopTool.Tracing
import RemoteDesktopTool.RedactPairs
import RemoteDesktopTool.ScrubbedPairs
import RemoteDesktopTool.RedactTwice
import RemoteDesktopTool.Origins
import RemoteDesktopTool.KeyCase
import RemoteDesktopTool.SeparateMasks
import RemoteDesktopTool.SecretOverlaps
import RemoteDesktopTool.Errors
import RemoteDesktopTool.HostPatterns
import RemoteDesktopTool.KnownHosts
import RemoteDesktopTool.HostKeyVerdict
import RemoteDesktopTool.CertificateTrust
import RemoteDesktopTool.HostKeyHandler
import RemoteDesktopTool.Ids
import RemoteDesktopTool.Runs
import RemoteDesktopTool.Sessions
import RemoteDesktopTool.SessionLimit
import RemoteDesktopTool.SessionNotices
import RemoteDesktopTool.ConfigStore
import RemoteDesktopTool.ProfileKeys
import RemoteDesktopTool.ConfigSave
import RemoteDesktopTool.SftpUpload
import RemoteDesktopTool.UploadKeeps
import RemoteDesktopTool.FileSteps
import RemoteDesktopTool.StoreFiles
import RemoteDesktopTool.CrashSafety
import RemoteDesktopTool.Base64
import RemoteDesktopTool.Utf8Text
import RemoteDesktopTool.Vault
import RemoteDesktopTool.TreeMaps
import RemoteDesktopTool.VaultFile
import RemoteDesktopTool.VaultMap
import RemoteDesktopTool.VaultRefinement
import RemoteDesktopTool.Blocks
import RemoteDesktopTool.SealedBlocks
import RemoteDesktopTool.VaultFailures
import RemoteDesktopTool.KnownHostLines
import RemoteDesktopTool.HostNames
import RemoteDesktopTool.KnownHostsAccept
import RemoteDesktopTool.KnownHostsFile
import RemoteDesktopTool.KnownHostsRuns
import RemoteDesktopTool.ParserAgreement
import RemoteDesktopTool.ControlStrings
import RemoteDesktopTool.DisplayFrames
import RemoteDesktopTool.DisplayEffects
import RemoteDesktopTool.AlternateScreen
import RemoteDesktopTool.AlternateHistory
import RemoteDesktopTool.KnownHostsRewrite
import RemoteDesktopTool.KnownHostsFrame
import RemoteDesktopTool.HashedHosts
import RemoteDesktopTool.HostKeyDeciders
import RemoteDesktopTool.PinStore
import RemoteDesktopTool.FirstUse
import RemoteDesktopTool.PinRuns
import RemoteDesktopTool.ReadModifyWrite
import RemoteDesktopTool.KnownHostsOverlap
import RemoteDesktopTool.Slices
import RemoteDesktopTool.Framebuffer
import RemoteDesktopTool.FramebufferPixels
import RemoteDesktopTool.FramebufferDamage
import RemoteDesktopTool.ClampedUpdates
import RemoteDesktopTool.FramebufferSizes
import RemoteDesktopTool.VaultCosts
import RemoteDesktopTool.ConfigLoad
import RemoteDesktopTool.ServedProfiles
import RemoteDesktopTool.Utf8Cuts
import RemoteDesktopTool.LossyUtf8
import RemoteDesktopTool.SecretStore
import RemoteDesktopTool.StoredSecrets
import RemoteDesktopTool.FixedSize
import RemoteDesktopTool.HeldRows
import RemoteDesktopTool.RowWidths
import RemoteDesktopTool.DisplayPen
import RemoteDesktopTool.PendingWrap
import RemoteDesktopTool.PrintedPlaces
import RemoteDesktopTool.RdpSession
import RemoteDesktopTool.RdpSteps
import RemoteDesktopTool.RdpClosed
import RemoteDesktopTool.RdpResponses
import RemoteDesktopTool.TransferCancel
import RemoteDesktopTool.UploadSteps
import RemoteDesktopTool.AuditLog
import RemoteDesktopTool.AuditTrail
import RemoteDesktopTool.Utf8Pieces
import RemoteDesktopTool.LinesInPieces
import RemoteDesktopTool.LogWriter
import RemoteDesktopTool.LogWriterCuts
import RemoteDesktopTool.SecretEquality
import RemoteDesktopTool.SshAuthentication
import RemoteDesktopTool.RefusedCertificates
import RemoteDesktopTool.CsiSequences
import RemoteDesktopTool.Paste
import RemoteDesktopTool.PendingUtf8
import RemoteDesktopTool.SentSequences
import RemoteDesktopTool.SgrTokens
import RemoteDesktopTool.Reachability
import RemoteDesktopTool.Windows
import RemoteDesktopTool.LineEdits
import RemoteDesktopTool.ShrinkingResize
import RemoteDesktopTool.VerticalMotion
import RemoteDesktopTool.Titles
import RemoteDesktopTool.ColonParameters
import RemoteDesktopTool.ModeLists
import RemoteDesktopTool.InertGraphics
import RemoteDesktopTool.QualifiedSequences
import RemoteDesktopTool.Seams
import RemoteDesktopTool.RowEdits
import RemoteDesktopTool.EditedRows
import RemoteDesktopTool.GlyphTags
import RemoteDesktopTool.WideGlyphs
import RemoteDesktopTool.AuthorityLines
import RemoteDesktopTool.Globbing
import RemoteDesktopTool.HostGlobs
import RemoteDesktopTool.ControlInsertions
import RemoteDesktopTool.Brackets
import RemoteDesktopTool.DcsBrackets
import RemoteDesktopTool.Repaints
import RemoteDesktopTool.Erasures
import RemoteDesktopTool.Overflow
import RemoteDesktopTool.ReconnectPolicy
import RemoteDesktopTool.ReconnectDelays
import RemoteDesktopTool.Endpoints
import RemoteDesktopTool.EndpointTexts
import RemoteDesktopTool.ByteSlices
import RemoteDesktopTool.IdTexts
import RemoteDesktopTool.IdParsing
import RemoteDesktopTool.Migrations
import RemoteDesktopTool.SessionSlots
import RemoteDesktopTool.SessionAttempts
import RemoteDesktopTool.SessionCommands
import RemoteDesktopTool.Utf16
import RemoteDesktopTool.RdpInputs
import RemoteDesktopTool.OpenFiles
import RemoteDesktopTool.Downloads
import RemoteDesktopTool.DownloadRuns
import RemoteDesktopTool.Joined
import RemoteDesktopTool.ScrollbackRuns
import RemoteDesktopTool.Gregorian
import RemoteDesktopTool.MachineInts
import RemoteDesktopTool.Timestamps
import RemoteDesktopTool.CivilDates
import RemoteDesktopTool.UnitSyntax
import RemoteDesktopTool.UnitCommands
import RemoteDesktopTool.ServiceUnits
import RemoteDesktopTool.ShellQuoting
import RemoteDesktopTool.ServiceUnitReading
import RemoteDesktopTool.Drawings
import RemoteDesktopTool.Redraws
import RemoteDesktopTool.FrontReading
import RemoteDesktopTool.KeyInput
import RemoteDesktopTool.KeyReading
import RemoteDesktopTool.Keystrokes
import RemoteDesktopTool.LogPipeline
import RemoteDesktopTool.LogPages
import RemoteDesktopTool.SecretStoreRuns
import RemoteDesktopTool.Shuffles
import RemoteDesktopTool.Desktop
import RemoteDesktopTool.DesktopCommands
import RemoteDesktopTool.Agent
import RemoteDesktopTool.AgentReplies
import RemoteDesktopTool.LexBlocks
import RemoteDesktopTool.StampOrder
import RemoteDesktopTool.RegionOutput
import RemoteDesktopTool.FileOwners
import RemoteDesktopTool.StoreSaves
import RemoteDesktopTool.SftpRoundTrip
import RemoteDesktopTool.SshVisits
import RemoteDesktopTool.ProfileBook
