import StatsProxy.ConfigText
import StatsProxy.ConfigGrammar
import StatsProxy.GlobalUris
import StatsProxy.SettingsValid
import StatsProxy.StatsCallback
import StatsProxy.ReplyPairing
import StatsProxy.WriteResult
import StatsProxy.ReporterCommand
import StatsProxy.McrDescriptors
import StatsProxy.HttpResponse
import StatsProxy.TopKeysLink
import StatsProxy.SharedStatics
import StatsProxy.McrConfig
import StatsProxy.HealthReply
import StatsProxy.PublishedReplies
import StatsProxy.CallerReplies
import StatsProxy.ReadDeadline
import StatsProxy.ServedLines
import StatsProxy.StatsCommand
import StatsProxy.UriCodec
import StatsProxy.HealthDurations
import StatsProxy.IntegerLiterals
import StatsProxy.StoredNumbers
import StatsProxy.LexerBuffer
import StatsProxy.McrBuffers
import StatsProxy.AddressCache
import StatsProxy.OpLabel
import StatsProxy.PrintedMemory
import StatsProxy.PollSchedule
import StatsProxy.MirroredCycle
import StatsProxy.AtomicCache
import StatsProxy.RelayedStats
import StatsProxy.ConfigPage
