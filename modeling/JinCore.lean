import JinCore.Audit.Lock
import JinCore.Budget.SessionCap
import JinCore.Agent.HonestResults
import JinCore.Agent.LeastPrivilege
import JinCore.Agent.TurnTags
import JinCore.Agent.TurnProtocol
import JinCore.Hitl.Rejection
import JinCore.Hitl.Creation
import JinCore.Hitl.Escalation
import JinCore.Hitl.Restore
import JinCore.Autonomy.CircuitBreaker
import JinCore.FeatureFlags.Raised
import JinCore.Terminal.PtyService
import JinCore.Orchestrator.Objective
import JinCore.Orchestrator.Conflicts
import JinCore.Orchestrator.Killed
import JinCore.Telegram.Conversation
import JinCore.Relay.Answers
import JinCore.RateLimit.Window
import JinCore.Budget.AlertMonitor
import JinCore.Budget.Unpause
import JinCore.Auth.Sockets
import JinCore.Terminal.Detached
import JinCore.ExecutorClient.EnvValues
import JinCore.Lib.Nesting
import JinCore.Lib.Regex
import JinCore.Telegram.Format
import JinCore.Telegram.Passes
import JinCore.Telegram.SafeHtml
import JinCore.Relay.Quota
import JinCore.ProjectSnapshots.Bounded
import JinCore.Memory.Recall
import JinCore.Corpus.Agreement
import JinCore.Orchestrator.Board
import JinCore.Telegram.ConsolidatedOnce
import JinCore.Telegram.Truthful
import JinCore.Telegram.CardsSafe
import JinCore.ExecutorClient.EnvHidden
import JinCore.Terminal.Chunking
import JinCore.Terminal.Replay
import JinCore.ModelProvider.OpenAI
import JinCore.Audit.Listing
import JinCore.Orchestrator.RunListing
import JinCore.Terminal.RedactSecrets
import JinCore.Telegram.ChunkLimit
import JinCore.Telegram.PlainText
import JinCore.Telegram.Restoring
import JinCore.Relay.Replies
import JinCore.Agent.HistoryCut
import JinCore.Security.SourceSummary
import JinCore.Autonomy.ModeCommand
import JinCore.ModelProvider.ChatPreference
import JinCore.Google.GmailSend
import JinCore.Google.RateLimit
import JinCore.ExecutorClient.StaticServer
import JinCore.Terminal.PreviewBody
import JinCore.Terminal.PreviewTarget
import JinCore.Push.LiveActivity
import JinCore.Push.Tokens
import JinCore.Agent.WireProtocol
import JinCore.Mcp.Client
import JinCore.Relay.Inbox
import JinCore.Hitl.OneAction
import JinCore.Terminal.OwnerAudited
import JinCore.Canvas.MorningAlert
import JinCore.Terminal.AsAsked
