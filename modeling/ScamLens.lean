import ScamLens.ScanWorker
import ScamLens.Heuristics
import ScamLens.EventRuns
import ScamLens.ResolverFailures
import ScamLens.Tables
import ScamLens.ScanControl
import ScamLens.DomainEntries
import ScamLens.ListRefresh
import ScamLens.Services
import ScamLens.Answers
import ScamLens.BlockRequests
import ScamLens.UnblockRequests
import ScamLens.ScanErrors
import ScamLens.PendingMarkers
import ScamLens.TableOverlaps
import ScamLens.WhitelistRules
import ScamLens.LockLeases
import ScamLens.ScrapeLocks
import ScamLens.LookupDomains
import ScamLens.DeepScans
import ScamLens.ConcurrentSaves
import ScamLens.GuardianLinks
import ScamLens.UrlSyntax
import ScamLens.ProfileUrls
import ScamLens.DohBindings
import ScamLens.ListKeys
import ScamLens.QuickLookups
import ScamLens.ResolverAnswers
import ScamLens.BlockAudits
import ScamLens.ScanClaims
import ScamLens.ExtractedUrls
import ScamLens.ScrapedPosts
import ScamLens.ReportModeration
import ScamLens.EventFeed
import ScamLens.ClientAddresses
import ScamLens.BoundedQueues
import ScamLens.EventBuses
import ScamLens.EditDistances
import ScamLens.TyposquatRules
import ScamLens.Lookalikes
import ScamLens.VerdictFusion
import ScamLens.MatchCounts
import ScamLens.PaddedPages
import ScamLens.JsonTexts
import ScamLens.ModelAnswers
import ScamLens.ScanOutcomes
import ScamLens.DomainAges
import ScamLens.PushSends
import ScamLens.RegistrableLabels
import ScamLens.UpstreamSockets
import ScamLens.DomainGrammar
import ScamLens.LinkedUrls
import ScamLens.RunMatches
import ScamLens.UrlExtraction
import ScamLens.BrandTokens
import ScamLens.ChainMatches
import ScamLens.ScanDrains
import ScamLens.SubredditNames
import ScamLens.JsonDumps
import ScamLens.VerdictTexts
import ScamLens.AlertStreams
import ScamLens.Base64Texts
import ScamLens.BlockTexts
import ScamLens.DohRequests
import ScamLens.PushRuns
import ScamLens.Sessions
import ScamLens.UrlhausFeeds
import ScamLens.ScrapeRuns
import ScamLens.LinkViews
import ScamLens.BlockPages
import ScamLens.PopularityImports
import ScamLens.DeepPages
import ScamLens.PushNotices
import ScamLens.PushKeys
import ScamLens.PageLinks
