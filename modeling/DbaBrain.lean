import DbaBrain.Lib.NextDueAt
import DbaBrain.Lib.TimeWindows
import DbaBrain.Jobs.TrackedChildren
import DbaBrain.Jobs.OverlappingScans
import DbaBrain.Jobs.LiveClaims
import DbaBrain.Db.OpenRunsArchive
import DbaBrain.Jobs.DueAfterArchive
import DbaBrain.Db.ConfigEdit
import DbaBrain.BackupRestore.DeleteBackup
import DbaBrain.BackupRestore.RestoreLog
import DbaBrain.BackupRestore.PointInTimeChain
import DbaBrain.BackupRestore.LatestChain
import DbaBrain.BackupRestore.ReleaseFloor
import DbaBrain.Db.FirstChecksums
import DbaBrain.Db.OffloadEvidence
import DbaBrain.Db.RowChainTampering
import DbaBrain.Db.SqliteToPostgres
import DbaBrain.Db.DeltaMigration
import DbaBrain.Db.LockdownStore
import DbaBrain.Db.LoginThrottle
import DbaBrain.Db.SessionRevocation
import DbaBrain.Telegram.PendingSends
import DbaBrain.Telegram.LiveQuestions
import DbaBrain.Lib.BundleSecrets
import DbaBrain.Lib.BundleImport
import DbaBrain.Db.MetricArchive
import DbaBrain.Metrics.DueAfterFailure
import DbaBrain.Telegram.BackgroundTasks
import DbaBrain.Telegram.RateLimits
import DbaBrain.BackupRestore.RestoreById
import DbaBrain.Lib.NewestChainKept
import DbaBrain.Lib.RetentionFold
import DbaBrain.Common.SchemaCopy
import DbaBrain.Db.InterruptedBackfill
import DbaBrain.SqlTasks.RunEnding
import DbaBrain.Lib.StateTransition
import DbaBrain.Lib.LsnChain
import DbaBrain.Lib.WalSegments
import DbaBrain.Lib.BackupReceipts
import DbaBrain.Lib.IntervalRates
import DbaBrain.BackupRestore.RepositorySource
import DbaBrain.Lib.WeightedPercentiles
import DbaBrain.Lib.HeaderNames
import DbaBrain.Lib.SqlplusDefines
import DbaBrain.Lib.ParameterPrelude
import DbaBrain.Lib.WorkflowSteps
import DbaBrain.Telegram.MessageLimits
import DbaBrain.Lib.NamedBinding
import DbaBrain.Lib.CommandText
import DbaBrain.Jobs.InterpreterWord
import DbaBrain.Lib.TrieRegex
import DbaBrain.Sla.WorseSamples
import DbaBrain.Lib.SecretText
import DbaBrain.Lib.MssqlDdl
import DbaBrain.Lib.LogTail
import DbaBrain.Db.StatementTranslation
import DbaBrain.Db.ConsoleSecrets
import DbaBrain.Db.RecordKeys
import DbaBrain.Lib.RestoreSpace
import DbaBrain.Db.RestoreDrill
import DbaBrain.Db.CurrentSeverity
import DbaBrain.Metrics.VariantSupport
import DbaBrain.BackupRestore.RepositoryPasses
import DbaBrain.Lib.SecretWriters
