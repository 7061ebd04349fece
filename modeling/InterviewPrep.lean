import InterviewPrep.ApprovalCallback.Progress
import InterviewPrep.CircuitBreaker.Agreement
import InterviewPrep.CircuitBreaker.Outage
import InterviewPrep.CircuitBreaker.Probe
import InterviewPrep.CitationIntegrity.Agreement
import InterviewPrep.CitationIntegrity.Counts
import InterviewPrep.ContentFilter.FailClosed
import InterviewPrep.ContentFilter.TypeScript
import InterviewPrep.DocumentBatch.Agreement
import InterviewPrep.DocumentChunking.Chunks
import InterviewPrep.Dsa.AnyProbe
import InterviewPrep.Dsa.ContainerWithMostWater
import InterviewPrep.Dsa.CountIslands
import InterviewPrep.Dsa.FirstDuplicateRequest
import InterviewPrep.Dsa.LevelOrder
import InterviewPrep.Dsa.MaximumDepth
import InterviewPrep.Dsa.MostFrequentEvent
import InterviewPrep.Dsa.PostfixDivision
import InterviewPrep.Dsa.PostfixGrammar
import InterviewPrep.Dsa.PythonOrder
import InterviewPrep.Dsa.PythonProbe
import InterviewPrep.Dsa.SimplifyPath
import InterviewPrep.Dsa.ValidParentheses
import InterviewPrep.EmbeddingMigration.Agreement
import InterviewPrep.IdempotentExecutor.Cancellation
import InterviewPrep.IdempotentExecutor.LockScope
import InterviewPrep.IdempotentExecutor.Outcomes
import InterviewPrep.IdempotentExecutor.Reentrancy
import InterviewPrep.Jobs.Retries
import InterviewPrep.Jobs.Service
import InterviewPrep.LegacyAdapter.Agreement
import InterviewPrep.LegacyAdapter.RoundTrip
import InterviewPrep.ModelRouting.Ranking
import InterviewPrep.PlanValidator.Agreement
import InterviewPrep.PlanValidator.CycleReports
import InterviewPrep.RateLimiting.Window
import InterviewPrep.RequestDedup.Python
import InterviewPrep.RequestDedup.TypeScript
import InterviewPrep.TicketRetry.Service
import InterviewPrep.ToolRunner.Bounds
import InterviewPrep.ToolRunner.LateAbort
import InterviewPrep.ToolRunner.PythonContract
import InterviewPrep.TraceCorrelator.Agreement
import InterviewPrep.TraceCorrelator.Order
import InterviewPrep.TtlCache.Recency
