import SweptCache.Settings.Reader
import SweptCache.Session
import SweptCache.Proofs.SweepBounds
import SweptCache.Proofs.SweepOrder
import SweptCache.Proofs.Orphans
import SweptCache.Proofs.Transparency
import SweptCache.Proofs.Admission
import SweptCache.Proofs.Deduplication
import SweptCache.Proofs.SingleAssignment
import SweptCache.Proofs.Closing
import SweptCache.Proofs.LoneClients
import SweptCache.Proofs.AdmissionOrder
import SweptCache.Proofs.SizeLimit
import SweptCache.Proofs.SweepOverflow
import SweptCache.Proofs.WrittenSettings
import SweptCache.Proofs.ShutdownReach
import SweptCache.Proofs.EvictionRule
import SweptCache.Proofs.EasedLimits
import SweptCache.Proofs.RepeatedSweeps
import SweptCache.Proofs.PlanArithmetic
import SweptCache.Proofs.ScriptCourses
import SweptCache.Proofs.Settling
import SweptCache.Proofs.UndisturbedRuns
import SweptCache.Proofs.BackgroundRuns
import SweptCache.Proofs.IndexRemoval
import SweptCache.Proofs.StandardScores
import SweptCache.Proofs.StoredHits
import SweptCache.Proofs.EntryRecords
import SweptCache.Proofs.EntryTimes
