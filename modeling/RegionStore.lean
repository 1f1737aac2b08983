import RegionStore.Proofs.CheckedRuns
import RegionStore.Proofs.ConfinedAccess
import RegionStore.Proofs.Contents
import RegionStore.Proofs.CutRanges
import RegionStore.Proofs.CyclicOrder
import RegionStore.Proofs.Deadlines
import RegionStore.Proofs.FreeAddresses
import RegionStore.Proofs.InterleavedSweeps
import RegionStore.Proofs.LargestFit
import RegionStore.Proofs.LeaseHistory
import RegionStore.Proofs.Lifetimes
import RegionStore.Proofs.LowestFit
import RegionStore.Proofs.Refitting
import RegionStore.Proofs.Renewal
import RegionStore.Proofs.Reservations
import RegionStore.Proofs.Retries
import RegionStore.Proofs.SharedRouting
import RegionStore.Proofs.Shortages
import RegionStore.Proofs.SizeGrammar
import RegionStore.Proofs.SlotLayout
import RegionStore.Proofs.SlotPeaks
import RegionStore.Proofs.SlotRouting
import RegionStore.Proofs.Staleness
import RegionStore.Proofs.SweepRounds
import RegionStore.Proofs.Sweeps
import RegionStore.Proofs.Tallies
import RegionStore.Proofs.UseRanking
import RegionStore.Proofs.ValidSettings
import RegionStore.Settings.Decode
import RegionStore.Store.Build
import RegionStore.Store.Sweep
