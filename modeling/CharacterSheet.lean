import CharacterSheet.Inspect
import CharacterSheet.Json.Saved
import CharacterSheet.Sheet
import CharacterSheet.Trial
import CharacterSheet.Proofs.Membership.Memberships
import CharacterSheet.Proofs.Sweep.Transparency
import CharacterSheet.Proofs.Announcement.Attending
import CharacterSheet.Proofs.Membership.Accounting
import CharacterSheet.Proofs.Sweep.Clearing
import CharacterSheet.Proofs.Membership.Conveying
import CharacterSheet.Proofs.Calculation.Uncaching
import CharacterSheet.Proofs.Announcement.Delivering
import CharacterSheet.Proofs.Announcement.Deferring
import CharacterSheet.Proofs.Subscription.Registries
import CharacterSheet.Proofs.Announcement.Calling
import CharacterSheet.Proofs.History.Histories
import CharacterSheet.Proofs.History.Enforcing
import CharacterSheet.Proofs.History.Diaries
import CharacterSheet.Proofs.Announcement.Ordering
import CharacterSheet.Proofs.Total.Isolating
import CharacterSheet.Proofs.Sweep.Collecting
import CharacterSheet.Proofs.Calculation.Looping
import CharacterSheet.Proofs.Calculation.Ranking
import CharacterSheet.Proofs.Sweep.Trimming
import CharacterSheet.Proofs.Identity.Naming
import CharacterSheet.Proofs.Membership.Refusing
import CharacterSheet.Proofs.Membership.Undoing
import CharacterSheet.Proofs.Announcement.Flushing
import CharacterSheet.Proofs.Identity.Binding
import CharacterSheet.Proofs.Total.Explaining
import CharacterSheet.Proofs.Invalidation.Pinpointing
import CharacterSheet.Proofs.Invalidation.Marking
import CharacterSheet.Proofs.Total.Conserving
import CharacterSheet.Proofs.Total.Electing
import CharacterSheet.Proofs.Total.Outranking
